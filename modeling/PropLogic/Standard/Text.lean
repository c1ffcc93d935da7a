import PropLogic.Formula.Basic
import PropLogic.Text.Quoted

/-!
# The standard text of a formula

In standard notation a connective stands between its operands and every such pair has parentheses of
its own, so that no rule of precedence is needed: `~((p&q76)->~~r)`.  Formulas are compared through
these texts, by code points, and hashed through them.

Main statements: `Formula.isTextChar_of_mem_text`, with which characters a formula is written, and
`Formula.quoted_eq`, that none of them is changed between quotes.
-/

namespace PropLogic

namespace Formula

/-- The standard text of a formula. -/
def text : Formula → String
  | .var v => v.name
  | .const b => (Operator.const b).symbol
  | .not f => Operator.not.symbol ++ f.text
  | .binary c f g => "(" ++ f.text ++ c.symbol ++ g.text ++ ")"

theorem length_text_not (f : Formula) : (not f).text.length = f.text.length + 1 := by
  rw [text, String.length_append, Nat.add_comm]
  rfl

theorem length_text_binary (c : Connective) (f g : Formula) : (binary c f g).text.length =
    f.text.length + c.symbol.length + g.text.length + 2 := by
  have hopen : "(".length = 1 := rfl
  have hclose : ")".length = 1 := rfl
  simp only [text, String.length_append]
  omega

instance : ToString Formula where
  toString := text

/-- The standard text between quotes, marked as the text of a formula. -/
def quoted (f : Formula) : String :=
  "Formula(" ++ Text.quote f.text ++ ")"

/-- Formulas are told apart by their standard texts. -/
instance : BEq Formula where
  beq f g := f.text == g.text

/-- A hash looks at the standard text alone, as the comparison does, so that what is found in a
hashed set is decided by `==`. -/
instance : Hashable Formula where
  hash f := hash f.text

instance : LawfulHashable Formula where
  hash_eq f g h := by
    have htext : f.text = g.text := eq_of_beq h
    show hash f.text = hash g.text
    rw [htext]

/-- Formulas are ordered by their standard texts. -/
instance : Ord Formula where
  compare f g := compare f.text g.text

theorem beq_eq (f g : Formula) : (f == g) = (f.text == g.text) := rfl

theorem compare_eq (f g : Formula) : compare f g = compare f.text g.text := rfl

/-- The formulas of a list in the order of their texts, repetitions kept. -/
def sort (fs : List Formula) : List Formula :=
  fs.mergeSort fun f g => (compare f g).isLE

/-- The formulas of a list without its repetitions, as `==` tells them apart. -/
def distinct (fs : List Formula) : List Formula :=
  fs.eraseDups

end Formula

/-! ## Characters -/

/-- The characters of formulas. -/
def isTextChar (c : Char) : Bool :=
  isNameLetter c || c.isDigit || ['T', 'F', '~', '&', '|', '-', '>', '+', '<', '(', ')'].contains c

/-- They are printable characters of ASCII. -/
theorem val_of_isTextChar {c : Char} (hc : isTextChar c = true) :
    0x20 ≤ c.val ∧ c.val < 0x7F := by
  rw [isTextChar, Bool.or_eq_true, Bool.or_eq_true] at hc
  rcases hc with (hc | hc) | hc
  · rw [isNameLetter, Bool.and_eq_true, decide_eq_true_iff, decide_eq_true_iff] at hc
    exact ⟨UInt32.le_trans (by decide) hc.1, UInt32.lt_of_le_of_lt hc.2 (by decide)⟩
  · rw [Char.isDigit, Bool.and_eq_true, decide_eq_true_iff, decide_eq_true_iff] at hc
    exact ⟨UInt32.le_trans (by decide) hc.1, UInt32.lt_of_le_of_lt hc.2 (by decide)⟩
  · have hsigns : ['T', 'F', '~', '&', '|', '-', '>', '+', '<', '(', ')'].all
        (fun c => decide (0x20 ≤ c.val ∧ c.val < 0x7F)) = true := by decide
    exact of_decide_eq_true (List.all_eq_true.mp hsigns c (List.contains_iff_mem.mp hc))

theorem Var.isTextChar_of_mem_name {v : Var} {c : Char} (hc : c ∈ v.name.toList) :
    isTextChar c = true := by
  obtain ⟨d, ds, hv, hd, hds⟩ := v.exists_name_eq_cons
  rw [hv, List.mem_cons] at hc
  rcases hc with rfl | hc
  · simp [isTextChar, hd]
  · simp [isTextChar, hds c hc]

theorem Operator.isTextChar_of_mem_symbol {o : Operator} {c : Char} (hc : c ∈ o.symbol.toList) :
    isTextChar c = true := by
  have key : ∀ o ∈ Operator.all, o.symbol.toList.all isTextChar = true := by decide
  exact List.all_eq_true.mp (key o o.mem_all) c hc

/-- A formula is written with the characters of names and symbols, and with parentheses. -/
theorem Formula.isTextChar_of_mem_text {f : Formula} {c : Char} (hc : c ∈ f.text.toList) :
    isTextChar c = true := by
  induction f with
  | var v => exact Var.isTextChar_of_mem_name hc
  | const b => exact Operator.isTextChar_of_mem_symbol hc
  | not f ih =>
    rw [text, String.toList_append, List.mem_append] at hc
    exact hc.elim Operator.isTextChar_of_mem_symbol ih
  | binary k f g ihf ihg =>
    have hopen : "(".toList.all isTextChar = true := by decide
    have hclose : ")".toList.all isTextChar = true := by decide
    simp only [text, String.toList_append, List.mem_append] at hc
    rcases hc with (((hc | hc) | hc) | hc) | hc
    · exact List.all_eq_true.mp hopen c hc
    · exact ihf hc
    · exact Operator.isTextChar_of_mem_symbol (o := .binary k) hc
    · exact ihg hc
    · exact List.all_eq_true.mp hclose c hc

/-- **A quoted formula shows its standard text as it is.** -/
theorem Formula.quoted_eq (f : Formula) : f.quoted = "Formula(\"" ++ f.text ++ "\")" := by
  have hchars : ∀ c ∈ f.text.toList, Text.isShown c = true ∧ c ≠ '\\' ∧ c ≠ '"' := by
    intro c hc
    have hchar := isTextChar_of_mem_text hc
    obtain ⟨hblank, hascii⟩ := val_of_isTextChar hchar
    refine ⟨(Text.isShown_iff_of_lt hascii).mpr hblank, ?_, ?_⟩
    · rintro rfl
      exact absurd hchar (by decide)
    · rintro rfl
      exact absurd hchar (by decide)
  rw [quoted, Text.quote_eq_of_forall hchars, ← String.toList_inj]
  simp

end PropLogic

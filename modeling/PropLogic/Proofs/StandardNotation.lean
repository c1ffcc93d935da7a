import PropLogic.Standard.Reader

/-!
# Standard notation is read and written exactly

Reading a formula in front of any text takes exactly its standard text off
(`Standard.read_eq_ok_iff`).  The only care is needed behind a variable name: a text that ends in
one would be read on if a digit followed.  Everywhere inside a formula an operator or a parenthesis
follows, so the induction over the formula never meets this case.

Main statement: `Formula.parse_eq_ok_iff_eq_text`, that the texts which can be read are the standard
texts of formulas, each as the formula that it is the text of.
-/

namespace PropLogic

open Var (EndsName endsName_nil endsName_cons)

namespace Formula

/-- Whether the standard text ends in a variable name, which a digit behind it would prolong. -/
def endsInName : Formula → Bool
  | .var _ => true
  | .const _ => false
  | .not f => f.endsInName
  | .binary _ _ _ => false

/-! ## The characters of the standard text -/

theorem toList_text_const (b : Bool) : (const b).text.toList = [if b then 'T' else 'F'] := by
  cases b <;> rfl

theorem toList_text_not (f : Formula) : (not f).text.toList = '~' :: f.text.toList := by
  rw [text, String.toList_append]
  rfl

theorem toList_text_binary (c : Connective) (f g : Formula) (r : List Char) :
    (binary c f g).text.toList ++ r =
      '(' :: (f.text.toList ++ (c.symbol.toList ++ (g.text.toList ++ ')' :: r))) := by
  simp [text]

end Formula

namespace Standard

/-! ## The front of a text -/

/-- The formula that the reader takes off the front of a text, and the rest. -/
def front (s : List Char) : Except Halt (Formula × List Char) :=
  (read s).map fun a => (a.formula, a.rest)

theorem front_name {s r : List Char} {v : Var} (h : Var.read? s = some (v, r)) :
    front s = .ok (.var v, r) := by
  rw [front, read.eq_def]
  split
  · simp [Var.read?] at h
  · simp [Var.read?_cons_eq_none (show isNameLetter 'T' = false by decide)] at h
  · simp [Var.read?_cons_eq_none (show isNameLetter 'F' = false by decide)] at h
  · simp [Var.read?_cons_eq_none (show isNameLetter '~' = false by decide)] at h
  · simp [Var.read?_cons_eq_none (show isNameLetter '(' = false by decide)] at h
  · split
    · next hv => simp [hv] at h
    · next w r₁ hv =>
      rw [hv] at h
      cases h
      rfl

theorem front_const (b : Bool) (r : List Char) :
    front ((Formula.const b).text.toList ++ r) = .ok (.const b, r) := by
  rw [front, read.eq_def]
  cases b <;> rfl

theorem front_not (s : List Char) :
    front ('~' :: s) = (front s).map fun p => (.not p.1, p.2) := by
  rw [front, front, read.eq_def]
  simp only
  cases read s <;> rfl

/-- The compound of two formulas, if a closing parenthesis follows. -/
def close (c : Connective) (f g : Formula) : List Char → Except Halt (Formula × List Char)
  | ')' :: r => .ok (.binary c f g, r)
  | r => .error ⟨.noClosingParen, r⟩

theorem close_eq_error {c : Connective} {f g : Formula} {r : List Char}
    (hr : ¬ [')'] <+: r) : close c f g r = .error ⟨.noClosingParen, r⟩ := by
  unfold close
  split
  · next r => exact absurd (List.prefix_append [')'] r) hr
  · rfl

/-- Behind a parenthesis the reader halts where it halts in the first operand. -/
theorem front_paren_of_error {s : List Char} {h : Halt} (hs : front s = .error h) :
    front ('(' :: s) = .error h := by
  rw [front, read.eq_def]
  simp only [Reading.map_eq_error_iff.mp hs]
  rfl

/-- Behind the first operand it halts unless there is a connective. -/
theorem front_paren_of_none {s r : List Char} {f : Formula} (hs : front s = .ok (f, r))
    (hc : Connective.read? r = none) : front ('(' :: s) = .error ⟨.noOperator, r⟩ := by
  obtain ⟨a, ha, rfl, rfl⟩ := Reading.map_eq_ok_iff.mp hs
  rw [front, read.eq_def]
  simp only [ha]
  split
  · rfl
  · next c r hc' => simp [hc'] at hc

/-- Behind the connective it reads the second operand and looks for the closing parenthesis. -/
theorem front_paren_of_some {s r r₁ : List Char} {f : Formula} {c : Connective}
    (hs : front s = .ok (f, r)) (hc : Connective.read? r = some (c, r₁)) :
    front ('(' :: s) = (front r₁).bind fun q => close c f q.1 q.2 := by
  obtain ⟨a, ha, rfl, rfl⟩ := Reading.map_eq_ok_iff.mp hs
  rw [front, read.eq_def]
  simp only [ha]
  split
  · next hn => simp [hn] at hc
  · next c' r₁' hc' =>
    rw [hc'] at hc
    cases hc
    rw [front]
    cases read r₁ with
    | error h => rfl
    | ok b =>
      simp only
      split
      · next r₂ hb =>
        have hclose : close c a.formula b.formula b.rest =
            .ok (.binary c a.formula b.formula, r₂) := by rw [hb, close]
        exact hclose.symm
      · next hb =>
        have hclose : ¬ [')'] <+: b.rest := by
          rintro ⟨r₂, hr₂⟩
          exact hb r₂ hr₂.symm
        exact (close_eq_error hclose).symm

/-! ## From the text to the formula -/

/-- **The standard text of a formula is read**, whatever follows, as long as no digit prolongs a
name at its end. -/
theorem front_text_append (f : Formula) {r : List Char}
    (hr : f.endsInName = true → EndsName r) : front (f.text.toList ++ r) = .ok (f, r) := by
  induction f generalizing r with
  | var v => exact front_name (Var.read?_name_append v (hr rfl))
  | const b => exact front_const b r
  | not f ih =>
    rw [Formula.toList_text_not, List.cons_append, front_not, ih hr]
    rfl
  | binary c f g ihf ihg =>
    -- names at the end of the operands are ended by the connective and by the parenthesis
    have hf := ihf fun _ => c.endsName_symbol_append (g.text.toList ++ ')' :: r)
    have hg := ihg (r := ')' :: r) fun _ => endsName_cons (by decide)
    rw [Formula.toList_text_binary, front_paren_of_some hf (c.read?_symbol_append _), hg]
    rfl

theorem front_text (f : Formula) : front f.text.toList = .ok (f, []) := by
  simpa using front_text_append f (r := []) fun _ => endsName_nil

/-! ## From the formula to the text -/

/-- **What is read is a standard text**: the text is that of the formula and the rest, and the rest
does not go on with a name at the end of it. -/
theorem eq_append_of_read {s : List Char} {a : Reading s} (h : read s = .ok a) :
    s = a.formula.text.toList ++ a.rest ∧ (a.formula.endsInName = true → EndsName a.rest) := by
  revert a
  fun_induction read s with
  | case1 | case4 | case6 | case7 | case8 | case10 | case11 =>
    -- the reader has halted: there is no formula
    intro a h
    cases h
  | case2 r | case3 r =>
    intro a h
    cases h
    exact ⟨by rw [Formula.toList_text_const]; rfl, fun hn => by cases hn⟩
  | case5 r b hb ih =>
    intro a h
    cases h
    obtain ⟨hs, hn⟩ := ih hb
    refine ⟨?_, hn⟩
    rw [Formula.toList_text_not, List.cons_append, ← hs]
  | case9 r b hb c r₁ hc d hd r₂ hr₂ closed ihr ihr₁ =>
    intro a h
    cases h
    refine ⟨?_, fun hn => by cases hn⟩
    rw [Formula.toList_text_binary, ← hr₂, ← (ihr₁ hd).1, ← Connective.eq_append_of_read? hc,
      ← (ihr hb).1]
  | case12 c r hT hF hnot hparen v r₁ hv =>
    intro a h
    cases h
    obtain ⟨hs, hn⟩ := Var.eq_append_of_read? hv
    exact ⟨hs, fun _ => hn⟩

/-- A formula is read off a text, with the rest that it leaves, exactly if the text is its standard
text and that rest, and the rest does not prolong a name at the end of the formula. -/
theorem read_eq_ok_iff {s r : List Char} {f : Formula} :
    (∃ a : Reading s, read s = .ok a ∧ a.formula = f ∧ a.rest = r) ↔
      s = f.text.toList ++ r ∧ (f.endsInName = true → EndsName r) := by
  constructor
  · rintro ⟨a, ha, rfl, rfl⟩
    exact eq_append_of_read ha
  · rintro ⟨rfl, hr⟩
    exact Reading.map_eq_ok_iff.mp (front_text_append f hr)

end Standard

namespace Formula

theorem parse_eq_ok_iff {s : String} {f : Formula} : parse s = .ok f ↔ s = f.text := by
  rw [parse, Halt.mapError_toError_eq_ok_iff, Reading.bind_whole_eq_ok_iff,
    Standard.read_eq_ok_iff, List.append_nil, String.toList_inj]
  exact and_iff_left fun _ => endsName_nil

/-- A standard text is the text of one formula only. -/
theorem text_injective : Function.Injective text := fun f g h => by
  have hparse : parse f.text = .ok f := parse_eq_ok_iff.mpr rfl
  rw [h, parse_eq_ok_iff.mpr rfl] at hparse
  exact (Except.ok.inj hparse).symm

/-- Telling formulas apart by their texts is telling them apart. -/
instance : LawfulBEq Formula where
  eq_of_beq {f g} h := text_injective (eq_of_beq ((beq_eq f g).symm.trans h))
  rfl {f} := (beq_eq f f).trans (beq_self_eq_true f.text)

/-- The front of a text is read as a formula exactly if the text is the standard text of the formula
and the rest, and the rest does not prolong a name at the end of the formula. -/
theorem parseFront_eq_ok_iff {s rest : String} {f : Formula} :
    parseFront s = .ok (f, rest) ↔
      s = f.text ++ rest ∧ (f.endsInName = true → EndsName rest.toList) := by
  rw [← String.toList_inj, String.toList_append, ← Standard.read_eq_ok_iff]
  unfold parseFront
  cases Standard.read s.toList with
  | error h => simp
  | ok a =>
    simp only [Except.ok.injEq, Prod.mk.injEq, exists_eq_left']
    rw [← String.toList_inj, String.toList_ofList]

theorem isFormula_iff {s : String} : isFormula s = true ↔ ∃ f : Formula, s = f.text := by
  have hfront : isFormula s = true ↔ ∃ f : Formula, parseFront s = .ok (f, "") := by
    unfold isFormula
    cases parseFront s with
    | error e => simp
    | ok a => simp [Prod.ext_iff, String.isEmpty_iff]
  rw [hfront]
  refine exists_congr fun f => ?_
  rw [parseFront_eq_ok_iff, String.append_empty]
  exact and_iff_left fun _ => endsName_nil

/-- **Standard notation is read and written exactly.**  A text is read as a formula if and only if it
is the formula's standard text; the check for formulas accepts the standard texts and nothing else,
and every other text is answered by a syntax error. -/
theorem parse_eq_ok_iff_eq_text (s : String) :
    (∀ f : Formula, parse s = .ok f ↔ s = f.text) ∧
      (isFormula s = true ↔ ∃ f : Formula, s = f.text) ∧
        ((∃ e : SyntaxError, parse s = .error e) ↔ ¬ ∃ f : Formula, s = f.text) := by
  refine ⟨fun f => parse_eq_ok_iff, isFormula_iff, ?_⟩
  simp only [← parse_eq_ok_iff]
  cases parse s <;> simp

end Formula

end PropLogic

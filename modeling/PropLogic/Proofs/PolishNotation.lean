import PropLogic.Formula.Parts
import PropLogic.Polish.Reader

/-!
# Polish notation is read and written exactly on its fragment

The Polish text of a formula is the sequence of its symbols in prefix order (`Formula.symbols`) with
nothing between them.  Nothing is needed: no symbol begins with a digit, so each one ends a variable
name in front of it, and a connective is complete when two formulas have been read behind it.
`Polish.front` is what the reader takes off the front of a text, with one equation for every kind of
formula.

The writer knows all connectives and the reader only three, so not every Polish text can be read:
reading halts at the first symbol of another connective (`Polish.exists_front_eq_error`), also where
it begins like `->`.

Main statement: `Formula.parsePolish_eq_ok_iff_eq_polish`.
-/

namespace PropLogic

open Var (EndsName endsName_nil endsName_cons endsName_name_append)

/-! ## Symbols in prefix order -/

namespace Formula

/-- The symbols of a formula, each operator before its operands. -/
def symbols : Formula → List String
  | .var v => [v.name]
  | .const b => [(Operator.const b).symbol]
  | .not f => Operator.not.symbol :: f.symbols
  | .binary c f g => c.symbol :: (f.symbols ++ g.symbols)

theorem polish_eq_join (f : Formula) : f.polish = String.join f.symbols := by
  induction f with
  | var v => rw [polish, symbols, String.join_cons, String.join_nil, String.append_empty]
  | const b => rw [polish, symbols, String.join_cons, String.join_nil, String.append_empty]
  | not f ih => rw [polish, symbols, String.join_cons, ih]
  | binary c f g ihf ihg =>
    rw [polish, symbols, String.join_cons, String.join_append, ihf, ihg, String.append_assoc]

theorem toList_polish_not (f : Formula) (r : List Char) :
    (not f).polish.toList ++ r = Operator.not.symbol.toList ++ (f.polish.toList ++ r) := by
  rw [polish, String.toList_append, List.append_assoc]

theorem toList_polish_binary (c : Connective) (f g : Formula) (r : List Char) :
    (binary c f g).polish.toList ++ r =
      c.symbol.toList ++ (f.polish.toList ++ (g.polish.toList ++ r)) := by
  rw [polish, String.toList_append, String.toList_append, List.append_assoc, List.append_assoc]

/-- A Polish text ends a name in front of it. -/
theorem endsName_polish_append (f : Formula) (r : List Char) :
    EndsName (f.polish.toList ++ r) := by
  cases f with
  | var v => exact v.endsName_name_append r
  | const b => cases b <;> exact endsName_cons (by decide)
  | not f =>
    rw [toList_polish_not]
    exact endsName_cons (by decide)
  | binary c f g =>
    rw [toList_polish_binary]
    exact c.endsName_symbol_append _

/-- The symbols of operators in the list are those of the operators that occur. -/
theorem symbol_mem_symbols_iff {f : Formula} {o : Operator} :
    o.symbol ∈ f.symbols ↔ o ∈ f.operators := by
  induction f with
  | var v =>
    have hne : o.symbol ≠ v.name := fun h => by simpa [h] using ofName?_symbol o
    simp [symbols, operators_var, hne]
  | const b =>
    rw [symbols, List.mem_singleton, mem_operators_const]
    exact ⟨Operator.symbol_injective, congrArg _⟩
  | not f ih =>
    rw [symbols, List.mem_cons, mem_operators_not, ih]
    exact or_congr_left ⟨Operator.symbol_injective, congrArg _⟩
  | binary c f g ihf ihg =>
    have hc : o.symbol = c.symbol ↔ o = .binary c :=
      ⟨fun h => Operator.symbol_injective h, fun h => h ▸ rfl⟩
    rw [symbols, List.mem_cons, List.mem_append, mem_operators_binary, ihf, ihg, hc]

end Formula

namespace Polish

/-! ## Formulas that the reader knows -/

/-- The operators that the reader knows. -/
def operators : List Operator :=
  [.const true, .const false, .not, .binary .and, .binary .or, .binary .implies]

/-- The reader knows all operators of the formula. -/
def Knows (f : Formula) : Prop :=
  ∀ o ∈ f.operators, o ∈ operators

theorem knows_var (v : Var) : Knows (.var v) := by
  simp [Knows, Formula.operators_var]

theorem knows_const (b : Bool) : Knows (.const b) := by
  rw [Knows, Formula.forall_mem_operators_const]
  cases b <;> decide

theorem knows_not_iff {f : Formula} : Knows (.not f) ↔ Knows f :=
  Formula.forall_mem_operators_not.trans (and_iff_right (by decide))

theorem mem_operators_binary_iff {c : Connective} :
    Operator.binary c ∈ operators ↔ c ∈ connectives := by
  cases c <;> decide

theorem knows_binary_iff {c : Connective} {f g : Formula} :
    Knows (.binary c f g) ↔ c ∈ connectives ∧ Knows f ∧ Knows g := by
  rw [Knows, Formula.forall_mem_operators_binary, mem_operators_binary_iff]
  rfl

/-! ## The front of a text -/

/-- The formula that the reader takes off the front of a text, and the rest. -/
def front (s : List Char) : Except Halt (Formula × List Char) :=
  (read s).map fun a => (a.formula, a.rest)

theorem front_name {s r : List Char} {v : Var} (h : Var.read? s = some (v, r)) :
    front s = .ok (.var v, r) := by
  rw [front, read.eq_def]
  split
  · simp [Var.read?] at h
  · simp [Var.read?_cons_eq_none (show isNameLetter 'T' = false by decide)] at h
  · simp [Var.read?_cons_eq_none (show isNameLetter 'F' = false by decide)] at h
  · simp [Var.read?_cons_eq_none (show isNameLetter '~' = false by decide)] at h
  · split
    · next w r₁ hv =>
      rw [hv] at h
      cases h
      rfl
    · next hv => simp [hv] at h

theorem front_const (b : Bool) (r : List Char) :
    front ((Operator.const b).symbol.toList ++ r) = .ok (.const b, r) := by
  rw [front, read.eq_def]
  cases b <;> rfl

theorem front_not (s : List Char) : front (Operator.not.symbol.toList ++ s) =
    (front s).map fun p => (.not p.1, p.2) := by
  show front ('~' :: s) = _
  rw [front, front, read.eq_def]
  simp only
  cases read s <;> rfl

theorem front_connective {s r : List Char} {c : Connective}
    (hc : readConnective? s = some (c, r)) : front s =
      (front r).bind fun p => (front p.2).map fun q => (.binary c p.1 q.1, q.2) := by
  have hname : Var.read? s = none := by
    rw [(eq_append_of_readConnective? hc).2, Var.read?_symbol_append]
  rw [front, read.eq_def]
  split
  · simp [readConnective?] at hc
  · simp [readConnective?] at hc
  · simp [readConnective?] at hc
  · simp [readConnective?] at hc
  · split
    · next hv => simp [hv] at hname
    · split
      · next hc' => simp [hc'] at hc
      · next op r₁ hc' =>
        rw [hc'] at hc
        cases hc
        rw [front]
        cases read r with
        | error h => rfl
        | ok a =>
          simp only [Except.map, Except.bind, front]
          cases read a.rest <;> rfl

/-- The symbol of a connective that the reader does not know is no beginning of a formula. -/
theorem front_of_notMem {c : Connective} (hc : c ∉ connectives) (s : List Char) :
    front (c.symbol.toList ++ s) = .error ⟨.noFormula, c.symbol.toList ++ s⟩ := by
  rw [front, read.eq_def]
  cases c with
  | and | or | implies => simp [connectives] at hc
  | xor | iff | nand | nor => rfl

/-! ## From the formula to the text and back -/

/-- **The Polish text of a formula that the reader knows is read,** whatever follows, as long as no
digit prolongs a name at its end. -/
theorem front_polish_append {f : Formula} (hf : Knows f) {r : List Char} (hr : EndsName r) :
    front (f.polish.toList ++ r) = .ok (f, r) := by
  induction f generalizing r with
  | var v => exact front_name (Var.read?_name_append v hr)
  | const b => exact front_const b r
  | not f ih =>
    rw [Formula.toList_polish_not, front_not, ih (knows_not_iff.mp hf) hr]
    rfl
  | binary c f g ihf ihg =>
    obtain ⟨hc, hf, hg⟩ := knows_binary_iff.mp hf
    rw [Formula.toList_polish_binary, front_connective (readConnective?_symbol_append hc _),
      ihf hf (g.endsName_polish_append r)]
    -- the second operand begins where the first one ends
    show (front (g.polish.toList ++ r)).map _ = _
    rw [ihg hg hr]
    rfl

/-- **What is read is a Polish text,** that of a formula which the reader knows, and the rest. -/
theorem eq_append_of_read {s : List Char} {a : Reading s} (h : read s = .ok a) :
    s = a.formula.polish.toList ++ a.rest ∧ Knows a.formula := by
  revert a
  fun_induction read s with
  | case1 | case4 | case7 | case8 | case9 =>
    -- the reader has halted: there is no formula
    intro a h
    cases h
  | case2 r =>
    intro a h
    cases h
    exact ⟨by rw [Formula.polish]; rfl, knows_const true⟩
  | case3 r =>
    intro a h
    cases h
    exact ⟨by rw [Formula.polish]; rfl, knows_const false⟩
  | case5 r b hb ih =>
    intro a h
    cases h
    obtain ⟨hs, hknows⟩ := ih hb
    refine ⟨?_, knows_not_iff.mpr hknows⟩
    rw [Formula.toList_polish_not, ← hs]
    rfl
  | case6 c r hT hF hnot v r₁ hv =>
    intro a h
    cases h
    exact ⟨(Var.eq_append_of_read? hv).1, knows_var v⟩
  | case10 c r hT hF hnot hv op r₁ hc b hb d hd ih₁ ih =>
    intro a h
    cases h
    obtain ⟨hop, hs⟩ := eq_append_of_readConnective? hc
    obtain ⟨hs₁, hknows₁⟩ := ih₁ hb
    obtain ⟨hs₂, hknows₂⟩ := ih hd
    refine ⟨?_, knows_binary_iff.mpr ⟨hop, hknows₁, hknows₂⟩⟩
    rw [Formula.toList_polish_binary, ← hs₂, ← hs₁, ← hs]

/-! ## The first symbol that the reader does not know -/

/-- In the list of symbols a connective that the reader does not know stands behind others, among
which there is no such connective. -/
structure FirstUnknown (symbols before : List String) (c : Connective) (after : List String) :
    Prop where
  eq_append : symbols = before ++ c.symbol :: after
  unknown : c ∉ connectives
  first : ∀ d ∉ connectives, d.symbol ∉ before

section FirstUnknown

variable {symbols before after l : List String} {c : Connective}

theorem FirstUnknown.append_left (h : FirstUnknown symbols before c after)
    (hl : ∀ d ∉ connectives, d.symbol ∉ l) : FirstUnknown (l ++ symbols) (l ++ before) c after where
  eq_append := by rw [h.eq_append, List.append_assoc]
  unknown := h.unknown
  first d hd := by
    rw [List.mem_append, not_or]
    exact ⟨hl d hd, h.first d hd⟩

theorem FirstUnknown.append_right (h : FirstUnknown symbols before c after) :
    FirstUnknown (symbols ++ l) before c (after ++ l) where
  eq_append := by rw [h.eq_append, List.append_assoc, List.cons_append]
  unknown := h.unknown
  first := h.first

/-- There is only one such connective. -/
theorem FirstUnknown.unique {before' after' : List String} {c' : Connective}
    (h : FirstUnknown symbols before c after) (h' : FirstUnknown symbols before' c' after') :
    before = before' ∧ c = c' ∧ after = after' := by
  induction before generalizing symbols before' with
  | nil =>
    cases before' with
    | nil =>
      obtain ⟨hc, hafter⟩ := List.cons.inj (h.eq_append.symm.trans h'.eq_append)
      exact ⟨rfl, Connective.symbol_injective hc, hafter⟩
    | cons s before' =>
      obtain ⟨hs, -⟩ := List.cons.inj (h.eq_append.symm.trans h'.eq_append)
      exact absurd (hs ▸ List.mem_cons_self) (h'.first c h.unknown)
  | cons s before ih =>
    cases before' with
    | nil =>
      obtain ⟨hs, -⟩ := List.cons.inj (h.eq_append.symm.trans h'.eq_append)
      exact absurd (hs ▸ List.mem_cons_self) (h.first c' h'.unknown)
    | cons s' before' =>
      obtain ⟨rfl, htail⟩ := List.cons.inj (h.eq_append.symm.trans h'.eq_append)
      obtain ⟨rfl, hc, hafter⟩ := ih
        ⟨rfl, h.unknown, fun d hd hmem => h.first d hd (List.mem_cons_of_mem s hmem)⟩
        ⟨htail, h'.unknown, fun d hd hmem => h'.first d hd (List.mem_cons_of_mem s hmem)⟩
      exact ⟨rfl, hc, hafter⟩

end FirstUnknown

/-- The symbols of a formula that the reader knows hold none of another connective. -/
theorem symbol_notMem_symbols {f : Formula} (hf : Knows f) {d : Connective}
    (hd : d ∉ connectives) : d.symbol ∉ f.symbols := by
  intro h
  have ho : Operator.binary d ∈ f.operators := Formula.symbol_mem_symbols_iff.mp h
  exact hd (mem_operators_binary_iff.mp (hf _ ho))

/-- **Reading halts at the first connective that the reader does not know.**  The rest begins with
its symbol. -/
theorem exists_front_eq_error {f : Formula} (hf : ¬ Knows f) :
    ∃ (before : List String) (c : Connective) (after : List String),
      FirstUnknown f.symbols before c after ∧ ∀ r, EndsName r → front (f.polish.toList ++ r) =
        .error ⟨.noFormula, (String.join (c.symbol :: after)).toList ++ r⟩ := by
  induction f with
  | var v => exact absurd (knows_var v) hf
  | const b => exact absurd (knows_const b) hf
  | not f ih =>
    obtain ⟨before, d, after, hfirst, herror⟩ := ih (mt knows_not_iff.mpr hf)
    have hnot : ∀ d ∉ connectives, d.symbol ∉ [Operator.not.symbol] := by
      intro d _
      cases d <;> decide
    refine ⟨_, d, after, hfirst.append_left hnot, fun r hr => ?_⟩
    rw [Formula.toList_polish_not, front_not, herror r hr]
    rfl
  | binary c f g ihf ihg =>
    by_cases hc : c ∈ connectives
    · have hroot : ∀ d ∉ connectives, d.symbol ∉ [c.symbol] := by
        intro d hd hmem
        exact hd (Connective.symbol_injective (List.mem_singleton.mp hmem) ▸ hc)
      by_cases hknows : Knows f
      · -- the first operand is read, the second one is not
        have hg : ¬ Knows g := fun hg => hf (knows_binary_iff.mpr ⟨hc, hknows, hg⟩)
        obtain ⟨before, d, after, hfirst, herror⟩ := ihg hg
        have hleft := hfirst.append_left fun d hd => symbol_notMem_symbols hknows hd
        refine ⟨_, d, after, hleft.append_left hroot, fun r hr => ?_⟩
        rw [Formula.toList_polish_binary, front_connective (readConnective?_symbol_append hc _),
          front_polish_append hknows (g.endsName_polish_append r)]
        show (front (g.polish.toList ++ r)).map _ = _
        rw [herror r hr]
        rfl
      · obtain ⟨before, d, after, hfirst, herror⟩ := ihf hknows
        refine ⟨_, d, after ++ g.symbols, hfirst.append_right.append_left hroot, fun r hr => ?_⟩
        rw [Formula.toList_polish_binary, front_connective (readConnective?_symbol_append hc _),
          herror _ (g.endsName_polish_append r), ← List.cons_append, String.join_append,
          String.toList_append, List.append_assoc, ← Formula.polish_eq_join]
        rfl
    · refine ⟨[], c, f.symbols ++ g.symbols, ⟨rfl, hc, fun _ _ => List.not_mem_nil⟩, fun r _ => ?_⟩
      rw [Formula.toList_polish_binary, front_of_notMem hc, String.join_cons, String.join_append,
        ← Formula.polish_eq_join, ← Formula.polish_eq_join]
      simp only [String.toList_append, List.append_assoc]

end Polish

namespace Formula

theorem parsePolish_eq_ok_iff {s : String} {f : Formula} :
    parsePolish s = .ok f ↔ s = f.polish ∧ Polish.Knows f := by
  rw [parsePolish, Halt.mapError_toError_eq_ok_iff, Reading.bind_whole_eq_ok_iff]
  constructor
  · rintro ⟨a, ha, rfl, hrest⟩
    obtain ⟨hs, hknows⟩ := Polish.eq_append_of_read ha
    rw [hrest, List.append_nil, String.toList_inj] at hs
    exact ⟨hs, hknows⟩
  · rintro ⟨rfl, hknows⟩
    have hfront := Polish.front_polish_append hknows endsName_nil
    rw [List.append_nil] at hfront
    exact Reading.map_eq_ok_iff.mp hfront

/-- The error names the first character of a connective that the reader does not know, behind the
bytes of the symbols in front of it. -/
theorem parsePolish_polish_eq_error {f : Formula} (hf : ¬ Polish.Knows f) :
    ∃ (before : List String) (c : Connective) (after : List String) (found : Char),
      Polish.FirstUnknown f.symbols before c after ∧ c.symbol.toList.head? = some found ∧
      parsePolish f.polish =
        .error (.unexpectedSymbol (String.join before).utf8ByteSize found .polish) := by
  obtain ⟨before, c, after, hfirst, herror⟩ := Polish.exists_front_eq_error hf
  obtain ⟨found, tail, hc⟩ := List.exists_cons_of_length_pos c.symbol_length_pos
  have hrest : (String.join (c.symbol :: after)).toList =
      found :: (tail ++ (String.join after).toList) := by
    rw [String.join_cons, String.toList_append, hc, List.cons_append]
  have hread := Reading.map_eq_error_iff.mp (herror [] endsName_nil)
  rw [List.append_nil, List.append_nil, hrest] at hread
  have hposition : utf8Length f.polish.toList -
      utf8Length (found :: (tail ++ (String.join after).toList)) =
        (String.join before).utf8ByteSize := by
    rw [← hrest, polish_eq_join, hfirst.eq_append, String.join_append, String.toList_append,
      utf8Length_append, Nat.add_sub_cancel, utf8Length_toList]
  refine ⟨before, c, after, found, hfirst, by rw [hc, List.head?_cons], ?_⟩
  calc parsePolish f.polish
      = .error (Halt.toError .polish f.polish.toList
          ⟨.noFormula, found :: (tail ++ (String.join after).toList)⟩) := by
        rw [parsePolish, hread]
        rfl
    _ = .error (.unexpectedSymbol (utf8Length f.polish.toList -
          utf8Length (found :: (tail ++ (String.join after).toList))) found .polish) := rfl
    _ = _ := by rw [hposition]

/-- **Polish notation is read and written exactly on its fragment.**  A text is read as a formula if
and only if it is the formula's Polish text and the formula has no other operators than the
constants, negation, `&`, `|` and `->`.  The Polish text of any other formula is refused at the
first of its symbols, in prefix order, that is another connective: with the number of bytes in front
of this symbol and the symbol's first character. -/
theorem parsePolish_eq_ok_iff_eq_polish (s : String) (f : Formula) :
    (parsePolish s = .ok f ↔ s = f.polish ∧ ∀ o ∈ f.operators, o ∈ Polish.operators) ∧
    ((∃ o ∈ f.operators, o ∉ Polish.operators) →
      ∃ (before : List String) (c : Connective) (after : List String) (found : Char),
        Polish.FirstUnknown f.symbols before c after ∧
        f.polish = String.join before ++ (c.symbol ++ String.join after) ∧
        c.symbol.toList.head? = some found ∧
        parsePolish f.polish =
          .error (.unexpectedSymbol (String.join before).utf8ByteSize found .polish)) := by
  refine ⟨parsePolish_eq_ok_iff, fun ⟨o, ho, hunknown⟩ => ?_⟩
  obtain ⟨before, c, after, found, hfirst, hfound, herror⟩ :=
    parsePolish_polish_eq_error fun hknows => hunknown (hknows o ho)
  refine ⟨before, c, after, found, hfirst, ?_, hfound, herror⟩
  rw [polish_eq_join, hfirst.eq_append, String.join_append, String.join_cons]

/-- In `~(p->(q-|x10))` the connective `-|` is the first that the reader does not know: it has read
`~->p`, four bytes, and finds the character with which `->` begins, too. -/
theorem parsePolish_eq_ok_iff_eq_polish_nor :
    (∃ o ∈ (not (.implies (.var .p) (.nor (.var .q) (.var ⟨"x10", by decide⟩)))).operators,
      o ∉ Polish.operators) ∧
    (not (.implies (.var .p) (.nor (.var .q) (.var ⟨"x10", by decide⟩)))).polish = "~->p-|qx10" ∧
    parsePolish "~->p-|qx10" = .error (.unexpectedSymbol 4 '-' .polish) := by
  have hpolish : (not (.implies (.var .p) (.nor (.var .q) (.var ⟨"x10", by decide⟩)))).polish =
      "~->p-|qx10" := by decide
  have hunknown : ∃ o ∈ (not (.implies (.var .p)
      (.nor (.var .q) (.var ⟨"x10", by decide⟩)))).operators, o ∉ Polish.operators :=
    ⟨.binary .nor, by decide, by decide⟩
  obtain ⟨before, c, after, found, hfirst, -, hfound, herror⟩ :=
    (parsePolish_eq_ok_iff_eq_polish "" _).2 hunknown
  have hnor : Polish.FirstUnknown (not (.implies (.var .p)
      (.nor (.var .q) (.var ⟨"x10", by decide⟩)))).symbols ["~", "->", "p"] .nor ["q", "x10"] := by
    refine ⟨rfl, by decide, fun d hd => ?_⟩
    revert hd
    cases d <;> decide
  obtain ⟨rfl, rfl, -⟩ := hfirst.unique hnor
  obtain rfl : '-' = found := Option.some.inj hfound
  exact ⟨hunknown, hpolish, hpolish ▸ herror⟩

end Formula

end PropLogic

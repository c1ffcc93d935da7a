import Mathlib.Logic.Function.Iterate
import PropLogic.Proofs.LongestPrefix

/-!
# When one standard text begins another

A standard text that is a proper part at the beginning of another one leaves a rest.  The reader,
which takes all of the longer text, must have gone on behind the shorter one, and it does so only in
a name: the shorter text ends in one, and the rest are further digits of it
(`Formula.endsInName_and_digits`).  Texts that end in a name are those of negated variables.

So a text that ends in a parenthesis or a constant can be cut nowhere: neither inside an operand nor
inside the symbol of a connective is there an end of another formula.

Main statement: `Formula.text_append_iff_digits`.
-/

namespace PropLogic.Formula

theorem toList_text_iterate_not (k : Nat) (f : Formula) :
    (not^[k] f).text.toList = List.replicate k '~' ++ f.text.toList := by
  induction k with
  | zero => rfl
  | succ k ih =>
    rw [Function.iterate_succ_apply', toList_text_not, ih, List.replicate_succ, List.cons_append]

/-- The standard text ends in a name exactly if the formula is a variable behind negations. -/
theorem endsInName_iff {f : Formula} :
    f.endsInName = true ↔ ∃ (k : Nat) (v : Var), f = not^[k] (var v) := by
  constructor
  · intro h
    induction f with
    | var v => exact ⟨0, v, rfl⟩
    | const b => cases h
    | not f ih =>
      obtain ⟨k, v, rfl⟩ := ih h
      exact ⟨k + 1, v, (Function.iterate_succ_apply' _ _ _).symm⟩
    | binary c f g => cases h
  · rintro ⟨k, v, rfl⟩
    induction k with
    | zero => rfl
    | succ k ih => rwa [Function.iterate_succ_apply']

/-- **What stands behind a formula inside a standard text are digits of its name.** -/
theorem endsInName_and_digits {f g : Formula} {r : List Char}
    (h : f.text.toList = g.text.toList ++ r) (hr : r ≠ []) :
    g.endsInName = true ∧ ∀ d ∈ r, d.isDigit = true := by
  obtain ⟨g', ds, r', hg', hname, hdigits, hread⟩ := Standard.exists_front_text_append g r
  -- the reader takes the longer text to its end
  rw [← h, Standard.front_text] at hread
  obtain ⟨rfl, -⟩ := Prod.mk.inj (Except.ok.inj hread)
  obtain rfl : r = ds := List.append_cancel_left (h.symm.trans hg')
  exact ⟨hname hr, hdigits⟩

/-- A standard text that goes on behind another one is that of a variable behind as many negations,
and what comes behind the other one are digits of its name. -/
theorem exists_digits_of_text_append {f g : Formula} {rest : String} (h : f.text = g.text ++ rest)
    (hrest : rest ≠ "") :
    ∃ (k : Nat) (v w : Var), g = not^[k] (var v) ∧ f = not^[k] (var w) ∧
      w.name = v.name ++ rest ∧ ∀ d ∈ rest.toList, d.isDigit = true := by
  have htext : f.text.toList = g.text.toList ++ rest.toList := by rw [h, String.toList_append]
  obtain ⟨hname, hdigits⟩ := endsInName_and_digits htext (by simpa using hrest)
  obtain ⟨k, v, rfl⟩ := endsInName_iff.mp hname
  obtain ⟨w, hw⟩ := v.exists_toList_name_eq_append hdigits
  refine ⟨k, v, w, rfl, text_injective (String.toList_inj.mp ?_), ?_, hdigits⟩
  · rw [htext, toList_text_iterate_not, toList_text_iterate_not, List.append_assoc]
    exact congrArg _ hw.symm
  · rw [← String.toList_inj, String.toList_append, hw]

theorem text_append_digits (k : Nat) {v w : Var} {digits : String}
    (hw : w.name = v.name ++ digits) :
    (not^[k] (var w)).text = (not^[k] (var v)).text ++ digits := by
  rw [← String.toList_inj, String.toList_append, toList_text_iterate_not, toList_text_iterate_not,
    List.append_assoc, text, text, hw, String.toList_append]

/-- A standard text that does not end in a digit has no other formula at its beginning. -/
theorem isFormula_eq_false_of_getLast? {f : Formula} {c : Char} {front rest : String}
    (hlast : f.text.toList.getLast? = some c) (hc : c.isDigit = false) (h : f.text = front ++ rest)
    (hrest : rest ≠ "") : isFormula front = false := by
  by_contra hformula
  obtain ⟨g, rfl⟩ := isFormula_iff.mp (by simpa using hformula)
  have hne : rest.toList ≠ [] := by simpa using hrest
  obtain ⟨-, -, -, -, -, -, hdigits⟩ := exists_digits_of_text_append h hrest
  rw [h, String.toList_append, List.getLast?_append, List.getLast?_eq_some_getLast hne,
    Option.some_or] at hlast
  have hdigit : c.isDigit = true := Option.some.inj hlast ▸ hdigits _ (List.getLast_mem hne)
  rw [hc] at hdigit
  cases hdigit

/-- **Only digits prolong a formula to a formula.**  The standard text of `g` is a proper part at the
beginning of that of `f` exactly if both are variables behind equally many negations and the name in
`f` is the name in `g` with further digits.  So a standard text that ends in a parenthesis or a
constant has no other beginning that is accepted as a formula. -/
theorem text_append_iff_digits :
    (∀ f g : Formula, (∃ rest, rest ≠ "" ∧ f.text = g.text ++ rest) ↔
      ∃ (k : Nat) (v w : Var) (digits : String), g = not^[k] (var v) ∧ f = not^[k] (var w) ∧
        w.name = v.name ++ digits ∧ digits ≠ "" ∧ ∀ d ∈ digits.toList, d.isDigit = true) ∧
    ∀ (f : Formula) (c : Char), f.text.toList.getLast? = some c → c ∈ [')', 'T', 'F'] →
      ∀ front rest : String, f.text = front ++ rest → rest ≠ "" → isFormula front = false := by
  refine ⟨fun f g => ⟨?_, ?_⟩, fun f c hlast hc front rest h hrest => ?_⟩
  · rintro ⟨rest, hrest, h⟩
    obtain ⟨k, v, w, hg, hf, hw, hdigits⟩ := exists_digits_of_text_append h hrest
    exact ⟨k, v, w, rest, hg, hf, hw, hrest, hdigits⟩
  · rintro ⟨k, v, w, digits, rfl, rfl, hw, hne, -⟩
    exact ⟨digits, hne, text_append_digits k hw⟩
  · have hnodigit : c.isDigit = false := by
      simp only [List.mem_cons, List.not_mem_nil, or_false] at hc
      rcases hc with rfl | rfl | rfl <;> rfl
    exact isFormula_eq_false_of_getLast? hlast hnodigit h hrest

/-- The formula `~~x1` stands in front of `2` in `~~x12`.  The text `((x12->r)<->~(p+q))` ends in a
parenthesis, and no formula ends inside its `<->`. -/
theorem text_append_iff_digits_cut :
    (∃ rest, rest ≠ "" ∧ (not (not (var ⟨"x12", by decide⟩))).text =
      (not (not (var ⟨"x1", by decide⟩))).text ++ rest) ∧
    (iff (implies (var ⟨"x12", by decide⟩) (var ⟨"r", by decide⟩))
      (not (xor (var .p) (var .q)))).text.toList.getLast? = some ')' ∧
    ')' ∈ [')', 'T', 'F'] ∧
    (iff (implies (var ⟨"x12", by decide⟩) (var ⟨"r", by decide⟩))
      (not (xor (var .p) (var .q)))).text = "((x12->r)<-" ++ ">~(p+q))" ∧
    ">~(p+q))" ≠ "" ∧ isFormula "((x12->r)<-" = false := by
  obtain ⟨hdigits, hcut⟩ := text_append_iff_digits
  have hlast : (iff (implies (var ⟨"x12", by decide⟩) (var ⟨"r", by decide⟩))
      (not (xor (var .p) (var .q)))).text.toList.getLast? = some ')' := by decide
  have htext : (iff (implies (var ⟨"x12", by decide⟩) (var ⟨"r", by decide⟩))
      (not (xor (var .p) (var .q)))).text = "((x12->r)<-" ++ ">~(p+q))" := by decide
  have hclosing : ')' ∈ [')', 'T', 'F'] := List.mem_cons_self
  refine ⟨(hdigits _ _).mpr ⟨2, ⟨"x1", by decide⟩, ⟨"x12", by decide⟩, "2", rfl, rfl, rfl, by decide,
    by simp⟩, hlast, hclosing, htext, by decide, hcut _ _ hlast hclosing _ _ htext (by decide)⟩

end PropLogic.Formula

import PropLogic.Proofs.StandardNotation

/-!
# The reader takes the longest formula in front

The text `~x12&q` begins with two formulas, `~x1` and `~x12`.  Formulas in front of the same text
differ in this way only: in how many of the digits behind a name the name at the end takes along.
The reader takes all of them (`Standard.exists_front_text_append`), so wherever a formula stands in
front of a text, one is read that is at least as long.

Main statement: `Formula.parseFront_eq_ok_iff_longest`.
-/

namespace PropLogic

open Var (endsName_dropWhile)

/-- A name with digits behind it is a name. -/
theorem Var.exists_toList_name_eq_append (v : Var) {ds : List Char}
    (hds : ∀ d ∈ ds, d.isDigit = true) :
    ∃ w : Var, w.name.toList = v.name.toList ++ ds := by
  have hprolonged : isNameChars (v.name.toList ++ ds) = true := by
    obtain ⟨c, cs, hv, hc, hcs⟩ := v.exists_name_eq_cons
    rw [hv, List.cons_append, isNameChars, hc, Bool.true_and, List.all_eq_true]
    exact List.forall_mem_append.mpr ⟨hcs, hds⟩
  exact ⟨⟨String.ofList (v.name.toList ++ ds), by rwa [isVariableName, String.toList_ofList]⟩,
    String.toList_ofList⟩

/-- So a standard text that ends in a name is one with digits behind it, too. -/
theorem Formula.exists_toList_text_eq_append {f : Formula} (hf : f.endsInName = true)
    {ds : List Char} (hds : ∀ d ∈ ds, d.isDigit = true) :
    ∃ g : Formula, g.text.toList = f.text.toList ++ ds := by
  induction f with
  | var v =>
    obtain ⟨w, hw⟩ := v.exists_toList_name_eq_append hds
    exact ⟨.var w, hw⟩
  | const b => cases hf
  | not f ih =>
    obtain ⟨g, hg⟩ := ih hf
    exact ⟨.not g, by rw [toList_text_not, toList_text_not, hg, List.cons_append]⟩
  | binary c f g => cases hf

/-- **Behind a formula the reader goes on to the last digit** that a name at its end can take.  What
it takes besides the text are digits, and none if the text does not end in a name. -/
theorem Standard.exists_front_text_append (f : Formula) (r : List Char) :
    ∃ (g : Formula) (ds r' : List Char), g.text.toList = f.text.toList ++ ds ∧
      (ds ≠ [] → f.endsInName = true) ∧ (∀ d ∈ ds, d.isDigit = true) ∧
      front (f.text.toList ++ r) = .ok (g, r') := by
  cases hf : f.endsInName with
  | false =>
    have hread := front_text_append f (r := r) fun hn => absurd hn (by simp [hf])
    exact ⟨f, [], r, (List.append_nil _).symm, absurd rfl, nofun, hread⟩
  | true =>
    have hdigits : ∀ d ∈ r.takeWhile Char.isDigit, d.isDigit = true :=
      List.all_eq_true.mp List.all_takeWhile
    obtain ⟨g, hg⟩ := Formula.exists_toList_text_eq_append hf hdigits
    have hread := front_text_append g fun _ => endsName_dropWhile r
    rw [hg, List.append_assoc, List.takeWhile_append_dropWhile] at hread
    exact ⟨g, _, _, hg, fun _ => rfl, hdigits, hread⟩

namespace Formula

/-- Where a formula stands in front of a text, one is read that is at least as long. -/
theorem exists_parseFront_eq_ok {s rest : String} {f : Formula} (hs : s = f.text ++ rest) :
    ∃ (g : Formula) (rest' : String),
      parseFront s = .ok (g, rest') ∧ f.text.length ≤ g.text.length := by
  obtain ⟨g, ds, r, hg, -, -, hread⟩ := Standard.exists_front_text_append f rest.toList
  have hs' : s.toList = f.text.toList ++ rest.toList := by rw [hs, String.toList_append]
  have hfront := Standard.read_eq_ok_iff.mp (Reading.map_eq_ok_iff.mp (hs' ▸ hread))
  refine ⟨g, String.ofList r, parseFront_eq_ok_iff.mpr ⟨?_, ?_⟩, ?_⟩
  · rw [← String.toList_inj, String.toList_append, String.toList_ofList]
    exact hfront.1
  · rw [String.toList_ofList]
    exact hfront.2
  · rw [← String.length_toList, ← String.length_toList, hg, List.length_append]
    exact Nat.le_add_right _ _

/-- **The longest formula in front of a text is read.**  A formula is read off the front of a text
and the rest left exactly if the text is the standard text of the formula and the rest and begins
with no longer standard text.  Reading fails exactly if the text begins with no standard text. -/
theorem parseFront_eq_ok_iff_longest (s : String) :
    (∀ (f : Formula) (rest : String), parseFront s = .ok (f, rest) ↔
      s = f.text ++ rest ∧ ∀ (g : Formula) (rest' : String),
        s = g.text ++ rest' → g.text.length ≤ f.text.length) ∧
    ((∃ e : SyntaxError, parseFront s = .error e) ↔
      ¬ ∃ (f : Formula) (rest : String), s = f.text ++ rest) := by
  refine ⟨fun f rest => ⟨fun h => ⟨(parseFront_eq_ok_iff.mp h).1, fun g rest' hg => ?_⟩, ?_⟩, ?_⟩
  · obtain ⟨f', rest'', hread, hlength⟩ := exists_parseFront_eq_ok hg
    rw [h] at hread
    cases hread
    exact hlength
  · rintro ⟨hs, hlongest⟩
    obtain ⟨g, rest', hread, hlength⟩ := exists_parseFront_eq_ok hs
    have hg : s = g.text ++ rest' := (parseFront_eq_ok_iff.mp hread).1
    -- both texts begin `s` and are equally long
    have hparts : f.text.toList ++ rest.toList = g.text.toList ++ rest'.toList := by
      rw [← String.toList_append, ← String.toList_append, ← hs, ← hg]
    obtain ⟨htext, hrest⟩ := List.append_inj hparts <| by
      rw [String.length_toList, String.length_toList]
      exact Nat.le_antisymm hlength (hlongest g rest' hg)
    rw [text_injective (String.toList_inj.mp htext), String.toList_inj.mp hrest]
    exact hread
  · cases hread : parseFront s with
    | error e =>
      refine iff_of_true ⟨e, rfl⟩ ?_
      rintro ⟨f, rest, hs⟩
      obtain ⟨g, rest', hread', -⟩ := exists_parseFront_eq_ok hs
      rw [hread] at hread'
      cases hread'
    | ok p => exact iff_of_false nofun (not_not_intro ⟨p.1, p.2, (parseFront_eq_ok_iff.mp hread).1⟩)

end Formula

end PropLogic

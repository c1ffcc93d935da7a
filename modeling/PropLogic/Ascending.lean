/-!
# Ascending lists

A finite set is shown as the list of its members in ascending order.  `ascending` gives this list
for the members of any list: main statements `mem_ascending`, `ascending_nodup`,
`ascending_sorted`, and `ascending_congr`, that equal sets are shown alike.  The latter holds since
the members of a set can ascend in one way only (`eq_of_ascends`).
-/

namespace PropLogic

/-- The members of a list in ascending order, each once. -/
def ascending {α : Type} [Ord α] [BEq α] (l : List α) : List α :=
  l.eraseDups.mergeSort fun a b => (compare a b).isLE

/-- Strictly ascending lists with the same members are equal. -/
theorem eq_of_ascends {α : Type} [Ord α] [Std.TransOrd α] [Std.LawfulEqOrd α] {l l' : List α}
    (hl : l.Pairwise fun a b => compare a b = .lt) (hl' : l'.Pairwise fun a b => compare a b = .lt)
    (h : ∀ a, a ∈ l ↔ a ∈ l') : l = l' := by
  have nodup : ∀ {l : List α}, (l.Pairwise fun a b => compare a b = .lt) → l.Nodup := fun hl =>
    hl.imp fun {a b} hab he => by
      rw [he, Std.compare_self] at hab
      cases hab
  refine List.Perm.eq_of_pairwise (fun a b _ _ hab hba => ?_) hl hl' ?_
  · rw [Std.OrientedCmp.gt_of_lt hab] at hba
    cases hba
  · exact (List.perm_ext_iff_of_nodup (nodup hl) (nodup hl')).mpr h

/-- The first member of a strictly ascending list that has a property is the least one. -/
theorem find?_eq_some_iff_least {α : Type} [Ord α] [Std.TransOrd α] [Std.LawfulEqOrd α]
    {l : List α} (hl : l.Pairwise fun a b => compare a b = .lt) {P : α → Bool} {a : α} :
    l.find? P = some a ↔
      a ∈ l ∧ P a = true ∧ ∀ b ∈ l, P b = true → (compare a b).isLE = true := by
  have hfirst : ∀ {a}, l.find? P = some a →
      a ∈ l ∧ P a = true ∧ ∀ b ∈ l, P b = true → (compare a b).isLE = true := by
    intro a h
    refine ⟨List.mem_of_find?_eq_some h, List.find?_some h, fun b hb hPb => ?_⟩
    obtain ⟨-, before, after, rfl, hbefore⟩ := List.find?_eq_some_iff_append.mp h
    rcases List.mem_append.mp hb with hb | hb
    · have hnot := hbefore b hb
      rw [hPb] at hnot
      cases hnot
    · rcases List.mem_cons.mp hb with rfl | hb
      · rw [Std.compare_self]
        rfl
      · have hlt := (List.pairwise_cons.mp (List.pairwise_append.mp hl).2.1).1 b hb
        rw [hlt]
        rfl
  refine ⟨hfirst, fun ⟨ha, hPa, hleast⟩ => ?_⟩
  cases hfind : l.find? P with
  | none => exact absurd hPa (List.find?_eq_none.mp hfind a ha)
  | some b =>
    -- each of the two is at most the other
    obtain ⟨hb, hPb, hleast'⟩ := hfirst hfind
    exact congrArg some (Std.LawfulEqOrd.eq_of_compare
      (Std.OrientedCmp.isLE_antisymm (hleast' a ha hPa) (hleast b hb hPb)))

/-- A sorted list does not descend anywhere. -/
theorem pairwise_mergeSort_isLE {α : Type} [Ord α] [Std.TransOrd α] (l : List α) :
    (l.mergeSort fun a b => (compare a b).isLE).Pairwise fun a b => (compare a b).isLE = true := by
  refine List.pairwise_mergeSort (fun _ _ _ => Std.TransCmp.isLE_trans) (fun a b => ?_) l
  have swap : compare b a = (compare a b).swap := Std.OrientedCmp.eq_swap
  rw [swap]
  cases compare a b <;> rfl

variable {α : Type} [BEq α] [LawfulBEq α]

/-- What is left after every repetition is erased has no repetition. -/
theorem nodup_eraseDups : ∀ l : List α, l.eraseDups.Nodup
  | [] => by simp
  | a :: l => by
    rw [List.eraseDups_cons, List.nodup_cons, List.mem_eraseDups]
    exact ⟨by simp, nodup_eraseDups _⟩
termination_by l => l.length
decreasing_by exact Nat.lt_succ_of_le (List.length_filter_le _ _)

variable [Ord α]

@[simp] theorem mem_ascending {l : List α} {a : α} : a ∈ ascending l ↔ a ∈ l := by
  simp [ascending, List.mem_mergeSort]

theorem ascending_nodup (l : List α) : (ascending l).Nodup :=
  (List.mergeSort_perm _ _).nodup_iff.mpr (nodup_eraseDups l)

/-- The members strictly ascend. -/
theorem ascending_sorted [Std.TransOrd α] [Std.LawfulEqOrd α] (l : List α) :
    (ascending l).Pairwise fun a b => compare a b = .lt := by
  refine ((pairwise_mergeSort_isLE _).and (ascending_nodup l)).imp fun {a b} h => ?_
  have hne : compare a b ≠ .eq := fun he => h.2 (Std.LawfulEqCmp.eq_of_compare he)
  cases hc : compare a b <;> simp_all

/-- Lists with the same members have the same ascending list. -/
theorem ascending_congr [Std.TransOrd α] [Std.LawfulEqOrd α] {l l' : List α}
    (h : ∀ a, a ∈ l ↔ a ∈ l') : ascending l = ascending l' :=
  eq_of_ascends (ascending_sorted l) (ascending_sorted l') fun a => by
    rw [mem_ascending, mem_ascending, h]

/-- A strictly ascending list is the ascending list of its members. -/
theorem ascending_eq_self [Std.TransOrd α] [Std.LawfulEqOrd α] {l : List α}
    (hl : l.Pairwise fun a b => compare a b = .lt) : ascending l = l :=
  eq_of_ascends (ascending_sorted l) hl fun _ => mem_ascending

end PropLogic

import Mathlib.Data.Finset.Card
import Mathlib.Data.List.Lattice
import PropLogic.Ascending

/-!
# The number of distinct members of a list

A set is shown as a list without repetitions, and its size is the length of that list.  Erasing the
repetitions of a list and putting its members in order both leave as many places as the list has
distinct members (`length_eraseDups_eq_card`, `length_ascending_eq_card`), which is never more than
it has places itself (`length_ascending_le`).
-/

namespace PropLogic

/-- A list without repetitions has as many places as any list with the same members has distinct
members. -/
theorem length_eq_card_toFinset {α : Type} [DecidableEq α] {l l' : List α} (hl : l.Nodup)
    (h : ∀ a, a ∈ l ↔ a ∈ l') : l.length = l'.toFinset.card := by
  have hsame : l'.toFinset = l.toFinset := by
    ext a
    rw [List.mem_toFinset, List.mem_toFinset, h]
  rw [hsame, List.toFinset_card_of_nodup hl]

variable {α : Type} [BEq α] [LawfulBEq α]

/-- The number of distinct members is that of what is left after repetitions are erased. -/
theorem length_eraseDups_eq_card [DecidableEq α] (l : List α) :
    l.eraseDups.length = l.toFinset.card :=
  length_eq_card_toFinset (nodup_eraseDups l) fun _ => List.mem_eraseDups

variable [Ord α]

theorem length_ascending_eq_card [DecidableEq α] (l : List α) :
    (ascending l).length = l.toFinset.card :=
  length_eq_card_toFinset (ascending_nodup l) fun _ => mem_ascending

/-- There are no more members of a list than places in another one where they all stand. -/
theorem length_ascending_le_of_subset {l l' : List α} (h : l ⊆ l') :
    (ascending l).length ≤ l'.length :=
  (List.subperm_of_subset (ascending_nodup l) fun _ ha => h (mem_ascending.mp ha)).length_le

/-- A list has at least as many places as members. -/
theorem length_ascending_le (l : List α) : (ascending l).length ≤ l.length :=
  length_ascending_le_of_subset (List.Subset.refl l)

/-- A list without repetitions has exactly as many. -/
theorem length_ascending_of_nodup {l : List α} (h : l.Nodup) :
    (ascending l).length = l.length :=
  ((List.perm_ext_iff_of_nodup (ascending_nodup l) h).mpr fun _ => mem_ascending).length_eq

end PropLogic

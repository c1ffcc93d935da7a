import PropLogic.Formula.Parts
import PropLogic.Proofs.DistinctMembers
import PropLogic.Proofs.StandardNotation

/-!
# Formulas are told apart and ordered by their texts

Equality and order of formulas look at the standard texts only.  Since a text belongs to one formula
(`Formula.text_injective`), this is equality of the trees, node by node: two formulas are the same if
they have the same symbol at every position (`Formula.eq_iff_symbolAt?`), where `Formula.symbolAt?`
goes down from the root by first and second operands.

The order of the texts is total.  So sorting leaves one arrangement of a list, in which equal trees
stand side by side, and the two ways to make a set of a list, by equality and by order, both keep one
formula for each tree.

Main statement: `Formula.text_determines_equality_and_order`.
-/

namespace PropLogic.Formula

/-! ## The tree -/

/-- The places for operands of a symbol. -/
inductive Place where
  | first
  | second

/-- The operand of the root at a place. -/
def operand? (f : Formula) : Place → Option Formula
  | .first => f.first?
  | .second => f.second?

/-- The symbol at a position of the tree, which is told by the places on the way from the root. -/
def symbolAt? : Formula → List Place → Option String
  | f, [] => some f.root
  | f, i :: path => (f.operand? i).bind fun g => g.symbolAt? path

/-- A property of formulas holds of all if it passes on from the operands of the root. -/
theorem operand_induction {P : Formula → Prop}
    (h : ∀ f, (∀ i, ∀ g ∈ f.operand? i, P g) → P f) (f : Formula) : P f := by
  induction f with
  | var v => exact h _ fun i => by cases i <;> exact nofun
  | const b => exact h _ fun i => by cases i <;> exact nofun
  | not f ih =>
    refine h _ fun i => ?_
    cases i with
    | first => rintro g ⟨⟩; exact ih
    | second => exact nofun
  | binary c f g ihf ihg =>
    refine h _ fun i => ?_
    cases i with
    | first => rintro g ⟨⟩; exact ihf
    | second => rintro g ⟨⟩; exact ihg

/-- **Formulas are the same tree** if they have the same symbol at every position. -/
theorem eq_iff_symbolAt? {f g : Formula} :
    f = g ↔ ∀ path, f.symbolAt? path = g.symbolAt? path := by
  refine ⟨fun h _ => h ▸ rfl, fun h => ?_⟩
  induction f using operand_induction generalizing g with
  | h f ih =>
    suffices hoperands : ∀ i, f.operand? i = g.operand? i from
      eq_of_root_of_operands (Option.some.inj (h [])) (hoperands .first) (hoperands .second)
    intro i
    have hoperand : ∀ path, (f.operand? i).bind (·.symbolAt? path) =
        (g.operand? i).bind (·.symbolAt? path) := fun path => h (i :: path)
    cases hf : f.operand? i with
    | none =>
      cases hg : g.operand? i with
      | none => rfl
      | some b =>
        rw [hf, hg] at hoperand
        cases hoperand []
    | some a =>
      cases hg : g.operand? i with
      | none =>
        rw [hf, hg] at hoperand
        cases hoperand []
      | some b =>
        rw [hf, hg] at hoperand
        exact congrArg some (ih i a hf hoperand)

/-! ## The order -/

instance : Std.TransOrd Formula :=
  inferInstanceAs (Std.TransCmp (compareOn text))

instance : Std.LawfulEqOrd Formula where
  compare_self {f} := (compare_eq f f).trans Std.compare_self
  eq_of_compare {f g} h :=
    text_injective (Std.LawfulEqOrd.eq_of_compare ((compare_eq f g).symm.trans h))

theorem compare_eq_eq_iff {f g : Formula} : compare f g = .eq ↔ f = g :=
  Std.LawfulEqOrd.compare_eq_iff_eq

theorem compare_eq_lt_iff {f g : Formula} : compare f g = .lt ↔ f.text < g.text :=
  compareOfLessAndEq_eq_lt

theorem compare_eq_gt_iff {f g : Formula} : compare f g = .gt ↔ g.text < f.text :=
  Std.OrientedCmp.gt_iff_lt.trans compare_eq_lt_iff

theorem isLE_compare_iff {f g : Formula} : (compare f g).isLE = true ↔ f.text ≤ g.text :=
  isLE_compareOfLessAndEq String.le_antisymm String.not_le String.le_total

/-! ## Sorted lists -/

theorem sort_perm (fs : List Formula) : (sort fs).Perm fs :=
  List.mergeSort_perm _ _

/-- The texts of a sorted list do not descend. -/
theorem pairwise_sort (fs : List Formula) : (sort fs).Pairwise fun f g => f.text ≤ g.text :=
  (pairwise_mergeSort_isLE fs).imp isLE_compare_iff.mp

/-- Formulas whose texts are each at most the other's are the same. -/
theorem eq_of_text_le {f g : Formula} (hfg : f.text ≤ g.text) (hgf : g.text ≤ f.text) : f = g :=
  text_injective (String.le_antisymm hfg hgf)

/-- **Where the texts do not descend, equal trees are adjacent:** between two of them stands no other
formula. -/
theorem eq_of_between {l₁ l₂ l₃ : List Formula} {f g : Formula}
    (h : (l₁ ++ f :: (l₂ ++ f :: l₃)).Pairwise fun f g => f.text ≤ g.text) (hg : g ∈ l₂) : g = f := by
  have hbehind := (List.pairwise_append.mp h).2.1
  obtain ⟨hafter, hbetween⟩ := List.pairwise_cons.mp hbehind
  refine eq_of_text_le ?_ (hafter g (List.mem_append_left _ hg))
  exact (List.pairwise_append.mp hbetween).2.2 g hg f List.mem_cons_self

/-- The formulas of a list can be arranged with texts that do not descend in one way only. -/
theorem eq_sort {fs gs : List Formula} (hperm : gs.Perm fs)
    (hsorted : gs.Pairwise fun f g => f.text ≤ g.text) : gs = sort fs :=
  List.Perm.eq_of_pairwise (fun _ _ _ _ => eq_of_text_le) hsorted (pairwise_sort fs)
    (hperm.trans (sort_perm fs).symm)

/-- **The text of a formula determines it, in equality and order.**  Two formulas are equal, and
compare as equal, exactly if they have the same symbol at every position of the tree, that is, if
they are the same tree; otherwise they are ordered as their texts.  Sorting rearranges a list so that
the texts do not descend and equal trees are adjacent, and this is the only such arrangement.  A set
of formulas, by equality or by order, has as many members as there are distinct trees in the list. -/
theorem text_determines_equality_and_order :
    (∀ f g : Formula, ((f == g) = true ↔ f = g) ∧
      (f = g ↔ ∀ path, f.symbolAt? path = g.symbolAt? path) ∧
        (compare f g = .eq ↔ f = g) ∧ (compare f g = .lt ↔ f.text < g.text) ∧
          (compare f g = .gt ↔ g.text < f.text)) ∧
    (∀ fs : List Formula, (sort fs).Perm fs ∧ ((sort fs).Pairwise fun f g => f.text ≤ g.text) ∧
      (∀ l₁ f l₂ l₃, sort fs = l₁ ++ f :: (l₂ ++ f :: l₃) → ∀ g ∈ l₂, g = f) ∧
        ∀ gs : List Formula, gs.Perm fs → (gs.Pairwise fun f g => f.text ≤ g.text) → gs = sort fs) ∧
    ∀ fs : List Formula, (distinct fs).length = fs.toFinset.card ∧
      (ascending fs).length = fs.toFinset.card := by
  refine ⟨fun f g => ⟨beq_iff_eq, eq_iff_symbolAt?, compare_eq_eq_iff, compare_eq_lt_iff,
    compare_eq_gt_iff⟩, fun fs => ⟨sort_perm fs, pairwise_sort fs, ?_, fun gs => eq_sort⟩,
    fun fs => ⟨length_eraseDups_eq_card fs, length_ascending_eq_card fs⟩⟩
  intro l₁ f l₂ l₃ h g hg
  exact eq_of_between (h ▸ pairwise_sort fs) hg

/-- Parentheses come before letters and these before `~`.  The variable `q` stands three times in the
list, and the three are adjacent after sorting; there are four distinct formulas. -/
theorem text_determines_equality_and_order_repeated :
    [and (var .q) (var .p), var .p, var .q, var .q, var .q, not (var .p)].Perm
        [var .q, not (var .p), var .q, and (var .q) (var .p), var .p, var .q] ∧
      ([and (var .q) (var .p), var .p, var .q, var .q, var .q, not (var .p)].Pairwise
        fun f g => f.text ≤ g.text) ∧
      sort [var .q, not (var .p), var .q, and (var .q) (var .p), var .p, var .q] =
        [and (var .q) (var .p), var .p] ++ var .q :: ([var .q] ++ var .q :: [not (var .p)]) ∧
      (∀ g ∈ [var .q], g = var .q) ∧
      (distinct [var .q, not (var .p), var .q, and (var .q) (var .p), var .p, var .q]).length = 4 := by
  have hperm : [and (var .q) (var .p), var .p, var .q, var .q, var .q, not (var .p)].Perm
      [var .q, not (var .p), var .q, and (var .q) (var .p), var .p, var .q] := by decide
  have hsorted : [and (var .q) (var .p), var .p, var .q, var .q, var .q, not (var .p)].Pairwise
      fun f g => f.text ≤ g.text := by decide
  obtain ⟨-, hsort, hset⟩ := text_determines_equality_and_order
  obtain ⟨-, -, hadjacent, hunique⟩ :=
    hsort [var .q, not (var .p), var .q, and (var .q) (var .p), var .p, var .q]
  have hresult := (hunique _ hperm hsorted).symm
  have hbetween :=
    hadjacent [and (var .q) (var .p), var .p] (var .q) [var .q] [not (var .p)] hresult
  exact ⟨hperm, hsorted, hresult, hbetween, (hset _).1.trans (by decide)⟩

end PropLogic.Formula

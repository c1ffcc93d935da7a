import Mathlib.Algebra.BigOperators.Group.Finset.Basic
import PropLogic.Proofs.ReducedInstances

/-!
# Formulas that a reduction keeps

Expanding changes nothing where no operator has a template (`Formula.expand_eq_self`).  No table of
a basis other than `{-&}` has a template for an operator of the basis, so a formula over the basis is
reduced to itself, and reducing twice is reducing once.

The tables of `{-&}` take `-&` apart and put it together again from `&` and `~`.  The resulting
template is larger than what it stands for, as are those of all other operators, and none drops an
operand (`OperatorTable.Enlarges`).  Filled with operands that may have grown themselves it is larger
still, so that every formula grows unless it is a variable
(`OperatorTable.Enlarges.lt_size_expand`).

Main statement: `Basis.reduce_eq_self_iff`.
-/

namespace PropLogic

namespace Formula

/-- Where no operator has a template, expanding changes nothing. -/
theorem expand_eq_self {t : OperatorTable} {f : Formula}
    (h : ∀ o ∈ f.operators, t.template? o = none) : f.expand t = f := by
  rw [expand_eq_expandFully]
  refine expandFully_eq_self ?_
  rw [anyOperator_eq, List.any_eq_false]
  intro o ho
  simp [OperatorTable.has, h o ho]

theorem size_pos (f : Formula) : 0 < f.size := by
  cases f <;> exact Nat.succ_pos _

/-- **What is put in for a variable counts at least once:** each of several variables that occur is a
node less and its image more. -/
theorem size_add_sum_le (σ : Substitution) (f : Formula) (vs : Finset Var)
    (h : ∀ v ∈ vs, v ∈ f.occurrences) :
    f.size + ∑ v ∈ vs, (σ.image v).size ≤ (f.substitute σ).size + vs.card := by
  induction f generalizing vs with
  | var w =>
    have himage : (var w).substitute σ = σ.image w := substitute_var σ w
    rcases Finset.subset_singleton_iff.mp fun v hv => Finset.mem_singleton.mpr
      (List.mem_singleton.mp (h v hv)) with rfl | rfl
    · have hpos : 1 ≤ ((var w).substitute σ).size := size_pos _
      simpa [size] using hpos
    · rw [Finset.sum_singleton, Finset.card_singleton, himage, size, Nat.add_comm]
  | const b =>
    obtain rfl := Finset.eq_empty_of_forall_notMem fun v hv => List.not_mem_nil (h v hv)
    simp [size]
  | not f ih =>
    have hf := ih vs h
    rw [substitute_not, size, size]
    omega
  | binary c f g ihf ihg =>
    -- the variables that occur in `f` count there, the others in `g`
    have hf := ihf (vs.filter (· ∈ f.occurrences)) fun v hv => (Finset.mem_filter.mp hv).2
    have hg := ihg (vs.filter (· ∉ f.occurrences)) fun v hv => by
      obtain ⟨hv, hout⟩ := Finset.mem_filter.mp hv
      exact (List.mem_append.mp (h v hv)).resolve_left hout
    have hsum := Finset.sum_filter_add_sum_filter_not vs (· ∈ f.occurrences)
      fun v => (σ.image v).size
    have hcard := Finset.card_filter_add_card_filter_not (s := vs) (· ∈ f.occurrences)
    rw [substitute_binary, size, size]
    omega

end Formula

namespace OperatorTable

open Formula

variable {t : OperatorTable}

/-- Every template mentions all operands and has more nodes than the operator with its operands. -/
def Enlarges (t : OperatorTable) : Prop :=
  ∀ o : Operator, t.KeepsOperands o ∧ o.arity + 1 < (t.template o).size

/-- A filled template is larger than the operator with what is put in for its operands. -/
theorem Enlarges.lt_size_bind (ht : t.Enlarges) (o : Operator) (f : Formula) (g? : Option Formula) :
    1 + ∑ v ∈ o.operands.toFinset, ((bind f g?).image v).size <
      ((t.template o).substitute (bind f g?)).size := by
  obtain ⟨hkeeps, hsize⟩ := ht o
  have hsum := size_add_sum_le (bind f g?) (t.template o) o.operands.toFinset fun v hv =>
    hkeeps v (List.mem_toFinset.mp hv)
  have hcard : o.operands.toFinset.card = o.arity := by
    cases o <;> rfl
  omega

/-- **Every formula grows that is no variable.** -/
theorem Enlarges.lt_size_expand (ht : t.Enlarges) (f : Formula) :
    (∃ v, f = .var v) ∨ f.size < (f.expand t).size := by
  have hle {f : Formula} (h : (∃ v, f = .var v) ∨ f.size < (f.expand t).size) :
      f.size ≤ (f.expand t).size := by
    rcases h with ⟨v, rfl⟩ | h
    · rw [expand_var]
    · exact h.le
  induction f with
  | var v => exact .inl ⟨v, rfl⟩
  | const b =>
    rw [expand_const_eq]
    exact .inr (ht (.const b)).2
  | not f ih =>
    have hroot := ht.lt_size_bind .not (f.expand t) none
    have hsum : ∑ v ∈ Operator.not.operands.toFinset, ((bind (f.expand t) none).image v).size =
        (f.expand t).size := Finset.sum_singleton _ _
    have hf := hle ih
    rw [expand_not_eq, size]
    omega
  | binary c f g ihf ihg =>
    have hroot := ht.lt_size_bind (.binary c) (f.expand t) (g.expand t)
    have hsum : ∑ v ∈ (Operator.binary c).operands.toFinset,
        ((bind (f.expand t) (g.expand t)).image v).size =
          (f.expand t).size + (g.expand t).size :=
      Finset.sum_pair (show Var.p ≠ Var.q by decide)
    have hf := hle ihf
    have hg := hle ihg
    rw [expand_binary_eq, size]
    omega

end OperatorTable

namespace Basis

open OperatorTable

/-- No table of a basis other than `{-&}` has a template for an operator of the basis. -/
theorem template?_eq_none {b : Basis} (hb : b ≠ nand) :
    ∀ t ∈ b.tables, ∀ o ∈ b.operators, t.template? o = none := by
  cases b with
  | nand => exact absurd rfl hb
  | _ => decide

/-- A formula over such a basis is reduced to itself. -/
theorem reduce_eq_self {b : Basis} (hb : b ≠ nand) {f : Formula} (hf : b.contains f = true) :
    b.reduce f = f := by
  have hkeeps : ∀ t ∈ b.tables, f.expand t = f := fun t ht =>
    Formula.expand_eq_self fun o ho => template?_eq_none hb t ht o (contains_iff.mp hf o ho)
  exact List.foldlRecOn (motive := fun g => g = f) b.tables (fun g t => g.expand t) rfl
    fun g hg t ht => by rw [hg, hkeeps t ht]

/-- The table of `{-&}` enlarges all operators, `-&` included. -/
theorem table_nand_enlarges : nand.table.Enlarges := by
  intro o
  refine ⟨nand.table_introduces.keepsOperands o, ?_⟩
  have hsize : ∀ o ∈ Operator.all, o.arity + 1 < (nand.table.template o).size := by decide
  exact hsize o o.mem_all

/-- **What a reduction keeps.**  Over every basis other than `{-&}` the formulas that are reduced to
themselves are those over the basis, so that a reduced formula is reduced to itself.  Over `{-&}`
they are the variables, and every other formula becomes larger, even if it has no other operator
than `-&`. -/
theorem reduce_eq_self_iff :
    (∀ b ≠ nand, ∀ f : Formula, (b.reduce f = f ↔ b.contains f = true) ∧
      b.reduce (b.reduce f) = b.reduce f) ∧
    ∀ f : Formula, (nand.reduce f = f ↔ ∃ v, f = .var v) ∧
      ((¬ ∃ v, f = .var v) → f.size < (nand.reduce f).size) := by
  constructor
  · intro b hb f
    have hreduced : b.contains (b.reduce f) = true :=
      contains_iff.mpr (b.mem_operators_of_mem_reduce f)
    exact ⟨⟨fun h => h ▸ hreduced, reduce_eq_self hb⟩, reduce_eq_self hb hreduced⟩
  · intro f
    have hgrows := table_nand_enlarges.lt_size_expand f
    rw [← reduce_eq_expand] at hgrows
    refine ⟨⟨fun h => hgrows.resolve_right ?_, ?_⟩, hgrows.resolve_left⟩
    · rw [h]
      exact Nat.lt_irrefl _
    · rintro ⟨v, rfl⟩
      rw [reduce_eq_expand, Formula.expand_var]

/-- The formula `~(p&~q)` is one over `{~,&}`; `(p-&q)`, with three nodes, grows over `{-&}`. -/
theorem reduce_eq_self_iff_nand :
    notAnd ≠ nand ∧ notAnd.reduce (.not (.and (.var .p) (.not (.var .q)))) =
      .not (.and (.var .p) (.not (.var .q))) ∧
    (¬ ∃ v, Formula.nand (.var .p) (.var .q) = .var v) ∧
      3 < (nand.reduce (.nand (.var .p) (.var .q))).size := by
  have hnotAnd : notAnd ≠ nand := by decide
  have hnand : ¬ ∃ v, Formula.nand (.var .p) (.var .q) = .var v := nofun
  obtain ⟨hkept, hgrown⟩ := reduce_eq_self_iff
  exact ⟨hnotAnd, (hkept notAnd hnotAnd _).1.mpr (by decide), hnand, (hgrown _).2 hnand⟩

end Basis

end PropLogic

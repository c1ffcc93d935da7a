import PropLogic.Basis
import PropLogic.Proofs.Expansion

/-!
# Operators and variables of a reduced formula

A reduction expands a formula by one table after the other.  What a table does to the operators is
told by its templates: `OperatorTable.Brings` says that it leads from formulas over some operators
to formulas over others, and the tables of a basis lead from all operators to those of the basis,
each one removing what the one before has brought in.  What it does to the variables is told by the
constants: no template of the tables drops an operand or leaves a `q` unbound, so all that can come
in are the variables of the templates of constants (`OperatorTable.Introduces`), and only the first
table of a basis has such templates.

Main statements: `Basis.contains_reduce`, that a reduced formula is one over the basis, and
`Basis.vars_reduce`, that it has the variables of the formula, and `p` in addition if a constant had
to be removed.
-/

namespace PropLogic

namespace OperatorTable

open Formula

variable {t : OperatorTable} {f : Formula}

/-! ## Operators -/

/-- The table leads from formulas over the operators in `before` to formulas over those in
`after`. -/
def Brings (t : OperatorTable) (before after : List Operator) : Prop :=
  ∀ o ∈ before, ∀ o' ∈ (t.template o).operators, o' ∈ after

instance (t : OperatorTable) (before after : List Operator) : Decidable (t.Brings before after) :=
  inferInstanceAs (Decidable (∀ o ∈ before, ∀ o' ∈ (t.template o).operators, o' ∈ after))

/-- Every operator of the expansion stands in a template that the table allows. -/
theorem Brings.operators_expand {before after : List Operator} (ht : t.Brings before after)
    (hf : ∀ o ∈ f.operators, o ∈ before) : ∀ o ∈ (f.expand t).operators, o ∈ after := by
  intro o ho
  obtain ⟨o', ho', h⟩ := exists_of_mem_operators_expand ho
  exact ht o' (hf o' ho') o h

theorem intoNotAndOr_brings : intoNotAndOr.Brings Operator.all Basis.notAndOr.operators := by
  decide

theorem orIntoNotAnd_brings :
    orIntoNotAnd.Brings Basis.notAndOr.operators Basis.notAnd.operators := by
  decide

theorem notAndIntoNand_brings :
    notAndIntoNand.Brings Basis.notAnd.operators Basis.nand.operators := by
  decide

theorem intoImpliesNot_brings : intoImpliesNot.Brings Operator.all Basis.impliesNot.operators := by
  decide

theorem intoImpliesNotFalse_brings :
    intoImpliesNotFalse.Brings Operator.all (.not :: Basis.impliesFalse.operators) := by
  decide

theorem notIntoImpliesFalse_brings : notIntoImpliesFalse.Brings
    (.not :: Basis.impliesFalse.operators) Basis.impliesFalse.operators := by
  decide

/-! ## Variables -/

/-- The templates mention all operands, and what they mention in addition are the variables in `vs`,
in the templates of the constants. -/
structure Introduces (t : OperatorTable) (vs : List Var) : Prop where
  keepsOperands : ∀ o, t.KeepsOperands o
  mem_unbound_iff : ∀ o v, v ∈ t.unbound o ↔ o.arity = 0 ∧ v ∈ vs

/-- This is a question about the templates of ten operators. -/
theorem introduces_of_forall_mem_all {vs : List Var}
    (h : ∀ o ∈ Operator.all, (∀ v ∈ o.operands, v ∈ (t.template o).occurrences) ∧
      (∀ v ∈ t.unbound o, o.arity = 0 ∧ v ∈ vs) ∧
        (o.arity = 0 → ∀ v ∈ vs, v ∈ t.unbound o)) : t.Introduces vs where
  keepsOperands o := (h o o.mem_all).1
  mem_unbound_iff o v := by
    obtain ⟨-, hsub, hsup⟩ := h o o.mem_all
    exact ⟨hsub v, fun ⟨ho, hv⟩ => hsup ho v hv⟩

/-- The variables that come in are those in the templates of the constants, if there is a
constant. -/
theorem Introduces.mem_occurrences_expand_iff {vs : List Var} (ht : t.Introduces vs) {v : Var} :
    v ∈ (f.expand t).occurrences ↔
      v ∈ f.occurrences ∨ v ∈ vs ∧ ∃ x, .const x ∈ f.operators := by
  rw [OperatorTable.mem_occurrences_expand_iff fun o _ => ht.keepsOperands o]
  refine or_congr_right ?_
  constructor
  · rintro ⟨o, ho, hv⟩
    obtain ⟨harity, hvs⟩ := (ht.mem_unbound_iff o v).mp hv
    cases o with
    | const x => exact ⟨hvs, x, ho⟩
    | not => cases harity
    | binary c => cases harity
  · rintro ⟨hv, x, hx⟩
    exact ⟨.const x, hx, (ht.mem_unbound_iff _ v).mpr ⟨rfl, hv⟩⟩

theorem intoNotAndOr_introduces : intoNotAndOr.Introduces [.p] :=
  introduces_of_forall_mem_all (by decide)

theorem orIntoNotAnd_introduces : orIntoNotAnd.Introduces [] :=
  introduces_of_forall_mem_all (by decide)

theorem notAndIntoNand_introduces : notAndIntoNand.Introduces [] :=
  introduces_of_forall_mem_all (by decide)

theorem intoImpliesNot_introduces : intoImpliesNot.Introduces [.p] :=
  introduces_of_forall_mem_all (by decide)

theorem intoImpliesNotFalse_introduces : intoImpliesNotFalse.Introduces [] :=
  introduces_of_forall_mem_all (by decide)

theorem notIntoImpliesFalse_introduces : notIntoImpliesFalse.Introduces [] :=
  introduces_of_forall_mem_all (by decide)

end OperatorTable

namespace Basis

open OperatorTable

/-! ## Reduced formulas -/

theorem mem_operators_of_mem_reduce (b : Basis) (f : Formula) :
    ∀ o ∈ (b.reduce f).operators, o ∈ b.operators := by
  have hf : ∀ o ∈ f.operators, o ∈ Operator.all := fun o _ => o.mem_all
  have hnotAndOr := intoNotAndOr_brings.operators_expand hf
  have hnotAnd := orIntoNotAnd_brings.operators_expand hnotAndOr
  have himplies := intoImpliesNotFalse_brings.operators_expand hf
  cases b with
  | notAndOr => exact hnotAndOr
  | notAnd => exact hnotAnd
  | nand => exact notAndIntoNand_brings.operators_expand hnotAnd
  | impliesNot => exact intoImpliesNot_brings.operators_expand hf
  | impliesFalse => exact notIntoImpliesFalse_brings.operators_expand himplies

/-- **A reduced formula is one over the basis:** every operator that occurs in it is an operator of
the basis, and the check of the basis accepts it. -/
theorem contains_reduce (b : Basis) (f : Formula) :
    (∀ o ∈ (b.reduce f).operators, o ∈ b.operators) ∧ b.contains (b.reduce f) = true := by
  have hoperators := b.mem_operators_of_mem_reduce f
  exact ⟨hoperators, contains_iff.mpr hoperators⟩

/-- The variables in which a basis expresses constants that are not in it. -/
def constantVars : Basis → List Var
  | .impliesFalse => []
  | _ => [.p]

/-- The variables of a reduced formula are those of the formula and, if it has a constant, those in
which the basis expresses constants. -/
theorem mem_occurrences_reduce_iff (b : Basis) (f : Formula) (v : Var) :
    v ∈ (b.reduce f).occurrences ↔
      v ∈ f.occurrences ∨ v ∈ b.constantVars ∧ ∃ x, .const x ∈ f.operators := by
  -- a table without templates for constants brings in nothing
  have hlater : ∀ {t : OperatorTable}, t.Introduces [] → ∀ g : Formula,
      v ∈ (g.expand t).occurrences ↔ v ∈ g.occurrences := fun ht g => by
    simpa using ht.mem_occurrences_expand_iff (f := g) (v := v)
  cases b with
  | notAndOr => exact intoNotAndOr_introduces.mem_occurrences_expand_iff
  | notAnd =>
    exact (hlater orIntoNotAnd_introduces _).trans
      intoNotAndOr_introduces.mem_occurrences_expand_iff
  | nand =>
    exact (hlater notAndIntoNand_introduces _).trans <| (hlater orIntoNotAnd_introduces _).trans
      intoNotAndOr_introduces.mem_occurrences_expand_iff
  | impliesNot => exact intoImpliesNot_introduces.mem_occurrences_expand_iff
  | impliesFalse =>
    exact (hlater notIntoImpliesFalse_introduces _).trans
      intoImpliesNotFalse_introduces.mem_occurrences_expand_iff

/-- **The variables of a reduced formula.**  Over the basis with a constant they are those of the
formula.  Over the others they are those of the formula, too, if it has no constant; a constant adds
`p`.  So no basis loses a variable. -/
theorem vars_reduce (f : Formula) :
    (impliesFalse.reduce f).vars = f.vars ∧
    (∀ b ≠ impliesFalse, (∀ x, .const x ∉ f.operators) → (b.reduce f).vars = f.vars) ∧
    (∀ b ≠ impliesFalse, (∃ x, .const x ∈ f.operators) →
      (b.reduce f).vars = ascending (.p :: f.vars)) ∧
    ∀ (b : Basis), ∀ v ∈ f.vars, v ∈ (b.reduce f).vars := by
  have hconstant : ∀ b ≠ impliesFalse, b.constantVars = [.p] := by
    intro b hb
    cases b with
    | impliesFalse => exact absurd rfl hb
    | _ => rfl
  refine ⟨?_, fun b _ hf => ?_, fun b hb hf => ?_, fun b v hv => ?_⟩
  · refine ascending_congr fun v => ?_
    rw [mem_occurrences_reduce_iff, constantVars]
    simp
  · refine ascending_congr fun v => ?_
    rw [mem_occurrences_reduce_iff, or_iff_left fun h => ?_]
    obtain ⟨-, x, hx⟩ := h
    exact hf x hx
  · refine ascending_congr fun v => ?_
    rw [mem_occurrences_reduce_iff, hconstant b hb, List.mem_singleton, and_iff_left hf,
      List.mem_cons, Formula.mem_vars, or_comm]
  · rw [Formula.mem_vars, mem_occurrences_reduce_iff]
    exact .inl (Formula.mem_vars.mp hv)

end Basis

end PropLogic

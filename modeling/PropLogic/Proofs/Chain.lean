import Mathlib.Data.List.Basic
import Mathlib.Tactic.Tauto
import PropLogic.NormalForm
import PropLogic.Proofs.Coincidence

/-!
# Chains of a connective

A chain joins the formulas of a list from left to right.  All that is said of chains is said of the
list by one induction (`Formula.chain_induction`), which joins the first two formulas and so makes
the list shorter: `Formula.eval_chain_eq_iff`, for a connective that has a certain value as soon as
one of its operands has it, the variables, and the operators.  The first of these is the value of a
disjunction (true) as well as that of a conjunction (false).
-/

namespace PropLogic.Formula

variable {c : Connective} {f : Formula} {fs : List Formula}

/-- What holds of a single formula, and of a list as soon as it holds with the first two formulas
joined, holds of every list and its chain. -/
theorem chain_induction {P : List Formula → Formula → Prop} (single : ∀ f, P [f] f)
    (join : ∀ f g fs h, P (binary c f g :: fs) h → P (f :: g :: fs) h)
    (h : chain? c fs = some f) : P fs f := by
  cases fs with
  | nil => cases h
  | cons g fs =>
    cases h
    induction fs generalizing g with
    | nil => exact single g
    | cons g' fs ih => exact join g g' fs _ (ih (binary c g g'))

/-- **A chain has the dominant value of its connective if some member has it.** -/
theorem eval_chain_eq_iff {z : Bool} (hz : ∀ a b, c.apply a b = z ↔ a = z ∨ b = z)
    (h : chain? c fs = some f) (ρ : Var → Bool) : f.eval ρ = z ↔ ∃ g ∈ fs, g.eval ρ = z := by
  refine chain_induction (P := fun fs f => f.eval ρ = z ↔ ∃ g ∈ fs, g.eval ρ = z)
    (fun f => ?_) (fun f g fs h ih => ?_) h
  · rw [List.exists_mem_cons_iff]
    simp
  · rw [ih, List.exists_mem_cons_iff, List.exists_mem_cons_iff, List.exists_mem_cons_iff, eval,
      hz, or_assoc]

/-- A conjunction is true if all members are. -/
theorem eval_chain_and (h : chain? .and fs = some f) (ρ : Var → Bool) :
    f.eval ρ = fs.all (·.eval ρ) := by
  have hz : ∀ a b, Connective.and.apply a b = false ↔ a = false ∨ b = false :=
    fun a b => Bool.and_eq_false_iff
  rw [Bool.eq_iff_iff, ← not_iff_not, Bool.not_eq_true, Bool.not_eq_true, List.all_eq_false,
    eval_chain_eq_iff hz h]
  simp only [Bool.not_eq_true]

theorem occurrences_chain (h : chain? c fs = some f) :
    f.occurrences = fs.flatMap occurrences := by
  refine chain_induction (P := fun fs f => f.occurrences = fs.flatMap occurrences)
    (fun f => ?_) (fun f g fs h ih => ?_) h
  · rw [List.flatMap_cons, List.flatMap_nil, List.append_nil]
  · rw [ih, List.flatMap_cons, List.flatMap_cons, List.flatMap_cons, occurrences,
      List.append_assoc]

/-- A chain has no other operators than its connective and those of its members. -/
theorem mem_operators_of_chain {o : Operator} (h : chain? c fs = some f) (ho : o ∈ f.operators) :
    o = .binary c ∨ ∃ g ∈ fs, o ∈ g.operators := by
  refine chain_induction
    (P := fun fs f => o ∈ f.operators → o = .binary c ∨ ∃ g ∈ fs, o ∈ g.operators)
    (fun f ho => ?_) (fun f g fs h ih ho => ?_) h ho
  · exact .inr ⟨f, List.mem_singleton_self f, ho⟩
  · have hjoined := ih ho
    rw [List.exists_mem_cons_iff, mem_operators_binary] at hjoined
    rw [List.exists_mem_cons_iff, List.exists_mem_cons_iff]
    tauto

end PropLogic.Formula

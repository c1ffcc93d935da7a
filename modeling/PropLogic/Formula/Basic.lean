import PropLogic.Ascending
import PropLogic.Operator
import PropLogic.Variable

/-!
# Propositional formulas

A formula is a tree of variables, constants, negations and binary connectives.  This module has its
type, the parts of its root, its measures, and the sets of the variables and the operators that
occur in it.  Both sets are lists without repetitions: the variables ascend by name, the operators
follow their canonical order.

Memory is idealised, here and in all other modules: a size, a depth or a count may be any natural
number, and a text or a list as long as it comes out, though no machine holds the values of `2 ^ 63`
rows or a text of as many bytes.

Main statements: `Formula.mem_vars`, `Formula.vars_nodup` and `Formula.vars_sorted`
describe the list of variables; `Formula.mem_operators`, its cases for the kinds of formulas and
`Formula.anyOperator_eq` the operators.
-/

namespace PropLogic

/-- A propositional formula. -/
inductive Formula where
  | var (v : Var)
  | const (value : Bool)
  | not (f : Formula)
  | binary (c : Connective) (f g : Formula)
  deriving DecidableEq

namespace Formula

/-- The conjunction of two formulas. -/
abbrev and (f g : Formula) : Formula := .binary .and f g

/-- The disjunction of two formulas. -/
abbrev or (f g : Formula) : Formula := .binary .or f g

/-- The implication between two formulas. -/
abbrev implies (f g : Formula) : Formula := .binary .implies f g

/-- The exclusive disjunction of two formulas. -/
abbrev xor (f g : Formula) : Formula := .binary .xor f g

/-- The equivalence of two formulas. -/
abbrev iff (f g : Formula) : Formula := .binary .iff f g

/-- The negated conjunction of two formulas. -/
abbrev nand (f g : Formula) : Formula := .binary .nand f g

/-- The negated disjunction of two formulas. -/
abbrev nor (f g : Formula) : Formula := .binary .nor f g

/-- The symbol at the root: the variable's name or the operator's symbol. -/
def root : Formula → String
  | .var v => v.name
  | .const b => (Operator.const b).symbol
  | .not _ => Operator.not.symbol
  | .binary c _ _ => c.symbol

/-- The first operand of the root. -/
def first? : Formula → Option Formula
  | .not f => some f
  | .binary _ f _ => some f
  | _ => none

/-- The second operand of the root. -/
def second? : Formula → Option Formula
  | .binary _ _ g => some g
  | _ => none

/-- Whether the formula is a variable or a constant. -/
def isLeaf : Formula → Bool
  | .var _ => true
  | .const _ => true
  | _ => false

/-- The number of nodes of the tree. -/
def size : Formula → Nat
  | .var _ => 1
  | .const _ => 1
  | .not f => f.size + 1
  | .binary _ f g => f.size + g.size + 1

/-- The number of operators on the longest way from the root to a leaf. -/
def depth : Formula → Nat
  | .var _ => 0
  | .const _ => 0
  | .not f => f.depth + 1
  | .binary _ f g => max f.depth g.depth + 1

/-! ## Variables -/

/-- The variables at the leaves, from left to right. -/
def occurrences : Formula → List Var
  | .var v => [v]
  | .const _ => []
  | .not f => f.occurrences
  | .binary _ f g => f.occurrences ++ g.occurrences

/-- Whether some variable of the formula has the property. -/
def anyVariable (P : Var → Bool) : Formula → Bool
  | .var v => P v
  | .const _ => false
  | .not f => f.anyVariable P
  | .binary _ f g => f.anyVariable P || g.anyVariable P

/-- The variables of the formula, each once, ascending by name. -/
def vars (f : Formula) : List Var :=
  ascending f.occurrences

/-- The listed variables are those that occur. -/
@[simp] theorem mem_vars {f : Formula} {v : Var} : v ∈ f.vars ↔ v ∈ f.occurrences :=
  mem_ascending

theorem vars_nodup (f : Formula) : f.vars.Nodup :=
  ascending_nodup _

/-- The variables strictly ascend. -/
theorem vars_sorted (f : Formula) :
    f.vars.Pairwise fun v w => compare v w = .lt :=
  ascending_sorted _

/-- A property holds of some variable of the formula exactly if it holds of a listed one. -/
theorem anyVariable_eq (P : Var → Bool) (f : Formula) : f.anyVariable P = f.vars.any P := by
  have key : f.anyVariable P = f.occurrences.any P := by
    induction f with
    | var v => simp [anyVariable, occurrences]
    | const b => rfl
    | not f ih => exact ih
    | binary c f g ihf ihg => simp [anyVariable, occurrences, ihf, ihg]
  rw [key, Bool.eq_iff_iff]
  simp

/-! ## Operators -/

/-- Whether some operator of the formula has the property. -/
def anyOperator (P : Operator → Bool) : Formula → Bool
  | .var _ => false
  | .const b => P (.const b)
  | .not f => P .not || f.anyOperator P
  | .binary c f g => P (.binary c) || f.anyOperator P || g.anyOperator P

/-- The operators of the formula, each once, in their canonical order. -/
def operators (f : Formula) : List Operator :=
  Operator.all.filter fun o => f.anyOperator (· == o)

@[simp] theorem mem_operators {f : Formula} {o : Operator} :
    o ∈ f.operators ↔ f.anyOperator (· == o) = true := by
  simp [operators, Operator.mem_all]

theorem operators_var (v : Var) : (var v).operators = [] := by
  simp [operators, anyOperator]

theorem mem_operators_const {o : Operator} {b : Bool} :
    o ∈ (const b).operators ↔ o = .const b := by
  rw [mem_operators, anyOperator, beq_iff_eq, eq_comm]

theorem mem_operators_not {o : Operator} {f : Formula} :
    o ∈ (not f).operators ↔ o = .not ∨ o ∈ f.operators := by
  rw [mem_operators, mem_operators, anyOperator, Bool.or_eq_true, beq_iff_eq, eq_comm]

theorem mem_operators_binary {o : Operator} {c : Connective} {f g : Formula} :
    o ∈ (binary c f g).operators ↔ o = .binary c ∨ o ∈ f.operators ∨ o ∈ g.operators := by
  rw [mem_operators, mem_operators, mem_operators, anyOperator, Bool.or_eq_true, Bool.or_eq_true,
    beq_iff_eq, eq_comm, or_assoc]

section

variable {P : Operator → Prop} {b : Bool} {c : Connective} {f g : Formula}

/-! What is said of the operators of a formula is said of the root and of the operands. -/

theorem forall_mem_operators_const : (∀ o ∈ (const b).operators, P o) ↔ P (.const b) := by
  simp only [mem_operators_const, forall_eq]

theorem forall_mem_operators_not :
    (∀ o ∈ (not f).operators, P o) ↔ P .not ∧ ∀ o ∈ f.operators, P o := by
  simp only [mem_operators_not, or_imp, forall_and, forall_eq]

theorem forall_mem_operators_binary : (∀ o ∈ (binary c f g).operators, P o) ↔
    P (.binary c) ∧ (∀ o ∈ f.operators, P o) ∧ ∀ o ∈ g.operators, P o := by
  simp only [mem_operators_binary, or_imp, forall_and, forall_eq]

theorem exists_mem_operators_const : (∃ o ∈ (const b).operators, P o) ↔ P (.const b) := by
  simp only [mem_operators_const, exists_eq_left]

theorem exists_mem_operators_not :
    (∃ o ∈ (not f).operators, P o) ↔ P .not ∨ ∃ o ∈ f.operators, P o := by
  simp only [mem_operators_not, or_and_right, exists_or, exists_eq_left]

theorem exists_mem_operators_binary : (∃ o ∈ (binary c f g).operators, P o) ↔
    P (.binary c) ∨ (∃ o ∈ f.operators, P o) ∨ ∃ o ∈ g.operators, P o := by
  simp only [mem_operators_binary, or_and_right, exists_or, exists_eq_left]

end

/-- A property holds of some operator of the formula exactly if it holds of a listed one. -/
theorem anyOperator_eq (P : Operator → Bool) (f : Formula) :
    f.anyOperator P = f.operators.any P := by
  rw [Bool.eq_iff_iff, List.any_eq_true]
  simp only [mem_operators]
  induction f with
  | var v => simp [anyOperator]
  | const b => simp [anyOperator]
  | not f ih => simp only [anyOperator, Bool.or_eq_true, beq_iff_eq, ih]; grind
  | binary c f g ihf ihg => simp only [anyOperator, Bool.or_eq_true, beq_iff_eq, ihf, ihg]; grind

end Formula

end PropLogic

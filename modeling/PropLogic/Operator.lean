import PropLogic.Connective
import PropLogic.SyntaxError

/-!
# Operators

An operator is whatever may stand at the root of a formula besides a variable: a constant, negation
or a binary connective.  `Operator.all` lists the ten of them in the order in which sets of
operators are shown.
-/

namespace PropLogic

/-- The symbol at the root of a formula that is not a variable. -/
inductive Operator where
  | const (value : Bool)
  | not
  | binary (c : Connective)
  deriving DecidableEq

namespace Operator

/-- All operators, in their canonical order: the constants, negation, the connectives. -/
def all : List Operator :=
  .const true :: .const false :: .not :: Connective.all.map .binary

theorem mem_all (o : Operator) : o ∈ all := by
  cases o with
  | const b => cases b <;> decide
  | not => decide
  | binary c => cases c <;> decide

/-- The written form of an operator. -/
def symbol : Operator → String
  | .const true => "T"
  | .const false => "F"
  | .not => "~"
  | .binary c => c.symbol

/-- The number of operands that an operator takes. -/
def arity : Operator → Nat
  | .const _ => 0
  | .not => 1
  | .binary _ => 2

theorem symbol_injective {o o' : Operator} (h : o.symbol = o'.symbol) : o = o' := by
  have key : ∀ a ∈ all, ∀ b ∈ all, a.symbol = b.symbol → a = b := by decide
  exact key o o.mem_all o' o'.mem_all h

/-- The operator of a given symbol. -/
def ofSymbol? (s : String) : Option Operator :=
  all.find? fun o => o.symbol == s

/-- The operator that a text is the symbol of. -/
def parse (s : String) : Except SyntaxError Operator :=
  match ofSymbol? s with
  | some o => .ok o
  | none => .error (.unknownOperator s)

/-- A text is read as the operator that it is the symbol of. -/
theorem ofSymbol?_eq_some_iff {s : String} {o : Operator} :
    ofSymbol? s = some o ↔ s = o.symbol := by
  constructor
  · intro h
    unfold ofSymbol? at h
    exact (eq_of_beq (List.find?_some h :)).symm
  · rintro rfl
    have key : ∀ a ∈ all, ofSymbol? a.symbol = some a := by decide
    exact key o o.mem_all

end Operator

/-! ## Kinds of symbols -/

/-- Whether the text is the symbol of a constant. -/
def isConstantSymbol (s : String) : Bool :=
  s == "T" || s == "F"

/-- Whether the text is the symbol of negation. -/
def isUnarySymbol (s : String) : Bool :=
  s == "~"

/-- Whether the text is the symbol of a connective. -/
def isBinarySymbol (s : String) : Bool :=
  (Connective.ofSymbol? s).isSome

theorem isConstantSymbol_iff {s : String} :
    isConstantSymbol s = true ↔ ∃ b, s = (Operator.const b).symbol := by
  rw [isConstantSymbol, Bool.or_eq_true, beq_iff_eq, beq_iff_eq]
  constructor
  · exact fun h => h.elim (fun h => ⟨true, h⟩) fun h => ⟨false, h⟩
  · rintro ⟨b, rfl⟩
    cases b <;> decide

theorem isUnarySymbol_iff {s : String} : isUnarySymbol s = true ↔ s = Operator.not.symbol :=
  beq_iff_eq

theorem isBinarySymbol_iff {s : String} :
    isBinarySymbol s = true ↔ ∃ c, s = (Operator.binary c).symbol := by
  rw [isBinarySymbol, Option.isSome_iff_exists]
  exact exists_congr fun c => Connective.ofSymbol?_eq_some_iff

end PropLogic

import PropLogic.Model.Basic
import PropLogic.Standard.Text

/-!
# Faults

An operation on formulas and models has preconditions that its types do not express: names that are
variable names, operands that suit an operator, a model that assigns what it is asked for, few
enough variables to go through all models, a width that a text can be filled up to.  A `Fault` is
the cause why an operation refuses its arguments.
-/

namespace PropLogic

/-- A broken precondition of an operation. -/
inductive Fault where
  /-- A variable was asked for by a text that is no variable name. -/
  | invalidName (s : String)
  /-- A variable or a constant was given an operand. -/
  | leafWithOperands (root : String)
  /-- Negation was given other than a first operand alone. -/
  | notOneOperand
  /-- A connective was not given both operands. -/
  | notTwoOperands (c : Connective)
  /-- A root that is neither a variable name nor the symbol of an operator. -/
  | unknownRoot (s : String)
  /-- A model with a key that is no variable name. -/
  | invalidModel (m : Model)
  /-- A model without a value for a variable that needs one. -/
  | unassigned (m : Model) (v : Var)
  /-- A list of names to go through with one that is no variable name. -/
  | notAVariable (s : String)
  /-- More variables than all models can be gone through for. -/
  | tooManyVariables (n : Nat)
  /-- A text that was to be filled up to a greater width than there is. -/
  | widthOutOfRange
  /-- A variable of a formula that is missing among the names counted over. -/
  | notCounted (v : Var)
  /-- A substitution with a key that is no variable name. -/
  | invalidKey (s : String)
  /-- A template for an operator that uses another variable than those of the operands. -/
  | templateVariables (o : Operator) (template : Formula)
  /-- A model without entries, of which a formula was asked for. -/
  | emptyModel
  /-- An empty list of names, over which a formula was asked for. -/
  | noNames

/-- The wording of a fault. -/
def Fault.message : Fault → String
  | .invalidName s => s!"Invalid variable name `{s}`"
  | .leafWithOperands s => s!"Leaf `{s}` cannot have operands"
  | .notOneOperand => s!"Unary operator `{Operator.not.symbol}` requires exactly one operand"
  | .notTwoOperands c => s!"Binary operator `{c.symbol}` requires exactly two operands"
  | .unknownRoot s => s!"Unknown root symbol `{s}`"
  | .invalidModel m => s!"Invalid model {m.quoted}"
  | .unassigned m v => s!"Model {m.quoted} does not assign variable `{v.name}`"
  | .notAVariable s => s!"`{s}` is not a variable name"
  | .tooManyVariables n => s!"Too many variables: {n}"
  | .widthOutOfRange => "Formatting argument out of range"
  | .notCounted v => s!"Variable `{v.name}` is not counted over"
  | .invalidKey s => s!"Substitution key `{s}` is not a variable name"
  | .templateVariables o t =>
    s!"Template `{t.text}` for `{o.symbol}` may only use variables `p` and `q`"
  | .emptyModel => "Cannot synthesize over an empty model"
  | .noNames => "Cannot synthesize over an empty set of variables"

end PropLogic

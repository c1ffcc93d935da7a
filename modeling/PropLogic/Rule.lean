import PropLogic.Evaluation

/-!
# Inference rules

An inference rule leads from a list of assumptions to a conclusion.  It holds in a model unless all
its assumptions are true there and its conclusion is false.
-/

namespace PropLogic

/-- An inference rule. -/
structure Rule where
  assumptions : List Formula
  conclusion : Formula
  deriving DecidableEq

namespace Rule

/-- Rules are told apart by their assumptions, in order, and their conclusions. -/
instance : BEq Rule where
  beq r s := r.assumptions == s.assumptions && r.conclusion == s.conclusion

/-- The written form of a rule. -/
def text (r : Rule) : String :=
  "[" ++ ", ".intercalate (r.assumptions.map Formula.text) ++ "] ==> " ++ r.conclusion.text

/-- The variables of the assumptions and the conclusion, each once, ascending by name. -/
def vars (r : Rule) : List Var :=
  ascending (r.assumptions.flatMap Formula.occurrences ++ r.conclusion.occurrences)

/-- Whether the rule holds in a model. -/
def evaluate (r : Rule) (m : Model) : Except Fault Bool := do
  m.check r.vars
  if ← r.assumptions.allM (·.evaluate m) then r.conclusion.evaluate m else return true

/-- Whether the rule holds in all models. -/
def isSound (r : Rule) : Except Fault Bool := do
  (← Enumeration.ofVars r.vars).allM r.evaluate

end Rule

end PropLogic

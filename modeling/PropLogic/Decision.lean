import PropLogic.Evaluation

/-!
# Questions about all models

Tautology, satisfiability, contradiction and equivalence are decided by going through all models
over the variables that occur, up to the first one that decides; models are counted by going
through all of them.  A formula with 64 variables or more is refused.
-/

namespace PropLogic.Formula

/-- Whether the formula is true in all models. -/
def isTautology (f : Formula) : Except Fault Bool := do
  (← Enumeration.ofVars f.vars).allM f.valueIn

/-- Whether the formula is true in some model. -/
def isSatisfiable (f : Formula) : Except Fault Bool := do
  (← Enumeration.ofVars f.vars).anyM f.valueIn

/-- Whether the formula is true in no model. -/
def isContradiction (f : Formula) : Except Fault Bool :=
  f.isSatisfiable.map (!·)

/-- Whether two formulas have the same truth value in all models over the variables of both. -/
def isEquivalent (f g : Formula) : Except Fault Bool := do
  (← Enumeration.ofVars (ascending (f.occurrences ++ g.occurrences))).allM fun m =>
    return (← f.valueIn m) == (← g.valueIn m)

/-- The number of models over the formula's own variables in which it is true. -/
def countOwn (f : Formula) : Except Fault Nat := do
  return (← (← Enumeration.ofVars f.vars).mapM f.valueIn).count true

/-- The number of ways to assign truth values to the names, each counted once, under which the
formula is true.  The names have to include the variables of the formula; every other name doubles
the number. -/
def countModels (f : Formula) (names : List String) : Except Fault Nat := do
  match f.vars.find? fun v => !names.contains v.name with
  | some v => throw (.notCounted v)
  | none => return (← f.countOwn) * rowCount (names.eraseDups.length - f.vars.length)

end PropLogic.Formula

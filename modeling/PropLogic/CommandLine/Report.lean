import PropLogic.Basis
import PropLogic.Decision
import PropLogic.Polish.Text
import PropLogic.TruthTable

/-!
# The report on a formula

The report shows a formula in both notations, its measures, its truth table, what holds in all its
models, and the formula over a basis if one is asked for.  The parts are written one after the
other, so that of a formula with too many variables, or with too wide a column, everything up to the
heading of the table is shown.
-/

namespace PropLogic.CommandLine

/-- What the program writes and the code with which it ends. -/
structure Outcome where
  exitCode : Nat
  stdout : String
  deriving DecidableEq

namespace Outcome

/-- The text of the formula cannot be read: nothing is written. -/
def unreadable : Outcome := ⟨1, ""⟩

/-- The report breaks off behind what is written. -/
def brokenOff (written : String) : Outcome := ⟨101, written⟩

/-- The report is complete. -/
def complete (written : String) : Outcome := ⟨0, written⟩

end Outcome

/-- A line with a name and what it stands for. -/
def equation (name value : String) : String :=
  name ++ " = " ++ value ++ "\n"

/-- A truth value in a word. -/
def word (b : Bool) : String :=
  if b then "true" else "false"

/-- The lines on the formula itself. -/
def opening (f : Formula) : String :=
  equation "formula" f.text ++ equation "polish" f.polish ++
    s!"size = {f.size}, depth = {f.depth}\n\n"

/-- The lines on all models of the formula. -/
def findings (f : Formula) : Except Fault String := do
  return equation "tautology" (word (← f.isTautology)) ++
    equation "satisfiable" (word (← f.isSatisfiable)) ++
    equation "models" (toString (← f.countModels (f.vars.map Var.name)))

/-- The lines on the formula over a basis. -/
def reduction (f : Formula) (b : Basis) : String :=
  "\n" ++ equation ("over " ++ b.text) (b.reduce f).text ++
    equation "size" (toString (b.reduce f).size)

/-- The report on a formula. -/
def report (f : Formula) (basis? : Option Basis) : Outcome :=
  let start := opening f ++ TruthTable.heading f
  match TruthTable.rows f with
  | .error _ => .brokenOff start
  | .ok rows =>
    let table := start ++ String.join rows ++ "\n"
    match findings f with
    | .error _ => .brokenOff table
    | .ok lines => .complete (table ++ lines ++ (basis?.map (reduction f)).getD "")

end PropLogic.CommandLine

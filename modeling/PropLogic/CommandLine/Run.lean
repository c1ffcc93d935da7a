import PropLogic.CommandLine.Environment
import PropLogic.Polish.Reader
import PropLogic.Standard.Reader

/-!
# The command line

From the arguments to what is written: arguments that make no request come before everything else,
then the formula is read in the notation asked for, then the report is made.
-/

namespace PropLogic.CommandLine

/-- The formula that a text is, in the notation asked for. -/
def readFormula (polish : Bool) (s : String) : Except SyntaxError Formula :=
  if polish then Formula.parsePolish s else Formula.parse s

/-- What the program itself does with a request. -/
def respond (q : Request) : Outcome :=
  match readFormula q.polish q.formula with
  | .ok f => report f q.basis?
  | .error _ => .unreadable

/-- What the program does with its arguments. -/
def run (env : Environment) (args : List String) : Outcome :=
  match env.readArguments args with
  | .ok q => env.withRecords q (respond q)
  | .error o => o

end PropLogic.CommandLine

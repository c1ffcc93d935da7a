import PropLogic.CommandLine.Report

/-!
# Around the program

The program takes one formula and three options: `--polish`, a switch; `--basis`, with the name of a
basis; and `--log-level`, with the name of a level.  Neither the reading of the arguments nor the
logger is part of this library.  `Environment` has both as functions of which nothing is known: the
reader makes a request of the arguments or ends the program over them, with a message about their
use, a help text or a version; the logger puts its records among what the program writes.

All records of this library are for debugging, so that the level decides whether there are any
(`LogLevel.showsDebug`).
-/

namespace PropLogic.CommandLine

/-- How much a logger is asked to write. -/
inductive LogLevel where
  | off
  | error
  | warn
  | info
  | debug
  | trace
  deriving DecidableEq

/-- Whether records for debugging are written. -/
def LogLevel.showsDebug : LogLevel → Bool
  | .debug => true
  | .trace => true
  | _ => false

/-- What the program is asked for. -/
structure Request where
  formula : String
  polish : Bool
  basis? : Option Basis
  level : LogLevel

/-- What the program finds around it. -/
structure Environment where
  /-- The request that the arguments make, or how they end the program. -/
  readArguments : List String → Except Outcome Request
  /-- How the program ends with the records of a request among what it writes. -/
  withRecords : Request → Outcome → Outcome

end PropLogic.CommandLine

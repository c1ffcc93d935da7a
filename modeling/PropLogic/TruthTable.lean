import PropLogic.Evaluation

/-!
# Truth tables

A truth table has a column for each variable of a formula, ascending by name, and one for the
formula itself.  Its heading names the columns, a line of dashes follows, and each model over the
variables has a row, in the order of the enumeration.  Every cell is as wide as the head of its
column:

```text
| p | q76 | ~(p&q76) |
|---|-----|----------|
| F | F   | T        |
```

The heads and the dashes may have any width.  A truth value is filled with blanks up to the width of
its column, and no width is greater than `TruthTable.maxWidth`: under a wider head the first row
fails, when the heading has been written.
-/

namespace PropLogic

namespace TruthTable

/-- The heads of the columns. -/
def heads (f : Formula) : List String :=
  f.vars.map Var.name ++ [f.text]

/-- A line of cells between bars. -/
def line (cells : List String) : String :=
  "| " ++ " | ".intercalate cells ++ " |\n"

/-- The line of dashes under heads. -/
def ruler (hs : List String) : String :=
  "|-" ++ "-|-".intercalate (hs.map fun h => String.ofList (List.replicate h.length '-')) ++ "-|\n"

/-- The greatest width that a text can be filled up to. -/
def maxWidth : Nat :=
  65535

/-- A truth value, filled with blanks to the width of a head. -/
def filled (b : Bool) (head : String) : String :=
  (Operator.const b).symbol ++ String.ofList (List.replicate (head.length - 1) ' ')

/-- The cell of a truth value under the head of its column, which must not be too wide. -/
def cell (b : Bool) (head : String) : Except Fault String :=
  if head.length ≤ maxWidth then .ok (filled b head) else .error .widthOutOfRange

/-- The first two lines of the table. -/
def heading (f : Formula) : String :=
  line (heads f) ++ ruler (heads f)

/-- The line of a model: the values of the variables and of the formula, under the heads.  The model
has to assign them all.  The formula is evaluated first; then the columns are filled from left to
right. -/
def row (vs : List Var) (hs : List String) (f : Formula) (m : Model) : Except Fault String := do
  let value ← f.valueIn m
  let values := vs.map (fun v => (Formula.var v).valueIn m) ++ [.ok value]
  return line (← (values.zip hs).mapM fun p => do cell (← p.1) p.2)

/-- The lines of all models over the variables of the formula. -/
def rows (f : Formula) : Except Fault (List String) := do
  let hs := heads f
  let e ← Enumeration.ofVars f.vars
  e.mapM (row e.names hs f)

end TruthTable

/-- The truth table of a formula. -/
def Formula.truthTable (f : Formula) : Except Fault String := do
  return TruthTable.heading f ++ String.join (← TruthTable.rows f)

end PropLogic

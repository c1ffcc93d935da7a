import PropLogic.Model.Enumeration

/-!
# Normal forms

A formula with a given truth table, or with a given model, is put together from literals.  The
disjunctive form joins a conjunction for each row that is true, the conjunctive form a disjunction
for each row that is false.  Both are described by one value of `NormalForm`: its inner connective
joins the literals of a clause, its outer connective the clauses, and its sign is the truth value
of the rows that have a clause.  Chains of a connective nest to the left.
-/

namespace PropLogic

/-- One of the two normal forms. -/
inductive NormalForm where
  | disjunctive
  | conjunctive
  deriving DecidableEq

/-- The formulas of a list joined by a connective from left to right; none for the empty list. -/
def Formula.chain? (c : Connective) : List Formula → Option Formula
  | [] => none
  | f :: fs => some (fs.foldl (.binary c) f)

/-- A variable or its negation. -/
def Formula.literal (v : Var) (positive : Bool) : Formula :=
  if positive then .var v else .not (.var v)

namespace NormalForm

/-- The connective between the literals of a clause. -/
def inner : NormalForm → Connective
  | .disjunctive => .and
  | .conjunctive => .or

/-- The connective between the clauses. -/
def outer : NormalForm → Connective
  | .disjunctive => .or
  | .conjunctive => .and

/-- The truth value of the rows that have a clause. -/
def sign : NormalForm → Bool
  | .disjunctive => true
  | .conjunctive => false

/-- The clause of a model over the names, in their order: its value in the model is the sign of the
form, and in every model that differs on a name it is the other value. -/
def clause? (k : NormalForm) (names : List Var) (m : Model) : Option Formula :=
  Formula.chain? k.inner (names.map fun v => .literal v (m.valuation v == k.sign))

/-- The clause of a model over its own names. -/
def ofModel (k : NormalForm) (m : Model) : Except Fault Formula :=
  if m.isValid then
    match k.clause? m.vars m with
    | some f => .ok f
    | none => .error .emptyModel
  else .error (.invalidModel m)

/-- The clause of no row: both literals of a variable, joined by the inner connective. -/
def trivialClause (k : NormalForm) (v : Var) : Formula :=
  .binary k.inner (.literal v true) (.literal v false)

/-- The clauses of the rows whose value is the sign of the form.  Values beyond the last row are
left out, and rows beyond the last value have no clause. -/
def clauses (k : NormalForm) (names : List Var) (values : List Bool) : List Formula :=
  (values.take (rowCount names.length)).zipIdx.filterMap fun e =>
    if e.1 = k.sign then k.clause? names (.row names e.2) else none

/-- A formula over the names with the given values in the rows of its truth table. -/
def ofValues (k : NormalForm) (names : List String) (values : List Bool) :
    Except Fault Formula := do
  let e ← Enumeration.ofNames names
  match e.names with
  | [] => throw .noNames
  | v :: _ => return (Formula.chain? k.outer (k.clauses e.names values)).getD (k.trivialClause v)

end NormalForm

end PropLogic

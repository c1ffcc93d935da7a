import PropLogic.Fault

/-!
# Going through all models

The models over `n` names are the rows of a truth table: row `r` writes the number `r` with `n`
binary digits and gives each name the digit at its place, so that the first name changes slowest and
false comes before true.  A name may stand in several places; the last one decides.

An `Enumeration` is a place in this sequence.  The rows are made one at a time, and `allM`, `anyM`
stop at the first row that decides, so up to 63 names can be gone through as long as the answer
comes early.  Main statement: `Enumeration.take_remaining`, that the remaining rows come in order.
-/

namespace PropLogic

/-- The `n` lowest binary digits of a number, the highest of them first. -/
def digits (n r : Nat) : List Bool :=
  (List.range n).map fun i => r.testBit (n - 1 - i)

@[simp] theorem digits_length (n r : Nat) : (digits n r).length = n := by
  simp [digits]

@[simp] theorem getElem_digits (n r i : Nat) (h : i < (digits n r).length) :
    (digits n r)[i] = r.testBit (n - 1 - i) := by
  simp [digits]

/-- The number of rows of a truth table over `n` names. -/
def rowCount (n : Nat) : Nat :=
  Nat.pow 2 n

/-- The model in row `r` of the truth table over the names. -/
def Model.row (names : List Var) (r : Nat) : Model :=
  .ofPairs (names.zip (digits names.length r))

/-- A place in the sequence of all models over a list of names. -/
structure Enumeration where
  names : List Var
  /-- The row that comes next. -/
  next : Nat
  few : names.length < 64
  next_le : next ≤ rowCount names.length

namespace Enumeration

/-- The beginning of the sequence of all models over the names, of which there may be at most 63. -/
def ofVars (names : List Var) : Except Fault Enumeration :=
  if few : names.length < 64 then .ok ⟨names, 0, few, Nat.zero_le _⟩
  else .error (.tooManyVariables names.length)

/-- The beginning of the sequence of all models over the names, which have to be variable names. -/
def ofNames (names : List String) : Except Fault Enumeration := do
  ofVars (← names.mapM fun s =>
    match Var.ofName? s with
    | some v => .ok v
    | none => .error (.notAVariable s))

/-- The number of rows that are left. -/
def remaining (e : Enumeration) : Nat :=
  rowCount e.names.length - e.next

/-- The next model and the place behind it; none at the end. -/
def next? (e : Enumeration) : Option (Model × Enumeration) :=
  if h : e.next < rowCount e.names.length then
    some (.row e.names e.next, ⟨e.names, e.next + 1, e.few, h⟩)
  else none

/-- The next `k` models, or fewer at the end, and the place behind them. -/
def take (e : Enumeration) : Nat → List Model × Enumeration
  | 0 => ([], e)
  | k + 1 =>
    match e.next? with
    | none => ([], e)
    | some (m, e') =>
      let (ms, e'') := e'.take k
      (m :: ms, e'')

/-- The models that are left. -/
def rest (e : Enumeration) : List Model :=
  (List.range' e.next e.remaining).map (Model.row e.names)

section Search

variable {ε α : Type}

/-- Whether the test accepts `count` rows from row `r` on; the first row that it refuses, or on
which it fails, ends the search. -/
def allRows (names : List Var) (test : Model → Except ε Bool) :
    (count r : Nat) → Except ε Bool
  | 0, _ => .ok true
  | k + 1, r =>
    match test (.row names r) with
    | .error x => .error x
    | .ok false => .ok false
    | .ok true => allRows names test k (r + 1)

/-- The values of a function on `count` rows from row `r` on, put before those in `done`, which are
in reverse order; the first row on which it fails ends the search. -/
def mapRows (names : List Var) (value : Model → Except ε α) (done : List α) :
    (count r : Nat) → Except ε (List α)
  | 0, _ => .ok done.reverse
  | k + 1, r =>
    match value (.row names r) with
    | .error x => .error x
    | .ok a => mapRows names value (a :: done) k (r + 1)

/-- Whether the test accepts all models that are left. -/
def allM (e : Enumeration) (test : Model → Except ε Bool) : Except ε Bool :=
  allRows e.names test e.remaining e.next

/-- Whether the test accepts some model that is left. -/
def anyM (e : Enumeration) (test : Model → Except ε Bool) : Except ε Bool :=
  (e.allM fun m => (test m).map (!·)).map (!·)

/-- The values of a function on the models that are left, in order. -/
def mapM (e : Enumeration) (value : Model → Except ε α) : Except ε (List α) :=
  mapRows e.names value [] e.remaining e.next

end Search

theorem length_rest (e : Enumeration) : e.rest.length = e.remaining := by
  simp [rest]

/-- The next model is the first of those that are left, and the others are left behind it. -/
theorem rest_of_next? {e e' : Enumeration} {m : Model} (h : e.next? = some (m, e')) :
    e.rest = m :: e'.rest := by
  unfold next? at h
  split at h
  · next hlt =>
    cases h
    have hr : e.remaining = (rowCount e.names.length - (e.next + 1)) + 1 := by
      unfold remaining; omega
    rw [rest, hr, List.range'_succ]
    rfl
  · cases h

/-- Nothing is left at the end. -/
theorem rest_of_next?_eq_none {e : Enumeration} (h : e.next? = none) : e.rest = [] := by
  unfold next? at h
  split at h
  · cases h
  · simp [rest, remaining]; omega

/-- Taking models from the sequence takes the first of those that are left. -/
theorem take_fst (e : Enumeration) (k : Nat) : (e.take k).1 = e.rest.take k := by
  induction k generalizing e with
  | zero => simp [take]
  | succ k ih =>
    rw [take]
    split
    · next h => simp [rest_of_next?_eq_none h]
    · next h => simp [rest_of_next? h, ih]

/-- Taking as many models as are left takes them all, in order. -/
theorem take_remaining (e : Enumeration) : (e.take e.remaining).1 = e.rest := by
  rw [take_fst, ← length_rest, List.take_length]

end Enumeration

end PropLogic

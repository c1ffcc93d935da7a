import PropLogic.Model.Enumeration

/-!
# Truth values

`Formula.eval` is the truth value of a formula when every variable has a value.  A model gives
values to finitely many names only: `Formula.valueIn` looks the variables up in it and fails at one
without a value, and `Formula.evaluate` first checks the model and its names, so that it can name
the smallest missing variable.  Main statement: `Formula.valueIn_eq`, that the look-ups give the
truth value under the model's valuation whenever the model assigns every variable of the formula.
-/

namespace PropLogic

namespace Model

/-- The variables of a valid model. -/
def checkedVars (m : Model) : Except Fault (List Var) :=
  if m.isValid then .ok m.vars else .error (.invalidModel m)

/-- Accepts a valid model that assigns all the given variables; otherwise names the first variable
that is missing. -/
def check (m : Model) (vs : List Var) : Except Fault Unit :=
  if m.isValid then
    match vs.find? fun v => !m.assigns v with
    | some v => .error (.unassigned m v)
    | none => .ok ()
  else .error (.invalidModel m)

end Model

namespace Formula

/-- The truth value of a formula under a valuation of all variables. -/
def eval (ρ : Var → Bool) : Formula → Bool
  | .var v => ρ v
  | .const b => b
  | .not f => !f.eval ρ
  | .binary c f g => c.apply (f.eval ρ) (g.eval ρ)

/-- The truth value of a formula in a model that has to assign every variable it meets. -/
def valueIn (m : Model) : Formula → Except Fault Bool
  | .var v =>
    match m[v.name]? with
    | some b => .ok b
    | none => .error (.unassigned m v)
  | .const b => .ok b
  | .not f => (f.valueIn m).map (!·)
  | .binary c f g => do return c.apply (← f.valueIn m) (← g.valueIn m)

/-- The truth value of a formula in a model. -/
def evaluate (f : Formula) (m : Model) : Except Fault Bool := do
  m.check f.vars
  f.valueIn m

/-- The truth values of a formula in several models. -/
def truthValues (f : Formula) (ms : List Model) : Except Fault (List Bool) :=
  ms.mapM f.evaluate

/-- The truth values of a formula in the models of an enumeration. -/
def truthValuesOver (f : Formula) (e : Enumeration) : Except Fault (List Bool) :=
  e.mapM f.evaluate

/-- In a model that assigns every variable of the formula, look-ups give the truth value. -/
theorem valueIn_eq {f : Formula} {m : Model} (h : ∀ v ∈ f.occurrences, v.name ∈ m) :
    f.valueIn m = .ok (f.eval m.valuation) := by
  induction f with
  | var v =>
    have hv : v.name ∈ m := h v (by simp [occurrences])
    rw [Std.ExtTreeMap.mem_iff_isSome_getElem?, Option.isSome_iff_exists] at hv
    obtain ⟨b, hb⟩ := hv
    simp [valueIn, eval, Model.valuation, hb]
  | const b => rfl
  | not f ih => simp [valueIn, eval, ih h, Except.map]
  | binary c f g ihf ihg =>
    have hf := ihf fun v hv => h v (by simp [occurrences, hv])
    have hg := ihg fun v hv => h v (by simp [occurrences, hv])
    simp only [valueIn, hf, hg, eval]
    rfl

end Formula

end PropLogic

import PropLogic.Fault

/-!
# Substitution of variables

A substitution gives formulas for some of the variables.  Applying it replaces every occurrence of
those variables at once; what comes in with a formula is not replaced again.  `Formula.substitute`
returns a subtree in which nothing is to be replaced as it is, and `Formula.substituteFully` always
goes down to the leaves.  Main statement: `Formula.substitute_eq_substituteFully`, that both give
the same formula.
-/

namespace PropLogic

/-- Formulas for some of the variables. -/
abbrev Substitution := Var → Option Formula

namespace Substitution

/-- Whether the substitution gives a formula for the variable. -/
def has (σ : Substitution) (v : Var) : Bool :=
  (σ v).isSome

/-- The substitution with the given entries, whose keys have to be variable names. -/
def ofEntries (es : List (String × Formula)) : Except Fault Substitution :=
  match es.find? fun e => !isVariableName e.1 with
  | some e => .error (.invalidKey e.1)
  | none => .ok fun v => es.lookup v.name

end Substitution

namespace Formula

/-- The formula with the variables of the substitution replaced.  A subtree without any of them is
returned as it is. -/
def substitute (σ : Substitution) (f : Formula) : Formula :=
  if f.anyVariable σ.has then
    match f with
    | .var v => (σ v).getD (.var v)
    | .const b => .const b
    | .not f => .not (f.substitute σ)
    | .binary c f g => .binary c (f.substitute σ) (g.substitute σ)
  else f

/-- The formula with every leaf replaced for which the substitution gives a formula. -/
def substituteFully (σ : Substitution) : Formula → Formula
  | .var v => (σ v).getD (.var v)
  | .const b => .const b
  | .not f => .not (f.substituteFully σ)
  | .binary c f g => .binary c (f.substituteFully σ) (g.substituteFully σ)

/-- Where no variable is to be replaced, replacing changes nothing. -/
theorem substituteFully_eq_self {σ : Substitution} {f : Formula}
    (h : f.anyVariable σ.has = false) : f.substituteFully σ = f := by
  induction f with
  | var v =>
    have hv : σ v = none := by simpa [anyVariable, Substitution.has] using h
    simp [substituteFully, hv]
  | const b => rfl
  | not f ih => rw [substituteFully, ih h]
  | binary c f g ihf ihg =>
    simp only [anyVariable, Bool.or_eq_false_iff] at h
    rw [substituteFully, ihf h.1, ihg h.2]

/-- Returning subtrees as they are gives the same formula as going down to the leaves. -/
theorem substitute_eq_substituteFully (σ : Substitution) (f : Formula) :
    f.substitute σ = f.substituteFully σ := by
  fun_induction substitute σ f with
  | case1 v h => rfl
  | case2 b h => rfl
  | case3 f h ih => rw [substituteFully, ih]
  | case4 c f g h ihf ihg => rw [substituteFully, ihf, ihg]
  | case5 f h => exact (substituteFully_eq_self (by simpa using h)).symm

@[simp] theorem substitute_var (σ : Substitution) (v : Var) :
    (var v).substitute σ = (σ v).getD (.var v) := by
  rw [substitute_eq_substituteFully, substituteFully]

@[simp] theorem substitute_const (σ : Substitution) (b : Bool) :
    (const b).substitute σ = .const b := by
  rw [substitute_eq_substituteFully, substituteFully]

@[simp] theorem substitute_not (σ : Substitution) (f : Formula) :
    (not f).substitute σ = .not (f.substitute σ) := by
  simp only [substitute_eq_substituteFully, substituteFully]

@[simp] theorem substitute_binary (σ : Substitution) (c : Connective) (f g : Formula) :
    (binary c f g).substitute σ = .binary c (f.substitute σ) (g.substitute σ) := by
  simp only [substitute_eq_substituteFully, substituteFully]

/-- The formula with the variables of the given entries replaced. -/
def substituteVariables (f : Formula) (es : List (String × Formula)) : Except Fault Formula := do
  return f.substitute (← Substitution.ofEntries es)

end Formula

end PropLogic

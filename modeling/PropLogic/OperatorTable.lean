import PropLogic.Substitution

/-!
# Substitution of operators

An operator table gives templates for some of the operators.  A template is a formula in which `p`
stands for the first operand and `q` for the second; it uses no other variable.  Applying a table
expands the operands of a node first and puts them into the template of the node's operator, so
that operators which come in with a template are not expanded.  The template of `~` binds `p`
alone and that of a constant nothing; what is not bound stays.

`Formula.expand` returns a subtree without any operator of the table as it is, and
`Formula.expandFully` always goes down to the leaves.  Main statement:
`Formula.expand_eq_expandFully`, that both give the same formula.
-/

namespace PropLogic

/-- Whether the formula uses no other variables than `p` and `q`. -/
def Formula.isTemplate (t : Formula) : Bool :=
  !t.anyVariable fun v => v != .p && v != .q

/-- Templates for some of the operators. -/
structure OperatorTable where
  template? : Operator → Option Formula
  isTemplate : ∀ o t, template? o = some t → t.isTemplate = true

namespace OperatorTable

/-- Whether the table has a template for the operator. -/
def has (t : OperatorTable) (o : Operator) : Bool :=
  (t.template? o).isSome

/-- The table with the given entries. -/
def ofList (es : List (Operator × Formula)) (h : ∀ e ∈ es, e.2.isTemplate = true) :
    OperatorTable where
  template? o := es.lookup o
  isTemplate o t ht := by
    obtain ⟨l₁, l₂, hes, -⟩ := List.lookup_eq_some_iff.mp ht
    exact h (o, t) (by simp [hes])

/-- The table with the given entries, whose formulas have to be templates. -/
def ofEntries (es : List (Operator × Formula)) : Except Fault OperatorTable :=
  match h : es.find? fun e => !e.2.isTemplate with
  | some e => .error (.templateVariables e.1 e.2)
  | none => .ok (ofList es fun e he => by simpa using List.find?_eq_none.mp h e he)

/-- The first operand, in a template. -/
abbrev first : Formula := .var .p

/-- The second operand, in a template. -/
abbrev second : Formula := .var .q

/-- The variables of a template as the operands that are put in. -/
def bind (f : Formula) (g? : Option Formula) : Substitution := fun v =>
  if v = .p then some f else if v = .q then g? else none

end OperatorTable

namespace Formula

/-- The formula with the operators of the table replaced by their templates.  A subtree without any
of them is returned as it is. -/
def expand (t : OperatorTable) (f : Formula) : Formula :=
  if f.anyOperator t.has then
    match f with
    | .var v => .var v
    | .const b => (t.template? (.const b)).getD (.const b)
    | .not f =>
      match t.template? .not with
      | some s => s.substitute (OperatorTable.bind (f.expand t) none)
      | none => .not (f.expand t)
    | .binary c f g =>
      match t.template? (.binary c) with
      | some s => s.substitute (OperatorTable.bind (f.expand t) (g.expand t))
      | none => .binary c (f.expand t) (g.expand t)
  else f

/-- The formula with every node replaced for whose operator the table has a template. -/
def expandFully (t : OperatorTable) : Formula → Formula
  | .var v => .var v
  | .const b => (t.template? (.const b)).getD (.const b)
  | .not f =>
    match t.template? .not with
    | some s => s.substituteFully (OperatorTable.bind (f.expandFully t) none)
    | none => .not (f.expandFully t)
  | .binary c f g =>
    match t.template? (.binary c) with
    | some s => s.substituteFully (OperatorTable.bind (f.expandFully t) (g.expandFully t))
    | none => .binary c (f.expandFully t) (g.expandFully t)

/-- Where no operator is to be replaced, replacing changes nothing. -/
theorem expandFully_eq_self {t : OperatorTable} {f : Formula}
    (h : f.anyOperator t.has = false) : f.expandFully t = f := by
  induction f with
  | var v => rfl
  | const b =>
    have hb : t.template? (.const b) = none := by simpa [anyOperator, OperatorTable.has] using h
    simp [expandFully, hb]
  | not f ih =>
    simp only [anyOperator, Bool.or_eq_false_iff] at h
    have hn : t.template? .not = none := by simpa [OperatorTable.has] using h.1
    simp only [expandFully, hn, ih h.2]
  | binary c f g ihf ihg =>
    simp only [anyOperator, Bool.or_eq_false_iff] at h
    have hc : t.template? (.binary c) = none := by simpa [OperatorTable.has] using h.1.1
    simp only [expandFully, hc, ihf h.1.2, ihg h.2]

/-- Returning subtrees as they are gives the same formula as going down to the leaves. -/
theorem expand_eq_expandFully (t : OperatorTable) (f : Formula) :
    f.expand t = f.expandFully t := by
  fun_induction expand t f with
  | case1 v h => rfl
  | case2 b h => rfl
  | case3 f s hs h ih => simp only [expandFully, hs, ih, substitute_eq_substituteFully]
  | case4 f hs h ih => simp only [expandFully, hs, ih]
  | case5 c f g s hs h ihf ihg =>
    simp only [expandFully, hs, ihf, ihg, substitute_eq_substituteFully]
  | case6 c f g hs h ihf ihg => simp only [expandFully, hs, ihf, ihg]
  | case7 f h => exact (expandFully_eq_self (by simpa using h)).symm

@[simp] theorem expand_var (t : OperatorTable) (v : Var) : (var v).expand t = .var v := by
  rw [expand_eq_expandFully, expandFully]

@[simp] theorem expand_const (t : OperatorTable) (b : Bool) :
    (const b).expand t = (t.template? (.const b)).getD (.const b) := by
  rw [expand_eq_expandFully, expandFully]

theorem expand_not (t : OperatorTable) (f : Formula) :
    (not f).expand t =
      match t.template? .not with
      | some s => s.substitute (OperatorTable.bind (f.expand t) none)
      | none => .not (f.expand t) := by
  simp only [expand_eq_expandFully, substitute_eq_substituteFully, expandFully]

theorem expand_binary (t : OperatorTable) (c : Connective) (f g : Formula) :
    (binary c f g).expand t =
      match t.template? (.binary c) with
      | some s => s.substitute (OperatorTable.bind (f.expand t) (g.expand t))
      | none => .binary c (f.expand t) (g.expand t) := by
  simp only [expand_eq_expandFully, substitute_eq_substituteFully, expandFully]

/-- The formula with the operators of the given entries replaced. -/
def substituteOperators (f : Formula) (es : List (Operator × Formula)) :
    Except Fault Formula := do
  return f.expand (← OperatorTable.ofEntries es)

end Formula

end PropLogic

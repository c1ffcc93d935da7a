import PropLogic.Fault

/-!
# Formulas from their parts

A formula is determined by the symbol at its root and its operands.  `Formula.ofParts` puts the
parts together and refuses those that no formula has: main statement `Formula.ofParts_root`, that
the parts of a formula give it back.
-/

namespace PropLogic.Formula

/-- The variable of a given name. -/
def ofName (s : String) : Except Fault Formula :=
  match Var.ofName? s with
  | some v => .ok (.var v)
  | none => .error (.invalidName s)

/-- The formula with a given operator at its root and the given operands. -/
def ofOperator : Operator → Option Formula → Option Formula → Except Fault Formula
  | .const b, none, none => .ok (.const b)
  | .const b, _, _ => .error (.leafWithOperands (Operator.const b).symbol)
  | .not, some f, none => .ok (.not f)
  | .not, _, _ => .error .notOneOperand
  | .binary c, some f, some g => .ok (.binary c f g)
  | .binary c, _, _ => .error (.notTwoOperands c)

/-- The formula with a given symbol at its root and the given operands. -/
def ofParts (root : String) (first? second? : Option Formula) : Except Fault Formula :=
  match Var.ofName? root, first?, second? with
  | some v, none, none => .ok (.var v)
  | some v, _, _ => .error (.leafWithOperands v.name)
  | none, _, _ =>
    match Operator.ofSymbol? root with
    | some o => ofOperator o first? second?
    | none => .error (.unknownRoot root)

/-- No operator's symbol is a variable name. -/
theorem ofName?_symbol (o : Operator) : Var.ofName? o.symbol = none := by
  have key : ∀ a ∈ Operator.all, isVariableName a.symbol = false := by decide
  exact Var.ofName?_eq_none_iff.mpr (key o o.mem_all)

/-- An operator's symbol stands for the operator. -/
theorem ofParts_symbol (o : Operator) (first? second? : Option Formula) :
    ofParts o.symbol first? second? = ofOperator o first? second? := by
  simp [ofParts, ofName?_symbol, Operator.ofSymbol?_eq_some_iff.mpr rfl]

/-- The root and the operands of a formula give it back. -/
theorem ofParts_root (f : Formula) : ofParts f.root f.first? f.second? = .ok f := by
  cases f with
  | var v => simp [ofParts, root, first?, second?]
  | const b => exact ofParts_symbol (.const b) _ _
  | not f => exact ofParts_symbol .not _ _
  | binary c f g => exact ofParts_symbol (.binary c) _ _

/-- Formulas with the same root and the same operands are the same. -/
theorem eq_of_root_of_operands {f g : Formula} (hroot : f.root = g.root)
    (hfirst : f.first? = g.first?) (hsecond : f.second? = g.second?) : f = g := by
  have hf := ofParts_root f
  rw [hroot, hfirst, hsecond, ofParts_root] at hf
  exact (Except.ok.inj hf).symm

end PropLogic.Formula

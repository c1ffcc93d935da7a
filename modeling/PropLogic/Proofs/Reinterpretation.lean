import Mathlib.Logic.Function.Basic
import PropLogic.Proofs.Expansion

/-!
# Operator tables reinterpret the operators

A template says what an operator means: its truth value when `p` and `q` have the values of the
operands.  `Formula.evalUnder` computes the truth value of a formula from the leaves up, with this
meaning for the operators of a table and the usual one for the others.  It never looks at the text
that a table produces.  Expanding a formula and evaluating the result gives this value
(`Formula.eval_expand`), whatever the templates are: they may drop or repeat an operand, contain
operators of the table, or leave `p` and `q` unbound.

Main statement: `Formula.evaluate_substituteOperators`, the same for models.
-/

namespace PropLogic

namespace Formula

/-- The truth value of a formula in which the operators of the table mean what their templates say.
The template of a constant is evaluated as it is, the one of `~` with the value of the operand for
`p`, and the one of a connective with the values of the operands for `p` and `q`. -/
def evalUnder (t : Operator → Option Formula) (ρ : Var → Bool) : Formula → Bool
  | .var v => ρ v
  | .const b =>
    match t (.const b) with
    | some s => s.eval ρ
    | none => b
  | .not f =>
    match t .not with
    | some s => s.eval (Function.update ρ .p (f.evalUnder t ρ))
    | none => !f.evalUnder t ρ
  | .binary c f g =>
    match t (.binary c) with
    | some s =>
      s.eval (Function.update (Function.update ρ .q (g.evalUnder t ρ)) .p (f.evalUnder t ρ))
    | none => c.apply (f.evalUnder t ρ) (g.evalUnder t ρ)

end Formula

namespace OperatorTable

open Formula

/-- A filled template has the value of the template when `p` has the value of the first operand,
and `q` that of the second if there is one. -/
theorem eval_bind (s f : Formula) (g? : Option Formula) (ρ : Var → Bool) :
    (s.substitute (bind f g?)).eval ρ =
      s.eval (Function.update (g?.elim ρ fun g => Function.update ρ .q (g.eval ρ)) .p
        (f.eval ρ)) := by
  rw [eval_substitute]
  congr 1
  funext v
  by_cases hp : v = .p
  · subst hp
    rw [Function.update_self]
    rfl
  · rw [Function.update_of_ne hp]
    by_cases hq : v = .q
    · subst hq
      cases g? with
      | none => rfl
      | some g =>
        rw [Option.elim_some, Function.update_self]
        rfl
    · cases g? <;> simp [Substitution.image, bind, hp, hq, eval]

/-- Entries with templates make a table, in which every operator is looked up among the entries. -/
theorem exists_ofEntries_eq_ok {es : List (Operator × Formula)}
    (hes : ∀ e ∈ es, e.2.isTemplate = true) :
    ∃ t, ofEntries es = .ok t ∧ t.template? = fun o => es.lookup o := by
  unfold ofEntries
  split
  · next e he =>
    have hmem := List.mem_of_find?_eq_some he
    have hnot := List.find?_some he
    simp [hes e hmem] at hnot
  · next h => exact ⟨_, rfl, rfl⟩

/-- Entries with templates can be applied to every formula, as the table that looks operators up
among them. -/
theorem exists_substituteOperators_eq_ok {es : List (Operator × Formula)}
    (hes : ∀ e ∈ es, e.2.isTemplate = true) :
    ∃ t : OperatorTable, (∀ o, t.template? o = es.lookup o) ∧
      ∀ f : Formula, f.substituteOperators es = .ok (f.expand t) := by
  obtain ⟨t, ht, htemplate⟩ := exists_ofEntries_eq_ok hes
  refine ⟨t, fun o => congrFun htemplate o, fun f => ?_⟩
  rw [substituteOperators, ht]
  rfl

end OperatorTable

namespace Formula

/-- **Expanding by a table is reinterpreting its operators.** -/
theorem eval_expand (t : OperatorTable) (f : Formula) (ρ : Var → Bool) :
    (f.expand t).eval ρ = f.evalUnder t.template? ρ := by
  induction f with
  | var v => rw [expand_var, eval, evalUnder]
  | const b =>
    rw [expand_const, evalUnder]
    cases t.template? (.const b) <;> rfl
  | not f ih =>
    rw [expand_not, evalUnder]
    cases t.template? .not with
    | none => rw [eval, ih]
    | some s =>
      show (s.substitute _).eval ρ = s.eval _
      rw [OperatorTable.eval_bind, Option.elim_none, ih]
  | binary c f g ihf ihg =>
    rw [expand_binary, evalUnder]
    cases t.template? (.binary c) with
    | none => rw [eval, ihf, ihg]
    | some s =>
      show (s.substitute _).eval ρ = s.eval _
      rw [OperatorTable.eval_bind, Option.elim_some, ihf, ihg]

/-- Expanding brings in no other variables than `p` and `q`. -/
theorem occurrences_expand {t : OperatorTable} {f : Formula} {v : Var}
    (hv : v ∈ (f.expand t).occurrences) : v ∈ f.occurrences ∨ v = .p ∨ v = .q := by
  refine (OperatorTable.of_mem_occurrences_expand hv).imp_right fun ⟨o, _, h⟩ => ?_
  exact t.eq_or_eq_of_mem_template (OperatorTable.mem_unbound_iff.mp h).1

/-- A model that covers a formula and assigns `p` and `q` covers every expansion of it. -/
theorem covers_expand {t : OperatorTable} {f : Formula} {m : Model} (hm : m.Covers f)
    (hp : m.assigns .p = true) (hq : m.assigns .q = true) : m.Covers (f.expand t) := by
  refine Model.covers_iff.mpr ⟨hm.valid, fun v hv => ?_⟩
  rcases occurrences_expand hv with h | rfl | rfl
  · exact (Model.covers_iff.mp hm).2 v h
  · exact hp
  · exact hq

/-- **Operator substitution is reinterpretation of the operators.**  Entries with templates over `p`
and `q` can be applied to every formula, and in a model that covers it and assigns `p` and `q` the
result has the value which the formula has when the operators of the entries mean what their
templates say. -/
theorem evaluate_substituteOperators (f : Formula) (es : List (Operator × Formula)) (m : Model)
    (hes : ∀ e ∈ es, ∀ v ∈ e.2.vars, v = .p ∨ v = .q) (hm : m.Covers f)
    (hp : m.assigns .p = true) (hq : m.assigns .q = true) :
    ∃ g, f.substituteOperators es = .ok g ∧
      g.evaluate m = .ok (f.evalUnder (fun o => es.lookup o) m.valuation) := by
  obtain ⟨t, ht, htemplate⟩ :=
    OperatorTable.exists_ofEntries_eq_ok fun e he => isTemplate_iff.mpr (hes e he)
  refine ⟨f.expand t, ?_, ?_⟩
  · rw [substituteOperators, ht]
    rfl
  · rw [evaluate_eq_ok (covers_expand hm hp hq), eval_expand, htemplate]

/-- Templates that leave `q` unbound and bring in operators of the table: `~` means `(p&q)` and `&`
means `(q->~p)`. -/
theorem evaluate_substituteOperators_unbound :
    (∀ e ∈ [(Operator.not, and (var .p) (var .q)),
        (.binary .and, implies (var .q) (not (var .p)))], ∀ v ∈ e.2.vars, v = .p ∨ v = .q) ∧
      (Model.ofPairs [(.p, true), (.q, false)]).Covers (and (var .q) (not (var .p))) ∧
      (and (var .q) (not (var .p))).substituteOperators
          [(.not, and (var .p) (var .q)), (.binary .and, implies (var .q) (not (var .p)))] =
        .ok (implies (and (var .p) (var .q)) (not (var .q))) ∧
      (implies (and (var .p) (var .q)) (not (var .q))).evaluate
        (.ofPairs [(.p, true), (.q, false)]) = .ok true := by
  have htemplates : ∀ e ∈ [(Operator.not, and (var .p) (var .q)),
      (.binary .and, implies (var .q) (not (var .p)))], e.2.isTemplate = true := by decide
  have hes := fun e he => isTemplate_iff.mp (htemplates e he)
  have hm : (Model.ofPairs [(.p, true), (.q, false)]).Covers (and (var .q) (not (var .p))) := by
    decide +kernel
  obtain ⟨g, hg, hvalue⟩ := evaluate_substituteOperators (and (var .q) (not (var .p))) _ _ hes hm
    (by decide +kernel) (by decide +kernel)
  obtain rfl : g = implies (and (var .p) (var .q)) (not (var .q)) :=
    Except.ok.inj (hg.symm.trans rfl)
  exact ⟨hes, hm, hg, hvalue.trans (congrArg _ (by decide +kernel))⟩

end Formula

end PropLogic

import PropLogic.Basis
import PropLogic.Proofs.Reinterpretation

/-!
# Reduction to a basis keeps the truth value

A table is sound if every template says what its operator means anyway (`OperatorTable.IsSound`).
Reinterpreting the operators by a sound table changes nothing, so expanding by one keeps the truth
value (`OperatorTable.IsSound.eval_expand`), and so does any sequence of them.  Whether a table is
sound is a question about four rows for each entry; the tables of the bases are.

Main statement: `Basis.evaluate_reduce`, that a reduced formula has the value of the formula in every
model that covers both, whatever the model says of a `p` that the reduction has brought in.
-/

namespace PropLogic

/-- The truth function of an operator, which looks at as many operands as the operator takes. -/
def Operator.apply : Operator → Bool → Bool → Bool
  | .const b, _, _ => b
  | .not, x, _ => !x
  | .binary c, x, y => c.apply x y

namespace OperatorTable

/-- Every template has the value of its operator, with `p` and `q` for the operands. -/
def IsSound (t : OperatorTable) : Prop :=
  ∀ o s, t.template? o = some s → ∀ ρ : Var → Bool, s.eval ρ = o.apply (ρ .p) (ρ .q)

/-- A list of entries is sound if the templates have the right value in all four rows. -/
theorem ofList_isSound {es : List (Operator × Formula)} {h : ∀ e ∈ es, e.2.isTemplate = true}
    (hes : ∀ e ∈ es, ∀ x y : Bool, e.2.eval (fun v => if v = .p then x else y) = e.1.apply x y) :
    (ofList es h).IsSound := by
  intro o s hs ρ
  obtain ⟨l₁, l₂, hl, -⟩ := List.lookup_eq_some_iff.mp (show es.lookup o = some s from hs)
  have hmem : (o, s) ∈ es := by simp [hl]
  rw [← hes (o, s) hmem (ρ .p) (ρ .q)]
  refine Formula.eval_congr fun v hv => ?_
  rcases Formula.isTemplate_iff.mp (h (o, s) hmem) v (Formula.mem_vars.mpr hv) with rfl | rfl
  · rfl
  · rfl

theorem intoNotAndOr_isSound : intoNotAndOr.IsSound :=
  ofList_isSound (by decide)

theorem orIntoNotAnd_isSound : orIntoNotAnd.IsSound :=
  ofList_isSound (by decide)

theorem notAndIntoNand_isSound : notAndIntoNand.IsSound :=
  ofList_isSound (by decide)

theorem intoImpliesNot_isSound : intoImpliesNot.IsSound :=
  ofList_isSound (by decide)

theorem intoImpliesNotFalse_isSound : intoImpliesNotFalse.IsSound :=
  ofList_isSound (by decide)

theorem notIntoImpliesFalse_isSound : notIntoImpliesFalse.IsSound :=
  ofList_isSound (by decide)

/-- What a sound table says of the operators is what they mean. -/
theorem IsSound.evalUnder_eq {t : OperatorTable} (ht : t.IsSound) (f : Formula)
    (ρ : Var → Bool) : f.evalUnder t.template? ρ = f.eval ρ := by
  induction f with
  | var v => rfl
  | const b =>
    rw [Formula.evalUnder, Formula.eval]
    cases hs : t.template? (.const b) with
    | none => rfl
    | some s => exact ht _ s hs ρ
  | not f ih =>
    rw [Formula.evalUnder, Formula.eval, ih]
    cases hs : t.template? .not with
    | none => rfl
    | some s =>
      show s.eval _ = !f.eval ρ
      rw [ht _ s hs, Function.update_self]
      rfl
  | binary c f g ihf ihg =>
    rw [Formula.evalUnder, Formula.eval, ihf, ihg]
    cases hs : t.template? (.binary c) with
    | none => rfl
    | some s =>
      have hqp : Var.q ≠ Var.p := by decide
      show s.eval _ = c.apply (f.eval ρ) (g.eval ρ)
      rw [ht _ s hs, Function.update_self, Function.update_of_ne hqp, Function.update_self]
      rfl

/-- Expanding by a sound table keeps the truth value. -/
theorem IsSound.eval_expand {t : OperatorTable} (ht : t.IsSound) (f : Formula)
    (ρ : Var → Bool) : (f.expand t).eval ρ = f.eval ρ := by
  rw [Formula.eval_expand, ht.evalUnder_eq]

/-- So does expanding by several sound tables, one after the other. -/
theorem eval_foldl_expand {ts : List OperatorTable} (hts : ∀ t ∈ ts, t.IsSound) (f : Formula)
    (ρ : Var → Bool) : (ts.foldl (fun g t => g.expand t) f).eval ρ = f.eval ρ := by
  induction ts generalizing f with
  | nil => rfl
  | cons t ts ih =>
    rw [List.foldl_cons, ih fun s hs => hts s (List.mem_cons_of_mem _ hs)]
    exact (hts t List.mem_cons_self).eval_expand f ρ

end OperatorTable

namespace Basis

/-- The tables of every basis are sound. -/
theorem tables_isSound (b : Basis) : ∀ t ∈ b.tables, t.IsSound := by
  cases b with
  | notAndOr => simp [tables, OperatorTable.intoNotAndOr_isSound]
  | notAnd =>
    simp [tables, OperatorTable.intoNotAndOr_isSound, OperatorTable.orIntoNotAnd_isSound]
  | nand =>
    simp [tables, OperatorTable.intoNotAndOr_isSound, OperatorTable.orIntoNotAnd_isSound,
      OperatorTable.notAndIntoNand_isSound]
  | impliesNot => simp [tables, OperatorTable.intoImpliesNot_isSound]
  | impliesFalse =>
    simp [tables, OperatorTable.intoImpliesNotFalse_isSound,
      OperatorTable.notIntoImpliesFalse_isSound]

/-- Reduction keeps the truth value under every valuation. -/
theorem eval_reduce (b : Basis) (f : Formula) (ρ : Var → Bool) :
    (b.reduce f).eval ρ = f.eval ρ :=
  OperatorTable.eval_foldl_expand b.tables_isSound f ρ

/-- **Reduction to a basis keeps the value in every model.**  In a model that covers a formula and
its reduction both have the same value, and if `p` is not a variable of the formula then the
reduction keeps this value when the model's value for `p` is replaced by any other. -/
theorem evaluate_reduce (b : Basis) (f : Formula) (m : Model) (hf : m.Covers f)
    (hb : m.Covers (b.reduce f)) :
    ∃ x, f.evaluate m = .ok x ∧ (b.reduce f).evaluate m = .ok x ∧
      (.p ∉ f.vars → ∀ y, (b.reduce f).evaluate (m.assign .p y) = .ok x) := by
  refine ⟨f.eval m.valuation, Formula.evaluate_eq_ok hf, ?_, fun hp y => ?_⟩
  · rw [Formula.evaluate_eq_ok hb, eval_reduce]
  · rw [Formula.evaluate_eq_ok (hb.assign .p y), eval_reduce]
    congr 1
    refine Formula.eval_congr fun v hv => Model.valuation_assign_of_ne ?_ m y
    rintro rfl
    exact hp (Formula.mem_vars.mpr hv)

/-- The constant of `(T->q)` brings `p` into the reduction, which is false at `q = F` for both values
of `p`. -/
theorem evaluate_reduce_nand :
    (Model.ofPairs [(.p, true), (.q, false)]).Covers (.implies (.const true) (.var .q)) ∧
      (Model.ofPairs [(.p, true), (.q, false)]).Covers
        (Basis.nand.reduce (.implies (.const true) (.var .q))) ∧
      .p ∈ (Basis.nand.reduce (.implies (.const true) (.var .q))).vars ∧
      (Formula.implies (.const true) (.var .q)).evaluate
        (.ofPairs [(.p, true), (.q, false)]) = .ok false ∧
      (Basis.nand.reduce (.implies (.const true) (.var .q))).evaluate
        (.ofPairs [(.p, true), (.q, false)]) = .ok false ∧
      (Basis.nand.reduce (.implies (.const true) (.var .q))).evaluate
        ((Model.ofPairs [(.p, true), (.q, false)]).assign .p false) = .ok false := by
  have hf : (Model.ofPairs [(.p, true), (.q, false)]).Covers
      (.implies (.const true) (.var .q)) := by decide +kernel
  have hb : (Model.ofPairs [(.p, true), (.q, false)]).Covers
      (Basis.nand.reduce (.implies (.const true) (.var .q))) := by decide +kernel
  have hfresh : .p ∉ (Formula.implies (.const true) (.var .q)).vars := by
    rw [Formula.mem_vars]
    decide
  obtain ⟨x, hx, hvalue, hp⟩ := evaluate_reduce .nand (.implies (.const true) (.var .q)) _ hf hb
  obtain rfl : x = false := by
    rw [← (Formula.evaluate_eq_ok_iff.mp hx).2]
    decide +kernel
  exact ⟨hf, hb, Formula.mem_vars.mpr (by decide +kernel), hx, hvalue, hp hfresh false⟩

end Basis

end PropLogic

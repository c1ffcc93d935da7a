import PropLogic.Proofs.Chain
import PropLogic.Proofs.Decision
import PropLogic.Rule

/-!
# Sound rules

A rule is sound if its conclusion is true under every valuation that makes its assumptions true.
Evaluating a rule stops at the first assumption that is false, after a check that the model has a
value for every variable of the rule; on the rows over these variables it always has an answer
(`Rule.evaluate_eq_ok`), so that going through the rows decides soundness (`Rule.isSound_eq_ok`).

Main statement: `Rule.isSound_iff_models`, with the tautology that says the same: `Rule.implication`
leads from the chain of the assumptions to the conclusion.
-/

namespace PropLogic

namespace Formula

/-- In a model that covers them all, formulas are tested up to the first that is false. -/
theorem allM_evaluate_eq_ok {fs : List Formula} {m : Model} (h : ∀ f ∈ fs, m.Covers f) :
    fs.allM (·.evaluate m) = .ok (fs.all (·.eval m.valuation)) := by
  induction fs with
  | nil => rfl
  | cons f fs ih =>
    obtain ⟨hf, hfs⟩ := List.forall_mem_cons.mp h
    rw [List.allM, evaluate_eq_ok hf, List.all_cons]
    cases f.eval m.valuation with
    | false => rfl
    | true => exact ih hfs

end Formula

namespace Rule

/-- The conclusion is true under every valuation that makes the assumptions true. -/
def Sound (r : Rule) : Prop :=
  ∀ ρ, (∀ a ∈ r.assumptions, a.eval ρ = true) → r.conclusion.eval ρ = true

/-- The formula that says what the rule says: the assumptions, joined from left to right, imply the
conclusion. -/
def implication (r : Rule) : Formula :=
  match Formula.chain? .and r.assumptions with
  | some f => .implies f r.conclusion
  | none => r.conclusion

theorem eval_implication (r : Rule) (ρ : Var → Bool) :
    r.implication.eval ρ = (!r.assumptions.all (·.eval ρ) || r.conclusion.eval ρ) := by
  obtain ⟨as, c⟩ := r
  cases as with
  | nil => simp [implication, Formula.chain?]
  | cons a as =>
    have hchain : Formula.chain? .and (a :: as) = some (as.foldl .and a) := rfl
    rw [implication, hchain, ← Formula.eval_chain_and hchain]
    rfl

theorem vars_implication (r : Rule) : r.implication.vars = r.vars := by
  obtain ⟨as, c⟩ := r
  cases as with
  | nil => rfl
  | cons a as =>
    have hchain : Formula.chain? .and (a :: as) = some (as.foldl .and a) := rfl
    rw [implication, hchain, Formula.vars, Formula.occurrences, Formula.occurrences_chain hchain]
    rfl

variable {r : Rule} {m : Model}

theorem mem_vars {v : Var} :
    v ∈ r.vars ↔ (∃ a ∈ r.assumptions, v ∈ a.occurrences) ∨ v ∈ r.conclusion.occurrences := by
  rw [vars, mem_ascending, List.mem_append, List.mem_flatMap]

/-- A rule with few leaves has few variables. -/
theorem length_vars_lt_of_occurrences {n : Nat}
    (h : (r.assumptions.flatMap Formula.occurrences ++ r.conclusion.occurrences).length < n) :
    r.vars.length < n :=
  Nat.lt_of_le_of_lt (length_ascending_le _) h

theorem mem_vars_of_mem_implication {v : Var} (hv : v ∈ r.implication.occurrences) : v ∈ r.vars :=
  r.vars_implication ▸ Formula.mem_vars.mpr hv

theorem eval_implication_eq_true_iff {ρ : Var → Bool} : r.implication.eval ρ = true ↔
    ((∀ a ∈ r.assumptions, a.eval ρ = true) → r.conclusion.eval ρ = true) := by
  rw [eval_implication, Bool.or_eq_true, Bool.not_eq_true', ← Bool.not_eq_true,
    List.all_eq_true, imp_iff_not_or]

theorem sound_iff_tautology : r.Sound ↔ r.implication.Tautology :=
  forall_congr' fun _ => eval_implication_eq_true_iff.symm

/-- A valid model that assigns the variables of a rule covers its conclusion. -/
theorem covers_conclusion (valid : m.isValid = true) (assigns : ∀ v ∈ r.vars, m.assigns v = true) :
    m.Covers r.conclusion :=
  Model.covers_iff.mpr ⟨valid, fun v hv => assigns v (mem_vars.mpr (.inr hv))⟩

/-- It covers the assumptions, too. -/
theorem covers_assumption (valid : m.isValid = true) (assigns : ∀ v ∈ r.vars, m.assigns v = true)
    {a : Formula} (ha : a ∈ r.assumptions) : m.Covers a :=
  Model.covers_iff.mpr ⟨valid, fun v hv => assigns v (mem_vars.mpr (.inl ⟨a, ha, hv⟩))⟩

/-- In such a model a rule has the value of its implication. -/
theorem evaluate_eq_ok (valid : m.isValid = true) (assigns : ∀ v ∈ r.vars, m.assigns v = true) :
    r.evaluate m = .ok (r.implication.eval m.valuation) := by
  have hcheck : m.check r.vars = .ok () := Model.check_eq_ok_iff.mpr ⟨valid, assigns⟩
  have hassumptions : r.assumptions.allM (·.evaluate m) =
      .ok (r.assumptions.all (·.eval m.valuation)) :=
    Formula.allM_evaluate_eq_ok fun a ha => covers_assumption valid assigns ha
  have hconclusion : r.conclusion.evaluate m = .ok (r.conclusion.eval m.valuation) :=
    Formula.evaluate_eq_ok (covers_conclusion valid assigns)
  rw [evaluate, hcheck, hassumptions, hconclusion, eval_implication]
  cases r.assumptions.all (·.eval m.valuation) <;> rfl

/-- Soundness is a matter of the valid models that assign the variables of the rule. -/
theorem sound_iff : r.Sound ↔
    ∀ m : Model, m.isValid = true → (∀ v ∈ r.vars, m.assigns v = true) →
      (∀ a ∈ r.assumptions, a.evaluate m = .ok true) → r.conclusion.evaluate m = .ok true := by
  rw [sound_iff_tautology, Formula.Tautology,
    ← Model.forall_valuation_iff (Formula.dependsOn_eval fun _ => mem_vars_of_mem_implication)]
  refine forall₃_congr fun m valid assigns => ?_
  have hassumptions : (∀ a ∈ r.assumptions, a.evaluate m = .ok true) ↔
      ∀ a ∈ r.assumptions, a.eval m.valuation = true := by
    refine forall₂_congr fun a ha => ?_
    rw [Formula.evaluate_eq_ok (covers_assumption valid assigns ha), Except.ok.injEq]
  rw [hassumptions, Formula.evaluate_eq_ok (covers_conclusion valid assigns), Except.ok.injEq,
    eval_implication_eq_true_iff]

open scoped Classical in
theorem isSound_eq_ok (few : r.vars.length < 64) : r.isSound = .ok (decide r.Sound) := by
  rw [isSound, Enumeration.ofVars_allM_eq_ok few
    (Formula.dependsOn_eval fun _ => mem_vars_of_mem_implication)
    fun _ valid assigns => evaluate_eq_ok valid assigns]
  exact congrArg _ (decide_eq_decide.mpr sound_iff_tautology.symm)

/-- The check finds a rule sound exactly if it is. -/
theorem isSound_eq_ok_true_iff (few : r.vars.length < 64) : r.isSound = .ok true ↔ r.Sound := by
  classical rw [isSound_eq_ok few, Except.ok.injEq, decide_eq_true_iff]

/-- It finds a rule not sound exactly if there is a valuation that speaks against it. -/
theorem isSound_eq_ok_false_iff (few : r.vars.length < 64) :
    r.isSound = .ok false ↔ ¬ r.Sound := by
  classical rw [isSound_eq_ok few, Except.ok.injEq, decide_eq_false_iff_not]

/-- Rules that are sound together have the same answer. -/
theorem exists_isSound_eq_ok {r' : Rule} (few : r.vars.length < 64) (few' : r'.vars.length < 64)
    (h : r.Sound ↔ r'.Sound) : ∃ x, r.isSound = .ok x ∧ r'.isSound = .ok x := by
  classical
  exact ⟨_, isSound_eq_ok few, (isSound_eq_ok few').trans (congrArg _ (decide_eq_decide.mpr h.symm))⟩

/-- **The check of a rule answers for all models.**  With fewer than 64 variables it has an answer,
whether the conclusion is true in every valid model that assigns the variables of the rule and makes
all assumptions true.  It is the check of one formula: of the conclusion alone if there are no
assumptions, else of its implication by their chain. -/
theorem isSound_iff_models (r : Rule) (few : r.vars.length < 64) :
    (∃ b, r.isSound = .ok b ∧
      (b = true ↔ ∀ m : Model, m.isValid = true → (∀ v ∈ r.vars, m.assigns v = true) →
        (∀ a ∈ r.assumptions, a.evaluate m = .ok true) → r.conclusion.evaluate m = .ok true)) ∧
    r.isSound = r.implication.isTautology := by
  classical
  refine ⟨⟨_, isSound_eq_ok few, ?_⟩, ?_⟩
  · rw [decide_eq_true_iff, sound_iff]
  · rw [isSound_eq_ok few, Formula.isTautology_eq_ok (r.vars_implication ▸ few)]
    exact congrArg _ (decide_eq_decide.mpr sound_iff_tautology)

/-- From `p` and `~p` follows `z`, which occurs in neither. -/
theorem isSound_iff_models_explosion :
    (Rule.mk [.var .p, .not (.var .p)] (.var ⟨"z", by decide⟩)).vars.length < 64 ∧
      (Rule.mk [.var .p, .not (.var .p)] (.var ⟨"z", by decide⟩)).isSound = .ok true ∧
      (Formula.implies (.and (.var .p) (.not (.var .p))) (.var ⟨"z", by decide⟩)).isTautology =
        .ok true := by
  have few : (Rule.mk [.var .p, .not (.var .p)] (.var ⟨"z", by decide⟩)).vars.length < 64 :=
    Nat.lt_of_le_of_lt (length_ascending_le _) (by decide)
  obtain ⟨⟨b, hb, hmodels⟩, himplication⟩ := isSound_iff_models _ few
  obtain rfl : b = true := by
    refine hmodels.mpr fun m _ _ hassumptions => ?_
    have hp := (Formula.evaluate_eq_ok_iff.mp (hassumptions (.var .p) (by simp))).2
    have hnot := (Formula.evaluate_eq_ok_iff.mp (hassumptions (.not (.var .p)) (by simp))).2
    rw [Formula.eval, hp] at hnot
    cases hnot
  exact ⟨few, hb, himplication.symm.trans hb⟩

end Rule

end PropLogic

import PropLogic.Proofs.RuleSoundness
import PropLogic.Proofs.VariableSubstitution

/-!
# Instances of sound rules

An instance of a rule is what a substitution makes of its assumptions and its conclusion.  Instances
of sound rules are sound (`Rule.Sound.substitute`): a valuation of an instance is, by the
substitution lemma, one of the rule, in which every variable has the value of its image.  The checks
of a rule and of an instance look at rows over variables that have nothing to do with each other,
since a substitution removes names and brings in others; both decide soundness.

Main statement: `Rule.isSound_substituteVariables`, and the same for tautologies.
-/

namespace PropLogic

/-- Instances of tautologies are tautologies. -/
theorem Formula.Tautology.substitute {f : Formula} (h : f.Tautology) (σ : Substitution) :
    (f.substitute σ).Tautology := fun ρ => by
  rw [eval_substitute]
  exact h _

namespace Rule

/-- The rule with the variables of the substitution replaced in all assumptions and in the
conclusion. -/
def substitute (r : Rule) (σ : Substitution) : Rule where
  assumptions := r.assumptions.map (·.substitute σ)
  conclusion := r.conclusion.substitute σ

/-- The rule with the variables of the entries replaced in all assumptions and in the conclusion. -/
def substituteVariables (r : Rule) (es : List (String × Formula)) : Except Fault Rule := do
  let as ← r.assumptions.mapM (·.substituteVariables es)
  let c ← r.conclusion.substituteVariables es
  return ⟨as, c⟩

/-- Entries whose keys are variable names can be applied to every rule. -/
theorem substituteVariables_eq_ok (r : Rule) {es : List (String × Formula)}
    (hes : ∀ e ∈ es, isVariableName e.1 = true) :
    r.substituteVariables es = .ok (r.substitute (.ofLookup es)) := by
  have has : r.assumptions.mapM (·.substituteVariables es) =
      .ok (r.assumptions.map (·.substitute (.ofLookup es))) := by
    simp only [Formula.substituteVariables_eq_ok _ hes]
    exact List.mapM_pure
  rw [substituteVariables, has, Formula.substituteVariables_eq_ok _ hes]
  rfl

/-- **Instances of sound rules are sound.** -/
theorem Sound.substitute {r : Rule} (h : r.Sound) (σ : Substitution) : (r.substitute σ).Sound := by
  intro ρ has
  show (r.conclusion.substitute σ).eval ρ = true
  rw [Formula.eval_substitute]
  refine h _ fun a ha => ?_
  rw [← Formula.eval_substitute]
  exact has _ (List.mem_map_of_mem ha)

/-- **The check passes instances of what it passes.**  Entries whose keys are variable names make an
instance of every rule and of every formula.  The check finds the instance of a rule sound if it
finds the rule sound, and the instance of a formula a tautology if it finds the formula to be one,
as long as there are fewer than 64 variables in each. -/
theorem isSound_substituteVariables (es : List (String × Formula))
    (hes : ∀ e ∈ es, isVariableName e.1 = true) :
    (∀ r : Rule, r.vars.length < 64 → r.isSound = .ok true →
      ∃ r', r.substituteVariables es = .ok r' ∧ (r'.vars.length < 64 → r'.isSound = .ok true)) ∧
    ∀ f : Formula, f.vars.length < 64 → f.isTautology = .ok true →
      ∃ g, f.substituteVariables es = .ok g ∧ (g.vars.length < 64 → g.isTautology = .ok true) := by
  constructor
  · intro r few sound
    refine ⟨_, r.substituteVariables_eq_ok hes, fun few' => ?_⟩
    rw [isSound_eq_ok_true_iff few] at sound
    exact (isSound_eq_ok_true_iff few').mpr (sound.substitute _)
  · intro f few tautology
    refine ⟨_, f.substituteVariables_eq_ok hes, fun few' => ?_⟩
    rw [Formula.isTautology_eq_ok_true_iff few] at tautology
    exact (Formula.isTautology_eq_ok_true_iff few').mpr (tautology.substitute _)

/-- With `(q|p)` for `p` and `~p` for `q`, the rule from `p` and `(p->q)` to `q` becomes one from
`(q|p)` and `((q|p)->~p)` to `~p`, and `(p|~p)` becomes `((q|p)|~(q|p))`.  Without the implication
neither rule is sound. -/
theorem isSound_substituteVariables_detachment :
    (∀ e ∈ [("p", Formula.or (.var .q) (.var .p)), ("q", .not (.var .p))],
      isVariableName e.1 = true) ∧
    (Rule.mk [.var .p, .implies (.var .p) (.var .q)] (.var .q)).vars.length < 64 ∧
    (Rule.mk [.var .p, .implies (.var .p) (.var .q)] (.var .q)).isSound = .ok true ∧
    (Rule.mk [.or (.var .q) (.var .p), .implies (.or (.var .q) (.var .p)) (.not (.var .p))]
      (.not (.var .p))).isSound = .ok true ∧
    (Formula.or (.or (.var .q) (.var .p)) (.not (.or (.var .q) (.var .p)))).isTautology =
      .ok true ∧
    (Rule.mk [.var .p] (.var .q)).isSound = .ok false ∧
    (Rule.mk [.or (.var .q) (.var .p)] (.not (.var .p))).isSound = .ok false := by
  have hes : ∀ e ∈ [("p", Formula.or (.var .q) (.var .p)), ("q", .not (.var .p))],
      isVariableName e.1 = true := by decide
  have few : (Rule.mk [.var .p, .implies (.var .p) (.var .q)] (.var .q)).vars.length < 64 :=
    length_vars_lt_of_occurrences (by decide)
  have sound : (Rule.mk [.var .p, .implies (.var .p) (.var .q)] (.var .q)).isSound = .ok true :=
    (isSound_eq_ok_true_iff few).mpr fun ρ => by
      simp +contextual [Formula.eval, Connective.apply]
  have fewTautology : (Formula.or (.var .p) (.not (.var .p))).vars.length < 64 :=
    Nat.lt_of_le_of_lt (length_ascending_le _) (by decide)
  have tautology : (Formula.or (.var .p) (.not (.var .p))).isTautology = .ok true :=
    (Formula.isTautology_eq_ok_true_iff fewTautology).mpr fun ρ => by
      simp [Formula.eval, Connective.apply]
  have unsound : (Rule.mk [.var .p] (.var .q)).isSound = .ok false :=
    (isSound_eq_ok_false_iff (length_vars_lt_of_occurrences (by decide))).mpr fun h =>
      absurd (h (· == .p)) (by decide)
  have unsoundInstance : (Rule.mk [.or (.var .q) (.var .p)] (.not (.var .p))).isSound = .ok false :=
    (isSound_eq_ok_false_iff (length_vars_lt_of_occurrences (by decide))).mpr fun h =>
      absurd (h (· == .p)) (by decide)
  obtain ⟨hrules, htautologies⟩ := isSound_substituteVariables _ hes
  obtain ⟨r', hr', hsound⟩ := hrules _ few sound
  obtain ⟨g, hg, htautology⟩ := htautologies _ fewTautology tautology
  obtain rfl := Except.ok.inj (hr'.symm.trans rfl)
  obtain rfl := Except.ok.inj (hg.symm.trans rfl)
  exact ⟨hes, few, sound, hsound (length_vars_lt_of_occurrences (by decide)),
    htautology (Nat.lt_of_le_of_lt (length_ascending_le _) (by decide)), unsound, unsoundInstance⟩

end Rule

end PropLogic

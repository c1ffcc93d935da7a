import PropLogic.Decision
import PropLogic.Proofs.AllModels
import PropLogic.Proofs.DistinctMembers

/-!
# Deciding by exhaustion

Tautology, satisfiability and equivalence are notions about all valuations; the checks look at the
rows over the variables that occur.  With fewer than 64 of them every check has an answer, and it is
the right one: `Formula.isTautology_eq_ok`, `Formula.isSatisfiable_eq_ok` and
`Formula.isEquivalent_eq_ok`.  Valuations are a detour: `Formula.tautology_iff`,
`Formula.satisfiable_iff` and `Formula.equivalent_iff` say the same notions of the valid models that
assign the variables, whatever else these assign.

Main statements: `Formula.checks_iff_models` for the checks of one formula, and
`Formula.isEquivalent_iff_models`, by which the check of two formulas is an equivalence relation.
The latter needs the detour: three checks of a transitive step look at the rows over three different
lists of variables.
-/

namespace PropLogic

namespace Formula

/-- The formula is true under all valuations. -/
def Tautology (f : Formula) : Prop :=
  ∀ ρ, f.eval ρ = true

/-- The formula is true under some valuation. -/
def Satisfiable (f : Formula) : Prop :=
  ∃ ρ, f.eval ρ = true

/-- The formulas have the same truth value under all valuations. -/
def Equivalent (f g : Formula) : Prop :=
  ∀ ρ, f.eval ρ = g.eval ρ

/-- The truth value depends on no other variables than those that occur. -/
theorem dependsOn_eval {f : Formula} {vs : List Var} (h : ∀ v ∈ f.occurrences, v ∈ vs) :
    DependsOn (fun ρ => f.eval ρ) {v | v ∈ vs} :=
  fun _ _ hρ => eval_congr fun v hv => hρ v (h v hv)

/-- Look-ups give the truth value in a model that assigns more variables than occur. -/
theorem valueIn_eq_ok {f : Formula} {vs : List Var} {m : Model}
    (h : ∀ v ∈ f.occurrences, v ∈ vs) (hm : ∀ v ∈ vs, m.assigns v = true) :
    f.valueIn m = .ok (f.eval m.valuation) :=
  valueIn_eq fun v hv => Model.assigns_iff_mem.mp (hm v (h v hv))

/-- A formula has no more variables than a list in which they all stand has members. -/
theorem length_vars_le {f : Formula} {vs : List Var} (h : ∀ v ∈ f.vars, v ∈ vs) :
    f.vars.length ≤ vs.length :=
  length_ascending_le_of_subset fun v hv => h v (mem_vars.mpr hv)

theorem length_vars_lt_of_occurrences {n : Nat} {f : Formula} (h : f.occurrences.length < n) :
    f.vars.length < n :=
  Nat.lt_of_le_of_lt (length_ascending_le _) h

/-! ## One formula -/

/-- A tautology is what is true in every model that covers it. -/
theorem tautology_iff {f : Formula} :
    f.Tautology ↔ ∀ m : Model, m.Covers f → f.evaluate m = .ok true := by
  rw [Tautology, ← Model.forall_valuation_iff (dependsOn_eval fun v => mem_vars.mpr)]
  constructor
  · intro h m hm
    rw [evaluate_eq_ok hm, h m hm.valid hm.assigns]
  · intro h m hm hf
    exact (evaluate_eq_ok_iff.mp (h m ⟨hm, hf⟩)).2

theorem satisfiable_iff_not_tautology {f : Formula} :
    f.Satisfiable ↔ ¬ (Formula.not f).Tautology := by
  simp [Satisfiable, Tautology, eval]

/-- A satisfiable formula is one that is true in some model that covers it. -/
theorem satisfiable_iff {f : Formula} :
    f.Satisfiable ↔ ∃ m : Model, m.Covers f ∧ f.evaluate m = .ok true := by
  constructor
  · rintro ⟨ρ, hρ⟩
    have hover := Model.isOver_ofValuation f.vars ρ
    have hcovers : (Model.ofValuation f.vars ρ).Covers f :=
      ⟨hover.isValid, fun v hv => hover.assigns hv⟩
    refine ⟨_, hcovers, ?_⟩
    rw [evaluate_eq_ok hcovers, ← hρ]
    exact congrArg _ (eval_congr fun v hv => Model.valuation_ofValuation (mem_vars.mpr hv) ρ)
  · rintro ⟨m, -, hm⟩
    exact ⟨m.valuation, (evaluate_eq_ok_iff.mp hm).2⟩

open scoped Classical in
/-- The rows over the variables that occur decide what is a tautology. -/
theorem isTautology_eq_ok {f : Formula} (few : f.vars.length < 64) :
    f.isTautology = .ok (decide f.Tautology) :=
  Enumeration.ofVars_allM_eq_ok few (dependsOn_eval fun _ => mem_vars.mpr) fun _ _ hm =>
    valueIn_eq_ok (fun _ => mem_vars.mpr) hm

theorem isTautology_eq_ok_true_iff {f : Formula} (few : f.vars.length < 64) :
    f.isTautology = .ok true ↔ f.Tautology := by
  classical rw [isTautology_eq_ok few, Except.ok.injEq, decide_eq_true_iff]

open scoped Classical in
theorem isSatisfiable_eq_ok {f : Formula} (few : f.vars.length < 64) :
    f.isSatisfiable = .ok (decide f.Satisfiable) :=
  Enumeration.ofVars_anyM_eq_ok few (dependsOn_eval fun _ => mem_vars.mpr) fun _ _ hm =>
    valueIn_eq_ok (fun _ => mem_vars.mpr) hm

open scoped Classical in
theorem isContradiction_eq_ok {f : Formula} (few : f.vars.length < 64) :
    f.isContradiction = .ok (!decide f.Satisfiable) := by
  rw [isContradiction, isSatisfiable_eq_ok few]
  rfl

/-- **The checks of one formula answer for all models.**  With fewer than 64 variables each check
has an answer: a tautology is what is true in every model that covers it, satisfiable what is true
in some, a contradiction what is true in none; so a contradiction is what has a tautology for its
negation. -/
theorem checks_iff_models (f : Formula) (few : f.vars.length < 64) :
    (∃ b, f.isTautology = .ok b ∧
      (b = true ↔ ∀ m : Model, m.Covers f → f.evaluate m = .ok true)) ∧
    (∃ b, f.isSatisfiable = .ok b ∧
      (b = true ↔ ∃ m : Model, m.Covers f ∧ f.evaluate m = .ok true)) ∧
    (∃ b, f.isContradiction = .ok b ∧
      (b = true ↔ ¬ ∃ m : Model, m.Covers f ∧ f.evaluate m = .ok true)) ∧
    f.isContradiction = (Formula.not f).isTautology := by
  classical
  have hnot : (Formula.not f).vars.length < 64 := few
  refine ⟨⟨_, isTautology_eq_ok few, ?_⟩, ⟨_, isSatisfiable_eq_ok few, ?_⟩,
    ⟨_, isContradiction_eq_ok few, ?_⟩, ?_⟩
  · rw [decide_eq_true_iff, tautology_iff]
  · rw [decide_eq_true_iff, satisfiable_iff]
  · rw [Bool.not_eq_true', decide_eq_false_iff_not, satisfiable_iff]
  · rw [isContradiction_eq_ok few, isTautology_eq_ok hnot, ← decide_not]
    exact congrArg _ (decide_eq_decide.mpr (by rw [satisfiable_iff_not_tautology, not_not]))

/-- The formula `(p|~q)` is false in a model that assigns `r`, too, and true in another one. -/
theorem checks_iff_models_mixed :
    (Formula.or (.var .p) (.not (.var .q))).vars.length < 64 ∧
      (Formula.or (.var .p) (.not (.var .q))).isTautology = .ok false ∧
      (Formula.or (.var .p) (.not (.var .q))).isSatisfiable = .ok true ∧
      (Formula.or (.var .p) (.not (.var .q))).isContradiction = .ok false := by
  have few : (Formula.or (.var .p) (.not (.var .q))).vars.length < 64 :=
    Nat.lt_of_le_of_lt (length_ascending_le _) (by decide)
  obtain ⟨⟨t, ht, htautology⟩, ⟨s, hs, hsatisfiable⟩, ⟨c, hc, hcontradiction⟩, -⟩ :=
    checks_iff_models _ few
  have hfalse : (Model.ofPairs [(.p, false), (.q, true), (⟨"r", by decide⟩, true)]).Covers
      (.or (.var .p) (.not (.var .q))) := by decide +kernel
  have htrue : ∃ m : Model, m.Covers (.or (.var .p) (.not (.var .q))) ∧
      (Formula.or (.var .p) (.not (.var .q))).evaluate m = .ok true := by
    have hcovers : (Model.ofPairs [(.p, true), (.q, true)]).Covers
        (.or (.var .p) (.not (.var .q))) := by decide +kernel
    exact ⟨_, hcovers, evaluate_eq_ok_iff.mpr ⟨hcovers, by decide +kernel⟩⟩
  obtain rfl : t = false := by
    rw [Bool.eq_false_iff, ne_eq, htautology]
    intro h
    have hvalue := (evaluate_eq_ok_iff.mp (h _ hfalse)).2
    revert hvalue
    decide +kernel
  obtain rfl : s = true := hsatisfiable.mpr htrue
  obtain rfl : c = false := by
    rw [Bool.eq_false_iff, ne_eq, hcontradiction, not_not]
    exact htrue
  exact ⟨few, ht, hs, hc⟩

/-! ## Two formulas -/

/-- The variables of a compound are those of both operands, each once. -/
theorem length_vars_binary (c : Connective) (f g : Formula) :
    (binary c f g).vars.length = (f.vars ∪ g.vars).length := by
  refine List.Perm.length_eq ((List.perm_ext_iff_of_nodup (vars_nodup _) ?_).mpr fun v => ?_)
  · exact List.Nodup.union _ (vars_nodup g)
  · rw [List.mem_union_iff, mem_vars, mem_vars, mem_vars, occurrences, List.mem_append]

/-- Formulas whose variables are all listed have few variables if the list is short. -/
theorem length_union_lt_of_mem {n : Nat} {vs : List Var} {f g : Formula}
    (hf : ∀ v ∈ f.occurrences, v ∈ vs) (hg : ∀ v ∈ g.occurrences, v ∈ vs) (few : vs.length < n) :
    (f.vars ∪ g.vars).length < n := by
  have hsubset : f.vars ∪ g.vars ⊆ vs := fun v hv =>
    (List.mem_union_iff.mp hv).elim (fun hv => hf v (mem_vars.mp hv)) fun hv => hg v (mem_vars.mp hv)
  have hnodup : (f.vars ∪ g.vars).Nodup := List.Nodup.union _ (vars_nodup g)
  exact Nat.lt_of_le_of_lt (List.subperm_of_subset hnodup hsubset).length_le few

/-- Few variables together are few in any formulas that have no others. -/
theorem length_union_lt_of_imp {n : Nat} {f g f' g' : Formula}
    (h : ∀ v, v ∈ f'.vars ∨ v ∈ g'.vars → v ∈ f.vars ∨ v ∈ g.vars)
    (few : (f.vars ∪ g.vars).length < n) : (f'.vars ∪ g'.vars).length < n :=
  length_union_lt_of_mem (fun v hv => List.mem_union_iff.mpr (h v (.inl (mem_vars.mpr hv))))
    (fun v hv => List.mem_union_iff.mpr (h v (.inr (mem_vars.mpr hv)))) few

theorem length_union_lt_of_occurrences {n : Nat} {f g : Formula}
    (h : (f.occurrences ++ g.occurrences).length < n) : (f.vars ∪ g.vars).length < n :=
  length_union_lt_of_mem (fun _ hv => List.mem_append_left _ hv)
    (fun _ hv => List.mem_append_right _ hv) h

theorem covers_binary_iff {c : Connective} {f g : Formula} {m : Model} :
    m.Covers (binary c f g) ↔ m.Covers f ∧ m.Covers g := by
  simp only [Model.covers_iff, occurrences, List.mem_append, or_imp, forall_and]
  tauto

theorem equivalent_iff_tautology {f g : Formula} : f.Equivalent g ↔ (f.iff g).Tautology :=
  forall_congr' fun _ => beq_iff_eq.symm

/-- Equivalent formulas are those with the same value in every model that covers both. -/
theorem equivalent_iff {f g : Formula} :
    f.Equivalent g ↔ ∀ m : Model, m.Covers f → m.Covers g → f.evaluate m = g.evaluate m := by
  rw [equivalent_iff_tautology, tautology_iff]
  refine forall_congr' fun m => ?_
  rw [covers_binary_iff, and_imp]
  refine forall₂_congr fun hf hg => ?_
  rw [evaluate_eq_ok (covers_binary_iff.mpr ⟨hf, hg⟩), evaluate_eq_ok hf, evaluate_eq_ok hg,
    Except.ok.injEq, Except.ok.injEq]
  exact beq_iff_eq

/-- Comparing two formulas row by row is checking one formula. -/
theorem isEquivalent_eq_isTautology (f g : Formula) :
    f.isEquivalent g = (f.iff g).isTautology := rfl

open scoped Classical in
theorem isEquivalent_eq_ok {f g : Formula} (few : (f.vars ∪ g.vars).length < 64) :
    f.isEquivalent g = .ok (decide (f.Equivalent g)) := by
  rw [isEquivalent_eq_isTautology, isTautology_eq_ok (length_vars_binary .iff f g ▸ few)]
  exact congrArg _ (decide_eq_decide.mpr equivalent_iff_tautology.symm)

theorem isEquivalent_eq_ok_true_iff {f g : Formula} (few : (f.vars ∪ g.vars).length < 64) :
    f.isEquivalent g = .ok true ↔ f.Equivalent g := by
  classical rw [isEquivalent_eq_ok few, Except.ok.injEq, decide_eq_true_iff]

theorem isEquivalent_eq_ok_false_iff {f g : Formula} (few : (f.vars ∪ g.vars).length < 64) :
    f.isEquivalent g = .ok false ↔ ¬ f.Equivalent g := by
  classical rw [isEquivalent_eq_ok few, Except.ok.injEq, decide_eq_false_iff_not]

/-- **The check of two formulas answers for all models, and is an equivalence relation.**  With
fewer than 64 variables together it has an answer, whether the formulas have the same value in every
model that covers both.  It is the check of one formula; every formula passes with itself, the order
of the two does not matter, and a third formula may bring in variables of its own. -/
theorem isEquivalent_iff_models (f g : Formula) (few : (f.vars ∪ g.vars).length < 64) :
    (∃ b, f.isEquivalent g = .ok b ∧
      (b = true ↔ ∀ m : Model, m.Covers f → m.Covers g → f.evaluate m = g.evaluate m)) ∧
    f.isEquivalent g = (f.iff g).isTautology ∧
    f.isEquivalent f = .ok true ∧
    g.isEquivalent f = f.isEquivalent g ∧
    ∀ h : Formula, (g.vars ∪ h.vars).length < 64 → (f.vars ∪ h.vars).length < 64 →
      f.isEquivalent g = .ok true → g.isEquivalent h = .ok true → f.isEquivalent h = .ok true := by
  classical
  have fewSelf : (f.vars ∪ f.vars).length < 64 :=
    length_union_lt_of_imp (fun _ hv => .inl (or_self_iff.mp hv)) few
  have fewSwap : (g.vars ∪ f.vars).length < 64 :=
    length_union_lt_of_imp (fun _ => Or.symm) few
  refine ⟨⟨_, isEquivalent_eq_ok few, ?_⟩, isEquivalent_eq_isTautology f g, ?_, ?_, ?_⟩
  · rw [decide_eq_true_iff, equivalent_iff]
  · rw [isEquivalent_eq_ok fewSelf, decide_eq_true (show f.Equivalent f from fun _ => rfl)]
  · rw [isEquivalent_eq_ok few, isEquivalent_eq_ok fewSwap]
    exact congrArg _ (decide_eq_decide.mpr (forall_congr' fun _ => eq_comm))
  · intro h fewRight fewOuter
    rw [isEquivalent_eq_ok few, isEquivalent_eq_ok fewRight, isEquivalent_eq_ok fewOuter,
      Except.ok.injEq, Except.ok.injEq, Except.ok.injEq, decide_eq_true_iff, decide_eq_true_iff,
      decide_eq_true_iff]
    exact fun hfg hgh ρ => (hfg ρ).trans (hgh ρ)

/-- Both `(p&(q|~q))` and `(p|(r&~r))` are equivalent to `p`, and so to each other, though no two of
the three have the same variables. -/
theorem isEquivalent_iff_models_padded :
    ((and (.var .p) (.or (.var .q) (.not (.var .q)))).vars ∪ (var .p).vars).length < 64 ∧
      (and (.var .p) (.or (.var .q) (.not (.var .q)))).isEquivalent (.var .p) = .ok true ∧
      (and (.var .p) (.or (.var .q) (.not (.var .q)))).isEquivalent
        (.or (.var .p) (.and (.var ⟨"r", by decide⟩) (.not (.var ⟨"r", by decide⟩)))) =
          .ok true := by
  have few : ((and (.var .p) (.or (.var .q) (.not (.var .q)))).vars ∪ (var .p).vars).length < 64 :=
    length_union_lt_of_occurrences (by decide)
  have fewRight : ((var .p).vars ∪ (or (.var .p) (.and (.var ⟨"r", by decide⟩)
      (.not (.var ⟨"r", by decide⟩)))).vars).length < 64 :=
    length_union_lt_of_occurrences (by decide)
  obtain ⟨⟨b, hb, hleft⟩, -, -, -, trans⟩ := isEquivalent_iff_models _ _ few
  obtain rfl : b = true := hleft.mpr (equivalent_iff.mp fun ρ => by simp [eval, Connective.apply])
  obtain ⟨⟨b, hb', hright⟩, -⟩ := isEquivalent_iff_models _ _ fewRight
  obtain rfl : b = true := hright.mpr (equivalent_iff.mp fun ρ => by simp [eval, Connective.apply])
  exact ⟨few, hb, trans _ fewRight (length_union_lt_of_occurrences (by decide)) hb hb'⟩

end Formula

end PropLogic

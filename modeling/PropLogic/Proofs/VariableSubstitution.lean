import PropLogic.Proofs.Coincidence
import PropLogic.Substitution

/-!
# The meaning of substitution

Replacing variables by formulas is reading the formula in another model: each variable gets the
value that its image has (`Formula.eval_substitute`).  The images are evaluated in the model as it
is, whatever variables they mention, so swaps and cycles of variables need no care.  The leaves of
the result are those of the images (`Formula.occurrences_substitute`), so a model covers the result
exactly if it covers the image of every variable.

Main statement: `Formula.evaluate_substituteVariables`, the substitution lemma for models.
-/

namespace PropLogic

namespace Substitution

/-- What a variable becomes: itself if the substitution gives no formula for it. -/
def image (σ : Substitution) (v : Var) : Formula :=
  (σ v).getD (.var v)

/-- The substitution that looks the names of variables up among the entries. -/
def ofLookup (es : List (String × Formula)) : Substitution := fun v =>
  es.lookup v.name

/-- Entries whose keys are variable names make a substitution. -/
theorem ofEntries_eq_ok {es : List (String × Formula)}
    (hes : ∀ e ∈ es, isVariableName e.1 = true) : ofEntries es = .ok (ofLookup es) := by
  have hnone : es.find? (fun e => !isVariableName e.1) = none := by
    rw [List.find?_eq_none]
    intro e he
    simp [hes e he]
  rw [ofEntries, hnone]
  rfl

end Substitution

namespace Formula

/-- Entries whose keys are variable names can be applied to every formula. -/
theorem substituteVariables_eq_ok (f : Formula) {es : List (String × Formula)}
    (hes : ∀ e ∈ es, isVariableName e.1 = true) :
    f.substituteVariables es = .ok (f.substitute (.ofLookup es)) := by
  rw [substituteVariables, Substitution.ofEntries_eq_ok hes]
  rfl

/-- **The substitution lemma for valuations.**  The result has the truth value of the formula in
which every variable has the value of its image. -/
theorem eval_substitute (σ : Substitution) (f : Formula) (ρ : Var → Bool) :
    (f.substitute σ).eval ρ = f.eval fun v => (σ.image v).eval ρ := by
  induction f with
  | var v => rw [substitute_var, eval, Substitution.image]
  | const b => rw [substitute_const, eval, eval]
  | not f ih => rw [substitute_not, eval, eval, ih]
  | binary c f g ihf ihg => rw [substitute_binary, eval, eval, ihf, ihg]

/-- The leaves of the result are those of the images, in order. -/
theorem occurrences_substitute (σ : Substitution) (f : Formula) :
    (f.substitute σ).occurrences = f.occurrences.flatMap fun v => (σ.image v).occurrences := by
  induction f with
  | var v => simp [occurrences, Substitution.image]
  | const b => simp [occurrences]
  | not f ih => rw [substitute_not, occurrences, occurrences, ih]
  | binary c f g ihf ihg =>
    rw [substitute_binary, occurrences, occurrences, List.flatMap_append, ihf, ihg]

/-- A model covers the result exactly if it is valid and covers the image of every variable. -/
theorem covers_substitute_iff {σ : Substitution} {f : Formula} {m : Model} :
    m.Covers (f.substitute σ) ↔
      m.isValid = true ∧ ∀ v ∈ f.occurrences, m.Covers (σ.image v) := by
  simp only [Model.covers_iff, occurrences_substitute, List.mem_flatMap]
  constructor
  · rintro ⟨hm, h⟩
    exact ⟨hm, fun v hv => ⟨hm, fun w hw => h w ⟨v, hv, hw⟩⟩⟩
  · rintro ⟨hm, h⟩
    refine ⟨hm, fun w hw => ?_⟩
    obtain ⟨v, hv, hw⟩ := hw
    exact (h v hv).2 w hw

end Formula

/-- The value that a model gives to what a variable becomes: the truth value of its formula if the
substitution has one for it, and its own value otherwise. -/
def Model.imageValue? (m : Model) (σ : Substitution) (v : Var) : Option Bool :=
  match σ v with
  | some g => (g.evaluate m).toOption
  | none => m[v.name]?

/-- In a model that covers the image of a variable, the image has a value. -/
theorem Model.imageValue?_eq_some {m : Model} {σ : Substitution} {v : Var}
    (h : m.Covers (σ.image v)) :
    m.imageValue? σ v = some ((σ.image v).eval m.valuation) := by
  unfold imageValue? Substitution.image
  cases hv : σ v with
  | some g =>
    have hg : m.Covers g := by simpa [Substitution.image, hv] using h
    simp [Formula.evaluate_eq_ok hg, Except.toOption]
  | none =>
    have hm : m.Covers (.var v) := by simpa [Substitution.image, hv] using h
    exact getElem?_of_assigns ((covers_iff.mp hm).2 v (by simp [Formula.occurrences]))

/-- **The substitution lemma.**  Entries whose keys are variable names can be applied to every
formula, and in a model `m` that covers the result it has the value which the formula has in a model
`m₂` that gives every variable of the formula the value of its image in `m`.  There is such a model,
and it does not matter what it says of other variables. -/
theorem Formula.evaluate_substituteVariables (f : Formula) (es : List (String × Formula))
    (hes : ∀ e ∈ es, isVariableName e.1 = true) :
    ∃ g, f.substituteVariables es = .ok g ∧ ∀ m : Model, m.Covers g →
      ∃ b, g.evaluate m = .ok b ∧
        (∃ m₂ : Model, m₂.isValid = true ∧
          ∀ v ∈ f.vars, m₂[v.name]? = m.imageValue? (.ofLookup es) v) ∧
        ∀ m₂ : Model, m₂.isValid = true →
          (∀ v ∈ f.vars, m₂[v.name]? = m.imageValue? (.ofLookup es) v) →
            f.evaluate m₂ = .ok b := by
  refine ⟨_, f.substituteVariables_eq_ok hes, fun m hm => ?_⟩
  generalize Substitution.ofLookup es = σ at hm ⊢
  have himage : ∀ v ∈ f.occurrences,
      m.imageValue? σ v = some ((σ.image v).eval m.valuation) := fun v hv =>
    Model.imageValue?_eq_some ((covers_substitute_iff.mp hm).2 v hv)
  refine ⟨_, evaluate_eq_ok hm, ?_, fun m₂ hm₂ hvalue => ?_⟩
  · refine ⟨.ofValuation f.vars fun v => (σ.image v).eval m.valuation,
      Model.isValid_ofValuation _ _, fun v hv => ?_⟩
    rw [Model.getElem?_ofValuation hv, himage v (mem_vars.mp hv)]
  · have hget : ∀ v ∈ f.occurrences,
        m₂[v.name]? = some ((σ.image v).eval m.valuation) := fun v hv =>
      (hvalue v (mem_vars.mpr hv)).trans (himage v hv)
    have hcovers : m₂.Covers f := Model.covers_iff.mpr ⟨hm₂, fun v hv => by
      rw [Model.assigns_iff_mem, Std.ExtTreeMap.mem_iff_isSome_getElem?, hget v hv]
      rfl⟩
    rw [evaluate_eq_ok hcovers, eval_substitute]
    congr 1
    refine eval_congr fun v hv => ?_
    rw [Model.valuation, hget v hv, Option.getD_some]

/-- The images may mention the replaced variables: `p` becomes `q` and `q` becomes `~p`. -/
theorem Formula.evaluate_substituteVariables_cycle :
    (∀ e ∈ [("p", var .q), ("q", not (var .p))], isVariableName e.1 = true) ∧
      (implies (var .p) (var .q)).substituteVariables [("p", var .q), ("q", not (var .p))] =
        .ok (implies (var .q) (not (var .p))) ∧
      (implies (var .q) (not (var .p))).evaluate (.ofPairs [(.p, true), (.q, true)]) = .ok false ∧
      (implies (var .p) (var .q)).evaluate (.ofPairs [(.p, true), (.q, false)]) = .ok false := by
  have hes : ∀ e ∈ [("p", var .q), ("q", not (var .p))], isVariableName e.1 = true := by decide
  obtain ⟨g, hg, h⟩ := evaluate_substituteVariables (implies (var .p) (var .q)) _ hes
  obtain rfl : g = implies (var .q) (not (var .p)) := Except.ok.inj (hg.symm.trans rfl)
  obtain ⟨b, hb, -, hm₂⟩ := h (.ofPairs [(.p, true), (.q, true)]) (by decide +kernel)
  have hf := hm₂ (.ofPairs [(.p, true), (.q, false)]) (by decide +kernel) fun v hv => by
    have hv : v = .p ∨ v = .q := by simpa [occurrences] using hv
    rcases hv with rfl | rfl
    · rw [Model.imageValue?_eq_some (by decide +kernel)]
      decide +kernel
    · rw [Model.imageValue?_eq_some (by decide +kernel)]
      decide +kernel
  obtain rfl : b = false := by
    rw [← (evaluate_eq_ok_iff.mp hb).2]
    decide +kernel
  exact ⟨hes, hg, hb, hf⟩

end PropLogic

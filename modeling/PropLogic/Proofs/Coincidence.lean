import PropLogic.Evaluation

/-!
# Truth values and the models that have them

The truth value of a formula depends on the values of its own variables only
(`Formula.eval_congr`), and a model has one to give exactly if it is valid and assigns all of them
(`Formula.evaluate_eq_ok_iff`).  `Model.Covers` is this condition.  Every valuation is, on finitely
many variables, that of a model: `Model.ofValuation` writes it down.
-/

namespace PropLogic

namespace Model

/-- The model is valid and assigns every variable of the formula. -/
structure Covers (m : Model) (f : Formula) : Prop where
  valid : m.isValid = true
  assigns : ∀ v ∈ f.vars, m.assigns v = true

theorem assigns_iff_mem {m : Model} {v : Var} : m.assigns v = true ↔ v.name ∈ m :=
  Std.ExtTreeMap.mem_iff_contains.symm

/-- A variable that is assigned has its value in the valuation of the model. -/
theorem getElem?_of_assigns {m : Model} {v : Var} (h : m.assigns v = true) :
    m[v.name]? = some (m.valuation v) := by
  rw [assigns_iff_mem, Std.ExtTreeMap.mem_iff_isSome_getElem?] at h
  obtain ⟨b, hb⟩ := Option.isSome_iff_exists.mp h
  rw [valuation, hb, Option.getD_some]

/-- The model covers a formula exactly if it is valid and has a value at every leaf. -/
theorem covers_iff {m : Model} {f : Formula} :
    m.Covers f ↔ m.isValid = true ∧ ∀ v ∈ f.occurrences, m.assigns v = true := by
  constructor
  · rintro ⟨hm, hf⟩
    exact ⟨hm, fun v hv => hf v (Formula.mem_vars.mpr hv)⟩
  · rintro ⟨hm, hf⟩
    exact ⟨hm, fun v hv => hf v (Formula.mem_vars.mp hv)⟩

instance (m : Model) (f : Formula) : Decidable (m.Covers f) :=
  decidable_of_iff _ covers_iff.symm

theorem check_eq_ok_iff {m : Model} {vs : List Var} :
    m.check vs = .ok () ↔ m.isValid = true ∧ ∀ v ∈ vs, m.assigns v = true := by
  unfold check
  by_cases hm : m.isValid = true
  · rw [if_pos hm]
    cases hv : vs.find? fun v => !m.assigns v with
    | none => simpa [hm] using hv
    | some v =>
      have hmem := List.mem_of_find?_eq_some hv
      have hnot := List.find?_some hv
      constructor
      · intro h
        cases h
      · rintro ⟨-, hvs⟩
        simp [hvs v hmem] at hnot
  · simp [hm]

/-! ## One more value -/

/-- The model with a value for the variable, in place of the one it may have had. -/
def assign (m : Model) (v : Var) (b : Bool) : Model :=
  m.insert v.name b

/-- The valuation changes at the variable and nowhere else. -/
theorem valuation_assign_of_ne {v w : Var} (h : w ≠ v) (m : Model) (b : Bool) :
    (m.assign v b).valuation w = m.valuation w := by
  have hne : v.name ≠ w.name := fun he => h (Var.ext he.symm)
  rw [valuation, valuation, assign, Std.ExtTreeMap.getElem?_insert]
  simp [hne]

/-- A model with one more value covers what it covered before. -/
theorem Covers.assign {m : Model} {f : Formula} (h : m.Covers f) (v : Var) (b : Bool) :
    (m.assign v b).Covers f := by
  constructor
  · rw [isValid_iff]
    intro k hk
    rcases Std.ExtTreeMap.mem_insert.mp hk with he | hk
    · exact Std.LawfulEqOrd.eq_of_compare he ▸ v.isName
    · exact (isValid_iff m).mp h.valid k hk
  · intro w hw
    rw [assigns_iff_mem, Model.assign, Std.ExtTreeMap.mem_insert]
    exact .inr (assigns_iff_mem.mp (h.assigns w hw))

/-! ## Models of a valuation -/

/-- The model that gives the listed variables their values under the valuation. -/
def ofValuation (vs : List Var) (ρ : Var → Bool) : Model :=
  .ofPairs (vs.map fun v => (v, ρ v))

theorem isValid_ofPairs (ps : List (Var × Bool)) : (ofPairs ps).isValid = true := by
  rw [isValid_iff]
  intro k hk
  rw [Std.ExtTreeMap.mem_iff_isSome_getElem?, getElem?_ofPairs, Option.isSome_map] at hk
  obtain ⟨p, hp⟩ := Option.isSome_iff_exists.mp hk
  have hname : p.1.name = k := eq_of_beq (List.find?_some hp :)
  exact hname ▸ p.1.isName

theorem isValid_ofValuation (vs : List Var) (ρ : Var → Bool) :
    (ofValuation vs ρ).isValid = true :=
  isValid_ofPairs _

/-- Every listed variable has its value. -/
theorem getElem?_ofValuation {vs : List Var} {v : Var} (hv : v ∈ vs) (ρ : Var → Bool) :
    (ofValuation vs ρ)[v.name]? = some (ρ v) := by
  rw [ofValuation, getElem?_ofPairs]
  cases hf : (vs.map fun v => (v, ρ v)).reverse.find? fun p => p.1.name == v.name with
  | none =>
    have hmem : (v, ρ v) ∈ (vs.map fun v => (v, ρ v)).reverse := by
      rw [List.mem_reverse]
      exact List.mem_map_of_mem hv
    simpa using List.find?_eq_none.mp hf _ hmem
  | some p =>
    have hname : p.1.name = v.name := eq_of_beq (List.find?_some hf :)
    obtain ⟨w, -, rfl⟩ : ∃ w ∈ vs, (w, ρ w) = p := by
      simpa using List.mem_of_find?_eq_some hf
    obtain rfl : w = v := Var.ext hname
    rfl

end Model

namespace Formula

/-- **The coincidence lemma.**  Valuations that agree on the variables of a formula give it the
same truth value. -/
theorem eval_congr {f : Formula} {ρ ρ' : Var → Bool} (h : ∀ v ∈ f.occurrences, ρ v = ρ' v) :
    f.eval ρ = f.eval ρ' := by
  induction f with
  | var v => exact h v (by simp [occurrences])
  | const b => rfl
  | not f ih => rw [eval, eval, ih h]
  | binary c f g ihf ihg =>
    have hf := ihf fun v hv => h v (by simp [occurrences, hv])
    have hg := ihg fun v hv => h v (by simp [occurrences, hv])
    rw [eval, eval, hf, hg]

/-- In a model that covers the formula, evaluation gives the truth value. -/
theorem evaluate_eq_ok {f : Formula} {m : Model} (h : m.Covers f) :
    f.evaluate m = .ok (f.eval m.valuation) := by
  have hcheck : m.check f.vars = .ok () := Model.check_eq_ok_iff.mpr ⟨h.valid, h.assigns⟩
  have hvalue := valueIn_eq fun v hv =>
    Model.assigns_iff_mem.mp (h.assigns v (mem_vars.mpr hv))
  rw [evaluate, hcheck, ← hvalue]
  rfl

/-- Evaluation succeeds exactly in the models that cover the formula. -/
theorem evaluate_eq_ok_iff {f : Formula} {m : Model} {b : Bool} :
    f.evaluate m = .ok b ↔ m.Covers f ∧ f.eval m.valuation = b := by
  constructor
  · intro h
    have hcheck : m.check f.vars = .ok () := by
      cases hc : m.check f.vars with
      | ok u => rfl
      | error e =>
        rw [evaluate, hc] at h
        cases h
    obtain ⟨hm, hf⟩ := Model.check_eq_ok_iff.mp hcheck
    rw [evaluate_eq_ok ⟨hm, hf⟩] at h
    exact ⟨⟨hm, hf⟩, Except.ok.inj h⟩
  · rintro ⟨h, rfl⟩
    exact evaluate_eq_ok h

end Formula

end PropLogic

import PropLogic.Proofs.NormalForms

/-!
# Formulas of a single model

The clause over a model's own names describes the model.  The conjunction of literals is true, and
the disjunction false, in exactly those models that agree with it on all its keys, however many
other names these assign; so each is the negation of the other.  There is such a clause for every
valid model that has a key at all, and its variables are the keys.

Main statement: `NormalForm.ofModel_iff_agree`.
-/

namespace PropLogic

/-! ## The variables of a model -/

namespace Model

variable {m : Model}

/-- The keys of a valid model are the names of its variables, in the same order. -/
theorem map_name_vars (valid : m.isValid = true) : m.vars.map Var.name = m.keys := by
  have hkeys : ∀ s ∈ m.keys, isVariableName s = true := fun s hs =>
    (isValid_iff m).mp valid s (Std.ExtTreeMap.mem_keys.mp hs)
  obtain ⟨vs, hvs⟩ : ∃ vs : List Var, vs.map Var.name = m.keys := CanLift.prf m.keys hkeys
  rw [vars, ← hvs, List.filterMap_map]
  simp

/-- A valid model is one over its own variables. -/
theorem isOver_vars (valid : m.isValid = true) : m.IsOver (m.vars.map Var.name) := fun s => by
  rw [map_name_vars valid, Std.ExtTreeMap.mem_keys]

/-- The variables of a model ascend. -/
theorem vars_pairwise (m : Model) : m.vars.Pairwise fun v w => compare v w = .lt := by
  refine List.Pairwise.filterMap Var.ofName? (fun s t hst v hv w hw => ?_)
    Std.ExtTreeMap.ordered_keys
  rw [Var.ofName?_eq_some_iff.mp hv, Var.ofName?_eq_some_iff.mp hw] at hst
  exact hst

theorem vars_ne_nil (valid : m.isValid = true) (nonempty : m ≠ ∅) : m.vars ≠ [] := by
  intro h
  refine nonempty (Std.ExtTreeMap.ext_getElem? fun s => ?_)
  have hs : s ∉ m := fun hmem => by simpa [h] using (isOver_vars valid s).mp hmem
  simp [hs]

end Model

namespace NormalForm

variable {k : NormalForm} {m o : Model} {f : Formula}

/-! ## The clause of a model -/

/-- The variables of the clause are the keys of the model. -/
theorem map_name_vars_of_clause (valid : m.isValid = true) (hf : k.clause? m.vars m = some f) :
    f.vars.map Var.name = m.keys := by
  rw [Formula.vars, occurrences_clause hf, ascending_eq_self m.vars_pairwise,
    Model.map_name_vars valid]

/-- **The clause in larger models.**  It has a value in every valid model that assigns the keys, and
the value is the sign of the form exactly if the two models agree on the keys. -/
theorem evaluate_clause (valid : m.isValid = true) (hf : k.clause? m.vars m = some f)
    (validLarger : o.isValid = true) (keys : ∀ s ∈ m, s ∈ o) :
    f.evaluate o = .ok (f.eval o.valuation) ∧
      (f.eval o.valuation = k.sign ↔ ∀ s ∈ m, o[s]? = m[s]?) := by
  have assigns : ∀ v ∈ m.vars, m.assigns v = true := fun v hv =>
    Model.assigns_iff_mem.mpr (Model.mem_vars.mp hv)
  have assignsLarger : ∀ v ∈ m.vars, o.assigns v = true := fun v hv =>
    Model.assigns_iff_mem.mpr (keys _ (Model.mem_vars.mp hv))
  constructor
  · refine Formula.evaluate_eq_ok (Model.covers_iff.mpr ⟨validLarger, fun v hv => ?_⟩)
    exact assignsLarger v (occurrences_clause hf ▸ hv)
  · rw [eval_clause_eq_sign_iff hf, ← Model.agree_iff assignsLarger assigns]
    exact forall_congr' fun s => imp_congr_left (Model.isOver_vars valid s).symm

/-- Every valid model with a key has a clause. -/
theorem exists_ofModel_eq_ok (k : NormalForm) (valid : m.isValid = true) (nonempty : m ≠ ∅) :
    ∃ f, k.clause? m.vars m = some f ∧ k.ofModel m = .ok f := by
  obtain ⟨f, hf⟩ := k.exists_clause?_eq_some (Model.vars_ne_nil valid nonempty) m
  exact ⟨f, hf, by rw [ofModel, if_pos valid, hf]⟩

/-- A model that is not valid is refused, and so is the one without keys; no other is. -/
theorem ofModel_eq_error_iff {x : Fault} : k.ofModel m = .error x ↔
    (m.isValid = false ∧ x = .invalidModel m) ∨ (m = ∅ ∧ x = .emptyModel) := by
  cases valid : m.isValid with
  | false =>
    have hne : m ≠ ∅ := by
      rintro rfl
      exact absurd valid (by decide)
    simp [ofModel, valid, hne, eq_comm]
  | true =>
    by_cases hempty : m = ∅
    · subst hempty
      have herror : k.ofModel ∅ = .error .emptyModel := rfl
      simp [herror, eq_comm]
    · obtain ⟨f, -, hf⟩ := k.exists_ofModel_eq_ok valid hempty
      simp [hf, hempty]

/-- **The formulas of a single model.**  Every valid model with a key has a conjunction and a
disjunction.  In every valid model that assigns at least its keys, the conjunction is true and the
disjunction false if the two models agree on the keys, and otherwise it is the other way round.
Both formulas have exactly the keys as variables.  A model is refused only for a key that is no
variable name, or for having none. -/
theorem ofModel_iff_agree (m : Model) :
    (m ≠ ∅ → (∀ s ∈ m, isVariableName s = true) →
      ∃ f g : Formula, disjunctive.ofModel m = .ok f ∧ conjunctive.ofModel m = .ok g ∧
        (∀ o : Model, o.isValid = true → (∀ s ∈ m, s ∈ o) →
          ∃ b, f.evaluate o = .ok b ∧ g.evaluate o = .ok (!b) ∧
            (b = true ↔ ∀ s ∈ m, o[s]? = m[s]?)) ∧
        f.vars.map Var.name = m.keys ∧ g.vars.map Var.name = m.keys) ∧
    ∀ (k : NormalForm) (x : Fault), k.ofModel m = .error x ↔
      ((∃ s ∈ m, isVariableName s = false) ∧ x = .invalidModel m) ∨
        (m = ∅ ∧ x = .emptyModel) := by
  constructor
  · intro nonempty names
    have valid : m.isValid = true := (Model.isValid_iff m).mpr names
    obtain ⟨f, hf, hfok⟩ := disjunctive.exists_ofModel_eq_ok valid nonempty
    obtain ⟨g, hg, hgok⟩ := conjunctive.exists_ofModel_eq_ok valid nonempty
    refine ⟨f, g, hfok, hgok, fun o validLarger keys => ?_, map_name_vars_of_clause valid hf,
      map_name_vars_of_clause valid hg⟩
    obtain ⟨hfvalue, hfagree⟩ := evaluate_clause valid hf validLarger keys
    obtain ⟨hgvalue, hgagree⟩ := evaluate_clause valid hg validLarger keys
    refine ⟨_, hfvalue, ?_, hfagree⟩
    rw [hgvalue, eq_not_of_sign_iff rfl (hgagree.trans hfagree.symm)]
  · intro k x
    have invalid : m.isValid = false ↔ ∃ s ∈ m, isVariableName s = false := by
      rw [← Bool.not_eq_true, Model.isValid_iff]
      simp
    rw [ofModel_eq_error_iff, invalid]

/-- The conjunction of the model with `p` true and `q` false is true, and its disjunction false, in a
model that gives a value to `r`, too; where `q` is true it is the other way round.  The empty model
and one with the key `a` are refused. -/
theorem ofModel_iff_agree_larger :
    Model.ofPairs [(.q, false), (.p, true)] ≠ ∅ ∧
      (∀ s ∈ Model.ofPairs [(.q, false), (.p, true)], isVariableName s = true) ∧
      (∃ f g : Formula,
        disjunctive.ofModel (.ofPairs [(.q, false), (.p, true)]) = .ok f ∧
        conjunctive.ofModel (.ofPairs [(.q, false), (.p, true)]) = .ok g ∧
        f.evaluate (.ofPairs [(⟨"r", by decide⟩, true), (.p, true), (.q, false)]) = .ok true ∧
        g.evaluate (.ofPairs [(⟨"r", by decide⟩, true), (.p, true), (.q, false)]) = .ok false ∧
        f.evaluate (.ofPairs [(.p, true), (.q, true)]) = .ok false ∧
        g.evaluate (.ofPairs [(.p, true), (.q, true)]) = .ok true ∧
        f.vars.map Var.name = ["p", "q"] ∧ g.vars.map Var.name = ["p", "q"]) ∧
      ∀ k : NormalForm, k.ofModel ∅ = .error .emptyModel ∧
        k.ofModel (Std.ExtTreeMap.insert ∅ "a" true) =
          .error (.invalidModel (Std.ExtTreeMap.insert ∅ "a" true)) := by
  have hkeys : ∀ s, s ∈ Model.ofPairs [(.q, false), (.p, true)] ↔ s ∈ ["q", "p"] :=
    Model.isOver_ofPairs _
  have nonempty : Model.ofPairs [(.q, false), (.p, true)] ≠ ∅ := fun h => by
    have hq := (hkeys "q").mpr (by decide)
    rw [h] at hq
    exact Std.ExtTreeMap.not_mem_empty hq
  have names : ∀ s ∈ Model.ofPairs [(.q, false), (.p, true)], isVariableName s = true := by
    simp only [hkeys]
    decide
  obtain ⟨f, g, hf, hg, hvalue, hfvars, hgvars⟩ :=
    (ofModel_iff_agree (.ofPairs [(.q, false), (.p, true)])).1 nonempty names
  simp only [hkeys] at hvalue
  obtain ⟨b, hfb, hgb, hagree⟩ := hvalue
    (.ofPairs [(⟨"r", by decide⟩, true), (.p, true), (.q, false)]) (by decide +kernel)
    (by decide +kernel)
  obtain rfl : b = true := hagree.mpr (by decide +kernel)
  obtain ⟨b', hfb', hgb', hagree'⟩ := hvalue (.ofPairs [(.p, true), (.q, true)])
    (by decide +kernel) (by decide +kernel)
  obtain rfl : b' = false := Bool.eq_false_iff.mpr (hagree'.not.mpr (by decide +kernel))
  have hlisted : (Model.ofPairs [(.q, false), (.p, true)]).keys = ["p", "q"] := by decide +kernel
  refine ⟨nonempty, names, ⟨f, g, hf, hg, hfb, hgb, hfb', hgb', hlisted ▸ hfvars,
    hlisted ▸ hgvars⟩, fun k => ⟨?_, ?_⟩⟩
  · exact ((ofModel_iff_agree ∅).2 k _).mpr (.inr ⟨rfl, rfl⟩)
  · refine ((ofModel_iff_agree _).2 k _).mpr (.inl ⟨⟨"a", ?_, by decide⟩, rfl⟩)
    exact Std.ExtTreeMap.mem_insert_self

end NormalForm

end PropLogic

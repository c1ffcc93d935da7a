import PropLogic.Proofs.Coincidence

/-!
# When evaluation fails

The look-ups alone would fail at the leftmost leaf without a value (`Formula.valueIn_eq_elim`).
Evaluation never comes to that: `Model.check` has gone through all variables of the formula before,
and its answer does not depend on where they stand in the tree.  So there are two causes to fail, a
key that is no variable name and then the least variable without a value (`Model.FirstMissing`), and
no other (`Formula.evaluate_eq_error_iff`).

Of a valid model nothing counts but the values of the formula's own variables: models that agree on
them, whatever their other entries, cover the formula alike (`Model.AgreeOn.covers`), lack the same
variable (`Model.AgreeOn.firstMissing`) and give the same truth value.

Main statement: `Formula.evaluate_outcome`.
-/

namespace PropLogic

/-- Variables are compared as their names, by code points. -/
theorem Var.isLE_compare_iff {v w : Var} : (compare v w).isLE = true ↔ v.name ≤ w.name :=
  isLE_compareOfLessAndEq String.le_antisymm String.not_le String.le_total

namespace Model

theorem isValid_eq_false_iff {m : Model} :
    m.isValid = false ↔ ∃ k ∈ m, isVariableName k = false := by
  rw [← Bool.not_eq_true, isValid_iff]
  simp

/-! ## The least missing variable -/

/-- The variable is the least one of the formula, by code points, without a value in the model. -/
structure FirstMissing (m : Model) (f : Formula) (v : Var) : Prop where
  mem : v ∈ f.vars
  missing : v.name ∉ m
  least : ∀ w ∈ f.vars, w.name ∉ m → v.name ≤ w.name

theorem find?_vars_eq_some_iff {m : Model} {f : Formula} {v : Var} :
    f.vars.find? (fun v => !m.assigns v) = some v ↔ m.FirstMissing f v := by
  have hmissing (w : Var) : (!m.assigns w) = true ↔ w.name ∉ m := by
    rw [Bool.not_eq_true', ← Bool.not_eq_true, assigns_iff_mem]
  rw [find?_eq_some_iff_least f.vars_sorted]
  simp only [hmissing, Var.isLE_compare_iff]
  exact ⟨fun ⟨hv, hm, hleast⟩ => ⟨hv, hm, hleast⟩, fun ⟨hv, hm, hleast⟩ => ⟨hv, hm, hleast⟩⟩

theorem check_vars_eq_error_iff {m : Model} {f : Formula} {e : Fault} :
    m.check f.vars = .error e ↔ m.isValid = false ∧ e = .invalidModel m ∨
      m.isValid = true ∧ ∃ v, m.FirstMissing f v ∧ e = .unassigned m v := by
  unfold check
  cases hm : m.isValid with
  | false => simp [eq_comm]
  | true =>
    simp only [← find?_vars_eq_some_iff]
    cases hfind : f.vars.find? fun v => !m.assigns v <;> simp [eq_comm]

/-! ## Models that agree on a formula -/

/-- The models give the same values to the variables of the formula, or none. -/
def AgreeOn (m m' : Model) (f : Formula) : Prop :=
  ∀ v ∈ f.vars, m[v.name]? = m'[v.name]?

namespace AgreeOn

variable {m m' : Model} {f : Formula}

theorem symm (h : AgreeOn m m' f) : AgreeOn m' m f :=
  fun v hv => (h v hv).symm

theorem mem_iff (h : AgreeOn m m' f) {v : Var} (hv : v ∈ f.vars) : v.name ∈ m ↔ v.name ∈ m' := by
  rw [Std.ExtTreeMap.mem_iff_isSome_getElem?, Std.ExtTreeMap.mem_iff_isSome_getElem?, h v hv]

theorem firstMissing (h : AgreeOn m m' f) {v : Var} (hv : m.FirstMissing f v) :
    m'.FirstMissing f v where
  mem := hv.mem
  missing := mt (h.mem_iff hv.mem).mpr hv.missing
  least w hw hmissing := hv.least w hw (mt (h.mem_iff hw).mp hmissing)

theorem firstMissing_iff (h : AgreeOn m m' f) {v : Var} :
    m.FirstMissing f v ↔ m'.FirstMissing f v :=
  ⟨h.firstMissing, h.symm.firstMissing⟩

theorem covers (h : AgreeOn m m' f) (valid : m'.isValid = true) (hm : m.Covers f) :
    m'.Covers f where
  valid := valid
  assigns v hv := assigns_iff_mem.mpr ((h.mem_iff hv).mp (assigns_iff_mem.mp (hm.assigns v hv)))

theorem eval_eq (h : AgreeOn m m' f) : f.eval m.valuation = f.eval m'.valuation := by
  refine Formula.eval_congr fun v hv => ?_
  rw [valuation, valuation, h v (Formula.mem_vars.mpr hv)]

end AgreeOn

end Model

namespace Formula

/-- The look-ups fail at the first leaf, from the left, that has no value. -/
theorem valueIn_eq_elim (f : Formula) (m : Model) :
    f.valueIn m = (f.occurrences.find? fun v => !m.assigns v).elim (.ok (f.eval m.valuation))
      fun v => .error (.unassigned m v) := by
  induction f with
  | var v =>
    rw [occurrences, List.find?_singleton]
    cases hv : m.assigns v with
    | true =>
      rw [valueIn, Model.getElem?_of_assigns hv]
      rfl
    | false =>
      have hnone : m[v.name]? = none :=
        Std.ExtTreeMap.getElem?_eq_none (mt Model.assigns_iff_mem.mpr (by simp [hv]))
      rw [valueIn, hnone]
      rfl
  | const b => rfl
  | not f ih =>
    rw [valueIn, ih, occurrences]
    cases f.occurrences.find? fun v => !m.assigns v <;> rfl
  | binary c f g ihf ihg =>
    rw [valueIn, ihf, ihg, occurrences, List.find?_append]
    cases f.occurrences.find? fun v => !m.assigns v with
    | some v => rfl
    | none => cases g.occurrences.find? fun v => !m.assigns v <;> rfl

/-- Evaluation fails only in the check of the model. -/
theorem evaluate_eq_error_iff_check {f : Formula} {m : Model} {e : Fault} :
    f.evaluate m = .error e ↔ m.check f.vars = .error e := by
  cases hcheck : m.check f.vars with
  | error e' =>
    have hevaluate : f.evaluate m = .error e' := by
      rw [evaluate, hcheck]
      rfl
    rw [hevaluate, Except.error.injEq, Except.error.injEq]
  | ok u =>
    obtain ⟨valid, assigns⟩ := Model.check_eq_ok_iff.mp hcheck
    rw [evaluate_eq_ok ⟨valid, assigns⟩]
    constructor
    · intro h
      cases h
    · intro h
      cases h

theorem evaluate_eq_error_iff {f : Formula} {m : Model} {e : Fault} :
    f.evaluate m = .error e ↔ m.isValid = false ∧ e = .invalidModel m ∨
      m.isValid = true ∧ ∃ v, m.FirstMissing f v ∧ e = .unassigned m v :=
  evaluate_eq_error_iff_check.trans Model.check_vars_eq_error_iff

theorem evaluate_eq_unassigned_iff {f : Formula} {m : Model} (valid : m.isValid = true) {v : Var} :
    f.evaluate m = .error (.unassigned m v) ↔ m.FirstMissing f v := by
  rw [evaluate_eq_error_iff]
  simp [valid]

/-- **Evaluation fails exactly when it must, and depends on the formula's own variables only.**  There
is a value if and only if all keys of the model are variable names and every variable of the formula
has a value.  A model with another key is refused whatever else it holds; otherwise the fault is the
least missing variable, by code points, and its message names this variable.  Valid models that agree
on the formula's variables, whatever they hold besides, have the same outcome: the same value or the
same missing variable. -/
theorem evaluate_outcome (f : Formula) :
    (∀ m : Model, (∃ b, f.evaluate m = .ok b) ↔
      (∀ k ∈ m, isVariableName k = true) ∧ ∀ v ∈ f.vars, v.name ∈ m) ∧
    (∀ (m : Model) (e : Fault), f.evaluate m = .error e ↔
      (∃ k ∈ m, isVariableName k = false) ∧ e = .invalidModel m ∨
      (∀ k ∈ m, isVariableName k = true) ∧ ∃ v, m.FirstMissing f v ∧ e = .unassigned m v ∧
        e.message = s!"Model {m.quoted} does not assign variable `{v.name}`") ∧
    ∀ m m' : Model, (∀ k ∈ m, isVariableName k = true) → (∀ k ∈ m', isVariableName k = true) →
      (∀ v ∈ f.vars, m[v.name]? = m'[v.name]?) →
        (∀ b, f.evaluate m = .ok b ↔ f.evaluate m' = .ok b) ∧
          ∀ v, f.evaluate m = .error (.unassigned m v) ↔
            f.evaluate m' = .error (.unassigned m' v) := by
  refine ⟨fun m => ?_, fun m e => ?_, fun m m' valid valid' h => ?_⟩
  · simp only [evaluate_eq_ok_iff, exists_and_left, exists_eq', and_true, ← Model.isValid_iff,
      ← Model.assigns_iff_mem]
    exact ⟨fun hm => ⟨hm.valid, hm.assigns⟩, fun hm => ⟨hm.1, hm.2⟩⟩
  · rw [evaluate_eq_error_iff, Model.isValid_eq_false_iff, Model.isValid_iff]
    refine or_congr_right (and_congr_right fun _ => exists_congr fun v => and_congr_right fun _ => ?_)
    refine ⟨?_, And.left⟩
    rintro rfl
    exact ⟨rfl, rfl⟩
  · have hagree : Model.AgreeOn m m' f := h
    rw [← Model.isValid_iff] at valid valid'
    refine ⟨fun b => ?_, fun v => ?_⟩
    · rw [evaluate_eq_ok_iff, evaluate_eq_ok_iff, hagree.eval_eq]
      exact and_congr_left fun _ => ⟨hagree.covers valid', hagree.symm.covers valid⟩
    · rw [evaluate_eq_unassigned_iff valid, evaluate_eq_unassigned_iff valid',
        hagree.firstMissing_iff]

/-- In `(x2&(p|x10))` the variable `x2` stands first and look-ups would fail there, but evaluation
names `x10`.  When both have values, one more value, for `q`, changes nothing. -/
theorem evaluate_outcome_least :
    (and (var ⟨"x2", by decide⟩) (or (var .p) (var ⟨"x10", by decide⟩))).valueIn
        (.ofPairs [(.p, true)]) =
      .error (.unassigned (.ofPairs [(.p, true)]) ⟨"x2", by decide⟩) ∧
    (and (var ⟨"x2", by decide⟩) (or (var .p) (var ⟨"x10", by decide⟩))).evaluate
        (.ofPairs [(.p, true)]) =
      .error (.unassigned (.ofPairs [(.p, true)]) ⟨"x10", by decide⟩) ∧
    (and (var ⟨"x2", by decide⟩) (or (var .p) (var ⟨"x10", by decide⟩))).evaluate
        (.ofPairs [(.p, true), (⟨"x10", by decide⟩, false), (⟨"x2", by decide⟩, true)]) =
      .ok true ∧
    (and (var ⟨"x2", by decide⟩) (or (var .p) (var ⟨"x10", by decide⟩))).evaluate
        (.ofPairs [(.p, true), (.q, true), (⟨"x10", by decide⟩, false),
          (⟨"x2", by decide⟩, true)]) =
      .ok true := by
  obtain ⟨-, herror, hagree⟩ :=
    evaluate_outcome (and (var ⟨"x2", by decide⟩) (or (var .p) (var ⟨"x10", by decide⟩)))
  have hvalue : (and (var ⟨"x2", by decide⟩) (or (var .p) (var ⟨"x10", by decide⟩))).evaluate
      (.ofPairs [(.p, true), (⟨"x10", by decide⟩, false), (⟨"x2", by decide⟩, true)]) =
        .ok true :=
    evaluate_eq_ok_iff.mpr ⟨by decide +kernel, by decide +kernel⟩
  have hvalid (ps : List (Var × Bool)) : ∀ k ∈ Model.ofPairs ps, isVariableName k = true :=
    (Model.isValid_iff _).mp (Model.isValid_ofPairs ps)
  refine ⟨?_, (herror _ _).mpr (.inr ⟨hvalid _, _, ⟨?_, ?_, ?_⟩, rfl, rfl⟩), hvalue,
    ((hagree _ _ (hvalid _) (hvalid _) ?_).1 _).mp hvalue⟩
  · have hleftmost : (and (var ⟨"x2", by decide⟩) (or (var .p)
        (var ⟨"x10", by decide⟩))).occurrences.find?
          (fun v => !(Model.ofPairs [(.p, true)]).assigns v) = some ⟨"x2", by decide⟩ := by
      decide +kernel
    rw [valueIn_eq_elim, hleftmost]
    rfl
  · exact mem_vars.mpr (by decide)
  · decide +kernel
  · simp only [mem_vars]
    decide +kernel
  · simp only [mem_vars]
    decide +kernel

end Formula

end PropLogic

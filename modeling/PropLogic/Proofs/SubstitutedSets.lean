import PropLogic.Proofs.Reinterpretation

/-!
# The variables and operators of a substituted formula

What occurs in a formula after a substitution can be told from what occurs in it before, without
looking at the tree.

For variables this is exact.  Every leaf stays in its place, as itself or as its image, so nothing is
lost: the variables are those of the images, and the operators are those of the formula together with
those of the images (`Formula.mem_sets_substituteVariables`).

A template of an operator may drop an operand, and then what occurs in the operand may be gone.
`Formula.operatorsUnder` and `Formula.varsUnder` list what the entries leave in a formula and what
they bring in if nothing is dropped.  More than that never occurs, and all of it does if the
templates of the connectives mention both operands and that of `~` its only one.  What a
template brings in is not replaced again, so keys of the entries may be among it.

Main statements: `Formula.mem_sets_substituteVariables` and
`Formula.sets_substituteOperators_subset`.
-/

namespace PropLogic

namespace Formula

/-! ## Substitution of variables -/

/-- What occurs in the image of a variable: the variable itself if there is no entry for it. -/
theorem mem_occurrences_image_iff {es : List (String × Formula)} {v w : Var} :
    v ∈ ((Substitution.ofLookup es).image w).occurrences ↔
      v ∈ (es.lookup w.name).elim [w] vars := by
  rw [Substitution.image, Substitution.ofLookup]
  cases es.lookup w.name with
  | some h => exact mem_vars.symm
  | none => rfl

/-- The operators of the image of a variable: none if there is no entry for it. -/
theorem mem_operators_image_iff {es : List (String × Formula)} {o : Operator} {w : Var} :
    o ∈ ((Substitution.ofLookup es).image w).operators ↔
      ∃ h, es.lookup w.name = some h ∧ o ∈ h.operators := by
  rw [Substitution.image, Substitution.ofLookup]
  cases es.lookup w.name with
  | some h => simp
  | none => simp [operators_var]

/-- **What occurs after a substitution of variables.**  Entries whose keys are variable names can be
applied to every formula.  The variables of the result are those of the formulas for the variables
that occur, and the variables without an entry.  Its operators are those of the formula and those of
the formulas for the variables that occur; entries for other variables add nothing. -/
theorem mem_sets_substituteVariables (f : Formula) (es : List (String × Formula))
    (hes : ∀ e ∈ es, isVariableName e.1 = true) :
    ∃ g, f.substituteVariables es = .ok g ∧
      (∀ v, v ∈ g.vars ↔ ∃ w ∈ f.vars, v ∈ (es.lookup w.name).elim [w] vars) ∧
      ∀ o, o ∈ g.operators ↔
        o ∈ f.operators ∨ ∃ w ∈ f.vars, ∃ h, es.lookup w.name = some h ∧ o ∈ h.operators := by
  refine ⟨_, f.substituteVariables_eq_ok hes, fun v => ?_, fun o => ?_⟩
  · rw [mem_vars, occurrences_substitute, List.mem_flatMap]
    simp only [mem_vars, mem_occurrences_image_iff]
  · rw [mem_operators_substitute]
    simp only [mem_vars, mem_operators_image_iff]

/-- In `(p->q)` the formulas for `p` and `q` overlap: of `(q&q)` and `F` comes `((q&q)->F)`.  The
variable `q` is brought in for `p` and replaced only where it stood before.  The entry for `z` adds
nothing, neither its variable nor its operator. -/
theorem mem_sets_substituteVariables_overlapping :
    (∀ e ∈ [("p", and (var .q) (var .q)), ("q", const false), ("z", nor (var .p) (var .p))],
      isVariableName e.1 = true) ∧
      (implies (var .p) (var .q)).substituteVariables
          [("p", and (var .q) (var .q)), ("q", const false), ("z", nor (var .p) (var .p))] =
        .ok (implies (and (var .q) (var .q)) (const false)) ∧
      .q ∈ (implies (and (var .q) (var .q)) (const false)).vars ∧
      .p ∉ (implies (and (var .q) (var .q)) (const false)).vars ∧
      .binary .nor ∉ (implies (and (var .q) (var .q)) (const false)).operators := by
  have hes : ∀ e ∈ [("p", and (var .q) (var .q)), ("q", const false), ("z", nor (var .p) (var .p))],
      isVariableName e.1 = true := by decide
  obtain ⟨g, hg, hvars, hoperators⟩ :=
    mem_sets_substituteVariables (implies (var .p) (var .q)) _ hes
  obtain rfl : g = implies (and (var .q) (var .q)) (const false) :=
    Except.ok.inj (hg.symm.trans rfl)
  have hmem : ∀ w ∈ (implies (var .p) (var .q)).vars, w = .p ∨ w = .q := by simp [occurrences]
  refine ⟨hes, hg, (hvars _).mpr ⟨.p, mem_vars.mpr (by decide), mem_vars.mpr (by decide)⟩, ?_, ?_⟩
  · rw [hvars]
    rintro ⟨w, hw, hp⟩
    rcases hmem w hw with rfl | rfl
    · exact absurd (mem_vars.mp hp) (by decide)
    · exact absurd (mem_vars.mp hp) (by decide)
  · rw [hoperators]
    rintro (ho | ⟨w, hw, h, hentry, ho⟩)
    · exact absurd ho (by decide)
    · rcases hmem w hw with rfl | rfl
      · cases hentry
        exact absurd ho (by decide)
      · cases hentry
        exact absurd ho (by decide)

/-! ## Substitution of operators -/

/-- The operators that the entries leave in a formula or bring in: the operators of the entries for
the operators that occur, and the operators without an entry. -/
def operatorsUnder (t : Operator → Option Formula) (f : Formula) : List Operator :=
  f.operators.flatMap fun o => (t o).elim [o] operators

/-- The variables of a formula and those that the entries for its operators do not bind: all of an
entry for a constant, and `q` in the one for `~`. -/
def varsUnder (t : Operator → Option Formula) (f : Formula) : List Var :=
  f.vars ++ f.operators.flatMap fun o =>
    match o with
    | .const _ => (t o).elim [] vars
    | .not => (t o).elim [] fun a => a.vars.filter (· = .q)
    | .binary _ => []

variable {t : OperatorTable} {f : Formula} {o : Operator} {v : Var}

theorem mem_operatorsUnder_iff : o ∈ f.operatorsUnder t.template? ↔
    ∃ o' ∈ f.operators, o ∈ (t.template o').operators := by
  rw [operatorsUnder, List.mem_flatMap]
  refine exists_congr fun o' => and_congr_right fun _ => ?_
  rw [OperatorTable.template]
  cases t.template? o' with
  | some a => rfl
  | none => rw [Option.elim_none, List.mem_singleton, Option.getD_none,
      Operator.mem_operators_ownTemplate]

theorem mem_varsUnder_iff : v ∈ f.varsUnder t.template? ↔
    v ∈ f.vars ∨ ∃ o ∈ f.operators, v ∈ t.unbound o := by
  rw [varsUnder, List.mem_append, List.mem_flatMap]
  refine or_congr_right (exists_congr fun o => and_congr_right fun _ => ?_)
  rw [OperatorTable.mem_unbound_iff_entry]
  cases o with
  | const b => cases t.template? (.const b) <;> simp [Operator.arity]
  | not => cases t.template? .not <;> simp [Operator.arity]
  | binary c => simp [Operator.arity]

/-- **What occurs after a substitution of operators.**  Entries with templates over `p` and `q` can
be applied to every formula.  In the result occur no other operators than those of the templates for
the operators that occur and the operators without a template, and no other variables than those of
the formula, those of the templates for its constants, and `q` if the formula has a `~` whose template
has `q`.  All of these occur if the templates for the connectives of the formula mention both `p` and
`q` and that for a `~` in it mentions `p`. -/
theorem sets_substituteOperators_subset (f : Formula) (ts : List (Operator × Formula))
    (hts : ∀ e ∈ ts, ∀ v ∈ e.2.vars, v = .p ∨ v = .q) :
    ∃ g, f.substituteOperators ts = .ok g ∧
      g.operators ⊆ f.operatorsUnder (fun o => ts.lookup o) ∧
      g.vars ⊆ f.varsUnder (fun o => ts.lookup o) ∧
      ((∀ c, .binary c ∈ f.operators →
          ∀ a, ts.lookup (.binary c) = some a → .p ∈ a.vars ∧ .q ∈ a.vars) →
        (.not ∈ f.operators → ∀ a, ts.lookup .not = some a → .p ∈ a.vars) →
          (∀ o, o ∈ g.operators ↔ o ∈ f.operatorsUnder (fun o => ts.lookup o)) ∧
            ∀ v, v ∈ g.vars ↔ v ∈ f.varsUnder (fun o => ts.lookup o)) := by
  obtain ⟨t, ht, hexpand⟩ := OperatorTable.exists_substituteOperators_eq_ok fun e he =>
    isTemplate_iff.mpr (hts e he)
  simp only [← ht]
  refine ⟨f.expand t, hexpand f, fun o ho => ?_, fun v hv => ?_, fun hbinary hnot => ?_⟩
  · exact mem_operatorsUnder_iff.mpr (OperatorTable.exists_of_mem_operators_expand ho)
  · rw [mem_vars] at hv
    rw [mem_varsUnder_iff, mem_vars]
    exact OperatorTable.of_mem_occurrences_expand hv
  · have hkeeps : ∀ o ∈ f.operators, t.KeepsOperands o := by
      intro o ho
      cases o with
      | const b => exact OperatorTable.keepsOperands_const
      | not => exact OperatorTable.keepsOperands_not_iff.mpr (hnot ho)
      | binary c => exact OperatorTable.keepsOperands_binary_iff.mpr (hbinary c ho)
    refine ⟨fun o => ?_, fun v => ?_⟩
    · rw [OperatorTable.mem_operators_expand_iff hkeeps, mem_operatorsUnder_iff]
    · rw [mem_vars, OperatorTable.mem_occurrences_expand_iff hkeeps, mem_varsUnder_iff, mem_vars]

/-- In `(~T<->F)` the template of `T` brings in a `~`.  That is a key, and it stays; so does the `q`
that `~` does not bind. -/
theorem sets_substituteOperators_subset_unbound :
    (∀ e ∈ [(Operator.not, and (var .p) (var .q)), (.const true, or (var .p) (not (var .p))),
        (.binary .iff, nor (var .q) (var .p))], ∀ v ∈ e.2.vars, v = .p ∨ v = .q) ∧
      (iff (not (const true)) (const false)).substituteOperators
          [(.not, and (var .p) (var .q)), (.const true, or (var .p) (not (var .p))),
            (.binary .iff, nor (var .q) (var .p))] =
        .ok (nor (const false) (and (or (var .p) (not (var .p))) (var .q))) ∧
      (∀ o, o ∈ (nor (const false) (and (or (var .p) (not (var .p))) (var .q))).operators ↔
        o ∈ [.not, .binary .or, .const false, .binary .and, .binary .nor]) ∧
      .p ∈ (nor (const false) (and (or (var .p) (not (var .p))) (var .q))).vars ∧
      .q ∈ (nor (const false) (and (or (var .p) (not (var .p))) (var .q))).vars := by
  have htemplates : ∀ e ∈ [(Operator.not, and (var .p) (var .q)),
      (.const true, or (var .p) (not (var .p))), (.binary .iff, nor (var .q) (var .p))],
      e.2.isTemplate = true := by decide
  have hts := fun e he => isTemplate_iff.mp (htemplates e he)
  have hbinary : ∀ c, .binary c ∈ (iff (not (const true)) (const false)).operators →
      ∀ a, [(Operator.not, and (var .p) (var .q)), (.const true, or (var .p) (not (var .p))),
        (.binary .iff, nor (var .q) (var .p))].lookup (.binary c) = some a →
          .p ∈ a.vars ∧ .q ∈ a.vars := by
    intro c hc a ha
    obtain rfl : c = .iff := by
      revert hc
      cases c <;> decide
    cases ha
    exact ⟨mem_vars.mpr (by decide), mem_vars.mpr (by decide)⟩
  obtain ⟨g, hg, -, -, hall⟩ :=
    sets_substituteOperators_subset (iff (not (const true)) (const false)) _ hts
  obtain rfl : g = nor (const false) (and (or (var .p) (not (var .p))) (var .q)) :=
    Except.ok.inj (hg.symm.trans rfl)
  obtain ⟨hoperators, hvars⟩ := hall hbinary fun _ a ha => by
    cases ha
    exact mem_vars.mpr (by decide)
  refine ⟨hts, hg, hoperators, (hvars .p).mpr ?_, (hvars .q).mpr ?_⟩
  · refine List.mem_append_right _ (List.mem_flatMap.mpr ⟨.const true, by decide, ?_⟩)
    show .p ∈ (or (var .p) (not (var .p))).vars
    exact mem_vars.mpr List.mem_cons_self
  · refine List.mem_append_right _ (List.mem_flatMap.mpr ⟨.not, by decide, ?_⟩)
    show .q ∈ (and (var .p) (var .q)).vars.filter (· = .q)
    exact List.mem_filter.mpr ⟨mem_vars.mpr (by decide), by decide⟩

end Formula

end PropLogic

import PropLogic.Proofs.NormalForms
import PropLogic.Proofs.StandardNotation

/-!
# The normal forms of truth tables are canonical

Every formula has a normal form: the one that is made from its truth table over some names.  Two
ways to compare formulas meet here.  The check for equivalence goes through the rows over the
variables that occur; the forms are compared as texts.  They agree since both are the same question
about truth tables (`Formula.table_eq_iff`): a valuation is met in some row (`Model.exists_row`), so
a formula with the right value in every row has it everywhere, also if the rows have no clause and
the form is the one taken instead.

Main statement: `NormalForm.ofValues_truthValuesOver_canonical`.
-/

namespace PropLogic

/-- **Every valuation agrees with a row** on the names. -/
theorem Model.exists_row (names : List Var) (ρ : Var → Bool) :
    ∃ r < rowCount names.length, ∀ v ∈ names, ρ v = (row names r).valuation v := by
  obtain ⟨r, hr, hrow⟩ := List.mem_map.mp
    (mem_rows_iff.mpr (isOver_ofValuation names ρ))
  refine ⟨r, List.mem_range.mp hr, fun v hv => ?_⟩
  rw [hrow, valuation_ofValuation hv]

namespace Formula

/-- The truth values of a formula in the rows over the names. -/
def table (names : List Var) (f : Formula) : List Bool :=
  (Model.rows names).map fun m => f.eval m.valuation

variable {names : List Var} {f g : Formula}

theorem getElem?_table {r : Nat} (hr : r < rowCount names.length) :
    (f.table names)[r]? = some (f.eval (Model.row names r).valuation) := by
  rw [table, List.getElem?_map, Model.getElem?_rows_of_lt hr, Option.map_some]

/-- **Equal truth tables are those of equivalent formulas.** -/
theorem table_eq_iff (hf : ∀ v ∈ f.occurrences, v ∈ names) (hg : ∀ v ∈ g.occurrences, v ∈ names) :
    f.table names = g.table names ↔ f.Equivalent g := by
  constructor
  · intro h ρ
    obtain ⟨r, hr, hrow⟩ := Model.exists_row names ρ
    rw [eval_congr fun v hv => hrow v (hf v hv), eval_congr fun v hv => hrow v (hg v hv)]
    have hvalue := getElem?_table (f := f) hr
    rw [h, getElem?_table hr] at hvalue
    exact (Option.some.inj hvalue).symm
  · exact fun h => List.map_congr_left fun m _ => h m.valuation

end Formula

namespace NormalForm

variable {k : NormalForm} {names : List Var} {f c : Formula}

/-- **A form with the truth table of a formula is equivalent to it.** -/
theorem Represents.equivalent (hc : k.Represents names (f.table names) c)
    (hf : ∀ v ∈ f.occurrences, v ∈ names) : c.Equivalent f := by
  intro ρ
  have hsign : c.eval ρ = k.sign ↔ f.eval ρ = k.sign := by
    rw [hc.eval_eq_sign_iff]
    constructor
    · rintro ⟨r, hr, hvalue, hrow⟩
      rw [Formula.getElem?_table hr] at hvalue
      rw [Formula.eval_congr fun v hv => hrow v (hf v hv)]
      exact Option.some.inj hvalue
    · intro hvalue
      obtain ⟨r, hr, hrow⟩ := Model.exists_row names ρ
      refine ⟨r, hr, ?_, hrow⟩
      rw [Formula.getElem?_table hr, ← hvalue, Formula.eval_congr fun v hv => hrow v (hf v hv)]
  revert hsign
  cases c.eval ρ <;> cases f.eval ρ <;> cases k.sign <;> decide

/-- Forms of one kind are the same exactly if they are made from equivalent formulas. -/
theorem Represents.eq_iff_equivalent {g c' : Formula}
    (hc : k.Represents names (f.table names) c) (hc' : k.Represents names (g.table names) c')
    (hvalues : k.ofValues (names.map Var.name) (f.table names) = .ok c)
    (hvalues' : k.ofValues (names.map Var.name) (g.table names) = .ok c')
    (hf : ∀ v ∈ f.occurrences, v ∈ names) (hg : ∀ v ∈ g.occurrences, v ∈ names) :
    c = c' ↔ f.Equivalent g := by
  constructor
  · rintro rfl ρ
    rw [← hc.equivalent hf ρ, hc'.equivalent hg ρ]
  · intro h
    rw [(Formula.table_eq_iff hf hg).mpr h, hvalues'] at hvalues
    exact (Except.ok.inj hvalues).symm

/-- **The normal forms of truth tables are canonical.**  Over every non-empty list of fewer than 64
names that includes the variables of two formulas, the formulas have truth tables and each table has
a form.  The form is equivalent to its formula, and the two forms are the same text exactly if the
check finds the formulas equivalent. -/
theorem ofValues_truthValuesOver_canonical (names : List String) (nonempty : names ≠ [])
    (valid : ∀ s ∈ names, isVariableName s = true) (few : names.length < 64) (f g : Formula)
    (hf : ∀ v ∈ f.vars, v.name ∈ names) (hg : ∀ v ∈ g.vars, v.name ∈ names) :
    ∃ (e : Enumeration) (bs bs' : List Bool), Enumeration.ofNames names = .ok e ∧
      f.truthValuesOver e = .ok bs ∧ g.truthValuesOver e = .ok bs' ∧
      ∀ k : NormalForm, ∃ c c' : Formula,
        k.ofValues names bs = .ok c ∧ k.ofValues names bs' = .ok c' ∧
        c.isEquivalent f = .ok true ∧ f.isEquivalent g = .ok (c == c') := by
  classical
  lift names to List Var using valid with vs
  rw [List.length_map] at few
  have hvs : vs ≠ [] := fun h => nonempty (h ▸ rfl)
  have hfvs : ∀ v ∈ f.occurrences, v ∈ vs := fun v hv =>
    Var.name_mem_map.mp (hf v (Formula.mem_vars.mpr hv))
  have hgvs : ∀ v ∈ g.occurrences, v ∈ vs := fun v hv =>
    Var.name_mem_map.mp (hg v (Formula.mem_vars.mpr hv))
  obtain ⟨e, he, hrest⟩ := Enumeration.exists_ofVars_eq_ok few
  refine ⟨e, f.table vs, g.table vs, ?_, Formula.truthValuesOver_eq_ok hfvs hrest,
    Formula.truthValuesOver_eq_ok hgvs hrest, fun k => ?_⟩
  · rw [Enumeration.ofNames_map_name, he]
  · obtain ⟨c, hvalues, hc⟩ := exists_ofValues_eq_ok k hvs few (f.table vs)
    obtain ⟨c', hvalues', hc'⟩ := exists_ofValues_eq_ok k hvs few (g.table vs)
    have hiff := hc.eq_iff_equivalent hc' hvalues hvalues' hfvs hgvs
    refine ⟨c, c', hvalues, hvalues', ?_, ?_⟩
    · rw [Formula.isEquivalent_eq_ok (Formula.length_union_lt_of_mem hc.mem_names hfvs few),
        decide_eq_true (hc.equivalent hfvs)]
    · rw [Formula.isEquivalent_eq_ok (Formula.length_union_lt_of_mem hfvs hgvs few),
        Except.ok.injEq, Bool.eq_iff_iff, decide_eq_true_iff, beq_iff_eq, hiff]

/-- Over `q` and `p` the contradictions `(p&~p)` and `F` have the same forms, though one does without
variables. -/
theorem ofValues_truthValuesOver_canonical_contradictions :
    ∃ (e : Enumeration) (bs bs' : List Bool), Enumeration.ofNames ["q", "p"] = .ok e ∧
      (Formula.and (.var .p) (.not (.var .p))).truthValuesOver e = .ok bs ∧
      (Formula.const false).truthValuesOver e = .ok bs' ∧
      ∀ k : NormalForm, ∃ c : Formula,
        k.ofValues ["q", "p"] bs = .ok c ∧ k.ofValues ["q", "p"] bs' = .ok c ∧
        c.isEquivalent (.and (.var .p) (.not (.var .p))) = .ok true := by
  classical
  have hnames : ∀ v ∈ (Formula.and (.var .p) (.not (.var .p))).occurrences,
      v.name ∈ ["q", "p"] := by decide
  obtain ⟨e, bs, bs', he, hbs, hbs', hforms⟩ := ofValues_truthValuesOver_canonical ["q", "p"]
    (by decide) (by decide) (by decide) (.and (.var .p) (.not (.var .p))) (.const false)
    (fun v hv => hnames v (Formula.mem_vars.mp hv))
    (fun v hv => absurd (Formula.mem_vars.mp hv) List.not_mem_nil)
  refine ⟨e, bs, bs', he, hbs, hbs', fun k => ?_⟩
  obtain ⟨c, c', hvalues, hvalues', hequivalent, hcheck⟩ := hforms k
  have few : ((Formula.and (.var .p) (.not (.var .p))).vars ∪ (Formula.const false).vars).length <
      64 := Formula.length_union_lt_of_occurrences (by decide)
  have hfalse : (Formula.and (.var .p) (.not (.var .p))).Equivalent (.const false) :=
    fun ρ => by simp [Formula.eval, Connective.apply]
  rw [Formula.isEquivalent_eq_ok few, decide_eq_true hfalse, Except.ok.injEq, eq_comm,
    beq_iff_eq] at hcheck
  obtain rfl : c = c' := hcheck
  exact ⟨c, hvalues, hvalues', hequivalent⟩

end NormalForm

end PropLogic

import PropLogic.Proofs.Fusion

/-!
# Reducing an instance of a formula

An instance of a formula is what a substitution makes of it.  Reduction to a basis is one pass with
the table of the basis, so it commutes with substitution as any expansion does: an instance is
reduced by reducing the formula and what is put in (`Basis.reduce_substitute`).  What the table
leaves unbound is the `p` in which most bases express constants.  A substitution for `p` would get
hold of it if it came after the reduction, so there must be none unless the formula has no constants
or the basis has one itself.

Main statement: `Basis.reduce_substituteVariables`.
-/

namespace PropLogic

namespace OperatorTable

variable {s t : OperatorTable} {vs : List Var}

/-- Fusing with a table that brings in no variables changes nothing about those that come in. -/
theorem Introduces.fuse (hs : s.Introduces vs) (ht : t.Introduces []) :
    (s.fuse t).Introduces vs := by
  have hoccurs : ∀ o v,
      v ∈ ((s.fuse t).template o).occurrences ↔ v ∈ (s.template o).occurrences := fun o v => by
    rw [template_fuse, ht.mem_occurrences_expand_iff]
    exact or_iff_left fun h => List.not_mem_nil h.1
  constructor
  · exact fun o v hv => (hoccurs o v).mpr (hs.keepsOperands o v hv)
  · intro o v
    rw [← hs.mem_unbound_iff, OperatorTable.mem_unbound_iff, OperatorTable.mem_unbound_iff, hoccurs]

end OperatorTable

namespace Basis

open OperatorTable

/-- The table of a basis brings in the variables in which the basis expresses constants. -/
theorem table_introduces (b : Basis) : b.table.Introduces b.constantVars := by
  have hnotAnd := intoNotAndOr_introduces.fuse orIntoNotAnd_introduces
  cases b with
  | notAndOr => exact intoNotAndOr_introduces
  | notAnd => exact hnotAnd
  | nand => exact hnotAnd.fuse notAndIntoNand_introduces
  | impliesNot => exact intoImpliesNot_introduces
  | impliesFalse => exact intoImpliesNotFalse_introduces.fuse notIntoImpliesFalse_introduces

/-- No basis expresses constants in other variables than `p`, and the one with a constant does
without. -/
theorem ne_and_eq_of_mem_constantVars {b : Basis} {v : Var} (hv : v ∈ b.constantVars) :
    b ≠ .impliesFalse ∧ v = .p := by
  cases b with
  | impliesFalse => exact absurd hv List.not_mem_nil
  | _ => exact ⟨nofun, List.mem_singleton.mp hv⟩

/-- **An instance is reduced by reducing the formula and what is put in,** if the substitution keeps
off the variables in which constants of the formula are expressed. -/
theorem reduce_substitute {b : Basis} {σ : Substitution} {f : Formula}
    (h : (∃ x, .const x ∈ f.operators) → ∀ v ∈ b.constantVars, σ v = none) :
    b.reduce (f.substitute σ) = (b.reduce f).substitute fun v => (σ v).map b.reduce := by
  have hunbound : ∀ o ∈ f.operators, ∀ v ∈ b.table.unbound o, σ v = none := by
    intro o ho v hv
    obtain ⟨harity, hconstant⟩ := (b.table_introduces.mem_unbound_iff o v).mp hv
    cases o with
    | const x => exact h ⟨x, ho⟩ v hconstant
    | not => cases harity
    | binary c => cases harity
  rw [reduce_eq_expand, Formula.expand_substitute hunbound, ← reduce_eq_expand]
  congr 1
  funext v
  exact congrArg (Option.map · (σ v)) (funext fun g => (b.reduce_eq_expand g).symm)

/-- The condition is needed: `T` has no variables, but its reduction `(p|~p)` has one. -/
example : (notAndOr.reduce (.const true)).substitute
    (fun v => if v = .p then some (.var .q) else none) ≠ notAndOr.reduce (.const true) := by
  decide

/-- **Reduction commutes with substitution.**  Let the entries have variable names for keys, and let
the basis have a constant, or `p` be no key, or the formula have no constants.  Then reducing what
the entries make of the formula is applying the entries to its reduction, with their formulas
reduced. -/
theorem reduce_substituteVariables (b : Basis) (f : Formula) (es : List (String × Formula))
    (hes : ∀ e ∈ es, isVariableName e.1 = true)
    (h : b = .impliesFalse ∨ (∀ e ∈ es, e.1 ≠ "p") ∨ ∀ x, .const x ∉ f.operators) :
    ∃ g, f.substituteVariables es = .ok g ∧
      (b.reduce f).substituteVariables (es.map fun e => (e.1, b.reduce e.2)) =
        .ok (b.reduce g) := by
  have hmap : ∀ e ∈ es.map (fun e => (e.1, b.reduce e.2)), isVariableName e.1 = true := by
    rw [List.forall_mem_map]
    exact hes
  refine ⟨_, f.substituteVariables_eq_ok hes, ?_⟩
  rw [Formula.substituteVariables_eq_ok _ hmap, reduce_substitute]
  · congr 2
    funext v
    exact lookup_map_entries b.reduce es v.name
  · rintro ⟨x, hx⟩ v hv
    obtain ⟨hb, rfl⟩ := ne_and_eq_of_mem_constantVars hv
    rcases h with h | h | h
    · exact absurd h hb
    · rw [Substitution.ofLookup, List.lookup_eq_none_iff]
      exact fun e he => bne_iff_ne.mpr (h e he).symm
    · exact absurd hx (h x)

/-- Reducing `(T->q)` brings in a `p`, and another one is put in for `q`; neither is replaced. -/
theorem reduce_substituteVariables_constant :
    (∀ e ∈ [("q", Formula.implies (.var .p) (.var .q))], isVariableName e.1 = true) ∧
      (∀ e ∈ [("q", Formula.implies (.var .p) (.var .q))], e.1 ≠ "p") ∧
      (Formula.implies (.const true) (.var .q)).substituteVariables
          [("q", .implies (.var .p) (.var .q))] =
        .ok (.implies (.const true) (.implies (.var .p) (.var .q))) ∧
      (Formula.or (.not (.or (.var .p) (.not (.var .p)))) (.var .q)).substituteVariables
          [("q", .or (.not (.var .p)) (.var .q))] =
        .ok (notAndOr.reduce (.implies (.const true) (.implies (.var .p) (.var .q)))) := by
  have hes : ∀ e ∈ [("q", Formula.implies (.var .p) (.var .q))], isVariableName e.1 = true := by
    decide
  have hkeys : ∀ e ∈ [("q", Formula.implies (.var .p) (.var .q))], e.1 ≠ "p" := by decide
  obtain ⟨g, hg, hreduced⟩ := reduce_substituteVariables .notAndOr
    (.implies (.const true) (.var .q)) _ hes (.inr (.inl hkeys))
  obtain rfl := Except.ok.inj (hg.symm.trans rfl)
  exact ⟨hes, hkeys, hg, hreduced⟩

end Basis

end PropLogic

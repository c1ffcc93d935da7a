import PropLogic.Proofs.Composition
import PropLogic.Proofs.ExhaustionLimits

/-!
# Substituting equivalent formulas

Substitutions whose images are equivalent, variable by variable, make equivalent formulas of a
formula (`Formula.equivalent_substitute`): under a valuation the images have the same values, and
these are all that the formula is read in.  The images may have different variables.  The checks of
the images and that of the results then go through rows over different names, and meet in the
notion of equivalence alone.  A check that says yes says it of all valuations, and no bound on the
variables is needed for this, since it refuses too many (`Formula.equivalent_of_isEquivalent`).

Main statement: `Formula.isEquivalent_substituteVariables`.
-/

namespace PropLogic

namespace Formula

variable {f g : Formula} {σ τ : Substitution}

/-- **Equivalent images make equivalent formulas.** -/
theorem equivalent_substitute (h : ∀ v ∈ f.occurrences, (σ.image v).Equivalent (τ.image v)) :
    (f.substitute σ).Equivalent (f.substitute τ) := by
  intro ρ
  rw [eval_substitute, eval_substitute]
  exact eval_congr fun v hv => h v hv ρ

/-- The check that finds two formulas equivalent has not refused them for their variables. -/
theorem equivalent_of_isEquivalent (h : f.isEquivalent g = .ok true) : f.Equivalent g := by
  by_cases few : (f.vars ∪ g.vars).length < 64
  · exact (isEquivalent_eq_ok_true_iff few).mp h
  · rw [(limited_isEquivalent f g).refuses (Nat.not_lt.mp few)] at h
    cases h

end Formula

namespace Substitution

variable {es ts : List (String × Formula)} {v : Var}

/-- Entries with the same keys replace the same variables, so their images are equivalent where the
formulas for a key are. -/
theorem equivalent_image_ofLookup (hkeys : ∀ s, s ∈ es.map Prod.fst ↔ s ∈ ts.map Prod.fst)
    (h : ∀ g k, es.lookup v.name = some g → ts.lookup v.name = some k → g.Equivalent k) :
    ((ofLookup es).image v).Equivalent ((ofLookup ts).image v) := by
  have hboth := hkeys v.name
  rw [← isSome_lookup_iff, ← isSome_lookup_iff] at hboth
  unfold image ofLookup
  cases hg : es.lookup v.name with
  | some g =>
    rw [hg] at hboth
    obtain ⟨k, hk⟩ := Option.isSome_iff_exists.mp (hboth.mp rfl)
    rw [hk]
    exact h g k hg hk
  | none =>
    have hnone : ts.lookup v.name = none := by
      rw [← Option.not_isSome_iff_eq_none, ← hboth, hg]
      simp
    rw [hnone]
    exact fun _ => rfl

end Substitution

namespace Formula

/-- **Equivalents may be substituted.**  Two lists of entries with the same variable names as keys
can be applied to every formula.  If the check finds the two formulas for each variable that occurs
to be equivalent, it finds the results equivalent, as long as these have fewer than 64 variables
together; what the lists say of other variables does not matter. -/
theorem isEquivalent_substituteVariables (f : Formula) (es ts : List (String × Formula))
    (hes : ∀ e ∈ es, isVariableName e.1 = true)
    (hkeys : ∀ s, s ∈ es.map Prod.fst ↔ s ∈ ts.map Prod.fst)
    (h : ∀ v ∈ f.vars, ∀ g k, es.lookup v.name = some g → ts.lookup v.name = some k →
      g.isEquivalent k = .ok true) :
    ∃ f₁ f₂, f.substituteVariables es = .ok f₁ ∧ f.substituteVariables ts = .ok f₂ ∧
      ((f₁.vars ∪ f₂.vars).length < 64 → f₁.isEquivalent f₂ = .ok true) := by
  have hts : ∀ e ∈ ts, isVariableName e.1 = true := fun e he => by
    obtain ⟨e', he', hname⟩ := List.mem_map.mp ((hkeys e.1).mpr (List.mem_map_of_mem he))
    exact hname ▸ hes e' he'
  refine ⟨_, _, substituteVariables_eq_ok f hes, substituteVariables_eq_ok f hts, fun few => ?_⟩
  rw [isEquivalent_eq_ok_true_iff few]
  refine equivalent_substitute fun v hv => Substitution.equivalent_image_ofLookup hkeys ?_
  exact fun g k hg hk => equivalent_of_isEquivalent (h v (mem_vars.mpr hv) g k hg hk)

/-- With `(q&(p|~p))` or with `q` for `p`, which are equivalent over different variables, `(p->q)`
becomes `((q&(p|~p))->q)` or `(q->q)`.  The formulas for `x` are not equivalent, but `x` does not
occur.  With `T` for `p`, which is not equivalent to `q`, the result is not, either. -/
theorem isEquivalent_substituteVariables_padded :
    (∀ e ∈ [("p", and (var .q) (or (var .p) (not (var .p)))), ("x", const true)],
        isVariableName e.1 = true) ∧
      (∀ s, s ∈ [("p", and (var .q) (or (var .p) (not (var .p)))), ("x", const true)].map Prod.fst ↔
        s ∈ [("x", const false), ("p", var .q)].map Prod.fst) ∧
      (and (var .q) (or (var .p) (not (var .p)))).isEquivalent (var .q) = .ok true ∧
      (implies (var .p) (var .q)).substituteVariables
          [("p", and (var .q) (or (var .p) (not (var .p)))), ("x", const true)] =
        .ok (implies (and (var .q) (or (var .p) (not (var .p)))) (var .q)) ∧
      (implies (var .p) (var .q)).substituteVariables [("x", const false), ("p", var .q)] =
        .ok (implies (var .q) (var .q)) ∧
      (implies (and (var .q) (or (var .p) (not (var .p)))) (var .q)).isEquivalent
        (implies (var .q) (var .q)) = .ok true ∧
      (var .q).isEquivalent (const true) = .ok false ∧
      (implies (var .q) (var .q)).isEquivalent (implies (const true) (var .q)) = .ok false := by
  have hes : ∀ e ∈ [("p", and (var .q) (or (var .p) (not (var .p)))), ("x", const true)],
      isVariableName e.1 = true := by decide
  have hkeys : ∀ s, s ∈ [("p", and (var .q) (or (var .p) (not (var .p)))),
      ("x", const true)].map Prod.fst ↔ s ∈ [("x", const false), ("p", var .q)].map Prod.fst :=
    fun s => by simp [or_comm]
  have himages : (and (var .q) (or (var .p) (not (var .p)))).isEquivalent (var .q) = .ok true := by
    rw [isEquivalent_eq_ok_true_iff (length_union_lt_of_occurrences (by decide))]
    exact fun ρ => by simp [eval, Connective.apply]
  have hdiffer : (var .q).isEquivalent (const true) = .ok false := by
    rw [isEquivalent_eq_ok_false_iff (length_union_lt_of_occurrences (by decide))]
    exact fun h => absurd (h fun _ => false) (by decide)
  have hresults :
      (implies (var .q) (var .q)).isEquivalent (implies (const true) (var .q)) = .ok false := by
    rw [isEquivalent_eq_ok_false_iff (length_union_lt_of_occurrences (by decide))]
    exact fun h => absurd (h fun _ => false) (by decide)
  obtain ⟨f₁, f₂, hf₁, hf₂, hequivalent⟩ := isEquivalent_substituteVariables
    (implies (var .p) (var .q)) _ _ hes hkeys fun v hv g k hg hk => by
      have hv : v = .p ∨ v = .q := by simpa [occurrences] using hv
      rcases hv with rfl | rfl
      · obtain rfl := Option.some.inj (hg.symm.trans rfl)
        obtain rfl := Option.some.inj (hk.symm.trans rfl)
        exact himages
      · cases hg.symm.trans (rfl : _ = none)
  obtain rfl := Except.ok.inj (hf₁.symm.trans rfl)
  obtain rfl := Except.ok.inj (hf₂.symm.trans rfl)
  exact ⟨hes, hkeys, himages, hf₁, hf₂, hequivalent (length_union_lt_of_occurrences (by decide)),
    hdiffer, hresults⟩

end Formula

end PropLogic

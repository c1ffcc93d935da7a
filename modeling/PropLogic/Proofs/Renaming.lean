import PropLogic.Proofs.Composition
import PropLogic.Proofs.ModelCount
import PropLogic.Proofs.RuleInstances

/-!
# Renaming variables

A renaming gives distinct variables distinct names.  Its entries (`Substitution.renameEntries`) are
applied at once, so that a swap is one, and the entries with both sides exchanged undo it.  A
formula and its renamed form are thus instances of each other, which settles what is said of all
valuations (`Formula.tautology_substitute_iff`, `Formula.satisfiable_substitute_iff`).  Counting
takes more: the renamed variables ascend in another order, so that the rows are permuted.
`Assignment.relabel` is the bijection between the assignments to the old names and those to the new
ones.

Main statement: `Formula.checks_rename`.
-/

namespace PropLogic

/-! ## Entries of a renaming -/

namespace Substitution

variable {vs : List Var} {before after : Var → Var} {v : Var}

/-- The entries that put the variable `after v` for `before v`, for every listed `v`. -/
def renameEntries (vs : List Var) (before after : Var → Var) : List (String × Formula) :=
  vs.map fun v => ((before v).name, .var (after v))

theorem isVariableName_of_mem_renameEntries :
    ∀ e ∈ renameEntries vs before after, isVariableName e.1 = true := by
  intro e he
  obtain ⟨v, -, rfl⟩ := List.mem_map.mp he
  exact (before v).isName

/-- If the replaced variables are distinct, each has its own entry. -/
theorem image_renameEntries (before after : Var → Var) (hvs : vs.Nodup)
    (hbefore : Set.InjOn before {v | v ∈ vs}) (hv : v ∈ vs) :
    (ofLookup (renameEntries vs before after)).image (before v) = .var (after v) := by
  have hkeys : ((renameEntries vs before after).map Prod.fst).Nodup := by
    rw [renameEntries, List.map_map]
    exact hvs.map_on fun v hv w hw h => hbefore hv hw (Var.ext h)
  have hlookup : (renameEntries vs before after).lookup (before v).name = some (.var (after v)) :=
    lookup_eq_some_of_mem hkeys (List.mem_map_of_mem hv)
  rw [image, ofLookup, hlookup, Option.getD_some]

end Substitution

/-! ## Other names for the same variables -/

namespace Assignment

variable {vs : List Var} {φ ψ : Var → String}

/-- Distinct names stand for the variables that have them. -/
noncomputable def named (hφ : Set.InjOn φ {v | v ∈ vs}) :
    {v // v ∈ vs} ≃ {s // s ∈ vs.map φ} :=
  Equiv.ofBijective (fun v => ⟨φ v, List.mem_map_of_mem v.2⟩) <| by
    constructor
    · intro v w h
      exact Subtype.ext (hφ v.2 w.2 (congrArg Subtype.val h))
    · rintro ⟨s, hs⟩
      obtain ⟨v, hv, rfl⟩ := List.mem_map.mp hs
      exact ⟨⟨v, hv⟩, rfl⟩

/-- The assignment that gives each variable its value under another name. -/
noncomputable def relabel (hφ : Set.InjOn φ {v | v ∈ vs}) (hψ : Set.InjOn ψ {v | v ∈ vs}) :
    Assignment (vs.map φ) ≃ Assignment (vs.map ψ) :=
  ((named hφ).symm.trans (named hψ)).arrowCongr (Equiv.refl Bool)

theorem relabel_apply (hφ : Set.InjOn φ {v | v ∈ vs}) (hψ : Set.InjOn ψ {v | v ∈ vs})
    (a : Assignment (vs.map φ)) {v : Var} (hv : v ∈ vs) :
    relabel hφ hψ a ⟨ψ v, List.mem_map_of_mem hv⟩ = a ⟨φ v, List.mem_map_of_mem hv⟩ := by
  have hnamed : (named hψ).symm ⟨ψ v, List.mem_map_of_mem hv⟩ = ⟨v, hv⟩ :=
    (named hψ).symm_apply_apply ⟨v, hv⟩
  rw [relabel, Equiv.arrowCongr_apply, Function.comp_apply, Function.comp_apply,
    Equiv.symm_trans_apply, Equiv.symm_symm, hnamed]
  rfl

end Assignment

namespace Formula

open Substitution

variable {f : Formula} {σ τ : Substitution} {π : Var → Var}

/-! ## Formulas that are instances of each other -/

/-- An instance is satisfiable only if the formula is. -/
theorem Satisfiable.of_substitute (h : (f.substitute σ).Satisfiable) : f.Satisfiable := by
  obtain ⟨ρ, hρ⟩ := h
  rw [eval_substitute] at hρ
  exact ⟨_, hρ⟩

/-- A substitution that can be undone keeps what is and what is not a tautology. -/
theorem tautology_substitute_iff (h : (f.substitute σ).substitute τ = f) :
    (f.substitute σ).Tautology ↔ f.Tautology :=
  ⟨fun hg => h ▸ hg.substitute τ, fun hf => hf.substitute σ⟩

theorem satisfiable_substitute_iff (h : (f.substitute σ).substitute τ = f) :
    (f.substitute σ).Satisfiable ↔ f.Satisfiable :=
  ⟨Satisfiable.of_substitute, fun hf => (h.symm ▸ hf : Satisfiable _).of_substitute⟩

/-! ## The renamed formula -/

/-- The formula with every variable renamed. -/
def rename (π : Var → Var) (f : Formula) : Formula :=
  f.substitute fun v => some (.var (π v))

theorem eval_rename (π : Var → Var) (f : Formula) (ρ : Var → Bool) :
    (f.rename π).eval ρ = f.eval fun v => ρ (π v) :=
  eval_substitute _ f ρ

theorem occurrences_rename (π : Var → Var) (f : Formula) :
    (f.rename π).occurrences = f.occurrences.map π := by
  rw [rename, occurrences_substitute, List.map_eq_flatMap]
  rfl

/-- The entries for the variables of a formula rename it. -/
theorem substitute_renameEntries (π : Var → Var) (f : Formula) :
    f.substitute (.ofLookup (renameEntries f.vars id π)) = f.rename π :=
  substitute_congr fun _ hv =>
    image_renameEntries id π (vars_nodup f) (Set.injOn_id _) (mem_vars.mpr hv)

/-- **A renaming is undone** by the entries with both sides exchanged. -/
theorem substitute_renameEntries_back (hπ : Set.InjOn π {v | v ∈ f.vars}) :
    (f.rename π).substitute (.ofLookup (renameEntries f.vars π id)) = f := by
  rw [rename, substitute_substitute]
  refine substitute_eq_self_of_image fun v hv => ?_
  rw [image_andThen, image, Option.getD_some, substitute_var]
  exact image_renameEntries π id (vars_nodup f) hπ (mem_vars.mpr hv)

theorem mem_vars_rename {w : Var} : w ∈ (f.rename π).vars ↔ ∃ v ∈ f.vars, π v = w := by
  simp only [mem_vars, occurrences_rename, List.mem_map]

/-- A renaming brings in no more variables. -/
theorem length_vars_rename_le (π : Var → Var) (f : Formula) :
    (f.rename π).vars.length ≤ f.vars.length := by
  refine (length_vars_le fun w hw => ?_).trans_eq (List.length_map π)
  exact List.mem_map.mpr (mem_vars_rename.mp hw)

/-- **The count is that of the renamed formula** over the renamed variables. -/
theorem countModels_rename (few : f.vars.length < 64) (hπ : Set.InjOn π {v | v ∈ f.vars}) :
    (f.rename π).countModels (f.vars.map fun v => (π v).name) =
      f.countModels (f.vars.map Var.name) := by
  have fewRenamed := Nat.lt_of_le_of_lt (length_vars_rename_le π f) few
  have hnames : ∀ v ∈ f.vars, v.name ∈ f.vars.map Var.name := fun _ hv => Var.name_mem_map.mpr hv
  have hrenamed : ∀ w ∈ (f.rename π).vars, w.name ∈ f.vars.map fun v => (π v).name := by
    intro w hw
    obtain ⟨v, hv, rfl⟩ := mem_vars_rename.mp hw
    exact List.mem_map_of_mem (f := fun v => (π v).name) hv
  have hname : Set.InjOn Var.name {v | v ∈ f.vars} := Var.name_injective.injOn
  have hnew : Set.InjOn (fun v => (π v).name) {v | v ∈ f.vars} :=
    Var.name_injective.comp_injOn hπ
  rw [countModels_eq_ok few hnames, countModels_eq_ok fewRenamed hrenamed]
  -- Other names make of each assignment that satisfies one formula an assignment that satisfies the
  -- other, since a variable has the value that it had under its old name.
  refine congrArg _ (Fintype.card_congr ((Assignment.relabel hname hnew).subtypeEquiv ?_)).symm
  intro a
  rw [eval_rename, eval_congr fun v hv => ?_]
  have hv : v ∈ f.vars := mem_vars.mpr hv
  rw [Assignment.valuation_of_mem (hnames v hv),
    Assignment.valuation_of_mem (List.mem_map_of_mem (f := fun v => (π v).name) hv)]
  exact (Assignment.relabel_apply hname hnew a hv).symm

/-- **Names do not matter.**  For a formula with fewer than 64 variables and distinct new names for
them, which may be old ones in another order, there is the renamed formula, and the new names can be
replaced by the old ones again.  All three checks answer the same for both formulas, and the count
over the new names is that over the old ones. -/
theorem checks_rename (f : Formula) (few : f.vars.length < 64) (π : Var → Var)
    (hπ : Set.InjOn π {v | v ∈ f.vars}) :
    ∃ g, f.substituteVariables (renameEntries f.vars id π) = .ok g ∧
      g.substituteVariables (renameEntries f.vars π id) = .ok f ∧
      (∃ b, f.isTautology = .ok b ∧ g.isTautology = .ok b) ∧
      (∃ b, f.isSatisfiable = .ok b ∧ g.isSatisfiable = .ok b) ∧
      (∃ b, f.isContradiction = .ok b ∧ g.isContradiction = .ok b) ∧
      ∃ n, f.countModels (f.vars.map Var.name) = .ok n ∧
        g.countModels (f.vars.map fun v => (π v).name) = .ok n := by
  classical
  have fewRenamed := Nat.lt_of_le_of_lt (length_vars_rename_le π f) few
  have hback := substitute_renameEntries_back hπ
  have htautology : (f.rename π).Tautology ↔ f.Tautology := tautology_substitute_iff hback
  have hsatisfiable : (f.rename π).Satisfiable ↔ f.Satisfiable := satisfiable_substitute_iff hback
  have hcount := countModels_eq_ok few fun _ hv => Var.name_mem_map.mpr hv
  refine ⟨f.rename π, ?_, ?_, ⟨_, isTautology_eq_ok few, ?_⟩, ⟨_, isSatisfiable_eq_ok few, ?_⟩,
    ⟨_, isContradiction_eq_ok few, ?_⟩, ⟨_, hcount, (countModels_rename few hπ).trans hcount⟩⟩
  · rw [substituteVariables_eq_ok f isVariableName_of_mem_renameEntries,
      substitute_renameEntries]
  · rw [substituteVariables_eq_ok _ isVariableName_of_mem_renameEntries, hback]
  · rw [isTautology_eq_ok fewRenamed, decide_eq_decide.mpr htautology]
  · rw [isSatisfiable_eq_ok fewRenamed, decide_eq_decide.mpr hsatisfiable]
  · rw [isContradiction_eq_ok fewRenamed, decide_eq_decide.mpr hsatisfiable]

/-- Exchanging `p` and `q` makes `(q&~p)` of `(p&~q)`, and exchanging them again gives it back.  One
of four models makes either true. -/
theorem checks_rename_exchange :
    (and (var .p) (not (var .q))).vars.length < 64 ∧
      Set.InjOn (fun v => if v = Var.p then Var.q else Var.p)
        {v | v ∈ (and (var .p) (not (var .q))).vars} ∧
      (and (var .p) (not (var .q))).substituteVariables [("p", var .q), ("q", var .p)] =
        .ok (and (var .q) (not (var .p))) ∧
      (and (var .q) (not (var .p))).substituteVariables [("q", var .p), ("p", var .q)] =
        .ok (and (var .p) (not (var .q))) ∧
      (∃ b, (and (var .p) (not (var .q))).isTautology = .ok b ∧
        (and (var .q) (not (var .p))).isTautology = .ok b) ∧
      (and (var .p) (not (var .q))).countModels ["p", "q"] = .ok 1 ∧
      (and (var .q) (not (var .p))).countModels ["q", "p"] = .ok 1 := by
  have hvars : (and (var .p) (not (var .q))).vars = [.p, .q] := ascending_eq_self (by decide)
  have few : (and (var .p) (not (var .q))).vars.length < 64 :=
    length_vars_lt_of_occurrences (by decide)
  have hinj : Set.InjOn (fun v => if v = Var.p then Var.q else Var.p)
      {v | v ∈ (and (var .p) (not (var .q))).vars} := by
    rw [hvars]
    have key : ∀ v ∈ [Var.p, Var.q], ∀ w ∈ [Var.p, Var.q],
        (if v = Var.p then Var.q else Var.p) = (if w = Var.p then Var.q else Var.p) → v = w := by
      decide
    exact fun v hv w hw h => key v hv w hw h
  obtain ⟨g, hg, hf, htautology, -, -, n, hn, hn'⟩ := checks_rename _ few _ hinj
  rw [hvars] at hg hf hn hn'
  obtain rfl := Except.ok.inj (hg.symm.trans rfl)
  have hone : (and (var .p) (not (var .q))).countModels ["p", "q"] = .ok 1 := by
    rw [countModels_eq_ok few (by rw [hvars]; decide), Except.ok.injEq]
    decide +kernel
  obtain rfl := Except.ok.inj (hone.symm.trans hn)
  exact ⟨few, hinj, hg, hf, htautology, hn, hn'⟩

end Formula

end PropLogic

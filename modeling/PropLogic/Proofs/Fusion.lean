import PropLogic.Proofs.Composition
import PropLogic.Proofs.ReducedFormulas
import PropLogic.Proofs.Reinterpretation

/-!
# Two passes fused into one

Expanding by one table and then by another is expanding by a single table, whose templates are those
of the first expanded by the second (`OperatorTable.fuse`).  The step behind it is that expansion
commutes with substitution (`Formula.expand_substitute`): what is put in for a variable may be
expanded before or after it is put in, provided that the substitution leaves alone what the
templates leave unbound.  A `p` in the template of a constant would otherwise be taken for the
variable.  The operands of a template are put in for `p` and `q`, so fusing asks for a second table
that leaves nothing unbound (`OperatorTable.IsClosed`); of the first nothing is asked.

Main statements: `Formula.expand_expand`, the same for entries in
`Formula.substituteOperators_fuseEntries`, and `Basis.reduce_eq_expand`, that reducing to a basis is
one pass, whatever the number of its tables.
-/

namespace PropLogic

variable {s t : OperatorTable} {σ : Substitution}

/-- The substitution whose formulas are expanded by the table. -/
def Substitution.expand (σ : Substitution) (t : OperatorTable) : Substitution := fun v =>
  (σ v).map (·.expand t)

theorem Substitution.expand_eq_none {v : Var} (h : σ v = none) : σ.expand t v = none := by
  rw [expand, h, Option.map_none]

theorem Substitution.image_expand (σ : Substitution) (t : OperatorTable) (v : Var) :
    (σ.expand t).image v = (σ.image v).expand t := by
  unfold image expand
  cases σ v with
  | some g => rfl
  | none => exact (Formula.expand_var t v).symm

namespace OperatorTable

open Formula

theorem bind_expand (t : OperatorTable) (f : Formula) (g? : Option Formula) :
    (bind f g?).expand t = bind (f.expand t) (g?.map (·.expand t)) := by
  funext v
  unfold Substitution.expand bind
  split
  · rfl
  · split <;> rfl

/-- Substituting in a filled template is substituting in the operands, if the substitution has
nothing for the variables that the template leaves unbound. -/
theorem substitute_template_bind {o : Operator} (h : ∀ v ∈ t.unbound o, σ v = none) (f : Formula)
    (g? : Option Formula) (hg : g? = none → .q ∉ o.operands) :
    ((t.template o).substitute (bind f g?)).substitute σ =
      (t.template o).substitute (bind (f.substitute σ) (g?.map (·.substitute σ))) := by
  rw [substitute_substitute]
  refine substitute_congr fun v hv => ?_
  rw [Substitution.image_andThen]
  rcases t.eq_or_eq_of_mem_template hv with rfl | rfl
  · rfl
  · cases g? with
    | some g => rfl
    | none =>
      have hq : σ .q = none := h .q (mem_unbound_iff.mpr ⟨hv, hg rfl⟩)
      show (var .q).substitute σ = .var .q
      rw [substitute_var, hq, Option.getD_none]

end OperatorTable

namespace Formula

open OperatorTable

/-- **Expansion commutes with substitution:** substituting first and expanding the result is
expanding the formula and putting in expanded formulas.  What the templates of the operators that
occur leave unbound must be no variable of the substitution. -/
theorem expand_substitute {f : Formula} (h : ∀ o ∈ f.operators, ∀ v ∈ t.unbound o, σ v = none) :
    (f.substitute σ).expand t = (f.expand t).substitute (σ.expand t) := by
  induction f with
  | var v =>
    rw [expand_var, substitute_var, substitute_var]
    exact (σ.image_expand t v).symm
  | const b =>
    have hroot := forall_mem_operators_const.mp h
    rw [substitute_const, expand_const_eq, substitute_eq_self]
    intro v hv
    exact Substitution.expand_eq_none (hroot v (mem_unbound_iff.mpr ⟨hv, List.not_mem_nil⟩))
  | not f ih =>
    obtain ⟨hroot, hf⟩ := forall_mem_operators_not.mp h
    rw [substitute_not, expand_not_eq, expand_not_eq, ih hf,
      substitute_template_bind (fun v hv => Substitution.expand_eq_none (hroot v hv)) _ none
        fun _ => by decide]
    rfl
  | binary c f g ihf ihg =>
    obtain ⟨hroot, hf, hg⟩ := forall_mem_operators_binary.mp h
    rw [substitute_binary, expand_binary_eq, expand_binary_eq, ihf hf, ihg hg,
      substitute_template_bind (fun v hv => Substitution.expand_eq_none (hroot v hv)) _ (some _)
        fun hg => absurd hg (Option.some_ne_none _)]
    rfl

end Formula

/-! ## Fused tables -/

namespace OperatorTable

open Formula

/-- Tables with the same templates are the same. -/
theorem eq_of_template?_eq (h : ∀ o, s.template? o = t.template? o) : s = t := by
  cases s
  cases t
  cases funext h
  rfl

/-- An expansion of a template is one, too. -/
theorem isTemplate_expand (t : OperatorTable) {a : Formula} (ha : a.isTemplate = true) :
    (a.expand t).isTemplate = true :=
  isTemplate_iff.mpr fun v hv => by
    rcases occurrences_expand (mem_vars.mp hv) with h | h
    · exact isTemplate_iff.mp ha v (mem_vars.mpr h)
    · exact h

/-- The table that does in one pass what the two do, the first before the second: the templates of
the first are expanded by the second, which has its own templates for the other operators. -/
def fuse (s t : OperatorTable) : OperatorTable where
  template? o := ((s.template? o).map (·.expand t)).or (t.template? o)
  isTemplate o a ha := by
    rcases Option.or_eq_some_iff.mp ha with ha | ⟨-, ha⟩
    · obtain ⟨b, hb, rfl⟩ := Option.map_eq_some_iff.mp ha
      exact t.isTemplate_expand (s.isTemplate o b hb)
    · exact t.isTemplate o a ha

theorem template?_fuse (s t : OperatorTable) (o : Operator) :
    (s.fuse t).template? o = ((s.template? o).map (·.expand t)).or (t.template? o) := rfl

/-- A template filled with its own variables stays as it is. -/
theorem substitute_template_self (t : OperatorTable) (o : Operator) {g? : Option Formula}
    (hg : g?.getD (.var .q) = .var .q) :
    (t.template o).substitute (bind (.var .p) g?) = t.template o := by
  refine substitute_eq_self_of_image fun v hv => ?_
  rcases t.eq_or_eq_of_mem_template hv with rfl | rfl
  · rfl
  · exact hg

/-- The template that changes nothing becomes that of the table. -/
theorem expand_ownTemplate (t : OperatorTable) (o : Operator) :
    o.ownTemplate.expand t = t.template o := by
  cases o with
  | const b => exact expand_const_eq t b
  | not =>
    rw [Operator.ownTemplate, expand_not_eq, expand_var]
    exact t.substitute_template_self .not rfl
  | binary c =>
    rw [Operator.ownTemplate, expand_binary_eq, expand_var, expand_var]
    exact t.substitute_template_self (.binary c) rfl

theorem template_fuse (s t : OperatorTable) (o : Operator) :
    (s.fuse t).template o = (s.template o).expand t := by
  rw [template, template, template?_fuse]
  cases s.template? o with
  | some a => rfl
  | none => exact (t.expand_ownTemplate o).symm

/-- The templates of the table leave nothing unbound. -/
def IsClosed (t : OperatorTable) : Prop :=
  ∀ o v, v ∉ t.unbound o

/-- It is enough that those for constants have no variables and the one for `~` has no `q`. -/
theorem isClosed_of_vars (hconst : ∀ x a, t.template? (.const x) = some a → a.vars = [])
    (hnot : ∀ a, t.template? .not = some a → .q ∉ a.vars) : t.IsClosed := by
  intro o v hunbound
  obtain ⟨a, ha, hv, hconstant | ⟨rfl, rfl⟩⟩ := mem_unbound_iff_entry.mp hunbound
  · cases o with
    | const x => exact List.not_mem_nil (hconst x a ha ▸ mem_vars.mpr hv)
    | not => cases hconstant
    | binary c => cases hconstant
  · exact hnot a ha (mem_vars.mpr hv)

/-- A table that brings in no variables leaves nothing unbound. -/
theorem Introduces.isClosed (ht : t.Introduces []) : t.IsClosed :=
  fun o v hv => List.not_mem_nil ((ht.mem_unbound_iff o v).mp hv).2

end OperatorTable

namespace Formula

open OperatorTable

/-- **Two passes are one,** with the fused table, if the second table leaves nothing unbound. -/
theorem expand_expand (s : OperatorTable) (ht : t.IsClosed) (f : Formula) :
    (f.expand s).expand t = f.expand (s.fuse t) := by
  -- what the first pass has put in is expanded in its place
  have hfilled : ∀ o g g?, ((s.template o).substitute (bind g g?)).expand t =
      ((s.fuse t).template o).substitute (bind (g.expand t) (g?.map (·.expand t))) := by
    intro o g g?
    rw [expand_substitute fun o _ v hv => absurd hv (ht o v), bind_expand, template_fuse]
  induction f with
  | var v => rw [expand_var, expand_var, expand_var]
  | const b => rw [expand_const_eq, expand_const_eq, template_fuse]
  | not f ih =>
    rw [expand_not_eq, expand_not_eq, hfilled, ih]
    rfl
  | binary c f g ihf ihg =>
    rw [expand_binary_eq, expand_binary_eq, hfilled, ihf, Option.map_some, ihg]

end Formula

/-! ## Bases -/

namespace Basis

open OperatorTable

/-- The table of a basis, which does what its tables do one after the other. -/
def table : Basis → OperatorTable
  | .notAndOr => intoNotAndOr
  | .notAnd => intoNotAndOr.fuse orIntoNotAnd
  | .nand => (intoNotAndOr.fuse orIntoNotAnd).fuse notAndIntoNand
  | .impliesNot => intoImpliesNot
  | .impliesFalse => intoImpliesNotFalse.fuse notIntoImpliesFalse

/-- **Reducing to a basis is one pass.** -/
theorem reduce_eq_expand (b : Basis) (f : Formula) : b.reduce f = f.expand b.table := by
  have hor := orIntoNotAnd_introduces.isClosed
  have hnand := notAndIntoNand_introduces.isClosed
  have hnot := notIntoImpliesFalse_introduces.isClosed
  cases b with
  | notAndOr => rfl
  | notAnd => exact Formula.expand_expand _ hor f
  | nand =>
    show ((f.expand intoNotAndOr).expand orIntoNotAnd).expand notAndIntoNand = _
    rw [Formula.expand_expand _ hor, Formula.expand_expand _ hnand]
    rfl
  | impliesNot => rfl
  | impliesFalse => exact Formula.expand_expand _ hnot f

end Basis

/-! ## Entries -/

namespace OperatorTable

open Formula

/-- The entries that do in one pass what the two lists do, the first before the second: the
templates of the first list with the operators of the second replaced, and the entries of the second
for operators that have none in the first. -/
def fuseEntries (ss ts : List (Operator × Formula)) : Except Fault (List (Operator × Formula)) := do
  let es ← ss.mapM fun e => do return (e.1, ← e.2.substituteOperators ts)
  return es ++ ts.filter fun e => (ss.lookup e.1).isNone

/-- Fused entries are those of the fused table. -/
theorem exists_fuseEntries_eq_ok {ss ts : List (Operator × Formula)}
    (hss : ∀ e ∈ ss, e.2.isTemplate = true) (hts : ∀ e ∈ ts, e.2.isTemplate = true)
    (hs : ∀ o, s.template? o = ss.lookup o) (ht : ∀ o, t.template? o = ts.lookup o)
    (hexpand : ∀ f : Formula, f.substituteOperators ts = .ok (f.expand t)) :
    ∃ us, fuseEntries ss ts = .ok us ∧
      ∀ f : Formula, f.substituteOperators us = .ok (f.expand (s.fuse t)) := by
  have hmap : ss.mapM (fun e => do return (e.1, ← e.2.substituteOperators ts)) =
      .ok (ss.map fun e => (e.1, e.2.expand t)) := by
    simp only [hexpand]
    exact List.mapM_pure
  have hus : ∀ e ∈ (ss.map fun e => (e.1, e.2.expand t)) ++
      ts.filter (fun e => (ss.lookup e.1).isNone), e.2.isTemplate = true := by
    intro e he
    rcases List.mem_append.mp he with he | he
    · obtain ⟨e', he', rfl⟩ := List.mem_map.mp he
      exact t.isTemplate_expand (hss e' he')
    · exact hts e (List.mem_filter.mp he).1
  obtain ⟨u, hu, huexpand⟩ := exists_substituteOperators_eq_ok hus
  have hfuse : u = s.fuse t := eq_of_template?_eq fun o => by
    rw [hu, template?_fuse, hs, ht]
    exact lookup_map_append_filter (fun a : Formula => a.expand t) ss ts o
  refine ⟨_, ?_, fun f => hfuse ▸ huexpand f⟩
  rw [fuseEntries, hmap]
  rfl

end OperatorTable

namespace Formula

open OperatorTable

/-- **Two passes of operator substitution are one.**  If the second pass has templates without
variables for the constants and without `q` for `~`, the entries of both can be fused into one list,
and applying this to any formula gives what the two passes give one after the other.  Reducing to a
basis, too, is one pass with one fused table. -/
theorem substituteOperators_fuseEntries :
    (∀ ss ts : List (Operator × Formula),
      (∀ e ∈ ss, ∀ v ∈ e.2.vars, v = .p ∨ v = .q) → (∀ e ∈ ts, ∀ v ∈ e.2.vars, v = .p ∨ v = .q) →
      (∀ x a, ts.lookup (.const x) = some a → a.vars = []) →
      (∀ a, ts.lookup .not = some a → .q ∉ a.vars) →
        ∃ us, fuseEntries ss ts = .ok us ∧ ∀ f : Formula, ∃ g h,
          f.substituteOperators ss = .ok g ∧ g.substituteOperators ts = .ok h ∧
            f.substituteOperators us = .ok h) ∧
      ∀ (b : Basis) (f : Formula), b.reduce f = f.expand b.table := by
  refine ⟨fun ss ts hss hts hconst hnot => ?_, Basis.reduce_eq_expand⟩
  have hss := fun e he => isTemplate_iff.mpr (hss e he)
  have hts := fun e he => isTemplate_iff.mpr (hts e he)
  obtain ⟨s, hs, hsexpand⟩ := exists_substituteOperators_eq_ok hss
  obtain ⟨t, ht, htexpand⟩ := exists_substituteOperators_eq_ok hts
  have hclosed : t.IsClosed :=
    isClosed_of_vars (fun x a ha => hconst x a (ht _ ▸ ha)) fun a ha => hnot a (ht _ ▸ ha)
  obtain ⟨us, hus, husexpand⟩ := exists_fuseEntries_eq_ok hss hts hs ht htexpand
  refine ⟨us, hus, fun f => ⟨f.expand s, (f.expand s).expand t, hsexpand f, htexpand _, ?_⟩⟩
  rw [husexpand, expand_expand s hclosed]

/-- The first list may leave `q` unbound, as `~` for `(p&q)` and `T` for `q` do.  The second has an
entry for `~`, too, which the fused list leaves out. -/
theorem substituteOperators_fuseEntries_unbound :
    (∀ e ∈ [(Operator.not, and (var .p) (var .q)), (.const true, var .q)],
      ∀ v ∈ e.2.vars, v = .p ∨ v = .q) ∧
    (∀ e ∈ [(Operator.binary .and, nor (not (var .p)) (not (var .q))),
        (.not, nand (var .p) (var .p)), (.const false, not (const true))],
      ∀ v ∈ e.2.vars, v = .p ∨ v = .q) ∧
    fuseEntries [(.not, and (var .p) (var .q)), (.const true, var .q)]
        [(.binary .and, nor (not (var .p)) (not (var .q))), (.not, nand (var .p) (var .p)),
          (.const false, not (const true))] =
      .ok [(.not, nor (not (var .p)) (not (var .q))), (.const true, var .q),
        (.binary .and, nor (not (var .p)) (not (var .q))), (.const false, not (const true))] ∧
    (implies (not (const true)) (const false)).substituteOperators
        [(.not, and (var .p) (var .q)), (.const true, var .q)] =
      .ok (implies (and (var .q) (var .q)) (const false)) ∧
    (implies (not (const true)) (const false)).substituteOperators
        [(.not, nor (not (var .p)) (not (var .q))), (.const true, var .q),
          (.binary .and, nor (not (var .p)) (not (var .q))), (.const false, not (const true))] =
      .ok (implies (nor (not (var .q)) (not (var .q))) (not (const true))) ∧
    Basis.nand.reduce (implies (const false) (var .q)) =
      (implies (const false) (var .q)).expand Basis.nand.table := by
  obtain ⟨hentries, hbases⟩ := substituteOperators_fuseEntries
  have hss : ∀ e ∈ [(Operator.not, and (var .p) (var .q)), (.const true, var .q)],
      e.2.isTemplate = true := by decide
  have hts : ∀ e ∈ [(Operator.binary .and, nor (not (var .p)) (not (var .q))),
      (.not, nand (var .p) (var .p)), (.const false, not (const true))],
      e.2.isTemplate = true := by decide
  have hss := fun e he => isTemplate_iff.mp (hss e he)
  have hts := fun e he => isTemplate_iff.mp (hts e he)
  obtain ⟨us, hus, hpasses⟩ := hentries _ _ hss hts
    (fun x a ha => by cases x <;> cases ha; decide +kernel)
    (fun a ha => by cases ha; decide +kernel)
  obtain ⟨g, h, hg, hh, hfused⟩ := hpasses (implies (not (const true)) (const false))
  obtain rfl := Except.ok.inj (hus.symm.trans rfl)
  obtain rfl := Except.ok.inj (hg.symm.trans rfl)
  obtain rfl := Except.ok.inj (hh.symm.trans rfl)
  exact ⟨hss, hts, hus, hg, hfused, hbases .nand _⟩

end Formula

end PropLogic

import PropLogic.OperatorTable
import PropLogic.Proofs.VariableSubstitution

/-!
# What occurs in an expansion

Expanding a formula writes a template where an operator stood.  An operator without an entry in the
table is written as it is, and that is a template, too: the one that changes nothing
(`Operator.ownTemplate`).  With `OperatorTable.template` every node is therefore expanded in the
same way, and what occurs in the result is told from the templates of the operators that occur.

Main statements: `OperatorTable.mem_operators_expand_iff`, that the operators of an expansion are
those of such templates, and `OperatorTable.mem_occurrences_expand_iff`, that its variables are those
of the formula and those that the templates leave unbound.  Both need templates that mention all
operands, since an operand which is dropped takes along what occurs in it.  Without this nothing else
comes in: `OperatorTable.exists_of_mem_operators_expand`, `OperatorTable.of_mem_occurrences_expand`.
-/

namespace PropLogic

namespace Formula

/-- A template uses no other variables than `p` and `q`. -/
theorem isTemplate_iff {s : Formula} :
    s.isTemplate = true ↔ ∀ v ∈ s.vars, v = .p ∨ v = .q := by
  rw [isTemplate, anyVariable_eq, Bool.not_eq_true', List.any_eq_false]
  refine forall₂_congr fun v _ => ?_
  by_cases hp : v = .p <;> simp [hp]

/-- The operators of the result of a substitution are those of the formula and those of the images
of its variables. -/
theorem mem_operators_substitute {σ : Substitution} {f : Formula} {o : Operator} :
    o ∈ (f.substitute σ).operators ↔
      o ∈ f.operators ∨ ∃ v ∈ f.occurrences, o ∈ (σ.image v).operators := by
  induction f with
  | var v => simp [Substitution.image, occurrences, anyOperator]
  | const b => simp [occurrences]
  | not f ih =>
    rw [substitute_not, mem_operators_not, mem_operators_not, ih, occurrences, or_assoc]
  | binary c f g ihf ihg =>
    rw [substitute_binary, mem_operators_binary, mem_operators_binary, ihf, ihg, occurrences]
    simp only [List.mem_append, or_and_right, exists_or]
    rw [or_or_or_comm, or_assoc, or_assoc, or_assoc]

end Formula

/-! ## One template for every operator -/

namespace Operator

open Formula

/-- The variables that stand for the operands of an operator in its template. -/
def operands (o : Operator) : List Var :=
  [.p, .q].take o.arity

/-- The template that changes nothing: the operator applied to its operands. -/
def ownTemplate : Operator → Formula
  | .const b => .const b
  | .not => .not (.var .p)
  | .binary c => .binary c (.var .p) (.var .q)

theorem occurrences_ownTemplate (o : Operator) : o.ownTemplate.occurrences = o.operands := by
  cases o <;> rfl

theorem mem_operators_ownTemplate {o o' : Operator} :
    o' ∈ o.ownTemplate.operators ↔ o' = o := by
  cases o with
  | const b => exact mem_operators_const
  | not => rw [ownTemplate, mem_operators_not, operators_var, or_iff_left List.not_mem_nil]
  | binary c =>
    rw [ownTemplate, mem_operators_binary, operators_var, operators_var, or_self,
      or_iff_left List.not_mem_nil]

theorem isTemplate_ownTemplate (o : Operator) : o.ownTemplate.isTemplate = true := by
  cases o <;> rfl

end Operator

namespace OperatorTable

open Formula

variable {t : OperatorTable} {s f g : Formula} {g? : Option Formula} {o : Operator} {v : Var}
  {b : Bool} {c : Connective}

/-- What the table puts in the place of an operator: its template, or else the operator itself. -/
def template (t : OperatorTable) (o : Operator) : Formula :=
  (t.template? o).getD o.ownTemplate

theorem isTemplate_template (t : OperatorTable) (o : Operator) :
    (t.template o).isTemplate = true := by
  unfold template
  cases h : t.template? o with
  | some s => exact t.isTemplate o s h
  | none => exact o.isTemplate_ownTemplate

theorem eq_or_eq_of_mem_template (t : OperatorTable) (hv : v ∈ (t.template o).occurrences) :
    v = .p ∨ v = .q :=
  isTemplate_iff.mp (t.isTemplate_template o) v (mem_vars.mpr hv)

/-- The template of the operator mentions all operands. -/
def KeepsOperands (t : OperatorTable) (o : Operator) : Prop :=
  ∀ v ∈ o.operands, v ∈ (t.template o).occurrences

theorem KeepsOperands.p_mem_not (h : t.KeepsOperands .not) :
    .p ∈ (t.template .not).occurrences :=
  h .p List.mem_cons_self

theorem KeepsOperands.p_mem_and_q_mem_binary (h : t.KeepsOperands (.binary c)) :
    .p ∈ (t.template (.binary c)).occurrences ∧ .q ∈ (t.template (.binary c)).occurrences :=
  ⟨h .p List.mem_cons_self, h .q (List.mem_cons_of_mem _ List.mem_cons_self)⟩

/-- This is a question about the entries of the table alone: an operator without an entry keeps its
operands. -/
theorem keepsOperands_iff : t.KeepsOperands o ↔
    ∀ a, t.template? o = some a → ∀ v ∈ o.operands, v ∈ a.occurrences := by
  rw [KeepsOperands, template]
  cases t.template? o with
  | some a => simp
  | none => simp [Operator.occurrences_ownTemplate]

theorem keepsOperands_const : t.KeepsOperands (.const b) :=
  fun _ hv => absurd hv List.not_mem_nil

theorem keepsOperands_not_iff :
    t.KeepsOperands .not ↔ ∀ a, t.template? .not = some a → .p ∈ a.vars := by
  rw [keepsOperands_iff]
  simp [Operator.operands, Operator.arity]

theorem keepsOperands_binary_iff : t.KeepsOperands (.binary c) ↔
    ∀ a, t.template? (.binary c) = some a → .p ∈ a.vars ∧ .q ∈ a.vars := by
  rw [keepsOperands_iff]
  simp [Operator.operands, Operator.arity]

theorem expand_const_eq (t : OperatorTable) (b : Bool) :
    (const b).expand t = t.template (.const b) :=
  expand_const t b

theorem expand_not_eq (t : OperatorTable) (f : Formula) :
    (not f).expand t = (t.template .not).substitute (bind (f.expand t) none) := by
  rw [expand_not, template]
  cases t.template? .not with
  | some s => rfl
  | none =>
    rw [Option.getD_none, Operator.ownTemplate, substitute_not, substitute_var]
    rfl

theorem expand_binary_eq (t : OperatorTable) (c : Connective) (f g : Formula) :
    (binary c f g).expand t =
      (t.template (.binary c)).substitute (bind (f.expand t) (g.expand t)) := by
  rw [expand_binary, template]
  cases t.template? (.binary c) with
  | some s => rfl
  | none =>
    rw [Option.getD_none, Operator.ownTemplate, substitute_binary, substitute_var, substitute_var]
    rfl

/-! ## Filled templates -/

/-- What is said of some variable of a template is said of `p` or of `q`. -/
theorem exists_mem_template_iff (hs : s.isTemplate = true) {P : Var → Prop} :
    (∃ v ∈ s.occurrences, P v) ↔ .p ∈ s.occurrences ∧ P .p ∨ .q ∈ s.occurrences ∧ P .q := by
  constructor
  · rintro ⟨v, hv, h⟩
    rcases isTemplate_iff.mp hs v (mem_vars.mpr hv) with rfl | rfl
    · exact .inl ⟨hv, h⟩
    · exact .inr ⟨hv, h⟩
  · rintro (⟨hv, h⟩ | ⟨hv, h⟩)
    · exact ⟨.p, hv, h⟩
    · exact ⟨.q, hv, h⟩

/-- A variable of a filled template comes from an operand that the template mentions, or it is a
`q` that is not bound. -/
theorem mem_occurrences_bind_iff (hs : s.isTemplate = true) :
    v ∈ (s.substitute (bind f g?)).occurrences ↔
      .p ∈ s.occurrences ∧ v ∈ f.occurrences ∨
        .q ∈ s.occurrences ∧ v ∈ (g?.getD (.var .q)).occurrences := by
  rw [occurrences_substitute, List.mem_flatMap, exists_mem_template_iff hs]
  rfl

/-- An operator of a filled template is one of the template, or it comes from an operand that the
template mentions. -/
theorem mem_operators_bind_iff (hs : s.isTemplate = true) :
    o ∈ (s.substitute (bind f g?)).operators ↔
      o ∈ s.operators ∨ .p ∈ s.occurrences ∧ o ∈ f.operators ∨
        .q ∈ s.occurrences ∧ o ∈ (g?.getD (.var .q)).operators := by
  rw [mem_operators_substitute, exists_mem_template_iff hs]
  rfl

/-! ## Operators of an expansion -/

theorem mem_operators_expand_not : o ∈ ((not f).expand t).operators ↔
    o ∈ (t.template .not).operators ∨
      .p ∈ (t.template .not).occurrences ∧ o ∈ (f.expand t).operators := by
  rw [expand_not_eq, mem_operators_bind_iff (t.isTemplate_template _), Option.getD_none,
    operators_var]
  simp only [List.not_mem_nil, and_false, or_false]

theorem mem_operators_expand_binary : o ∈ ((binary c f g).expand t).operators ↔
    o ∈ (t.template (.binary c)).operators ∨
      .p ∈ (t.template (.binary c)).occurrences ∧ o ∈ (f.expand t).operators ∨
        .q ∈ (t.template (.binary c)).occurrences ∧ o ∈ (g.expand t).operators := by
  rw [expand_binary_eq, mem_operators_bind_iff (t.isTemplate_template _), Option.getD_some]

/-- **Every operator of an expansion stands in a template:** in what the table puts in the place of
an operator that occurs. -/
theorem exists_of_mem_operators_expand (ho : o ∈ (f.expand t).operators) :
    ∃ o' ∈ f.operators, o ∈ (t.template o').operators := by
  induction f with
  | var v => simp [operators_var] at ho
  | const b => exact exists_mem_operators_const.mpr (expand_const_eq t b ▸ ho)
  | not f ih =>
    refine exists_mem_operators_not.mpr ((mem_operators_expand_not.mp ho).imp_right ?_)
    exact fun h => ih h.2
  | binary c f g ihf ihg =>
    refine exists_mem_operators_binary.mpr ((mem_operators_expand_binary.mp ho).imp_right ?_)
    exact Or.imp (fun h => ihf h.2) fun h => ihg h.2

/-- **The operators of an expansion** are those of what the table puts in the place of the operators
that occur, if these templates mention all operands. -/
theorem mem_operators_expand_iff (hf : ∀ o ∈ f.operators, t.KeepsOperands o) :
    o ∈ (f.expand t).operators ↔ ∃ o' ∈ f.operators, o ∈ (t.template o').operators := by
  induction f with
  | var v => simp [operators_var]
  | const b => rw [expand_const_eq, exists_mem_operators_const]
  | not f ih =>
    obtain ⟨hroot, hf⟩ := forall_mem_operators_not.mp hf
    rw [mem_operators_expand_not, and_iff_right hroot.p_mem_not, ih hf, exists_mem_operators_not]
  | binary c f g ihf ihg =>
    obtain ⟨hroot, hf, hg⟩ := forall_mem_operators_binary.mp hf
    obtain ⟨hp, hq⟩ := hroot.p_mem_and_q_mem_binary
    rw [mem_operators_expand_binary, and_iff_right hp, and_iff_right hq, ihf hf, ihg hg,
      exists_mem_operators_binary]

/-! ## Variables of an expansion -/

/-- The variables of a template that stand for no operand, and stay when it is filled. -/
def unbound (t : OperatorTable) (o : Operator) : List Var :=
  (t.template o).occurrences.filter (· ∉ o.operands)

theorem mem_unbound_iff : v ∈ t.unbound o ↔ v ∈ (t.template o).occurrences ∧ v ∉ o.operands := by
  rw [unbound, List.mem_filter, decide_eq_true_iff]

/-- The template of a connective binds both its variables. -/
theorem notMem_unbound_binary (t : OperatorTable) (c : Connective) :
    v ∉ t.unbound (.binary c) := by
  rw [mem_unbound_iff]
  rintro ⟨hv, hfree⟩
  rcases t.eq_or_eq_of_mem_template hv with rfl | rfl
  · exact hfree List.mem_cons_self
  · exact hfree (List.mem_cons_of_mem _ List.mem_cons_self)

/-- What is left unbound stands in an entry: any variable in one for a constant, or `q` in the one
for `~`. -/
theorem mem_unbound_iff_entry : v ∈ t.unbound o ↔
    ∃ a, t.template? o = some a ∧ v ∈ a.occurrences ∧ (o.arity = 0 ∨ o = .not ∧ v = .q) := by
  constructor
  · intro h
    obtain ⟨hv, hfree⟩ := mem_unbound_iff.mp h
    have hpq := t.eq_or_eq_of_mem_template hv
    rw [template] at hv
    cases ha : t.template? o with
    | none =>
      rw [ha, Option.getD_none, Operator.occurrences_ownTemplate] at hv
      exact absurd hv hfree
    | some a =>
      rw [ha, Option.getD_some] at hv
      refine ⟨a, rfl, hv, ?_⟩
      cases o with
      | const b => exact .inl rfl
      | not => exact .inr ⟨rfl, hpq.resolve_left fun hp => hfree (hp ▸ List.mem_cons_self)⟩
      | binary c => exact absurd h (t.notMem_unbound_binary c)
  · rintro ⟨a, ha, hv, hbinds⟩
    refine mem_unbound_iff.mpr ⟨by rwa [template, ha, Option.getD_some], ?_⟩
    rcases hbinds with hconst | ⟨rfl, rfl⟩
    · rw [Operator.operands, hconst, List.take_zero]
      exact List.not_mem_nil
    · decide

theorem mem_occurrences_expand_const :
    v ∈ ((const b).expand t).occurrences ↔ v ∈ t.unbound (.const b) := by
  rw [expand_const_eq, mem_unbound_iff]
  exact (and_iff_left List.not_mem_nil).symm

theorem mem_occurrences_expand_not : v ∈ ((not f).expand t).occurrences ↔
    .p ∈ (t.template .not).occurrences ∧ v ∈ (f.expand t).occurrences ∨ v ∈ t.unbound .not := by
  rw [expand_not_eq, mem_occurrences_bind_iff (t.isTemplate_template _), mem_unbound_iff]
  refine or_congr_right ⟨?_, ?_⟩
  · rintro ⟨hq, hv⟩
    obtain rfl : v = .q := List.mem_singleton.mp hv
    exact ⟨hq, by decide⟩
  · rintro ⟨hv, hfree⟩
    rcases t.eq_or_eq_of_mem_template hv with rfl | rfl
    · exact absurd List.mem_cons_self hfree
    · exact ⟨hv, List.mem_singleton_self _⟩

theorem mem_occurrences_expand_binary : v ∈ ((binary c f g).expand t).occurrences ↔
    .p ∈ (t.template (.binary c)).occurrences ∧ v ∈ (f.expand t).occurrences ∨
      .q ∈ (t.template (.binary c)).occurrences ∧ v ∈ (g.expand t).occurrences := by
  rw [expand_binary_eq, mem_occurrences_bind_iff (t.isTemplate_template _), Option.getD_some]

/-- A variable of an expansion occurs in the formula, or a template leaves it unbound. -/
theorem of_mem_occurrences_expand (hv : v ∈ (f.expand t).occurrences) :
    v ∈ f.occurrences ∨ ∃ o ∈ f.operators, v ∈ t.unbound o := by
  induction f with
  | var w => exact .inl (expand_var t w ▸ hv)
  | const b => exact .inr (exists_mem_operators_const.mpr (mem_occurrences_expand_const.mp hv))
  | not f ih =>
    rw [exists_mem_operators_not]
    rcases mem_occurrences_expand_not.mp hv with ⟨-, hv⟩ | hv
    · exact (ih hv).imp_right .inr
    · exact .inr (.inl hv)
  | binary c f g ihf ihg =>
    rw [occurrences, List.mem_append, exists_mem_operators_binary]
    rcases mem_occurrences_expand_binary.mp hv with ⟨-, hv⟩ | ⟨-, hv⟩
    · exact (ihf hv).imp .inl fun h => .inr (.inl h)
    · exact (ihg hv).imp .inr fun h => .inr (.inr h)

/-- **The variables of an expansion** are those of the formula and those that the templates of its
operators leave unbound, if these templates mention all operands. -/
theorem mem_occurrences_expand_iff (hf : ∀ o ∈ f.operators, t.KeepsOperands o) :
    v ∈ (f.expand t).occurrences ↔
      v ∈ f.occurrences ∨ ∃ o ∈ f.operators, v ∈ t.unbound o := by
  induction f with
  | var w => simp [operators_var]
  | const b =>
    rw [mem_occurrences_expand_const, exists_mem_operators_const]
    exact (or_iff_right List.not_mem_nil).symm
  | not f ih =>
    obtain ⟨hroot, hf⟩ := forall_mem_operators_not.mp hf
    rw [mem_occurrences_expand_not, and_iff_right hroot.p_mem_not, ih hf, exists_mem_operators_not,
      or_assoc]
    exact or_congr_right or_comm
  | binary c f g ihf ihg =>
    obtain ⟨hroot, hf, hg⟩ := forall_mem_operators_binary.mp hf
    obtain ⟨hp, hq⟩ := hroot.p_mem_and_q_mem_binary
    rw [mem_occurrences_expand_binary, and_iff_right hp, and_iff_right hq, ihf hf, ihg hg,
      exists_mem_operators_binary, or_iff_right (t.notMem_unbound_binary c), occurrences,
      List.mem_append]
    exact or_or_or_comm

end OperatorTable

end PropLogic

import PropLogic.Proofs.Reinterpretation

/-!
# Short cuts that miss nothing

Both substitutions look at the set of the variables, or of the operators, of every subtree: one that
holds no key is returned as it is, and where a key is among them the recursion goes on.  A leaf that
is reached is then looked up without a test of its own.  `Formula.substitute?` and `Formula.expand?`
are these recursions with look-ups that have no result where they miss.  No look-up does: the sets
are exact, so that a leaf is reached only if it has an entry, also in the template of `~`, where `q`
has none.

Main statement: `Formula.substitutions_eq_fully`.  Whatever the entries, both substitutions give the
tree of the recursion that always goes down to the leaves, unless a key is no variable name or a
formula is no template; then they refuse, even if no node of the formula asks for that entry.
-/

namespace PropLogic

/-! ## Look-ups that can miss -/

namespace Formula

/-- Substitution with a short cut on the listed variables; a variable that is reached is looked up
without a test, and there is no result if it has no entry. -/
def substitute? (σ : Substitution) (f : Formula) : Option Formula :=
  if f.vars.any σ.has then
    match f with
    | .var v => σ v
    | .const b => some (.const b)
    | .not f => (f.substitute? σ).map .not
    | .binary c f g => do return .binary c (← f.substitute? σ) (← g.substitute? σ)
  else some f

/-- Expansion with a short cut on the listed operators; a constant that is reached is looked up
without a test, and there is no result if it has no template. -/
def expand? (t : OperatorTable) (f : Formula) : Option Formula :=
  if f.operators.any t.has then
    match f with
    | .var v => some (.var v)
    | .const b => t.template? (.const b)
    | .not f => do
      let g ← f.expand? t
      match t.template? .not with
      | some s => s.substitute? (OperatorTable.bind g none)
      | none => return .not g
    | .binary c f g => do
      let f' ← f.expand? t
      let g' ← g.expand? t
      match t.template? (.binary c) with
      | some s => s.substitute? (OperatorTable.bind f' (some g'))
      | none => return .binary c f' g'
  else some f

/-- **No look-up of a variable misses,** and the short cuts change nothing. -/
theorem substitute?_eq_some (σ : Substitution) (f : Formula) :
    f.substitute? σ = some (f.substituteFully σ) := by
  fun_induction substitute? σ f with
  | case1 v h =>
    -- the set of the leaf is the leaf itself, so it has an entry
    rw [← anyVariable_eq, anyVariable] at h
    obtain ⟨g, hg⟩ := Option.isSome_iff_exists.mp h
    rw [substituteFully, hg, Option.getD_some]
  | case2 b h => rfl
  | case3 f h ih => rw [ih, Option.map_some, substituteFully]
  | case4 c f g h ihf ihg =>
    rw [ihf, ihg, substituteFully]
    rfl
  | case5 f h =>
    rw [← anyVariable_eq, Bool.not_eq_true] at h
    rw [substituteFully_eq_self h]

/-- **No look-up of a constant misses,** nor one in a template that is filled. -/
theorem expand?_eq_some (t : OperatorTable) (f : Formula) :
    f.expand? t = some (f.expandFully t) := by
  fun_induction expand? t f with
  | case1 v h => rfl
  | case2 b h =>
    rw [← anyOperator_eq, anyOperator] at h
    obtain ⟨s, hs⟩ := Option.isSome_iff_exists.mp h
    rw [expandFully, hs, Option.getD_some]
  | case3 f h ih =>
    rw [ih, expandFully]
    cases t.template? .not with
    | some s => exact substitute?_eq_some _ s
    | none => rfl
  | case4 c f g h ihf ihg =>
    rw [ihf, ihg, expandFully]
    cases t.template? (.binary c) with
    | some s => exact substitute?_eq_some _ s
    | none => rfl
  | case5 f h =>
    rw [← anyOperator_eq, Bool.not_eq_true] at h
    rw [expandFully_eq_self h]

end Formula

/-! ## Refused entries -/

/-- The first member that fails a test is found, if one fails it. -/
theorem exists_find?_not_eq_some {α : Type} {P : α → Bool} {l : List α}
    (h : ∃ a ∈ l, P a = false) :
    ∃ a ∈ l, P a = false ∧ l.find? (fun a => !P a) = some a := by
  obtain ⟨a, ha, hfails⟩ := h
  have hsome : (l.find? fun a => !P a).isSome = true :=
    List.find?_isSome.mpr ⟨a, ha, by rw [hfails]; rfl⟩
  obtain ⟨b, hb⟩ := Option.isSome_iff_exists.mp hsome
  exact ⟨b, List.mem_of_find?_eq_some hb, by simpa using List.find?_some hb, hb⟩

/-- Of several keys that are no variable names one is named. -/
theorem Substitution.exists_ofEntries_eq_error {es : List (String × Formula)}
    (hes : ∃ e ∈ es, isVariableName e.1 = false) :
    ∃ e ∈ es, isVariableName e.1 = false ∧ ofEntries es = .error (.invalidKey e.1) := by
  obtain ⟨e, he, hname, hfind⟩ := exists_find?_not_eq_some hes
  exact ⟨e, he, hname, by rw [ofEntries, hfind]⟩

/-- Of several formulas that are no templates one is named, with its operator. -/
theorem OperatorTable.exists_ofEntries_eq_error {es : List (Operator × Formula)}
    (hes : ∃ e ∈ es, e.2.isTemplate = false) :
    ∃ e ∈ es, e.2.isTemplate = false ∧ ofEntries es = .error (.templateVariables e.1 e.2) := by
  obtain ⟨e, he, htemplate, hfind⟩ := exists_find?_not_eq_some hes
  refine ⟨e, he, htemplate, ?_⟩
  unfold ofEntries
  split
  · next e' he' =>
    obtain rfl := Option.some.inj (hfind.symm.trans he')
    rfl
  · next hnone => cases hfind.symm.trans hnone

namespace Formula

theorem isTemplate_eq_false_iff {s : Formula} :
    s.isTemplate = false ↔ ∃ v ∈ s.vars, v ≠ .p ∧ v ≠ .q := by
  rw [← Bool.not_eq_true, isTemplate_iff]
  grind

/-- **Both substitutions are the plain recursion.**  For every formula, entries whose keys are
variable names give the tree in which every leaf is replaced whose name is a key, and entries whose
formulas use `p` and `q` only the tree in which every node is replaced whose operator is a key, at
all depths and without a look at sets; the recursion with short cuts on the sets and look-ups that
can miss has a result, and it is the same tree.  Otherwise the entries are refused for a key that is
no variable name, or for a formula that uses another variable, whatever the formula they are applied
to. -/
theorem substitutions_eq_fully (f : Formula) (es : List (String × Formula))
    (ts : List (Operator × Formula)) :
    ((∀ e ∈ es, isVariableName e.1 = true) →
      f.substituteVariables es = .ok (f.substituteFully (.ofLookup es)) ∧
        f.substitute? (.ofLookup es) = some (f.substituteFully (.ofLookup es))) ∧
    ((∃ e ∈ es, isVariableName e.1 = false) → ∃ e ∈ es, isVariableName e.1 = false ∧
      f.substituteVariables es = .error (.invalidKey e.1)) ∧
    ((∀ e ∈ ts, ∀ v ∈ e.2.vars, v = .p ∨ v = .q) →
      ∃ t : OperatorTable, (∀ o, t.template? o = ts.lookup o) ∧
        f.substituteOperators ts = .ok (f.expandFully t) ∧
        f.expand? t = some (f.expandFully t)) ∧
    ((∃ e ∈ ts, ∃ v ∈ e.2.vars, v ≠ .p ∧ v ≠ .q) → ∃ e ∈ ts,
      (∃ v ∈ e.2.vars, v ≠ .p ∧ v ≠ .q) ∧
        f.substituteOperators ts = .error (.templateVariables e.1 e.2)) := by
  refine ⟨fun hes => ⟨?_, substitute?_eq_some _ f⟩, fun hes => ?_, fun hts => ?_, fun hts => ?_⟩
  · rw [substituteVariables_eq_ok f hes, substitute_eq_substituteFully]
  · obtain ⟨e, he, hname, herror⟩ := Substitution.exists_ofEntries_eq_error hes
    refine ⟨e, he, hname, ?_⟩
    rw [substituteVariables, herror]
    rfl
  · obtain ⟨t, ht, hexpand⟩ := OperatorTable.exists_substituteOperators_eq_ok fun e he =>
      isTemplate_iff.mpr (hts e he)
    refine ⟨t, ht, ?_, expand?_eq_some t f⟩
    rw [hexpand, expand_eq_expandFully]
  · simp only [← isTemplate_eq_false_iff] at hts ⊢
    obtain ⟨e, he, htemplate, herror⟩ := OperatorTable.exists_ofEntries_eq_error hts
    refine ⟨e, he, htemplate, ?_⟩
    rw [substituteOperators, herror]
    rfl

/-- In `(~T->q)` the template of `~` leaves `q` unbound, and that of `T` brings a `q` in; neither is
looked up again.  A key `a` and a template with `r` are refused, though the formula `T` has nothing
to replace by them. -/
theorem substitutions_eq_fully_unused :
    (∀ e ∈ [("q", and (var .p) (var .q))], isVariableName e.1 = true) ∧
      (implies (not (const true)) (var .q)).substituteVariables [("q", and (var .p) (var .q))] =
        .ok (implies (not (const true)) (and (var .p) (var .q))) ∧
      (∀ e ∈ [(Operator.not, and (var .p) (var .q)), (.const true, var .q)],
        ∀ v ∈ e.2.vars, v = .p ∨ v = .q) ∧
      (implies (not (const true)) (var .q)).substituteOperators
          [(.not, and (var .p) (var .q)), (.const true, var .q)] =
        .ok (implies (and (var .q) (var .q)) (var .q)) ∧
      (∃ e ∈ [("q", const true), ("a", const false)], isVariableName e.1 = false) ∧
      (const true).substituteVariables [("q", const true), ("a", const false)] =
        .error (.invalidKey "a") ∧
      (∃ e ∈ [(Operator.const true, var .p), (.binary .xor, var ⟨"r", by decide⟩)],
        ∃ v ∈ e.2.vars, v ≠ .p ∧ v ≠ .q) ∧
      (const true).substituteOperators
          [(.const true, var .p), (.binary .xor, var ⟨"r", by decide⟩)] =
        .error (.templateVariables (.binary .xor) (var ⟨"r", by decide⟩)) := by
  have hes : ∀ e ∈ [("q", and (var .p) (var .q))], isVariableName e.1 = true := by decide
  have hts : ∀ e ∈ [(Operator.not, and (var .p) (var .q)), (.const true, var .q)],
      e.2.isTemplate = true := by decide
  have hts := fun e he => isTemplate_iff.mp (hts e he)
  have hkey : ∃ e ∈ [("q", const true), ("a", const false)], isVariableName e.1 = false :=
    ⟨("a", const false), by simp, by decide⟩
  have htemplate : ∃ e ∈ [(Operator.const true, var .p), (.binary .xor, var ⟨"r", by decide⟩)],
      e.2.isTemplate = false := ⟨(.binary .xor, var ⟨"r", by decide⟩), by simp, by decide⟩
  simp only [isTemplate_eq_false_iff] at htemplate
  obtain ⟨hvariables, -, hoperators, -⟩ := substitutions_eq_fully
    (implies (not (const true)) (var .q)) [("q", and (var .p) (var .q))]
    [(.not, and (var .p) (var .q)), (.const true, var .q)]
  obtain ⟨-, hrefusedKey, -, hrefusedTemplate⟩ := substitutions_eq_fully (const true)
    [("q", const true), ("a", const false)]
    [(.const true, var .p), (.binary .xor, var ⟨"r", by decide⟩)]
  obtain ⟨t, ht, hexpand, -⟩ := hoperators hts
  obtain ⟨e, he, hname, herror⟩ := hrefusedKey hkey
  obtain ⟨e', he', hvars, herror'⟩ := hrefusedTemplate htemplate
  obtain rfl : e = ("a", const false) := by
    simp only [List.mem_cons, List.not_mem_nil, or_false] at he
    rcases he with rfl | rfl
    · exact absurd hname (by decide)
    · rfl
  obtain rfl : e' = (.binary .xor, var ⟨"r", by decide⟩) := by
    simp only [List.mem_cons, List.not_mem_nil, or_false] at he'
    rcases he' with rfl | rfl
    · exact absurd (isTemplate_eq_false_iff.mpr hvars) (by decide)
    · rfl
  refine ⟨hes, (hvariables hes).1, hts, ?_, hkey, herror, htemplate, herror'⟩
  rw [hexpand]
  simp only [expandFully, ht]
  rfl

end Formula

end PropLogic

import PropLogic.Proofs.ModelCount
import PropLogic.Proofs.VariableSubstitution

/-!
# Expanding the count by a variable

The models of a formula are those in which a variable is true and those in which it is false.  In
either half the variable can be replaced by the constant, and its name is counted over no more.  On
the side of assignments this is the bijection `Assignment.splitOff`, which takes the value of one
name apart from those of the others; on the side of formulas it is the substitution lemma for a
single entry (`Formula.eval_substitute_single`).  Whether the variable occurs in the formula makes
no difference: if it does not, both halves are counted for the formula as it is.

Main statement: `Formula.countModels_expand`.
-/

namespace PropLogic

/-! ## Taking one name off -/

/-- The names without a certain one, wherever it stands. -/
def without (names : List String) (s : String) : List String :=
  names.filter (· != s)

theorem mem_without {names : List String} {s t : String} :
    t ∈ without names s ↔ t ∈ names ∧ t ≠ s := by
  simp [without]

namespace Assignment

variable {names : List String} {s : String} {v : Var}

/-- An assignment with a value for one more name. -/
def extend (s : String) (b : Bool) (a : Assignment (without names s)) : Assignment names :=
  fun t => if h : t.1 = s then b else a ⟨t.1, mem_without.mpr ⟨t.2, h⟩⟩

/-- The valuation changes at the variable of that name and nowhere else. -/
theorem valuation_extend (hv : v.name ∈ names) (b : Bool) (a : Assignment (without names v.name)) :
    (a.extend v.name b : Assignment names).valuation = Function.update a.valuation v b := by
  funext w
  by_cases hw : w = v
  · subst hw
    rw [Function.update_self, valuation_of_mem hv, extend, dif_pos rfl]
  · have hname : w.name ≠ v.name := fun h => hw (Var.ext h)
    rw [Function.update_of_ne hw]
    by_cases hmem : w.name ∈ names
    · rw [valuation_of_mem hmem, valuation_of_mem (mem_without.mpr ⟨hmem, hname⟩), extend,
        dif_neg hname]
    · have hout : w.name ∉ without names v.name := fun h => hmem (mem_without.mp h).1
      rw [valuation, valuation, dif_neg hmem, dif_neg hout]

/-- An assignment is a value for one of the names, together with an assignment to the others. -/
def splitOff (hs : s ∈ names) : Assignment names ≃ Bool × Assignment (without names s) where
  toFun a := (a ⟨s, hs⟩, a.restrict fun _ h => (mem_without.mp h).1)
  invFun p := p.2.extend s p.1
  left_inv a := by
    funext t
    by_cases ht : t.1 = s
    · obtain rfl : t = ⟨s, hs⟩ := Subtype.ext ht
      exact dif_pos rfl
    · exact dif_neg ht
  right_inv p := by
    refine Prod.ext (dif_pos rfl) (funext fun t => ?_)
    exact dif_neg (mem_without.mp t.2).2

/-- The assignments that give a name the value false, and those that give it the value true, are all
of them. -/
def halves (hs : s ∈ names) :
    Assignment (without names s) ⊕ Assignment (without names s) ≃ Assignment names :=
  ((splitOff hs).trans (Equiv.boolProdEquivSum _)).symm

/-- **The assignments fall into two halves,** by the value of a variable. -/
theorem card_eq_add (hv : v.name ∈ names) (P : (Var → Bool) → Bool) :
    Fintype.card {a : Assignment names // P a.valuation = true} =
      Fintype.card {a : Assignment (without names v.name) //
        P (Function.update a.valuation v true) = true} +
      Fintype.card {a : Assignment (without names v.name) //
        P (Function.update a.valuation v false) = true} := by
  have hsplit : {a : Assignment names // P a.valuation = true} ≃
      {a : Assignment (without names v.name) //
        P (a.extend v.name false : Assignment names).valuation = true} ⊕
      {a : Assignment (without names v.name) //
        P (a.extend v.name true : Assignment names).valuation = true} :=
    -- the half in which the name is false stands on the left
    ((halves hv).subtypeEquiv fun _ => Iff.rfl).symm.trans Equiv.subtypeSum
  simp only [valuation_extend hv] at hsplit
  rw [Fintype.card_congr hsplit, Fintype.card_sum, Nat.add_comm]

end Assignment

/-! ## One variable replaced -/

/-- A single entry replaces its variable and no other. -/
theorem Substitution.image_ofLookup_single (v w : Var) (g : Formula) :
    (ofLookup [(v.name, g)]).image w = if w = v then g else .var w := by
  by_cases hw : w = v
  · subst hw
    simp [image, ofLookup]
  · have hname : w.name ≠ v.name := fun h => hw (Var.ext h)
    simp [image, ofLookup, List.lookup_cons, beq_false_of_ne hname, hw]

namespace Formula

variable {f : Formula} {v : Var} {names : List String}

/-- **The substitution lemma for a single entry:** the variable has the value of its formula, and
all others keep theirs. -/
theorem eval_substitute_single (f g : Formula) (v : Var) (ρ : Var → Bool) :
    (f.substitute (.ofLookup [(v.name, g)])).eval ρ = f.eval (Function.update ρ v (g.eval ρ)) := by
  rw [eval_substitute]
  refine eval_congr fun w _ => ?_
  rw [Substitution.image_ofLookup_single]
  by_cases hw : w = v
  · rw [if_pos hw, hw, Function.update_self]
  · rw [if_neg hw, Function.update_of_ne hw, eval]

/-- Replacing a variable by a constant leaves the other variables. -/
theorem mem_occurrences_substitute_const {b : Bool} {w : Var} :
    w ∈ (f.substitute (.ofLookup [(v.name, .const b)])).occurrences ↔
      w ∈ f.occurrences ∧ w ≠ v := by
  rw [occurrences_substitute, List.mem_flatMap]
  constructor
  · rintro ⟨u, hu, hw⟩
    rw [Substitution.image_ofLookup_single] at hw
    split at hw
    · simp [occurrences] at hw
    · next huv =>
      obtain rfl : w = u := by simpa [occurrences] using hw
      exact ⟨hu, huv⟩
  · rintro ⟨hw, hne⟩
    refine ⟨w, hw, ?_⟩
    rw [Substitution.image_ofLookup_single, if_neg hne]
    simp [occurrences]

/-- The count for the formula with a constant in place of a variable, over the other names, is that
of the assignments in which the variable has this value. -/
theorem countModels_substitute_const (few : f.vars.length < 64)
    (h : ∀ w ∈ f.vars, w.name ∈ names) (b : Bool) :
    (f.substitute (.ofLookup [(v.name, .const b)])).countModels (without names v.name) =
      .ok (Fintype.card {a : Assignment (without names v.name) //
        f.eval (Function.update a.valuation v b) = true}) := by
  have hvars : ∀ w, w ∈ (f.substitute (.ofLookup [(v.name, .const b)])).vars →
      w ∈ f.vars ∧ w ≠ v := fun w hw => by
    rwa [mem_vars, mem_occurrences_substitute_const, ← mem_vars] at hw
  have fewLeft : (f.substitute (.ofLookup [(v.name, .const b)])).vars.length < 64 :=
    Nat.lt_of_le_of_lt (length_vars_le fun w hw => (hvars w hw).1) few
  have hnames : ∀ w ∈ (f.substitute (.ofLookup [(v.name, .const b)])).vars,
      w.name ∈ without names v.name := fun w hw =>
    mem_without.mpr ⟨h w (hvars w hw).1, fun he => (hvars w hw).2 (Var.ext he)⟩
  rw [countModels_eq_ok fewLeft hnames]
  simp only [eval_substitute_single, eval]

/-- **The count expands by a variable.**  Let the names include the fewer than 64 variables of a
formula, and let a variable be among them, whether it occurs in the formula or not.  The count is
the sum of that for the formula with the variable replaced by true and that for the formula with it
replaced by false, both over the names without it. -/
theorem countModels_expand (f : Formula) (few : f.vars.length < 64) (names : List String)
    (h : ∀ w ∈ f.vars, w.name ∈ names) (v : Var) (hv : v.name ∈ names) :
    ∃ (f₁ f₀ : Formula) (n₁ n₀ : Nat),
      f.substituteVariables [(v.name, .const true)] = .ok f₁ ∧
      f.substituteVariables [(v.name, .const false)] = .ok f₀ ∧
      f₁.countModels (without names v.name) = .ok n₁ ∧
      f₀.countModels (without names v.name) = .ok n₀ ∧
      f.countModels names = .ok (n₁ + n₀) := by
  have hkey : ∀ b, ∀ e ∈ [(v.name, const b)], isVariableName e.1 = true := fun b e he => by
    obtain rfl := List.mem_singleton.mp he
    exact v.isName
  refine ⟨_, _, _, _, substituteVariables_eq_ok f (hkey true),
    substituteVariables_eq_ok f (hkey false), countModels_substitute_const few h true,
    countModels_substitute_const few h false, ?_⟩
  rw [countModels_eq_ok few h, Assignment.card_eq_add hv fun ρ => f.eval ρ]

/-- Over `q`, `p`, `x1`, `q` the six models of `(p|q)` are the four of `(p|T)` and the two of
`(p|F)` over `p` and `x1`. -/
theorem countModels_expand_four_two :
    (or (var .p) (var .q)).vars.length < 64 ∧
      (∀ w ∈ (or (var .p) (var .q)).vars, w.name ∈ ["q", "p", "x1", "q"]) ∧
      Var.q.name ∈ ["q", "p", "x1", "q"] ∧
      (or (var .p) (var .q)).substituteVariables [("q", const true)] =
        .ok (or (var .p) (const true)) ∧
      (or (var .p) (var .q)).substituteVariables [("q", const false)] =
        .ok (or (var .p) (const false)) ∧
      (or (var .p) (const true)).countModels ["p", "x1"] = .ok 4 ∧
      (or (var .p) (const false)).countModels ["p", "x1"] = .ok 2 ∧
      (or (var .p) (var .q)).countModels ["q", "p", "x1", "q"] = .ok 6 := by
  have hocc : ∀ w ∈ (or (var .p) (var .q)).occurrences, w.name ∈ ["q", "p", "x1", "q"] := by decide
  have hnames := fun w hw => hocc w (mem_vars.mp hw)
  have hleft : ∀ b, ∀ w ∈ (or (var .p) (const b)).vars, w.name ∈ ["p", "x1"] := fun b w hw => by
    obtain rfl : w = .p := by simpa [occurrences] using hw
    decide
  have few : (or (var .p) (var .q)).vars.length < 64 := length_vars_lt_of_occurrences (by decide)
  have hmem : Var.q.name ∈ ["q", "p", "x1", "q"] := by decide
  obtain ⟨f₁, f₀, n₁, n₀, hf₁, hf₀, hn₁, hn₀, hn⟩ := countModels_expand _ few _ hnames .q hmem
  obtain rfl := Except.ok.inj (hf₁.symm.trans rfl)
  obtain rfl := Except.ok.inj (hf₀.symm.trans rfl)
  have hfour : (or (var .p) (const true)).countModels ["p", "x1"] = .ok 4 := by
    rw [countModels_eq_ok (length_vars_lt_of_occurrences (by decide)) (hleft true),
      Except.ok.injEq]
    decide +kernel
  have htwo : (or (var .p) (const false)).countModels ["p", "x1"] = .ok 2 := by
    rw [countModels_eq_ok (length_vars_lt_of_occurrences (by decide)) (hleft false),
      Except.ok.injEq]
    decide +kernel
  obtain rfl := Except.ok.inj (hfour.symm.trans hn₁)
  obtain rfl := Except.ok.inj (htwo.symm.trans hn₀)
  exact ⟨few, hnames, hmem, hf₁, hf₀, hn₁, hn₀, hn⟩

end Formula

end PropLogic

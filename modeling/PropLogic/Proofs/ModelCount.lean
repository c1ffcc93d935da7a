import Mathlib.Data.Fintype.BigOperators
import Mathlib.Data.Fintype.Pi
import PropLogic.Proofs.Decision

/-!
# Counting models

The count goes through the rows over a formula's own variables and doubles the result for every
other name.  What it has to give is the number of assignments to all the names, which may be any
texts and repeat; `Assignment names` is the type of these.  An assignment to the names is one to the
formula's own together with a free choice of values for the others (`Assignment.split`), and the
assignments to variables are the rows over them (`Assignment.countP_rows`).

Main statement: `Formula.countModels_eq_card`, with the other side of it: names that leave out a
variable of the formula are refused.
-/

namespace PropLogic

/-- An assignment of truth values to the members of a list of names, which may be any texts. -/
abbrev Assignment (names : List String) :=
  {s // s ∈ names} → Bool

namespace Assignment

/-- The values of the variables, false for one that is not among the names. -/
def valuation {names : List String} (a : Assignment names) (v : Var) : Bool :=
  if h : v.name ∈ names then a ⟨v.name, h⟩ else false

variable {own names : List String} {P : (Var → Bool) → Bool}

theorem valuation_of_mem {a : Assignment names} {v : Var} (h : v.name ∈ names) :
    a.valuation v = a ⟨v.name, h⟩ :=
  dif_pos h

/-! ## Fewer names -/

/-- The assignment to some of the names only. -/
def restrict (h : own ⊆ names) (a : Assignment names) : Assignment own :=
  fun s => a ⟨s, h s.2⟩

theorem valuation_restrict (h : own ⊆ names) (a : Assignment names) {v : Var} (hv : v.name ∈ own) :
    (a.restrict h).valuation v = a.valuation v := by
  rw [valuation_of_mem hv, valuation_of_mem (h hv), restrict]

/-- An assignment is one to some of the names, together with values of the others. -/
def split (h : own ⊆ names) :
    Assignment names ≃ Assignment own × ({s : {s // s ∈ names} // s.1 ∉ own} → Bool) where
  toFun a := (a.restrict h, fun s => a s.1)
  invFun p s := if hs : s.1 ∈ own then p.1 ⟨s.1, hs⟩ else p.2 ⟨s, hs⟩
  left_inv a := by
    funext s
    by_cases hs : s.1 ∈ own <;> simp [hs, restrict]
  right_inv p := by
    refine Prod.ext (funext fun s => ?_) (funext fun s => ?_)
    · exact dif_pos s.2
    · exact dif_neg s.2

theorem card_others (h : own ⊆ names) :
    Fintype.card {s : {s // s ∈ names} // s.1 ∉ own} =
      names.toFinset.card - own.toFinset.card := by
  have hnames : Fintype.card {s // s ∈ names} = names.toFinset.card :=
    Fintype.card_of_subtype _ fun _ => List.mem_toFinset
  have hown : Fintype.card {s : {s // s ∈ names} // s.1 ∈ own} = own.toFinset.card := by
    rw [Fintype.card_congr (Equiv.subtypeSubtypeEquivSubtype fun hs => h hs)]
    exact Fintype.card_of_subtype _ fun _ => List.mem_toFinset
  rw [Fintype.card_subtype_compl, hnames, hown]

/-- **Every other name doubles the number of assignments,** if it makes no difference. -/
theorem card_of_subset (h : own ⊆ names) (hP : DependsOn P {v | v.name ∈ own}) :
    Fintype.card {a : Assignment names // P a.valuation = true} =
      Fintype.card {a : Assignment own // P a.valuation = true} *
        2 ^ (names.toFinset.card - own.toFinset.card) := by
  have hsame : ∀ a : Assignment names, P (a.restrict h).valuation = P a.valuation := fun a =>
    hP fun v hv => valuation_restrict h a hv
  have hsplit : {a : Assignment names // P a.valuation = true} ≃
      {a : Assignment own // P a.valuation = true} ×
        ({s : {s // s ∈ names} // s.1 ∉ own} → Bool) :=
    ((split h).subtypeEquiv fun a => by rw [← hsame a]; rfl).trans
      (Equiv.prodSubtypeFstEquivSubtypeProd (p := fun a : Assignment own => P a.valuation = true))
  rw [Fintype.card_congr hsplit, Fintype.card_prod, Fintype.card_fun, Fintype.card_bool,
    card_others h]

/-! ## Assignments to variables -/

/-- The values that a model gives to the names. -/
def ofModel (names : List String) (m : Model) : Assignment names :=
  fun s => m[s.1]?.getD false

theorem valuation_ofModel {m : Model} {v : Var} (hv : v.name ∈ names) :
    (ofModel names m).valuation v = m.valuation v := by
  rw [valuation_of_mem hv, ofModel, Model.valuation]

/-- Models over the names are told apart by the values that they give to these. -/
theorem eq_of_ofModel_eq {m m' : Model} (hm : m.IsOver names) (hm' : m'.IsOver names)
    (h : ofModel names m = ofModel names m') : m = m' := by
  refine hm.ext hm' fun s hs => ?_
  obtain ⟨b, hb⟩ := Option.isSome_iff_exists.mp
    (Std.ExtTreeMap.mem_iff_isSome_getElem?.mp ((hm s).mpr hs))
  obtain ⟨b', hb'⟩ := Option.isSome_iff_exists.mp
    (Std.ExtTreeMap.mem_iff_isSome_getElem?.mp ((hm' s).mpr hs))
  have hvalue := congrFun h ⟨s, hs⟩
  rw [ofModel, ofModel, hb, hb', Option.getD_some, Option.getD_some] at hvalue
  rw [hb, hb', hvalue]

/-- Every assignment to variables is that of a row. -/
theorem mem_map_ofModel_rows {vs : List Var} (a : Assignment (vs.map Var.name)) :
    a ∈ (Model.rows vs).map (ofModel (vs.map Var.name)) := by
  have hrow : Model.ofValuation vs a.valuation ∈ Model.rows vs :=
    Model.mem_rows_iff.mpr (Model.isOver_ofValuation vs _)
  refine List.mem_map.mpr ⟨_, hrow, funext fun ⟨s, hs⟩ => ?_⟩
  obtain ⟨v, hv, rfl⟩ := List.mem_map.mp hs
  rw [ofModel, Model.getElem?_ofValuation hv, Option.getD_some, valuation_of_mem hs]

/-- **The rows over distinct variables are the assignments to them,** so that counting the ones is
counting the others. -/
theorem countP_rows {vs : List Var} (hvs : vs.Nodup) (hP : DependsOn P {v | v ∈ vs}) :
    (Model.rows vs).countP (fun m => P m.valuation) =
      Fintype.card {a : Assignment (vs.map Var.name) // P a.valuation = true} := by
  have hnodup : ((Model.rows vs).map (ofModel (vs.map Var.name))).Nodup :=
    (Model.rows_nodup hvs).map_on fun _ hm _ hm' h =>
      eq_of_ofModel_eq (Model.isOver_of_mem_rows hm) (Model.isOver_of_mem_rows hm') h
  have hsame : ∀ m, P (ofModel (vs.map Var.name) m).valuation = P m.valuation := fun m =>
    hP fun v hv => valuation_ofModel (Var.name_mem_map.mpr hv)
  rw [Fintype.card_of_subtype (((Model.rows vs).map (ofModel (vs.map Var.name))).filter
      fun a => P a.valuation).toFinset fun a => by simp [mem_map_ofModel_rows],
    List.toFinset_card_of_nodup (hnodup.filter _), ← List.countP_eq_length_filter,
    List.countP_map]
  exact List.countP_congr fun m _ => by rw [Function.comp_apply, hsame]

end Assignment

/-! ## The count -/

theorem count_true_map {α : Type} (l : List α) (Q : α → Bool) :
    (l.map Q).count true = l.countP Q := by
  rw [List.count_eq_countP, List.countP_map]
  exact List.countP_congr fun _ _ => beq_iff_eq

namespace Formula

variable {f : Formula} {names : List String}

theorem card_toFinset_vars (f : Formula) :
    (f.vars.map Var.name).toFinset.card = f.vars.length := by
  rw [List.toFinset_card_of_nodup ((vars_nodup f).map Var.name_injective), List.length_map]

/-- The truth value depends on no other names than those of the variables. -/
theorem dependsOn_eval_names (h : ∀ v ∈ f.vars, v.name ∈ names) :
    DependsOn (fun ρ => f.eval ρ) {v | v.name ∈ names} :=
  fun _ _ hρ => eval_congr fun v hv => hρ v (h v (mem_vars.mpr hv))

theorem countOwn_eq_ok (few : f.vars.length < 64) : f.countOwn =
    .ok (Fintype.card {a : Assignment (f.vars.map Var.name) // f.eval a.valuation = true}) := by
  obtain ⟨e, he, hrest⟩ := Enumeration.exists_ofVars_eq_ok few
  have hvalues : e.mapM f.valueIn = .ok ((Model.rows f.vars).map fun m => f.eval m.valuation) := by
    rw [← hrest]
    refine Enumeration.mapM_eq_ok fun m hm => valueIn_eq_ok (fun _ => mem_vars.mpr) fun v hv => ?_
    exact (Model.isOver_of_mem_rows (hrest ▸ hm)).assigns hv
  have hcount := Assignment.countP_rows (vars_nodup f) (dependsOn_eval fun _ => mem_vars.mpr)
  calc f.countOwn = (do return (← e.mapM f.valueIn).count true) := by
        rw [countOwn, he]
        rfl
    _ = .ok (((Model.rows f.vars).map fun m => f.eval m.valuation).count true) := by
        rw [hvalues]
        rfl
    _ = _ := by rw [count_true_map, hcount]

theorem countModels_eq_ok (few : f.vars.length < 64) (h : ∀ v ∈ f.vars, v.name ∈ names) :
    f.countModels names =
      .ok (Fintype.card {a : Assignment names // f.eval a.valuation = true}) := by
  have hfind : (f.vars.find? fun v => !names.contains v.name) = none := by
    simpa using h
  have hown : f.vars.map Var.name ⊆ names := by
    intro s hs
    obtain ⟨v, hv, rfl⟩ := List.mem_map.mp hs
    exact h v hv
  have hdepends : DependsOn (fun ρ => f.eval ρ) {v | v.name ∈ f.vars.map Var.name} :=
    dependsOn_eval_names fun v hv => Var.name_mem_map.mpr hv
  rw [countModels, hfind, countOwn_eq_ok few, Assignment.card_of_subset hown hdepends,
    card_toFinset_vars, ← length_eraseDups_eq_card]
  rfl

/-- Names that leave out a variable are refused. -/
theorem countModels_eq_error {v : Var} (hv : v ∈ f.vars) (hnames : v.name ∉ names) :
    ∃ w ∈ f.vars, w.name ∉ names ∧ f.countModels names = .error (.notCounted w) := by
  cases hfind : f.vars.find? fun v => !names.contains v.name with
  | none =>
    have hcontains := List.find?_eq_none.mp hfind v hv
    simp [hnames] at hcontains
  | some w =>
    refine ⟨w, List.mem_of_find?_eq_some hfind, by simpa using List.find?_some hfind, ?_⟩
    rw [countModels, hfind]
    rfl

/-- **The count is the number of assignments under which the formula is true.**  The names may be
any texts and repeat, as long as they include the fewer than 64 variables of the formula.  If the
distinct ones are variable names, and again fewer than 64, it is the number of rows over them in
which the formula is true.  If a variable of the formula is not among the names, there is no
count. -/
theorem countModels_eq_card (f : Formula) (names : List String) :
    (f.vars.length < 64 → (∀ v ∈ f.vars, v.name ∈ names) →
      f.countModels names =
        .ok (Fintype.card {a : Assignment names // f.eval a.valuation = true}) ∧
      ∀ distinct : List String, distinct.Nodup → (∀ s, s ∈ distinct ↔ s ∈ names) →
        (∀ s ∈ distinct, isVariableName s = true) → distinct.length < 64 →
        ∃ (e : Enumeration) (bs : List Bool), Enumeration.ofNames distinct = .ok e ∧
          f.truthValuesOver e = .ok bs ∧ f.countModels names = .ok (bs.count true)) ∧
    ((∃ v ∈ f.vars, v.name ∉ names) →
      ∃ v ∈ f.vars, v.name ∉ names ∧ f.countModels names = .error (.notCounted v)) := by
  refine ⟨fun few h => ⟨countModels_eq_ok few h, ?_⟩, fun ⟨v, hv, hnames⟩ =>
    countModels_eq_error hv hnames⟩
  intro distinct hdistinct hmem valid fewDistinct
  lift distinct to List Var using valid with vs
  rw [List.length_map] at fewDistinct
  obtain ⟨e, he, hrest⟩ := Enumeration.exists_ofVars_eq_ok fewDistinct
  have hvs : ∀ v ∈ f.occurrences, v ∈ vs := fun v hv =>
    Var.name_mem_map.mp ((hmem v.name).mpr (h v (mem_vars.mpr hv)))
  have hsame : names.toFinset = (vs.map Var.name).toFinset := by
    ext s
    rw [List.mem_toFinset, List.mem_toFinset, hmem]
  have hsubset : vs.map Var.name ⊆ names := fun s => (hmem s).mp
  have hdepends : DependsOn (fun ρ => f.eval ρ) {v | v.name ∈ vs.map Var.name} :=
    dependsOn_eval_names fun v hv => (hmem _).mpr (h v hv)
  have hrows := Assignment.countP_rows (List.Nodup.of_map _ hdistinct) (dependsOn_eval hvs)
  refine ⟨e, _, by rw [Enumeration.ofNames_map_name, he], truthValuesOver_eq_ok hvs hrest, ?_⟩
  rw [countModels_eq_ok few h, count_true_map, hrows, Assignment.card_of_subset hsubset hdepends,
    hsame, Nat.sub_self, Nat.pow_zero, Nat.mul_one]

/-- Twelve assignments to `q`, `T`, `p` and the empty text make `(p|q)` true, three to its variables
for each of the four to the names that are none; without `q` among the names there is no count. -/
theorem countModels_eq_card_twelve :
    (Formula.or (.var .p) (.var .q)).vars.length < 64 ∧
      (∀ v ∈ (Formula.or (.var .p) (.var .q)).vars, v.name ∈ ["q", "T", "p", "q", ""]) ∧
      (Formula.or (.var .p) (.var .q)).countModels ["q", "T", "p", "q", ""] = .ok 12 ∧
      (Formula.or (.var .p) (.var .q)).countModels ["T", "p"] = .error (.notCounted .q) := by
  have few : (Formula.or (.var .p) (.var .q)).vars.length < 64 :=
    Nat.lt_of_le_of_lt (length_ascending_le _) (by decide)
  have hmem : ∀ v, v ∈ (Formula.or (.var .p) (.var .q)).vars ↔ v = .p ∨ v = .q := fun v => by
    simp [occurrences]
  have hnames : ∀ v ∈ (Formula.or (.var .p) (.var .q)).vars,
      v.name ∈ ["q", "T", "p", "q", ""] := by
    intro v hv
    rcases (hmem v).mp hv with rfl | rfl <;> decide
  obtain ⟨hcount, -⟩ := (countModels_eq_card _ ["q", "T", "p", "q", ""]).1 few hnames
  obtain ⟨v, hv, hout, herror⟩ := (countModels_eq_card _ ["T", "p"]).2
    ⟨.q, (hmem .q).mpr (.inr rfl), by decide⟩
  have hv' : v = .q := by
    rcases (hmem v).mp hv with rfl | rfl
    · exact absurd (by decide) hout
    · rfl
  have hcard : Fintype.card {a : Assignment ["q", "T", "p", "q", ""] //
      (Formula.or (.var .p) (.var .q)).eval a.valuation = true} = 12 := by decide +kernel
  exact ⟨few, hnames, hcard ▸ hcount, hv' ▸ herror⟩

end Formula

end PropLogic

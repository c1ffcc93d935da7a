import Mathlib.Data.List.Basic
import Mathlib.Logic.Function.DependsOn
import PropLogic.Proofs.Rows

/-!
# The sequence of all models

An enumeration gives its models one at a time until it has none left; `Enumeration.Yields` says
which.  Main statements: `Enumeration.ofNames_yields_rows`, what the models over a list of names
are, in which order they come and how often; and `Model.forall_mem_rows_iff`, that what depends on
the listed names only holds of all valuations as soon as it holds in all rows.  The latter is what
makes a search through the rows a question about all models.
-/

namespace PropLogic

/-- A function that has a result for every member of a list has all of them, in order. -/
theorem mapM_eq_pure {m : Type → Type} [Monad m] [LawfulMonad m] {α β : Type} {l : List α}
    {f : α → m β} {g : α → β} (h : ∀ a ∈ l, f a = pure (g a)) : l.mapM f = pure (l.map g) := by
  induction l with
  | nil => simp
  | cons a l ih =>
    obtain ⟨ha, hl⟩ := List.forall_mem_cons.mp h
    rw [List.mapM_cons, ha, ih hl, pure_bind, pure_bind, List.map_cons]

/-- A function with one kind of fault only, which it has at some member of a list, fails in this way
on the list. -/
theorem mapM_eq_error {ε α β : Type} {l : List α} {f : α → Except ε β} {x : ε}
    (h : ∀ a ∈ l, ∀ y, f a = .error y → y = x) {a : α} (ha : a ∈ l) (hx : f a = .error x) :
    l.mapM f = .error x := by
  induction l with
  | nil => cases ha
  | cons b l ih =>
    obtain ⟨hb, hl⟩ := List.forall_mem_cons.mp h
    rw [List.mapM_cons]
    cases hfb : f b with
    | error y =>
      rw [hb y hfb]
      rfl
    | ok z =>
      rcases List.mem_cons.mp ha with rfl | ha
      · rw [hx] at hfb
        cases hfb
      · rw [ih hl ha]
        rfl

/-- Texts that are variable names can be taken for variables. -/
instance : CanLift String Var Var.name (fun s => isVariableName s = true) where
  prf s hs := ⟨⟨s, hs⟩, rfl⟩

namespace Enumeration

/-- From this place on the sequence gives exactly the listed models, in order. -/
inductive Yields : Enumeration → List Model → Prop
  | done {e : Enumeration} : e.next? = none → Yields e []
  | step {e e' : Enumeration} {m : Model} {ms : List Model} :
    e.next? = some (m, e') → Yields e' ms → Yields e (m :: ms)

/-- The sequence gives the models that are left, one at a time. -/
theorem yields_rest (e : Enumeration) : e.Yields e.rest := by
  cases hn : e.next? with
  | none =>
    rw [rest_of_next?_eq_none hn]
    exact .done hn
  | some p =>
    rw [rest_of_next? hn]
    exact .step hn (yields_rest p.2)
termination_by e.rest.length
decreasing_by
  rw [rest_of_next? hn]
  exact Nat.lt_succ_self _

/-- The sequence decides which models it gives. -/
theorem Yields.eq_rest {e : Enumeration} {ms : List Model} (h : e.Yields ms) : ms = e.rest := by
  induction h with
  | done hn => rw [rest_of_next?_eq_none hn]
  | step hn _ ih => rw [rest_of_next? hn, ih]

/-- Fewer than 64 variables can be gone through, and what is left at the beginning are the rows. -/
theorem exists_ofVars_eq_ok {vs : List Var} (few : vs.length < 64) :
    ∃ e, ofVars vs = .ok e ∧ e.rest = Model.rows vs := by
  refine ⟨_, dif_pos few, ?_⟩
  rw [rest, remaining, Nat.sub_zero, ← List.range_eq_range', Model.rows]

/-- The sequence goes over the variables for which it was asked. -/
theorem names_of_ofVars {vs : List Var} {e : Enumeration} (h : ofVars vs = .ok e) :
    e.names = vs := by
  unfold ofVars at h
  split at h
  · cases h
    rfl
  · cases h

/-- A reader that knows the names of variables reads them all. -/
theorem mapM_map_name {f : String → Except Fault Var} (hf : ∀ v : Var, f v.name = .ok v)
    (vs : List Var) : (vs.map Var.name).mapM f = .ok vs := by
  have hmap : vs.mapM (f ∘ Var.name) = .ok (vs.map id) := mapM_eq_pure fun v _ => hf v
  rw [List.mapM_map, hmap, List.map_id]

/-- The names of variables are accepted. -/
theorem ofNames_map_name (vs : List Var) : ofNames (vs.map Var.name) = ofVars vs := by
  rw [ofNames, mapM_map_name fun v => by rw [Var.ofName?_name]]
  rfl

/-- What the sequence over the names of variables gives are the rows over these. -/
theorem eq_rows_of_yields {vs : List Var} {e : Enumeration} {ms : List Model}
    (he : ofNames (vs.map Var.name) = .ok e) (hms : e.Yields ms) : ms = Model.rows vs := by
  rw [ofNames_map_name, ofVars] at he
  split at he
  · next few =>
    obtain ⟨e', he', hrest⟩ := exists_ofVars_eq_ok few
    rw [ofVars, dif_pos few, he] at he'
    cases he'
    rw [hms.eq_rest, hrest]
  · cases he

/-- **The sequence of all models over `n` names,** fewer than 64, has `2 ^ n` members.  The one in
row `r` has exactly the names as keys and gives each the digit of `r` at the last place where the
name stands.  If the names are distinct, every model over them comes once, and they come in strict
lexicographic order, false before true; otherwise every one comes twice as often for each name that
repeats another. -/
theorem ofNames_yields_rows (names : List String)
    (valid : ∀ s ∈ names, isVariableName s = true) (few : names.length < 64) :
    ∃ (e : Enumeration) (ms : List Model), ofNames names = .ok e ∧ e.Yields ms ∧
      ms.length = 2 ^ names.length ∧
      (∀ (r : Nat) (m : Model), ms[r]? = some m → m.IsOver names ∧
        ∀ (i : Nat) (s : String), names[i]? = some s → s ∉ names.drop (i + 1) →
          m[s]? = some (r.testBit (names.length - 1 - i))) ∧
      (names.Nodup → (∀ m : Model, m.IsOver names → ms.count m = 1) ∧
        ms.Pairwise fun m m' => m.values names < m'.values names) ∧
      ∀ m : Model, m.IsOver names → ms.count m = 2 ^ (names.length - names.toFinset.card) := by
  lift names to List Var using valid with vs
  rw [List.length_map] at few ⊢
  obtain ⟨e, he, hrest⟩ := exists_ofVars_eq_ok few
  have hcount : ∀ m : Model, m.IsOver (vs.map Var.name) → (Model.rows vs).count m =
      2 ^ (vs.length - (vs.map Var.name).toFinset.card) := by
    intro m hm
    rw [Model.count_rows hm, List.card_toFinset, List.dedup_map_of_injective Var.name_injective,
      List.length_map]
  refine ⟨e, Model.rows vs, ?_, hrest ▸ e.yields_rest, Model.length_rows vs, ?_, ?_, hcount⟩
  · rw [ofNames_map_name, he]
  · intro r m hm
    obtain rfl := Model.getElem?_rows hm
    refine ⟨Model.row_isOver vs r, fun i s hs hlast => ?_⟩
    rw [List.getElem?_map] at hs
    obtain ⟨v, hv, rfl⟩ := Option.map_eq_some_iff.mp hs
    refine Model.getElem?_row hv (fun hmem => hlast ?_) r
    rw [← List.map_drop]
    exact List.mem_map_of_mem hmem
  · intro hdistinct
    refine ⟨fun m hm => ?_, Model.rows_pairwise_values_lt (List.Nodup.of_map _ hdistinct)⟩
    rw [hcount m hm, List.toFinset_card_of_nodup hdistinct, List.length_map, Nat.sub_self,
      Nat.pow_zero]

/-- Over `q`, `p`, `q` there are eight rows for the four models of `p` and `q`; in row six, which has
the digits `110`, the last of them is that of `q`. -/
theorem ofNames_yields_rows_repeated :
    (∀ s ∈ ["q", "p", "q"], isVariableName s = true) ∧ ["q", "p", "q"].length < 64 ∧
      ∃ (e : Enumeration) (ms : List Model), ofNames ["q", "p", "q"] = .ok e ∧ e.Yields ms ∧
        ms.length = 8 ∧ (∃ m, ms[6]? = some m ∧ m["p"]? = some true ∧ m["q"]? = some false) ∧
        ms.count (.ofPairs [(.p, true), (.q, false)]) = 2 := by
  have valid : ∀ s ∈ ["q", "p", "q"], isVariableName s = true := by decide
  have few : ["q", "p", "q"].length < 64 := by decide
  obtain ⟨e, ms, he, hms, hlength, hrow, -, hcount⟩ :=
    ofNames_yields_rows ["q", "p", "q"] valid few
  have hlt : 6 < ms.length := by
    rw [hlength]
    decide
  obtain ⟨-, hbits⟩ := hrow 6 ms[6] (List.getElem?_eq_getElem hlt)
  have hover : (Model.ofPairs [(.p, true), (.q, false)]).IsOver ["q", "p", "q"] := by
    intro s
    simp only [Model.ofPairs, Var.p, Var.q, List.foldl_cons, List.foldl_nil,
      Std.ExtTreeMap.mem_insert, Std.compare_eq_iff_eq, Std.ExtTreeMap.not_mem_empty,
      List.mem_cons, List.not_mem_nil]
    grind
  refine ⟨valid, few, e, ms, he, hms, hlength, ⟨ms[6], List.getElem?_eq_getElem hlt, ?_, ?_⟩, ?_⟩
  · exact hbits 1 "p" (by decide) (by decide)
  · exact hbits 2 "q" (by decide) (by decide)
  · rw [hcount _ hover]
    decide

end Enumeration

/-! ## Rows stand for all valuations -/

namespace Model

theorem IsOver.isValid {m : Model} {vs : List Var} (hm : m.IsOver (vs.map Var.name)) :
    m.isValid = true := by
  rw [isValid_iff]
  intro s hs
  obtain ⟨v, -, rfl⟩ := List.mem_map.mp ((hm s).mp hs)
  exact v.isName

theorem IsOver.assigns {m : Model} {vs : List Var} (hm : m.IsOver (vs.map Var.name)) {v : Var}
    (hv : v ∈ vs) : m.assigns v = true :=
  assigns_iff_mem.mpr ((hm v.name).mpr (Var.name_mem_map.mpr hv))

/-- The listed variables have their values in the model of a valuation. -/
theorem valuation_ofValuation {vs : List Var} {v : Var} (hv : v ∈ vs) (ρ : Var → Bool) :
    (ofValuation vs ρ).valuation v = ρ v := by
  rw [valuation, getElem?_ofValuation hv, Option.getD_some]

/-- Models that assign the variables agree on the names exactly if their valuations agree. -/
theorem agree_iff {vs : List Var} {m m' : Model} (hm : ∀ v ∈ vs, m.assigns v = true)
    (hm' : ∀ v ∈ vs, m'.assigns v = true) :
    (∀ s ∈ vs.map Var.name, m[s]? = m'[s]?) ↔ ∀ v ∈ vs, m.valuation v = m'.valuation v := by
  rw [List.forall_mem_map]
  refine forall₂_congr fun v hv => ?_
  rw [getElem?_of_assigns (hm v hv), getElem?_of_assigns (hm' v hv), Option.some_inj]

/-- **Distinct names tell the rows apart:** rows that give them the same values are one. -/
theorem row_injective {vs : List Var} (hvs : vs.Nodup) {r r' : Nat} (hr : r < rowCount vs.length)
    (hr' : r' < rowCount vs.length)
    (h : ∀ v ∈ vs, (row vs r).valuation v = (row vs r').valuation v) : r = r' := by
  have hover := row_isOver vs r
  have hover' := row_isOver vs r'
  have hrow : row vs r = row vs r' :=
    hover.ext hover' ((agree_iff (fun _ => hover.assigns) fun _ => hover'.assigns).mpr h)
  exact List.inj_on_of_nodup_map (rows_nodup hvs) (List.mem_range.mpr hr) (List.mem_range.mpr hr')
    hrow

theorem isOver_ofValuation (vs : List Var) (ρ : Var → Bool) :
    (ofValuation vs ρ).IsOver (vs.map Var.name) := by
  have hnames : (vs.map fun v => (v, ρ v)).map (fun p => p.1.name) = vs.map Var.name := by
    rw [List.map_map]
    rfl
  exact hnames ▸ isOver_ofPairs _

variable {vs : List Var} {P : (Var → Bool) → Bool}

/-- **What holds in all rows holds under all valuations,** if it depends on the listed variables
only. -/
theorem forall_mem_rows_iff (hP : DependsOn P {v | v ∈ vs}) :
    (∀ m ∈ rows vs, P m.valuation = true) ↔ ∀ ρ, P ρ = true := by
  refine ⟨fun h ρ => ?_, fun h m _ => h m.valuation⟩
  have hrow := h (ofValuation vs ρ) (mem_rows_iff.mpr (isOver_ofValuation vs ρ))
  rwa [hP fun v hv => valuation_ofValuation hv ρ] at hrow

/-- So does what holds in all valid models that assign these variables, whatever else they
assign. -/
theorem forall_valuation_iff (hP : DependsOn P {v | v ∈ vs}) :
    (∀ m : Model, m.isValid = true → (∀ v ∈ vs, m.assigns v = true) → P m.valuation = true) ↔
      ∀ ρ, P ρ = true := by
  refine ⟨fun h ρ => ?_, fun h m _ _ => h m.valuation⟩
  have hover := isOver_ofValuation vs ρ
  have hmodel := h (ofValuation vs ρ) hover.isValid fun v hv => hover.assigns hv
  rwa [hP fun v hv => valuation_ofValuation hv ρ] at hmodel

end Model

/-! ## Searching through the sequence -/

namespace Enumeration

section Search

variable {ε : Type} {test : Model → Except ε Bool} {Q : Model → Bool}

theorem allRows_eq_ok {names : List Var} {count r : Nat}
    (h : ∀ m ∈ (List.range' r count).map (Model.row names), test m = .ok (Q m)) :
    allRows names test count r = .ok (((List.range' r count).map (Model.row names)).all Q) := by
  induction count generalizing r with
  | zero => rfl
  | succ k ih =>
    rw [List.range'_succ, List.map_cons] at h ⊢
    obtain ⟨hr, hrest⟩ := List.forall_mem_cons.mp h
    rw [allRows, hr, List.all_cons]
    cases Q (Model.row names r) with
    | false => rfl -- here the search ends
    | true => exact ih hrest

/-- A test that has an answer on every model accepts all of them or not. -/
theorem allM_eq_ok {e : Enumeration} (h : ∀ m ∈ e.rest, test m = .ok (Q m)) :
    e.allM test = .ok (e.rest.all Q) :=
  allRows_eq_ok h

variable {α : Type} {value : Model → Except ε α} {A : Model → α}

theorem mapRows_eq_ok {names : List Var} {done : List α} {count r : Nat}
    (h : ∀ m ∈ (List.range' r count).map (Model.row names), value m = .ok (A m)) :
    mapRows names value done count r =
      .ok (done.reverse ++ ((List.range' r count).map (Model.row names)).map A) := by
  induction count generalizing r done with
  | zero => simp [mapRows]
  | succ k ih =>
    rw [List.range'_succ, List.map_cons] at h ⊢
    obtain ⟨hr, hrest⟩ := List.forall_mem_cons.mp h
    rw [mapRows, hr, List.map_cons, List.append_cons, ← List.reverse_cons]
    exact ih hrest

/-- A function that has a value on every model has all of them, in order. -/
theorem mapM_eq_ok {e : Enumeration} (h : ∀ m ∈ e.rest, value m = .ok (A m)) :
    e.mapM value = .ok (e.rest.map A) :=
  mapRows_eq_ok h

/-- A function that fails on the next model has no values. -/
theorem mapM_eq_error {e : Enumeration} {m : Model} {ms : List Model} {x : ε}
    (he : e.rest = m :: ms) (hx : value m = .error x) : e.mapM value = .error x := by
  unfold rest at he
  rw [mapM]
  cases hremaining : e.remaining with
  | zero =>
    rw [hremaining] at he
    cases he
  | succ k =>
    rw [hremaining, List.range'_succ, List.map_cons] at he
    obtain ⟨rfl, -⟩ := List.cons.inj he
    rw [mapRows, hx]

end Search

open scoped Classical in
/-- **The search for a row that a test refuses is a question about all valuations,** if the test
looks at the listed variables only. -/
theorem ofVars_allM_eq_ok {vs : List Var} (few : vs.length < 64) {test : Model → Except Fault Bool}
    {P : (Var → Bool) → Bool} (hP : DependsOn P {v | v ∈ vs})
    (htest : ∀ m : Model, m.isValid = true → (∀ v ∈ vs, m.assigns v = true) →
      test m = .ok (P m.valuation)) :
    (do (← ofVars vs).allM test) = .ok (decide (∀ ρ, P ρ = true)) := by
  obtain ⟨e, he, hrest⟩ := exists_ofVars_eq_ok few
  have htest' : ∀ m ∈ e.rest, test m = .ok (P m.valuation) := by
    rw [hrest]
    intro m hm
    have hover := Model.isOver_of_mem_rows hm
    exact htest m hover.isValid fun v hv => hover.assigns hv
  have hall : (Model.rows vs).all (fun m => P m.valuation) = decide (∀ ρ, P ρ = true) := by
    rw [Bool.eq_iff_iff, List.all_eq_true, decide_eq_true_iff, Model.forall_mem_rows_iff hP]
  rw [he, ← hall, ← hrest]
  exact allM_eq_ok htest'

open scoped Classical in
/-- The search for a row that a test accepts, likewise. -/
theorem ofVars_anyM_eq_ok {vs : List Var} (few : vs.length < 64) {test : Model → Except Fault Bool}
    {P : (Var → Bool) → Bool} (hP : DependsOn P {v | v ∈ vs})
    (htest : ∀ m : Model, m.isValid = true → (∀ v ∈ vs, m.assigns v = true) →
      test m = .ok (P m.valuation)) :
    (do (← ofVars vs).anyM test) = .ok (decide (∃ ρ, P ρ = true)) := by
  have hP' : DependsOn (fun ρ => !P ρ) {v | v ∈ vs} := fun _ _ h => congrArg _ (hP h)
  have htest' : ∀ m : Model, m.isValid = true → (∀ v ∈ vs, m.assigns v = true) →
      (test m).map (!·) = .ok (!P m.valuation) := fun m hm hvs => by
    rw [htest m hm hvs]
    rfl
  have hnone : decide (∃ ρ, P ρ = true) = !decide (∀ ρ, (!P ρ) = true) := by
    rw [← decide_not, decide_eq_decide, not_forall]
    exact exists_congr fun ρ => by simp
  calc (do (← ofVars vs).anyM test)
      = (do (← ofVars vs).allM fun m => (test m).map (!·)).map (!·) := by
        cases ofVars vs <;> rfl
    _ = .ok (decide (∃ ρ, P ρ = true)) := by
        rw [ofVars_allM_eq_ok few hP' htest', hnone]
        rfl

end Enumeration

/-! ## Truth values in the rows -/

namespace Formula

variable {f : Formula} {vs : List Var}

/-- A row over the variables of a formula, and maybe more, has a value for it. -/
theorem evaluate_eq_ok_of_mem_rows {m : Model} (h : ∀ v ∈ f.occurrences, v ∈ vs)
    (hm : m ∈ Model.rows vs) : f.evaluate m = .ok (f.eval m.valuation) := by
  have hover := Model.isOver_of_mem_rows hm
  exact evaluate_eq_ok (Model.covers_iff.mpr ⟨hover.isValid, fun v hv => hover.assigns (h v hv)⟩)

theorem truthValuesOver_eq_ok {e : Enumeration} (h : ∀ v ∈ f.occurrences, v ∈ vs)
    (he : e.rest = Model.rows vs) :
    f.truthValuesOver e = .ok ((Model.rows vs).map fun m => f.eval m.valuation) := by
  rw [truthValuesOver,
    Enumeration.mapM_eq_ok fun m hm => evaluate_eq_ok_of_mem_rows h (he ▸ hm), he]

end Formula

end PropLogic

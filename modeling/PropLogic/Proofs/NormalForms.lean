import PropLogic.Proofs.Chain
import PropLogic.Proofs.Decision

/-!
# Normal forms have the given truth table

A clause has the sign of its form in one model over the names and the other value in all others
(`NormalForm.eval_clause_eq_sign_iff`), and a form has it where some clause has.  Both facts are the
same lemma on chains: the outer connective is dominated by the sign, the inner one by its negation.
So the disjunctive and the conjunctive form are never told apart before the main statements;
`NormalForm.Represents` says of both what it means to have a list of values as truth table, also if
the list is too short or too long and if names repeat, and `NormalForm.exists_ofValues_eq_ok` that
there is such a formula for every list.

Main statements: `NormalForm.disjunctive_ofValues_true_iff` and
`NormalForm.conjunctive_ofValues_false_iff`, in terms of models and of the sequence of the rows.
-/

namespace PropLogic

namespace Formula

theorem eval_literal (v : Var) (positive : Bool) (ρ : Var → Bool) :
    (literal v positive).eval ρ = (ρ v == positive) := by
  cases positive <;> simp [literal, eval]

theorem occurrences_literal (v : Var) (positive : Bool) :
    (literal v positive).occurrences = [v] := by
  cases positive <;> rfl

theorem eq_not_of_mem_operators_literal {v : Var} {positive : Bool} {o : Operator}
    (h : o ∈ (literal v positive).operators) : o = .not := by
  cases positive with
  | true => simp [literal, operators_var] at h
  | false =>
    rcases mem_operators_not.mp h with rfl | h
    · rfl
    · simp [operators_var] at h

end Formula

namespace NormalForm

variable {k : NormalForm} {names : List Var} {values : List Bool} {f : Formula}

/-! ## Clauses -/

theorem apply_outer_eq_sign_iff (k : NormalForm) (a b : Bool) :
    k.outer.apply a b = k.sign ↔ a = k.sign ∨ b = k.sign := by
  cases k <;> cases a <;> cases b <;> decide

theorem apply_inner_eq_not_sign_iff (k : NormalForm) (a b : Bool) :
    k.inner.apply a b = (!k.sign) ↔ a = (!k.sign) ∨ b = (!k.sign) := by
  cases k <;> cases a <;> cases b <;> decide

/-- **A clause singles out its model:** its value is the sign of the form exactly under the
valuations that agree with the model on the names. -/
theorem eval_clause_eq_sign_iff {m : Model} (h : k.clause? names m = some f) (ρ : Var → Bool) :
    f.eval ρ = k.sign ↔ ∀ v ∈ names, ρ v = m.valuation v := by
  have hliteral : ∀ v, (Formula.literal v (m.valuation v == k.sign)).eval ρ = (!k.sign) ↔
      ρ v ≠ m.valuation v := by
    intro v
    rw [Formula.eval_literal]
    cases k <;> cases ρ v <;> cases m.valuation v <;> decide
  have hclause := Formula.eval_chain_eq_iff k.apply_inner_eq_not_sign_iff h ρ
  rw [← not_iff_not, ← ne_eq, ← Bool.eq_not_iff, hclause]
  constructor
  · rintro ⟨g, hg, hvalue⟩ hagree
    obtain ⟨v, hv, rfl⟩ := List.mem_map.mp hg
    exact (hliteral v).mp hvalue (hagree v hv)
  · intro hdiffer
    obtain ⟨v, hv⟩ := Classical.not_forall.mp hdiffer
    obtain ⟨hv, hne⟩ := Classical.not_imp.mp hv
    exact ⟨_, List.mem_map_of_mem hv, (hliteral v).mpr hne⟩

theorem occurrences_clause {m : Model} (h : k.clause? names m = some f) :
    f.occurrences = names := by
  rw [Formula.occurrences_chain h, List.flatMap_map]
  simp [Formula.occurrences_literal]

theorem mem_operators_of_clause {m : Model} {o : Operator} (h : k.clause? names m = some f)
    (ho : o ∈ f.operators) : o ∈ [Operator.not, .binary .and, .binary .or] := by
  rcases Formula.mem_operators_of_chain h ho with rfl | ⟨g, hg, hog⟩
  · cases k <;> decide
  · obtain ⟨v, -, rfl⟩ := List.mem_map.mp hg
    rw [Formula.eq_not_of_mem_operators_literal hog]
    exact List.mem_cons_self

theorem exists_clause?_eq_some (k : NormalForm) (h : names ≠ []) (m : Model) :
    ∃ f, k.clause? names m = some f := by
  cases names with
  | nil => exact absurd rfl h
  | cons v vs => exact ⟨_, rfl⟩

/-- There is a clause for each row with a value that is the sign of the form. -/
theorem mem_clauses_iff : f ∈ k.clauses names values ↔
    ∃ r < rowCount names.length, values[r]? = some k.sign ∧
      k.clause? names (.row names r) = some f := by
  rw [clauses, List.mem_filterMap]
  constructor
  · rintro ⟨⟨b, r⟩, hmem, hf⟩
    have hvalue := List.mem_zipIdx_iff_getElem?.mp hmem
    rw [List.getElem?_take] at hvalue
    split at hvalue
    · next hr =>
      split at hf
      · next hb => exact ⟨r, hr, hb ▸ hvalue, hf⟩
      · cases hf
    · cases hvalue
  · rintro ⟨r, hr, hvalue, hf⟩
    refine ⟨(k.sign, r), ?_, by simpa using hf⟩
    rw [List.mem_zipIdx_iff_getElem?, List.getElem?_take, if_pos hr, hvalue]

/-! ## Forms -/

/-- The formula has the list of values as truth table over the names: its value is the sign of the
form where the valuation is that of a row with this value. -/
structure Represents (k : NormalForm) (names : List Var) (values : List Bool) (f : Formula) :
    Prop where
  eval_eq_sign_iff : ∀ ρ, f.eval ρ = k.sign ↔
    ∃ r < rowCount names.length, values[r]? = some k.sign ∧
      ∀ v ∈ names, ρ v = (Model.row names r).valuation v
  mem_names : ∀ v ∈ f.occurrences, v ∈ names
  mem_operators : ∀ o ∈ f.operators, o ∈ [Operator.not, .binary .and, .binary .or]

/-- The clauses joined by the outer connective represent the values. -/
theorem represents_chain (hnames : names ≠ [])
    (h : Formula.chain? k.outer (k.clauses names values) = some f) :
    k.Represents names values f := by
  refine ⟨fun ρ => ?_, fun v hv => ?_, fun o ho => ?_⟩
  · rw [Formula.eval_chain_eq_iff k.apply_outer_eq_sign_iff h]
    constructor
    · rintro ⟨g, hg, hvalue⟩
      obtain ⟨r, hr, hsign, hclause⟩ := mem_clauses_iff.mp hg
      exact ⟨r, hr, hsign, (eval_clause_eq_sign_iff hclause ρ).mp hvalue⟩
    · rintro ⟨r, hr, hsign, hrow⟩
      obtain ⟨g, hclause⟩ := k.exists_clause?_eq_some hnames (.row names r)
      exact ⟨g, mem_clauses_iff.mpr ⟨r, hr, hsign, hclause⟩,
        (eval_clause_eq_sign_iff hclause ρ).mpr hrow⟩
  · rw [Formula.occurrences_chain h] at hv
    obtain ⟨g, hg, hv⟩ := List.mem_flatMap.mp hv
    obtain ⟨r, -, -, hclause⟩ := mem_clauses_iff.mp hg
    exact occurrences_clause hclause ▸ hv
  · rcases Formula.mem_operators_of_chain h ho with rfl | ⟨g, hg, hog⟩
    · cases k <;> decide
    · obtain ⟨r, -, -, hclause⟩ := mem_clauses_iff.mp hg
      exact mem_operators_of_clause hclause hog

/-- Without clauses no row has the sign of the form as value, and neither has the formula that is
taken instead. -/
theorem represents_trivialClause {v : Var} (hv : v ∈ names) (h : k.clauses names values = []) :
    k.Represents names values (k.trivialClause v) := by
  refine ⟨fun ρ => iff_of_false ?_ ?_, fun w hw => ?_, fun o ho => ?_⟩
  · rw [trivialClause, Formula.eval, Formula.eval_literal, Formula.eval_literal]
    cases k <;> cases ρ v <;> decide
  · rintro ⟨r, hr, hsign, -⟩
    obtain ⟨g, hclause⟩ := k.exists_clause?_eq_some (List.ne_nil_of_mem hv) (.row names r)
    exact List.not_mem_nil (h ▸ mem_clauses_iff.mpr ⟨r, hr, hsign, hclause⟩)
  · have hwv : w = v := by
      simpa [trivialClause, Formula.occurrences, Formula.occurrences_literal] using hw
    exact hwv ▸ hv
  · have ho' : o = .binary k.inner ∨ o = .not := by
      rcases Formula.mem_operators_binary.mp ho with ho | ho | ho
      · exact .inl ho
      · exact .inr (Formula.eq_not_of_mem_operators_literal ho)
      · exact .inr (Formula.eq_not_of_mem_operators_literal ho)
    rcases ho' with rfl | rfl
    · cases k <;> decide
    · exact List.mem_cons_self

/-- **Every list of values has a formula,** in either form. -/
theorem exists_ofValues_eq_ok (k : NormalForm) (hnames : names ≠ []) (few : names.length < 64)
    (values : List Bool) :
    ∃ f, k.ofValues (names.map Var.name) values = .ok f ∧ k.Represents names values f := by
  rw [ofValues, Enumeration.ofNames_map_name, Enumeration.ofVars, dif_pos few]
  cases names with
  | nil => exact absurd rfl hnames
  | cons v vs =>
    refine ⟨_, rfl, ?_⟩
    cases h : Formula.chain? k.outer (k.clauses (v :: vs) values) with
    | some f => exact represents_chain hnames h
    | none =>
      refine represents_trivialClause List.mem_cons_self ?_
      cases hclauses : k.clauses (v :: vs) values with
      | nil => rfl
      | cons f fs =>
        rw [hclauses] at h
        cases h

/-! ## Values in models and rows -/

/-- **A form has a value in every model that assigns the names.**  It is the sign exactly if the
model agrees on the names with a row that has this value. -/
theorem Represents.evaluate_eq_ok (hf : k.Represents names values f) {m : Model}
    (valid : m.isValid = true) (assigns : ∀ v ∈ names, m.assigns v = true) :
    f.evaluate m = .ok (f.eval m.valuation) ∧ (f.eval m.valuation = k.sign ↔
      ∃ r < 2 ^ names.length, values[r]? = some k.sign ∧
        ∃ row, (Model.rows names)[r]? = some row ∧
          ∀ s ∈ names.map Var.name, row[s]? = m[s]?) := by
  constructor
  · exact Formula.evaluate_eq_ok
      (Model.covers_iff.mpr ⟨valid, fun v hv => assigns v (hf.mem_names v hv)⟩)
  · rw [hf.eval_eq_sign_iff]
    refine exists_congr fun r => and_congr_right fun hr => and_congr_right fun _ => ?_
    have hagree := Model.agree_iff assigns fun _ => (Model.row_isOver names r).assigns
    rw [← hagree, Model.getElem?_rows_of_lt hr]
    constructor
    · intro h
      exact ⟨_, rfl, fun s hs => (h s hs).symm⟩
    · rintro ⟨row, hrow, h⟩ s hs
      obtain rfl := Option.some.inj hrow
      exact (h s hs).symm

/-- Over distinct names the formula has in each row the value that is listed for it. -/
theorem Represents.eval_row (hf : k.Represents names values f) (hnames : names.Nodup) {r : Nat}
    (hr : r < rowCount names.length) :
    f.eval (Model.row names r).valuation = values[r]?.getD (!k.sign) := by
  have hiff : f.eval (Model.row names r).valuation = k.sign ↔ values[r]? = some k.sign := by
    rw [hf.eval_eq_sign_iff]
    constructor
    · rintro ⟨r', hr', hsign, hrow⟩
      obtain rfl := Model.row_injective hnames hr hr' hrow
      exact hsign
    · intro hsign
      exact ⟨r, hr, hsign, fun _ _ => rfl⟩
  by_cases hsign : values[r]? = some k.sign
  · rw [hsign, Option.getD_some, hiff.mpr hsign]
  · rw [Bool.eq_not_iff.mpr (hiff.not.mpr hsign)]
    cases hvalue : values[r]? with
    | none => rfl
    | some b =>
      have hb : b ≠ k.sign := fun h => hsign (h ▸ hvalue)
      rw [Option.getD_some, Bool.eq_not_iff.mpr hb]

/-- A list cut to a length and padded to it. -/
theorem map_range_getD {α : Type} (n : Nat) (l : List α) (d : α) :
    (List.range n).map (fun r => l[r]?.getD d) =
      l.take n ++ List.replicate (n - l.length) d := by
  refine List.ext_getElem (by simp; omega) fun r h h' => ?_
  rw [List.getElem_map, List.getElem_range, List.getElem_append]
  split
  · next hr =>
    rw [List.length_take] at hr
    rw [List.getElem_take, List.getElem?_eq_getElem (by omega), Option.getD_some]
  · next hr =>
    rw [List.length_take] at hr
    rw [List.length_map, List.length_range] at h
    rw [List.getElem_replicate, List.getElem?_eq_none (by omega), Option.getD_none]

/-- Where two forms of opposite signs have theirs together, they negate each other. -/
theorem eq_not_of_sign_iff {k' : NormalForm} {a b : Bool} (hsign : k'.sign = !k.sign)
    (h : b = k'.sign ↔ a = k.sign) : b = !a := by
  rw [hsign] at h
  revert h
  cases a <;> cases b <;> cases k.sign <;> decide

/-- The form of the other kind, for the negated values, has the negated value. -/
theorem Represents.eval_dual {k' : NormalForm} {g : Formula} (hf : k.Represents names values f)
    (hg : k'.Represents names (values.map (!·)) g) (hsign : k'.sign = !k.sign) (ρ : Var → Bool) :
    g.eval ρ = !f.eval ρ := by
  refine eq_not_of_sign_iff hsign ?_
  rw [hf.eval_eq_sign_iff, hg.eval_eq_sign_iff]
  refine exists_congr fun r => and_congr_right fun _ => and_congr_left fun _ => ?_
  rw [List.getElem?_map, hsign, Option.map_eq_some_iff]
  simp

/-- **Over distinct names the truth table is the list of values,** cut to the number of rows or
padded with the other value than the sign. -/
theorem Represents.truthValuesOver (hf : k.Represents names values f) (hnames : names.Nodup)
    {e : Enumeration} (he : e.rest = Model.rows names) : f.truthValuesOver e =
      .ok (values.take (2 ^ names.length) ++
        List.replicate (2 ^ names.length - values.length) (!k.sign)) := by
  rw [Formula.truthValuesOver_eq_ok hf.mem_names he, Model.rows, List.map_map, ← map_range_getD]
  refine congrArg _ (List.map_congr_left fun r hr => ?_)
  exact hf.eval_row hnames (List.mem_range.mp hr)

/-! ## The disjunctive form -/

/-- **The disjunctive form has the given values.**  For every non-empty list of fewer than 64 names
and every list of values there is a formula.  It is true in a model exactly if the model agrees on
the names with a row whose value is true; so over distinct names its truth table is the list of
values, cut to the number of rows and padded with false.  It is written with negation, conjunction
and disjunction alone. -/
theorem disjunctive_ofValues_true_iff (names : List String) (values : List Bool)
    (nonempty : names ≠ []) (valid : ∀ s ∈ names, isVariableName s = true)
    (few : names.length < 64) :
    ∃ (f : Formula) (e : Enumeration) (ms : List Model),
      disjunctive.ofValues names values = .ok f ∧ Enumeration.ofNames names = .ok e ∧
      e.Yields ms ∧
      (∀ m : Model, m.isValid = true → (∀ s ∈ names, s ∈ m) → ∃ b, f.evaluate m = .ok b ∧
        (b = true ↔ ∃ r < 2 ^ names.length, values[r]? = some true ∧
          ∃ row, ms[r]? = some row ∧ ∀ s ∈ names, row[s]? = m[s]?)) ∧
      (names.Nodup → f.truthValuesOver e = .ok (values.take (2 ^ names.length) ++
        List.replicate (2 ^ names.length - values.length) false)) ∧
      ∀ o ∈ f.operators, o ∈ [Operator.not, .binary .and, .binary .or] := by
  lift names to List Var using valid with vs
  rw [List.length_map] at few ⊢
  have hvs : vs ≠ [] := fun h => nonempty (h ▸ rfl)
  obtain ⟨f, hvalues, hf⟩ := exists_ofValues_eq_ok disjunctive hvs few values
  obtain ⟨e, he, hrest⟩ := Enumeration.exists_ofVars_eq_ok few
  refine ⟨f, e, Model.rows vs, hvalues, ?_, hrest ▸ e.yields_rest, ?_, ?_, hf.mem_operators⟩
  · rw [Enumeration.ofNames_map_name, he]
  · intro m hm hnames
    obtain ⟨hvalue, hiff⟩ := hf.evaluate_eq_ok hm fun v hv =>
      Model.assigns_iff_mem.mpr (hnames v.name (Var.name_mem_map.mpr hv))
    exact ⟨_, hvalue, hiff⟩
  · intro hdistinct
    exact hf.truthValuesOver (List.Nodup.of_map _ hdistinct) hrest

/-- Over `q`, `p`, `q` the four values are those of the first four of eight rows.  In the last of
these `p` and `q` are true, so the formula is true in the model where they are; the two rows with `p`
true and `q` false have the value false and none. -/
theorem disjunctive_ofValues_true_iff_repeated :
    ["q", "p", "q"] ≠ [] ∧ (∀ s ∈ ["q", "p", "q"], isVariableName s = true) ∧
      ["q", "p", "q"].length < 64 ∧
      ∃ f, disjunctive.ofValues ["q", "p", "q"] [true, false, false, true] = .ok f ∧
        f.evaluate (.ofPairs [(.p, true), (.q, true)]) = .ok true ∧
        f.evaluate (.ofPairs [(.p, true), (.q, false)]) = .ok false := by
  have valid : ∀ s ∈ ["q", "p", "q"], isVariableName s = true := by decide
  obtain ⟨f, e, ms, hf, he, hms, hmodels, -⟩ := disjunctive_ofValues_true_iff ["q", "p", "q"]
    [true, false, false, true] (by decide) valid (by decide)
  obtain rfl : ms = Model.rows [.q, .p, .q] := Enumeration.eq_rows_of_yields he hms
  obtain ⟨b, hb, htrue⟩ := hmodels (.ofPairs [(.p, true), (.q, true)]) (by decide +kernel)
    (by decide +kernel)
  obtain ⟨b', hb', hfalse⟩ := hmodels (.ofPairs [(.p, true), (.q, false)]) (by decide +kernel)
    (by decide +kernel)
  refine ⟨by decide, valid, by decide, f, hf, ?_, ?_⟩
  · have hrow : (Model.rows [.q, .p, .q])[3]? = some (Model.row [.q, .p, .q] 3) := rfl
    rw [hb, htrue.mpr ⟨3, by decide, rfl, _, hrow, by decide +kernel⟩]
  · have hdiffer : ∀ r < 2 ^ ["q", "p", "q"].length, [true, false, false, true][r]? = some true →
        ¬ ∀ s ∈ ["q", "p", "q"], (Model.row [.q, .p, .q] r)[s]? =
          (Model.ofPairs [(.p, true), (.q, false)])[s]? := by decide +kernel
    have hnot : b' ≠ true := by
      rw [ne_eq, hfalse]
      rintro ⟨r, hr, hvalue, row, hrow, hagree⟩
      obtain rfl := Model.getElem?_rows hrow
      exact hdiffer r hr hvalue hagree
    rw [hb', Bool.eq_false_iff.mpr hnot]

/-! ## The conjunctive form -/

/-- **The conjunctive form has the given values,** too: it is false in a model exactly if the model
agrees on the names with a row whose value is false, which makes it the negation of the disjunctive
form of the negated values; and the rows beyond the last value are true. -/
theorem conjunctive_ofValues_false_iff (names : List String) (values : List Bool)
    (nonempty : names ≠ []) (valid : ∀ s ∈ names, isVariableName s = true)
    (few : names.length < 64) :
    ∃ (f g : Formula) (e : Enumeration) (ms : List Model),
      conjunctive.ofValues names values = .ok f ∧
      disjunctive.ofValues names (values.map (!·)) = .ok g ∧
      Enumeration.ofNames names = .ok e ∧ e.Yields ms ∧
      (∀ m : Model, m.isValid = true → (∀ s ∈ names, s ∈ m) → ∃ b, f.evaluate m = .ok b ∧
        (b = false ↔ ∃ r < 2 ^ names.length, values[r]? = some false ∧
          ∃ row, ms[r]? = some row ∧ ∀ s ∈ names, row[s]? = m[s]?) ∧
        g.evaluate m = .ok (!b)) ∧
      (names.Nodup → f.truthValuesOver e = .ok (values.take (2 ^ names.length) ++
        List.replicate (2 ^ names.length - values.length) true)) := by
  lift names to List Var using valid with vs
  rw [List.length_map] at few ⊢
  have hvs : vs ≠ [] := fun h => nonempty (h ▸ rfl)
  obtain ⟨f, hvalues, hf⟩ := exists_ofValues_eq_ok conjunctive hvs few values
  obtain ⟨g, hnegated, hg⟩ := exists_ofValues_eq_ok disjunctive hvs few (values.map (!·))
  obtain ⟨e, he, hrest⟩ := Enumeration.exists_ofVars_eq_ok few
  refine ⟨f, g, e, Model.rows vs, hvalues, hnegated, ?_, hrest ▸ e.yields_rest, ?_, ?_⟩
  · rw [Enumeration.ofNames_map_name, he]
  · intro m hm hnames
    have assigns : ∀ v ∈ vs, m.assigns v = true := fun v hv =>
      Model.assigns_iff_mem.mpr (hnames v.name (Var.name_mem_map.mpr hv))
    obtain ⟨hvalue, hiff⟩ := hf.evaluate_eq_ok hm assigns
    refine ⟨_, hvalue, hiff, ?_⟩
    rw [(hg.evaluate_eq_ok hm assigns).1, hf.eval_dual hg rfl]
  · intro hdistinct
    exact hf.truthValuesOver (List.Nodup.of_map _ hdistinct) hrest

/-- Over `q` and `p` five values are one too many and the last is left out; the second row, in which
`q` is false and `p` is true, is the only false one. -/
theorem conjunctive_ofValues_false_iff_long :
    ["q", "p"] ≠ [] ∧ (∀ s ∈ ["q", "p"], isVariableName s = true) ∧ ["q", "p"].length < 64 ∧
      ∃ (f : Formula) (e : Enumeration),
        conjunctive.ofValues ["q", "p"] [true, false, true, true, false] = .ok f ∧
        Enumeration.ofNames ["q", "p"] = .ok e ∧
        f.truthValuesOver e = .ok [true, false, true, true] ∧
        f.evaluate (.ofPairs [(.p, true), (.q, false)]) = .ok false := by
  have valid : ∀ s ∈ ["q", "p"], isVariableName s = true := by decide
  obtain ⟨f, g, e, ms, hf, -, he, hms, hmodels, htable⟩ := conjunctive_ofValues_false_iff
    ["q", "p"] [true, false, true, true, false] (by decide) valid (by decide)
  obtain rfl : ms = Model.rows [.q, .p] := Enumeration.eq_rows_of_yields he hms
  obtain ⟨b, hb, hfalse, -⟩ := hmodels (.ofPairs [(.p, true), (.q, false)]) (by decide +kernel)
    (by decide +kernel)
  refine ⟨by decide, valid, by decide, f, e, hf, he, htable (by decide), ?_⟩
  have hrow : (Model.rows [.q, .p])[1]? = some (Model.row [.q, .p] 1) := rfl
  rw [hb, hfalse.mpr ⟨1, by decide, rfl, _, hrow, by decide +kernel⟩]

end NormalForm

end PropLogic

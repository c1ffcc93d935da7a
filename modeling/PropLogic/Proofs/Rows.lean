import Mathlib.Algebra.Order.Ring.Nat
import Mathlib.Data.Finset.Card
import PropLogic.Proofs.Coincidence

/-!
# The rows of a truth table

`Model.rows vs` lists the rows over the names `vs`.  A name in front of a list counts only where it
is new, and its value is the digit above those of the rest (`Model.row_cons`), so the longer list
has the rows of the shorter one twice: for a new name once with false, then once with true
(`Model.rows_cons`).  Keys, order and repetitions of the rows follow by induction along this
recursion.

Main statements: `Model.getElem?_row`, which digit a name has as its value;
`Model.rows_pairwise_values_lt`, that the rows over distinct names are in strict lexicographic
order; and `Model.count_rows`, that every model with the names as keys is the row of equally many
numbers, twice as many for each name that repeats another.
-/

namespace PropLogic

/-! ## Digits -/

theorem rowCount_eq_two_pow (n : Nat) : rowCount n = 2 ^ n := rfl

theorem rowCount_succ (n : Nat) : rowCount (n + 1) = rowCount n + rowCount n := by
  rw [rowCount_eq_two_pow, rowCount_eq_two_pow, Nat.pow_succ, Nat.mul_two]

/-- The highest of the digits comes first. -/
theorem digits_succ (n r : Nat) : digits (n + 1) r = r.testBit n :: digits n r := by
  rw [digits, digits, List.range_succ_eq_map, List.map_cons, List.map_map]
  refine congrArg₂ List.cons (by simp) (List.map_congr_left fun i _ => ?_)
  have hi : n + 1 - 1 - (i + 1) = n - 1 - i := by omega
  rw [Function.comp_apply, Nat.succ_eq_add_one, hi]

/-- Going on by the number of rows leaves the `n` lowest digits as they are. -/
theorem digits_rowCount_add (n r : Nat) : digits n (rowCount n + r) = digits n r := by
  refine List.map_congr_left fun i hi => ?_
  have hlt : n - 1 - i < n := by
    have := List.mem_range.mp hi
    omega
  exact Nat.testBit_two_pow_add_gt hlt r

/-- A digit of a 64-bit word is found by shifting and masking. -/
theorem testBit_eq_word {r k : Nat} (hr : r < 2 ^ 64) (hk : k < 64) :
    r.testBit k = ((UInt64.ofNat r >>> UInt64.ofNat k) &&& 1 == 1) := by
  have hword : ((UInt64.ofNat r >>> UInt64.ofNat k) &&& 1).toNat = (r >>> k) % 2 := by
    rw [UInt64.toNat_and, UInt64.toNat_shiftRight, UInt64.toNat_ofNat_of_lt' hr,
      UInt64.toNat_ofNat_of_lt' (Nat.lt_trans hk (by decide)), Nat.mod_eq_of_lt hk]
    exact Nat.and_one_is_mod _
  rw [Bool.eq_iff_iff, beq_iff_eq, ← UInt64.toNat_inj, hword, Nat.testBit_eq_decide_div_mod_eq,
    decide_eq_true_iff, Nat.shiftRight_eq_div_pow]
  rfl

/-- **Rows can be counted in machine words.**  Up to 63 names the number of rows is a one shifted
into a 64-bit word, and shifting and masking the number of a row gives its digits. -/
theorem rows_fit_words {n : Nat} (few : n < 64) :
    ((1 : UInt64) <<< UInt64.ofNat n).toNat = rowCount n ∧ ∀ r < rowCount n,
      digits n r = (List.range n).map fun i =>
        (UInt64.ofNat r >>> UInt64.ofNat (n - 1 - i)) &&& 1 == 1 := by
  have hcount : rowCount n < 2 ^ 64 := Nat.pow_lt_pow_right (by decide) few
  constructor
  · rw [UInt64.toNat_shiftLeft, UInt64.toNat_ofNat_of_lt' (Nat.lt_trans few (by decide)),
      Nat.mod_eq_of_lt few, Nat.shiftLeft_eq]
    exact (Nat.mod_eq_of_lt ((Nat.one_mul _).trans_lt hcount)).trans (Nat.one_mul _)
  · intro r hr
    refine List.map_congr_left fun i _ => testBit_eq_word (Nat.lt_trans hr hcount) ?_
    omega

/-! ## Names -/

theorem Var.name_injective : Function.Injective Var.name :=
  fun _ _ h => Var.ext h

theorem Var.name_mem_map {v : Var} {vs : List Var} : v.name ∈ vs.map Var.name ↔ v ∈ vs :=
  List.mem_map_of_injective Var.name_injective

namespace Model

/-- The keys of the model are the given names. -/
def IsOver (m : Model) (names : List String) : Prop :=
  ∀ s, s ∈ m ↔ s ∈ names

/-- The values of the names, in the order of the list; false for a name without a value. -/
def values (m : Model) (names : List String) : List Bool :=
  names.map fun s => m[s]?.getD false

/-- The model with a value for the variable, unless it has one already. -/
def assignNew (m : Model) (v : Var) (b : Bool) : Model :=
  m.insertIfNew v.name b

theorem getElem?_assignNew (m : Model) (v : Var) (b : Bool) (s : String) :
    (m.assignNew v b)[s]? = m[s]?.or (if v.name = s then some b else none) := by
  rw [assignNew, Std.ExtTreeMap.getElem?_insertIfNew]
  by_cases hs : v.name = s
  · subst hs
    by_cases hv : v.name ∈ m
    · simp [hv]
    · simp [hv]
  · simp [hs]

theorem mem_assignNew {m : Model} {v : Var} {b : Bool} {s : String} :
    s ∈ m.assignNew v b ↔ v.name = s ∨ s ∈ m := by
  simp [assignNew]

/-- A variable that has a value keeps it. -/
theorem assignNew_of_mem {m : Model} {v : Var} (h : v.name ∈ m) (b : Bool) :
    m.assignNew v b = m := by
  refine Std.ExtTreeMap.ext_getElem? fun s => ?_
  rw [getElem?_assignNew]
  by_cases hs : v.name = s
  · subst hs
    simp [h]
  · simp [hs]

/-- A new value can be taken away again. -/
theorem assignNew_eq_iff {m m' : Model} {v : Var} {b : Bool} (h : v.name ∉ m) :
    m.assignNew v b = m' ↔ m'[v.name]? = some b ∧ m = m'.erase v.name := by
  constructor
  · rintro rfl
    refine ⟨by simp [getElem?_assignNew, h], Std.ExtTreeMap.ext_getElem? fun s => ?_⟩
    rw [Std.ExtTreeMap.getElem?_erase, getElem?_assignNew]
    by_cases hs : v.name = s
    · subst hs
      simp [h]
    · simp [hs]
  · rintro ⟨hb, rfl⟩
    refine Std.ExtTreeMap.ext_getElem? fun s => ?_
    rw [getElem?_assignNew, Std.ExtTreeMap.getElem?_erase]
    by_cases hs : v.name = s
    · subst hs
      simp [hb]
    · simp [hs]

/-- The first of the pairs counts only where its name is new. -/
theorem ofPairs_cons (v : Var) (b : Bool) (ps : List (Var × Bool)) :
    ofPairs ((v, b) :: ps) = (ofPairs ps).assignNew v b := by
  refine Std.ExtTreeMap.ext_getElem? fun s => ?_
  rw [getElem?_assignNew, getElem?_ofPairs, getElem?_ofPairs, List.reverse_cons,
    List.find?_append, Option.map_or]
  by_cases hs : v.name = s <;> simp [hs]

/-- The keys are the names of the pairs. -/
theorem isOver_ofPairs (ps : List (Var × Bool)) :
    (ofPairs ps).IsOver (ps.map fun p => p.1.name) := by
  induction ps with
  | nil => simp [IsOver, ofPairs]
  | cons p ps ih =>
    obtain ⟨v, b⟩ := p
    intro s
    rw [ofPairs_cons, mem_assignNew, ih s, List.map_cons, List.mem_cons, eq_comm]

/-- **The row of a longer list.**  A name in front counts only where it is new, and its value is the
digit above those of the rest. -/
theorem row_cons (v : Var) (vs : List Var) (r : Nat) :
    row (v :: vs) r = (row vs r).assignNew v (r.testBit vs.length) := by
  rw [row, List.length_cons, digits_succ, List.zip_cons_cons, ofPairs_cons, row]

/-- The rows repeat beyond the last one. -/
theorem row_rowCount_add (vs : List Var) (r : Nat) :
    row vs (rowCount vs.length + r) = row vs r := by
  rw [row, digits_rowCount_add, row]

/-- Every row has the names as keys. -/
theorem row_isOver (vs : List Var) (r : Nat) : (row vs r).IsOver (vs.map Var.name) := by
  have hfst : (vs.zip (digits vs.length r)).map Prod.fst = vs :=
    List.map_fst_zip (digits_length _ _).ge
  have hnames : (vs.zip (digits vs.length r)).map (fun p => p.1.name) = vs.map Var.name := by
    rw [← congrArg (List.map Var.name) hfst, List.map_map]
    rfl
  exact hnames ▸ isOver_ofPairs _

/-- **The value of a name in a row** is the digit at the last place where the name stands. -/
theorem getElem?_row {vs : List Var} {i : Nat} {v : Var} (hv : vs[i]? = some v)
    (hlast : v ∉ vs.drop (i + 1)) (r : Nat) :
    (row vs r)[v.name]? = some (r.testBit (vs.length - 1 - i)) := by
  induction vs generalizing i with
  | nil => simp at hv
  | cons w vs ih =>
    rw [row_cons, getElem?_assignNew]
    cases i with
    | zero =>
      obtain rfl : w = v := by simpa using hv
      have hnew : w.name ∉ row vs r := by
        rw [row_isOver vs r w.name, Var.name_mem_map]
        simpa using hlast
      simp [hnew]
    | succ i =>
      have hv' : vs[i]? = some v := by simpa using hv
      have hplace : vs.length + 1 - 1 - (i + 1) = vs.length - 1 - i := by omega
      rw [ih hv' (by simpa using hlast), Option.some_or, List.length_cons, hplace]

/-! ## The list of all rows -/

/-- All rows of the truth table over the names. -/
def rows (vs : List Var) : List Model :=
  (List.range (rowCount vs.length)).map (row vs)

theorem length_rows (vs : List Var) : (rows vs).length = rowCount vs.length := by
  rw [rows, List.length_map, List.length_range]

theorem rows_ne_nil (vs : List Var) : rows vs ≠ [] := by
  rw [← List.length_pos_iff, length_rows]
  exact Nat.two_pow_pos _

theorem isOver_of_mem_rows {vs : List Var} {m : Model} (hm : m ∈ rows vs) :
    m.IsOver (vs.map Var.name) := by
  obtain ⟨r, -, rfl⟩ := List.mem_map.mp hm
  exact row_isOver vs r

theorem getElem?_rows {vs : List Var} {r : Nat} {m : Model} (hm : (rows vs)[r]? = some m) :
    m = row vs r := by
  obtain ⟨hr, hm⟩ := List.getElem?_eq_some_iff.mp hm
  rw [← hm]
  simp [rows]

theorem getElem?_rows_of_lt {vs : List Var} {r : Nat} (hr : r < rowCount vs.length) :
    (rows vs)[r]? = some (row vs r) := by
  rw [rows, List.getElem?_map, List.getElem?_range hr, Option.map_some]

@[simp] theorem rows_nil : rows [] = [∅] := rfl

/-- **The rows of a longer list** are those of the shorter one twice, first with false and then with
true for a name that is new. -/
theorem rows_cons (v : Var) (vs : List Var) :
    rows (v :: vs) = (rows vs).map (·.assignNew v false) ++ (rows vs).map (·.assignNew v true) := by
  rw [rows, rows, List.length_cons, rowCount_succ, List.range_add, List.map_append, List.map_map,
    List.map_map, List.map_map]
  congr 1
  · refine List.map_congr_left fun r hr => ?_
    rw [row_cons, Nat.testBit_lt_two_pow (List.mem_range.mp hr), Function.comp_apply]
  · refine List.map_congr_left fun r hr => ?_
    have hbit : (rowCount vs.length + r).testBit vs.length = true := by
      rw [rowCount_eq_two_pow, Nat.testBit_two_pow_add_eq,
        Nat.testBit_lt_two_pow (List.mem_range.mp hr), Bool.not_false]
    rw [Function.comp_apply, row_cons, row_rowCount_add, hbit, Function.comp_apply]

/-- A name that stands elsewhere in the list adds no key. -/
theorem IsOver.of_cons {m : Model} {v : Var} {vs : List Var}
    (hm : m.IsOver ((v :: vs).map Var.name)) (hv : v ∈ vs) : m.IsOver (vs.map Var.name) := by
  intro s
  rw [hm s, List.map_cons, List.mem_cons, or_iff_right_of_imp]
  rintro rfl
  exact Var.name_mem_map.mpr hv

/-- A name that stands nowhere else in the list is a key less without its value. -/
theorem IsOver.erase {m : Model} {v : Var} {vs : List Var}
    (hm : m.IsOver ((v :: vs).map Var.name)) (hv : v ∉ vs) :
    IsOver (m.erase v.name) (vs.map Var.name) := by
  intro s
  rw [Std.ExtTreeMap.mem_erase, hm s, List.map_cons, List.mem_cons]
  by_cases hs : v.name = s
  · subst hs
    simp [Var.name_mem_map, hv]
  · simp [hs, Ne.symm hs]

/-- Every row has values for its names already, so a value for one of them changes no row. -/
theorem map_assignNew_rows_of_mem {v : Var} {vs : List Var} (hv : v ∈ vs) (b : Bool) :
    (rows vs).map (·.assignNew v b) = rows vs := by
  have hsame : ∀ x ∈ rows vs, x.assignNew v b = x := fun x hx =>
    assignNew_of_mem ((isOver_of_mem_rows hx v.name).mpr (Var.name_mem_map.mpr hv)) b
  rw [List.map_congr_left hsame, List.map_id']

/-- Models over the same names that agree on them are equal. -/
theorem IsOver.ext {m m' : Model} {names : List String} (hm : m.IsOver names)
    (hm' : m'.IsOver names) (h : ∀ s ∈ names, m[s]? = m'[s]?) : m = m' := by
  refine Std.ExtTreeMap.ext_getElem? fun s => ?_
  by_cases hs : s ∈ names
  · exact h s hs
  · have hnone : s ∉ m := fun hmem => hs ((hm s).mp hmem)
    have hnone' : s ∉ m' := fun hmem => hs ((hm' s).mp hmem)
    rw [Std.ExtTreeMap.getElem?_eq_none hnone, Std.ExtTreeMap.getElem?_eq_none hnone']

/-- No row has a value for a variable that is not listed. -/
theorem notMem_of_mem_rows {v : Var} {vs : List Var} {m : Model} (hv : v ∉ vs)
    (hm : m ∈ rows vs) : v.name ∉ m := by
  rw [isOver_of_mem_rows hm v.name, Var.name_mem_map]
  exact hv

/-- The rows to which a new value is added give a model with this value from each of those that
have its other values. -/
theorem count_map_assignNew {v : Var} {vs : List Var} (hv : v ∉ vs) (b : Bool) (m : Model) :
    ((rows vs).map (·.assignNew v b)).count m =
      if m[v.name]? = some b then (rows vs).count (m.erase v.name) else 0 := by
  rw [List.count_eq_countP, List.countP_map]
  split
  · next hb =>
    rw [List.count_eq_countP]
    refine List.countP_congr fun x hx => ?_
    simp [assignNew_eq_iff (notMem_of_mem_rows hv hx), hb]
  · next hb =>
    refine List.countP_eq_zero.mpr fun x hx => ?_
    simp [assignNew_eq_iff (notMem_of_mem_rows hv hx), hb]

/-- **Every model over the names is a row, and all are rows of equally many numbers:** of one number
if the names are distinct, and of twice as many for each name that repeats another. -/
theorem count_rows {vs : List Var} {m : Model} (hm : m.IsOver (vs.map Var.name)) :
    (rows vs).count m = 2 ^ (vs.length - vs.dedup.length) := by
  induction vs generalizing m with
  | nil =>
    have hempty : m = ∅ := by
      refine Std.ExtTreeMap.ext_getElem? fun s => ?_
      have hs : s ∉ m := fun h => by simpa using (hm s).mp h
      simp [hs]
    simp [hempty]
  | cons v vs ih =>
    have hdistinct : vs.dedup.length ≤ vs.length := (List.dedup_sublist vs).length_le
    rw [rows_cons, List.count_append]
    by_cases hv : v ∈ vs
    · rw [map_assignNew_rows_of_mem hv, map_assignNew_rows_of_mem hv, ih (hm.of_cons hv),
        List.dedup_cons_of_mem hv, List.length_cons, Nat.succ_sub hdistinct, Nat.pow_succ,
        Nat.mul_two]
    · -- One of the two halves has the value of `v` in `m`.
      have hmem : v.name ∈ m := (hm v.name).mpr (by simp)
      obtain ⟨b, hb⟩ := Option.isSome_iff_exists.mp
        (Std.ExtTreeMap.mem_iff_isSome_getElem?.mp hmem)
      have hlength : vs.length + 1 - (vs.dedup.length + 1) = vs.length - vs.dedup.length := by
        omega
      rw [count_map_assignNew hv, count_map_assignNew hv, hb, ih (hm.erase hv),
        List.dedup_cons_of_notMem hv, List.length_cons, List.length_cons, hlength]
      cases b <;> simp

theorem mem_rows_iff {vs : List Var} {m : Model} :
    m ∈ rows vs ↔ m.IsOver (vs.map Var.name) := by
  refine ⟨isOver_of_mem_rows, fun hm => List.count_pos_iff.mp ?_⟩
  rw [count_rows hm]
  exact Nat.two_pow_pos _

/-- A new variable in front has the value in front. -/
theorem values_assignNew {v : Var} {vs : List Var} (hv : v ∉ vs) {m : Model} (hm : m ∈ rows vs)
    (b : Bool) : (m.assignNew v b).values ((v :: vs).map Var.name) =
      b :: m.values (vs.map Var.name) := by
  have hnew := notMem_of_mem_rows hv hm
  rw [List.map_cons, values, List.map_cons, values]
  refine congrArg₂ List.cons (by simp [getElem?_assignNew, hnew]) ?_
  refine List.map_congr_left fun s hs => ?_
  have hne : v.name ≠ s := by
    rintro rfl
    exact hv (Var.name_mem_map.mp hs)
  simp [getElem?_assignNew, hne]

/-- **The rows over distinct names are in strict lexicographic order,** false before true. -/
theorem rows_pairwise_values_lt {vs : List Var} (hvs : vs.Nodup) :
    (rows vs).Pairwise fun m m' => m.values (vs.map Var.name) < m'.values (vs.map Var.name) := by
  induction vs with
  | nil => simp
  | cons v vs ih =>
    obtain ⟨hv, hvs⟩ := List.nodup_cons.mp hvs
    -- Rows with the same first value are ordered by the others.
    have hhalf : ∀ b, ((rows vs).map (·.assignNew v b)).Pairwise fun m m' =>
        m.values ((v :: vs).map Var.name) < m'.values ((v :: vs).map Var.name) := fun b => by
      refine List.pairwise_map.mpr ((ih hvs).imp_of_mem fun hm hm' hlt => ?_)
      rw [values_assignNew hv hm, values_assignNew hv hm']
      exact List.cons_lt_cons_iff.mpr (.inr ⟨rfl, hlt⟩)
    rw [rows_cons, List.pairwise_append]
    refine ⟨hhalf false, hhalf true, fun x hx y hy => ?_⟩
    obtain ⟨m, hm, rfl⟩ := List.mem_map.mp hx
    obtain ⟨m', hm', rfl⟩ := List.mem_map.mp hy
    rw [values_assignNew hv hm, values_assignNew hv hm']
    exact List.cons_lt_cons_iff.mpr (.inl (by decide))

theorem rows_nodup {vs : List Var} (hvs : vs.Nodup) : (rows vs).Nodup :=
  (rows_pairwise_values_lt hvs).imp fun hlt => by
    rintro rfl
    exact List.lt_irrefl _ hlt

end Model

end PropLogic

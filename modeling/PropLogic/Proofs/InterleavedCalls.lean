import Mathlib.Logic.Function.Iterate
import PropLogic.Proofs.MachineWords

/-!
# Going through all models in several copies

Whoever goes through all models may stop, ask how many are left, and copy the place in the sequence,
to look ahead in the copy or to go on with both.  A `Call` asks one of the copies for its next model
or makes a further one, and a run is any list of calls.  What becomes of a copy is told by a number,
that of the models it was asked for, those included for which the copy it was made from had been
asked before: `Call.map_step` says this of one call, for anything that is changed by asking for a
model, and `Call.map_run` of the whole run.  The same two lemmas say that a run counted in words
goes along with the run itself.

Main statement: `Enumeration.ofNames_run`, where a copy is after any run, what it has left and what
it says of that.
-/

namespace PropLogic

/-! ## Calls -/

/-- A call on one of several copies, which are numbered in the order in which they were made. -/
inductive Call where
  /-- The copy is asked for its next model. -/
  | next (i : Nat)
  /-- A further copy is made of this one. -/
  | copy (i : Nat)

namespace Call

variable {α β : Type} {f : α → α} {g : β → β} {φ : α → β}

/-- What a call makes of the copies, if asking for the next model makes `f a` of `a`. -/
def step (f : α → α) (as : List α) : Call → List α
  | next i => as.modify i f
  | copy i => as ++ as[i]?.toList

/-- What a list of calls makes of the copies. -/
def run (f : α → α) (as : List α) (cs : List Call) : List α :=
  cs.foldl (step f) as

/-- How many models each copy was asked for, up to its making by way of the copies it comes from. -/
def counts (cs : List Call) : List Nat :=
  run (· + 1) [0] cs

theorem run_append (f : α → α) (as : List α) (cs cs' : List Call) :
    run f as (cs ++ cs') = run f (run f as cs) cs' :=
  List.foldl_append

/-- **A call treats all copies alike:** what goes along with asking for a model goes along with it. -/
theorem map_step (h : ∀ a, φ (f a) = g (φ a)) (as : List α) (c : Call) :
    (step f as c).map φ = step g (as.map φ) c := by
  cases c with
  | next i =>
    refine List.ext_getElem? fun j => ?_
    rw [step, step, List.getElem?_map, List.getElem?_modify, List.getElem?_modify,
      List.getElem?_map]
    cases as[j]? with
    | none => rfl
    | some a => by_cases hij : i = j <;> simp [hij, h]
  | copy i => rw [step, step, List.map_append, List.getElem?_map, Option.toList_map]

/-- So does a run. -/
theorem map_run (h : ∀ a, φ (f a) = g (φ a)) (as : List α) (cs : List Call) :
    (run f as cs).map φ = run g (as.map φ) cs :=
  (List.foldl_hom _ fun as c => (map_step h as c).symm).symm

/-- **The counts tell everything:** every copy is what asking for so many models makes of the
first. -/
theorem run_eq_map_counts (f : α → α) (a : α) (cs : List Call) :
    run f [a] cs = (counts cs).map fun k => f^[k] a := by
  rw [counts, map_run (g := f) fun k => Function.iterate_succ_apply' f k a]
  rfl

/-- A copy that asking for a model leaves as it is stays so in every call, and in every run. -/
theorem getElem?_step_of_fixed {a : α} (ha : f a = a) {as : List α} {i : Nat}
    (hi : as[i]? = some a) (c : Call) : (step f as c)[i]? = some a := by
  cases c with
  | next j =>
    rw [step, List.getElem?_modify, hi]
    by_cases hij : j = i <;> simp [hij, ha]
  | copy j => rw [step, List.getElem?_append_left (List.getElem?_eq_some_iff.mp hi).1, hi]

theorem getElem?_run_of_fixed {a : α} (ha : f a = a) {as : List α} {i : Nat}
    (hi : as[i]? = some a) (cs : List Call) : (run f as cs)[i]? = some a := by
  induction cs generalizing as with
  | nil => exact hi
  | cons c cs ih => exact ih (getElem?_step_of_fixed ha hi c)

end Call

/-! ## One copy -/

namespace Enumeration

variable {e : Enumeration}

theorem next_of_ofVars {vs : List Var} (h : ofVars vs = .ok e) : e.next = 0 := by
  unfold ofVars at h
  split at h
  · cases h
    rfl
  · cases h

/-- The place in the sequence after it was asked for the next model; at the end it stays. -/
def advance (e : Enumeration) : Enumeration :=
  (e.next?.map (·.2)).getD e

theorem advance_of_next?_eq_none (h : e.next? = none) : e.advance = e := by
  rw [advance, h]
  rfl

theorem advance_of_next? {m : Model} {e' : Enumeration} (h : e.next? = some (m, e')) :
    e.advance = e' := by
  rw [advance, h]
  rfl

@[simp] theorem names_advance (e : Enumeration) : e.advance.names = e.names := by
  unfold advance next?
  split <;> rfl

/-- The row that comes next is the following one, up to the end. -/
theorem next_advance (e : Enumeration) :
    e.advance.next = min (e.next + 1) (rowCount e.names.length) := by
  have hle := e.next_le
  unfold advance next?
  split
  · next hlt => exact (Nat.min_eq_left hlt).symm
  · next hend =>
    show e.next = _
    omega

/-- What is left afterwards is what was left, without the first model. -/
theorem rest_advance (e : Enumeration) : e.advance.rest = e.rest.drop 1 := by
  cases h : e.next? with
  | none => rw [advance_of_next?_eq_none h, rest_of_next?_eq_none h, List.drop_nil]
  | some p => rw [advance_of_next? h, rest_of_next? h, List.drop_one, List.tail_cons]

/-- The next model is the first of those that are left. -/
theorem map_fst_next? (e : Enumeration) : e.next?.map Prod.fst = e.rest.head? := by
  cases h : e.next? with
  | none => rw [rest_of_next?_eq_none h]; rfl
  | some p => rw [rest_of_next? h]; rfl

@[simp] theorem names_iterate_advance (e : Enumeration) (k : Nat) :
    (advance^[k] e).names = e.names := by
  induction k with
  | zero => rfl
  | succ k ih => rw [Function.iterate_succ_apply', names_advance, ih]

/-- **The row that comes next after `k` requests,** which is never behind the last one. -/
theorem next_iterate_advance (e : Enumeration) (k : Nat) :
    (advance^[k] e).next = min (e.next + k) (rowCount e.names.length) := by
  induction k with
  | zero => exact (Nat.min_eq_left e.next_le).symm
  | succ k ih =>
    rw [Function.iterate_succ_apply', next_advance, ih, names_iterate_advance]
    omega

/-- **What is left after `k` requests.** -/
theorem rest_iterate_advance (e : Enumeration) (k : Nat) :
    (advance^[k] e).rest = e.rest.drop k := by
  induction k with
  | zero => rfl
  | succ k ih => rw [Function.iterate_succ_apply', rest_advance, ih, List.drop_drop]

end Enumeration

/-! ## Words -/

/-- The difference of two words, if it does not lie below zero. -/
def Checked.subWord? (a b : UInt64) : Option UInt64 :=
  if b ≤ a then some (a - b) else none

namespace WordEnumeration

/-- The place after it was asked for the next model, if no checked operation fails. -/
def advance? (e : WordEnumeration) : Option WordEnumeration := do
  return ((← e.next?).map (·.2)).getD e

/-- Bounds of the number of models that are left, on a machine whose sizes go up to `largest`: the
number itself twice if it is a size, and otherwise a lower bound only. -/
def sizeHint? (largest : Nat) (e : WordEnumeration) : Option (Nat × Option Nat) := do
  let left ← Checked.subWord? e.stop e.next
  let size? := if left.toNat ≤ largest then some left.toNat else none
  return (size?.getD largest, size?)

end WordEnumeration

namespace Enumeration

theorem toWords_advance? (e : Enumeration) : e.toWords.advance? = some e.advance.toWords := by
  rw [WordEnumeration.advance?, toWords_next?, advance]
  cases e.next? <;> rfl

/-- In words, too, the next row is not behind the last one. -/
theorem toWords_next_le_stop (e : Enumeration) : e.toWords.next ≤ e.toWords.stop := by
  rw [UInt64.le_iff_toNat_le, toNat_toWords_next, toNat_toWords_stop]
  exact e.next_le

/-- **The bounds are exact** where sizes have 64 digits: the difference does not lie below zero, and
it is a size. -/
theorem toWords_sizeHint? (e : Enumeration) :
    e.toWords.sizeHint? (UInt64.size - 1) = some (e.remaining, some e.remaining) := by
  have hle := e.toWords_next_le_stop
  have hleft : (e.toWords.stop - e.toWords.next).toNat = e.remaining := by
    rw [UInt64.toNat_sub_of_le _ _ hle, toNat_toWords_next, toNat_toWords_stop]
    rfl
  have hsize : e.remaining ≤ UInt64.size - 1 := by
    have hlt := rowCount_lt_size e.few
    unfold remaining
    omega
  rw [WordEnumeration.sizeHint?, Checked.subWord?, if_pos hle]
  simp only [Option.bind_eq_bind, Option.bind_some, hleft, if_pos hsize, Option.getD_some]
  rfl

/-- **Where a copy is after any run.**  The sequence of all models over `n` names, fewer than 64, and
its copies are asked for models in any order.  A copy that was asked `k` times, together with the
copies it comes from, is at row `min k (2 ^ n)`; so it is counted in words, where no operation fails
and the row never passes the end.  Exactly `2 ^ n - min k (2 ^ n)` models are left, which the bounds
in words say twice; these are the rows from `k` on, and the next call gives row `k`.  If there is
none, the copy stays as it is, whatever is called afterwards. -/
theorem ofNames_run (names : List String) (valid : ∀ s ∈ names, isVariableName s = true)
    (few : names.length < 64) :
    ∃ (e₀ : Enumeration) (ms : List Model), ofNames names = .ok e₀ ∧
      WordEnumeration.ofVars? e₀.names = some e₀.toWords ∧
      e₀.Yields ms ∧ ms.length = 2 ^ names.length ∧
      ∀ (cs : List Call) (i k : Nat), (Call.counts cs)[i]? = some k →
        ∃ e : Enumeration, (Call.run advance [e₀] cs)[i]? = some e ∧
          (Call.run (·.bind WordEnumeration.advance?) [some e₀.toWords] cs)[i]? =
            some (some e.toWords) ∧
          e.next = min k (2 ^ names.length) ∧ e.toWords.next ≤ e.toWords.stop ∧
          e.remaining = 2 ^ names.length - min k (2 ^ names.length) ∧
          e.toWords.sizeHint? (UInt64.size - 1) = some (e.remaining, some e.remaining) ∧
          e.Yields (ms.drop k) ∧ (ms.drop k).length = e.remaining ∧
          e.next?.map Prod.fst = ms[k]? ∧
          (e.next? = none → ∀ cs', (Call.run advance [e₀] (cs ++ cs'))[i]? = some e) := by
  lift names to List Var using valid with vs
  rw [List.length_map] at few ⊢
  obtain ⟨e₀, he₀, hrest⟩ := exists_ofVars_eq_ok few
  have hnames : e₀.names = vs := names_of_ofVars he₀
  have hstart : e₀.next = 0 := next_of_ofVars he₀
  refine ⟨e₀, Model.rows vs, (ofNames_map_name vs).trans he₀, hnames ▸ toWords_ofVars he₀,
    hrest ▸ e₀.yields_rest, Model.length_rows vs, fun cs i k hk => ?_⟩
  -- a copy is known by its count, so what follows is about the first one and `k` requests only
  have hrun : (Call.run advance [e₀] cs)[i]? = some (advance^[k] e₀) := by
    rw [Call.run_eq_map_counts, List.getElem?_map, hk, Option.map_some]
  have hwords : (Call.run advance [e₀] cs).map (fun e => some e.toWords) =
      Call.run (·.bind WordEnumeration.advance?) [some e₀.toWords] cs :=
    Call.map_run (fun e => e.toWords_advance?.symm) [e₀] cs
  have hnext : (advance^[k] e₀).next = min k (2 ^ vs.length) := by
    rw [next_iterate_advance, hstart, hnames, Nat.zero_add, rowCount_eq_two_pow]
  have hleft : (advance^[k] e₀).rest = (Model.rows vs).drop k := by
    rw [rest_iterate_advance, hrest]
  refine ⟨advance^[k] e₀, hrun, ?_, hnext, toWords_next_le_stop _, ?_, toWords_sizeHint? _,
    hleft ▸ yields_rest _, ?_, ?_, fun hend cs' => ?_⟩
  · rw [← hwords, List.getElem?_map, hrun, Option.map_some]
  · rw [remaining, hnext, names_iterate_advance, hnames, rowCount_eq_two_pow]
  · rw [← hleft, length_rest]
  · rw [map_fst_next?, hleft, List.head?_drop]
  · rw [Call.run_append]
    exact Call.getElem?_run_of_fixed (advance_of_next?_eq_none hend) hrun cs'

/-- Of the four rows over `p` and `q` the first copy has taken one when it is copied; the second has
then taken the other three and is asked twice in vain. -/
theorem ofNames_run_exhausted :
    (∀ s ∈ ["p", "q"], isVariableName s = true) ∧ ["p", "q"].length < 64 ∧
      Call.counts [.next 0, .copy 0, .next 1, .next 1, .next 1, .next 1, .next 1] = [1, 6] ∧
      ∃ (e₀ e e' : Enumeration), ofNames ["p", "q"] = .ok e₀ ∧
        (Call.run advance [e₀]
          [.next 0, .copy 0, .next 1, .next 1, .next 1, .next 1, .next 1])[0]? = some e ∧
        e.next = 1 ∧ e.toWords.sizeHint? (UInt64.size - 1) = some (3, some 3) ∧
        e'.next = 4 ∧ e'.toWords.sizeHint? (UInt64.size - 1) = some (0, some 0) ∧
        e'.next? = none ∧
        ∀ cs', (Call.run advance [e₀]
          ([.next 0, .copy 0, .next 1, .next 1, .next 1, .next 1, .next 1] ++ cs'))[1]? =
            some e' := by
  have valid : ∀ s ∈ ["p", "q"], isVariableName s = true := by decide
  have few : ["p", "q"].length < 64 := by decide
  have hcounts : Call.counts [.next 0, .copy 0, .next 1, .next 1, .next 1, .next 1, .next 1] =
      [1, 6] := rfl
  obtain ⟨e₀, ms, he₀, -, -, hlength, hrun⟩ := ofNames_run ["p", "q"] valid few
  obtain ⟨e, he, -, hnext, -, hleft, hsize, -⟩ :=
    hrun [.next 0, .copy 0, .next 1, .next 1, .next 1, .next 1, .next 1] 0 1 (by rw [hcounts]; rfl)
  obtain ⟨e', -, -, hnext', -, hleft', hsize', -, -, hmodel, hstays⟩ :=
    hrun [.next 0, .copy 0, .next 1, .next 1, .next 1, .next 1, .next 1] 1 6 (by rw [hcounts]; rfl)
  have hlast : ms[6]? = none := List.getElem?_eq_none (by rw [hlength]; decide)
  have hend : e'.next? = none := Option.map_eq_none_iff.mp (hmodel.trans hlast)
  rw [hleft] at hsize
  rw [hleft'] at hsize'
  exact ⟨valid, few, hcounts, e₀, e, e', he₀, he, hnext, hsize, hnext', hsize', hend, hstays hend⟩

end Enumeration

end PropLogic

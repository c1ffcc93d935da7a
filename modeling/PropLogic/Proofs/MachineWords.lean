import PropLogic.Proofs.AllModels

/-!
# Going through all models in machine words

An `Enumeration` counts its rows in natural numbers, which never overflow.  A `WordEnumeration`
counts them in 64-bit words, and every operation on these is checked: it has no result where a
difference lies below zero, a sum is no word, or a word is shifted by all its digits or more.  Up to
63 names none of this happens, and the words give the rows of the truth table in order.

Main statements: `Enumeration.toWords_next?` for one step of the sequence, and for all of them
`Enumeration.exists_toWords_take?_eq_rows`.
-/

namespace PropLogic

/-! ## Checked operations -/

namespace Checked

/-- The difference, if it does not lie below zero. -/
def sub? (a b : Nat) : Option Nat :=
  if b ≤ a then some (a - b) else none

/-- The next word, if there is one. -/
def succ? (w : UInt64) : Option UInt64 :=
  if w.toNat + 1 < UInt64.size then some (w + 1) else none

/-- A word shifted to the higher digits, by less than all digits. -/
def shiftLeft? (w : UInt64) (k : Nat) : Option UInt64 :=
  if k < 64 then some (w <<< UInt64.ofNat k) else none

/-- A word shifted to the lower digits, by less than all digits. -/
def shiftRight? (w : UInt64) (k : Nat) : Option UInt64 :=
  if k < 64 then some (w >>> UInt64.ofNat k) else none

theorem sub?_eq_some {a b : Nat} (h : b ≤ a) : sub? a b = some (a - b) :=
  if_pos h

/-- A number that is followed by a word is followed by it as a word. -/
theorem succ?_ofNat {r : Nat} (h : r + 1 < UInt64.size) :
    succ? (UInt64.ofNat r) = some (UInt64.ofNat (r + 1)) := by
  rw [succ?, UInt64.toNat_ofNat_of_lt' (Nat.lt_of_succ_lt h), if_pos h, UInt64.ofNat_add]
  rfl

theorem shiftLeft?_eq_some {k : Nat} (h : k < 64) (w : UInt64) :
    shiftLeft? w k = some (w <<< UInt64.ofNat k) :=
  if_pos h

theorem shiftRight?_eq_some {k : Nat} (h : k < 64) (w : UInt64) :
    shiftRight? w k = some (w >>> UInt64.ofNat k) :=
  if_pos h

end Checked

/-! ## The sequence in words -/

open Checked

/-- A place in the sequence of all models over a list of names, counted in words. -/
structure WordEnumeration where
  names : List Var
  /-- The row that comes next. -/
  next : UInt64
  /-- The number of rows. -/
  stop : UInt64

namespace WordEnumeration

/-- The beginning of the sequence of all models over the names. -/
def ofVars? (names : List Var) : Option WordEnumeration := do
  return ⟨names, 0, ← shiftLeft? 1 names.length⟩

/-- The digit of the next row for the name at a place. -/
def digit? (e : WordEnumeration) (i : Nat) : Option Bool := do
  let last ← sub? e.names.length 1
  let place ← sub? last i
  return (← shiftRight? e.next place) &&& 1 == 1

/-- The next model and the place behind it, if there is one.  The outer option is that of the
checked operations. -/
def next? (e : WordEnumeration) : Option (Option (Model × WordEnumeration)) :=
  if e.next < e.stop then do
    let next ← succ? e.next
    let values ← (List.range e.names.length).mapM e.digit?
    return some (.ofPairs (e.names.zip values), { e with next })
  else some none

/-- The next `k` models, or fewer at the end, and the place behind them. -/
def take? (e : WordEnumeration) : Nat → Option (List Model × WordEnumeration)
  | 0 => some ([], e)
  | k + 1 => do
    match ← e.next? with
    | none => return ([], e)
    | some (m, e') =>
      let (ms, e'') ← e'.take? k
      return (m :: ms, e'')

end WordEnumeration

/-- The number of rows is a word. -/
theorem rowCount_lt_size {n : Nat} (few : n < 64) : rowCount n < UInt64.size :=
  Nat.pow_lt_pow_right (by decide) few

namespace Enumeration

/-- The same place, counted in words. -/
def toWords (e : Enumeration) : WordEnumeration :=
  ⟨e.names, UInt64.ofNat e.next, UInt64.ofNat (rowCount e.names.length)⟩

@[simp] theorem toWords_names (e : Enumeration) : e.toWords.names = e.names := rfl

@[simp] theorem toWords_next (e : Enumeration) : e.toWords.next = UInt64.ofNat e.next := rfl

@[simp] theorem toWords_stop (e : Enumeration) :
    e.toWords.stop = UInt64.ofNat (rowCount e.names.length) := rfl

theorem toWords_ofVars {vs : List Var} {e : Enumeration} (h : ofVars vs = .ok e) :
    WordEnumeration.ofVars? vs = some e.toWords := by
  unfold ofVars at h
  split at h
  · next few =>
    cases h
    have hstop : (1 : UInt64) <<< UInt64.ofNat vs.length = UInt64.ofNat (rowCount vs.length) := by
      rw [← UInt64.toNat_inj, (rows_fit_words few).1,
        UInt64.toNat_ofNat_of_lt' (rowCount_lt_size few)]
    rw [WordEnumeration.ofVars?, shiftLeft?_eq_some few, hstop]
    rfl
  · cases h

/-- The row that comes next has its number in a word. -/
theorem next_lt_size (e : Enumeration) : e.next < UInt64.size :=
  Nat.lt_of_le_of_lt e.next_le (rowCount_lt_size e.few)

theorem toNat_toWords_next (e : Enumeration) : e.toWords.next.toNat = e.next :=
  UInt64.toNat_ofNat_of_lt' e.next_lt_size

theorem toNat_toWords_stop (e : Enumeration) :
    e.toWords.stop.toNat = rowCount e.names.length :=
  UInt64.toNat_ofNat_of_lt' (rowCount_lt_size e.few)

/-- Both comparisons tell the end of the sequence. -/
theorem toWords_next_lt_stop_iff (e : Enumeration) :
    e.toWords.next < e.toWords.stop ↔ e.next < rowCount e.names.length := by
  rw [UInt64.lt_iff_toNat_lt, toNat_toWords_next, toNat_toWords_stop]

/-- Neither the differences nor the shift of a digit fail. -/
theorem toWords_digit? (e : Enumeration) {i : Nat} (hi : i < e.names.length) :
    e.toWords.digit? i = some (e.next.testBit (e.names.length - 1 - i)) := by
  have hfew := e.few
  have hlast : sub? e.names.length 1 = some (e.names.length - 1) := sub?_eq_some (by omega)
  have hplace : sub? (e.names.length - 1) i = some (e.names.length - 1 - i) :=
    sub?_eq_some (by omega)
  have hlt : e.names.length - 1 - i < 64 := by omega
  simp only [WordEnumeration.digit?, toWords_names, toWords_next, hlast, hplace,
    shiftRight?_eq_some hlt, Option.bind_eq_bind, Option.bind_some, Option.pure_def]
  rw [testBit_eq_word e.next_lt_size hlt]

/-- **One step in words** is one step of the sequence; no operation fails. -/
theorem toWords_next? (e : Enumeration) :
    e.toWords.next? = some (e.next?.map fun p => (p.1, p.2.toWords)) := by
  unfold WordEnumeration.next? next?
  by_cases h : e.next < rowCount e.names.length
  · have hsucc : e.next + 1 < UInt64.size := Nat.lt_of_le_of_lt h (rowCount_lt_size e.few)
    have hdigits : (List.range e.names.length).mapM e.toWords.digit? =
        some (digits e.names.length e.next) :=
      mapM_eq_pure fun i hi => e.toWords_digit? (List.mem_range.mp hi)
    rw [if_pos (e.toWords_next_lt_stop_iff.mpr h), dif_pos h]
    simp only [toWords_names, toWords_next, succ?_ofNat hsucc, hdigits, Option.bind_eq_bind,
      Option.bind_some]
    rfl
  · rw [if_neg (mt e.toWords_next_lt_stop_iff.mp h), dif_neg h]
    rfl

/-- **Many steps in words** take the same models and arrive at the same place. -/
theorem toWords_take? (e : Enumeration) (k : Nat) :
    e.toWords.take? k = some ((e.take k).1, (e.take k).2.toWords) := by
  induction k generalizing e with
  | zero => rfl
  | succ k ih =>
    rw [WordEnumeration.take?, toWords_next?, take]
    cases e.next? with
    | none => rfl
    | some p =>
      simp only [Option.map_some, Option.bind_eq_bind, Option.bind_some, ih]
      rfl

/-- **All rows are found in words.**  Up to 63 names there is a sequence of all models, and counted
in words it gives the first rows of the truth table, as many as wanted; no checked operation fails
on the way. -/
theorem exists_toWords_take?_eq_rows {vs : List Var} (few : vs.length < 64) :
    ∃ e, ofVars vs = .ok e ∧ WordEnumeration.ofVars? vs = some e.toWords ∧
      ∀ k, e.toWords.take? k = some ((Model.rows vs).take k, (e.take k).2.toWords) := by
  obtain ⟨e, he, hrest⟩ := exists_ofVars_eq_ok few
  refine ⟨e, he, toWords_ofVars he, fun k => ?_⟩
  rw [toWords_take?, take_fst, hrest]

end Enumeration

end PropLogic

/-!
# Variable names

A variable name is one letter from `p` to `z`, then any number of decimal digits.  `Var` is the type
of the names that obey this rule, so that nothing built from a `Var` has to check it again.  Names
are ordered as texts, by code points: `x1`, `x10`, `x2`.

Main statements: `Var.ofName?_eq_some_iff`, that the names are the texts which pass the check, and
`Var.eq_append_of_read?`, `Var.read?_name_append`, that reading a name takes exactly its characters
off the text, all the digits included.
-/

namespace PropLogic

/-- The letters with which a variable name begins. -/
def isNameLetter (c : Char) : Bool :=
  'p' ≤ c && c ≤ 'z'

/-- The letters of names are no digits. -/
theorem isDigit_of_isNameLetter {c : Char} (h : isNameLetter c = true) : c.isDigit = false := by
  rw [isNameLetter, Bool.and_eq_true, decide_eq_true_iff] at h
  rw [Bool.eq_false_iff, ne_eq, Char.isDigit, Bool.and_eq_true, decide_eq_true_iff,
    decide_eq_true_iff]
  rintro ⟨-, hc⟩
  exact absurd (Char.le_trans h.1 hc) (by decide)

/-- Whether the characters are those of a variable name: a letter from `p` to `z`, then digits. -/
def isNameChars : List Char → Bool
  | [] => false
  | c :: ds => isNameLetter c && ds.all Char.isDigit

/-- Whether the text is a variable name. -/
def isVariableName (s : String) : Bool :=
  isNameChars s.toList

/-- A propositional variable, known by its name. -/
structure Var where
  /-- The name, which is also the written form. -/
  name : String
  isName : isVariableName name = true
  deriving DecidableEq

namespace Var

@[ext] theorem ext {v w : Var} (h : v.name = w.name) : v = w := by
  cases v; cases w; cases h; rfl

/-- The variable `p`. -/
def p : Var := ⟨"p", by decide⟩

/-- The variable `q`. -/
def q : Var := ⟨"q", by decide⟩

/-- The variable of a given name, if the text is a variable name. -/
def ofName? (s : String) : Option Var :=
  if h : isVariableName s then some ⟨s, h⟩ else none

/-- A text is the name of a variable exactly if it passes the check. -/
theorem ofName?_eq_some_iff {s : String} {v : Var} : ofName? s = some v ↔ s = v.name := by
  unfold ofName?
  constructor
  · intro h
    split at h
    · cases h; rfl
    · cases h
  · rintro rfl
    simp [v.isName]

@[simp] theorem ofName?_name (v : Var) : ofName? v.name = some v :=
  ofName?_eq_some_iff.mpr rfl

theorem ofName?_eq_none_iff {s : String} : ofName? s = none ↔ isVariableName s = false := by
  unfold ofName?
  split <;> simp_all

/-- A name is a letter and digits. -/
theorem exists_name_eq_cons (v : Var) : ∃ (c : Char) (ds : List Char),
    v.name.toList = c :: ds ∧ isNameLetter c = true ∧ ∀ d ∈ ds, d.isDigit = true := by
  have hname : isNameChars v.name.toList = true := v.isName
  cases hv : v.name.toList with
  | nil => simp [hv, isNameChars] at hname
  | cons c ds =>
    rw [hv, isNameChars, Bool.and_eq_true, List.all_eq_true] at hname
    exact ⟨c, ds, rfl, hname⟩

/-- Variables are ordered by their names. -/
instance : Ord Var where
  compare := compareOn name

theorem compare_eq (v w : Var) : compare v w = compare v.name w.name := rfl

instance : Std.TransOrd Var :=
  inferInstanceAs (Std.TransCmp (compareOn name))

instance : Std.LawfulEqOrd Var where
  compare_self {v} := (Std.compare_self : compare v.name v.name = .eq)
  eq_of_compare {v w} h :=
    Var.ext (Std.LawfulEqOrd.eq_of_compare (show compare v.name w.name = .eq from h))

/-- The name that a text begins with, and the rest: its letter takes all the digits that follow. -/
def read? : List Char → Option (Var × List Char)
  | [] => none
  | c :: r =>
    if h : isNameLetter c then
      some (⟨String.ofList (c :: r.takeWhile Char.isDigit), by
        simp [isVariableName, isNameChars, h]⟩, r.dropWhile Char.isDigit)
    else none

/-- The text begins with no digit, so that a name in front of it ends where the text begins. -/
def EndsName (r : List Char) : Prop :=
  ∀ c ∈ r.head?, c.isDigit = false

theorem endsName_nil : EndsName [] := by
  simp [EndsName]

theorem endsName_cons {c : Char} {r : List Char} (h : c.isDigit = false) : EndsName (c :: r) := by
  simpa [EndsName] using h

/-- A text that is not empty ends a name or not, whatever follows it. -/
theorem EndsName.append {r : List Char} (hr : EndsName r) (hne : r ≠ []) (t : List Char) :
    EndsName (r ++ t) := by
  cases r with
  | nil => exact absurd rfl hne
  | cons c r => exact hr

/-- What is left behind the digits of a text ends a name. -/
theorem endsName_dropWhile (r : List Char) : EndsName (r.dropWhile Char.isDigit) := by
  intro c hc
  have hhead := List.head?_dropWhile_not Char.isDigit r
  simp only [Option.mem_def] at hc
  simpa [hc] using hhead

/-- A name ends a name in front of it, since it begins with a letter. -/
theorem endsName_name_append (v : Var) (r : List Char) : EndsName (v.name.toList ++ r) := by
  obtain ⟨c, ds, hv, hc, -⟩ := v.exists_name_eq_cons
  rw [hv]
  exact endsName_cons (isDigit_of_isNameLetter hc)

/-- A text that begins with a name is the name and the rest, and the rest ends the name. -/
theorem eq_append_of_read? {s : List Char} {v : Var} {r : List Char} (h : read? s = some (v, r)) :
    s = v.name.toList ++ r ∧ EndsName r := by
  cases s with
  | nil => simp [read?] at h
  | cons c t =>
    simp only [read?] at h
    split at h
    · cases h
      exact ⟨by simp, endsName_dropWhile t⟩
    · cases h

/-- Reading a name makes the text shorter. -/
theorem length_lt_of_read? {s : List Char} {v : Var} {r : List Char} (h : read? s = some (v, r)) :
    r.length < s.length := by
  cases s with
  | nil => simp [read?] at h
  | cons c t =>
    simp only [read?] at h
    split at h
    · cases h
      have := (List.dropWhile_suffix (l := t) Char.isDigit).length_le
      simp only [List.length_cons]
      omega
    · cases h

/-- A name in front of a text that ends it is read, with all its digits. -/
theorem read?_name_append (v : Var) {r : List Char} (hr : EndsName r) :
    read? (v.name.toList ++ r) = some (v, r) := by
  obtain ⟨c, ds, hv, hc, hds⟩ := v.exists_name_eq_cons
  have htake : (ds ++ r).takeWhile Char.isDigit = ds := by
    rw [List.takeWhile_append_of_pos hds]
    cases r with
    | nil => simp
    | cons d r => simp [hr d rfl]
  have hdrop : (ds ++ r).dropWhile Char.isDigit = r := by
    rw [List.dropWhile_append_of_pos hds]
    cases r with
    | nil => simp
    | cons d r => simp [hr d rfl]
  rw [hv, List.cons_append, read?, dif_pos hc]
  simp only [htake, hdrop]
  congr 2
  apply Var.ext
  show String.ofList (c :: ds) = v.name
  rw [← hv, String.ofList_toList]

/-- No name begins with a character other than its letters. -/
theorem read?_cons_eq_none {c : Char} {r : List Char} (h : isNameLetter c = false) :
    read? (c :: r) = none := by
  simp [read?, h]

end Var

end PropLogic

import PropLogic.Proofs.MachineWords
import PropLogic.Proofs.ModelCount
import PropLogic.Proofs.RuleSoundness
import PropLogic.Proofs.TableLines

/-!
# The limits of exhaustion

Whatever goes through all models looks the variables up in rows that have a value for each of them,
so that no look-up fails, and the numbers of these rows are 64-bit words.  What limits it is the
number of the variables: `Limited` says that an operation has an answer up to 63 of them and refuses
more, and every operation of this kind has a lemma that says so of it.  The variables are those of
all formulas that take part, each counted once.

The truth table has a second limit, the greatest width of a column.  Whether a table is too wide is
told by the text of the formula alone; if it is, the table fails for any number of variables, with
the fault of the width as long as there are few enough of them.

Main statement: `exhaustion_limits`, with the arithmetic that stays in range as long as there are
fewer than 64 variables.
-/

namespace PropLogic

/-- An operation over `n` variables that has an answer up to 63 of them and refuses more. -/
structure Limited {α : Type} (n : Nat) (a : Except Fault α) : Prop where
  answers : n < 64 → ∃ x, a = .ok x
  refuses : 64 ≤ n → a = .error (.tooManyVariables n)

/-- What is made of an answer is subject to the same limit. -/
theorem Limited.map {α β : Type} {n : Nat} {a : Except Fault α} (h : Limited n a) (k : α → β) :
    Limited n (a.map k) where
  answers few := by
    obtain ⟨x, hx⟩ := h.answers few
    exact ⟨k x, by rw [hx]; rfl⟩
  refuses many := by
    rw [h.refuses many]
    rfl

/-- An operation that begins with the sequence of all models refuses too many variables at once. -/
theorem Enumeration.ofVars_bind_eq_error {α : Type} {vs : List Var}
    (k : Enumeration → Except Fault α) (many : 64 ≤ vs.length) :
    (do k (← ofVars vs)) = .error (.tooManyVariables vs.length) := by
  have hvs : ofVars vs = .error (.tooManyVariables vs.length) := dif_neg (Nat.not_lt.mpr many)
  rw [hvs]
  rfl

/-- So it is limited by the number of the variables, if it has an answer at all. -/
theorem Enumeration.limited_ofVars {α : Type} {vs : List Var} {k : Enumeration → Except Fault α}
    (h : vs.length < 64 → ∃ x, (do k (← ofVars vs)) = .ok x) :
    Limited vs.length (do k (← ofVars vs)) where
  answers := h
  refuses := ofVars_bind_eq_error k

namespace Formula

variable (f g : Formula)

theorem limited_isTautology : Limited f.vars.length f.isTautology :=
  Enumeration.limited_ofVars fun few => by classical exact ⟨_, isTautology_eq_ok few⟩

theorem limited_isSatisfiable : Limited f.vars.length f.isSatisfiable :=
  Enumeration.limited_ofVars fun few => by classical exact ⟨_, isSatisfiable_eq_ok few⟩

theorem limited_isContradiction : Limited f.vars.length f.isContradiction :=
  f.limited_isSatisfiable.map _

/-- Two formulas are compared over the variables of both. -/
theorem limited_isEquivalent : Limited (f.vars ∪ g.vars).length (f.isEquivalent g) := by
  rw [isEquivalent_eq_isTautology, ← length_vars_binary .iff f g]
  exact limited_isTautology _

/-- No column is wider than the text of the formula is long. -/
theorem limited_truthTable (narrow : f.text.length ≤ TruthTable.maxWidth) :
    Limited f.vars.length f.truthTable := by
  have hrows : Limited f.vars.length (TruthTable.rows f) :=
    Enumeration.limited_ofVars fun few => ⟨_, TruthTable.rows_eq_ok few narrow⟩
  exact TruthTable.truthTable_eq_map f ▸ hrows.map _

/-- Too many variables are found before the first row is filled. -/
theorem truthTable_eq_error_of_many (many : 64 ≤ f.vars.length) :
    f.truthTable = .error (.tooManyVariables f.vars.length) := by
  have hrows : TruthTable.rows f = .error (.tooManyVariables f.vars.length) :=
    Enumeration.ofVars_bind_eq_error _ many
  rw [TruthTable.truthTable_eq_map, hrows]
  rfl

variable {f} {names : List String}

/-- The count goes through the formula's own variables only, however many names there are. -/
theorem limited_countModels (h : ∀ v ∈ f.vars, v.name ∈ names) :
    Limited f.vars.length (f.countModels names) := by
  have hfind : (f.vars.find? fun v => !names.contains v.name) = none := by
    simpa using h
  have hown : Limited f.vars.length f.countOwn :=
    Enumeration.limited_ofVars fun few => ⟨_, countOwn_eq_ok few⟩
  have hmap : f.countModels names =
      f.countOwn.map fun own => own * rowCount (names.eraseDups.length - f.vars.length) := by
    rw [countModels, hfind]
    cases f.countOwn <;> rfl
  exact hmap ▸ hown.map _

/-- The number of own models is a word. -/
theorem exists_countOwn_lt_size (few : f.vars.length < 64) :
    ∃ own, f.countOwn = .ok own ∧ own < UInt64.size := by
  refine ⟨_, countOwn_eq_ok few, ?_⟩
  rw [← Assignment.countP_rows (vars_nodup f) (dependsOn_eval fun _ => mem_vars.mpr)]
  exact Nat.lt_of_le_of_lt (List.countP_le_length.trans_eq (Model.length_rows _))
    (rowCount_lt_size few)

/-- There are at least as many names as variables of the formula. -/
theorem length_vars_le_length_eraseDups (h : ∀ v ∈ f.vars, v.name ∈ names) :
    f.vars.length ≤ names.eraseDups.length := by
  rw [← card_toFinset_vars, length_eraseDups_eq_card]
  refine Finset.card_le_card fun s hs => ?_
  obtain ⟨v, hv, rfl⟩ := List.mem_map.mp (List.mem_toFinset.mp hs)
  exact List.mem_toFinset.mpr (h v hv)

end Formula

theorem Rule.limited_isSound (r : Rule) : Limited r.vars.length r.isSound :=
  Enumeration.limited_ofVars fun few => by classical exact ⟨_, isSound_eq_ok few⟩

/-- **Exhaustion ends at 64 variables, and a truth table at its width.**  With fewer than 64
variables every operation that goes through all models has an answer; with `n` of them, 64 or more,
it refuses with the words `Too many variables: n`.  The variables are those of the formula for the
checks of one formula, for its truth table and for the count over names that include them; those of
both formulas for the check of equivalence; and those of the whole rule for the check of a rule.
There is one exception: the truth table of a formula whose text is longer than the greatest width
has no answer with fewer than 64 variables, either.  Below the limit all arithmetic stays in range.
The sequence of all models that is gone through is found in words: no row takes a shift by all
digits of a word, a difference below zero or a number that is no word.  The number of own models is
a word, and there are no fewer names than variables of the formula. -/
theorem exhaustion_limits (f g : Formula) (r : Rule) (names : List String)
    (h : ∀ v ∈ f.vars, v.name ∈ names) :
    (Limited f.vars.length f.isTautology ∧ Limited f.vars.length f.isSatisfiable ∧
      Limited f.vars.length f.isContradiction ∧ Limited f.vars.length (f.countModels names)) ∧
    ((f.text.length ≤ TruthTable.maxWidth → Limited f.vars.length f.truthTable) ∧
      (TruthTable.maxWidth < f.text.length → f.vars.length < 64 →
        f.truthTable = .error .widthOutOfRange) ∧
      (64 ≤ f.vars.length → f.truthTable = .error (.tooManyVariables f.vars.length))) ∧
    Limited (f.vars ∪ g.vars).length (f.isEquivalent g) ∧
    Limited r.vars.length r.isSound ∧
    (∀ n, (Fault.tooManyVariables n).message = "Too many variables: " ++ toString n) ∧
    (∀ vs : List Var, vs.length < 64 → ∃ e, Enumeration.ofVars vs = .ok e ∧
      WordEnumeration.ofVars? vs = some e.toWords ∧
      ∀ k, e.toWords.take? k = some ((Model.rows vs).take k, (e.take k).2.toWords)) ∧
    (f.vars.length < 64 → ∃ own, f.countOwn = .ok own ∧ own < UInt64.size) ∧
    ∃ free, Checked.sub? names.eraseDups.length f.vars.length = some free :=
  ⟨⟨f.limited_isTautology, f.limited_isSatisfiable, f.limited_isContradiction,
      Formula.limited_countModels h⟩,
    ⟨f.limited_truthTable, fun wide few => TruthTable.truthTable_eq_error few wide,
      f.truthTable_eq_error_of_many⟩,
    f.limited_isEquivalent g, r.limited_isSound, fun _ => rfl,
    fun _ few => Enumeration.exists_toWords_take?_eq_rows few, Formula.exists_countOwn_lt_size,
    _, Checked.sub?_eq_some (Formula.length_vars_le_length_eraseDups h)⟩

/-! ## On both sides of the limits -/

/-- The variable with the letter `x` and a number of zeros. -/
def Var.zeros (n : Nat) : Var :=
  ⟨String.ofList ('x' :: List.replicate n '0'), by
    have hdigits : ∀ c ∈ List.replicate n '0', c.isDigit = true := fun c hc => by
      rw [List.eq_of_mem_replicate hc]
      rfl
    rw [isVariableName, String.toList_ofList, isNameChars, List.all_eq_true.mpr hdigits]
    rfl⟩

theorem Var.zeros_injective : Function.Injective Var.zeros := by
  intro n n' h
  have hlength := congrArg (fun v => v.name.toList.length) h
  simpa [Var.zeros] using hlength

/-- The conjunction of the variables with up to `n` zeros. -/
def Formula.zeros : Nat → Formula
  | 0 => .var (.zeros 0)
  | n + 1 => .and (zeros n) (.var (.zeros (n + 1)))

theorem Formula.occurrences_zeros (n : Nat) :
    (Formula.zeros n).occurrences = (List.range (n + 1)).map Var.zeros := by
  induction n with
  | zero => rfl
  | succ n ih =>
    rw [zeros, occurrences, ih, List.range_succ (n := n + 1), List.map_append]
    rfl

theorem Formula.length_vars_zeros (n : Nat) : (Formula.zeros n).vars.length = n + 1 := by
  have hnodup : (Formula.zeros n).occurrences.Nodup := by
    rw [occurrences_zeros]
    exact List.nodup_range.map Var.zeros_injective
  rw [vars, length_ascending_of_nodup hnodup, occurrences_zeros, List.length_map,
    List.length_range]

/-- The shorter of two conjunctions has no variables of its own. -/
theorem Formula.length_union_vars_zeros {n n' : Nat} (h : n ≤ n') :
    ((Formula.zeros n).vars ∪ (Formula.zeros n').vars).length = n' + 1 := by
  have hmembers : ∀ v, v ∈ (Formula.zeros n).occurrences ++ (Formula.zeros n').occurrences ↔
      v ∈ (Formula.zeros n').occurrences := by
    intro v
    rw [List.mem_append, or_iff_right_iff_imp, occurrences_zeros, occurrences_zeros]
    exact fun hv => List.map_subset _ (List.range_subset.mpr (Nat.succ_le_succ h)) hv
  rw [← length_vars_binary .and, vars, occurrences, ascending_congr hmembers]
  exact length_vars_zeros n'

/-- The conjunction is short, as none of its names is long. -/
theorem Formula.length_text_zeros_le (n : Nat) :
    (Formula.zeros n).text.length ≤ (n + 1) * (n + 5) := by
  have hname : ∀ n, (Var.zeros n).name.length = n + 1 := fun n => by
    rw [Var.zeros, String.length_ofList, List.length_cons, List.length_replicate]
  induction n with
  | zero => decide
  | succ n ih =>
    have hsign : Connective.and.symbol.length = 1 := rfl
    rw [zeros, length_text_binary, hsign, text, hname]
    grind

/-- A conjunction of 63 variables is answered for; one more variable in the other formula or in the
rule is one too many. -/
theorem exhaustion_limits_sharp :
    (∀ v ∈ (Formula.zeros 62).vars, v.name ∈ (Formula.zeros 62).vars.map Var.name) ∧
      (∃ t, (Formula.zeros 62).truthTable = .ok t) ∧
      (∃ n, (Formula.zeros 62).countModels ((Formula.zeros 62).vars.map Var.name) = .ok n) ∧
      (Formula.zeros 62).isEquivalent (.zeros 63) = .error (.tooManyVariables 64) ∧
      (Rule.mk [] (.zeros 63)).isSound = .error (.tooManyVariables 64) ∧
      (Fault.tooManyVariables 64).message = "Too many variables: 64" := by
  have hnames : ∀ v ∈ (Formula.zeros 62).vars, v.name ∈ (Formula.zeros 62).vars.map Var.name :=
    fun _ hv => List.mem_map_of_mem hv
  obtain ⟨⟨-, -, -, hcount⟩, ⟨htable, -⟩, hequivalent, hsound, hmessage, -⟩ :=
    exhaustion_limits (.zeros 62) (.zeros 63) (.mk [] (.zeros 63)) _ hnames
  have few : (Formula.zeros 62).vars.length < 64 := by
    rw [Formula.length_vars_zeros]
    decide
  have narrow : (Formula.zeros 62).text.length ≤ TruthTable.maxWidth :=
    (Formula.length_text_zeros_le 62).trans (by decide)
  have hunion : ((Formula.zeros 62).vars ∪ (Formula.zeros 63).vars).length = 64 :=
    Formula.length_union_vars_zeros (by decide)
  have hrule : (Rule.mk [] (.zeros 63)).vars.length = 64 := Formula.length_vars_zeros 63
  rw [hunion] at hequivalent
  rw [hrule] at hsound
  exact ⟨hnames, (htable narrow).answers few, hcount.answers few, hequivalent.refuses le_rfl,
    hsound.refuses le_rfl, hmessage 64⟩

/-- A formula without any variables has a truth table if its text has the greatest width, and none
with one more negation. -/
theorem exhaustion_limits_overwide :
    TruthTable.overwide.vars.length < 64 ∧
      (∃ t, TruthTable.widest.truthTable = .ok t) ∧
      TruthTable.overwide.truthTable = .error .widthOutOfRange ∧
      Fault.widthOutOfRange.message = "Formatting argument out of range" := by
  have few : TruthTable.widest.vars.length < 64 :=
    Nat.lt_of_le_of_lt TruthTable.length_vars_widest.le (by decide)
  exact ⟨TruthTable.length_vars_overwide_lt,
    (Formula.limited_truthTable _ TruthTable.length_text_widest.le).answers few,
    TruthTable.truthTable_eq_error TruthTable.length_vars_overwide_lt
      TruthTable.maxWidth_lt_length_text_overwide, rfl⟩

end PropLogic

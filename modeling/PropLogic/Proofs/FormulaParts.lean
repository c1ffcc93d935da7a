import PropLogic.Proofs.UniqueDecoding

/-!
# Which parts make up a formula

The root and the operands of a formula give it back (`Formula.ofParts_root`).  This module says
which roots and operands those of some formula are.  A text is the written form of one token at
most, since no symbol of an operator is a name or the symbol of another one
(`Token.ofText?_eq_some_iff`).  A token stands at the root of a formula with as many operands as
belong to it, the first before the second (`Token.Takes`, `Formula.exists_parts_iff`).  All other
parts are refused, with a fault that depends on the root and not on the operands (`Fault.ofRoot`,
`Formula.ofParts_eq_error`).

So parts that are accepted are those of a formula, and by `Formula.ofParts_root` this formula is the
one that they make up.

Main statement: `Formula.ofParts_eq_ok_iff_parts`.
-/

namespace PropLogic

namespace Token

/-- The token that a text is the written form of. -/
def ofText? (s : String) : Option Token :=
  match Var.ofName? s with
  | some v => some (.name v)
  | none => (Operator.ofSymbol? s).map .operator

/-- **A text is the written form of one token at most.** -/
theorem ofText?_eq_some_iff {s : String} {x : Token} : ofText? s = some x ↔ s = x.text := by
  constructor
  · intro h
    unfold ofText? at h
    split at h
    · rename_i v hv
      cases h
      exact Var.ofName?_eq_some_iff.mp hv
    · obtain ⟨o, ho, rfl⟩ := Option.map_eq_some_iff.mp h
      exact Operator.ofSymbol?_eq_some_iff.mp ho
  · rintro rfl
    cases x with
    | name v => simp [ofText?, text]
    | operator o =>
      simp [ofText?, text, Formula.ofName?_symbol, Operator.ofSymbol?_eq_some_iff.mpr rfl]

theorem ofText?_eq_none_iff {s : String} :
    ofText? s = none ↔ Var.ofName? s = none ∧ Operator.ofSymbol? s = none := by
  unfold ofText?
  split <;> simp_all

/-- The operands, first and second, are as many as belong to the token. -/
def Takes (x : Token) (first? second? : Option Formula) : Prop :=
  ∃ fs : List Formula, fs.length = x.arity ∧ fs[0]? = first? ∧ fs[1]? = second?

end Token

namespace Fault

/-- The fault of operands that the token does not take. -/
def ofToken : Token → Fault
  | .name v => .leafWithOperands v.name
  | .operator (.const b) => .leafWithOperands (Operator.const b).symbol
  | .operator .not => .notOneOperand
  | .operator (.binary c) => .notTwoOperands c

/-- The fault of a root with operands that do not suit it. -/
def ofRoot (root : String) : Fault :=
  match Token.ofText? root with
  | some x => .ofToken x
  | none => .unknownRoot root

/-- The message names the root. -/
theorem exists_message_ofRoot (root : String) :
    ∃ front back : String, (ofRoot root).message = s!"{front}`" ++ root ++ s!"`{back}" := by
  unfold ofRoot
  split
  · rename_i x hx
    rw [Token.ofText?_eq_some_iff.mp hx]
    cases x with
    | name v => exact ⟨"Leaf ", " cannot have operands", rfl⟩
    | operator o =>
      cases o with
      | const b => exact ⟨"Leaf ", " cannot have operands", rfl⟩
      | not => exact ⟨"Unary operator ", " requires exactly one operand", rfl⟩
      | binary c => exact ⟨"Binary operator ", " requires exactly two operands", rfl⟩
  · exact ⟨"Unknown root symbol ", "", rfl⟩

end Fault

namespace Formula

variable {root : String} {first? second? : Option Formula}

/-! ## The operands that a token takes -/

theorem takes_token (f : Formula) : f.token.Takes f.first? f.second? :=
  ⟨f.operands, f.length_operands, f.first?_eq_getElem?.symm, f.second?_eq_getElem?.symm⟩

/-- There is a formula with these parts exactly if the root is a token that takes the operands. -/
theorem exists_parts_iff :
    (∃ f : Formula, f.root = root ∧ f.first? = first? ∧ f.second? = second?) ↔
      ∃ x : Token, x.text = root ∧ x.Takes first? second? := by
  constructor
  · rintro ⟨f, rfl, rfl, rfl⟩
    exact ⟨f.token, f.root_eq_text.symm, f.takes_token⟩
  · rintro ⟨x, rfl, fs, hlength, rfl, rfl⟩
    obtain ⟨f, rfl, rfl⟩ := exists_token_operands hlength
    exact ⟨f, f.root_eq_text, f.first?_eq_getElem?, f.second?_eq_getElem?⟩

/-! ## Parts that are refused -/

theorem ofOperator_eq_error {o : Operator} (h : ¬(Token.operator o).Takes first? second?) :
    ofOperator o first? second? = .error (.ofToken (.operator o)) := by
  -- where the parts make up a formula, its operands are taken
  fun_cases ofOperator o first? second? with
  | case1 b => exact absurd (takes_token (.const b)) h
  | case2 => rfl
  | case3 f => exact absurd (takes_token (.not f)) h
  | case4 => rfl
  | case5 c f g => exact absurd (takes_token (.binary c f g)) h
  | case6 => rfl

theorem ofParts_name_eq_error {v : Var} (h : ¬(Token.name v).Takes first? second?) :
    ofParts v.name first? second? = .error (.ofToken (.name v)) := by
  cases first? with
  | none =>
    cases second? with
    | none => exact absurd (takes_token (.var v)) h
    | some g => simp [ofParts, Fault.ofToken]
  | some f => simp [ofParts, Fault.ofToken]

/-- **Parts that no formula has are refused,** and the fault depends on the root alone. -/
theorem ofParts_eq_error (h : ¬∃ x : Token, x.text = root ∧ x.Takes first? second?) :
    ofParts root first? second? = .error (.ofRoot root) := by
  cases hroot : Token.ofText? root with
  | none =>
    obtain ⟨hname, hsymbol⟩ := Token.ofText?_eq_none_iff.mp hroot
    simp [ofParts, hname, hsymbol, Fault.ofRoot, hroot]
  | some x =>
    obtain rfl := Token.ofText?_eq_some_iff.mp hroot
    have hx : ¬x.Takes first? second? := fun hx => h ⟨x, rfl, hx⟩
    rw [Fault.ofRoot, hroot]
    cases x with
    | name v => exact ofParts_name_eq_error hx
    | operator o => exact (ofParts_symbol o first? second?).trans (ofOperator_eq_error hx)

/-- What is put together are the parts of the result. -/
theorem ofParts_eq_ok_iff {f : Formula} : ofParts root first? second? = .ok f ↔
    f.root = root ∧ f.first? = first? ∧ f.second? = second? := by
  constructor
  · intro h
    by_cases hparts : ∃ x : Token, x.text = root ∧ x.Takes first? second?
    · obtain ⟨g, rfl, rfl, rfl⟩ := exists_parts_iff.mpr hparts
      rw [ofParts_root] at h
      cases h
      exact ⟨rfl, rfl, rfl⟩
    · rw [ofParts_eq_error hparts] at h
      cases h
  · rintro ⟨rfl, rfl, rfl⟩
    exact ofParts_root f

theorem ofParts_eq_error_iff {e : Fault} : ofParts root first? second? = .error e ↔
    (¬∃ x : Token, x.text = root ∧ x.Takes first? second?) ∧ e = .ofRoot root := by
  constructor
  · intro h
    have hparts : ¬∃ x : Token, x.text = root ∧ x.Takes first? second? := by
      intro hparts
      obtain ⟨g, hg⟩ := exists_parts_iff.mpr hparts
      rw [ofParts_eq_ok_iff.mpr hg] at h
      cases h
    rw [ofParts_eq_error hparts] at h
    exact ⟨hparts, (Except.error.inj h).symm⟩
  · rintro ⟨hparts, rfl⟩
    exact ofParts_eq_error hparts

/-- **Putting parts together is the inverse of taking a formula apart.**  A formula is the result if
and only if the root and the operands are its own, so every formula is rebuilt from its parts.  The
parts are refused if and only if no formula has them: the root is neither a name nor the symbol of an
operator, or there are other operands than belong to it.  The fault depends on the root alone, and
its message names the root. -/
theorem ofParts_eq_ok_iff_parts :
    (∀ (root : String) (first? second? : Option Formula),
      (∀ f, ofParts root first? second? = .ok f ↔
        f.root = root ∧ f.first? = first? ∧ f.second? = second?) ∧
      ((∃ e, ofParts root first? second? = .error e) ↔
        ¬∃ f : Formula, f.root = root ∧ f.first? = first? ∧ f.second? = second?) ∧
      ∀ e, ofParts root first? second? = .error e ↔
        (¬∃ x : Token, x.text = root ∧ x.Takes first? second?) ∧ e = .ofRoot root) ∧
    (∀ f : Formula, ofParts f.root f.first? f.second? = .ok f) ∧
    ∀ root : String, ∃ front back : String,
      (Fault.ofRoot root).message = s!"{front}`" ++ root ++ s!"`{back}" := by
  refine ⟨fun root first? second? => ⟨fun f => ofParts_eq_ok_iff, ?_, fun e => ofParts_eq_error_iff⟩,
    ofParts_root, Fault.exists_message_ofRoot⟩
  simp only [ofParts_eq_error_iff, exists_parts_iff, exists_and_left, exists_eq, and_true]

/-- A second operand without a first does not suit negation, though it is one operand. -/
example : ofParts "~" none (some (.var .p)) = .error .notOneOperand := rfl

end Formula

end PropLogic

import PropLogic.Text.Quoted

/-!
# Syntax errors

Why a text is not a formula, or not an operator, and where this shows.  A position counts the bytes
of the text in UTF-8 before the first character that does not fit; `utf8Length` is that count for a
list of characters.
-/

namespace PropLogic

/-- The two written forms of formulas. -/
inductive Grammar where
  /-- Every connective stands between its operands, inside parentheses of its own. -/
  | standard
  /-- Every operator stands before its operands, without parentheses. -/
  | polish
  deriving DecidableEq

/-- With what a formula may begin, in the words of a message. -/
def Grammar.start : Grammar → String
  | .standard => "'(', '~', a variable or a constant"
  | .polish => "'~', '&', '|', '->', a variable or a constant"

/-- The reason why a text cannot be read. -/
inductive SyntaxError where
  /-- The text ends where a formula of the grammar should begin. -/
  | unexpectedEnd (position : Nat) (grammar : Grammar)
  /-- A formula of the grammar should begin where the character `found` stands. -/
  | unexpectedSymbol (position : Nat) (found : Char) (grammar : Grammar)
  /-- A binary connective should stand here. -/
  | missingOperator (position : Nat)
  /-- A closing parenthesis should stand here. -/
  | missingClosingParen (position : Nat)
  /-- The formula is complete, but the text goes on with `rest`. -/
  | trailingInput (position : Nat) (rest : String)
  /-- The text is not the symbol of an operator. -/
  | unknownOperator (symbol : String)
  deriving DecidableEq

/-- The wording of a syntax error. -/
def SyntaxError.message : SyntaxError → String
  | .unexpectedEnd n g => s!"unexpected end of input at position {n}, expected {g.start}"
  | .unexpectedSymbol n c g =>
    s!"unexpected symbol {Text.quoteChar c} at position {n}, expected {g.start}"
  | .missingOperator n => s!"missing or invalid binary operator at position {n}"
  | .missingClosingParen n => s!"missing closing ')' at position {n}"
  | .trailingInput n rest => s!"unexpected trailing input {Text.quote rest} at position {n}"
  | .unknownOperator s => s!"unknown operator symbol {Text.quote s}"

/-- The number of bytes that the characters take in UTF-8. -/
def utf8Length : List Char → Nat
  | [] => 0
  | c :: s => c.utf8Size + utf8Length s

@[simp] theorem utf8Length_nil : utf8Length [] = 0 := rfl

@[simp] theorem utf8Length_cons (c : Char) (s : List Char) :
    utf8Length (c :: s) = c.utf8Size + utf8Length s := rfl

@[simp] theorem utf8Length_append (s t : List Char) :
    utf8Length (s ++ t) = utf8Length s + utf8Length t := by
  induction s with
  | nil => simp
  | cons c s ih => simp [ih, Nat.add_assoc]

theorem utf8Length_eq_zero_iff {s : List Char} : utf8Length s = 0 ↔ s = [] := by
  cases s with
  | nil => simp
  | cons c s =>
    have := c.utf8Size_pos
    simp
    omega

theorem append_inj_of_utf8Length {s s' t t' : List Char} (h : s ++ t = s' ++ t')
    (hposition : utf8Length s = utf8Length s') : s = s' ∧ t = t' := by
  induction s generalizing s' with
  | nil =>
    obtain rfl := utf8Length_eq_zero_iff.mp hposition.symm
    exact ⟨rfl, h⟩
  | cons c s ih =>
    cases s' with
    | nil => cases utf8Length_eq_zero_iff.mp hposition
    | cons c' s' =>
      obtain ⟨rfl, htail⟩ := List.cons.inj h
      obtain ⟨rfl, rfl⟩ := ih htail (Nat.add_left_cancel hposition)
      exact ⟨rfl, rfl⟩

/-- The bytes of a text are those of its characters. -/
theorem utf8Length_toList (s : String) : utf8Length s.toList = s.utf8ByteSize := by
  have key : ∀ l : List Char, utf8Length l = (String.ofList l).utf8ByteSize := by
    intro l
    induction l with
    | nil => rfl
    | cons c l ih =>
      rw [utf8Length_cons, String.ofList_cons, String.utf8ByteSize_append,
        String.utf8ByteSize_singleton, ih]
  rw [key, String.ofList_toList]

/-- A position parts a text in one way only. -/
theorem append_inj_of_utf8ByteSize {s s' t t' : String} (h : s ++ t = s' ++ t')
    (hposition : s.utf8ByteSize = s'.utf8ByteSize) : s = s' ∧ t = t' := by
  rw [← utf8Length_toList, ← utf8Length_toList] at hposition
  rw [← String.toList_inj, String.toList_append, String.toList_append] at h
  obtain ⟨hs, ht⟩ := append_inj_of_utf8Length h hposition
  exact ⟨String.toList_inj.mp hs, String.toList_inj.mp ht⟩

end PropLogic

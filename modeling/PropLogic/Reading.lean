import PropLogic.Formula.Basic
import PropLogic.SyntaxError

/-!
# Reading a formula off the front of a text

A reader takes a formula off the front of a list of characters and returns it with the rest
(`Reading`), or it stops and leaves the part of the text that does not fit (`Halt`).  A reader never
goes back, so the rest at which it stopped tells the position of the error: the bytes of the whole
text less the bytes of the rest.
-/

namespace PropLogic

/-- No symbol of a connective begins with a digit, so that it ends a name in front of it. -/
theorem Connective.endsName_symbol_append (c : Connective) (r : List Char) :
    Var.EndsName (c.symbol.toList ++ r) := by
  cases c <;> exact Var.endsName_cons (by decide)

/-- No symbol of a connective begins with a letter, so that no name is read from it. -/
theorem Var.read?_symbol_append (c : Connective) (r : List Char) :
    read? (c.symbol.toList ++ r) = none := by
  cases c <;> exact read?_cons_eq_none (by decide)

/-- A formula at the front of the text `s`, and the rest of the text. -/
structure Reading (s : List Char) where
  formula : Formula
  rest : List Char
  /-- A formula has at least one character. -/
  shorter : rest.length < s.length

/-- Why a reader stops. -/
inductive Stop where
  | noFormula
  | noOperator
  | noClosingParen
  | trailing
  deriving DecidableEq

/-- Why a reader stopped, and the text from there on. -/
structure Halt where
  stop : Stop
  rest : List Char
  deriving DecidableEq

/-- The syntax error of a reader that was given the text `s` and halted. -/
def Halt.toError (g : Grammar) (s : List Char) (h : Halt) : SyntaxError :=
  let position := utf8Length s - utf8Length h.rest
  match h.stop, h.rest with
  | .noFormula, [] => .unexpectedEnd position g
  | .noFormula, c :: _ => .unexpectedSymbol position c g
  | .noOperator, _ => .missingOperator position
  | .noClosingParen, _ => .missingClosingParen position
  | .trailing, rest => .trailingInput position (String.ofList rest)

/-- The formula of a reading that leaves nothing of the text. -/
def Reading.whole {s : List Char} (r : Reading s) : Except Halt Formula :=
  match r.rest with
  | [] => .ok r.formula
  | rest => .error ⟨.trailing, rest⟩

/-- A formula is read whatever the words of an error would have been. -/
theorem Halt.mapError_toError_eq_ok_iff {g : Grammar} {s : List Char} {e : Except Halt Formula}
    {f : Formula} : e.mapError (toError g s) = .ok f ↔ e = .ok f := by
  cases e with
  | error h => exact ⟨nofun, nofun⟩
  | ok f' =>
    constructor
    · intro h
      cases h
      rfl
    · intro h
      cases h
      rfl

theorem Halt.mapError_toError_eq_error_iff {g : Grammar} {s : List Char} {a : Except Halt Formula}
    {e : SyntaxError} : a.mapError (toError g s) = .error e ↔ ∃ h, a = .error h ∧ h.toError g s = e
    := by
  cases a with
  | ok f => exact ⟨nofun, nofun⟩
  | error h =>
    constructor
    · intro he
      cases he
      exact ⟨h, rfl, rfl⟩
    · rintro ⟨_, h, rfl⟩
      cases h
      rfl

/-- What a reader gives, without the proof that it makes the text shorter. -/
theorem Reading.map_eq_ok_iff {s r : List Char} {e : Except Halt (Reading s)} {f : Formula} :
    (e.map fun a => (a.formula, a.rest)) = .ok (f, r) ↔
      ∃ a : Reading s, e = .ok a ∧ a.formula = f ∧ a.rest = r := by
  cases e with
  | error h => exact ⟨nofun, nofun⟩
  | ok a =>
    constructor
    · intro h
      cases h
      exact ⟨a, rfl, rfl, rfl⟩
    · rintro ⟨_, h, rfl, rfl⟩
      cases h
      rfl

theorem Reading.map_eq_error_iff {s : List Char} {e : Except Halt (Reading s)} {h : Halt} :
    (e.map fun a => (a.formula, a.rest)) = .error h ↔ e = .error h := by
  cases e with
  | error h' =>
    constructor
    · intro h
      cases h
      rfl
    · intro h
      cases h
      rfl
  | ok a => exact ⟨nofun, nofun⟩

/-- A text is read as a whole if a formula is read that leaves nothing. -/
theorem Reading.bind_whole_eq_ok_iff {s : List Char} {e : Except Halt (Reading s)} {f : Formula} :
    e.bind whole = .ok f ↔ ∃ a : Reading s, e = .ok a ∧ a.formula = f ∧ a.rest = [] := by
  cases e with
  | error h => simp [Except.bind]
  | ok a =>
    simp only [Except.bind, whole, Except.ok.injEq, exists_eq_left']
    cases a.rest <;> simp

/-- No text is read as a whole if none is read at all or something is left. -/
theorem Reading.bind_whole_eq_error_iff {s : List Char} {e : Except Halt (Reading s)} {h : Halt} :
    e.bind whole = .error h ↔
      e = .error h ∨ ∃ a : Reading s, e = .ok a ∧ a.rest ≠ [] ∧ h = ⟨.trailing, a.rest⟩ := by
  cases e with
  | error h' => simp [Except.bind]
  | ok a =>
    simp only [Except.bind, whole, reduceCtorEq, Except.ok.injEq, exists_eq_left', false_or]
    cases a.rest <;> simp [eq_comm]

end PropLogic

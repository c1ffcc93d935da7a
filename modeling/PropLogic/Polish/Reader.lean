import PropLogic.Polish.Text
import PropLogic.Reading

/-!
# Reading Polish notation

The reader of Polish notation knows variables, the constants, `~`, `&`, `|` and `->`.  The first
character tells which of these stands in front; a `-` counts only with the `>` behind it, and the
other connectives are refused at their first character.
-/

namespace PropLogic

namespace Polish

/-- The connectives that the reader knows. -/
def connectives : List Connective :=
  [.and, .or, .implies]

/-- The connective of the notation whose symbol stands at the front of a text, and the rest. -/
def readConnective? : List Char → Option (Connective × List Char)
  | '&' :: r => some (.and, r)
  | '|' :: r => some (.or, r)
  | '-' :: '>' :: r => some (.implies, r)
  | _ => none

/-- A connective of the notation is read from its symbol, whatever follows. -/
theorem readConnective?_symbol_append {c : Connective} (hc : c ∈ connectives) (r : List Char) :
    readConnective? (c.symbol.toList ++ r) = some (c, r) := by
  rcases (by simpa [connectives] using hc : c = .and ∨ c = .or ∨ c = .implies)
    with rfl | rfl | rfl <;> rfl

/-- A text from which a connective is read is the symbol of one of the notation, and the rest. -/
theorem eq_append_of_readConnective? {s r : List Char} {c : Connective}
    (h : readConnective? s = some (c, r)) :
    c ∈ connectives ∧ s = c.symbol.toList ++ r := by
  unfold readConnective? at h
  split at h <;> cases h <;> exact ⟨by decide, rfl⟩

/-- Reading a connective makes the text shorter. -/
theorem length_lt_of_readConnective? {s r : List Char} {c : Connective}
    (h : readConnective? s = some (c, r)) : r.length < s.length := by
  have := c.symbol_length_pos
  simp only [(eq_append_of_readConnective? h).2, List.length_append]
  omega

/-- The formula in Polish notation at the front of a text. -/
def read (s : List Char) : Except Halt (Reading s) :=
  match s with
  | [] => .error ⟨.noFormula, []⟩
  | 'T' :: r => .ok ⟨.const true, r, Nat.lt_succ_self _⟩
  | 'F' :: r => .ok ⟨.const false, r, Nat.lt_succ_self _⟩
  | '~' :: r =>
    match read r with
    | .error h => .error h
    | .ok a => .ok ⟨.not a.formula, a.rest, Nat.lt_succ_of_lt a.shorter⟩
  | c :: r =>
    match hv : Var.read? (c :: r) with
    | some (v, r₁) => .ok ⟨.var v, r₁, Var.length_lt_of_read? hv⟩
    | none =>
      match hc : readConnective? (c :: r) with
      | none => .error ⟨.noFormula, c :: r⟩
      | some (op, r₁) =>
        match read r₁ with
        | .error h => .error h
        | .ok a =>
          match read a.rest with
          | .error h => .error h
          | .ok b => .ok ⟨.binary op a.formula b.formula, b.rest,
              Nat.lt_trans (Nat.lt_trans b.shorter a.shorter) (length_lt_of_readConnective? hc)⟩
termination_by s.length
decreasing_by
  · exact Nat.lt_succ_self _
  · exact length_lt_of_readConnective? hc
  · exact Nat.lt_trans a.shorter (length_lt_of_readConnective? hc)

end Polish

/-- The formula that a text is, in Polish notation. -/
def Formula.parsePolish (s : String) : Except SyntaxError Formula :=
  ((Polish.read s.toList).bind Reading.whole).mapError (Halt.toError .polish s.toList)

end PropLogic

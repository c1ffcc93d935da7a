import PropLogic.Reading
import PropLogic.Standard.Text

/-!
# Reading standard notation

A formula in standard notation is a variable with all its digits, a constant, a `~` before a
formula, or two formulas with a connective between them inside parentheses.  The first character
tells which of these it is, so one pass from left to right finds the only way to read a text.
-/

namespace PropLogic

namespace Standard

/-- The formula in standard notation at the front of a text. -/
def read (s : List Char) : Except Halt (Reading s) :=
  match s with
  | [] => .error ⟨.noFormula, []⟩
  | 'T' :: r => .ok ⟨.const true, r, Nat.lt_succ_self _⟩
  | 'F' :: r => .ok ⟨.const false, r, Nat.lt_succ_self _⟩
  | '~' :: r =>
    match read r with
    | .error h => .error h
    | .ok a => .ok ⟨.not a.formula, a.rest, Nat.lt_succ_of_lt a.shorter⟩
  | '(' :: r =>
    match read r with
    | .error h => .error h
    | .ok a =>
      match hc : Connective.read? a.rest with
      | none => .error ⟨.noOperator, a.rest⟩
      | some (c, r₁) =>
        match read r₁ with
        | .error h => .error h
        | .ok b =>
          match hb : b.rest with
          | ')' :: r₂ =>
            have closed : r₂.length < b.rest.length := hb ▸ Nat.lt_succ_self _
            .ok ⟨.binary c a.formula b.formula, r₂,
              Nat.lt_succ_of_lt (Nat.lt_trans (Nat.lt_trans closed b.shorter)
                (Nat.lt_trans (Connective.length_lt_of_read? hc) a.shorter))⟩
          | r₂ => .error ⟨.noClosingParen, r₂⟩
  | c :: r =>
    match hv : Var.read? (c :: r) with
    | none => .error ⟨.noFormula, c :: r⟩
    | some (v, r₁) => .ok ⟨.var v, r₁, Var.length_lt_of_read? hv⟩
termination_by s.length
decreasing_by
  · exact Nat.lt_succ_self _
  · exact Nat.lt_succ_self _
  · exact Nat.lt_succ_of_lt (Nat.lt_trans (Connective.length_lt_of_read? hc) a.shorter)

end Standard

namespace Formula

/-- The formula that a text is, in standard notation. -/
def parse (s : String) : Except SyntaxError Formula :=
  ((Standard.read s.toList).bind Reading.whole).mapError (Halt.toError .standard s.toList)

/-- The formula in standard notation that a text begins with, and the rest of the text. -/
def parseFront (s : String) : Except SyntaxError (Formula × String) :=
  match Standard.read s.toList with
  | .error h => .error (h.toError .standard s.toList)
  | .ok r => .ok (r.formula, String.ofList r.rest)

/-- Whether a text is a formula in standard notation. -/
def isFormula (s : String) : Bool :=
  match parseFront s with
  | .error _ => false
  | .ok (_, rest) => rest.isEmpty

end Formula

end PropLogic

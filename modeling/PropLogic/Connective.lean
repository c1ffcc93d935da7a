/-!
# Binary connectives

The seven binary connectives, their symbols and their truth functions.  Some symbols share
characters, but none begins another one, so at most one of them stands at the front of a text:
`Connective.read?_symbol_append` and `Connective.eq_append_of_read?` say that the connective in
front is read exactly from its symbol.
-/

namespace PropLogic

/-- A binary connective. -/
inductive Connective where
  | and
  | or
  | implies
  | xor
  | iff
  | nand
  | nor
  deriving DecidableEq

namespace Connective

/-- All connectives, in their canonical order. -/
def all : List Connective :=
  [.and, .or, .implies, .xor, .iff, .nand, .nor]

theorem mem_all (c : Connective) : c ∈ all := by
  cases c <;> decide

/-- The written form of a connective. -/
def symbol : Connective → String
  | .and => "&"
  | .or => "|"
  | .implies => "->"
  | .xor => "+"
  | .iff => "<->"
  | .nand => "-&"
  | .nor => "-|"

/-- The truth function of a connective. -/
def apply : Connective → Bool → Bool → Bool
  | .and, a, b => a && b
  | .or, a, b => a || b
  | .implies, a, b => !a || b
  | .xor, a, b => a != b
  | .iff, a, b => a == b
  | .nand, a, b => !(a && b)
  | .nor, a, b => !(a || b)

theorem symbol_injective {c d : Connective} (h : c.symbol = d.symbol) : c = d := by
  have key : ∀ a ∈ all, ∀ b ∈ all, a.symbol = b.symbol → a = b := by decide
  exact key c c.mem_all d d.mem_all h

/-- The connective of a given symbol. -/
def ofSymbol? (s : String) : Option Connective :=
  all.find? fun c => c.symbol == s

/-- A text is read as the connective that it is the symbol of. -/
theorem ofSymbol?_eq_some_iff {s : String} {c : Connective} :
    ofSymbol? s = some c ↔ s = c.symbol := by
  constructor
  · intro h
    unfold ofSymbol? at h
    exact (eq_of_beq (List.find?_some h :)).symm
  · rintro rfl
    cases c <;> decide

/-- The connective whose symbol stands at the front of a text, and the rest. -/
def read? : List Char → Option (Connective × List Char)
  | '<' :: '-' :: '>' :: r => some (.iff, r)
  | '-' :: '>' :: r => some (.implies, r)
  | '-' :: '&' :: r => some (.nand, r)
  | '-' :: '|' :: r => some (.nor, r)
  | '+' :: r => some (.xor, r)
  | '&' :: r => some (.and, r)
  | '|' :: r => some (.or, r)
  | _ => none

/-- A symbol in front of any text is read, whatever follows it. -/
@[simp] theorem read?_symbol_append (c : Connective) (r : List Char) :
    read? (c.symbol.toList ++ r) = some (c, r) := by
  cases c <;> rfl

/-- A text from which a connective is read is its symbol and the rest. -/
theorem eq_append_of_read? {s r : List Char} {c : Connective} (h : read? s = some (c, r)) :
    s = c.symbol.toList ++ r := by
  unfold read? at h
  split at h <;> cases h <;> rfl

theorem symbol_length_pos (c : Connective) : 0 < c.symbol.toList.length := by
  cases c <;> decide

/-- Reading a connective makes the text shorter. -/
theorem length_lt_of_read? {s r : List Char} {c : Connective} (h : read? s = some (c, r)) :
    r.length < s.length := by
  have := c.symbol_length_pos
  simp only [eq_append_of_read? h, List.length_append]
  omega

end Connective

end PropLogic

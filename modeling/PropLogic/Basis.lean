import PropLogic.OperatorTable

/-!
# Complete bases

A basis is a set of operators in which every formula can be expressed.  `Basis.reduce` brings a
formula over a basis by one to three operator tables, each of which expresses some operators
through others that are closer to the basis.  A constant outside the basis becomes a formula in `p`
whose value does not depend on `p`; only the basis `{F,->}` keeps a constant, and with it the set
of variables.
-/

namespace PropLogic

/-- A complete basis of operators. -/
inductive Basis where
  | notAndOr
  | notAnd
  | nand
  | impliesNot
  | impliesFalse
  deriving DecidableEq

/-- A text that names no basis. -/
structure UnknownBasis where
  name : String
  deriving DecidableEq

namespace OperatorTable

/-- Everything but `~`, `&` and `|`, through these. -/
def intoNotAndOr : OperatorTable :=
  .ofList
    [(.const true, .or first (.not first)),
     (.const false, .and first (.not first)),
     (.binary .implies, .or (.not first) second),
     (.binary .xor, .or (.and first (.not second)) (.and (.not first) second)),
     (.binary .iff, .or (.and first second) (.and (.not first) (.not second))),
     (.binary .nand, .not (.and first second)),
     (.binary .nor, .not (.or first second))]
    (by decide)

/-- `|` through `~` and `&`. -/
def orIntoNotAnd : OperatorTable :=
  .ofList [(.binary .or, .not (.and (.not first) (.not second)))] (by decide)

/-- `~` and `&` through `-&`. -/
def notAndIntoNand : OperatorTable :=
  .ofList
    [(.not, .nand first first),
     (.binary .and, .nand (.nand first second) (.nand first second))]
    (by decide)

/-- The exclusive disjunction of the operands, through `->` and `~`. -/
def differ : Formula :=
  .implies (.implies first second) (.not (.implies second first))

/-- The connectives other than `->`, through `->` and `~`. -/
def connectivesIntoImplies : List (Operator × Formula) :=
  [(.binary .and, .not (.implies first (.not second))),
   (.binary .or, .implies (.not first) second),
   (.binary .iff, .not differ),
   (.binary .xor, differ),
   (.binary .nand, .implies first (.not second)),
   (.binary .nor, .not (.implies (.not first) second))]

/-- Everything but `->` and `~`, through these. -/
def intoImpliesNot : OperatorTable :=
  .ofList
    (connectivesIntoImplies ++
      [(.const true, .implies first first), (.const false, .not (.implies first first))])
    (by decide)

/-- Everything but `->`, `~` and `F`, through these. -/
def intoImpliesNotFalse : OperatorTable :=
  .ofList
    (connectivesIntoImplies ++ [(.const true, .implies (.const false) (.const false))])
    (by decide)

/-- `~` through `->` and `F`. -/
def notIntoImpliesFalse : OperatorTable :=
  .ofList [(.not, .implies first (.const false))] (by decide)

end OperatorTable

namespace Basis

/-- All bases, in the order in which they are listed. -/
def all : List Basis :=
  [.notAndOr, .notAnd, .nand, .impliesNot, .impliesFalse]

/-- The name of a basis. -/
def name : Basis → String
  | .notAndOr => "not-and-or"
  | .notAnd => "not-and"
  | .nand => "nand"
  | .impliesNot => "implies-not"
  | .impliesFalse => "implies-false"

/-- The operators of a basis, in their canonical order. -/
def operators : Basis → List Operator
  | .notAndOr => [.not, .binary .and, .binary .or]
  | .notAnd => [.not, .binary .and]
  | .nand => [.binary .nand]
  | .impliesNot => [.not, .binary .implies]
  | .impliesFalse => [.const false, .binary .implies]

/-- The written form of a basis: the symbols of its operators in braces. -/
def text (b : Basis) : String :=
  "\x7b" ++ ",".intercalate (b.operators.map Operator.symbol) ++ "\x7d"

/-- The basis of a given name. -/
def ofName (s : String) : Except UnknownBasis Basis :=
  match all.find? fun b => b.name == s with
  | some b => .ok b
  | none => .error ⟨s⟩

/-- Whether the formula uses operators of the basis only. -/
def contains (b : Basis) (f : Formula) : Bool :=
  f.operators.all fun o => b.operators.contains o

/-- The tables that are applied one after the other. -/
def tables : Basis → List OperatorTable
  | .notAndOr => [.intoNotAndOr]
  | .notAnd => [.intoNotAndOr, .orIntoNotAnd]
  | .nand => [.intoNotAndOr, .orIntoNotAnd, .notAndIntoNand]
  | .impliesNot => [.intoImpliesNot]
  | .impliesFalse => [.intoImpliesNotFalse, .notIntoImpliesFalse]

/-- The formula expressed over the basis. -/
def reduce (b : Basis) (f : Formula) : Formula :=
  b.tables.foldl (fun g t => g.expand t) f

theorem contains_iff {b : Basis} {f : Formula} :
    b.contains f = true ↔ ∀ o ∈ f.operators, o ∈ b.operators := by
  simp only [contains, List.all_eq_true, List.contains_iff_mem]

/-- A text names a basis exactly if it is the basis's name. -/
theorem ofName_eq_ok_iff {s : String} {b : Basis} : ofName s = .ok b ↔ s = b.name := by
  constructor
  · intro h
    unfold ofName at h
    split at h
    · next hb =>
      cases h
      exact (eq_of_beq (List.find?_some hb :)).symm
    · cases h
  · rintro rfl
    cases b <;> rfl

end Basis

/-- The wording of the error for a text that names no basis. -/
def UnknownBasis.message (e : UnknownBasis) : String :=
  s!"unknown basis {Text.quote e.name}, expected one of: " ++
    ", ".intercalate (Basis.all.map Basis.name)

end PropLogic

import PropLogic.Text.Quoted
import PropLogic.Variable
import Std.Data.ExtTreeMap

/-!
# Models

A model gives truth values to finitely many names.  Any text may be a key, so that a model can be
wrong; it is valid if all its keys are variable names.  Two models with the same entries are equal.

Main statement: `Model.getElem?_ofPairs`, that among several values for a name the last one counts.
-/

namespace PropLogic

/-- A finite assignment of truth values to names, ascending by name. -/
abbrev Model := Std.ExtTreeMap String Bool

namespace Model

/-- Whether every key is a variable name. -/
def isValid (m : Model) : Bool :=
  m.keys.all isVariableName

/-- Whether the model gives a value to the variable. -/
def assigns (m : Model) (v : Var) : Bool :=
  m.contains v.name

/-- The values of all variables, false where the model gives none. -/
def valuation (m : Model) (v : Var) : Bool :=
  m[v.name]?.getD false

/-- The variables among the keys, ascending; of a valid model these are all its keys. -/
def vars (m : Model) : List Var :=
  m.keys.filterMap Var.ofName?

/-- The model of a list of variables and values, in which a later value replaces an earlier one. -/
def ofPairs (ps : List (Var × Bool)) : Model :=
  ps.foldl (fun m p => m.insert p.1.name p.2) ∅

/-- The written form of a model: its entries in braces, with quoted names. -/
def quoted (m : Model) : String :=
  let entry (e : String × Bool) := Text.quote e.1 ++ ": " ++ if e.2 then "true" else "false"
  "\x7b" ++ ", ".intercalate (m.toList.map entry) ++ "\x7d"

theorem isValid_iff (m : Model) : m.isValid = true ↔ ∀ k ∈ m, isVariableName k = true := by
  simp [isValid, List.all_eq_true]

theorem mem_vars {m : Model} {v : Var} : v ∈ m.vars ↔ v.name ∈ m := by
  simp [vars, Var.ofName?_eq_some_iff]

/-- A name has the value that it is paired with last. -/
theorem getElem?_ofPairs (ps : List (Var × Bool)) (s : String) :
    (ofPairs ps)[s]? = (ps.reverse.find? fun p => p.1.name == s).map (·.2) := by
  suffices h : ∀ m : Model, (ps.foldl (fun m p => m.insert p.1.name p.2) m)[s]? =
      ((ps.reverse.find? fun p => p.1.name == s).map (·.2)).or m[s]? by
    simpa [ofPairs] using h ∅
  induction ps with
  | nil => simp
  | cons p ps ih =>
    intro m
    rw [List.foldl_cons, ih, List.reverse_cons, List.find?_append, Std.ExtTreeMap.getElem?_insert]
    cases ps.reverse.find? fun p => p.1.name == s with
    | some e => simp
    | none => by_cases h : p.1.name = s <;> simp [h]

end Model

end PropLogic

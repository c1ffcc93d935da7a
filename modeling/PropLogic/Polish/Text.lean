import PropLogic.Standard.Text

/-!
# The Polish text of a formula

In Polish notation every operator stands before its operands and nothing separates them:
`->&pq~r`.  Every formula has a Polish text, also one with connectives that the reader of this
notation does not know.
-/

namespace PropLogic.Formula

/-- The Polish text of a formula. -/
def polish : Formula → String
  | .var v => v.name
  | .const b => (Operator.const b).symbol
  | .not f => Operator.not.symbol ++ f.polish
  | .binary c f g => c.symbol ++ f.polish ++ g.polish

/-- It is written with characters of the standard text. -/
theorem isTextChar_of_mem_polish {f : Formula} {c : Char} (hc : c ∈ f.polish.toList) :
    isTextChar c = true := by
  induction f with
  | var v => exact Var.isTextChar_of_mem_name hc
  | const b => exact Operator.isTextChar_of_mem_symbol hc
  | not f ih =>
    rw [polish, String.toList_append, List.mem_append] at hc
    exact hc.elim Operator.isTextChar_of_mem_symbol ih
  | binary k f g ihf ihg =>
    simp only [polish, String.toList_append, List.mem_append] at hc
    rcases hc with (hc | hc) | hc
    · exact Operator.isTextChar_of_mem_symbol (o := .binary k) hc
    · exact ihf hc
    · exact ihg hc

end PropLogic.Formula

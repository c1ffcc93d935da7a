import PropLogic.Proofs.ErrorPosition

/-!
# Reading ahead

More text behind a text can change what the reader of standard notation makes of it only where the
reader has come to the end: in a name, which goes on with a digit, or where something is missing
that the end begins or could begin.  What the reader decides before the end it decides for every
text that begins alike.

For an error this is the same as to say that the text begins no formula
(`Standard.Halts.forall_append_iff`): while it begins one, this formula is read when the missing text
is put behind it.

Main statement: `Formula.parseFront_append_iff`.
-/

namespace PropLogic

open Var (EndsName)

/-- An error tells the same with more text behind a rest that is not empty. -/
theorem Halt.toError_append {g : Grammar} {s rest : List Char} {stop : Stop} (hne : rest ≠ [])
    (hstop : stop ≠ .trailing) (t : List Char) :
    toError g (s ++ t) ⟨stop, rest ++ t⟩ = toError g s ⟨stop, rest⟩ := by
  have hposition : utf8Length (s ++ t) - utf8Length (rest ++ t) =
      utf8Length s - utf8Length rest := by
    rw [utf8Length_append, utf8Length_append, Nat.add_sub_add_right]
  cases stop with
  | noFormula =>
    obtain ⟨c, rest, rfl⟩ := List.exists_cons_of_ne_nil hne
    exact congrArg (SyntaxError.unexpectedSymbol · c g) hposition
  | noOperator => exact congrArg SyntaxError.missingOperator hposition
  | noClosingParen => exact congrArg SyntaxError.missingClosingParen hposition
  | trailing => exact absurd rfl hstop

namespace Standard

theorem Halts.stop_ne_trailing {s : List Char} {h : Halt} (hs : Halts s h) :
    h.stop ≠ .trailing := by
  intro hstop
  obtain ⟨x, hx⟩ := hs.exists_awaits
  rw [hstop] at hx
  exact hx

end Standard

namespace Formula

theorem parseFront_eq_error_iff {s : String} {e : SyntaxError} : parseFront s = .error e ↔
    ∃ h, Standard.Halts s.toList h ∧ h.toError .standard s.toList = e := by
  unfold parseFront
  cases hread : Standard.read s.toList with
  | error h =>
    constructor
    · intro he
      cases he
      exact ⟨h, Standard.halts_of_read_eq_error hread, rfl⟩
    · rintro ⟨h', hs, rfl⟩
      rw [Reading.map_eq_error_iff.mp hs.front_eq_error] at hread
      cases hread
      rfl
  | ok a =>
    refine iff_of_false nofun ?_
    rintro ⟨h, hs, -⟩
    rw [Reading.map_eq_error_iff.mp hs.front_eq_error] at hread
    cases hread

/-- The beginning of a formula is read when the rest of the formula follows. -/
theorem exists_parseFront_append_eq_ok {s : String} (h : Standard.Begins s.toList) :
    ∃ (t : String) (f : Formula), parseFront (s ++ t) = .ok (f, "") := by
  obtain ⟨f, t, ht⟩ := h
  refine ⟨String.ofList t, f, parseFront_eq_ok_iff.mpr ⟨?_, fun _ => Var.endsName_nil⟩⟩
  rw [← String.toList_inj, String.toList_append, String.toList_ofList, String.append_empty, ht]

end Formula

namespace Standard

/-- **An error stands whatever follows** exactly if the text begins no formula. -/
theorem Halts.forall_append_iff {s : String} {h : Halt} (hs : Halts s.toList h) :
    (∀ t : String,
      Formula.parseFront (s ++ t) = .error (h.toError .standard s.toList)) ↔
      ¬ Begins s.toList := by
  constructor
  · intro hall hbegins
    obtain ⟨t, f, hread⟩ := Formula.exists_parseFront_append_eq_ok hbegins
    rw [hall t] at hread
    cases hread
  · intro hbegins t
    obtain ⟨front, hp⟩ := hs.exists_parts
    have hne : h.rest ≠ [] := by
      intro hrest
      rw [hp.eq_append, hrest, List.append_nil] at hbegins
      exact hbegins hp.begins_front
    have hstop : h.stop = .noOperator → h.rest ∉ unfinishedSymbols := fun hop hmem =>
      hbegins ((hp.begins_iff hne).mpr ⟨hop, hmem⟩)
    have happend := hs.append hne hstop t.toList
    rw [← String.toList_append] at happend
    refine Formula.parseFront_eq_error_iff.mpr ⟨_, happend, ?_⟩
    rw [String.toList_append]
    exact Halt.toError_append hne hs.stop_ne_trailing t.toList

end Standard

namespace Formula

/-- What has been read stays so whatever follows, unless a name at the end of the text goes on. -/
theorem forall_parseFront_append_eq_ok_iff {s rest : String} {f : Formula}
    (h : parseFront s = .ok (f, rest)) :
    (∀ t : String, parseFront (s ++ t) = .ok (f, rest ++ t)) ↔
      rest ≠ "" ∨ f.endsInName = false := by
  obtain ⟨rfl, hn⟩ := parseFront_eq_ok_iff.mp h
  have hread (t : String) : parseFront (f.text ++ rest ++ t) = .ok (f, rest ++ t) ↔
      (f.endsInName = true → EndsName (rest ++ t).toList) := by
    rw [parseFront_eq_ok_iff, String.append_assoc]
    exact and_iff_right rfl
  simp only [hread]
  constructor
  · intro hall
    by_contra hlast
    obtain ⟨rfl, hname⟩ : rest = "" ∧ f.endsInName = true := by simpa using hlast
    -- the digit would belong to the name
    have hdigit := hall "0" hname '0' rfl
    cases hdigit
  · rintro (hne | hname) t hn'
    · rw [String.toList_append]
      exact (hn hn').append (by simpa using hne) t.toList
    · rw [hname] at hn'
      cases hn'

/-- **What follows a text changes no decision that was made before its end.**  A formula that has been
read is read off every longer text, and what follows is left, exactly if something has been left
already or no name stands at the end of the formula.  An error stands in every longer text exactly
if something is left at its position that cannot become the symbol of a missing connective. -/
theorem parseFront_append_iff (s : String) :
    (∀ (f : Formula) (rest : String), parseFront s = .ok (f, rest) →
      ((∀ t : String, parseFront (s ++ t) = .ok (f, rest ++ t)) ↔
        rest ≠ "" ∨ f.endsInName = false)) ∧
    ∀ e : SyntaxError, parseFront s = .error e →
      ∃ front rest : String, s = front ++ rest ∧ e.position? = some front.utf8ByteSize ∧
        ((∀ t : String, parseFront (s ++ t) = .error e) ↔
          rest ≠ "" ∧ (e = .missingOperator front.utf8ByteSize → rest ∉ ["-", "<", "<-"])) := by
  refine ⟨fun f rest => forall_parseFront_append_eq_ok_iff, fun e he => ?_⟩
  obtain ⟨⟨stop, restChars⟩, hs, rfl⟩ := parseFront_eq_error_iff.mp he
  obtain ⟨frontChars, hp⟩ := hs.exists_parts
  obtain ⟨rest, rfl⟩ : ∃ rest : String, rest.toList = restChars := ⟨_, String.toList_ofList⟩
  obtain ⟨front, rfl⟩ : ∃ front : String, front.toList = frontChars := ⟨_, String.toList_ofList⟩
  refine ⟨front, rest, by simpa [← String.toList_inj] using hp.eq_append, hp.toError_position, ?_⟩
  rw [hs.forall_append_iff, hp.toError_eq_missingOperator_iff]
  by_cases hne : rest = ""
  · -- the text is the front, which begins a formula
    refine iff_of_false (not_not_intro ?_) fun h => h.1 hne
    rw [hp.eq_append, hne, String.toList_empty, List.append_nil]
    exact hp.begins_front
  · rw [hp.begins_iff (by simpa using hne), Standard.toList_mem_unfinishedSymbols, not_and]
    exact (and_iff_right hne).symm

/-- Behind `(p` both `<` and `<q` are no connective; but the first becomes one when `->q)` follows,
while the second remains an error.  In `~x1` a digit may follow, in `~x1&` no more. -/
theorem parseFront_append_iff_unfinished :
    parseFront "~x1" = .ok (not (var ⟨"x1", by decide⟩), "") ∧
      (¬ ∀ t : String, parseFront ("~x1" ++ t) = .ok (not (var ⟨"x1", by decide⟩), "" ++ t)) ∧
    parseFront "~x1&" = .ok (not (var ⟨"x1", by decide⟩), "&") ∧
      (∀ t : String, parseFront ("~x1&" ++ t) = .ok (not (var ⟨"x1", by decide⟩), "&" ++ t)) ∧
    parseFront "(p<" = .error (.missingOperator 2) ∧
      (¬ ∀ t : String, parseFront ("(p<" ++ t) = .error (.missingOperator 2)) ∧
    parseFront "(p<q" = .error (.missingOperator 2) ∧
      ∀ t : String, parseFront ("(p<q" ++ t) = .error (.missingOperator 2) := by
  have hname : parseFront "~x1" = .ok (not (var ⟨"x1", by decide⟩), "") := by decide +kernel
  have hrest : parseFront "~x1&" = .ok (not (var ⟨"x1", by decide⟩), "&") := by decide +kernel
  have hpart : parseFront "(p<" = .error (.missingOperator 2) := by decide +kernel
  have herror : parseFront "(p<q" = .error (.missingOperator 2) := by decide +kernel
  refine ⟨hname, ?_, hrest, ?_, hpart, ?_, herror, ?_⟩
  · rw [(parseFront_append_iff "~x1").1 _ _ hname]
    decide
  · rw [(parseFront_append_iff "~x1&").1 _ _ hrest]
    decide
  · obtain ⟨front, rest, hs, hposition, hiff⟩ := (parseFront_append_iff "(p<").2 _ hpart
    obtain ⟨rfl, rfl⟩ := append_inj_of_utf8ByteSize (s := "(p") (t := "<") hs
      (Option.some.inj hposition)
    rw [hiff]
    decide
  · obtain ⟨front, rest, hs, hposition, hiff⟩ := (parseFront_append_iff "(p<q").2 _ herror
    obtain ⟨rfl, rfl⟩ := append_inj_of_utf8ByteSize (s := "(p") (t := "<q") hs
      (Option.some.inj hposition)
    rw [hiff]
    decide

end Formula

end PropLogic

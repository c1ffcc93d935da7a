import Mathlib.Data.List.Infix
import PropLogic.Proofs.StandardNotation

/-!
# Where a text stops being a formula

A syntax error parts a text in a front that the reader accepts and a rest.  The formulas that the
reader has not finished at that point (negations without an operand, open parentheses) are exactly
what `Standard.Halts` goes through: one constructor for every place of `Standard.read` where it
gives up, and one for every unfinished formula around such a place.  Three inductions over it give
all there is to say about the two parts:

* the front goes on to a standard text with anything that is awaited behind it
  (`Standard.Halts.exists_front`);
* nothing that is awaited stands in front of the rest (`Standard.Halts.not_awaited`);
* whatever follows the rest, the reader halts at the same place for the same reason
  (`Standard.Halts.append`), so that the whole text begins no formula.

The last of these has one exception.  The symbols `->`, `<->`, `-&` and `-|` can be cut short: a
text that ends in `-`, `<` or `<-` behind an operand lacks a connective there, and yet is the
beginning of a formula (`Standard.unfinishedSymbols`).

Main statement: `Formula.parse_eq_error_parts`.
-/

namespace PropLogic

open Var (EndsName)

/-! ## Symbols in front of a text -/

/-- No connective is read exactly if no symbol of one stands in front. -/
theorem Connective.read?_eq_none_iff {r : List Char} :
    read? r = none ↔ ∀ c : Connective, ¬ c.symbol.toList <+: r := by
  constructor
  · rintro h c ⟨t, rfl⟩
    simp [read?_symbol_append] at h
  · intro h
    cases hr : read? r with
    | none => rfl
    | some p => exact absurd ⟨p.2, (eq_append_of_read? hr).symm⟩ (h p.1)

namespace Standard

/-! ## How reading halts -/

/-- The characters with which a standard text begins. -/
def isStart (c : Char) : Bool :=
  isNameLetter c || ['T', 'F', '~', '('].contains c

/-- How reading a text halts. -/
inductive Halts : List Char → Halt → Prop
  /-- No formula begins here. -/
  | start {s : List Char} : (∀ c ∈ s.head?, isStart c = false) → Halts s ⟨.noFormula, s⟩
  /-- The operand of a negation cannot be read. -/
  | operand {s : List Char} {h : Halt} : Halts s h → Halts ('~' :: s) h
  /-- The first operand of a connective cannot be read. -/
  | first {s : List Char} {h : Halt} : Halts s h → Halts ('(' :: s) h
  /-- No connective stands behind the first operand. -/
  | operator {r : List Char} (f : Formula) : (f.endsInName = true → EndsName r) →
    (∀ c : Connective, ¬ c.symbol.toList <+: r) →
      Halts ('(' :: (f.text.toList ++ r)) ⟨.noOperator, r⟩
  /-- The second operand cannot be read. -/
  | second {s : List Char} {h : Halt} (f : Formula) (c : Connective) : Halts s h →
    Halts ('(' :: (f.text.toList ++ (c.symbol.toList ++ s))) h
  /-- No parenthesis stands behind the second operand. -/
  | closing {r : List Char} (f : Formula) (c : Connective) (g : Formula) :
    (g.endsInName = true → EndsName r) → ¬ [')'] <+: r →
      Halts ('(' :: (f.text.toList ++ (c.symbol.toList ++ (g.text.toList ++ r))))
        ⟨.noClosingParen, r⟩

theorem front_of_not_start {s : List Char} (hs : ∀ c ∈ s.head?, isStart c = false) :
    front s = .error ⟨.noFormula, s⟩ := by
  rw [front, read.eq_def]
  split
  · rfl
  · simp [isStart] at hs
  · simp [isStart] at hs
  · simp [isStart] at hs
  · simp [isStart] at hs
  · next c r _ _ _ _ =>
    have hc : isNameLetter c = false := by
      have hstart := hs c rfl
      rw [isStart, Bool.or_eq_false_iff] at hstart
      exact hstart.1
    split
    · rfl
    · next v r₁ hv => simp [Var.read?_cons_eq_none hc] at hv

/-- **Reading halts as the relation says.** -/
theorem Halts.front_eq_error {s : List Char} {h : Halt} (hs : Halts s h) :
    front s = .error h := by
  induction hs with
  | start hs => exact front_of_not_start hs
  | operand _ ih =>
    rw [front_not, ih]
    rfl
  | first _ ih => exact front_paren_of_error ih
  | operator f hf hc =>
    exact front_paren_of_none (front_text_append f hf) (Connective.read?_eq_none_iff.mpr hc)
  | @second s h f c _ ih =>
    have hf := front_text_append f fun _ => c.endsName_symbol_append s
    rw [front_paren_of_some hf (c.read?_symbol_append s), ih]
    rfl
  | @closing r f c g hg hr =>
    have hf := front_text_append f fun _ => c.endsName_symbol_append (g.text.toList ++ r)
    rw [front_paren_of_some hf (c.read?_symbol_append _), front_text_append g hg]
    exact close_eq_error hr

theorem halts_of_read_eq_error {s : List Char} {h : Halt} (hs : read s = .error h) :
    Halts s h := by
  revert h
  fun_induction read s with
  | case2 | case3 | case5 | case9 | case12 =>
    -- a formula has been read
    intro h hs
    cases hs
  | case1 =>
    intro h hs
    cases hs
    exact .start (by simp)
  | case4 r h' hr ih =>
    intro h hs
    cases hs
    exact .operand (ih hr)
  | case6 r h' hr ih =>
    intro h hs
    cases hs
    exact .first (ih hr)
  | case7 r a ha hc ih =>
    intro h hs
    cases hs
    obtain ⟨hr, hn⟩ := eq_append_of_read ha
    have hhalts := Halts.operator a.formula hn (Connective.read?_eq_none_iff.mp hc)
    rwa [← hr] at hhalts
  | case8 r a ha c r₁ hc h' hr₁ ih ih₁ =>
    intro h hs
    cases hs
    have hhalts := Halts.second a.formula c (ih₁ hr₁)
    rwa [← Connective.eq_append_of_read? hc, ← (eq_append_of_read ha).1] at hhalts
  | case10 r a ha c r₁ hc b hb hne ih ih₁ =>
    intro h hs
    cases hs
    obtain ⟨hr₁, hn⟩ := eq_append_of_read hb
    have hclosing : ¬ [')'] <+: b.rest := by
      rintro ⟨r₂, hr₂⟩
      exact hne r₂ hr₂.symm
    have hhalts := Halts.closing a.formula c b.formula hn hclosing
    rwa [← hr₁, ← Connective.eq_append_of_read? hc, ← (eq_append_of_read ha).1] at hhalts
  | case11 c r hT hF hnot hparen hv =>
    intro h hs
    cases hs
    refine .start fun d hd => ?_
    obtain rfl : c = d := Option.some.inj hd
    have hletter : isNameLetter c = false := by simpa [Var.read?] using hv
    simpa [isStart, hletter] using ⟨hT, hF, hnot, hparen⟩

/-! ## Beginnings of standard texts -/

theorem toList_text_compound (c : Connective) (f g : Formula) : (Formula.binary c f g).text.toList =
    '(' :: (f.text.toList ++ (c.symbol.toList ++ (g.text.toList ++ [')']))) := by
  rw [← Formula.toList_text_binary, List.append_nil]

/-- The characters are the beginning of the standard text of a formula. -/
def Begins (s : List Char) : Prop :=
  ∃ f : Formula, s <+: f.text.toList

section Begins

variable {s t : List Char}

theorem Begins.shorten (h : Begins t) (hs : s <+: t) : Begins s :=
  h.imp fun _ hf => hs.trans hf

theorem begins_text (f : Formula) : Begins f.text.toList :=
  ⟨f, List.prefix_rfl⟩

theorem Begins.operand (h : Begins s) : Begins ('~' :: s) := by
  obtain ⟨f, hf⟩ := h
  refine ⟨.not f, ?_⟩
  rw [Formula.toList_text_not]
  exact List.cons_prefix_cons.mpr ⟨rfl, hf⟩

theorem Begins.first (h : Begins s) : Begins ('(' :: s) := by
  obtain ⟨f, hf⟩ := h
  refine ⟨.and f f, ?_⟩
  rw [toList_text_compound]
  exact List.cons_prefix_cons.mpr ⟨rfl, hf.trans (List.prefix_append _ _)⟩

theorem Begins.second (f : Formula) (c : Connective) (h : Begins s) :
    Begins ('(' :: (f.text.toList ++ (c.symbol.toList ++ s))) := by
  obtain ⟨g, hg⟩ := h
  refine ⟨.binary c f g, ?_⟩
  rw [toList_text_compound, List.cons_prefix_cons, List.prefix_append_right_inj,
    List.prefix_append_right_inj]
  exact ⟨rfl, hg.trans (List.prefix_append _ _)⟩

end Begins

/-- What may stand where reading halts: any formula, any connective, a closing parenthesis. -/
def Awaits : Stop → List Char → Prop
  | .noFormula, x => ∃ f : Formula, x = f.text.toList
  | .noOperator, x => ∃ c : Connective, x = c.symbol.toList
  | .noClosingParen, x => x = [')']
  | .trailing, _ => False

/-- **Where reading halts, the text goes on** with whatever is awaited there. -/
theorem Halts.exists_front {s : List Char} {h : Halt} (hs : Halts s h) :
    ∃ front, s = front ++ h.rest ∧ ∀ x, Awaits h.stop x → Begins (front ++ x) := by
  induction hs with
  | start =>
    refine ⟨[], rfl, ?_⟩
    rintro _ ⟨f, rfl⟩
    exact begins_text f
  | operand _ ih =>
    obtain ⟨front, rfl, hx⟩ := ih
    exact ⟨'~' :: front, rfl, fun x h => (hx x h).operand⟩
  | first _ ih =>
    obtain ⟨front, rfl, hx⟩ := ih
    exact ⟨'(' :: front, rfl, fun x h => (hx x h).first⟩
  | operator f =>
    refine ⟨'(' :: f.text.toList, rfl, ?_⟩
    rintro _ ⟨c, rfl⟩
    simpa using Begins.second f c ⟨f, List.nil_prefix⟩
  | second f c _ ih =>
    obtain ⟨front, rfl, hx⟩ := ih
    refine ⟨'(' :: (f.text.toList ++ (c.symbol.toList ++ front)), by simp, fun x h => ?_⟩
    simpa using (hx x h).second f c
  | closing f c g =>
    refine ⟨'(' :: (f.text.toList ++ (c.symbol.toList ++ g.text.toList)), by simp, ?_⟩
    rintro _ rfl
    simpa [toList_text_compound] using begins_text (.binary c f g)

/-- A standard text begins with one of the characters that begin one. -/
theorem exists_text_eq_cons (f : Formula) :
    ∃ c t, f.text.toList = c :: t ∧ isStart c = true := by
  cases f with
  | var v =>
    obtain ⟨c, ds, hv, hc, -⟩ := v.exists_name_eq_cons
    exact ⟨c, ds, hv, by simp [isStart, hc]⟩
  | const b => exact ⟨_, _, Formula.toList_text_const b, by cases b <;> rfl⟩
  | not f => exact ⟨_, _, Formula.toList_text_not f, rfl⟩
  | binary c f g => exact ⟨_, _, toList_text_compound c f g, rfl⟩

theorem Halts.exists_awaits {s : List Char} {h : Halt} (hs : Halts s h) :
    ∃ x, Awaits h.stop x := by
  induction hs with
  | start => exact ⟨_, .const true, rfl⟩
  | operand _ ih | first _ ih | second _ _ _ ih => exact ih
  | operator => exact ⟨_, .and, rfl⟩
  | closing => exact ⟨_, rfl⟩

/-- Nothing that is awaited stands where reading halts. -/
theorem Halts.not_awaited {s : List Char} {h : Halt} (hs : Halts s h) {x : List Char}
    (hx : Awaits h.stop x) : ¬ x <+: h.rest := by
  induction hs with
  | start hs =>
    obtain ⟨f, rfl⟩ := hx
    rintro ⟨u, rfl⟩
    obtain ⟨c, t, hf, hc⟩ := exists_text_eq_cons f
    have hstart := hs c (by simp [hf])
    rw [hc] at hstart
    cases hstart
  | operand _ ih => exact ih hx
  | first _ ih => exact ih hx
  | operator f _ hc =>
    obtain ⟨c, rfl⟩ := hx
    exact hc c
  | second f c _ ih => exact ih hx
  | closing f c g _ hr =>
    obtain rfl : x = [')'] := hx
    exact hr

/-! ## Reading ahead -/

/-- What begins the symbol of a connective but contains none. -/
def unfinishedSymbols : List (List Char) :=
  [['-'], ['<'], ['<', '-']]

theorem toList_mem_unfinishedSymbols {s : String} :
    s.toList ∈ unfinishedSymbols ↔ s ∈ ["-", "<", "<-"] := by
  simp [unfinishedSymbols, ← String.toList_inj]

/-- A proper part of a symbol is an unfinished one. -/
theorem mem_unfinishedSymbols {c : Connective} {r : List Char} (hr : r <+: c.symbol.toList)
    (hne : r ≠ []) (hc : r ≠ c.symbol.toList) : r ∈ unfinishedSymbols := by
  have key : ∀ c ∈ Connective.all, ∀ r ∈ c.symbol.toList.inits,
      r ≠ [] → r ≠ c.symbol.toList → r ∈ unfinishedSymbols := by decide
  exact key c c.mem_all r ((List.mem_inits _ _).mpr hr) hne hc

theorem exists_prefix_symbol {r : List Char} (hr : r ∈ unfinishedSymbols) :
    ∃ c : Connective, r <+: c.symbol.toList := by
  have key : ∀ r ∈ unfinishedSymbols, ∃ c ∈ Connective.all, r <+: c.symbol.toList := by decide
  obtain ⟨c, -, h⟩ := key r hr
  exact ⟨c, h⟩

/-- **What follows the rest changes nothing,** neither the reason to halt nor the place, unless the
rest is empty or an unfinished symbol. -/
theorem Halts.append {s : List Char} {h : Halt} (hs : Halts s h) (hne : h.rest ≠ [])
    (hstop : h.stop = .noOperator → h.rest ∉ unfinishedSymbols) (t : List Char) :
    Halts (s ++ t) ⟨h.stop, h.rest ++ t⟩ := by
  induction hs with
  | start hs =>
    refine .start fun c hc => hs c ?_
    rwa [List.head?_append_of_ne_nil _ hne] at hc
  | operand _ ih => exact .operand (ih hne hstop)
  | first _ ih => exact .first (ih hne hstop)
  | @operator r f hf hc =>
    rw [List.cons_append, List.append_assoc]
    refine .operator f (fun hn => (hf hn).append hne t) fun c hprefix => ?_
    -- a symbol in front of `r ++ t` stands in `r` alone, or `r` is the beginning of it
    rcases List.prefix_or_prefix_of_prefix hprefix (List.prefix_append r t) with hwhole | hpart
    · exact hc c hwhole
    · exact hstop rfl (mem_unfinishedSymbols hpart hne fun he => hc c (he ▸ List.prefix_rfl))
  | second f c _ ih =>
    simp only [List.cons_append, List.append_assoc]
    exact .second f c (ih hne hstop)
  | @closing r f c g hg hr =>
    simp only [List.cons_append, List.append_assoc]
    refine .closing f c g (fun hn => (hg hn).append hne t) fun hprefix => hr ?_
    obtain ⟨d, r, rfl⟩ := List.exists_cons_of_ne_nil hne
    obtain ⟨u, hu⟩ := hprefix
    obtain rfl : ')' = d := (List.cons.inj hu).1
    exact List.prefix_append [')'] r

/-- What follows changes nothing about a formula that has been read, unless its text was all. -/
theorem front_append_of_eq_ok {s r : List Char} {f : Formula} (hs : front s = .ok (f, r))
    (hne : r ≠ []) (t : List Char) : front (s ++ t) = .ok (f, r ++ t) := by
  obtain ⟨rfl, hn⟩ := read_eq_ok_iff.mp (Reading.map_eq_ok_iff.mp hs)
  rw [List.append_assoc]
  exact front_text_append f fun h => (hn h).append hne t

/-! ## Texts that begin no formula -/

/-- A text on which reading halts in front of a rest is no beginning of a standard text, unless the
rest is an unfinished symbol. -/
theorem Halts.not_begins {s : List Char} {h : Halt} (hs : Halts s h) (hne : h.rest ≠ [])
    (hstop : h.stop = .noOperator → h.rest ∉ unfinishedSymbols) : ¬ Begins s := by
  rintro ⟨f, t, ht⟩
  have hhalt := (hs.append hne hstop t).front_eq_error
  rw [ht, front_text] at hhalt
  cases hhalt

/-- Nor is a text that goes on behind a formula. -/
theorem not_begins_of_front_eq_ok {s r : List Char} {f : Formula} (hs : front s = .ok (f, r))
    (hne : r ≠ []) : ¬ Begins s := by
  rintro ⟨g, t, ht⟩
  have hread := front_append_of_eq_ok hs hne t
  rw [ht, front_text] at hread
  have hrest : [] = r ++ t := congrArg Prod.snd (Except.ok.inj hread)
  exact hne (List.append_eq_nil_iff.mp hrest.symm).1

/-! ## The two parts of a text -/

/-- A text that is no formula parts in front of what does not fit. -/
structure Parts (s front : List Char) (h : Halt) : Prop where
  eq_append : s = front ++ h.rest
  begins_front : Begins front
  /-- The whole text can only begin a formula if its end is part of a symbol. -/
  begins_iff : h.rest ≠ [] → (Begins s ↔ h.stop = .noOperator ∧ h.rest ∈ unfinishedSymbols)
  /-- What is awaited could stand behind the front, but it does not. -/
  of_awaits : ∀ x, Awaits h.stop x → Begins (front ++ x) ∧ ¬ x <+: h.rest
  of_trailing : h.stop = .trailing → (∃ f : Formula, front = f.text.toList) ∧ h.rest ≠ []

theorem Halts.exists_parts {s : List Char} {h : Halt} (hs : Halts s h) :
    ∃ front, Parts s front h := by
  obtain ⟨front, hfront, hx⟩ := hs.exists_front
  obtain ⟨x, hawaits⟩ := hs.exists_awaits
  refine ⟨front, hfront, (hx x hawaits).shorten (List.prefix_append _ _), fun hne => ?_,
    fun x h => ⟨hx x h, hs.not_awaited h⟩, fun htrailing => ?_⟩
  · constructor
    · intro hbegins
      by_contra hstop
      exact hs.not_begins hne (fun hop hmem => hstop ⟨hop, hmem⟩) hbegins
    · -- the front goes on with the symbol of which the rest is the beginning
      rintro ⟨hop, hmem⟩
      obtain ⟨c, hc⟩ := exists_prefix_symbol hmem
      have hsymbol : Begins (front ++ c.symbol.toList) := hx _ (hop ▸ ⟨c, rfl⟩)
      rw [hfront]
      exact hsymbol.shorten ((List.prefix_append_right_inj front).mpr hc)
  · rw [htrailing] at hawaits
    exact hawaits.elim

theorem parts_of_front_eq_ok {s r : List Char} {f : Formula} (hs : front s = .ok (f, r))
    (hne : r ≠ []) : Parts s f.text.toList ⟨.trailing, r⟩ where
  eq_append := (read_eq_ok_iff.mp (Reading.map_eq_ok_iff.mp hs)).1
  begins_front := begins_text f
  begins_iff _ := by
    constructor
    · exact fun h => absurd h (not_begins_of_front_eq_ok hs hne)
    · rintro ⟨h, -⟩
      cases h
  of_awaits _ h := h.elim
  of_trailing _ := ⟨⟨f, rfl⟩, hne⟩

/-- **Every text that is not read as a whole parts.** -/
theorem exists_parts_of_error {s : List Char} {h : Halt}
    (hs : (read s).bind Reading.whole = .error h) : ∃ front, Parts s front h := by
  rcases Reading.bind_whole_eq_error_iff.mp hs with hread | ⟨a, ha, hne, rfl⟩
  · exact (halts_of_read_eq_error hread).exists_parts
  · exact ⟨_, parts_of_front_eq_ok (Reading.map_eq_ok_iff.mpr ⟨a, ha, rfl, rfl⟩) hne⟩

end Standard

/-! ## Syntax errors -/

namespace SyntaxError

/-- The position that an error tells, in bytes. -/
def position? : SyntaxError → Option Nat
  | unexpectedEnd n _ => some n
  | unexpectedSymbol n _ _ => some n
  | missingOperator n => some n
  | missingClosingParen n => some n
  | trailingInput n _ => some n
  | unknownOperator _ => none

open Standard (Begins) in
/-- What an error says of a text in standard notation with `front` before and `rest` behind its
position. -/
def Describes (front rest : String) : SyntaxError → Prop
  | unexpectedEnd _ g =>
    g = .standard ∧ rest = "" ∧ ∀ f : Formula, Begins (front ++ f.text).toList
  | unexpectedSymbol _ c g =>
    g = .standard ∧ rest.toList.head? = some c ∧
      ∀ f : Formula, Begins (front ++ f.text).toList ∧ ¬ f.text.toList <+: rest.toList
  | missingOperator _ =>
    ∀ c : Connective, Begins (front ++ c.symbol).toList ∧ ¬ c.symbol.toList <+: rest.toList
  | missingClosingParen _ =>
    Begins (front ++ ")").toList ∧ ¬ ")".toList <+: rest.toList
  | trailingInput _ r =>
    (∃ f : Formula, front = f.text) ∧ r = rest ∧ rest ≠ ""
  | unknownOperator _ => False

end SyntaxError

/-- The position of an error is where the rest begins. -/
theorem Halt.position?_toError (g : Grammar) {s front : List Char} {h : Halt}
    (hs : s = front ++ h.rest) : (h.toError g s).position? = some (utf8Length front) := by
  have hposition : utf8Length s - utf8Length h.rest = utf8Length front := by
    rw [hs, utf8Length_append, Nat.add_sub_cancel]
  rw [← hposition]
  obtain ⟨stop, rest⟩ := h
  cases stop <;> cases rest <;> rfl

namespace Standard

namespace Parts

variable {s front rest : String} {stop : Stop}
  (hp : Parts s.toList front.toList ⟨stop, rest.toList⟩)

include hp

theorem toError_position : (Halt.toError .standard s.toList ⟨stop, rest.toList⟩).position? =
    some front.utf8ByteSize := by
  rw [Halt.position?_toError .standard hp.eq_append, utf8Length_toList]

theorem toError_eq_missingOperator_iff :
    Halt.toError .standard s.toList ⟨stop, rest.toList⟩ = .missingOperator front.utf8ByteSize ↔
      stop = .noOperator := by
  constructor
  · intro h
    cases stop with
    | noOperator => rfl
    | noFormula => cases hr : rest.toList <;> simp [hr, Halt.toError] at h
    | noClosingParen | trailing => simp [Halt.toError] at h
  · rintro rfl
    exact congrArg SyntaxError.missingOperator (Option.some.inj hp.toError_position)

theorem describes : (Halt.toError .standard s.toList ⟨stop, rest.toList⟩).Describes front rest := by
  cases stop with
  | noFormula =>
    have hformula (f : Formula) :
        Begins (front ++ f.text).toList ∧ ¬ f.text.toList <+: rest.toList := by
      simpa using hp.of_awaits f.text.toList ⟨f, rfl⟩
    cases hrest : rest.toList with
    | nil => exact ⟨rfl, by simpa using hrest, fun f => (hformula f).1⟩
    | cons c r => exact ⟨rfl, by rw [hrest]; rfl, hformula⟩
  | noOperator =>
    intro c
    simpa using hp.of_awaits c.symbol.toList ⟨c, rfl⟩
  | noClosingParen =>
    rw [Halt.toError, SyntaxError.Describes, String.toList_append]
    exact hp.of_awaits [')'] rfl
  | trailing =>
    obtain ⟨⟨f, hf⟩, hne⟩ := hp.of_trailing rfl
    exact ⟨⟨f, String.toList_inj.mp hf⟩, String.ofList_toList, by simpa using hne⟩

end Parts

end Standard

namespace Formula

/-- **A syntax error tells where a text stops being a formula.**  The position of the error parts the
text between two characters.  The front begins a standard text; the whole text begins none unless it
is the front, or unless a connective is missing where it ends in an unfinished symbol; and the error
describes what could stand behind the front and what stands there instead. -/
theorem parse_eq_error_parts {s : String} {e : SyntaxError} (h : parse s = .error e) :
    ∃ front rest : String, s = front ++ rest ∧ e.position? = some front.utf8ByteSize ∧
      Standard.Begins front.toList ∧
        (rest ≠ "" → (Standard.Begins s.toList ↔
          e = .missingOperator front.utf8ByteSize ∧ rest ∈ ["-", "<", "<-"])) ∧
            e.Describes front rest := by
  obtain ⟨⟨stop, restChars⟩, hread, rfl⟩ := Halt.mapError_toError_eq_error_iff.mp h
  obtain ⟨frontChars, hp⟩ := Standard.exists_parts_of_error hread
  obtain ⟨rest, rfl⟩ : ∃ rest : String, rest.toList = restChars := ⟨_, String.toList_ofList⟩
  obtain ⟨front, rfl⟩ : ∃ front : String, front.toList = frontChars := ⟨_, String.toList_ofList⟩
  refine ⟨front, rest, ?_, hp.toError_position, hp.begins_front, fun hne => ?_, hp.describes⟩
  · simpa [← String.toList_inj] using hp.eq_append
  · rw [hp.begins_iff (by simpa using hne), hp.toError_eq_missingOperator_iff,
      Standard.toList_mem_unfinishedSymbols]

/-- The sign `∧` is no symbol, so a connective is missing behind the eight bytes in front of it. -/
theorem parse_eq_error_parts_conjunction_sign :
    parse "~(x1->(p∧q))" = .error (.missingOperator 8) ∧
      ¬ Standard.Begins "~(x1->(p∧q))".toList ∧
        ∀ c : Connective, Standard.Begins ("~(x1->(p" ++ c.symbol).toList := by
  have h : parse "~(x1->(p∧q))" = .error (.missingOperator 8) := by decide +kernel
  obtain ⟨front, rest, hs, hposition, -, hbegins, hsymbols⟩ := parse_eq_error_parts h
  -- only one front takes eight bytes
  have hprefixes : ∀ l ∈ "~(x1->(p∧q))".toList.inits, utf8Length l = 8 →
      l = "~(x1->(p".toList := by decide
  obtain rfl : front = "~(x1->(p" := by
    refine String.toList_inj.mp (hprefixes _ ((List.mem_inits _ _).mpr ⟨rest.toList, ?_⟩) ?_)
    · rw [hs, String.toList_append]
    · rw [utf8Length_toList]
      exact (Option.some.inj hposition).symm
  have hrest : "~(x1->(p".toList ++ rest.toList = "~(x1->(p".toList ++ "∧q))".toList := by
    rw [← String.toList_append, ← hs]
    decide
  obtain rfl : rest = "∧q))" := String.toList_inj.mp (List.append_cancel_left hrest)
  refine ⟨h, fun hall => ?_, fun c => (hsymbols c).1⟩
  exact absurd ((hbegins (by decide)).mp hall).2 (by decide)

end Formula

end PropLogic

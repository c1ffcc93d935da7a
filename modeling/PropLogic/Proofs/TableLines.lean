import Mathlib.Data.List.DropRight
import PropLogic.Polish.Text
import PropLogic.Proofs.Decision
import PropLogic.TruthTable

/-!
# The lines of a truth table

What is written can be read again.  A text in which every line is ended parts into its lines
(`lines_unlines`), and a line of the truth table into its cells (`TruthTable.cells_barred`), as long
as no line holds an end of line and no cell both a blank and a bar.  Formulas hold neither ends of
lines nor blanks (`Formula.isTextChar_of_mem_text`), truth values no bars.

Main statements: `TruthTable.rows_eq_ok`, which line the table has for each row of the enumeration,
and `TruthTable.lastCell_rowLine`, that the last cell of this line is the truth value of the formula.
The widest head is the text of the formula, which contains the others, so it alone decides whether
the rows can be filled; if it is too wide the first row already fails (`TruthTable.rows_eq_error`).
-/

namespace PropLogic

/-! ## Lines -/

/-- The lines of a text in which every line is ended. -/
def lines (s : String) : List String :=
  (s.toList.splitOn '\n').dropLast.map String.ofList

/-- The text with the given lines, each of them ended. -/
def unlines (ls : List String) : String :=
  String.join (ls.map (· ++ "\n"))

/-- The text can stand on a line: it holds no end of one. -/
def IsLine (s : String) : Prop :=
  '\n' ∉ s.toList

instance : DecidablePred IsLine :=
  fun s => inferInstanceAs (Decidable ('\n' ∉ s.toList))

theorem isLine_append {s t : String} : IsLine (s ++ t) ↔ IsLine s ∧ IsLine t := by
  rw [IsLine, String.toList_append, List.mem_append, not_or]
  rfl

theorem isLine_intercalate {sep : String} (hsep : IsLine sep) {ss : List String}
    (h : ∀ s ∈ ss, IsLine s) : IsLine (sep.intercalate ss) := by
  induction ss with
  | nil => simp [IsLine]
  | cons s ss ih =>
    obtain ⟨hs, hss⟩ := List.forall_mem_cons.mp h
    cases ss with
    | nil => simpa using hs
    | cons t ss =>
      rw [String.intercalate_cons_cons, isLine_append, isLine_append]
      exact ⟨⟨hs, hsep⟩, ih hss⟩

theorem isLine_of_forall {s : String} (h : ∀ c ∈ s.toList, isTextChar c = true) : IsLine s :=
  fun hmem => absurd (h _ hmem) (by decide)

theorem isLine_text (f : Formula) : IsLine f.text :=
  isLine_of_forall fun _ => Formula.isTextChar_of_mem_text

theorem isLine_polish (f : Formula) : IsLine f.polish :=
  isLine_of_forall fun _ => Formula.isTextChar_of_mem_polish

/-- The digits of a number are on one line. -/
theorem isLine_toString (n : Nat) : IsLine (toString n) := by
  refine isLine_of_forall fun c hc => ?_
  have hdigit : c.isDigit = true := by
    rw [Nat.toString_eq_ofList_toDigits, String.toList_ofList] at hc
    exact Nat.isDigit_of_mem_toDigits (by decide) (by decide) hc
  simp [isTextChar, hdigit]

@[simp] theorem unlines_nil : unlines [] = "" := rfl

theorem unlines_cons (l : String) (ls : List String) :
    unlines (l :: ls) = l ++ "\n" ++ unlines ls := by
  rw [unlines, List.map_cons, String.join_cons, unlines]

theorem unlines_append (ls ls' : List String) :
    unlines (ls ++ ls') = unlines ls ++ unlines ls' := by
  rw [unlines, List.map_append, String.join_append, unlines, unlines]

/-- Behind the last end of a line nothing stands. -/
theorem toList_unlines (ls : List String) :
    (unlines ls).toList = ['\n'].intercalate (ls.map String.toList ++ [[]]) := by
  induction ls with
  | nil => rfl
  | cons l ls ih =>
    have hne : ls.map String.toList ++ [[]] ≠ [] := by simp
    rw [unlines_cons, String.toList_append, String.toList_append, ih, List.map_cons,
      List.cons_append, List.intercalate_cons_of_ne_nil hne]
    rfl

/-- Texts are given back by their characters. -/
theorem map_ofList_map_toList (ss : List String) :
    (ss.map String.toList).map String.ofList = ss := by
  rw [List.map_map]
  exact (List.map_congr_left fun s _ => String.ofList_toList).trans (List.map_id ss)

/-- **Lines are read as they are written.** -/
theorem lines_unlines {ls : List String} (h : ∀ l ∈ ls, IsLine l) : lines (unlines ls) = ls := by
  have hmem : ∀ l ∈ ls.map String.toList ++ [[]], '\n' ∉ l := by
    intro l hl
    rw [List.mem_append, List.mem_map, List.mem_singleton] at hl
    rcases hl with ⟨s, hs, rfl⟩ | rfl
    · exact h s hs
    · exact List.not_mem_nil
  rw [lines, toList_unlines, List.splitOn_intercalate '\n' hmem (by simp), List.dropLast_concat,
    map_ofList_map_toList]

namespace TruthTable

/-! ## Cells -/

/-- A line of cells between bars, without its end. -/
def barred (cs : List String) : String :=
  "| " ++ " | ".intercalate cs ++ " |"

theorem line_eq_barred (cs : List String) : line cs = barred cs ++ "\n" := by
  show "| " ++ " | ".intercalate cs ++ (" |" ++ "\n") = barred cs ++ "\n"
  exact String.append_assoc.symm

/-- What stands between the bars, each of which has a blank on both sides. -/
def splitAtBars : List Char → List (List Char)
  | ' ' :: '|' :: ' ' :: r => [] :: splitAtBars r
  | c :: r => (splitAtBars r).modifyHead (c :: ·)
  | [] => [[]]

/-- The cells of a line: what its outer bars enclose, split at the others. -/
def cells (l : String) : List String :=
  (splitAtBars (l.toList.drop 2).dropLast.dropLast).map String.ofList

/-- The characters do not hold both a blank and a bar, so that no end of a cell is among them: a
truth value is filled with blanks and has no bar, and the text of a formula may have bars, but no
blank. -/
def IsCell (c : List Char) : Prop :=
  '|' ∉ c ∨ ' ' ∉ c

theorem splitAtBars_cons {d : Char} {r : List Char} (h : ∀ t, d :: r ≠ ' ' :: '|' :: ' ' :: t) :
    splitAtBars (d :: r) = (splitAtBars r).modifyHead (d :: ·) := by
  rw [splitAtBars]
  rintro t rfl rfl
  exact h t rfl

/-- The first character of a cell begins no separator. -/
theorem IsCell.ne_separator {d : Char} {c r : List Char} (h : IsCell (d :: c))
    (hr : r.head? ≠ some '|') (t : List Char) : d :: (c ++ r) ≠ ' ' :: '|' :: ' ' :: t := by
  rintro heq
  obtain ⟨rfl, htail⟩ := List.cons.inj heq
  cases c with
  | nil =>
    rw [List.nil_append] at htail
    exact hr (by rw [htail]; rfl)
  | cons e c =>
    obtain ⟨rfl, -⟩ := List.cons.inj htail
    simp [IsCell] at h

theorem IsCell.of_cons {d : Char} {c : List Char} (h : IsCell (d :: c)) : IsCell c :=
  h.imp (mt (List.mem_cons_of_mem d)) (mt (List.mem_cons_of_mem d))

theorem splitAtBars_cell {c : List Char} (h : IsCell c) : splitAtBars c = [c] := by
  induction c with
  | nil => rfl
  | cons d c ih =>
    have hne := h.ne_separator (r := []) (by simp)
    rw [List.append_nil] at hne
    rw [splitAtBars_cons hne, ih h.of_cons]
    rfl

theorem splitAtBars_cell_append {c : List Char} (h : IsCell c) (r : List Char) :
    splitAtBars (c ++ ' ' :: '|' :: ' ' :: r) = c :: splitAtBars r := by
  induction c with
  | nil => rw [List.nil_append, splitAtBars]
  | cons d c ih =>
    rw [List.cons_append, splitAtBars_cons (h.ne_separator (by simp)), ih h.of_cons]
    rfl

theorem splitAtBars_intercalate {cs : List (List Char)} (hne : cs ≠ [])
    (h : ∀ c ∈ cs, IsCell c) : splitAtBars ([' ', '|', ' '].intercalate cs) = cs := by
  induction cs with
  | nil => exact absurd rfl hne
  | cons c cs ih =>
    obtain ⟨hc, hcs⟩ := List.forall_mem_cons.mp h
    cases cs with
    | nil =>
      rw [List.intercalate_singleton]
      exact splitAtBars_cell hc
    | cons c' cs =>
      rw [List.intercalate_cons_cons, List.append_assoc]
      exact (splitAtBars_cell_append hc _).trans (congrArg _ (ih (by simp) hcs))

/-- **Cells are read as they are written.** -/
theorem cells_barred {cs : List String} (hne : cs ≠ []) (h : ∀ c ∈ cs, IsCell c.toList) :
    cells (barred cs) = cs := by
  have hinner : ((barred cs).toList.drop 2).dropLast.dropLast =
      [' ', '|', ' '].intercalate (cs.map String.toList) := by
    rw [barred, String.toList_append, String.toList_append, String.toList_intercalate]
    show (([' ', '|', ' '].intercalate (cs.map String.toList)) ++ ([' '] ++ ['|'])).dropLast.dropLast
      = _
    rw [← List.append_assoc, List.dropLast_concat, List.dropLast_concat]
  have hcells : ∀ c ∈ cs.map String.toList, IsCell c := by
    rintro c hc
    obtain ⟨s, hs, rfl⟩ := List.mem_map.mp hc
    exact h s hs
  rw [cells, hinner, splitAtBars_intercalate (by simpa using hne) hcells, map_ofList_map_toList]

/-- The text without the blanks at its ends. -/
def trimmed (s : String) : String :=
  String.ofList ((s.toList.dropWhile (· == ' ')).rdropWhile (· == ' '))

/-- The last cell of a line, trimmed. -/
def lastCell (l : String) : String :=
  trimmed ((cells l).getLastD "")

theorem toList_filled (b : Bool) (head : String) :
    (filled b head).toList = (if b then 'T' else 'F') :: List.replicate (head.length - 1) ' ' := by
  cases b <;> simp [filled, Operator.symbol]

theorem mem_filled {b : Bool} {head : String} {c : Char} (hc : c ∈ (filled b head).toList) :
    c ∈ ['T', 'F', ' '] := by
  rw [toList_filled, List.mem_cons] at hc
  rcases hc with rfl | hc
  · cases b <;> decide
  · rw [List.eq_of_mem_replicate hc]
    decide

theorem isCell_filled (b : Bool) (head : String) : IsCell (filled b head).toList :=
  .inl fun h => absurd (mem_filled h) (by decide)

theorem isLine_filled (b : Bool) (head : String) : IsLine (filled b head) :=
  fun h => absurd (mem_filled h) (by decide)

/-- Between its blanks a cell shows the truth value. -/
theorem trimmed_filled (b : Bool) (head : String) :
    trimmed (filled b head) = (Operator.const b).symbol := by
  have hblanks : ∀ c ∈ List.replicate (head.length - 1) ' ', (c == ' ') = true := fun c hc => by
    rw [List.eq_of_mem_replicate hc]
    rfl
  rw [trimmed, toList_filled]
  cases b <;>
  · simp only [Bool.false_eq_true, if_false, if_true]
    rw [List.dropWhile_cons_of_neg (by decide), List.rdropWhile, List.reverse_cons,
      List.reverse_replicate, List.dropWhile_append_of_pos hblanks]
    rfl

theorem isLine_barred {cs : List String} (h : ∀ c ∈ cs, IsLine c) : IsLine (barred cs) := by
  rw [barred, isLine_append, isLine_append]
  exact ⟨⟨by decide, isLine_intercalate (by decide) h⟩, by decide⟩

/-! ## Heading -/

/-- The line of dashes under heads, without its end. -/
def dashes (hs : List String) : String :=
  "|-" ++ "-|-".intercalate (hs.map fun h => String.ofList (List.replicate h.length '-')) ++ "-|"

theorem isLine_dashes (hs : List String) : IsLine (dashes hs) := by
  rw [dashes, isLine_append, isLine_append]
  refine ⟨⟨by decide, isLine_intercalate (by decide) fun s hs => ?_⟩, by decide⟩
  obtain ⟨h, -, rfl⟩ := List.mem_map.mp hs
  rw [IsLine, String.toList_ofList]
  exact fun hmem => absurd (List.eq_of_mem_replicate hmem) (by decide)

/-- Every head is the text of a formula: of a variable, or of the one that the table is for. -/
theorem exists_eq_text_of_mem_heads {f : Formula} {h : String} (hh : h ∈ heads f) :
    ∃ g : Formula, h = g.text := by
  rw [heads, List.mem_append, List.mem_map, List.mem_singleton] at hh
  rcases hh with ⟨v, -, rfl⟩ | rfl
  · exact ⟨.var v, rfl⟩
  · exact ⟨f, rfl⟩

theorem isLine_of_mem_heads {f : Formula} {h : String} (hh : h ∈ heads f) : IsLine h := by
  obtain ⟨g, rfl⟩ := exists_eq_text_of_mem_heads hh
  exact isLine_text g

theorem heading_eq_unlines (f : Formula) :
    heading f = unlines [barred (heads f), dashes (heads f)] := by
  have hruler : ruler (heads f) = dashes (heads f) ++ "\n" := by
    show "|-" ++ "-|-".intercalate _ ++ ("-|" ++ "\n") = dashes (heads f) ++ "\n"
    exact String.append_assoc.symm
  rw [heading, line_eq_barred, hruler, unlines_cons, unlines_cons, unlines_nil,
    String.append_empty]

/-! ## Widths -/

/-- A formula is no shorter than the names in it. -/
theorem length_name_le_length_text {f : Formula} {v : Var} (hv : v ∈ f.occurrences) :
    v.name.length ≤ f.text.length := by
  induction f with
  | var w =>
    obtain rfl : v = w := List.mem_singleton.mp hv
    exact Nat.le_refl _
  | const b => cases hv
  | not f ih =>
    have hle := ih hv
    rw [Formula.length_text_not]
    omega
  | binary c f g ihf ihg =>
    rw [Formula.occurrences, List.mem_append] at hv
    have hle := hv.imp ihf ihg
    rw [Formula.length_text_binary]
    omega

/-- **The last head is the widest.** -/
theorem length_le_of_mem_heads {f : Formula} {h : String} (hh : h ∈ heads f) :
    h.length ≤ f.text.length := by
  rw [heads, List.mem_append, List.mem_map, List.mem_singleton] at hh
  rcases hh with ⟨v, hv, rfl⟩ | rfl
  · exact length_name_le_length_text (Formula.mem_vars.mp hv)
  · exact Nat.le_refl _

/-- A cell has no other fault than its width. -/
theorem cell_eq_error (b : Bool) (head : String) (x : Fault) (h : cell b head = .error x) :
    x = .widthOutOfRange := by
  unfold cell at h
  split at h <;> cases h
  rfl

/-! ## Rows -/

/-- The line of a model: the values of the variables and of the formula. -/
def rowLine (f : Formula) (m : Model) : String :=
  barred ((f.vars.map m.valuation ++ [f.eval m.valuation]).zipWith filled (heads f))

/-- The truth values of a row, each with the head of its column. -/
def entries (f : Formula) (m : Model) : List (Bool × String) :=
  (f.vars.map m.valuation ++ [f.eval m.valuation]).zip (heads f)

/-- In a model of the enumeration all look-ups succeed, so that a row comes as far as its cells. -/
theorem row_eq_map {f : Formula} {m : Model} (hm : m ∈ Model.rows f.vars) :
    row f.vars (heads f) f m = ((entries f m).mapM fun p => cell p.1 p.2).map line := by
  have hover := Model.isOver_of_mem_rows hm
  have hvalue : ∀ g : Formula, (∀ v ∈ g.occurrences, v ∈ f.vars) →
      g.valueIn m = .ok (g.eval m.valuation) := fun g hg =>
    Formula.valueIn_eq_ok hg fun v hv => hover.assigns hv
  have hvalues : f.vars.map (fun v => (Formula.var v).valueIn m) ++ [.ok (f.eval m.valuation)] =
      (f.vars.map m.valuation ++ [f.eval m.valuation]).map .ok := by
    rw [List.map_append, List.map_map]
    refine congrArg (· ++ _) (List.map_congr_left fun v hv => hvalue (.var v) fun w hw => ?_)
    rwa [List.mem_singleton.mp hw]
  calc row f.vars (heads f) f m
      = (((f.vars.map (fun v => (Formula.var v).valueIn m) ++ [Except.ok (f.eval m.valuation)]).zip
          (heads f)).mapM fun p : Except Fault Bool × String => p.1.bind (cell · p.2)).map line := by
        rw [row, hvalue f fun _ => Formula.mem_vars.mpr]
        rfl
    _ = ((entries f m).mapM fun p => cell p.1 p.2).map line := by
        rw [hvalues, List.zip_map_left, List.mapM_map]
        rfl

theorem row_eq_ok {f : Formula} {m : Model} (narrow : f.text.length ≤ maxWidth)
    (hm : m ∈ Model.rows f.vars) : row f.vars (heads f) f m = .ok (rowLine f m ++ "\n") := by
  have hcells : (entries f m).mapM (fun p => cell p.1 p.2) =
      .ok ((entries f m).map fun p => filled p.1 p.2) := mapM_eq_pure fun p hp => by
    have hhead : p.2 ∈ heads f := (List.of_mem_zip hp).2
    exact if_pos ((length_le_of_mem_heads hhead).trans narrow)
  rw [row_eq_map hm, hcells, rowLine, ← line_eq_barred, ← List.map_uncurry_zip_eq_zipWith]
  rfl

/-- The last cell cannot be filled, and no other cell has another fault. -/
theorem row_eq_error {f : Formula} {m : Model} (wide : maxWidth < f.text.length)
    (hm : m ∈ Model.rows f.vars) : row f.vars (heads f) f m = .error .widthOutOfRange := by
  have hlast : (f.eval m.valuation, f.text) ∈ entries f m := by
    rw [entries, heads, List.zip_append (by rw [List.length_map, List.length_map])]
    exact List.mem_append_right _ List.mem_cons_self
  have hcell : cell (f.eval m.valuation) f.text = .error .widthOutOfRange :=
    if_neg (Nat.not_le.mpr wide)
  rw [row_eq_map hm, mapM_eq_error (fun p _ => cell_eq_error p.1 p.2) hlast hcell]
  rfl

/-- **Every row of the enumeration has its line,** in order. -/
theorem rows_eq_ok {f : Formula} (few : f.vars.length < 64) (narrow : f.text.length ≤ maxWidth) :
    rows f = .ok (((Model.rows f.vars).map (rowLine f)).map (· ++ "\n")) := by
  obtain ⟨e, he, hrest⟩ := Enumeration.exists_ofVars_eq_ok few
  have hrows : e.mapM (row e.names (heads f) f) =
      .ok ((Model.rows f.vars).map fun m => rowLine f m ++ "\n") := by
    rw [Enumeration.names_of_ofVars he, ← hrest]
    exact Enumeration.mapM_eq_ok fun m hm => row_eq_ok narrow (hrest ▸ hm)
  rw [rows, he, List.map_map]
  exact hrows

/-- **Under too wide a head there are no rows:** the first one fails, and there is a first one. -/
theorem rows_eq_error {f : Formula} (few : f.vars.length < 64) (wide : maxWidth < f.text.length) :
    rows f = .error .widthOutOfRange := by
  obtain ⟨e, he, hrest⟩ := Enumeration.exists_ofVars_eq_ok few
  obtain ⟨m, ms, hms⟩ := List.exists_cons_of_ne_nil (Model.rows_ne_nil f.vars)
  have hm : m ∈ Model.rows f.vars := hms ▸ List.mem_cons_self
  have hrows : e.mapM (row e.names (heads f) f) = .error .widthOutOfRange := by
    rw [Enumeration.names_of_ofVars he]
    exact Enumeration.mapM_eq_error (hrest.trans hms) (row_eq_error wide hm)
  rw [rows, he]
  exact hrows

/-- The table has the heading, and under it the rows if there are any. -/
theorem truthTable_eq_map (f : Formula) :
    f.truthTable = (rows f).map fun ls => heading f ++ String.join ls := by
  rw [Formula.truthTable]
  cases rows f <;> rfl

theorem truthTable_eq_error {f : Formula} (few : f.vars.length < 64)
    (wide : maxWidth < f.text.length) : f.truthTable = .error .widthOutOfRange := by
  rw [truthTable_eq_map, rows_eq_error few wide]
  rfl

theorem exists_of_mem_zipWith_filled {bs : List Bool} {hs : List String} {c : String}
    (hc : c ∈ bs.zipWith filled hs) : ∃ b head, filled b head = c := by
  rw [← List.map_uncurry_zip_eq_zipWith] at hc
  obtain ⟨p, -, rfl⟩ := List.mem_map.mp hc
  exact ⟨p.1, p.2, rfl⟩

/-- The columns of the variables and that of the formula. -/
theorem rowLine_eq_barred (f : Formula) (m : Model) : rowLine f m =
    barred ((f.vars.map m.valuation).zipWith filled (f.vars.map Var.name) ++
      [filled (f.eval m.valuation) f.text]) := by
  have hlength : (f.vars.map m.valuation).length = (f.vars.map Var.name).length := by
    rw [List.length_map, List.length_map]
  exact congrArg barred (List.zipWith_append hlength)

/-- **A row is read as it is written.** -/
theorem cells_rowLine (f : Formula) (m : Model) : cells (rowLine f m) =
    (f.vars.map m.valuation).zipWith filled (f.vars.map Var.name) ++
      [filled (f.eval m.valuation) f.text] := by
  rw [rowLine_eq_barred]
  refine cells_barred (by simp) fun c hc => ?_
  rw [List.mem_append, List.mem_singleton] at hc
  rcases hc with hc | rfl
  · obtain ⟨b, head, rfl⟩ := exists_of_mem_zipWith_filled hc
    exact isCell_filled b head
  · exact isCell_filled _ _

theorem isLine_rowLine (f : Formula) (m : Model) : IsLine (rowLine f m) := by
  refine isLine_barred fun c hc => ?_
  obtain ⟨b, head, rfl⟩ := exists_of_mem_zipWith_filled hc
  exact isLine_filled b head

/-- **The last cell of a row is the truth value of the formula.** -/
theorem lastCell_rowLine (f : Formula) (m : Model) :
    lastCell (rowLine f m) = (Operator.const (f.eval m.valuation)).symbol := by
  rw [lastCell, cells_rowLine, List.getLastD_concat, trimmed_filled]

theorem map_lastCell_rowLine (f : Formula) (ms : List Model) :
    (ms.map (rowLine f)).map lastCell =
      (ms.map fun m => f.eval m.valuation).map fun b => (Operator.const b).symbol := by
  rw [List.map_map, List.map_map]
  exact List.map_congr_left fun m _ => lastCell_rowLine f m

/-! ## On both sides of the greatest width -/

/-- The conjunction of `2 ^ n` constants, in pairs. -/
def copies : Nat → Formula
  | 0 => .const true
  | n + 1 => .and (copies n) (copies n)

theorem length_text_copies (n : Nat) : (copies n).text.length + 3 = 4 * 2 ^ n := by
  induction n with
  | zero => rfl
  | succ n ih =>
    have hsign : Connective.and.symbol.length = 1 := rfl
    rw [copies, Formula.length_text_binary, hsign]
    omega

theorem occurrences_copies (n : Nat) : (copies n).occurrences = [] := by
  induction n with
  | zero => rfl
  | succ n ih => rw [copies, Formula.occurrences, ih, List.append_nil]

/-- A formula without variables whose text has the greatest width. -/
def widest : Formula :=
  .not (.not (copies 14))

/-- With one more negation it is too wide. -/
def overwide : Formula :=
  .not widest

theorem length_text_widest : widest.text.length = maxWidth := by
  have hcopies := length_text_copies 14
  rw [widest, Formula.length_text_not, Formula.length_text_not, maxWidth]
  omega

theorem maxWidth_lt_length_text_overwide : maxWidth < overwide.text.length := by
  rw [overwide, Formula.length_text_not, length_text_widest]
  exact Nat.lt_succ_self _

theorem length_vars_widest : widest.vars.length = 0 := by
  have hnone : widest.occurrences = [] := occurrences_copies 14
  rw [List.length_eq_zero_iff, List.eq_nil_iff_forall_not_mem]
  intro v hv
  rw [Formula.mem_vars, hnone] at hv
  cases hv

theorem length_vars_overwide_lt : overwide.vars.length < 64 :=
  Nat.lt_of_le_of_lt length_vars_widest.le (by decide)

end TruthTable

end PropLogic

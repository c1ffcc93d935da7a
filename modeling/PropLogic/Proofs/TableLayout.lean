import PropLogic.Proofs.ErrorPosition
import PropLogic.Proofs.TableLines

/-!
# The layout of a truth table

A truth table is laid out by its heads alone: the line of dashes and every row repeat their widths,
so all lines take the same number of bytes (`TruthTable.utf8ByteSize_of_mem_tableLines`).  This
rests on heads that are not empty and whose characters take one byte each; a head without characters
would be narrower than the truth value below it.  Bars in the head of the last column do no harm,
since a formula has no blank to put around them.

Which value stands where is told by the number of the row: the digit for a column is the value of
its variable (`TruthTable.trimmed_cell_row`), as the variables are listed once each.

Main statement: `Formula.truthTable_layout`.
-/

namespace PropLogic

/-! ## Bytes -/

theorem utf8Length_eq_length {s : List Char} (h : ∀ c ∈ s, c.utf8Size = 1) :
    utf8Length s = s.length := by
  induction s with
  | nil => rfl
  | cons c s ih =>
    obtain ⟨hc, hs⟩ := List.forall_mem_cons.mp h
    rw [utf8Length_cons, hc, ih hs, List.length_cons]
    omega

theorem utf8ByteSize_eq_length {s : String} (h : ∀ c ∈ s.toList, c.utf8Size = 1) :
    s.utf8ByteSize = s.length := by
  rw [← utf8Length_toList, utf8Length_eq_length h, String.length_toList]

/-- Texts of the same sizes, joined by separators of the same size, have the same size. -/
theorem utf8ByteSize_intercalate_congr {sep sep' : String}
    (hsep : sep.utf8ByteSize = sep'.utf8ByteSize) {ss ss' : List String}
    (h : ss.map String.utf8ByteSize = ss'.map String.utf8ByteSize) :
    (sep.intercalate ss).utf8ByteSize = (sep'.intercalate ss').utf8ByteSize := by
  induction ss generalizing ss' with
  | nil =>
    obtain rfl : ss' = [] := List.map_eq_nil_iff.mp h.symm
    rfl
  | cons s ss ih =>
    obtain ⟨s', ss', rfl, hs, hss⟩ := List.map_eq_cons_iff.mp h.symm
    cases ss with
    | nil =>
      obtain rfl : ss' = [] := List.map_eq_nil_iff.mp hss
      simpa using hs.symm
    | cons t ss =>
      obtain ⟨t', ss', rfl, -, -⟩ := List.map_eq_cons_iff.mp hss
      rw [String.intercalate_cons_cons, String.intercalate_cons_cons]
      simp only [String.utf8ByteSize_append]
      rw [hs, hsep, ih hss.symm]

/-- The characters of formulas take one byte. -/
theorem utf8Size_of_isTextChar {c : Char} (hc : isTextChar c = true) : c.utf8Size = 1 :=
  Char.utf8Size_eq_one_iff.mpr (UInt32.le_of_lt (val_of_isTextChar hc).2)

namespace TruthTable

/-! ## Widths -/

theorem utf8ByteSize_text (g : Formula) : g.text.utf8ByteSize = g.text.length :=
  utf8ByteSize_eq_length fun _ hc => utf8Size_of_isTextChar (Formula.isTextChar_of_mem_text hc)

theorem length_text_pos (g : Formula) : 0 < g.text.length := by
  obtain ⟨c, t, hg, -⟩ := Standard.exists_text_eq_cons g
  rw [← String.length_toList, hg]
  exact Nat.succ_pos _

/-- A text of a formula has no blank, whatever bars it has. -/
theorem isCell_text (g : Formula) : IsCell g.text.toList :=
  .inr fun h => absurd (Formula.isTextChar_of_mem_text h) (by decide)

/-- **A cell is as wide as its head,** which has at least one character. -/
theorem utf8ByteSize_filled (b : Bool) (g : Formula) :
    (filled b g.text).utf8ByteSize = g.text.utf8ByteSize := by
  have hpos := length_text_pos g
  have hsize : ∀ c ∈ (filled b g.text).toList, c.utf8Size = 1 := fun c hc => by
    have hmem := mem_filled hc
    simp only [List.mem_cons, List.not_mem_nil, or_false] at hmem
    rcases hmem with rfl | rfl | rfl <;> rfl
  rw [utf8ByteSize_eq_length hsize, utf8ByteSize_text, ← String.length_toList, toList_filled,
    List.length_cons, List.length_replicate]
  omega

theorem map_utf8ByteSize_zipWith_filled {bs : List Bool} {hs : List String}
    (hlength : bs.length = hs.length) (h : ∀ h ∈ hs, ∃ g : Formula, h = g.text) :
    (bs.zipWith filled hs).map String.utf8ByteSize = hs.map String.utf8ByteSize := by
  induction bs generalizing hs with
  | nil => rw [List.length_eq_zero_iff.mp hlength.symm, List.zipWith_nil_right]
  | cons b bs ih =>
    cases hs with
    | nil => cases hlength
    | cons head hs =>
      obtain ⟨⟨g, rfl⟩, hs'⟩ := List.forall_mem_cons.mp h
      rw [List.zipWith_cons_cons, List.map_cons, List.map_cons, utf8ByteSize_filled,
        ih (Nat.succ.inj hlength) hs']

theorem utf8ByteSize_barred_congr {cs cs' : List String}
    (h : cs.map String.utf8ByteSize = cs'.map String.utf8ByteSize) :
    (barred cs).utf8ByteSize = (barred cs').utf8ByteSize := by
  simp only [barred, String.utf8ByteSize_append, utf8ByteSize_intercalate_congr rfl h]

/-- A row is as wide as the heading. -/
theorem utf8ByteSize_rowLine (f : Formula) (m : Model) :
    (rowLine f m).utf8ByteSize = (barred (heads f)).utf8ByteSize := by
  refine utf8ByteSize_barred_congr (map_utf8ByteSize_zipWith_filled ?_ fun _ =>
    exists_eq_text_of_mem_heads)
  rw [heads, List.length_append, List.length_append, List.length_map, List.length_map]
  rfl

/-- So is the line of dashes. -/
theorem utf8ByteSize_dashes (f : Formula) :
    (dashes (heads f)).utf8ByteSize = (barred (heads f)).utf8ByteSize := by
  have hdashes : ∀ n, (String.ofList (List.replicate n '-')).utf8ByteSize = n := fun n => by
    rw [utf8ByteSize_eq_length, String.length_ofList, List.length_replicate]
    intro c hc
    rw [String.toList_ofList] at hc
    rw [List.eq_of_mem_replicate hc]
    rfl
  have hcells : ((heads f).map fun h => String.ofList (List.replicate h.length '-')).map
      String.utf8ByteSize = (heads f).map String.utf8ByteSize := by
    rw [List.map_map]
    refine List.map_congr_left fun h hh => ?_
    obtain ⟨g, rfl⟩ := exists_eq_text_of_mem_heads hh
    rw [Function.comp_apply, hdashes, utf8ByteSize_text]
  have hsep : "-|-".utf8ByteSize = " | ".utf8ByteSize := rfl
  simp only [dashes, barred, String.utf8ByteSize_append,
    utf8ByteSize_intercalate_congr hsep hcells]
  rfl

/-! ## Lines -/

/-- The lines of the table: the heads, the dashes, and a line for each row. -/
def tableLines (f : Formula) : List String :=
  barred (heads f) :: dashes (heads f) :: (Model.rows f.vars).map (rowLine f)

theorem truthTable_eq_ok {f : Formula} (few : f.vars.length < 64)
    (narrow : f.text.length ≤ maxWidth) : f.truthTable = .ok (unlines (tableLines f)) := by
  have hsplit : unlines (tableLines f) = unlines [barred (heads f), dashes (heads f)] ++
      unlines ((Model.rows f.vars).map (rowLine f)) := unlines_append [_, _] _
  rw [truthTable_eq_map, rows_eq_ok few narrow, heading_eq_unlines, hsplit]
  rfl

/-- What holds of the heads, of the dashes and of every row holds of all lines. -/
theorem forall_mem_tableLines {f : Formula} {P : String → Prop} (head : P (barred (heads f)))
    (dash : P (dashes (heads f))) (row : ∀ m, P (rowLine f m)) : ∀ l ∈ tableLines f, P l :=
  List.forall_mem_cons.mpr ⟨head, List.forall_mem_cons.mpr ⟨dash,
    List.forall_mem_map.mpr fun m _ => row m⟩⟩

theorem isLine_of_mem_tableLines {f : Formula} : ∀ l ∈ tableLines f, IsLine l :=
  forall_mem_tableLines (isLine_barred fun _ => isLine_of_mem_heads) (isLine_dashes _)
    (isLine_rowLine f)

/-- **All lines are equally wide.** -/
theorem utf8ByteSize_of_mem_tableLines {f : Formula} :
    ∀ l ∈ tableLines f, l.utf8ByteSize = (barred (heads f)).utf8ByteSize :=
  forall_mem_tableLines rfl (utf8ByteSize_dashes f) (utf8ByteSize_rowLine f)

theorem length_tableLines (f : Formula) : (tableLines f).length = 2 ^ f.vars.length + 2 := by
  rw [tableLines, List.length_cons, List.length_cons, List.length_map, Model.length_rows,
    rowCount_eq_two_pow]

/-! ## Cells -/

theorem length_heads (f : Formula) : (heads f).length = f.vars.length + 1 := by
  rw [heads, List.length_append, List.length_map]
  rfl

/-- **The heads are read as they are written.** -/
theorem cells_barred_heads (f : Formula) : cells (barred (heads f)) = heads f := by
  refine cells_barred (by simp [heads]) fun h hh => ?_
  obtain ⟨g, rfl⟩ := exists_eq_text_of_mem_heads hh
  exact isCell_text g

/-- The text with blanks in the place of dashes. -/
def blanked (s : String) : String :=
  String.ofList (s.toList.map fun c => if c = '-' then ' ' else c)

theorem blanked_append (s t : String) : blanked (s ++ t) = blanked s ++ blanked t := by
  simp [blanked]

theorem blanked_intercalate (sep : String) (ss : List String) :
    blanked (sep.intercalate ss) = (blanked sep).intercalate (ss.map blanked) := by
  induction ss with
  | nil => simp [blanked]
  | cons s ss ih =>
    cases ss with
    | nil => simp
    | cons t ss =>
      rw [List.map_cons] at ih
      rw [String.intercalate_cons_cons, blanked_append, blanked_append, ih, List.map_cons,
        List.map_cons, String.intercalate_cons_cons]

/-- Blanks for a cell as wide as the head. -/
def blankCell (head : String) : String :=
  String.ofList (List.replicate head.length ' ')

/-- **With blanks for its dashes the second line has blank cells,** as wide as the heads. -/
theorem blanked_dashes (hs : List String) : blanked (dashes hs) = barred (hs.map blankCell) := by
  have hcell : ∀ h ∈ hs, blanked (String.ofList (List.replicate h.length '-')) = blankCell h :=
    fun h _ => by simp [blanked, blankCell]
  have hbars : blanked "|-" = "| " ∧ blanked "-|-" = " | " ∧ blanked "-|" = " |" := by decide
  rw [dashes, blanked_append, blanked_append, blanked_intercalate, hbars.1, hbars.2.1, hbars.2.2,
    List.map_map, barred]
  exact congrArg (fun ss => "| " ++ " | ".intercalate ss ++ " |") (List.map_congr_left hcell)

theorem cells_blanked_dashes (f : Formula) :
    cells (blanked (dashes (heads f))) = (heads f).map blankCell := by
  rw [blanked_dashes]
  refine cells_barred (by simp [heads]) fun c hc => .inl fun hmem => ?_
  obtain ⟨h, -, rfl⟩ := List.mem_map.mp hc
  rw [blankCell, String.toList_ofList] at hmem
  exact absurd (List.eq_of_mem_replicate hmem) (by decide)

theorem length_cells_rowLine (f : Formula) (m : Model) :
    (cells (rowLine f m)).length = f.vars.length + 1 := by
  rw [cells_rowLine, List.length_append, List.length_zipWith, List.length_map, List.length_map,
    Nat.min_self]
  rfl

/-- **The digits of its number stand in a row,** below the heads of the variables. -/
theorem trimmed_cell_row (f : Formula) (r : Nat) {j : Nat} (hj : j < f.vars.length) :
    (cells (rowLine f (Model.row f.vars r)))[j]?.map trimmed =
      some (Operator.const (r.testBit (f.vars.length - 1 - j))).symbol := by
  have hv : f.vars[j]? = some f.vars[j] := List.getElem?_eq_getElem hj
  -- the variables are listed once each, so no later place gives this one another digit
  have hlast : f.vars[j] ∉ f.vars.drop (j + 1) := by
    have hnodup := (Formula.vars_nodup f).sublist (List.drop_sublist j f.vars)
    rw [List.drop_eq_getElem_cons hj, List.nodup_cons] at hnodup
    exact hnodup.1
  have hvalue : (Model.row f.vars r).valuation f.vars[j] =
      r.testBit (f.vars.length - 1 - j) := by
    rw [Model.valuation, Model.getElem?_row hv hlast]
    rfl
  rw [cells_rowLine, List.getElem?_append_left (by simpa using hj), List.getElem?_zipWith,
    List.getElem?_map, List.getElem?_map, hv, ← hvalue]
  exact congrArg some (trimmed_filled _ _)

end TruthTable

/-! ## The layout -/

namespace Formula

open TruthTable

/-- The names of the variables of a formula are listed in the order of their code points. -/
theorem map_name_vars_pairwise_lt (f : Formula) : (f.vars.map Var.name).Pairwise (· < ·) := by
  refine List.pairwise_map.mpr ((vars_sorted f).imp fun {v w} h => ?_)
  rw [Var.compare_eq] at h
  exact compareOfLessAndEq_eq_lt.mp h

/-- **What a truth table shows, and where.**  For every formula with `n` variables, fewer than 64, and
a text no longer than the greatest width, the table has `2 ^ n + 2` lines, all of the same number of
bytes and each of them ended: the head, the dashes and the rows.  The head and the rows are `n + 1`
cells between bars and can be split into these; so can the line of dashes, once blanks stand for
them.  The cells of the head are the names of the variables, in the order of their code points, and
the text of the formula.  In the row with the number `r` the cell for a variable shows its digit of
`r`, and the last cell the value of the formula in the model with the number `r` of the enumeration
over these names; so the last cells are the truth values over the enumeration. -/
theorem truthTable_layout (f : Formula) (few : f.vars.length < 64)
    (narrow : f.text.length ≤ maxWidth) :
    ∃ (table head dash : String) (rows : List String) (e : Enumeration) (ms : List Model)
      (values : List Bool),
      f.truthTable = .ok table ∧ table = unlines (head :: dash :: rows) ∧
      lines table = head :: dash :: rows ∧ (lines table).length = 2 ^ f.vars.length + 2 ∧
      (∀ l ∈ lines table, l.utf8ByteSize = head.utf8ByteSize) ∧
      dash = dashes (cells head) ∧
      (∀ l ∈ head :: blanked dash :: rows,
        l = barred (cells l) ∧ (cells l).length = f.vars.length + 1) ∧
      cells head = f.vars.map Var.name ++ [f.text] ∧
      (f.vars.map Var.name).Pairwise (· < ·) ∧
      Enumeration.ofNames (f.vars.map Var.name) = .ok e ∧ e.Yields ms ∧
      f.truthValuesOver e = .ok values ∧
      rows.map lastCell = values.map (fun b => (Operator.const b).symbol) ∧
      ∀ (r : Nat) (l : String), rows[r]? = some l →
        (∀ j < f.vars.length, (cells l)[j]?.map trimmed =
          some (Operator.const (r.testBit (f.vars.length - 1 - j))).symbol) ∧
        ∃ m b, ms[r]? = some m ∧ f.evaluate m = .ok b ∧
          lastCell l = (Operator.const b).symbol := by
  obtain ⟨e, he, hrest⟩ := Enumeration.exists_ofVars_eq_ok few
  have hlines : lines (unlines (tableLines f)) = tableLines f :=
    lines_unlines isLine_of_mem_tableLines
  refine ⟨_, barred (heads f), dashes (heads f), (Model.rows f.vars).map (rowLine f), e,
    Model.rows f.vars, _, truthTable_eq_ok few narrow, rfl, hlines, ?_, ?_, ?_, ?_,
    cells_barred_heads f, map_name_vars_pairwise_lt f, (Enumeration.ofNames_map_name _).trans he,
    hrest ▸ Enumeration.yields_rest e, truthValuesOver_eq_ok (fun _ => mem_vars.mpr) hrest,
    map_lastCell_rowLine f _, fun r l hl => ?_⟩
  · rw [hlines, length_tableLines]
  · rw [hlines]
    exact utf8ByteSize_of_mem_tableLines
  · rw [cells_barred_heads]
  · intro l hl
    rw [List.mem_cons, List.mem_cons, List.mem_map] at hl
    rcases hl with rfl | rfl | ⟨m, -, rfl⟩
    · rw [cells_barred_heads, length_heads]
      exact ⟨rfl, rfl⟩
    · rw [cells_blanked_dashes, blanked_dashes, List.length_map, length_heads]
      exact ⟨rfl, rfl⟩
    · rw [length_cells_rowLine, cells_rowLine]
      exact ⟨rowLine_eq_barred f m, rfl⟩
  · rw [List.getElem?_map, Option.map_eq_some_iff] at hl
    obtain ⟨m, hm, rfl⟩ := hl
    have hvalue : f.evaluate m = .ok (f.eval m.valuation) :=
      evaluate_eq_ok_of_mem_rows (fun _ => mem_vars.mpr) (List.mem_of_getElem? hm)
    refine ⟨fun j hj => ?_, m, _, hm, hvalue, lastCell_rowLine f m⟩
    rw [Model.getElem?_rows hm]
    exact trimmed_cell_row f r hj

/-- The table of `~(p&q76)` has four rows below its head and the dashes; the third shows `T` for `p`
and `F` for `q76`, filled up to the width of the head. -/
theorem truthTable_layout_filled :
    (Formula.not (.and (.var .p) (.var ⟨"q76", by decide⟩))).vars.length < 64 ∧
      (Formula.not (.and (.var .p) (.var ⟨"q76", by decide⟩))).text.length ≤ maxWidth ∧
      ∃ (table : String) (rows : List String) (l : String),
        (Formula.not (.and (.var .p) (.var ⟨"q76", by decide⟩))).truthTable = .ok table ∧
        lines table = "| p | q76 | ~(p&q76) |" :: "|---|-----|----------|" :: rows ∧
        rows.length = 4 ∧ rows[2]? = some l ∧ l.utf8ByteSize = 22 ∧
        (cells l)[0]?.map trimmed = some "T" ∧ (cells l)[1]?.map trimmed = some "F" := by
  have hvars : (Formula.not (.and (.var .p) (.var ⟨"q76", by decide⟩))).vars =
      [.p, ⟨"q76", by decide⟩] := List.mergeSort_of_pairwise (by decide)
  have htext : (Formula.not (.and (.var .p) (.var ⟨"q76", by decide⟩))).text = "~(p&q76)" := by
    decide
  have few : (Formula.not (.and (.var .p) (.var ⟨"q76", by decide⟩))).vars.length < 64 := by
    rw [hvars]
    decide
  have narrow : (Formula.not (.and (.var .p) (.var ⟨"q76", by decide⟩))).text.length ≤ maxWidth := by
    rw [htext]
    decide
  obtain ⟨table, head, dash, rows, -, ms, -, htable, -, hlines, hcount, hwidth, hdash, hparts, hhead,
    -, -, -, -, -, hrow⟩ := truthTable_layout _ few narrow
  rw [hvars, htext] at hhead
  rw [hhead] at hdash
  obtain rfl : head = "| p | q76 | ~(p&q76) |" := by
    rw [(hparts head List.mem_cons_self).1, hhead]
    decide
  have hrows : rows.length = 4 := by
    rw [hlines, hvars] at hcount
    exact Nat.add_right_cancel (m := 2) hcount
  have hl : rows[2]? = some rows[2] := List.getElem?_eq_getElem (by omega)
  have hdigits := (hrow 2 _ hl).1
  rw [hvars] at hdigits
  refine ⟨few, narrow, table, rows, rows[2], htable, ?_, hrows, hl, ?_, hdigits 0 (by decide),
    hdigits 1 (by decide)⟩
  · rw [hlines, hdash]
    exact congrArg (_ :: · :: rows) (by decide)
  · rw [hwidth _ (hlines ▸ by simp)]
    decide

/-- The dashes under the two heads of `p` cannot be split as they are, and one character more than
the greatest width leaves a formula without a table. -/
theorem truthTable_layout_limits :
    ((var .p).vars.length < 64 ∧ ∃ table, (var .p).truthTable = .ok table ∧
      "|---|---|" ∈ lines table ∧ (cells "|---|---|").length ≠ (var .p).vars.length + 1) ∧
    overwide.vars.length < 64 ∧ ∀ table, overwide.truthTable ≠ .ok table := by
  have hvars : (var .p).vars = [.p] := List.mergeSort_of_pairwise (by decide)
  have few : (var .p).vars.length < 64 := by
    rw [hvars]
    decide
  have narrow : (var .p).text.length ≤ maxWidth := by decide
  have hdashes : dashes (heads (var .p)) = "|---|---|" := by
    rw [heads, hvars]
    decide
  have hdash : "|---|---|" ∈ lines (unlines (tableLines (var .p))) := by
    rw [lines_unlines isLine_of_mem_tableLines, tableLines, hdashes]
    exact List.mem_cons_of_mem _ List.mem_cons_self
  have hcells : (cells "|---|---|").length ≠ (var .p).vars.length + 1 := by
    rw [hvars]
    decide
  refine ⟨⟨few, _, truthTable_eq_ok few narrow, hdash, hcells⟩, length_vars_overwide_lt,
    fun table h => ?_⟩
  rw [truthTable_eq_error length_vars_overwide_lt maxWidth_lt_length_text_overwide] at h
  cases h

end Formula

end PropLogic

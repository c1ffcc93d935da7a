import PropLogic.Proofs.ModelCount
import PropLogic.Proofs.ReducedFormulas
import PropLogic.Proofs.Reduction
import PropLogic.Proofs.Requests
import PropLogic.Proofs.TableLines

/-!
# What the report says

The report on a formula goes through all models four times: for the table, for the two checks and
for the count.  With fewer than 64 variables, and columns that are not too wide, all four have a
result, and the results agree: `trueRows` is the number of rows of the table in which the formula is
true, and this number decides what the other three say (`CommandLine.findings_eq_ok`).  So the whole
report is determined line by line (`CommandLine.report_eq_complete`), and can be checked against what
is written: the last cells of its table are the truth values, and counting those that show `T` gives
the other lines.  Under too wide a column the report breaks off behind the heading of the table
(`CommandLine.report_eq_brokenOff`).

Main statement: `CommandLine.run_eq_report`, for the program as it is called.
-/

namespace PropLogic

/-! ## Findings -/

namespace Formula

variable {f : Formula}

/-- The number of rows over the formula's own variables in which it is true. -/
def trueRows (f : Formula) : Nat :=
  (Model.rows f.vars).countP fun m => f.eval m.valuation

theorem tautology_iff_trueRows : f.Tautology ↔ f.trueRows = 2 ^ f.vars.length := by
  rw [Tautology, ← Model.forall_mem_rows_iff (dependsOn_eval fun _ => mem_vars.mpr), trueRows,
    ← rowCount_eq_two_pow, ← Model.length_rows, List.countP_eq_length]

theorem satisfiable_iff_trueRows : f.Satisfiable ↔ f.trueRows ≠ 0 := by
  have hdepends : DependsOn (fun ρ => (Formula.not f).eval ρ) {v | v ∈ f.vars} :=
    dependsOn_eval fun _ => mem_vars.mpr
  rw [satisfiable_iff_not_tautology, Tautology, ← Model.forall_mem_rows_iff hdepends, trueRows,
    ne_eq, List.countP_eq_zero]
  simp only [eval, Bool.not_eq_true', Bool.not_eq_true]

/-- The count over the formula's own variables is that of the rows. -/
theorem countModels_vars_eq_ok (few : f.vars.length < 64) :
    f.countModels (f.vars.map Var.name) = .ok f.trueRows := by
  rw [countModels_eq_ok few fun _ hv => Var.name_mem_map.mpr hv, trueRows,
    Assignment.countP_rows (vars_nodup f) (dependsOn_eval fun _ => mem_vars.mpr)]

end Formula

namespace CommandLine

open TruthTable

/-! ## The lines of the report -/

/-- A name and what it stands for. -/
def entry (name value : String) : String :=
  name ++ " = " ++ value

/-- The lines in front of the rows. -/
def frontLines (f : Formula) : List String :=
  [entry "formula" f.text, entry "polish" f.polish,
    "size = " ++ toString f.size ++ ", depth = " ++ toString f.depth, "",
    barred (heads f), dashes (heads f)]

/-- The lines on all models, from the number of variables and that of the true rows. -/
def findingLines (n trues : Nat) : List String :=
  [entry "tautology" (word (trues == 2 ^ n)), entry "satisfiable" (word (trues != 0)),
    entry "models" (toString trues)]

/-- The lines on the formula over a basis. -/
def basisLines (f : Formula) (b : Basis) : List String :=
  ["", entry ("over " ++ b.text) (b.reduce f).text, entry "size" (toString (b.reduce f).size)]

/-- The lines of the report, from the rows of the table and the number of those that are true. -/
def reportLines (f : Formula) (basis? : Option Basis) (rows : List String) (trues : Nat) :
    List String :=
  frontLines f ++ rows ++ "" :: findingLines f.vars.length trues ++
    (basis?.map (basisLines f)).getD []

theorem equation_eq_entry (name value : String) : equation name value = entry name value ++ "\n" :=
  rfl

theorem unlines_frontLines (f : Formula) : unlines (frontLines f) = opening f ++ heading f := by
  have hblank : "\n\n" = "\n" ++ ("" ++ "\n") := by decide
  have hmeasures : s!"size = {f.size}, depth = {f.depth}\n\n" =
      "size = " ++ toString f.size ++ ", depth = " ++ toString f.depth ++ "\n\n" := rfl
  rw [heading_eq_unlines, opening, hmeasures, hblank]
  simp only [frontLines, unlines_cons, unlines_nil, equation_eq_entry, String.append_assoc]

theorem unlines_findingLines (n trues : Nat) : unlines (findingLines n trues) =
    equation "tautology" (word (trues == 2 ^ n)) ++ equation "satisfiable" (word (trues != 0)) ++
      equation "models" (toString trues) := by
  simp only [findingLines, unlines_cons, unlines_nil, equation_eq_entry, String.append_assoc,
    String.append_empty]

theorem unlines_basisLines (f : Formula) (b : Basis) :
    unlines (basisLines f b) = reduction f b := by
  simp only [basisLines, reduction, unlines_cons, unlines_nil, equation_eq_entry,
    String.append_assoc, String.append_empty, String.empty_append]

/-- **The checks and the count agree with the rows.** -/
theorem findings_eq_ok {f : Formula} (few : f.vars.length < 64) :
    findings f = .ok (unlines (findingLines f.vars.length f.trueRows)) := by
  classical
  have htautology : f.isTautology = .ok (f.trueRows == 2 ^ f.vars.length) := by
    rw [Formula.isTautology_eq_ok few, Except.ok.injEq, Bool.eq_iff_iff, decide_eq_true_iff,
      beq_iff_eq, Formula.tautology_iff_trueRows]
  have hsatisfiable : f.isSatisfiable = .ok (f.trueRows != 0) := by
    rw [Formula.isSatisfiable_eq_ok few, Except.ok.injEq, Bool.eq_iff_iff, decide_eq_true_iff,
      bne_iff_ne, Formula.satisfiable_iff_trueRows]
  rw [findings, htautology, hsatisfiable, Formula.countModels_vars_eq_ok few, unlines_findingLines]
  rfl

/-- **The report with fewer than 64 variables** and columns that are not too wide is complete, and
these are its lines. -/
theorem report_eq_complete {f : Formula} (few : f.vars.length < 64)
    (narrow : f.text.length ≤ maxWidth) (basis? : Option Basis) : report f basis? = .complete
      (unlines (reportLines f basis? ((Model.rows f.vars).map (rowLine f)) f.trueRows)) := by
  have hbasis : unlines ((basis?.map (basisLines f)).getD []) =
      (basis?.map (reduction f)).getD "" := by
    cases basis? with
    | none => rfl
    | some b => exact unlines_basisLines f b
  have hrows : String.join (((Model.rows f.vars).map (rowLine f)).map (· ++ "\n")) =
      unlines ((Model.rows f.vars).map (rowLine f)) := rfl
  rw [report, rows_eq_ok few narrow, findings_eq_ok few, reportLines, unlines_append, unlines_append,
    unlines_append, unlines_cons, unlines_frontLines, hbasis]
  simp only [hrows, String.append_assoc, String.empty_append]

/-- Without rows the report ends behind the heading of the table. -/
theorem report_eq_brokenOff {f : Formula} (few : f.vars.length < 64)
    (wide : maxWidth < f.text.length) (basis? : Option Basis) :
    report f basis? = .brokenOff (opening f ++ heading f) := by
  rw [report, rows_eq_error few wide]

/-! ## What is written -/

theorem isLine_entry {name value : String} (hname : IsLine name) (hvalue : IsLine value) :
    IsLine (entry name value) := by
  rw [entry, isLine_append, isLine_append]
  exact ⟨⟨hname, by decide⟩, hvalue⟩

theorem isLine_of_mem_frontLines {f : Formula} {l : String} (hl : l ∈ frontLines f) :
    IsLine l := by
  simp only [frontLines, List.mem_cons, List.not_mem_nil, or_false] at hl
  rcases hl with rfl | rfl | rfl | rfl | rfl | rfl
  · exact isLine_entry (by decide) (isLine_text f)
  · exact isLine_entry (by decide) (isLine_polish f)
  · rw [isLine_append, isLine_append, isLine_append]
    exact ⟨⟨⟨by decide, isLine_toString _⟩, by decide⟩, isLine_toString _⟩
  · decide
  · exact isLine_barred fun _ => isLine_of_mem_heads
  · exact isLine_dashes _

theorem isLine_of_mem_findingLines {n trues : Nat} {l : String} (hl : l ∈ findingLines n trues) :
    IsLine l := by
  have hword : ∀ b, IsLine (word b) := by decide
  simp only [findingLines, List.mem_cons, List.not_mem_nil, or_false] at hl
  rcases hl with rfl | rfl | rfl
  · exact isLine_entry (by decide) (hword _)
  · exact isLine_entry (by decide) (hword _)
  · exact isLine_entry (by decide) (isLine_toString _)

theorem isLine_of_mem_basisLines {f : Formula} {b : Basis} {l : String}
    (hl : l ∈ basisLines f b) : IsLine l := by
  have htext : IsLine b.text := by cases b <;> decide
  simp only [basisLines, List.mem_cons, List.not_mem_nil, or_false] at hl
  rcases hl with rfl | rfl | rfl
  · decide
  · exact isLine_entry (isLine_append.mpr ⟨by decide, htext⟩) (isLine_text _)
  · exact isLine_entry (by decide) (isLine_toString _)

theorem lines_report (f : Formula) (basis? : Option Basis) (ms : List Model) (trues : Nat) :
    lines (unlines (reportLines f basis? (ms.map (rowLine f)) trues)) =
      reportLines f basis? (ms.map (rowLine f)) trues := by
  refine lines_unlines fun l hl => ?_
  rw [reportLines, List.mem_append, List.mem_append, List.mem_append, List.mem_cons] at hl
  rcases hl with ((hl | hl) | rfl | hl) | hl
  · exact isLine_of_mem_frontLines hl
  · obtain ⟨m, -, rfl⟩ := List.mem_map.mp hl
    exact isLine_rowLine f m
  · decide
  · exact isLine_of_mem_findingLines hl
  · cases basis? with
    | none => exact absurd hl List.not_mem_nil
    | some b => exact isLine_of_mem_basisLines hl

/-- The rows that show `T` are those in which the formula is true. -/
theorem count_lastCell_rowLine (f : Formula) (ms : List Model) :
    ((ms.map (rowLine f)).map lastCell).count "T" = ms.countP fun m => f.eval m.valuation := by
  have hinjective : Function.Injective fun b : Bool => (Operator.const b).symbol := fun b b' h =>
    Operator.const.inj (Operator.symbol_injective h)
  rw [map_lastCell_rowLine]
  exact (List.count_map_of_injective _ _ hinjective true).trans (count_true_map _ _)

/-- **The report is right and agrees with itself.**  Let the environment understand how the report on
a formula with fewer than 64 variables is asked for, with a basis or without.  If the text of the
formula is no longer than the greatest width, this text on the command line makes the program end
with code 0.  What it writes begins with a text that is read as the formula.  The table has a row for
every model over the variables, and the last cells are the truth values of the formula in the order
of the enumeration.  The number of rows that show `T` is the number of models; the formula is called
a tautology if these are all rows, and satisfiable if there is one.  With a basis there is a text,
too, that is read as a formula over this basis, which has the same value in every model that covers
both.  The Polish text of a formula that the reader of this notation knows leads to the same output.
If the text is longer, the program ends with code 101 behind the heading of the table instead. -/
theorem run_eq_report (f : Formula) (few : f.vars.length < 64) (basis? : Option Basis)
    (env : Environment) (understands : env.Understands f basis?) :
    (f.text.length ≤ maxWidth →
      ∃ (out : String) (rows : List String) (e : Enumeration) (values : List Bool),
        (∀ args ∈ standardArguments f basis?, run env args = ⟨0, out⟩) ∧
        ((∀ o ∈ f.operators, o ∈ Polish.operators) →
          ∀ args ∈ polishArguments f basis?, run env args = ⟨0, out⟩) ∧
        out = unlines (reportLines f basis? rows ((rows.map lastCell).count "T")) ∧
        lines out = reportLines f basis? rows ((rows.map lastCell).count "T") ∧
        Formula.parse f.text = .ok f ∧
        rows.length = 2 ^ f.vars.length ∧
        Enumeration.ofVars f.vars = .ok e ∧ f.truthValuesOver e = .ok values ∧
        rows.map lastCell = values.map (fun b => (Operator.const b).symbol) ∧
        ∀ b, basis? = some b →
          Formula.parse (b.reduce f).text = .ok (b.reduce f) ∧ b.contains (b.reduce f) = true ∧
          ∀ m : Model, m.Covers f → m.Covers (b.reduce f) →
            (b.reduce f).evaluate m = f.evaluate m) ∧
    (maxWidth < f.text.length →
      (∀ args ∈ standardArguments f basis?, run env args = ⟨101, opening f ++ heading f⟩) ∧
      ((∀ o ∈ f.operators, o ∈ Polish.operators) →
        ∀ args ∈ polishArguments f basis?, run env args = ⟨101, opening f ++ heading f⟩)) := by
  have hstandard : ∀ args ∈ standardArguments f basis?, run env args = report f basis? :=
    fun _ => run_standard understands
  have hpolish : (∀ o ∈ f.operators, o ∈ Polish.operators) →
      ∀ args ∈ polishArguments f basis?, run env args = report f basis? :=
    fun hf _ => run_polish understands hf
  refine ⟨fun narrow => ?_, fun wide => ?_⟩
  · obtain ⟨e, he, hrest⟩ := Enumeration.exists_ofVars_eq_ok few
    have hvalues : f.truthValuesOver e =
        .ok ((Model.rows f.vars).map fun m => f.eval m.valuation) :=
      Formula.truthValuesOver_eq_ok (fun _ => Formula.mem_vars.mpr) hrest
    have hcount : (((Model.rows f.vars).map (rowLine f)).map lastCell).count "T" = f.trueRows :=
      count_lastCell_rowLine f _
    obtain ⟨out, hout⟩ : ∃ out, out =
        unlines (reportLines f basis? ((Model.rows f.vars).map (rowLine f)) f.trueRows) := ⟨_, rfl⟩
    have hreport : report f basis? = ⟨0, out⟩ := hout ▸ report_eq_complete few narrow basis?
    rw [hreport] at hstandard hpolish
    refine ⟨out, (Model.rows f.vars).map (rowLine f), e, _, hstandard, hpolish, ?_, ?_,
      Formula.parse_eq_ok_iff.mpr rfl, ?_, he, hvalues, map_lastCell_rowLine f _, fun b _ => ?_⟩
    · rw [hcount, hout]
    · rw [hcount, hout]
      exact lines_report f basis? _ _
    · rw [List.length_map, Model.length_rows, rowCount_eq_two_pow]
    · refine ⟨Formula.parse_eq_ok_iff.mpr rfl,
        Basis.contains_iff.mpr (b.mem_operators_of_mem_reduce f), fun m hf hb => ?_⟩
      rw [Formula.evaluate_eq_ok hf, Formula.evaluate_eq_ok hb, Basis.eval_reduce]
  · rw [report_eq_brokenOff few wide] at hstandard hpolish
    exact ⟨hstandard, hpolish⟩

/-- The report on `(p&~q)` over the basis of `-&` has seventeen lines, whichever way it is asked
for. -/
theorem run_eq_report_nand :
    (Formula.and (.var .p) (.not (.var .q))).vars.length < 64 ∧
      (Environment.only (.and (.var .p) (.not (.var .q))) (some .nand)).Understands
        (.and (.var .p) (.not (.var .q))) (some .nand) ∧
      (Formula.and (.var .p) (.not (.var .q))).text.length ≤ maxWidth ∧
      (∀ o ∈ (Formula.and (.var .p) (.not (.var .q))).operators, o ∈ Polish.operators) ∧
      ∃ out, run (.only (.and (.var .p) (.not (.var .q))) (some .nand))
          ["(p&~q)", "--basis", "nand"] = ⟨0, out⟩ ∧
        run (.only (.and (.var .p) (.not (.var .q))) (some .nand))
          ["--polish", "--basis=nand", "--", "&p~q"] = ⟨0, out⟩ ∧
        (lines out).length = 17 ∧ "formula = (p&~q)" ∈ lines out ∧
        "over \x7b-&\x7d = ((p-&(q-&q))-&(p-&(q-&q)))" ∈ lines out := by
  have hlength : (Formula.and (.var .p) (.not (.var .q))).vars.length = 2 :=
    length_ascending_of_nodup (by decide)
  have few : (Formula.and (.var .p) (.not (.var .q))).vars.length < 64 := by
    rw [hlength]
    decide
  have narrow : (Formula.and (.var .p) (.not (.var .q))).text.length ≤ maxWidth := by decide
  have hknows : ∀ o ∈ (Formula.and (.var .p) (.not (.var .q))).operators, o ∈ Polish.operators := by
    decide
  have understands := Environment.only_understands (.and (.var .p) (.not (.var .q))) (some .nand)
  obtain ⟨out, rows, -, -, hstandard, hpolish, -, hlines, -, hrows, -⟩ :=
    (run_eq_report _ few (some .nand) _ understands).1 narrow
  have htext : (Formula.and (.var .p) (.not (.var .q))).text = "(p&~q)" := by decide
  have hpolishText : (Formula.and (.var .p) (.not (.var .q))).polish = "&p~q" := by decide
  have hreduce : entry ("over " ++ Basis.nand.text)
      (Basis.nand.reduce (.and (.var .p) (.not (.var .q)))).text =
        "over \x7b-&\x7d = ((p-&(q-&q))-&(p-&(q-&q)))" := by decide
  rw [hlength] at hrows
  refine ⟨few, understands, narrow, hknows, out, hstandard _ ?_, hpolish hknows _ ?_, ?_, ?_, ?_⟩
  · simp [standardArguments, basisArguments, htext, Basis.name]
  · simp [polishArguments, basisArguments, hpolishText, Basis.name]
  · rw [hlines]
    simp [reportLines, frontLines, findingLines, basisLines, hrows]
  · rw [hlines]
    simp [reportLines, frontLines, entry, htext]
  · rw [hlines, ← hreduce]
    simp [reportLines, basisLines]

/-- The report on a formula without variables, one character longer than the greatest width, breaks
off. -/
theorem run_eq_report_overwide :
    overwide.vars.length < 64 ∧
      run (.only overwide none) [overwide.text] = ⟨101, opening overwide ++ heading overwide⟩ := by
  have hargs : [overwide.text] ∈ standardArguments overwide none := List.mem_cons_self
  exact ⟨length_vars_overwide_lt, (run_standard (Environment.only_understands _ _) hargs).trans
    (report_eq_brokenOff length_vars_overwide_lt maxWidth_lt_length_text_overwide none)⟩

end CommandLine

end PropLogic

import PropLogic.CommandLine.Run
import PropLogic.Proofs.ErrorPosition
import PropLogic.Proofs.PolishNotation

/-!
# From the arguments to the formula

A formula is given on the command line by its standard text, which begins with no `-` and so is no
option, or behind `--polish` and `--` by its Polish text, which may begin with one.  A basis is
asked for before or behind it, in either form of an option.

What reads the arguments and what logs are not known; `Environment.Understands` says what the
program relies on in them when a report is asked for in these ways.  No more is assumed of any other
arguments, and nothing of a logger that is asked for records.

Main statements: `CommandLine.run_standard` and `CommandLine.run_polish`, that all these arguments
lead to the report on the formula.
-/

namespace PropLogic.CommandLine

/-- The ways to ask for a basis, or for none. -/
def basisArguments : Option Basis → List (List String)
  | none => [[]]
  | some b => [["--basis", b.name], ["--basis=" ++ b.name]]

/-- The ways to ask for the report on a formula by its standard text. -/
def standardArguments (f : Formula) (basis? : Option Basis) : List (List String) :=
  (basisArguments basis?).flatMap fun opts => [opts ++ [f.text], f.text :: opts]

/-- The ways to ask for the report on a formula by its Polish text. -/
def polishArguments (f : Formula) (basis? : Option Basis) : List (List String) :=
  (basisArguments basis?).flatMap fun opts =>
    [opts ++ ["--polish", "--", f.polish], "--polish" :: (opts ++ ["--", f.polish])]

/-- The environment understands how the report on a formula is asked for. -/
structure Environment.Understands (env : Environment) (f : Formula) (basis? : Option Basis) :
    Prop where
  /-- A text that does not begin as an option does is the formula, before and behind the options. -/
  standard : f.text.toList.head? ≠ some '-' → ∀ args ∈ standardArguments f basis?,
    env.readArguments args = .ok ⟨f.text, false, basis?, .info⟩
  /-- Behind `--` every text is the formula. -/
  polish : ∀ args ∈ polishArguments f basis?,
    env.readArguments args = .ok ⟨f.polish, true, basis?, .info⟩
  /-- Without records for debugging, and the library has no others, the logger adds nothing. -/
  silent : ∀ q o, q.level.showsDebug = false → env.withRecords q o = o

/-- The environment that understands how one report is asked for, and nothing else. -/
def Environment.only (f : Formula) (basis? : Option Basis) : Environment where
  readArguments args :=
    if args ∈ polishArguments f basis? then .ok ⟨f.polish, true, basis?, .info⟩
    else if args ∈ standardArguments f basis? then .ok ⟨f.text, false, basis?, .info⟩
    else .error ⟨2, ""⟩
  withRecords _ o := o

/-- Of the two ways to give a formula the Polish one takes two arguments more. -/
theorem not_mem_polishArguments {f : Formula} {basis? : Option Basis} {args : List String}
    (h : args ∈ standardArguments f basis?) : args ∉ polishArguments f basis? := by
  intro h'
  obtain ⟨opts, hopts, hargs⟩ := List.mem_flatMap.mp h
  obtain ⟨opts', hopts', hargs'⟩ := List.mem_flatMap.mp h'
  have hlength : args.length = opts.length + 1 := by
    rcases List.mem_pair.mp hargs with rfl | rfl <;> simp
  have hlength' : args.length = opts'.length + 3 := by
    rcases List.mem_pair.mp hargs' with rfl | rfl <;> simp
  have hle : opts.length ≤ opts'.length + 1 := by
    cases basis? with
    | none =>
      rw [List.mem_singleton.mp hopts]
      exact Nat.zero_le _
    | some b =>
      rcases List.mem_pair.mp hopts with rfl | rfl <;>
        rcases List.mem_pair.mp hopts' with rfl | rfl <;> simp
  omega

theorem Environment.only_understands (f : Formula) (basis? : Option Basis) :
    (only f basis?).Understands f basis? where
  standard _ _ hargs := (if_neg (not_mem_polishArguments hargs)).trans (if_pos hargs)
  polish _ hargs := if_pos hargs
  silent _ _ _ := rfl

/-- No standard text begins as an option does. -/
theorem head?_text_ne (f : Formula) : f.text.toList.head? ≠ some '-' := by
  obtain ⟨c, r, hc, hstart⟩ := Standard.exists_text_eq_cons f
  rw [hc, List.head?_cons, ne_eq, Option.some.injEq]
  rintro rfl
  exact absurd hstart (by decide)

variable {env : Environment} {f : Formula} {basis? : Option Basis} {args : List String}

/-- **The standard text of a formula asks for its report.** -/
theorem run_standard (h : env.Understands f basis?) (hargs : args ∈ standardArguments f basis?) :
    run env args = report f basis? := by
  have hformula : readFormula false f.text = .ok f := Formula.parse_eq_ok_iff.mpr rfl
  simp only [run, h.standard (head?_text_ne f) args hargs]
  rw [h.silent _ _ rfl]
  simp only [respond, hformula]

/-- **The Polish text of a formula asks for its report,** if the reader knows its operators. -/
theorem run_polish (h : env.Understands f basis?) (hf : Polish.Knows f)
    (hargs : args ∈ polishArguments f basis?) : run env args = report f basis? := by
  have hformula : readFormula true f.polish = .ok f := Formula.parsePolish_eq_ok_iff.mpr ⟨rfl, hf⟩
  simp only [run, h.polish args hargs]
  rw [h.silent _ _ rfl]
  simp only [respond, hformula]

end PropLogic.CommandLine

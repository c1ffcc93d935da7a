import Mathlib.Logic.Relation
import PropLogic.Proofs.ErrorPosition
import PropLogic.Proofs.UniqueDecoding

/-!
# Where a Polish text stops being a formula

The reader of Polish notation awaits one formula at first.  With every token that it takes off the
text it awaits one formula less, and as many more as belong to the token (`Polish.Step`).  What it
has read matters only by this number: its recursion over operands is a run of such steps until none
is possible (`Polish.run_of_read_eq_ok`, `Polish.exists_run_of_read_eq_error`).  Of such a run three
things are said, each of one step first.

* What has been taken off goes on to a formula with as many formulas as are awaited, whichever they
  are (`Polish.Run.exists_opens`).
* What follows the text changes neither the steps nor that there are no more (`Polish.Run.append`,
  `Polish.not_startsWithToken_append`), unless the rest is empty or a `-`, which can become `->`.
* A text has one run only (`Polish.Run.eq_of_stuck`).

The last two exclude that a text with a rest begins a formula, since the run over the text of a
formula leaves nothing.

Main statement: `Formula.parsePolish_eq_error_parts`.
-/

namespace PropLogic

open Formula (polishAll)

namespace Polish

/-! ## Tokens in front of a text -/

/-- The reader knows the token: a name, or one of its operators. -/
def KnowsToken : Token → Prop
  | .name _ => True
  | .operator o => o ∈ operators

/-- The reader knows the root of a formula that it knows. -/
theorem Knows.token {f : Formula} (hf : Knows f) : KnowsToken f.token := by
  cases f with
  | var v => trivial
  | const b => exact hf _ (Formula.mem_operators_const.mpr rfl)
  | not f => exact hf _ (Formula.mem_operators_not.mpr (.inl rfl))
  | binary c f g => exact hf _ (Formula.mem_operators_binary.mpr (.inl rfl))

/-- The reader knows a formula whose root and operands it knows. -/
theorem Knows.of_token {f : Formula} (htoken : KnowsToken f.token)
    (hoperands : ∀ g ∈ f.operands, Knows g) : Knows f := by
  cases f with
  | var v => exact knows_var v
  | const b => exact knows_const b
  | not f => exact knows_not_iff.mpr (hoperands f List.mem_cons_self)
  | binary c f g =>
    have hc : c ∈ connectives := mem_operators_binary_iff.mp htoken
    exact knows_binary_iff.mpr ⟨hc, hoperands f List.mem_cons_self,
      hoperands g (List.mem_cons_of_mem f List.mem_cons_self)⟩

/-- A token that the reader knows stands in front of the text. -/
def StartsWithToken (s : List Char) : Prop :=
  ∃ (x : Token) (r : List Char), KnowsToken x ∧ s = x.text.toList ++ r

theorem startsWithToken_polish_append {f : Formula} (hf : Knows f) (r : List Char) :
    StartsWithToken (f.polish.toList ++ r) :=
  ⟨f.token, polishAll f.operands ++ r, hf.token, by
    rw [f.toList_polish_eq_token_append, List.append_assoc]⟩

/-- The first character tells a name, and a symbol stands there as a whole. -/
theorem startsWithToken_iff {s : List Char} : StartsWithToken s ↔
    (∃ c ∈ s.head?, isNameLetter c = true) ∨ ∃ o ∈ operators, o.symbol.toList <+: s := by
  constructor
  · rintro ⟨x, r, hx, rfl⟩
    cases x with
    | name v =>
      obtain ⟨c, ds, hv, hc, -⟩ := v.exists_name_eq_cons
      rw [show (Token.name v).text.toList = c :: ds from hv]
      exact .inl ⟨c, rfl, hc⟩
    | operator o => exact .inr ⟨o, hx, List.prefix_append _ r⟩
  · rintro (⟨c, hhead, hc⟩ | ⟨o, ho, r, hr⟩)
    · obtain ⟨r, rfl⟩ := List.head?_eq_some_iff.mp hhead
      cases hread : Var.read? (c :: r) with
      | none => simp [Var.read?, hc] at hread
      | some p => exact ⟨.name p.1, p.2, trivial, (Var.eq_append_of_read? hread).1⟩
    · exact ⟨.operator o, r, ho, hr.symm⟩

theorem not_startsWithToken_nil : ¬ StartsWithToken [] := by
  rintro ⟨x, r, -, h⟩
  exact x.text_ne_nil (List.append_eq_nil_iff.mp h.symm).1

/-- The only proper part of a symbol of the notation is that of `->`. -/
theorem eq_of_symbol_part {o : Operator} (ho : o ∈ operators) {r : List Char}
    (hr : r <+: o.symbol.toList) (hne : r ≠ []) (hpart : r ≠ o.symbol.toList) : r = ['-'] := by
  have key : ∀ o ∈ operators, ∀ r ∈ o.symbol.toList.inits,
      r ≠ [] → r ≠ o.symbol.toList → r = ['-'] := by decide
  exact key o ho r ((List.mem_inits _ _).mpr hr) hne hpart

/-- **No token comes about by what follows,** unless the text is empty or a `-`. -/
theorem not_startsWithToken_append {r : List Char} (hr : ¬ StartsWithToken r) (hne : r ≠ [])
    (hpart : r ≠ ['-']) (t : List Char) : ¬ StartsWithToken (r ++ t) := by
  intro h
  rcases startsWithToken_iff.mp h with ⟨c, hhead, hc⟩ | ⟨o, ho, hsymbol⟩
  · rw [List.head?_append_of_ne_nil r hne] at hhead
    exact hr (startsWithToken_iff.mpr (.inl ⟨c, hhead, hc⟩))
  · rcases List.prefix_or_prefix_of_prefix hsymbol (List.prefix_append r t) with hwhole | hfront
    · exact hr (startsWithToken_iff.mpr (.inr ⟨o, ho, hwhole⟩))
    · refine hpart (eq_of_symbol_part ho hfront hne fun hsame => ?_)
      exact hr (startsWithToken_iff.mpr (.inr ⟨o, ho, hsame ▸ List.prefix_rfl⟩))

/-! ## Steps -/

/-- A text, and how many formulas are awaited in front of it. -/
structure Pending where
  count : Nat
  text : List Char

/-- A token is taken off the text, and its operands are awaited in place of a formula. -/
inductive Step : Pending → Pending → Prop
  | take {x : Token} {r : List Char} (n : Nat) : KnowsToken x → x.EndsBefore r →
    Step ⟨n + 1, x.text.toList ++ r⟩ ⟨n + x.arity, r⟩

/-- Steps, as many as one likes. -/
abbrev Run : Pending → Pending → Prop :=
  Relation.ReflTransGen Step

/-- Nothing is awaited any more, or no token stands in front. -/
def Stuck (p : Pending) : Prop :=
  p.count = 0 ∨ ¬ StartsWithToken p.text

theorem Stuck.not_step {p q : Pending} (hp : Stuck p) : ¬ Step p q := by
  rintro ⟨n, hx, -⟩
  rcases hp with hcount | htext
  · cases hcount
  · exact htext ⟨_, _, hx, rfl⟩

/-- **Only one step is possible.** -/
theorem step_rightUnique : Relator.RightUnique Step := by
  intro p q q' h h'
  obtain ⟨n, hx, hr⟩ := h
  generalize hp : (⟨n + 1, _⟩ : Pending) = p at h'
  obtain ⟨n', hx', hr'⟩ := h'
  obtain ⟨hcount, htext⟩ := Pending.mk.inj hp
  obtain ⟨rfl, rfl⟩ := Token.append_inj hr hr' htext
  obtain rfl := Nat.succ.inj hcount
  rfl

/-- A run that has come to its end is the only one. -/
theorem Run.eq_of_stuck {p q q' : Pending} (h : Run p q) (h' : Run p q') (hq : Stuck q)
    (hq' : Stuck q') : q = q' := by
  have hend {q q' : Pending} (hq : Stuck q) (h : Run q q') : q = q' := by
    rcases h.cases_head with rfl | ⟨p, hstep, -⟩
    · rfl
    · exact absurd hstep hq.not_step
  rcases Relation.ReflTransGen.total_of_right_unique step_rightUnique h h' with hrun | hrun
  · exact hend hq hrun
  · exact (hend hq' hrun).symm

/-! ## What has been taken off -/

/-- Behind the characters `taken` any `m` formulas that the reader knows make up `n` of them. -/
def Opens (taken : List Char) (n m : Nat) : Prop :=
  ∀ fs : List Formula, (∀ f ∈ fs, Knows f) → fs.length = m →
    ∃ gs : List Formula, (∀ g ∈ gs, Knows g) ∧ gs.length = n ∧ polishAll gs = taken ++ polishAll fs

theorem Opens.refl (n : Nat) : Opens [] n n :=
  fun fs hfs hlength => ⟨fs, hfs, hlength, rfl⟩

theorem Opens.trans {taken taken' : List Char} {n k m : Nat} (h : Opens taken n k)
    (h' : Opens taken' k m) : Opens (taken ++ taken') n m := by
  intro fs hfs hlength
  obtain ⟨gs, hgs, hlength', htext⟩ := h' fs hfs hlength
  obtain ⟨es, hes, hlength'', htext'⟩ := h gs hgs hlength'
  exact ⟨es, hes, hlength'', by rw [htext', htext, List.append_assoc]⟩

theorem Step.exists_opens {p q : Pending} (h : Step p q) :
    ∃ taken, p.text = taken ++ q.text ∧ Opens taken p.count q.count := by
  cases h with | @take x r n hx _ =>
  refine ⟨x.text.toList, rfl, fun fs hfs hlength => ?_⟩
  -- the operands are in front, the formulas awaited before are behind them
  have harity : x.arity ≤ fs.length := hlength ▸ Nat.le_add_left _ _
  obtain ⟨f, htoken, hoperands⟩ := Formula.exists_token_operands (List.length_take_of_le harity)
  have hf : Knows f := .of_token (htoken ▸ hx) fun g hg =>
    hfs g (List.mem_of_mem_take (hoperands ▸ hg))
  refine ⟨f :: fs.drop x.arity, List.forall_mem_cons.mpr
    ⟨hf, fun g hg => hfs g (List.mem_of_mem_drop hg)⟩, ?_, ?_⟩
  · rw [List.length_cons, List.length_drop, hlength, Nat.add_sub_cancel]
  · rw [Formula.polishAll_cons, htoken, hoperands, List.take_append_drop]

/-- **What has been taken off goes on to formulas.** -/
theorem Run.exists_opens {p q : Pending} (h : Run p q) :
    ∃ taken, p.text = taken ++ q.text ∧ Opens taken p.count q.count := by
  induction h with
  | refl => exact ⟨[], rfl, .refl _⟩
  | tail _ hstep ih =>
    obtain ⟨taken, htext, hopens⟩ := ih
    obtain ⟨taken', htext', hopens'⟩ := hstep.exists_opens
    exact ⟨taken ++ taken', by rw [htext, htext', List.append_assoc], hopens.trans hopens'⟩

/-! ## What follows -/

theorem Step.append {n m : Nat} {s r : List Char} (h : Step ⟨n, s⟩ ⟨m, r⟩) (hne : r ≠ [])
    (t : List Char) : Step ⟨n, s ++ t⟩ ⟨m, r ++ t⟩ := by
  cases h with
  | @take x _ n hx hr =>
    rw [List.append_assoc]
    refine .take n hx ?_
    cases x with
    | name v => exact Var.EndsName.append hr hne t
    | operator o => trivial

/-- **What follows changes nothing about a run** that leaves something of the text. -/
theorem Run.append {n m : Nat} {s r : List Char} (h : Run ⟨n, s⟩ ⟨m, r⟩) (hne : r ≠ [])
    (t : List Char) : Run ⟨n, s ++ t⟩ ⟨m, r ++ t⟩ := by
  generalize hp : (⟨n, s⟩ : Pending) = p at h
  induction h using Relation.ReflTransGen.head_induction_on generalizing n s with
  | refl =>
    cases hp
    exact .refl
  | @head p q hstep hrun ih =>
    subst hp
    obtain ⟨k, s'⟩ := q
    have hne' : s' ≠ [] := by
      obtain ⟨taken, htext : s' = taken ++ r, -⟩ := Run.exists_opens hrun
      exact htext ▸ List.append_ne_nil_of_right_ne_nil _ hne
    exact .head (hstep.append hne' t) (ih rfl)

/-! ## The reader -/

theorem step_name (v : Var) {r : List Char} (hr : Var.EndsName r) (n : Nat) :
    Step ⟨n + 1, v.name.toList ++ r⟩ ⟨n, r⟩ :=
  .take (x := .name v) n trivial hr

theorem step_operator {o : Operator} (ho : o ∈ operators) (r : List Char) (n : Nat) :
    Step ⟨n + 1, o.symbol.toList ++ r⟩ ⟨n + o.arity, r⟩ :=
  .take (x := .operator o) n ho trivial

/-- A connective stands in front, and two formulas are awaited. -/
theorem step_connective {s r : List Char} {c : Connective} (h : readConnective? s = some (c, r))
    (n : Nat) : Step ⟨n + 1, s⟩ ⟨n + 2, r⟩ := by
  obtain ⟨hc, rfl⟩ := eq_append_of_readConnective? h
  exact step_operator (mem_operators_binary_iff.mpr hc) r n

/-- **To read a formula is a run,** at whose end one formula less is awaited. -/
theorem run_of_read_eq_ok {s : List Char} {a : Reading s} (h : read s = .ok a) (n : Nat) :
    Run ⟨n + 1, s⟩ ⟨n, a.rest⟩ := by
  revert a n
  fun_induction read s with
  | case1 | case4 | case7 | case8 | case9 =>
    -- the reader has halted: there is no formula
    intro a h
    cases h
  | case2 r =>
    intro a h n
    cases h
    exact .single (step_operator (o := .const true) (by decide) r n)
  | case3 r =>
    intro a h n
    cases h
    exact .single (step_operator (o := .const false) (by decide) r n)
  | case5 r b hb ih =>
    intro a h n
    cases h
    exact .head (step_operator (o := .not) (by decide) r n) (ih hb n)
  | case6 c r hT hF hnot v r₁ hv =>
    intro a h n
    cases h
    obtain ⟨hs, hr⟩ := Var.eq_append_of_read? hv
    show Run ⟨n + 1, c :: r⟩ ⟨n, r₁⟩
    rw [hs]
    exact .single (step_name v hr n)
  | case10 c r hT hF hnot hv op r₁ hc b hb d hd ih₁ ih =>
    intro a h n
    cases h
    exact .head (step_connective hc n) ((ih₁ hb (n + 1)).trans (ih hd n))

/-- Where the reader finds no name and no symbol, no token stands in front. -/
theorem not_startsWithToken_of_none {c : Char} {r : List Char} (hT : c ≠ 'T') (hF : c ≠ 'F')
    (hnot : c ≠ '~') (hv : Var.read? (c :: r) = none) (hc : readConnective? (c :: r) = none) :
    ¬ StartsWithToken (c :: r) := by
  intro h
  rcases startsWithToken_iff.mp h with ⟨d, hhead, hd⟩ | ⟨o, ho, r', hs⟩
  · obtain rfl : c = d := Option.some.inj hhead
    simp [Var.read?, hd] at hv
  · cases o with
    | const b =>
      cases b with
      | true => exact hT (List.cons.inj hs).1.symm
      | false => exact hF (List.cons.inj hs).1.symm
    | not => exact hnot (List.cons.inj hs).1.symm
    | binary d =>
      rw [← hs, show (Operator.binary d).symbol = d.symbol from rfl,
        readConnective?_symbol_append (mem_operators_binary_iff.mp ho) r'] at hc
      cases hc

/-- **To read no formula is a run,** at whose end no token stands in front of what is awaited. -/
theorem exists_run_of_read_eq_error {s : List Char} {h : Halt} (hs : read s = .error h) :
    h.stop = .noFormula ∧ ¬ StartsWithToken h.rest ∧
      ∀ n, ∃ m, Run ⟨n + 1, s⟩ ⟨m + 1, h.rest⟩ := by
  revert h
  fun_induction read s with
  | case2 | case3 | case5 | case6 | case10 =>
    -- a formula has been read
    intro h hs
    cases hs
  | case1 =>
    intro h hs
    cases hs
    exact ⟨rfl, not_startsWithToken_nil, fun n => ⟨n, .refl⟩⟩
  | case4 r h' hr ih =>
    intro h hs
    cases hs
    obtain ⟨hstop, hrest, hrun⟩ := ih hr
    refine ⟨hstop, hrest, fun n => (hrun n).imp fun m => ?_⟩
    exact .head (step_operator (o := .not) (by decide) r n)
  | case7 c r hT hF hnot hv hc =>
    intro h hs
    cases hs
    exact ⟨rfl, not_startsWithToken_of_none hT hF hnot hv hc, fun n => ⟨n, .refl⟩⟩
  | case8 c r hT hF hnot hv op r₁ hc h' hr ih =>
    intro h hs
    cases hs
    obtain ⟨hstop, hrest, hrun⟩ := ih hr
    exact ⟨hstop, hrest, fun n => (hrun (n + 1)).imp fun m => .head (step_connective hc n)⟩
  | case9 c r hT hF hnot hv op r₁ hc b hb h' hr ih₁ ih =>
    intro h hs
    cases hs
    obtain ⟨hstop, hrest, hrun⟩ := ih hr
    refine ⟨hstop, hrest, fun n => (hrun n).imp fun m h => ?_⟩
    exact .head (step_connective hc n) ((run_of_read_eq_ok hb (n + 1)).trans h)

/-- The Polish text of a formula that the reader knows is used up when the formula is read. -/
theorem run_polish {f : Formula} (hf : Knows f) : Run ⟨1, f.polish.toList⟩ ⟨0, []⟩ := by
  have hfront := front_polish_append hf Var.endsName_nil
  rw [List.append_nil] at hfront
  obtain ⟨a, ha, -, hrest⟩ := Reading.map_eq_ok_iff.mp hfront
  exact hrest ▸ run_of_read_eq_ok ha 0

/-! ## Beginnings of Polish texts -/

/-- The characters are the beginning of the Polish text of a formula that the reader knows. -/
def Begins (s : List Char) : Prop :=
  ∃ f : Formula, Knows f ∧ s <+: f.polish.toList

theorem Begins.shorten {s t : List Char} (h : Begins t) (hs : s <+: t) : Begins s :=
  h.imp fun _ hf => ⟨hf.1, hs.trans hf.2⟩

/-- What goes on to a formula with `m` formulas begins one with fewer of them, too. -/
theorem Opens.begins {taken : List Char} {m : Nat} (h : Opens taken 1 m) {fs : List Formula}
    (hfs : ∀ f ∈ fs, Knows f) (hlength : fs.length ≤ m) : Begins (taken ++ polishAll fs) := by
  -- a constant stands for each of the others
  obtain ⟨gs, hgs, hone, htext⟩ := h (fs ++ List.replicate (m - fs.length) (.const true))
    (fun f hf => (List.mem_append.mp hf).elim (hfs f) fun hf =>
      List.eq_of_mem_replicate hf ▸ knows_const true)
    (by rw [List.length_append, List.length_replicate, Nat.add_sub_cancel' hlength])
  obtain ⟨g, rfl⟩ := List.length_eq_one_iff.mp hone
  refine ⟨g, hgs g List.mem_cons_self, ?_⟩
  rw [← Formula.polishAll_singleton, htext, Formula.polishAll_append, ← List.append_assoc]
  exact List.prefix_append _ _

theorem Opens.begins_polish {taken : List Char} {m : Nat} (h : Opens taken 1 (m + 1))
    {f : Formula} (hf : Knows f) : Begins (taken ++ f.polish.toList) := by
  rw [← Formula.polishAll_singleton]
  exact h.begins (by simpa using hf) (Nat.le_add_left 1 m)

theorem Stuck.append {m : Nat} {r : List Char} (h : Stuck ⟨m, r⟩) (hne : r ≠ [])
    (hpart : m ≠ 0 → r ≠ ['-']) (t : List Char) : Stuck ⟨m, r ++ t⟩ := by
  rcases Nat.eq_zero_or_pos m with hzero | hpos
  · exact .inl hzero
  · have hm : m ≠ 0 := Nat.ne_of_gt hpos
    exact .inr (not_startsWithToken_append (h.resolve_left hm) hne (hpart hm) t)

/-- **A text over which a run has come to its end begins a formula** only if nothing is left, or the
beginning of `->` where a formula is awaited. -/
theorem Run.begins_iff {s r : List Char} {m : Nat} (h : Run ⟨1, s⟩ ⟨m, r⟩) (hstuck : Stuck ⟨m, r⟩) :
    Begins s ↔ r = [] ∨ m ≠ 0 ∧ r = ['-'] := by
  constructor
  · rintro ⟨f, hf, t, ht⟩
    by_contra hleft
    obtain ⟨hne, hpart⟩ := not_or.mp hleft
    -- the run goes over the text of the formula too, and leaves something of it
    have hrun : Run ⟨1, f.polish.toList⟩ ⟨m, r ++ t⟩ := ht ▸ h.append hne t
    have hend := hrun.eq_of_stuck (run_polish hf)
      (hstuck.append hne (fun hm hr => hpart ⟨hm, hr⟩) t) (.inl rfl)
    exact hne (List.append_eq_nil_iff.mp (congrArg Pending.text hend)).1
  · obtain ⟨taken, rfl, hopens⟩ : ∃ taken, s = taken ++ r ∧ Opens taken 1 m := h.exists_opens
    rintro (rfl | ⟨hm, rfl⟩)
    · exact hopens.begins (List.forall_mem_nil Knows) (Nat.zero_le m)
    · obtain ⟨k, rfl⟩ := Nat.exists_eq_succ_of_ne_zero hm
      have himplies : Knows (.implies (.const true) (.const true)) :=
        knows_binary_iff.mpr ⟨by decide, knows_const true, knows_const true⟩
      refine (hopens.begins_polish himplies).shorten ?_
      exact (List.prefix_append_right_inj taken).mpr (by decide)

/-! ## The two parts of a text -/

/-- How a text is no formula: a formula is awaited in front of the rest, or all have been read. -/
inductive Unread (s : List Char) : Halt → Prop
  | awaiting {r : List Char} (m : Nat) : Run ⟨1, s⟩ ⟨m + 1, r⟩ → ¬ StartsWithToken r →
    Unread s ⟨.noFormula, r⟩
  | trailing {r : List Char} : Run ⟨1, s⟩ ⟨0, r⟩ → r ≠ [] → Unread s ⟨.trailing, r⟩

theorem unread_of_eq_error {s : List Char} {h : Halt}
    (hs : (read s).bind Reading.whole = .error h) : Unread s h := by
  rcases Reading.bind_whole_eq_error_iff.mp hs with hread | ⟨a, ha, hne, rfl⟩
  · obtain ⟨stop, rest⟩ := h
    obtain ⟨rfl, hrest, hrun⟩ := exists_run_of_read_eq_error hread
    obtain ⟨m, hm⟩ := hrun 0
    exact .awaiting m hm hrest
  · exact .trailing (run_of_read_eq_ok ha 0) hne

/-- What an error says of a text in Polish notation with `front` before and `rest` behind its
position. -/
def Describes (front rest : String) : SyntaxError → Prop
  | .unexpectedEnd _ g =>
    g = .polish ∧ rest = "" ∧ ∀ f : Formula, Knows f → Begins (front ++ f.polish).toList
  | .unexpectedSymbol _ c g =>
    g = .polish ∧ rest.toList.head? = some c ∧
      ∀ f : Formula, Knows f →
        Begins (front ++ f.polish).toList ∧ ¬ f.polish.toList <+: rest.toList
  | .trailingInput _ r =>
    (∃ f : Formula, Knows f ∧ front = f.polish) ∧ r = rest ∧ rest ≠ ""
  | .missingOperator _ | .missingClosingParen _ | .unknownOperator _ => False

theorem Run.exists_front {s rest : String} {n m : Nat} (h : Run ⟨n, s.toList⟩ ⟨m, rest.toList⟩) :
    ∃ front : String, s = front ++ rest ∧ Opens front.toList n m := by
  obtain ⟨taken, htext, hopens⟩ := h.exists_opens
  refine ⟨String.ofList taken, ?_, by rwa [String.toList_ofList]⟩
  rw [← String.toList_inj, String.toList_append, String.toList_ofList]
  exact htext

theorem Unread.exists_parts {s rest : String} {stop : Stop}
    (h : Unread s.toList ⟨stop, rest.toList⟩) :
    ∃ front : String, s = front ++ rest ∧ Begins front.toList ∧
      (Begins s.toList ↔ rest = "" ∨ rest = "-" ∧ stop = .noFormula) ∧
        Describes front rest (Halt.toError .polish s.toList ⟨stop, rest.toList⟩) := by
  have hpart : rest.toList = ['-'] ↔ rest = "-" :=
    ⟨fun h => String.toList_inj.mp h, fun h => h ▸ rfl⟩
  cases h with
  | awaiting m hrun hstart =>
    obtain ⟨front, hfront, hopens⟩ := hrun.exists_front
    have hformula (f : Formula) (hf : Knows f) : Begins (front ++ f.polish).toList :=
      String.toList_append ▸ hopens.begins_polish hf
    refine ⟨front, hfront, (hformula _ (knows_const true)).shorten ?_, ?_, ?_⟩
    · rw [String.toList_append]
      exact List.prefix_append _ _
    · rw [hrun.begins_iff (.inr hstart), hpart, String.toList_eq_nil_iff]
      simp
    · cases hrest : rest.toList with
      | nil => exact ⟨rfl, String.toList_eq_nil_iff.mp hrest, hformula⟩
      | cons c r =>
        refine ⟨rfl, by rw [hrest]; rfl, fun f hf => ⟨hformula f hf, ?_⟩⟩
        rintro ⟨t, ht⟩
        exact hstart (ht ▸ startsWithToken_polish_append hf t)
  | trailing hrun hne =>
    obtain ⟨front, hfront, hopens⟩ := hrun.exists_front
    obtain ⟨f, hf, rfl⟩ : ∃ f, Knows f ∧ front = f.polish := by
      obtain ⟨gs, hgs, hone, htext⟩ := hopens [] nofun rfl
      obtain ⟨f, rfl⟩ := List.length_eq_one_iff.mp hone
      refine ⟨f, hgs f List.mem_cons_self, String.toList_inj.mp ?_⟩
      rw [← Formula.polishAll_singleton, htext, Formula.polishAll_nil, List.append_nil]
    refine ⟨f.polish, hfront, ⟨f, hf, List.prefix_rfl⟩, ?_, ⟨f, hf, rfl⟩, String.ofList_toList, ?_⟩
    · rw [hrun.begins_iff (.inl rfl), String.toList_eq_nil_iff]
      simp
    · exact mt String.toList_eq_nil_iff.mpr hne

end Polish

namespace Formula

open Polish (Knows Begins Describes)

/-- **A syntax error tells where a text stops being a formula in Polish notation.**  The position of
the error parts the text between two characters.  The front begins a Polish text; the whole text
begins none unless it is the front, or unless a formula is missing where it ends in a `-`; and the
error describes what could stand behind the front and what stands there instead. -/
theorem parsePolish_eq_error_parts {s : String} {e : SyntaxError} (h : parsePolish s = .error e) :
    ∃ front rest : String, s = front ++ rest ∧ e.position? = some front.utf8ByteSize ∧
      Begins front.toList ∧
        (Begins s.toList ↔
          rest = "" ∨ rest = "-" ∧ e = .unexpectedSymbol front.utf8ByteSize '-' .polish) ∧
            Describes front rest e := by
  obtain ⟨⟨stop, restChars⟩, hread, rfl⟩ := Halt.mapError_toError_eq_error_iff.mp h
  obtain ⟨rest, rfl⟩ : ∃ rest : String, rest.toList = restChars := ⟨_, String.toList_ofList⟩
  obtain ⟨front, hfront, hbegins, hiff, hdescribes⟩ :=
    (Polish.unread_of_eq_error hread).exists_parts
  have hposition : (Halt.toError .polish s.toList ⟨stop, rest.toList⟩).position? =
      some front.utf8ByteSize := by
    rw [Halt.position?_toError .polish (hfront ▸ String.toList_append), utf8Length_toList]
  refine ⟨front, rest, hfront, hposition, hbegins, hiff.trans (or_congr_right ?_), hdescribes⟩
  refine and_congr_right ?_
  rintro rfl
  constructor
  · rintro rfl
    exact congrArg (SyntaxError.unexpectedSymbol · '-' .polish) (Option.some.inj hposition)
  · intro he
    cases stop with
    | noFormula => rfl
    | noOperator | noClosingParen | trailing => cases he

/-- Behind `~&p` a formula is awaited and a `-` found.  At the end of the text it can become `->`, in
front of a `|` it cannot.  Behind `->pq` nothing is awaited. -/
theorem parsePolish_eq_error_parts_minus :
    parsePolish "~&p-" = .error (.unexpectedSymbol 3 '-' .polish) ∧ Begins "~&p-".toList ∧
    parsePolish "~&p-|q" = .error (.unexpectedSymbol 3 '-' .polish) ∧ ¬ Begins "~&p-|q".toList ∧
      (∀ f : Formula, Knows f → Begins ("~&p" ++ f.polish).toList) ∧
    parsePolish "->pqr" = .error (.trailingInput 4 "r") ∧ ¬ Begins "->pqr".toList := by
  have hpart : parsePolish "~&p-" = .error (.unexpectedSymbol 3 '-' .polish) := by decide +kernel
  have hother : parsePolish "~&p-|q" = .error (.unexpectedSymbol 3 '-' .polish) := by
    decide +kernel
  have htrailing : parsePolish "->pqr" = .error (.trailingInput 4 "r") := by decide +kernel
  refine ⟨hpart, ?_, hother, and_assoc.mp ⟨?_, htrailing, ?_⟩⟩
  · obtain ⟨front, rest, hs, hposition, -, hbegins, -⟩ := parsePolish_eq_error_parts hpart
    obtain ⟨rfl, rfl⟩ := append_inj_of_utf8ByteSize (s := "~&p") (t := "-") hs
      (Option.some.inj hposition)
    rw [hbegins]
    decide
  · obtain ⟨front, rest, hs, hposition, -, hbegins, -, -, hformula⟩ :=
      parsePolish_eq_error_parts hother
    obtain ⟨rfl, rfl⟩ := append_inj_of_utf8ByteSize (s := "~&p") (t := "-|q") hs
      (Option.some.inj hposition)
    refine ⟨?_, fun f hf => (hformula f hf).1⟩
    rw [hbegins]
    decide
  · obtain ⟨front, rest, hs, hposition, -, hbegins, -⟩ := parsePolish_eq_error_parts htrailing
    obtain ⟨rfl, rfl⟩ := append_inj_of_utf8ByteSize (s := "->pq") (t := "r") hs
      (Option.some.inj hposition)
    rw [hbegins]
    decide

end Formula

end PropLogic

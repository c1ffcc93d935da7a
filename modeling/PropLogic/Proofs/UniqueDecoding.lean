import PropLogic.Proofs.PolishNotation

/-!
# A Polish text is the text of one formula

The reader of Polish notation knows only three of the seven connectives, so it says nothing of the
texts of other formulas.  They determine the formula all the same, for two reasons.  Only one token,
a name or the symbol of an operator, stands at the front of a text: no operator's symbol begins
another one or a name, and a name ends where no digit follows (`Token.append_inj`).  And the token
tells how many formulas belong to it.  Behind the first token of several formulas, written one after
the other, there are several formulas again, the operands of the first one and the others
(`Formula.polishAll_cons`); so the induction is about lists of formulas
(`Formula.polishAll_injective`).

Main statement: `Formula.polish_eq_polish_iff`.
-/

namespace PropLogic

open Var (EndsName endsName_nil)

/-! ## Names and symbols in front of a text -/

/-- A name in front of a text that ends it is known by its characters. -/
theorem Var.name_append_inj {v w : Var} {r r' : List Char} (hr : EndsName r) (hr' : EndsName r')
    (h : v.name.toList ++ r = w.name.toList ++ r') : v = w ∧ r = r' := by
  have hread := read?_name_append v hr
  rw [h, read?_name_append w hr'] at hread
  obtain ⟨rfl, rfl⟩ := Prod.mk.inj (Option.some.inj hread)
  exact ⟨rfl, rfl⟩

namespace Operator

/-- No operator's symbol begins another one. -/
theorem eq_of_symbol_begins {o o' : Operator} (h : o.symbol.toList <+: o'.symbol.toList) :
    o = o' := by
  have key : ∀ a ∈ all, ∀ b ∈ all, a.symbol.toList <+: b.symbol.toList → a = b := by decide
  exact key o o.mem_all o' o'.mem_all h

/-- An operator in front of a text is known by its symbol, whatever follows. -/
theorem symbol_append_inj {o o' : Operator} {r r' : List Char}
    (h : o.symbol.toList ++ r = o'.symbol.toList ++ r') : o = o' ∧ r = r' := by
  have hfront : o'.symbol.toList <+: o.symbol.toList ++ r := h ▸ List.prefix_append _ r'
  obtain rfl : o = o' := by
    rcases List.prefix_or_prefix_of_prefix (List.prefix_append _ r) hfront with hp | hp
    · exact eq_of_symbol_begins hp
    · exact (eq_of_symbol_begins hp).symm
  exact ⟨rfl, List.append_cancel_left h⟩

/-- A symbol does not begin with the letter of a name. -/
theorem exists_symbol_eq_cons (o : Operator) :
    ∃ (c : Char) (s : List Char), o.symbol.toList = c :: s ∧ isNameLetter c = false := by
  cases o with
  | const b => cases b <;> exact ⟨_, _, rfl, by decide⟩
  | not => exact ⟨_, _, rfl, by decide⟩
  | binary c => cases c <;> exact ⟨_, _, rfl, by decide⟩

theorem name_append_ne_symbol_append (v : Var) (o : Operator) (r r' : List Char) :
    v.name.toList ++ r ≠ o.symbol.toList ++ r' := by
  intro h
  obtain ⟨c, ds, hv, hc, -⟩ := v.exists_name_eq_cons
  obtain ⟨d, s, ho, hd⟩ := o.exists_symbol_eq_cons
  rw [hv, ho] at h
  obtain rfl : c = d := (List.cons.inj h).1
  rw [hc] at hd
  cases hd

end Operator

/-! ## Tokens -/

/-- What stands at the root of a formula: a name or an operator. -/
inductive Token where
  | name (v : Var)
  | operator (o : Operator)

namespace Token

/-- The written form of a token. -/
def text : Token → String
  | name v => v.name
  | operator o => o.symbol

/-- The number of formulas that belong to the token and follow it. -/
def arity : Token → Nat
  | name _ => 0
  | operator o => o.arity

/-- The token ends where this text begins. -/
def EndsBefore : Token → List Char → Prop
  | name _, r => EndsName r
  | operator _, _ => True

theorem endsBefore_of_endsName (x : Token) {r : List Char} (hr : EndsName r) :
    x.EndsBefore r := by
  cases x with
  | name v => exact hr
  | operator o => trivial

theorem text_ne_nil (x : Token) : x.text.toList ≠ [] := by
  cases x with
  | name v =>
    obtain ⟨c, ds, hv, -⟩ := v.exists_name_eq_cons
    exact hv ▸ List.cons_ne_nil c ds
  | operator o =>
    obtain ⟨c, s, ho, -⟩ := o.exists_symbol_eq_cons
    exact ho ▸ List.cons_ne_nil c s

/-- **Only one token stands at the front of a text.** -/
theorem append_inj {x y : Token} {r r' : List Char} (hx : x.EndsBefore r) (hy : y.EndsBefore r')
    (h : x.text.toList ++ r = y.text.toList ++ r') : x = y ∧ r = r' := by
  cases x with
  | name v =>
    cases y with
    | name w =>
      obtain ⟨rfl, rfl⟩ := Var.name_append_inj hx hy h
      exact ⟨rfl, rfl⟩
    | operator o => exact absurd h (Operator.name_append_ne_symbol_append v o r r')
  | operator o =>
    cases y with
    | name w => exact absurd h.symm (Operator.name_append_ne_symbol_append w o r' r)
    | operator o' =>
      obtain ⟨rfl, rfl⟩ := Operator.symbol_append_inj h
      exact ⟨rfl, rfl⟩

end Token

namespace Formula

/-! ## Root and operands -/

/-- What stands at the root of the formula. -/
def token : Formula → Token
  | .var v => .name v
  | .const b => .operator (.const b)
  | .not _ => .operator .not
  | .binary c _ _ => .operator (.binary c)

/-- The operands of the root, in order. -/
def operands : Formula → List Formula
  | .var _ => []
  | .const _ => []
  | .not f => [f]
  | .binary _ f g => [f, g]

theorem root_eq_text (f : Formula) : f.root = f.token.text := by
  cases f <;> rfl

theorem length_operands (f : Formula) : f.operands.length = f.token.arity := by
  cases f <;> rfl

theorem first?_eq_getElem? (f : Formula) : f.first? = f.operands[0]? := by
  cases f <;> rfl

theorem second?_eq_getElem? (f : Formula) : f.second? = f.operands[1]? := by
  cases f <;> rfl

/-- The root and the operands make up the formula. -/
theorem eq_of_token_of_operands {f g : Formula} (htoken : f.token = g.token)
    (hoperands : f.operands = g.operands) : f = g := by
  refine eq_of_root_of_operands ?_ ?_ ?_
  · rw [root_eq_text, root_eq_text, htoken]
  · rw [first?_eq_getElem?, first?_eq_getElem?, hoperands]
  · rw [second?_eq_getElem?, second?_eq_getElem?, hoperands]

/-- A token stands at the root of a formula with any operands, as many as belong to it. -/
theorem exists_token_operands {x : Token} {fs : List Formula} (h : fs.length = x.arity) :
    ∃ f : Formula, f.token = x ∧ f.operands = fs := by
  cases x with
  | name v =>
    obtain rfl := List.length_eq_zero_iff.mp h
    exact ⟨.var v, rfl, rfl⟩
  | operator o =>
    cases o with
    | const b =>
      obtain rfl := List.length_eq_zero_iff.mp h
      exact ⟨.const b, rfl, rfl⟩
    | not =>
      obtain ⟨f, rfl⟩ := List.length_eq_one_iff.mp h
      exact ⟨.not f, rfl, rfl⟩
    | binary c =>
      obtain ⟨f, r, rfl⟩ := List.exists_cons_of_length_eq_add_one h
      obtain ⟨g, rfl⟩ := List.length_eq_one_iff.mp (Nat.succ.inj h)
      exact ⟨.binary c f g, rfl, rfl⟩

/-! ## Formulas one after the other -/

/-- The characters of the Polish texts of several formulas, written one after the other. -/
def polishAll (fs : List Formula) : List Char :=
  fs.flatMap fun f => f.polish.toList

@[simp] theorem polishAll_nil : polishAll [] = [] := rfl

theorem polishAll_singleton (f : Formula) : polishAll [f] = f.polish.toList :=
  List.flatMap_singleton _ _

theorem polishAll_append (fs gs : List Formula) :
    polishAll (fs ++ gs) = polishAll fs ++ polishAll gs :=
  List.flatMap_append

theorem toList_join_map_polish (fs : List Formula) :
    (String.join (fs.map polish)).toList = polishAll fs := by
  rw [String.toList_join, List.flatMap_map]
  rfl

theorem toList_polish_eq_token_append (f : Formula) :
    f.polish.toList = f.token.text.toList ++ polishAll f.operands := by
  cases f <;> simp [polish, token, Token.text, operands, polishAll, Operator.symbol]

/-- **Behind the first token there are formulas again,** the operands first. -/
theorem polishAll_cons (f : Formula) (fs : List Formula) :
    polishAll (f :: fs) = f.token.text.toList ++ polishAll (f.operands ++ fs) := by
  rw [polishAll_append, ← List.append_assoc, ← toList_polish_eq_token_append]
  exact List.flatMap_cons

theorem endsName_polishAll (fs : List Formula) : EndsName (polishAll fs) := by
  cases fs with
  | nil => exact endsName_nil
  | cons f fs => exact f.endsName_polish_append (polishAll fs)

theorem polishAll_cons_ne_nil (f : Formula) (fs : List Formula) : polishAll (f :: fs) ≠ [] := by
  rw [polishAll_cons]
  exact List.append_ne_nil_of_left_ne_nil f.token.text_ne_nil _

/-- **Formulas one after the other can be told apart.** -/
theorem polishAll_injective : Function.Injective polishAll := by
  intro fs gs h
  -- the first token is taken off both texts, so the induction is on the length of the text
  induction hn : (polishAll fs).length using Nat.strongRecOn generalizing fs gs with
  | ind n ih =>
    cases fs with
    | nil =>
      cases gs with
      | nil => rfl
      | cons g gs => exact absurd h.symm (polishAll_cons_ne_nil g gs)
    | cons f fs =>
      cases gs with
      | nil => exact absurd h (polishAll_cons_ne_nil f fs)
      | cons g gs =>
        have hends (x : Token) (fs : List Formula) : x.EndsBefore (polishAll fs) :=
          x.endsBefore_of_endsName (endsName_polishAll fs)
        rw [polishAll_cons, polishAll_cons] at h
        obtain ⟨htoken, hrest⟩ := Token.append_inj (hends _ _) (hends _ _) h
        have hshorter : (polishAll (f.operands ++ fs)).length < n := by
          have hpos := List.length_pos_iff.mpr f.token.text_ne_nil
          rw [← hn, polishAll_cons, List.length_append]
          omega
        have hlength : f.operands.length = g.operands.length := by
          rw [length_operands, length_operands, htoken]
        obtain ⟨hoperands, rfl⟩ := List.append_inj (ih _ hshorter hrest rfl) hlength
        rw [eq_of_token_of_operands htoken hoperands]

theorem polish_injective : Function.Injective polish := by
  intro f g h
  refine List.singleton_inj.mp (polishAll_injective ?_)
  rw [polishAll_singleton, polishAll_singleton, h]

/-- **A Polish text is the text of one formula,** whichever operators occur in it.  Even the texts of
several formulas with nothing between them are those of these formulas only. -/
theorem polish_eq_polish_iff :
    (∀ f g : Formula, f.polish = g.polish ↔ f = g) ∧
    ∀ fs gs : List Formula,
      String.join (fs.map polish) = String.join (gs.map polish) ↔ fs = gs := by
  refine ⟨fun f g => polish_injective.eq_iff, fun fs gs => ?_⟩
  rw [← String.toList_inj, toList_join_map_polish, toList_join_map_polish]
  exact polishAll_injective.eq_iff

end Formula

end PropLogic

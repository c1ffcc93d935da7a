import PropLogic.Proofs.VariableSubstitution

/-!
# Substitutions one after the other

What a substitution does to a formula is told by the images of the variables that occur
(`Formula.substitute_congr`).  Two substitutions in a row therefore come to one: the image of a
variable under `Substitution.andThen` is what the second makes of its image under the first
(`Substitution.image_andThen`).  Both being simultaneous, this needs no condition on the variables
that the images bring in: one that the second replaces may be a key of the first, too, or stand in
its formulas, or both.

Main statements: `Formula.substitute_substitute`, and for lists of entries
`Formula.substituteVariables_andThenEntries`, with the entries that change nothing.
-/

namespace PropLogic

section Entries

variable {κ α β : Type} [BEq κ]

/-- Entries with the same keys and changed values are looked up by changing what is found. -/
theorem lookup_map_entries (g : α → β) (es : List (κ × α)) (k : κ) :
    (es.map fun e => (e.1, g e.2)).lookup k = (es.lookup k).map g := by
  induction es with
  | nil => rfl
  | cons e es ih =>
    rw [List.map_cons, List.lookup_cons, List.lookup_cons, ih]
    cases k == e.1 <;> rfl

/-- A key is found among the entries with certain keys as it is among all, if it is one of these. -/
theorem lookup_filter_entries [LawfulBEq κ] {P : κ → Bool} {k : κ} (hk : P k = true)
    (es : List (κ × α)) : (es.filter fun e => P e.1).lookup k = es.lookup k := by
  induction es with
  | nil => rfl
  | cons e es ih =>
    rw [List.filter_cons, List.lookup_cons]
    cases he : k == e.1 with
    | true =>
      obtain rfl := eq_of_beq he
      rw [if_pos hk, List.lookup_cons, he]
    | false =>
      split
      · rw [List.lookup_cons, he, ih]
      · exact ih

/-- Exactly the keys of the entries are found. -/
theorem isSome_lookup_iff [LawfulBEq κ] {es : List (κ × α)} {k : κ} :
    (es.lookup k).isSome = true ↔ k ∈ es.map Prod.fst := by
  induction es with
  | nil => simp
  | cons e es ih =>
    rw [List.lookup_cons, List.map_cons, List.mem_cons, ← ih]
    cases hk : k == e.1 with
    | true => simp [eq_of_beq hk]
    | false => simp [ne_of_beq_false hk]

/-- Every entry is found if no two have the same key. -/
theorem lookup_eq_some_of_mem [LawfulBEq κ] {es : List (κ × α)} (hkeys : (es.map Prod.fst).Nodup)
    {k : κ} {a : α} (h : (k, a) ∈ es) : es.lookup k = some a := by
  obtain ⟨l₁, l₂, rfl⟩ := List.append_of_mem h
  refine List.lookup_eq_some_iff.mpr ⟨l₁, l₂, rfl, fun e he => ?_⟩
  rw [List.map_append, List.nodup_append] at hkeys
  have hne := hkeys.2.2 e.1 (List.mem_map_of_mem he) k List.mem_cons_self
  exact bne_iff_ne.mpr hne.symm

/-- Entries changed and put in front of those with other keys: what is found among the former is
changed, and only what is not found there is looked up among the latter. -/
theorem lookup_map_append_filter [LawfulBEq κ] (g : α → α) (es ts : List (κ × α)) (k : κ) :
    ((es.map fun e => (e.1, g e.2)) ++ ts.filter fun e => (es.lookup e.1).isNone).lookup k =
      ((es.lookup k).map g).or (ts.lookup k) := by
  rw [List.lookup_append, lookup_map_entries]
  cases hk : es.lookup k with
  | some a => rfl
  | none => rw [lookup_filter_entries (P := fun k => (es.lookup k).isNone) (by rw [hk]; rfl)]

end Entries

namespace Formula

variable {σ τ : Substitution} {f : Formula}

/-- Substitutions with the same images for the variables that occur have the same result. -/
theorem substitute_congr (h : ∀ v ∈ f.occurrences, σ.image v = τ.image v) :
    f.substitute σ = f.substitute τ := by
  induction f with
  | var v =>
    rw [substitute_var, substitute_var]
    exact h v (List.mem_singleton_self v)
  | const b => rw [substitute_const, substitute_const]
  | not f ih => rw [substitute_not, substitute_not, ih h]
  | binary c f g ihf ihg =>
    have hf := ihf fun v hv => h v (List.mem_append_left _ hv)
    have hg := ihg fun v hv => h v (List.mem_append_right _ hv)
    rw [substitute_binary, substitute_binary, hf, hg]

/-- A formula without variables of the substitution stays as it is. -/
theorem substitute_eq_self (h : ∀ v ∈ f.occurrences, σ v = none) : f.substitute σ = f := by
  rw [substitute_eq_substituteFully]
  refine substituteFully_eq_self ?_
  rw [anyVariable_eq, List.any_eq_false]
  intro v hv
  simp [Substitution.has, h v (mem_vars.mp hv)]

/-- Nor does a formula change whose variables become themselves. -/
theorem substitute_eq_self_of_image (h : ∀ v ∈ f.occurrences, σ.image v = .var v) :
    f.substitute σ = f := by
  have hnone : f.substitute σ = f.substitute fun _ => none := substitute_congr h
  rw [hnone, substitute_eq_self fun _ _ => rfl]

end Formula

namespace Substitution

/-- The substitution that does what the two do, the first before the second. -/
def andThen (σ τ : Substitution) : Substitution := fun v =>
  ((σ v).map (·.substitute τ)).or (τ v)

theorem image_andThen (σ τ : Substitution) (v : Var) :
    (σ.andThen τ).image v = (σ.image v).substitute τ := by
  unfold image andThen
  cases σ v with
  | some g => rfl
  | none => exact (Formula.substitute_var τ v).symm

end Substitution

namespace Formula

/-- **Two substitutions in a row are one.** -/
theorem substitute_substitute (σ τ : Substitution) (f : Formula) :
    (f.substitute σ).substitute τ = f.substitute (σ.andThen τ) := by
  induction f with
  | var v =>
    rw [substitute_var, substitute_var]
    exact (σ.image_andThen τ v).symm
  | const b => rw [substitute_const, substitute_const, substitute_const]
  | not f ih => rw [substitute_not, substitute_not, substitute_not, ih]
  | binary c f g ihf ihg =>
    rw [substitute_binary, substitute_binary, substitute_binary, ihf, ihg]

end Formula

/-! ## Entries -/

namespace Substitution

open Formula

/-- The entries that do what the two lists do, the first before the second: the formulas of the first
list with the variables of the second replaced, and the entries of the second for variables that
have none in the first. -/
def andThenEntries (es ts : List (String × Formula)) : Except Fault (List (String × Formula)) := do
  let rs ← es.mapM fun e => do return (e.1, ← e.2.substituteVariables ts)
  return rs ++ ts.filter fun e => (es.lookup e.1).isNone

variable {es ts : List (String × Formula)}

theorem andThenEntries_eq_ok (es : List (String × Formula))
    (hts : ∀ e ∈ ts, isVariableName e.1 = true) :
    andThenEntries es ts = .ok ((es.map fun e => (e.1, e.2.substitute (.ofLookup ts))) ++
      ts.filter fun e => (es.lookup e.1).isNone) := by
  have hmap : es.mapM (fun e => do return (e.1, ← e.2.substituteVariables ts)) =
      .ok (es.map fun e => (e.1, e.2.substitute (.ofLookup ts))) := by
    simp only [substituteVariables_eq_ok _ hts]
    exact List.mapM_pure
  rw [andThenEntries, hmap]
  rfl

/-- Looking up the variables of entries that do what two lists do. -/
theorem ofLookup_andThenEntries (es ts : List (String × Formula)) :
    ofLookup ((es.map fun e => (e.1, e.2.substitute (.ofLookup ts))) ++
      ts.filter fun e => (es.lookup e.1).isNone) = (ofLookup es).andThen (ofLookup ts) := by
  funext v
  exact lookup_map_append_filter (·.substitute (.ofLookup ts)) es ts v.name

/-- An entry that gives a variable to its own name leaves it as it is. -/
theorem image_ofLookup_of_own (hes : ∀ e ∈ es, ∃ v : Var, e = (v.name, .var v)) (v : Var) :
    (ofLookup es).image v = .var v := by
  rw [image, ofLookup]
  cases hv : es.lookup v.name with
  | none => rfl
  | some g =>
    obtain ⟨l₁, l₂, rfl, -⟩ := List.lookup_eq_some_iff.mp hv
    obtain ⟨w, hw⟩ := hes (v.name, g) (List.mem_append_right _ List.mem_cons_self)
    obtain ⟨hname, rfl⟩ := Prod.mk.inj hw
    obtain rfl := Var.ext hname
    rfl

end Substitution

namespace Formula

open Substitution

/-- **Variable substitutions compose.**  Two lists of entries with variable names as keys, whatever
keys they share and whatever variables their formulas mention, come to a single list: it maps each
key of the first to its formula with the second applied, and each key that only the second has to
its formula there.  Applying it to any formula gives what the two give one after the other.  Entries
that give every variable to its own name change no formula, nor does the empty list. -/
theorem substituteVariables_andThenEntries :
    (∀ es ts : List (String × Formula), (∀ e ∈ es, isVariableName e.1 = true) →
      (∀ e ∈ ts, isVariableName e.1 = true) →
        ∃ rs, andThenEntries es ts = .ok rs ∧
          (∀ s g, es.lookup s = some g →
            ∃ h, g.substituteVariables ts = .ok h ∧ rs.lookup s = some h) ∧
          (∀ s, es.lookup s = none → rs.lookup s = ts.lookup s) ∧
          ∀ f : Formula, ∃ g h, f.substituteVariables es = .ok g ∧
            g.substituteVariables ts = .ok h ∧ f.substituteVariables rs = .ok h) ∧
    ∀ es : List (String × Formula), (∀ e ∈ es, ∃ v : Var, e = (v.name, .var v)) →
      ∀ f : Formula, f.substituteVariables es = .ok f := by
  constructor
  · intro es ts hes hts
    obtain ⟨rs, hrs⟩ : ∃ rs, rs = (es.map fun e => (e.1, e.2.substitute (.ofLookup ts))) ++
        ts.filter fun e => (es.lookup e.1).isNone := ⟨_, rfl⟩
    have hlookup : ∀ s, rs.lookup s =
        ((es.lookup s).map (·.substitute (.ofLookup ts))).or (ts.lookup s) := fun s =>
      hrs ▸ lookup_map_append_filter (·.substitute (.ofLookup ts)) es ts s
    have hvalid : ∀ e ∈ rs, isVariableName e.1 = true := by
      intro e he
      rw [hrs, List.mem_append, List.mem_map] at he
      rcases he with ⟨e', he', rfl⟩ | he
      · exact hes e' he'
      · exact hts e (List.mem_filter.mp he).1
    refine ⟨rs, hrs ▸ andThenEntries_eq_ok es hts, fun s g hs => ?_, fun s hs => ?_, fun f => ?_⟩
    · refine ⟨_, substituteVariables_eq_ok g hts, ?_⟩
      rw [hlookup, hs]
      rfl
    · rw [hlookup, hs]
      rfl
    · refine ⟨_, _, substituteVariables_eq_ok f hes, substituteVariables_eq_ok _ hts, ?_⟩
      rw [substituteVariables_eq_ok f hvalid, hrs, ofLookup_andThenEntries, substitute_substitute]
  · intro es hes f
    have hvalid : ∀ e ∈ es, isVariableName e.1 = true := fun e he => by
      obtain ⟨v, rfl⟩ := hes e he
      exact v.isName
    rw [substituteVariables_eq_ok f hvalid,
      substitute_eq_self_of_image fun v _ => image_ofLookup_of_own hes v]

/-- The first list makes `q` of `p`, which the second takes away again; the `p` that the second makes
of `q` is not replaced any more.  The key `q` is in both. -/
theorem substituteVariables_andThenEntries_overlapping :
    (∀ e ∈ [("p", var .q), ("q", not (var .p))], isVariableName e.1 = true) ∧
      (∀ e ∈ [("q", and (var .p) (var .q)), ("r", const true)], isVariableName e.1 = true) ∧
      andThenEntries [("p", var .q), ("q", not (var .p))]
          [("q", and (var .p) (var .q)), ("r", const true)] =
        .ok [("p", and (var .p) (var .q)), ("q", not (var .p)), ("r", const true)] ∧
      (implies (var .p) (var .q)).substituteVariables [("p", var .q), ("q", not (var .p))] =
        .ok (implies (var .q) (not (var .p))) ∧
      (implies (var .q) (not (var .p))).substituteVariables
          [("q", and (var .p) (var .q)), ("r", const true)] =
        .ok (implies (and (var .p) (var .q)) (not (var .p))) ∧
      (implies (var .p) (var .q)).substituteVariables
          [("p", and (var .p) (var .q)), ("q", not (var .p)), ("r", const true)] =
        .ok (implies (and (var .p) (var .q)) (not (var .p))) ∧
      (∀ e ∈ [("q", var .q), ("p", var .p)], ∃ v : Var, e = (v.name, .var v)) ∧
      (implies (var .p) (var .q)).substituteVariables [("q", var .q), ("p", var .p)] =
        .ok (implies (var .p) (var .q)) := by
  obtain ⟨hcompose, hown⟩ := substituteVariables_andThenEntries
  have hes : ∀ e ∈ [("p", var .q), ("q", not (var .p))], isVariableName e.1 = true := by decide
  have hts : ∀ e ∈ [("q", and (var .p) (var .q)), ("r", const true)],
      isVariableName e.1 = true := by decide
  have hsame : ∀ e ∈ [("q", var .q), ("p", var .p)], ∃ v : Var, e = (v.name, .var v) := by
    intro e he
    simp only [List.mem_cons, List.not_mem_nil, or_false] at he
    rcases he with rfl | rfl
    · exact ⟨.q, rfl⟩
    · exact ⟨.p, rfl⟩
  obtain ⟨rs, hrs, -, -, hboth⟩ := hcompose _ _ hes hts
  obtain ⟨g, h, hg, hh, hfused⟩ := hboth (implies (var .p) (var .q))
  obtain rfl := Except.ok.inj (hrs.symm.trans rfl)
  obtain rfl := Except.ok.inj (hg.symm.trans rfl)
  obtain rfl := Except.ok.inj (hh.symm.trans rfl)
  exact ⟨hes, hts, hrs, hg, hh, hfused, hsame, hown _ hsame _⟩

end Formula

end PropLogic

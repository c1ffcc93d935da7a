import PropLogic.Proofs.RuleSoundness

/-!
# Structural rules of soundness

How soundness depends on the assumptions of a rule: an assumption may be moved into the conclusion
(`Rule.sound_append_singleton_iff`), assumptions may be added, repeated and put in another order
(`Rule.Sound.mono`), and one that follows from the others may be left out (`Rule.Sound.cut`).  Each
of these relates rules over different variables, whose checks look at different rows.  Soundness is
said of valuations of all variables, which all rules have in common, and the checks agree because
they decide soundness.

Main statement: `Rule.isSound_structural`.
-/

namespace PropLogic

namespace Rule

variable {as bs : List Formula} {b c : Formula}

/-! ## Soundness -/

/-- **An assumption may be moved into the conclusion,** and back. -/
theorem sound_append_singleton_iff :
    (Rule.mk (as ++ [b]) c).Sound ↔ (Rule.mk as (b.implies c)).Sound := by
  refine forall_congr' fun ρ => ?_
  have himplies : (b.implies c).eval ρ = true ↔ (b.eval ρ = true → c.eval ρ = true) := by
    rw [Formula.eval, Connective.apply, Bool.or_eq_true, Bool.not_eq_true', ← Bool.not_eq_true,
      imp_iff_not_or]
  rw [himplies, List.forall_mem_append, List.forall_mem_singleton, and_imp]

/-- **More assumptions do not hurt.** -/
theorem Sound.mono (h : (Rule.mk as c).Sound) (hsub : ∀ a ∈ as, a ∈ bs) : (Rule.mk bs c).Sound :=
  fun ρ hbs => h ρ fun a ha => hbs a (hsub a ha)

/-- **An assumption that follows from the others may be left out.** -/
theorem Sound.cut (hb : (Rule.mk as b).Sound) (hc : (Rule.mk (as ++ [b]) c).Sound) :
    (Rule.mk as c).Sound := by
  intro ρ has
  refine hc ρ (List.forall_mem_append.mpr ⟨has, ?_⟩)
  rw [List.forall_mem_singleton]
  exact hb ρ has

/-! ## Variables -/

/-- A rule with no other variables than a second one has no more than it. -/
theorem length_vars_lt {n : Nat} {r r' : Rule} (h : ∀ v ∈ r'.vars, v ∈ r.vars)
    (few : r.vars.length < n) : r'.vars.length < n :=
  Nat.lt_of_le_of_lt (length_ascending_le_of_subset fun v hv => h v (mem_ascending.mpr hv)) few

/-! ## Checks -/

/-- **The structural rules of soundness.**  Let all formulas together have fewer than 64 variables.
Moving the last assumption into the conclusion does not change the answer of the check, nor does
listing the same assumptions in another order or another number of times.  A rule that is sound
stays so with more assumptions, and without its last one if this follows from the others, whatever
variables it has for itself. -/
theorem isSound_structural (as bs : List Formula) (b c : Formula)
    (few : (Rule.mk (as ++ bs ++ [b]) c).vars.length < 64) :
    (∃ x, (Rule.mk (as ++ [b]) c).isSound = .ok x ∧ (Rule.mk as (b.implies c)).isSound = .ok x) ∧
    ((∀ a, a ∈ as ↔ a ∈ bs) →
      ∃ x, (Rule.mk as c).isSound = .ok x ∧ (Rule.mk bs c).isSound = .ok x) ∧
    ((Rule.mk as c).isSound = .ok true → (Rule.mk (as ++ bs) c).isSound = .ok true) ∧
    ((Rule.mk as b).isSound = .ok true → (Rule.mk (as ++ [b]) c).isSound = .ok true →
      (Rule.mk as c).isSound = .ok true) := by
  -- no rule has a variable that is in none of the formulas
  have hfew : ∀ {as' : List Formula} {c' : Formula}, (∀ a ∈ as', a ∈ as ++ bs ++ [b]) →
      (∀ v ∈ c'.occurrences, v ∈ b.occurrences ∨ v ∈ c.occurrences) →
        (Rule.mk as' c').vars.length < 64 := fun has hc => length_vars_lt (fun v hv => by
    rcases mem_vars.mp hv with ⟨a, ha, hv⟩ | hv
    · exact mem_vars.mpr (.inl ⟨a, has a ha, hv⟩)
    · rcases hc v hv with hv | hv
      · exact mem_vars.mpr (.inl ⟨b, by simp, hv⟩)
      · exact mem_vars.mpr (.inr hv)) few
  have hconclusion : (Rule.mk as c).vars.length < 64 := hfew (by simp +contextual) fun _ => .inr
  have hadded : (Rule.mk (as ++ [b]) c).vars.length < 64 :=
    hfew (by simp +contextual [or_imp]) fun _ => .inr
  refine ⟨?_, fun hmem => ?_, fun h => ?_, fun hb hc => ?_⟩
  · have hmoved : (Rule.mk as (b.implies c)).vars.length < 64 :=
      hfew (by simp +contextual) fun v => List.mem_append.mp
    exact exists_isSound_eq_ok hadded hmoved sound_append_singleton_iff
  · have hlisted : (Rule.mk bs c).vars.length < 64 := hfew (by simp +contextual) fun _ => .inr
    exact exists_isSound_eq_ok hconclusion hlisted
      ⟨fun h => h.mono fun a => (hmem a).mp, fun h => h.mono fun a => (hmem a).mpr⟩
  · have hmore : (Rule.mk (as ++ bs) c).vars.length < 64 :=
      hfew (by simp +contextual [or_imp]) fun _ => .inr
    rw [isSound_eq_ok_true_iff hconclusion] at h
    exact (isSound_eq_ok_true_iff hmore).mpr (h.mono fun a ha => List.mem_append_left _ ha)
  · have hlemma : (Rule.mk as b).vars.length < 64 := hfew (by simp +contextual) fun _ => .inl
    rw [isSound_eq_ok_true_iff hlemma] at hb
    rw [isSound_eq_ok_true_iff hadded] at hc
    exact (isSound_eq_ok_true_iff hconclusion).mpr (hb.cut hc)

/-- From `~~p` and `T` follows `(p|q)`, and with it `p`, while neither they nor `p` mention `q`; so
`p` follows from the two alone, also if `T` is listed twice and first.  It does not follow from `T`
and `(p|q)`, nor `((p|q)->p)` from `T`. -/
theorem isSound_structural_detour :
    (Rule.mk [.not (.not (.var .p)), .const true, .const true, .not (.not (.var .p)), .const true,
      .or (.var .p) (.var .q)] (.var .p)).vars.length < 64 ∧
    (∀ a, a ∈ [Formula.not (.not (.var .p)), .const true] ↔
      a ∈ [Formula.const true, .not (.not (.var .p)), .const true]) ∧
    (Rule.mk [.not (.not (.var .p)), .const true] (.or (.var .p) (.var .q))).isSound = .ok true ∧
    (Rule.mk [.not (.not (.var .p)), .const true, .or (.var .p) (.var .q)]
      (.var .p)).isSound = .ok true ∧
    (Rule.mk [.not (.not (.var .p)), .const true] (.var .p)).isSound = .ok true ∧
    (Rule.mk [.const true, .not (.not (.var .p)), .const true] (.var .p)).isSound = .ok true ∧
    (Rule.mk [.not (.not (.var .p)), .const true, .const true, .not (.not (.var .p)), .const true]
      (.var .p)).isSound = .ok true ∧
    (Rule.mk [.not (.not (.var .p)), .const true]
      (.implies (.or (.var .p) (.var .q)) (.var .p))).isSound = .ok true ∧
    (Rule.mk [.const true, .or (.var .p) (.var .q)] (.var .p)).isSound = .ok false ∧
    (Rule.mk [.const true] (.implies (.or (.var .p) (.var .q)) (.var .p))).isSound =
      .ok false := by
  have few : (Rule.mk [.not (.not (.var .p)), .const true, .const true, .not (.not (.var .p)),
      .const true, .or (.var .p) (.var .q)] (.var .p)).vars.length < 64 :=
    length_vars_lt_of_occurrences (by decide)
  have hlisted : ∀ a, a ∈ [Formula.not (.not (.var .p)), .const true] ↔
      a ∈ [Formula.const true, .not (.not (.var .p)), .const true] := fun a => by
    simp [or_comm]
  have hb : (Rule.mk [.not (.not (.var .p)), .const true]
      (.or (.var .p) (.var .q))).isSound = .ok true :=
    (isSound_eq_ok_true_iff (length_vars_lt_of_occurrences (by decide))).mpr
      fun ρ => by simp +contextual [Formula.eval, Connective.apply]
  have hc : (Rule.mk [.not (.not (.var .p)), .const true, .or (.var .p) (.var .q)]
      (.var .p)).isSound = .ok true :=
    (isSound_eq_ok_true_iff (length_vars_lt_of_occurrences (by decide))).mpr
      fun ρ => by simp +contextual [Formula.eval, Connective.apply]
  have hunsound : (Rule.mk [.const true, .or (.var .p) (.var .q)] (.var .p)).isSound = .ok false :=
    (isSound_eq_ok_false_iff (length_vars_lt_of_occurrences (by decide))).mpr fun h =>
      absurd (h (· == .q)) (by decide)
  obtain ⟨⟨x, hx, hmoved⟩, hset, hmore, hcut⟩ :=
    isSound_structural [.not (.not (.var .p)), .const true]
      [.const true, .not (.not (.var .p)), .const true] (.or (.var .p) (.var .q)) (.var .p) few
  have hsound := hcut hb hc
  obtain rfl : x = true := Except.ok.inj (hx.symm.trans hc)
  obtain ⟨y, hy, hrepeated⟩ := hset hlisted
  obtain rfl : y = true := Except.ok.inj (hy.symm.trans hsound)
  obtain ⟨⟨z, hz, hmoved'⟩, -⟩ := isSound_structural [.const true] [] (.or (.var .p) (.var .q))
    (.var .p) (length_vars_lt_of_occurrences (by decide))
  obtain rfl : z = false := Except.ok.inj (hz.symm.trans hunsound)
  exact ⟨few, hlisted, hb, hc, hsound, hrepeated, hmore hsound, hmoved, hunsound, hmoved'⟩

end Rule

end PropLogic

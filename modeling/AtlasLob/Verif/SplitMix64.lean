import AtlasLob.Core.SplitMix64

/-!
# Draws are total and without bias

The mixing of a state into a value loses nothing and the stride is odd, so that a full cycle of
draws meets every word exactly once. A draw below a bound therefore ends, and over the cycle it
accepts each residue equally often.
-/

namespace AtlasLob.SplitMix64

/-- An odd constant shares no factor with the number of words. -/
theorem coprime_of_odd {factor : UInt64} (odd : factor.toNat % 2 = 1) :
    Nat.Coprime (2 ^ 64) factor.toNat :=
  Nat.Coprime.pow_left 64 (Nat.coprime_two_left.mpr (Nat.odd_iff.mpr odd))

/-- The mixing of a state determines the state. -/
theorem mix_injective : Function.Injective mix := by
  have first : Function.Injective fun word : UInt64 => word * 0xBF58476D1CE4E5B9 :=
    Mixing.mulOdd_injective (coprime_of_odd (by decide))
  have second : Function.Injective fun word : UInt64 => word * 0x94D049BB133111EB :=
    Mixing.mulOdd_injective (coprime_of_odd (by decide))
  have down30 := Mixing.xorShift_injective 30 (by decide)
  have down27 := Mixing.xorShift_injective 27 (by decide)
  have down31 := Mixing.xorShift_injective 31 (by decide)
  exact down31.comp (second.comp (down27.comp (first.comp down30)))

/-- The state after a number of draws is that many strides away. -/
theorem after_state (generator : SplitMix64) (draws : Nat) :
    (generator.after draws).state = Mixing.stride generator.state gamma draws := by
  induction draws with
  | zero =>
    show generator.state = generator.state + UInt64.ofNat 0 * gamma
    rw [show UInt64.ofNat 0 = 0 from rfl, UInt64.zero_mul, UInt64.add_zero]
  | succ draws ih =>
    show (generator.after draws).state + gamma = _
    rw [ih]
    unfold Mixing.stride
    rw [UInt64.ofNat_add, UInt64.add_mul, UInt64.add_assoc]
    rfl

/-- The states of a full cycle are different. -/
theorem after_injective (generator : SplitMix64) {first second : Nat} (firstBelow : first < 2 ^ 64)
    (secondBelow : second < 2 ^ 64) (same : generator.after first = generator.after second) :
    first = second := by
  have states := congrArg state same
  rw [after_state, after_state] at states
  exact Mixing.stride_injective (coprime_of_odd (by decide)) firstBelow secondBelow states

/-- The states after the next one. -/
theorem after_next (generator : SplitMix64) (index : Nat) :
    generator.nextU64.2.after index = generator.after (index + 1) := by
  induction index with
  | zero => simp only [after]
  | succ index ih =>
    unfold after
    rw [ih]

/-- A draw after the first is a draw of the next state. -/
theorem draw_next (generator : SplitMix64) (index : Nat) :
    generator.nextU64.2.draw index = generator.draw (index + 1) := by
  unfold draw
  rw [after_next]

/-- The next state determines the state. -/
theorem nextU64_injective {first second : SplitMix64}
    (same : first.nextU64.2 = second.nextU64.2) : first = second :=
  congrArg SplitMix64.mk ((UInt64.add_left_inj gamma).mp (congrArg state same))

/-- A draw mixes the state it moves on to. -/
theorem draw_eq_mix (generator : SplitMix64) (index : Nat) :
    generator.draw index = mix ((generator.after index).state + gamma) := by
  unfold draw nextU64
  rfl

/-- The values of a full cycle are different. -/
theorem draw_injective (generator : SplitMix64) (first : Nat) (firstBelow : first < 2 ^ 64)
    (second : Nat) (secondBelow : second < 2 ^ 64)
    (same : generator.draw first = generator.draw second) : first = second := by
  rw [draw_eq_mix, draw_eq_mix] at same
  have states := (UInt64.add_left_inj gamma).mp (mix_injective same)
  exact generator.after_injective firstBelow secondBelow (congrArg SplitMix64.mk states)

/-- The accepted values are a multiple of the bound. -/
theorem acceptLimit_dvd (bound : Nat) : bound ∣ acceptLimit bound :=
  Nat.dvd_sub_mod _

/-- The accepted values are words. -/
theorem acceptLimit_le (bound : Nat) : acceptLimit bound ≤ 2 ^ 64 := by
  unfold acceptLimit
  exact Nat.sub_le _ _

/-- How often each residue is accepted. -/
theorem acceptLimit_div (bound : Nat) : acceptLimit bound / bound = 2 ^ 64 / bound := by
  unfold acceptLimit
  rcases Nat.eq_zero_or_pos bound with none | positive
  · rw [none, Nat.div_zero, Nat.div_zero]
  · have split := Nat.div_add_mod (2 ^ 64) bound
    rw [show 2 ^ 64 - 2 ^ 64 % bound = bound * (2 ^ 64 / bound) by omega,
      Nat.mul_div_cancel_left _ positive]

/-- Some value is accepted. -/
theorem acceptLimit_pos {bound : Nat} (lower : 1 ≤ bound) (upper : bound ≤ 2 ^ 64) :
    0 < acceptLimit bound := by
  have small : 2 ^ 64 % bound < bound := Nat.mod_lt _ lower
  unfold acceptLimit
  omega

/-- The first draw that is accepted below a bound. -/
structure FirstAccepted (generator : SplitMix64) (bound index : Nat) : Prop where
  /-- The draw is below the last multiple of the bound. -/
  accepted : (generator.draw index).toNat < acceptLimit bound
  /-- Every draw before it is not. -/
  refused : ∀ earlier < index, acceptLimit bound ≤ (generator.draw earlier).toNat

/-- A cycle accepts some draw. -/
theorem firstAccepted_exists {bound : Nat} (lower : 1 ≤ bound) (upper : bound ≤ 2 ^ 64)
    (generator : SplitMix64) : ∃ index < 2 ^ 64, generator.FirstAccepted bound index := by
  have count := Mixing.accepted_count generator.draw_injective (acceptLimit_le bound)
    (acceptLimit_dvd bound) (show 0 < bound from lower)
  have some : 0 < acceptLimit bound / bound :=
    Nat.div_pos (Nat.le_of_dvd (acceptLimit_pos lower upper) (acceptLimit_dvd bound)) lower
  rw [← count] at some
  obtain ⟨found, member⟩ := Finset.card_pos.mp some
  rw [Finset.mem_filter, Finset.mem_range] at member
  have accepts : ∃ index, (generator.draw index).toNat < acceptLimit bound :=
    ⟨found, member.2.1⟩
  refine ⟨Nat.find accepts, ?_, Nat.find_spec accepts, ?_⟩
  · exact Nat.lt_of_le_of_lt (Nat.find_min' accepts member.2.1) member.1
  · intro earlier before
    exact Nat.le_of_not_lt (Nat.find_min accepts before)

/-- A number of draws ends the loop with the first of them that is accepted. -/
theorem randbelowLoop_first {bound index draws : Nat} {generator : SplitMix64}
    (inside : index < draws) (first : generator.FirstAccepted bound index) :
    randbelowLoop bound draws generator =
      .ok ((generator.draw index).toNat % bound, generator.after (index + 1)) := by
  induction draws generalizing generator index with
  | zero => omega
  | succ draws ih =>
    unfold randbelowLoop
    cases index with
    | zero => exact if_pos first.accepted
    | succ index =>
      have skipped : ¬generator.nextU64.1.toNat < acceptLimit bound :=
        Nat.not_lt.mpr (first.refused 0 (Nat.succ_pos index))
      have later : generator.nextU64.2.FirstAccepted bound index := by
        constructor
        · rw [draw_next]
          exact first.accepted
        · intro earlier before
          rw [draw_next]
          exact first.refused (earlier + 1) (Nat.succ_lt_succ before)
      have ended := ih (by omega) later
      rw [draw_next, after_next] at ended
      exact (if_neg skipped).trans ended

/-- A draw below an admissible bound returns the residue of the first accepted draw, with the
state after it. -/
theorem randbelow_first {bound index : Nat} (lower : 1 ≤ bound) (upper : bound ≤ 2 ^ 64)
    {generator : SplitMix64} (inside : index < 2 ^ 64)
    (first : generator.FirstAccepted bound index) :
    generator.randbelow bound =
      .ok ((generator.draw index).toNat % bound, generator.after (index + 1)) := by
  have within : index < cycle := by
    rw [cycle]
    exact inside
  unfold randbelow
  rw [requireInt_ok (by omega) (by omega), pythonOk_bind, randbelowLoop_first within first]

/-- A state returns a residue with its own next draw exactly when that draw is accepted and has
the residue. -/
theorem randbelow_next_iff {bound residue : Nat} (lower : 1 ≤ bound) (upper : bound ≤ 2 ^ 64)
    (generator : SplitMix64) :
    generator.randbelow bound = .ok (residue, generator.nextU64.2) ↔
      (generator.draw 0).toNat < acceptLimit bound ∧
        (generator.draw 0).toNat % bound = residue := by
  constructor
  · intro returned
    obtain ⟨index, inside, first⟩ := firstAccepted_exists lower upper generator
    rw [randbelow_first lower upper inside first] at returned
    obtain ⟨same, stopped⟩ := Prod.mk.inj (Except.ok.inj returned)
    -- The state returned is the next one only if no draw was refused.
    have start : generator.after index = generator.after 0 := nextU64_injective stopped
    have none : index = 0 := generator.after_injective inside (by omega) start
    rw [none] at first same
    exact ⟨first.accepted, same⟩
  · rintro ⟨accepted, rfl⟩
    have first : generator.FirstAccepted bound 0 :=
      ⟨accepted, fun earlier before => absurd before (Nat.not_lt_zero earlier)⟩
    exact randbelow_first lower upper (by omega) first

/-- Every draw below a bound from one to the number of words ends: it returns the residue of the
first accepted draw, which is below the bound, with the state after it. The states of a full
cycle are all different, and over the cycle every residue is accepted equally often, and as often
returned by the state whose own draw is accepted. -/
theorem randbelow_uniform (generator : SplitMix64) (bound : Nat) (lower : 1 ≤ bound)
    (upper : bound ≤ 2 ^ 64) :
    (∃ index < 2 ^ 64, generator.FirstAccepted bound index ∧
      generator.randbelow bound =
        .ok ((generator.draw index).toNat % bound, generator.after (index + 1)) ∧
      (generator.draw index).toNat % bound < bound) ∧
    (∀ first < 2 ^ 64, ∀ second < 2 ^ 64,
      generator.after first = generator.after second → first = second) ∧
    ∀ residue < bound,
      ((Finset.range (2 ^ 64)).filter fun index =>
        (generator.draw index).toNat < acceptLimit bound ∧
          (generator.draw index).toNat % bound = residue).card = 2 ^ 64 / bound ∧
      ((Finset.range (2 ^ 64)).filter fun index =>
        (generator.after index).randbelow bound =
          .ok (residue, generator.after (index + 1))).card = 2 ^ 64 / bound := by
  refine ⟨?_, ?_, ?_⟩
  · obtain ⟨index, inside, first⟩ := firstAccepted_exists lower upper generator
    exact ⟨index, inside, first, randbelow_first lower upper inside first, Nat.mod_lt _ lower⟩
  · intro first firstBelow second secondBelow same
    exact generator.after_injective firstBelow secondBelow same
  · intro residue below
    have accepted := Mixing.accepted_count generator.draw_injective (acceptLimit_le bound)
      (acceptLimit_dvd bound) below
    rw [acceptLimit_div bound] at accepted
    have returned : ∀ index ∈ Finset.range (2 ^ 64),
        (generator.after index).randbelow bound = .ok (residue, generator.after (index + 1)) ↔
          (generator.draw index).toNat < acceptLimit bound ∧
            (generator.draw index).toNat % bound = residue := by
      intro index _
      exact randbelow_next_iff lower upper (generator.after index)
    refine ⟨accepted, ?_⟩
    rw [Finset.filter_congr returned]
    exact accepted

/-- Below the first bound above half of the words, the generator of seed zero refuses its first
draw and returns its second, and every residue is accepted once in the cycle. -/
theorem randbelow_uniform_refused :
    (⟨0⟩ : SplitMix64).randbelow (2 ^ 63 + 1) =
      .ok (0x6E789E6AA1B965F4, (⟨0⟩ : SplitMix64).after 2) ∧
    ∀ residue < 2 ^ 63 + 1,
      ((Finset.range (2 ^ 64)).filter fun index =>
        ((⟨0⟩ : SplitMix64).after index).randbelow (2 ^ 63 + 1) =
          .ok (residue, (⟨0⟩ : SplitMix64).after (index + 1))).card = 1 := by
  obtain ⟨⟨index, inside, first, returned, below⟩, cycles, uniform⟩ :=
    randbelow_uniform ⟨0⟩ (2 ^ 63 + 1) (by norm_num) (by norm_num)
  have refused : acceptLimit (2 ^ 63 + 1) ≤ ((⟨0⟩ : SplitMix64).draw 0).toNat := by decide
  have accepted : ((⟨0⟩ : SplitMix64).draw 1).toNat < acceptLimit (2 ^ 63 + 1) := by decide
  have second : index = 1 := by
    rcases Nat.lt_trichotomy index 1 with before | same | after
    · rw [Nat.lt_one_iff] at before
      exact absurd (before ▸ first.accepted) (Nat.not_lt.mpr refused)
    · exact same
    · exact absurd accepted (Nat.not_lt.mpr (first.refused 1 after))
  constructor
  · rw [second] at returned
    have value : ((⟨0⟩ : SplitMix64).draw 1).toNat % (2 ^ 63 + 1) = 0x6E789E6AA1B965F4 := by decide
    rw [value] at returned
    exact returned
  · intro residue small
    have once : 2 ^ 64 / (2 ^ 63 + 1) = 1 := by norm_num
    rw [(uniform residue small).2, once]

end AtlasLob.SplitMix64

import Mathlib

/-!
# Permutations of machine words

The steps integer generators are made of: a word xored with itself moved down, a product with
an odd constant, a stride by an odd constant. Each loses nothing, so that a generator built from
them passes through every word once in a full cycle, and a residue of the words below a multiple
of a bound is met equally often.
-/

namespace AtlasLob.Mixing

/-- A word that is itself moved down is zero. -/
theorem eq_zero_of_shiftRight {word : UInt64} {count : Nat} (positive : 0 < count)
    (same : word.toNat = word.toNat >>> count) : word = 0 := by
  apply UInt64.toNat_inj.mp
  by_contra nonzero
  have above : 0 < word.toNat := Nat.pos_of_ne_zero nonzero
  have smaller : word.toNat >>> count < word.toNat := by
    rw [Nat.shiftRight_eq_div_pow]
    exact Nat.div_lt_self above (Nat.one_lt_two_pow (by omega))
  omega

/-- A word xored with itself moved down determines the word. -/
theorem xorShift_injective (count : UInt64) (positive : 0 < count.toNat % 64) :
    Function.Injective fun word : UInt64 => word ^^^ (word >>> count) := by
  intro left right same
  have difference : (left ^^^ right).toNat = (left ^^^ right).toNat >>> (count.toNat % 64) := by
    have words : left ^^^ right = (left >>> count) ^^^ (right >>> count) := by
      simp only at same
      calc left ^^^ right
          = (left ^^^ (left >>> count)) ^^^ (left >>> count) ^^^ right := by
            rw [UInt64.xor_assoc left, UInt64.xor_self, UInt64.xor_zero]
        _ = (right ^^^ (right >>> count)) ^^^ (left >>> count) ^^^ right := by rw [same]
        _ = (left >>> count) ^^^ (right >>> count) := by
            rw [UInt64.xor_comm right, UInt64.xor_assoc, UInt64.xor_assoc,
              UInt64.xor_comm right, UInt64.xor_assoc, UInt64.xor_self, UInt64.xor_zero,
              UInt64.xor_comm]
    calc (left ^^^ right).toNat
        = ((left >>> count) ^^^ (right >>> count)).toNat := by rw [← words]
      _ = (left ^^^ right).toNat >>> (count.toNat % 64) := by
        rw [UInt64.toNat_xor, UInt64.toNat_shiftRight, UInt64.toNat_shiftRight, UInt64.toNat_xor,
          Nat.shiftRight_xor_distrib]
  exact UInt64.xor_eq_zero_iff.mp (eq_zero_of_shiftRight positive difference)

/-- Congruent words are equal. -/
theorem eq_of_modEq {left right : UInt64} (same : left.toNat ≡ right.toNat [MOD 2 ^ 64]) :
    left = right := by
  apply UInt64.toNat_inj.mp
  exact Nat.ModEq.eq_of_lt_of_lt same left.toNat_lt right.toNat_lt

/-- A product with an odd constant determines the word. -/
theorem mulOdd_injective {factor : UInt64} (odd : Nat.Coprime (2 ^ 64) factor.toNat) :
    Function.Injective fun word : UInt64 => word * factor := by
  intro left right same
  have products : left.toNat * factor.toNat ≡ right.toNat * factor.toNat [MOD 2 ^ 64] := by
    have words := congrArg UInt64.toNat same
    simp only [UInt64.toNat_mul] at words
    exact words
  exact eq_of_modEq (Nat.ModEq.cancel_right_of_coprime odd products)

/-- The word reached by a number of strides. -/
def stride (start step : UInt64) (count : Nat) : UInt64 := start + UInt64.ofNat count * step

/-- Strides by an odd constant do not meet within a full cycle. -/
theorem stride_injective {start step : UInt64} (odd : Nat.Coprime (2 ^ 64) step.toNat)
    {first second : Nat} (firstBelow : first < 2 ^ 64) (secondBelow : second < 2 ^ 64)
    (same : stride start step first = stride start step second) : first = second := by
  have words := mulOdd_injective odd (UInt64.add_right_inj start |>.mp same)
  have counts := congrArg UInt64.toNat words
  rw [UInt64.toNat_ofNat_of_lt' firstBelow, UInt64.toNat_ofNat_of_lt' secondBelow] at counts
  exact counts

/-- Each residue is met equally often below a multiple of the bound. -/
theorem residue_count {limit bound residue : Nat} (divides : bound ∣ limit)
    (below : residue < bound) :
    ((Finset.range limit).filter fun value => value % bound = residue).card = limit / bound := by
  have count := Nat.count_modEq_card limit (Nat.lt_of_le_of_lt (Nat.zero_le _) below) residue
  rw [Nat.mod_eq_zero_of_dvd divides, if_neg (Nat.not_lt_zero _), Nat.add_zero,
    Nat.count_eq_card_filter_range] at count
  rw [← count]
  congr 1
  apply Finset.filter_congr
  intro value _
  rw [Nat.ModEq, Nat.mod_eq_of_lt below]

/-- A source that runs through every word once meets every residue of the words below a
multiple of the bound equally often. -/
theorem accepted_count {draw : Nat → UInt64}
    (injective : ∀ first < 2 ^ 64, ∀ second < 2 ^ 64, draw first = draw second → first = second)
    {limit bound residue : Nat} (inside : limit ≤ 2 ^ 64) (divides : bound ∣ limit)
    (below : residue < bound) :
    ((Finset.range (2 ^ 64)).filter fun index =>
      (draw index).toNat < limit ∧ (draw index).toNat % bound = residue).card =
        limit / bound := by
  rw [← residue_count divides below]
  apply Finset.card_bij (fun index _ => (draw index).toNat)
  · intro index member
    rw [Finset.mem_filter] at member
    rw [Finset.mem_filter, Finset.mem_range]
    exact member.2
  · intro first firstMember second secondMember same
    rw [Finset.mem_filter, Finset.mem_range] at firstMember secondMember
    exact injective first firstMember.1 second secondMember.1 (UInt64.toNat_inj.mp same)
  · intro value member
    rw [Finset.mem_filter, Finset.mem_range] at member
    have onto : Finset.image (fun index => (draw index).toNat) (Finset.range (2 ^ 64)) =
        Finset.range (2 ^ 64) := by
      apply Finset.eq_of_subset_of_card_le
      · intro word image
        obtain ⟨index, _, same⟩ := Finset.mem_image.mp image
        rw [Finset.mem_range, ← same]
        exact (draw index).toNat_lt
      · rw [Finset.card_image_of_injOn]
        intro first firstMember second secondMember same
        rw [Finset.coe_range, Set.mem_Iio] at firstMember secondMember
        exact injective first firstMember second secondMember (UInt64.toNat_inj.mp same)
    have inRange : value ∈ Finset.range (2 ^ 64) := by
      rw [Finset.mem_range]
      omega
    rw [← onto] at inRange
    obtain ⟨index, indexMember, same⟩ := Finset.mem_image.mp inRange
    refine ⟨index, ?_, same⟩
    rw [Finset.mem_filter, same]
    exact ⟨indexMember, member⟩

end AtlasLob.Mixing

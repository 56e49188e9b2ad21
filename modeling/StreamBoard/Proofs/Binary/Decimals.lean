import StreamBoard.Binary.Shortest
import StreamBoard.Proofs.Binary.Order

/-!
# Decimals — decimal digits on either side of a binary number

Two facts about the way between binary and decimal, neither of them about which decimal it is.  The
shortest decimal of a positive number has digits that are not zero (`shortest_pos`), because zero is
outside the interval that rounds to the number.  And in a format with room for `10 ^ 308` the powers
of ten up to there are finite and at least one, so no magnitude is lost by dividing by them
(`Bounded.divBy`, `Wide.exists_ofNat_ten`).
-/

namespace StreamBoard.Binary.Format

/-! ## 1. The digits of the shortest decimal -/

section Shortest

variable {f : Format} {units : Nat}

theorem step_le (hp : 0 < f.precision) (hunits : 0 < units) : 2 ^ f.excess units ≤ units := by
  have hself : 2 ^ units.log2 ≤ units := Nat.log2_self_le hunits.ne'
  have hle : f.excess units ≤ units.log2 := by
    unfold excess
    omega
  exact (Nat.pow_le_pow_right (by decide) hle).trans hself

/-- The interval that rounds to a positive number lies above zero. -/
theorem interval_pos (hp : 0 < f.precision) (hunits : 0 < units) :
    0 < (f.interval units).1 := by
  have hstep : 2 ^ f.excess units ≤ units := step_le hp hunits
  show 0 < 4 * units - (if _ ∧ _ then 2 ^ f.excess units else 2 * 2 ^ f.excess units)
  split <;> omega

/-- A neighbour that is taken from a grid is not zero. -/
theorem onGrid_pos (hp : 0 < f.precision) (hunits : 0 < units) {exponent : Int} {digits : Nat}
    (h : f.onGrid units exponent = some digits) : 0 < digits := by
  have hlow : 0 < (f.interval units).1 * Nat.pow 10 (-exponent).toNat :=
    Nat.mul_pos (interval_pos hp hunits) (Nat.pow_pos (by decide))
  unfold onGrid at h
  dsimp only at h
  generalize units * Nat.pow 10 (-exponent).toNat /
    (Nat.pow 2 f.fraction * Nat.pow 10 exponent.toNat) = floor at h
  apply Nat.pos_of_ne_zero
  rintro rfl
  cases floor with
  | zero =>
    -- Zero is not inside the interval, and the neighbour above it is one.
    have hopen : ¬ (f.interval units).1 * Nat.pow 10 (-exponent).toNat ≤ 0 := by omega
    simp only [Nat.mul_zero, Nat.zero_mul, hopen, Nat.not_lt_zero, decide_false, Bool.false_and,
      ite_self] at h
    split at h
    · contradiction
    · contradiction
    · cases h
    · cases h
  | succ floor =>
    split at h
    · split_ifs at h <;> cases h
    · cases h
    · cases h
    · cases h

theorem decimalLength_pos {n : Nat} (h : 0 < n) : 0 < decimalLength n := by
  unfold decimalLength
  rw [if_neg h.ne']
  exact Nat.length_toDigits_pos

theorem pow_decimalLength_le {n : Nat} (h : 0 < n) : 10 ^ (decimalLength n - 1) ≤ n := by
  unfold decimalLength
  rw [if_neg h.ne']
  by_cases hone : (Nat.toDigits 10 n).length - 1 = 0
  · rw [hone]
    exact h
  · have hlength := Nat.length_toDigits_le_iff (b := 10) (n := n)
      (k := (Nat.toDigits 10 n).length - 1) (by decide) (by omega)
    omega

/-- The power of ten of the leading digit is not above the number. -/
theorem le_of_le_leadingExponent (hunits : 0 < units) {exponent : Int}
    (h : exponent ≤ f.leadingExponent units) :
    2 ^ f.fraction * 10 ^ exponent.toNat ≤ units * 10 ^ (-exponent).toNat := by
  have hpos : 0 < units * 10 ^ f.fraction / 2 ^ f.fraction := by
    apply Nat.div_pos _ (Nat.two_pow_pos _)
    calc 2 ^ f.fraction ≤ 10 ^ f.fraction := Nat.pow_le_pow_left (by decide) _
      _ ≤ units * 10 ^ f.fraction := Nat.le_mul_of_pos_left _ hunits
  have hlead := pow_decimalLength_le hpos
  have hlength := decimalLength_pos hpos
  rw [Nat.le_div_iff_mul_le (Nat.two_pow_pos _)] at hlead
  change exponent ≤
    (decimalLength (units * 10 ^ f.fraction / 2 ^ f.fraction) : Int) - 1 - f.fraction at h
  generalize decimalLength (units * 10 ^ f.fraction / 2 ^ f.fraction) = length at h hlead hlength
  -- The number has so many places in front of the point and behind it, all in all.
  have hplaces : exponent.toNat + f.fraction ≤ length - 1 + (-exponent).toNat := by omega
  apply Nat.le_of_mul_le_mul_right _ (Nat.pow_pos (n := f.fraction) (by decide : 0 < 10))
  calc 2 ^ f.fraction * 10 ^ exponent.toNat * 10 ^ f.fraction
      = 10 ^ (exponent.toNat + f.fraction) * 2 ^ f.fraction := by ring
    _ ≤ 10 ^ (length - 1 + (-exponent).toNat) * 2 ^ f.fraction :=
      Nat.mul_le_mul_right _ (Nat.pow_le_pow_right (by decide) hplaces)
    _ = 10 ^ (length - 1) * 2 ^ f.fraction * 10 ^ (-exponent).toNat := by ring
    _ ≤ units * 10 ^ f.fraction * 10 ^ (-exponent).toNat := Nat.mul_le_mul_right _ hlead
    _ = units * 10 ^ (-exponent).toNat * 10 ^ f.fraction := by ring

theorem firstGrid_pos (hp : 0 < f.precision) (hunits : 0 < units) {count : Nat} {exponent : Int}
    (hexponent : exponent - count ≤ f.leadingExponent units) :
    0 < (f.firstGrid units count exponent).digits := by
  induction count generalizing exponent with
  | zero =>
    have hle : exponent ≤ f.leadingExponent units := by omega
    have hdown := le_of_le_leadingExponent hunits hle
    exact Nat.div_pos hdown (Nat.mul_pos (Nat.two_pow_pos _) (Nat.pow_pos (by decide)))
  | succ count ih =>
    rw [firstGrid]
    split
    next digits hdigits => exact onGrid_pos hp hunits hdigits
    next => exact ih (by omega)

/-- **The shortest decimal of a positive number is positive.** -/
theorem shortest_pos (hp : 0 < f.precision) (hunits : 0 < units) :
    0 < (f.shortest units).digits := by
  have hgrid : 0 < (f.firstGrid units 17 (f.leadingExponent units)).digits :=
    firstGrid_pos hp hunits (by omega)
  unfold shortest
  dsimp only
  split
  · exact Nat.one_pos
  · exact hgrid

end Shortest

/-! ## 2. Magnitudes that stay finite -/

/-- The magnitude is not greater than a finite number of the format. -/
def Bounded (f : Format) (x : Magnitude) : Prop :=
  ∃ g, f.Holds g ∧ g < 2 ^ f.limit ∧ x.AtMost g

section Bounded

variable {f : Format} {x : Magnitude}

theorem Bounded.exists_finite (h : f.Bounded x) : ∃ units, x = .finite units := by
  obtain ⟨g, -, -, hx⟩ := h
  cases x with
  | finite units => exact ⟨units, rfl⟩
  | infinite => exact hx.elim
  | undefined => exact hx.elim

/-- A division by one or more leads to no more than there was. -/
theorem Bounded.divBy (h : f.Bounded x) {units : Nat} (hunits : 2 ^ f.fraction ≤ units) :
    f.Bounded (f.divBy units x) := by
  obtain ⟨g, hg, hlimit, hx⟩ := h
  refine ⟨g, hg, hlimit, ?_⟩
  cases x with
  | finite a =>
    apply atMost_round ((Nat.two_pow_pos f.fraction).trans_le hunits) hg hlimit
    exact Nat.mul_le_mul hx hunits
  | infinite => exact hx
  | undefined => exact hx

end Bounded

/-- A format with room for the powers of ten up to `10 ^ 308`. -/
structure Wide (f : Format) : Prop where
  precision : 2 ≤ f.precision
  limit : 1024 + f.fraction ≤ f.limit

theorem double_wide : double.Wide := ⟨by decide, by decide⟩

section Wide

variable {f : Format} (hf : f.Wide) {m n k : Nat}

include hf

theorem Wide.precision_pos : 0 < f.precision := (by decide : 0 < 2).trans_le hf.precision

theorem Wide.lt_limit (hm : m < 4) (hk : k ≤ 1022) :
    f.Holds (m * 2 ^ (k + f.fraction)) ∧ m * 2 ^ (k + f.fraction) < 2 ^ f.limit := by
  have hlimit := hf.limit
  have hfour : 2 ^ 2 ≤ 2 ^ f.precision := Nat.pow_le_pow_right (by decide) hf.precision
  constructor
  · exact holds_of_le hf.precision_pos (by omega)
  · calc m * 2 ^ (k + f.fraction) < 2 ^ 2 * 2 ^ (k + f.fraction) :=
          Nat.mul_lt_mul_of_pos_right hm (Nat.two_pow_pos _)
      _ = 2 ^ (2 + (k + f.fraction)) := (Nat.pow_add ..).symm
      _ ≤ 2 ^ f.limit := Nat.pow_le_pow_right (by decide) (by omega)

theorem Wide.ofNat_atMost (h : n ≤ m * 2 ^ k) (hm : m < 4) (hk : k ≤ 1022) :
    (f.ofNat n).AtMost (m * 2 ^ (k + f.fraction)) := by
  obtain ⟨hholds, hlimit⟩ := hf.lt_limit hm hk
  apply atMost_round Nat.one_pos hholds hlimit
  calc n * 2 ^ f.fraction ≤ m * 2 ^ k * 2 ^ f.fraction := Nat.mul_le_mul_right _ h
    _ = m * 2 ^ (k + f.fraction) * 1 := by ring

theorem Wide.ofNat_bounded (h : n < 18446744073709551616) : f.Bounded (f.ofNat n) := by
  obtain ⟨hholds, hlimit⟩ := hf.lt_limit (m := 1) (k := 64) (by decide) (by decide)
  exact ⟨_, hholds, hlimit, hf.ofNat_atMost (by omega) (by decide) (by decide)⟩

/-- The powers of ten by which magnitudes are multiplied and divided are finite, and at least one.
-/
theorem Wide.exists_ofNat_ten (h : n ≤ 308) :
    ∃ units, f.ofNat (Nat.pow 10 n) = .finite units ∧ 2 ^ f.fraction ≤ units := by
  change ∃ units, f.ofNat (10 ^ n) = .finite units ∧ 2 ^ f.fraction ≤ units
  have hten : 10 ^ n ≤ 3 * 2 ^ 1022 :=
    (Nat.pow_le_pow_right (by decide) h).trans (by decide +kernel)
  obtain ⟨hholds, hlimit⟩ := hf.lt_limit (m := 3) (k := 1022) (by decide) (by decide)
  obtain ⟨units, hunits⟩ := Bounded.exists_finite
    ⟨_, hholds, hlimit, hf.ofNat_atMost hten (by decide) (by decide)⟩
  have hleast : (f.ofNat (10 ^ n)).AtLeast (2 ^ f.fraction) := by
    apply atLeast_round hf.precision_pos Nat.one_pos (holds_two_pow hf.precision_pos _)
    rw [Nat.mul_one]
    exact Nat.le_mul_of_pos_left _ (Nat.pow_pos (by decide))
  rw [hunits] at hleast
  exact ⟨units, hunits, hleast⟩

/-- Twenty places are not too many for a number of 64 bits. -/
theorem Wide.mul_bounded (hn : n < 18446744073709551616) (hk : k ≤ 20) :
    f.Bounded (f.mul (f.ofNat n) (f.ofNat (10 ^ k))) := by
  have hten : 10 ^ k ≤ 1 * 2 ^ 80 := (Nat.pow_le_pow_right (by decide) hk).trans (by decide)
  have hx : (f.ofNat n).AtMost (1 * 2 ^ (64 + f.fraction)) :=
    hf.ofNat_atMost (by omega) (by decide) (by decide)
  have hy : (f.ofNat (10 ^ k)).AtMost (1 * 2 ^ (80 + f.fraction)) :=
    hf.ofNat_atMost hten (by decide) (by decide)
  obtain ⟨hholds, hlimit⟩ := hf.lt_limit (m := 1) (k := 144) (by decide) (by decide)
  refine ⟨_, hholds, hlimit, ?_⟩
  apply atMost_mul hx hy hholds hlimit
  apply Nat.le_of_eq
  ring

end Wide

end StreamBoard.Binary.Format

import StreamBoard.Proofs.Binary.Order
import StreamBoard.Socket.Reconnect

/-!
# Backoff — the delays of a policy as numbers

Delays are computed in floating point and spoken of in whole milliseconds.  Between the initial
delay and the cap nothing is lost: the bounds are numbers of the format, so no rounding crosses them
(`delay_bounds`), and the multiples of a whole multiplier are exact up to two to the precision, far
above every cap (`delay_of_isNat`).

One case is left.  An initial delay of zero times a power that is infinite is no number, and counts
as the cap: the delays are zero until the power overflows, and the greatest delay from there on.
-/

namespace StreamBoard

open Binary

/-! ## 1. Multipliers -/

namespace Binary.Single

/-- The number is finite and greater than one. -/
def ExceedsOne (x : Single) : Prop :=
  x.negative = false ∧
    ∃ units, x.magnitude = .finite units ∧ 2 ^ Format.single.fraction < units

/-- The number is the whole number `m`. -/
def IsNat (x : Single) (m : Nat) : Prop :=
  x.negative = false ∧ x.magnitude = .finite (m * 2 ^ Format.single.fraction)

variable {x : Single} {m : Nat}

theorem isNat_two : (⟨0x40000000⟩ : Single).IsNat 2 := ⟨by decide, by decide⟩

theorem aboveOne?_eq_some_iff {units : Nat} :
    x.aboveOne? = some units ↔
      x.negative = false ∧ x.magnitude = .finite units ∧ 2 ^ Format.single.fraction < units := by
  unfold aboveOne?
  constructor
  · intro h
    split at h
    · next u hmagnitude =>
      obtain ⟨hcond, hunits⟩ := Option.ite_none_right_eq_some.mp h
      rw [Bool.and_eq_true, Bool.not_eq_true', decide_eq_true_iff] at hcond
      cases hunits
      exact ⟨hcond.1, hmagnitude, hcond.2⟩
    · cases h
  · intro h
    obtain ⟨hsign, hmagnitude, hlt⟩ := h
    rw [hmagnitude, hsign]
    apply if_pos
    exact decide_eq_true hlt

theorem aboveOne?_eq_none (h : ¬x.ExceedsOne) : x.aboveOne? = none := by
  cases hunits : x.aboveOne? with
  | none => rfl
  | some units =>
    obtain ⟨hsign, hmagnitude, hlt⟩ := aboveOne?_eq_some_iff.mp hunits
    exact absurd ⟨hsign, units, hmagnitude, hlt⟩ h

/-- The significand and the exponent of a finite number. -/
theorem exists_significand {units : Nat} (h : x.magnitude = .finite units) :
    ∃ significand exponent, units = significand * 2 ^ exponent ∧
      significand < 2 ^ 24 ∧ exponent < 254 := by
  have hfraction : x.fractionField < 8388608 := Nat.mod_lt _ (by decide)
  have hexponent : x.exponentField < 256 := Nat.mod_lt _ (by decide)
  unfold magnitude at h
  split at h
  · split at h <;> cases h
  · split at h
    · cases h
      exact ⟨x.fractionField, 0, (Nat.mul_one _).symm, by omega, by decide⟩
    · cases h
      exact ⟨8388608 + x.fractionField, x.exponentField - 1, rfl, by omega, by omega⟩

end Binary.Single

namespace Socket.Policy

variable {p : Policy} {m n : Nat}

/-- A unit of single precision in units of double precision. -/
theorem two_pow_widen :
    2 ^ Format.single.fraction * 2 ^ (Format.double.fraction - Format.single.fraction) =
      2 ^ Format.double.fraction := by
  have hplaces : Format.single.fraction + (Format.double.fraction - Format.single.fraction) =
      Format.double.fraction := by decide
  rw [← Nat.pow_add, hplaces]

theorem multiplier_of_some {units : Nat} (h : p.backoff.aboveOne? = some units) :
    p.multiplier = .finite (units * 2 ^ (Format.double.fraction - Format.single.fraction)) := by
  rw [multiplier, h]
  dsimp only
  rw [Nat.pow_eq]

theorem multiplier_of_none (h : p.backoff.aboveOne? = none) :
    p.multiplier = .finite (2 ^ Format.double.fraction) := by
  rw [multiplier, h]
  exact Format.double_regular.ofNat_one

/-- A whole multiplier is the same number in double precision. -/
theorem multiplier_of_isNat (hm : 2 ≤ m) (h : p.backoff.IsNat m) :
    p.multiplier = .finite (m * 2 ^ Format.double.fraction) := by
  have hpos : 0 < 2 ^ Format.single.fraction := Nat.two_pow_pos _
  have hlt : 2 ^ Format.single.fraction < m * 2 ^ Format.single.fraction :=
    (Nat.lt_mul_iff_one_lt_left hpos).mpr hm
  have hunits := Single.aboveOne?_eq_some_iff.mpr ⟨h.1, h.2, hlt⟩
  rw [multiplier_of_some hunits, Nat.mul_assoc, two_pow_widen]

theorem multiplier_atLeast (p : Policy) :
    p.multiplier.AtLeast (2 ^ (0 + Format.double.fraction)) := by
  rw [Nat.zero_add]
  cases hunits : p.backoff.aboveOne? with
  | none =>
    rw [multiplier_of_none hunits]
    exact Nat.le_refl _
  | some units =>
    have hlt := (Single.aboveOne?_eq_some_iff.mp hunits).2.2
    rw [multiplier_of_some hunits, ← two_pow_widen]
    exact Nat.mul_le_mul_right _ hlt.le

theorem keeps_multiplier (p : Policy) : Format.double.Keeps p.multiplier := by
  have hp := Format.double_regular.precision_pos
  cases hunits : p.backoff.aboveOne? with
  | none =>
    rw [multiplier_of_none hunits]
    apply Format.keeps_finite (Format.holds_two_pow hp _)
    exact Nat.pow_lt_pow_right (by decide) (by decide)
  | some units =>
    obtain ⟨-, hmagnitude, -⟩ := Single.aboveOne?_eq_some_iff.mp hunits
    obtain ⟨significand, exponent, hsplit, hsignificand, hexponent⟩ :=
      Single.exists_significand hmagnitude
    rw [multiplier_of_some hunits, hsplit, Nat.mul_assoc, ← Nat.pow_add]
    apply Format.keeps_finite
    · apply Format.holds_of_le hp
      exact hsignificand.le.trans (Nat.pow_le_pow_right (by decide) (by decide))
    · -- 24 bits of significand, fewer than 254 of exponent, and 925 for the smaller unit.
      have hlt := Nat.mul_lt_mul_of_pos_right hsignificand (Nat.two_pow_pos
        (exponent + (Format.double.fraction - Format.single.fraction)))
      rw [← Nat.pow_add] at hlt
      apply hlt.trans_le
      apply Nat.pow_le_pow_right (by decide)
      change 24 + (exponent + (1074 - 149)) ≤ 2098
      omega

/-! ## 2. Delays -/

/-- The power of the multiplier for so many failures. -/
def growth (p : Policy) (failures : Nat) : Magnitude :=
  Format.double.power p.multiplier (min failures 2147483647)

theorem delay_eq (p : Policy) (n : Nat) :
    p.delay n = Format.double.floor ((Format.double.mul (Format.double.ofNat p.initialDelay.toNat)
      (p.growth n)).minUnits (p.cap * 2 ^ Format.double.fraction)) := by
  rw [delay, growth, Nat.pow_eq]

theorem initialDelay_le (p : Policy) : p.initialDelay.toNat ≤ 2 ^ Format.double.precision := by
  have hlt : p.initialDelay.toNat < 2 ^ 32 := p.initialDelay.toNat_lt
  have hle : 2 ^ 32 ≤ 2 ^ Format.double.precision := Nat.pow_le_pow_right (by decide) (by decide)
  omega

theorem cap_le (p : Policy) : p.cap ≤ 2 ^ Format.double.precision := by
  have hinitial : p.initialDelay.toNat < 2 ^ 32 := p.initialDelay.toNat_lt
  have hmax : p.maxDelay.toNat < 2 ^ 32 := p.maxDelay.toNat_lt
  have hle : 2 ^ 32 ≤ 2 ^ Format.double.precision := Nat.pow_le_pow_right (by decide) (by decide)
  unfold cap
  omega

theorem growth_atLeast (p : Policy) (n : Nat) :
    (p.growth n).AtLeast (2 ^ Format.double.fraction) := by
  have hpower := Format.double_regular.power_atLeast p.multiplier_atLeast (min n 2147483647)
  rwa [Nat.mul_zero, Nat.zero_add] at hpower

theorem growth_mono (p : Policy) {i j : Nat} (h : i ≤ j) : (p.growth i).Le (p.growth j) := by
  apply Format.power_mono Format.double_regular p.keeps_multiplier
  · rw [Format.double_regular.ofNat_one]
    intro u hu
    have hleast := p.multiplier_atLeast
    rw [hu, Nat.zero_add] at hleast
    exact ⟨_, rfl, hleast⟩
  · omega

/-- **Delays do not fall from one attempt to the next.** -/
theorem delay_mono (p : Policy) {i j : Nat} (h : i ≤ j) : p.delay i ≤ p.delay j := by
  have hproduct := Format.mul_mono Format.double_regular.precision_pos
    (.refl (Format.double.ofNat p.initialDelay.toNat)) (p.growth_mono h)
  rw [delay_eq, delay_eq]
  exact Format.floor_mono (hproduct.minUnits_le _)

theorem le_delay (p : Policy) (n : Nat) : p.initialDelay.toNat ≤ p.delay n := by
  by_cases hinitial : p.initialDelay.toNat = 0
  · rw [hinitial]
    exact Nat.zero_le _
  · rw [delay_eq]
    exact Format.double_regular.le_floor_mul (by omega) p.initialDelay_le (p.growth_atLeast n)
      (Nat.le_max_right _ _)

theorem delay_le (p : Policy) (n : Nat) : p.delay n ≤ p.cap := by
  rw [delay_eq]
  exact Format.floor_minUnits_le _ _ _

theorem growth_standsFor (hm : 0 < m) (h : p.multiplier = .finite (m * 2 ^ Format.double.fraction))
    (n : Nat) : Format.double.StandsFor (p.growth n) (m ^ min n 2147483647) := by
  rw [growth, h]
  exact Format.double_regular.standsFor_power (Format.standsFor_finite hm) _

/-- Where the power stands for a whole number, the delay is the multiple of the initial delay. -/
theorem delay_of_standsFor (hinitial : 0 < p.initialDelay.toNat) {k : Nat}
    (h : Format.double.StandsFor (p.growth n) k) :
    p.delay n = min (p.initialDelay.toNat * k) p.cap := by
  have hproduct := Format.double_regular.standsFor_mul
    (Format.double_regular.standsFor_ofNat hinitial p.initialDelay_le) h
  rw [delay_eq]
  exact hproduct.floor_minUnits p.cap_le

/-- An initial delay of zero does not grow until the power is infinite. -/
theorem delay_of_zero (hinitial : p.initialDelay.toNat = 0) :
    p.delay n = if p.growth n = .infinite then p.cap else 0 := by
  have hgrowth := p.growth_atLeast n
  rw [delay_eq, hinitial, Format.double_regular.ofNat_zero]
  cases hpower : p.growth n with
  | finite units =>
    rw [Format.double_regular.zero_mul, if_neg nofun, Magnitude.minUnits, Nat.zero_min]
    exact Nat.zero_div _
  | infinite =>
    -- Zero times infinity is undefined, and gives way to the cap.
    rw [if_pos rfl, Format.mul, if_pos rfl, Magnitude.minUnits]
    exact Format.floor_mul _ _
  | undefined =>
    rw [hpower] at hgrowth
    exact hgrowth.elim

/-- A multiplier that is not a finite number above one leaves the delay as it is. -/
theorem delay_of_not_exceedsOne (h : ¬p.backoff.ExceedsOne) : p.delay n = p.initialDelay.toNat := by
  have hmultiplier : p.multiplier = .finite (1 * 2 ^ Format.double.fraction) := by
    rw [multiplier_of_none (Single.aboveOne?_eq_none h), Nat.one_mul]
  have hgrowth := growth_standsFor Nat.one_pos hmultiplier n
  rw [Nat.one_pow] at hgrowth
  by_cases hinitial : p.initialDelay.toNat = 0
  · have hfinite : p.growth n ≠ .infinite := (hgrowth.most Nat.one_le_two_pow).ne_infinite
    rw [delay_of_zero hinitial, if_neg hfinite, hinitial]
  · rw [delay_of_standsFor (by omega) hgrowth, Nat.mul_one]
    exact Nat.min_eq_left (Nat.le_max_right _ _)

/-! ## 3. Whole multipliers -/

section Whole

variable (hm : 2 ≤ m) (h : p.backoff.IsNat m) (hn : n < 2 ^ 31)

include hm h hn

theorem growth_of_isNat :
    p.growth n = Format.double.power (.finite (m * 2 ^ Format.double.fraction)) n := by
  rw [growth, multiplier_of_isNat hm h, Nat.min_eq_left (by omega)]

theorem growth_eq_infinite {j : Nat} (hj : 2 ^ j ≤ m) (hlarge : 1024 ≤ n * j) :
    p.growth n = .infinite := by
  have hleast : (Magnitude.finite (m * 2 ^ Format.double.fraction)).AtLeast
      (2 ^ (j + Format.double.fraction)) := by
    rw [Nat.pow_add]
    exact Nat.mul_le_mul_right _ hj
  rw [growth_of_isNat hm h hn]
  apply Format.double_regular.power_eq_infinite hleast
  change 2098 ≤ n * j + 1074
  omega

theorem growth_ne_infinite {j : Nat} (hj : m ≤ 2 ^ j) (hsmall : n * j < 1024) :
    p.growth n ≠ .infinite := by
  have hmost : (Magnitude.finite (m * 2 ^ Format.double.fraction)).AtMost
      (2 ^ (j + Format.double.fraction)) := by
    rw [Nat.pow_add]
    exact Nat.mul_le_mul_right _ hj
  have hlimit : n * j + Format.double.fraction < Format.double.limit := by
    change n * j + 1074 < 2098
    omega
  rw [growth_of_isNat hm h hn]
  exact (Format.double_regular.power_atMost hmost hlimit).ne_infinite

end Whole

/-! ## 4. The theorems -/

/-- **Delays stay between the initial delay and the cap,** whatever the multiplier is and however
many attempts have failed; and a multiplier that is not a finite number above one leaves the delay
as it is. -/
theorem delay_bounds (p : Policy) (n : Nat) :
    p.initialDelay.toNat ≤ p.delay n ∧
    p.delay n ≤ max p.maxDelay.toNat p.initialDelay.toNat ∧
    (¬p.backoff.ExceedsOne → p.delay n = p.initialDelay.toNat) := by
  exact ⟨p.le_delay n, p.delay_le n, delay_of_not_exceedsOne⟩

/-- A multiplier that is no number, and the least one that is greater than one. -/
theorem delay_bounds_extreme :
    ({ initialDelay := 250, backoff := ⟨0x7fc00000⟩ } : Policy).delay 4 = 250 ∧
    250 ≤ ({ initialDelay := 250, backoff := ⟨0x3f800001⟩ } : Policy).delay 4294967295 ∧
    ({ initialDelay := 250, backoff := ⟨0x3f800001⟩ } : Policy).delay 4294967295 ≤ 30000 := by
  have hundefined : ¬(⟨0x7fc00000⟩ : Single).ExceedsOne := by
    intro h
    obtain ⟨-, units, hunits, -⟩ := h
    rw [show (⟨0x7fc00000⟩ : Single).magnitude = .undefined by decide] at hunits
    cases hunits
  obtain ⟨-, -, hsame⟩ := delay_bounds { initialDelay := 250, backoff := ⟨0x7fc00000⟩ } 4
  obtain ⟨hleast, hmost, -⟩ :=
    delay_bounds { initialDelay := 250, backoff := ⟨0x3f800001⟩ } 4294967295
  exact ⟨hsame hundefined, hleast, hmost⟩

/-- **The delays of a whole multiplier are the geometric sequence up to the cap,** in integers
without bound, and they do not fall.  The exception is an initial delay of zero with a power that is
infinite, where the delay is the greatest one.  The power of a multiplier between two to the `j` and
two to the `k` is infinite from `1024 / j` failures on, and never below `1024 / k`. -/
theorem delay_of_isNat (p : Policy) {m : Nat} (hm : 2 ≤ m) (h : p.backoff.IsNat m) :
    (∀ n < 2 ^ 31, p.delay n =
      if p.initialDelay.toNat = 0 ∧ p.growth n = .infinite then p.maxDelay.toNat
      else min (p.initialDelay.toNat * m ^ n) (max p.maxDelay.toNat p.initialDelay.toNat)) ∧
    (∀ i j, i ≤ j → p.delay i ≤ p.delay j) ∧
    (∀ n < 2 ^ 31, ∀ j,
      (2 ^ j ≤ m → 1024 ≤ n * j → p.growth n = .infinite) ∧
      (m ≤ 2 ^ j → n * j < 1024 → p.growth n ≠ .infinite)) := by
  refine ⟨fun n hn => ?_, fun i j => p.delay_mono, fun n hn j => ⟨?_, ?_⟩⟩
  · by_cases hinitial : p.initialDelay.toNat = 0
    · have hcap : p.cap = p.maxDelay.toNat := by
        rw [cap, hinitial]
        exact Nat.max_zero _
      rw [delay_of_zero hinitial, hinitial, hcap]
      simp only [true_and, Nat.zero_mul, Nat.zero_min]
    · rw [if_neg (fun hand => hinitial hand.1)]
      have hgrowth := growth_standsFor (by omega) (multiplier_of_isNat hm h) n
      rw [Nat.min_eq_left (by omega)] at hgrowth
      exact delay_of_standsFor (by omega) hgrowth
  · exact growth_eq_infinite hm h hn
  · exact growth_ne_infinite hm h hn

/-- A multiplier of two, below the cap and beyond it. -/
theorem delay_of_isNat_two :
    let p : Policy := { initialDelay := 100, maxDelay := 350, backoff := ⟨0x40000000⟩ }
    p.delay 1 = 200 ∧ p.delay 60 = 350 ∧ p.delay 1 ≤ p.delay 60 := by
  intro p
  obtain ⟨hdelay, hmono, -⟩ := delay_of_isNat p (Nat.le_refl 2) Single.isNat_two
  refine ⟨?_, ?_, hmono 1 60 (by decide)⟩
  · rw [hdelay 1 (by decide), if_neg (fun hand => absurd hand.1 (by decide))]
    decide
  · rw [hdelay 60 (by decide), if_neg (fun hand => absurd hand.1 (by decide))]
    decide

/-- An initial delay of zero does not stay: two to the 1024 is infinite. -/
theorem exists_delay_of_zero :
    ¬∀ (p : Policy) (m n : Nat), 2 ≤ m → p.backoff.IsNat m → n < 2 ^ 31 →
      p.delay n =
        min (p.initialDelay.toNat * m ^ n) (max p.maxDelay.toNat p.initialDelay.toNat) := by
  intro h
  let p : Policy := { initialDelay := 0, backoff := ⟨0x40000000⟩ }
  have hzero : p.initialDelay.toNat = 0 := by decide
  have hinfinite : p.growth 1024 = .infinite := by
    apply growth_eq_infinite (Nat.le_refl 2) Single.isNat_two (by decide) (Nat.le_refl (2 ^ 1))
    omega
  have hclaim := h p 2 1024 (Nat.le_refl 2) Single.isNat_two (by decide)
  rw [delay_of_zero hzero, if_pos hinfinite, hzero, Nat.zero_mul, Nat.zero_min] at hclaim
  exact absurd hclaim (by decide)

end Socket.Policy

end StreamBoard

import Mathlib.Tactic.Ring
import StreamBoard.Binary.Magnitude

/-!
# Rounding — what repeated rounding leaves of an exact result

A result is rounded to a multiple of a power of two that depends on the result itself.  Rounding
never crosses a number of the format (`le_rounded`, `rounded_le`), so a bound that is such a number
outlasts any number of operations (`atLeast_mul`, `atMost_mul`), and so does everything that a
product inherits from its factors (`powerFrom_rel`).  Whole numbers up to two to the precision are
numbers of the format.  Up to there powers are exact, and what is greater stays greater
(`Regular.standsFor_power`).
-/

namespace StreamBoard.Binary

/-! ## 1. The nearest integer -/

theorem le_nearestEven {num den k : Nat} (hden : 0 < den) (h : k * den ≤ num) :
    k ≤ nearestEven num den := by
  have hquotient : k ≤ num / den := (Nat.le_div_iff_mul_le hden).mpr h
  unfold nearestEven
  dsimp only
  split_ifs <;> omega

theorem nearestEven_le {num den k : Nat} (hden : 0 < den) (h : num ≤ k * den) :
    nearestEven num den ≤ k := by
  have hquotient : num / den ≤ k := Nat.div_le_of_le_mul (Nat.mul_comm k den ▸ h)
  have hparts : den * (num / den) + num % den = num := Nat.div_add_mod num den
  unfold nearestEven
  dsimp only
  by_cases heq : num / den = k
  · -- Nothing is left over, so nothing is rounded up.
    have hrest : num % den = 0 := by
      rw [heq, Nat.mul_comm] at hparts
      omega
    rw [hrest, if_pos (by omega), heq]
  · split_ifs <;> omega

namespace Format

variable {f : Format}

/-! ## 2. Numbers of a format -/

/-- So many units are a number of the format, if not beyond its limit. -/
def Holds (f : Format) (units : Nat) : Prop := 2 ^ f.excess units ∣ units

theorem excess_mono {a b : Nat} (h : a ≤ b) : f.excess a ≤ f.excess b := by
  have hlog : a.log2 ≤ b.log2 := by
    by_cases ha : a = 0
    · rw [ha]
      exact Nat.zero_le _
    · have hself : 2 ^ a.log2 ≤ a := Nat.log2_self_le ha
      apply (Nat.le_log2 (by omega)).mpr
      exact Nat.le_trans hself h
  unfold excess
  omega

/-- The power of two at the head of a number lies above all numbers with a smaller step. -/
theorem head_between {a b : Nat} (h : f.excess a < f.excess b) :
    a < 2 ^ b.log2 ∧ 2 ^ b.log2 ≤ b := by
  have hlog : a.log2 < b.log2 := by
    unfold excess at h
    omega
  have hb : b ≠ 0 := by
    intro hzero
    rw [hzero, Nat.log2_zero] at hlog
    omega
  constructor
  · exact Nat.lt_log2_self.trans_le (Nat.pow_le_pow_right (by decide) hlog)
  · exact Nat.log2_self_le hb

theorem holds_zero (f : Format) : f.Holds 0 := Nat.dvd_zero _

theorem holds_two_pow (hp : 0 < f.precision) (k : Nat) : f.Holds (2 ^ k) := by
  apply Nat.pow_dvd_pow
  rw [excess, Nat.log2_two_pow]
  omega

theorem holds_of_le (hp : 0 < f.precision) {k n : Nat} (h : n ≤ 2 ^ f.precision) :
    f.Holds (n * 2 ^ k) := by
  by_cases hn : n = 2 ^ f.precision
  · rw [hn, ← Nat.pow_add]
    exact holds_two_pow hp _
  by_cases hzero : n = 0
  · rw [hzero, Nat.zero_mul]
    exact f.holds_zero
  -- All bits of `n` are within the precision, so those beyond it are among the last `k`.
  have hlt : n * 2 ^ k < 2 ^ (f.precision + k) := by
    rw [Nat.pow_add]
    exact Nat.mul_lt_mul_of_pos_right (by omega) (Nat.two_pow_pos k)
  have hpos : n * 2 ^ k ≠ 0 := Nat.mul_ne_zero hzero (Nat.two_pow_pos k).ne'
  have hlog : (n * 2 ^ k).log2 < f.precision + k := (Nat.log2_lt hpos).mpr hlt
  have hexcess : f.excess (n * 2 ^ k) ≤ k := by
    unfold excess
    omega
  exact Nat.dvd_trans (Nat.pow_dvd_pow 2 hexcess) (Nat.dvd_mul_left _ _)

/-! ## 3. One rounding -/

/-- The units of the rounded quotient, where there is no limit. -/
def rounded (f : Format) (num den : Nat) : Nat :=
  nearestEven num (den * 2 ^ f.excess (num / den)) * 2 ^ f.excess (num / den)

theorem round_eq (f : Format) (num den : Nat) :
    f.round num den =
      if 2 ^ f.limit ≤ f.rounded num den then .infinite else .finite (f.rounded num den) :=
  rfl

/-- Between a number of the format and a greater integer there is a multiple of the step that the
greater one is rounded to. -/
theorem exists_multiple (hp : 0 < f.precision) {g q : Nat} (hg : f.Holds g) (h : g ≤ q) :
    ∃ t, g ≤ t * 2 ^ f.excess q ∧ t * 2 ^ f.excess q ≤ q := by
  by_cases hexcess : f.excess q ≤ f.excess g
  · obtain ⟨t, ht⟩ := Nat.dvd_trans (Nat.pow_dvd_pow 2 hexcess) hg
    rw [Nat.mul_comm] at ht
    exact ⟨t, by omega, by omega⟩
  · -- The integer has more bits, so the power of two at its head is greater than the number.
    have hhead := head_between (by omega : f.excess g < f.excess q)
    have hle : f.excess q ≤ q.log2 := by
      unfold excess
      omega
    have hsplit : 2 ^ (q.log2 - f.excess q) * 2 ^ f.excess q = 2 ^ q.log2 := by
      rw [← Nat.pow_add, Nat.sub_add_cancel hle]
    exact ⟨2 ^ (q.log2 - f.excess q), by omega, by omega⟩

/-- **Rounding does not fall below a number of the format.** -/
theorem le_rounded (hp : 0 < f.precision) {num den g : Nat} (hden : 0 < den) (hg : f.Holds g)
    (h : g * den ≤ num) : g ≤ f.rounded num den := by
  obtain ⟨t, hgt, htq⟩ := exists_multiple hp hg ((Nat.le_div_iff_mul_le hden).mpr h)
  have hnum : t * (den * 2 ^ f.excess (num / den)) ≤ num := by
    calc t * (den * 2 ^ f.excess (num / den))
        = t * 2 ^ f.excess (num / den) * den := by ring
      _ ≤ num / den * den := Nat.mul_le_mul_right den htq
      _ ≤ num := Nat.div_mul_le_self num den
  have hnearest := le_nearestEven (Nat.mul_pos hden (Nat.two_pow_pos _)) hnum
  exact hgt.trans (Nat.mul_le_mul_right _ hnearest)

/-- **Rounding does not rise above a number of the format.** -/
theorem rounded_le {num den g : Nat} (hden : 0 < den) (hg : f.Holds g) (h : num ≤ g * den) :
    f.rounded num den ≤ g := by
  have hquotient : num / den ≤ g := Nat.div_le_of_le_mul (Nat.mul_comm g den ▸ h)
  obtain ⟨t, ht⟩ := Nat.dvd_trans (Nat.pow_dvd_pow 2 (excess_mono hquotient)) hg
  have hnum : num ≤ t * (den * 2 ^ f.excess (num / den)) := by
    calc num ≤ g * den := h
      _ = 2 ^ f.excess (num / den) * t * den := by rw [← ht]
      _ = t * (den * 2 ^ f.excess (num / den)) := by ring
  have hnearest := nearestEven_le (Nat.mul_pos hden (Nat.two_pow_pos _)) hnum
  calc f.rounded num den ≤ t * 2 ^ f.excess (num / den) := Nat.mul_le_mul_right _ hnearest
    _ = g := by rw [Nat.mul_comm, ← ht]

end Format

/-! ## 4. Bounds of magnitudes -/

namespace Magnitude

/-- The magnitude is at least so many units. -/
def AtLeast : Magnitude → Nat → Prop
  | .finite units, g => g ≤ units
  | .infinite, _ => True
  | .undefined, _ => False

/-- The magnitude is finite, and at most so many units. -/
def AtMost : Magnitude → Nat → Prop
  | .finite units, g => units ≤ g
  | .infinite, _ => False
  | .undefined, _ => False

theorem AtLeast.mono {x : Magnitude} {a b : Nat} (h : x.AtLeast b) (hab : a ≤ b) : x.AtLeast a := by
  cases x with
  | finite units => exact Nat.le_trans hab h
  | infinite => trivial
  | undefined => exact h

theorem AtMost.eq_finite {x : Magnitude} {g : Nat} (hmost : x.AtMost g) (hleast : x.AtLeast g) :
    x = .finite g := by
  cases x with
  | finite units => rw [Nat.le_antisymm hmost hleast]
  | infinite => exact hmost.elim
  | undefined => exact hmost.elim

theorem AtMost.ne_infinite {x : Magnitude} {g : Nat} (h : x.AtMost g) : x ≠ .infinite := by
  intro hx
  rw [hx] at h
  exact h

end Magnitude

namespace Format

variable {f : Format} {x y : Magnitude} {a b g num den : Nat}

theorem atLeast_round (hp : 0 < f.precision) (hden : 0 < den) (hg : f.Holds g)
    (h : g * den ≤ num) : (f.round num den).AtLeast g := by
  rw [round_eq]
  split
  · trivial
  · exact le_rounded hp hden hg h

theorem atMost_round (hden : 0 < den) (hg : f.Holds g) (hlimit : g < 2 ^ f.limit)
    (h : num ≤ g * den) : (f.round num den).AtMost g := by
  have hle : f.rounded num den ≤ g := rounded_le hden hg h
  rw [round_eq, if_neg (by omega)]
  exact hle

theorem lt_limit_of_round {units : Nat} (h : f.round num den = .finite units) :
    units < 2 ^ f.limit := by
  rw [round_eq] at h
  split at h
  · cases h
  · cases h
    omega

theorem atLeast_mul (hp : 0 < f.precision) (ha : 0 < a) (hb : 0 < b) (hx : x.AtLeast a)
    (hy : y.AtLeast b) (hg : f.Holds g) (h : g * 2 ^ f.fraction ≤ a * b) :
    (f.mul x y).AtLeast g := by
  cases x with
  | finite u =>
    cases y with
    | finite v =>
      apply atLeast_round hp (Nat.two_pow_pos _) hg
      exact h.trans (Nat.mul_le_mul hx hy)
    | infinite =>
      have hu : u ≠ 0 := (ha.trans_le hx).ne'
      rw [mul, if_neg hu]
      trivial
    | undefined => exact hy.elim
  | infinite =>
    cases y with
    | finite v =>
      have hv : v ≠ 0 := (hb.trans_le hy).ne'
      rw [mul, if_neg hv]
      trivial
    | infinite => trivial
    | undefined => exact hy.elim
  | undefined => exact hx.elim

theorem atMost_mul (hx : x.AtMost a) (hy : y.AtMost b) (hg : f.Holds g) (hlimit : g < 2 ^ f.limit)
    (h : a * b ≤ g * 2 ^ f.fraction) : (f.mul x y).AtMost g := by
  cases x with
  | finite u =>
    cases y with
    | finite v =>
      apply atMost_round (Nat.two_pow_pos _) hg hlimit
      exact (Nat.mul_le_mul hx hy).trans h
    | infinite => exact hy.elim
    | undefined => exact hy.elim
  | infinite => exact hx.elim
  | undefined => exact hx.elim

theorem lt_limit_of_mul {units : Nat} (h : f.mul x y = .finite units) : units < 2 ^ f.limit := by
  cases x with
  | finite u =>
    cases y with
    | finite v => exact lt_limit_of_round h
    | infinite =>
      rw [mul] at h
      split at h <;> cases h
    | undefined => cases h
  | infinite =>
    cases y with
    | finite v =>
      rw [mul] at h
      split at h <;> cases h
    | infinite => cases h
    | undefined => cases h
  | undefined => cases h

/-! ## 5. Powers -/

theorem powerFrom_odd {n : Nat} (h : n % 2 = 1) (x y : Magnitude) :
    f.powerFrom x y n =
      if n / 2 = 0 then f.mul x y else f.powerFrom (f.mul x y) (f.mul y y) (n / 2) := by
  rw [powerFrom]
  simp only [h, ↓reduceIte]

theorem powerFrom_even {n : Nat} (h : ¬n % 2 = 1) (x y : Magnitude) :
    f.powerFrom x y n = if n / 2 = 0 then x else f.powerFrom x (f.mul y y) (n / 2) := by
  rw [powerFrom]
  simp only [h, ↓reduceIte]

/-- **What a product inherits from its factors, a power inherits from its base.**  `R x i` is said
of what has been multiplied together from `i` factors, `S x i` of the repeated squares. -/
theorem powerFrom_rel {R S : Magnitude → Nat → Prop}
    (hmul : ∀ x y i j, R x i → S y j → R (f.mul x y) (i + j))
    (hsquare : ∀ y j, S y j → S (f.mul y y) (j + j)) {acc base : Magnitude} {i j : Nat}
    (hacc : R acc i) (hbase : S base j) (n : Nat) : R (f.powerFrom acc base n) (i + n * j) := by
  induction n using Nat.strong_induction_on generalizing acc base i j with
  | h n ih =>
    by_cases hodd : n % 2 = 1
    · have hnext : R (f.mul acc base) (i + j) := hmul acc base i j hacc hbase
      rw [powerFrom_odd hodd]
      by_cases hlast : n / 2 = 0
      · rw [if_pos hlast, show n = 1 by omega, Nat.one_mul]
        exact hnext
      · have hrest := ih (n / 2) (by omega) hnext (hsquare base j hbase)
        have hcount : i + j + n / 2 * (j + j) = i + n * j := by
          calc i + j + n / 2 * (j + j) = i + (2 * (n / 2) + 1) * j := by ring
            _ = i + n * j := by rw [show 2 * (n / 2) + 1 = n by omega]
        rw [if_neg hlast, ← hcount]
        exact hrest
    · rw [powerFrom_even hodd]
      by_cases hlast : n / 2 = 0
      · rw [if_pos hlast, show n = 0 by omega, Nat.zero_mul]
        exact hacc
      · have hrest := ih (n / 2) (by omega) hacc (hsquare base j hbase)
        have hcount : i + n / 2 * (j + j) = i + n * j := by
          calc i + n / 2 * (j + j) = i + 2 * (n / 2) * j := by ring
            _ = i + n * j := by rw [show 2 * (n / 2) = n by omega]
        rw [if_neg hlast, ← hcount]
        exact hrest

theorem lt_limit_of_power {n units : Nat} (h : f.power x n = .finite units) :
    units < 2 ^ f.limit := by
  have hone : ∀ u, f.ofNat 1 = .finite u → u < 2 ^ f.limit := fun _ hu => lt_limit_of_round hu
  have hpower : ∀ u, f.powerFrom (f.ofNat 1) x n = .finite u → u < 2 ^ f.limit :=
    powerFrom_rel (R := fun x _ => ∀ u, x = .finite u → u < 2 ^ f.limit) (S := fun _ _ => True)
      (fun _ _ _ _ _ _ _ hu => lt_limit_of_mul hu) (fun _ _ _ => trivial) (i := 0) (j := 0)
      hone trivial n
  exact hpower units h

/-- A format of which the whole numbers up to two to the precision are far from the limit. -/
structure Regular (f : Format) : Prop where
  precision_pos : 0 < f.precision
  lt_limit : f.precision + f.fraction < f.limit

theorem double_regular : double.Regular := ⟨by decide, by decide⟩

section Regular

variable (hf : f.Regular) {k m n : Nat}

include hf

theorem Regular.whole_lt_limit (hk : k ≤ 2 ^ f.precision) : k * 2 ^ f.fraction < 2 ^ f.limit := by
  have hlt : 2 ^ (f.precision + f.fraction) < 2 ^ f.limit :=
    Nat.pow_lt_pow_right (by decide) hf.lt_limit
  rw [Nat.pow_add] at hlt
  exact (Nat.mul_le_mul_right _ hk).trans_lt hlt

/-- Whole numbers are converted without rounding. -/
theorem Regular.ofNat_eq (hk : k ≤ 2 ^ f.precision) : f.ofNat k = .finite (k * 2 ^ f.fraction) := by
  have hholds : f.Holds (k * 2 ^ f.fraction) := holds_of_le hf.precision_pos hk
  have hone : k * 2 ^ f.fraction * 1 = k * 2 ^ f.fraction := Nat.mul_one _
  apply Magnitude.AtMost.eq_finite
  · exact atMost_round Nat.one_pos hholds (hf.whole_lt_limit hk) hone.ge
  · exact atLeast_round hf.precision_pos Nat.one_pos hholds hone.le

theorem Regular.ofNat_one : f.ofNat 1 = .finite (2 ^ f.fraction) := by
  rw [hf.ofNat_eq Nat.one_le_two_pow, Nat.one_mul]

theorem Regular.ofNat_zero : f.ofNat 0 = .finite 0 := by
  rw [hf.ofNat_eq (Nat.zero_le _), Nat.zero_mul]

theorem Regular.zero_mul (units : Nat) : f.mul (.finite 0) (.finite units) = .finite 0 := by
  have hholds : f.Holds 0 := f.holds_zero
  apply Magnitude.AtMost.eq_finite
  · apply atMost_round (Nat.two_pow_pos _) hholds (Nat.two_pow_pos _)
    rw [Nat.zero_mul, Nat.zero_mul]
  · exact atLeast_round hf.precision_pos (Nat.two_pow_pos _) hholds (by omega)

/-- A power of a base that is at least two to the `k` is at least two to the `n * k`. -/
theorem Regular.power_atLeast (hx : x.AtLeast (2 ^ (k + f.fraction))) (n : Nat) :
    (f.power x n).AtLeast (2 ^ (n * k + f.fraction)) := by
  have hmul : ∀ x y i j, Magnitude.AtLeast x (2 ^ (i + f.fraction)) →
      Magnitude.AtLeast y (2 ^ (j + f.fraction)) →
      (f.mul x y).AtLeast (2 ^ (i + j + f.fraction)) := by
    intro x y i j hi hj
    apply atLeast_mul hf.precision_pos (Nat.two_pow_pos _) (Nat.two_pow_pos _) hi hj
      (holds_two_pow hf.precision_pos _)
    rw [← Nat.pow_add, ← Nat.pow_add]
    exact Nat.pow_le_pow_right (by decide) (by omega)
  have hone : (f.ofNat 1).AtLeast (2 ^ (0 + f.fraction)) := by
    rw [hf.ofNat_one, Nat.zero_add]
    exact Nat.le_refl _
  have hpower := powerFrom_rel hmul (fun y j hj => hmul y y j j hj hj) hone hx n
  rwa [Nat.zero_add] at hpower

/-- A power of a base that is at most two to the `k` is at most two to the `n * k`, where that is
within the limit. -/
theorem Regular.power_atMost (hx : x.AtMost (2 ^ (k + f.fraction)))
    (hlimit : n * k + f.fraction < f.limit) :
    (f.power x n).AtMost (2 ^ (n * k + f.fraction)) := by
  have hmul : ∀ x y i j,
      (i + f.fraction < f.limit → Magnitude.AtMost x (2 ^ (i + f.fraction))) →
      (j + f.fraction < f.limit → Magnitude.AtMost y (2 ^ (j + f.fraction))) →
      i + j + f.fraction < f.limit → (f.mul x y).AtMost (2 ^ (i + j + f.fraction)) := by
    intro x y i j hi hj hlt
    apply atMost_mul (hi (by omega)) (hj (by omega)) (holds_two_pow hf.precision_pos _)
    · exact Nat.pow_lt_pow_right (by decide) hlt
    · rw [← Nat.pow_add, ← Nat.pow_add]
      exact Nat.pow_le_pow_right (by decide) (by omega)
  have hone : 0 + f.fraction < f.limit → (f.ofNat 1).AtMost (2 ^ (0 + f.fraction)) := by
    intro _
    rw [hf.ofNat_one, Nat.zero_add]
    exact Nat.le_refl _
  have hpower := powerFrom_rel hmul (fun y j hj => hmul y y j j hj hj) hone (fun _ => hx) n
  rw [Nat.zero_add] at hpower
  exact hpower hlimit

theorem Regular.power_eq_infinite (hx : x.AtLeast (2 ^ (k + f.fraction)))
    (hlimit : f.limit ≤ n * k + f.fraction) : f.power x n = .infinite := by
  have hleast := hf.power_atLeast hx n
  cases hpower : f.power x n with
  | finite units =>
    rw [hpower] at hleast
    have hlt : units < 2 ^ f.limit := lt_limit_of_power hpower
    have hle : 2 ^ f.limit ≤ 2 ^ (n * k + f.fraction) := Nat.pow_le_pow_right (by decide) hlimit
    have hunits : 2 ^ (n * k + f.fraction) ≤ units := hleast
    omega
  | infinite => rfl
  | undefined =>
    rw [hpower] at hleast
    exact hleast.elim

/-! ## 6. Whole numbers -/

omit hf in
/-- The magnitude stands for a positive whole number: it is this number up to two to the precision,
and at least two to the precision beyond. -/
structure StandsFor (f : Format) (x : Magnitude) (k : Nat) : Prop where
  pos : 0 < k
  least : x.AtLeast (min k (2 ^ f.precision) * 2 ^ f.fraction)
  most : k ≤ 2 ^ f.precision → x.AtMost (k * 2 ^ f.fraction)

omit hf in
theorem StandsFor.eq_finite (h : f.StandsFor x k) (hk : k ≤ 2 ^ f.precision) :
    x = .finite (k * 2 ^ f.fraction) := by
  have hleast := h.least
  rw [Nat.min_eq_left hk] at hleast
  exact (h.most hk).eq_finite hleast

omit hf in
theorem standsFor_finite (hk : 0 < k) : f.StandsFor (.finite (k * 2 ^ f.fraction)) k where
  pos := hk
  least := Nat.mul_le_mul_right _ (Nat.min_le_left _ _)
  most := fun _ => Nat.le_refl _

theorem Regular.standsFor_ofNat (hk : 0 < k) (hle : k ≤ 2 ^ f.precision) :
    f.StandsFor (f.ofNat k) k := by
  rw [hf.ofNat_eq hle]
  exact standsFor_finite hk

omit hf in
/-- Cutting a product off cuts no more off than cutting its factors off. -/
theorem min_mul_le {k m c : Nat} (hk : 0 < k) (hm : 0 < m) (hc : 0 < c) :
    min (k * m) c ≤ min k c * min m c := by
  by_cases hkc : k ≤ c
  · by_cases hmc : m ≤ c
    · rw [Nat.min_eq_left hkc, Nat.min_eq_left hmc]
      exact Nat.min_le_left _ _
    · rw [Nat.min_eq_left hkc, Nat.min_eq_right (by omega : c ≤ m)]
      exact (Nat.min_le_right _ _).trans (Nat.le_mul_of_pos_left c hk)
  · rw [Nat.min_eq_right (by omega : c ≤ k)]
    exact (Nat.min_le_right _ _).trans (Nat.le_mul_of_pos_right c (Nat.lt_min.mpr ⟨hm, hc⟩))

/-- **The product of what stands for two numbers stands for their product.** -/
theorem Regular.standsFor_mul (hx : f.StandsFor x k) (hy : f.StandsFor y m) :
    f.StandsFor (f.mul x y) (k * m) := by
  have hpos : 0 < 2 ^ f.precision := Nat.two_pow_pos _
  refine ⟨Nat.mul_pos hx.pos hy.pos, ?_, fun hle => ?_⟩
  · apply atLeast_mul hf.precision_pos _ _ hx.least hy.least
      (holds_of_le hf.precision_pos (Nat.min_le_right _ _))
    · calc min (k * m) (2 ^ f.precision) * 2 ^ f.fraction * 2 ^ f.fraction
          ≤ min k (2 ^ f.precision) * min m (2 ^ f.precision) * 2 ^ f.fraction * 2 ^ f.fraction :=
            Nat.mul_le_mul_right _ (Nat.mul_le_mul_right _ (min_mul_le hx.pos hy.pos hpos))
        _ = min k (2 ^ f.precision) * 2 ^ f.fraction *
              (min m (2 ^ f.precision) * 2 ^ f.fraction) := by ring
    · exact Nat.mul_pos (Nat.lt_min.mpr ⟨hx.pos, hpos⟩) (Nat.two_pow_pos _)
    · exact Nat.mul_pos (Nat.lt_min.mpr ⟨hy.pos, hpos⟩) (Nat.two_pow_pos _)
  · -- Both factors are within the precision, so both are exact.
    have hk : k ≤ 2 ^ f.precision := (Nat.le_mul_of_pos_right k hy.pos).trans hle
    have hm : m ≤ 2 ^ f.precision := (Nat.le_mul_of_pos_left m hx.pos).trans hle
    apply atMost_mul (hx.most hk) (hy.most hm) (holds_of_le hf.precision_pos hle)
      (hf.whole_lt_limit hle)
    apply Nat.le_of_eq
    ring

/-- **A power is exact up to two to the precision,** and stays beyond from there on. -/
theorem Regular.standsFor_power (hx : f.StandsFor x m) (n : Nat) :
    f.StandsFor (f.power x n) (m ^ n) := by
  have hmul : ∀ x y i j, f.StandsFor x (m ^ i) → f.StandsFor y (m ^ j) →
      f.StandsFor (f.mul x y) (m ^ (i + j)) := by
    intro x y i j hi hj
    rw [Nat.pow_add]
    exact hf.standsFor_mul hi hj
  have hone : f.StandsFor (f.ofNat 1) (m ^ 0) := by
    rw [Nat.pow_zero]
    exact hf.standsFor_ofNat Nat.one_pos Nat.one_le_two_pow
  have hbase : f.StandsFor x (m ^ 1) := by
    rw [Nat.pow_one]
    exact hx
  have hpower := powerFrom_rel hmul (fun y j hj => hmul y y j j hj hj) hone hbase n
  rwa [Nat.zero_add, Nat.mul_one] at hpower

end Regular

/-! ## 7. Whole parts below a cap -/

variable {k cap : Nat}

theorem floor_mul (f : Format) (k : Nat) : f.floor (k * 2 ^ f.fraction) = k :=
  Nat.mul_div_cancel k (Nat.two_pow_pos _)

theorem floor_mono {a b : Nat} (h : a ≤ b) : f.floor a ≤ f.floor b := Nat.div_le_div_right h

theorem minUnits_le (x : Magnitude) (b : Nat) : x.minUnits b ≤ b := by
  cases x with
  | finite units => exact Nat.min_le_right _ _
  | infinite => exact Nat.le_refl _
  | undefined => exact Nat.le_refl _

theorem le_minUnits {c : Nat} (hx : x.AtLeast c) (hc : c ≤ b) : c ≤ x.minUnits b := by
  cases x with
  | finite units => exact Nat.le_min.mpr ⟨hx, hc⟩
  | infinite => exact hc
  | undefined => exact hc

theorem floor_minUnits_le (f : Format) (x : Magnitude) (cap : Nat) :
    f.floor (x.minUnits (cap * 2 ^ f.fraction)) ≤ cap := by
  have hfloor := floor_mono (f := f) (minUnits_le x (cap * 2 ^ f.fraction))
  rwa [floor_mul] at hfloor

theorem le_floor_minUnits (hx : x.AtLeast (k * 2 ^ f.fraction)) (hk : k ≤ cap) :
    k ≤ f.floor (x.minUnits (cap * 2 ^ f.fraction)) := by
  have hfloor := floor_mono (f := f) (le_minUnits hx (Nat.mul_le_mul_right _ hk))
  rwa [floor_mul] at hfloor

/-- A whole number times something that is at least one stays at least this number. -/
theorem Regular.le_floor_mul (hf : f.Regular) (hk : 0 < k) (hle : k ≤ 2 ^ f.precision)
    (hy : y.AtLeast (2 ^ f.fraction)) (hcap : k ≤ cap) :
    k ≤ f.floor ((f.mul (f.ofNat k) y).minUnits (cap * 2 ^ f.fraction)) := by
  have hpos : 0 < 2 ^ f.fraction := Nat.two_pow_pos _
  rw [hf.ofNat_eq hle]
  apply le_floor_minUnits _ hcap
  apply atLeast_mul hf.precision_pos (Nat.mul_pos hk hpos) hpos (Nat.le_refl _) hy
  · exact holds_of_le hf.precision_pos hle
  · exact Nat.le_refl _

/-- Below a cap within the precision, what stands for a number is that number. -/
theorem StandsFor.floor_minUnits (h : f.StandsFor x k) (hcap : cap ≤ 2 ^ f.precision) :
    f.floor (x.minUnits (cap * 2 ^ f.fraction)) = min k cap := by
  by_cases hk : k ≤ 2 ^ f.precision
  · rw [h.eq_finite hk, Magnitude.minUnits, Nat.mul_min_mul_right, floor_mul]
  · have hleast := h.least
    rw [Nat.min_eq_right (by omega)] at hleast
    rw [Nat.min_eq_right (by omega)]
    apply Nat.le_antisymm (f.floor_minUnits_le x cap)
    exact le_floor_minUnits (hleast.mono (Nat.mul_le_mul_right _ hcap)) (Nat.le_refl _)

end Format

end StreamBoard.Binary

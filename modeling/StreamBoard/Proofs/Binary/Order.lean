import StreamBoard.Proofs.Binary.Rounding

/-!
# Order — operations keep the order of magnitudes

Rounding is monotone (`rounded_mono`), hence so are products, and a power of a base that is at
least one does not fall with its exponent.  The exponent and its successor are multiplied out along
different squares: below the lowest zero bit of the exponent stand ones, and all their squares
together are not greater than the one square of the successor in their place
(`powerFrom_le_succ`).
-/

namespace StreamBoard.Binary

/-! ## 1. Rounding -/

theorem nearestEven_mono {a b : Nat} (den : Nat) (h : a ≤ b) :
    nearestEven a den ≤ nearestEven b den := by
  have hquotient : a / den ≤ b / den := Nat.div_le_div_right h
  have ha : den * (a / den) + a % den = a := Nat.div_add_mod a den
  have hb : den * (b / den) + b % den = b := Nat.div_add_mod b den
  unfold nearestEven
  dsimp only
  by_cases heq : a / den = b / den
  · -- With the same quotient the remainders are in order.
    rw [heq] at ha ⊢
    have hrest : a % den ≤ b % den := by omega
    split_ifs <;> omega
  · split_ifs <;> omega

namespace Format

variable {f : Format}

/-- **Rounding is monotone.** -/
theorem rounded_mono (hp : 0 < f.precision) {a b den : Nat} (hden : 0 < den) (h : a ≤ b) :
    f.rounded a den ≤ f.rounded b den := by
  have hquotient : a / den ≤ b / den := Nat.div_le_div_right h
  by_cases hexcess : f.excess (a / den) = f.excess (b / den)
  · unfold rounded
    rw [hexcess]
    exact Nat.mul_le_mul_right _ (nearestEven_mono _ h)
  · -- The greater quotient has more bits, and the power of two at its head lies between the two.
    have hle : f.excess (a / den) ≤ f.excess (b / den) := excess_mono hquotient
    have hhead := head_between (by omega : f.excess (a / den) < f.excess (b / den))
    have hholds : f.Holds (2 ^ (b / den).log2) := holds_two_pow hp _
    have hbelow : f.rounded a den ≤ 2 ^ (b / den).log2 :=
      rounded_le hden hholds ((Nat.div_lt_iff_lt_mul hden).mp hhead.1).le
    apply hbelow.trans
    exact le_rounded hp hden hholds ((Nat.le_div_iff_mul_le hden).mp hhead.2)

/-- What has been rounded is a number of the format. -/
theorem holds_rounded (hp : 0 < f.precision) {num den : Nat} (hden : 0 < den) :
    f.Holds (f.rounded num den) := by
  have hnum : num < 2 ^ ((num / den).log2 + 1) * den :=
    (Nat.div_lt_iff_lt_mul hden).mp Nat.lt_log2_self
  have hholds : f.Holds (2 ^ ((num / den).log2 + 1)) := holds_two_pow hp _
  have hle : f.rounded num den ≤ 2 ^ ((num / den).log2 + 1) := rounded_le hden hholds hnum.le
  by_cases htop : f.rounded num den = 2 ^ ((num / den).log2 + 1)
  · rw [htop]
    exact hholds
  by_cases hzero : f.rounded num den = 0
  · rw [hzero]
    exact f.holds_zero
  -- Short of the next power of two the result has no more bits than what was rounded.
  have hlog : (f.rounded num den).log2 < (num / den).log2 + 1 :=
    (Nat.log2_lt hzero).mpr (by omega)
  have hexcess : f.excess (f.rounded num den) ≤ f.excess (num / den) := by
    unfold excess
    omega
  exact (Nat.pow_dvd_pow 2 hexcess).trans (Nat.dvd_mul_left _ _)

end Format

/-! ## 2. Products -/

namespace Magnitude

/-- Not greater, where all that is not finite is greatest. -/
def Le (x y : Magnitude) : Prop := ∀ b, y = .finite b → ∃ a, x = .finite a ∧ a ≤ b

variable {x y z : Magnitude}

theorem Le.refl (x : Magnitude) : x.Le x := fun b hb => ⟨b, hb, Nat.le_refl b⟩

theorem Le.trans (hxy : x.Le y) (hyz : y.Le z) : x.Le z := by
  intro c hc
  obtain ⟨b, hb, hbc⟩ := hyz c hc
  obtain ⟨a, ha, hab⟩ := hxy b hb
  exact ⟨a, ha, hab.trans hbc⟩

theorem Le.minUnits_le (h : x.Le y) (b : Nat) : x.minUnits b ≤ y.minUnits b := by
  cases y with
  | finite v =>
    obtain ⟨u, rfl, huv⟩ := h v rfl
    exact min_le_min_right b huv
  | infinite => exact Format.minUnits_le x b
  | undefined => exact Format.minUnits_le x b

end Magnitude

namespace Format

variable {f : Format} {x y z x' y' : Magnitude} {n : Nat}

theorem eq_finite_of_mul {u : Nat} (h : f.mul x y = .finite u) :
    ∃ a b, x = .finite a ∧ y = .finite b ∧ f.round (a * b) (2 ^ f.fraction) = .finite u := by
  cases x with
  | finite a =>
    cases y with
    | finite b => exact ⟨a, b, rfl, rfl, h⟩
    | infinite =>
      rw [mul] at h
      split at h <;> cases h
    | undefined => cases h
  | infinite =>
    cases y with
    | finite b =>
      rw [mul] at h
      split at h <;> cases h
    | infinite => cases h
    | undefined => cases h
  | undefined => cases h

theorem round_mono (hp : 0 < f.precision) {a b den : Nat} (hden : 0 < den) (h : a ≤ b) :
    (f.round a den).Le (f.round b den) := by
  have hrounded : f.rounded a den ≤ f.rounded b den := rounded_mono hp hden h
  intro v hv
  rw [round_eq] at hv
  split at hv
  · cases hv
  · cases hv
    refine ⟨f.rounded a den, ?_, hrounded⟩
    rw [round_eq, if_neg (by omega)]

/-- **The product is monotone.** -/
theorem mul_mono (hp : 0 < f.precision) (hx : x.Le x') (hy : y.Le y') :
    (f.mul x y).Le (f.mul x' y') := by
  intro v hv
  obtain ⟨a', b', rfl, rfl, hround⟩ := eq_finite_of_mul hv
  obtain ⟨a, rfl, ha⟩ := hx a' rfl
  obtain ⟨b, rfl, hb⟩ := hy b' rfl
  exact round_mono hp (Nat.two_pow_pos _) (Nat.mul_le_mul ha hb) v hround

/-! ## 3. Powers -/

/-- A finite magnitude is a number of the format below its limit. -/
def Keeps (f : Format) (x : Magnitude) : Prop :=
  ∀ u, x = .finite u → f.Holds u ∧ u < 2 ^ f.limit

theorem keeps_finite {u : Nat} (h : f.Holds u) (hlimit : u < 2 ^ f.limit) :
    f.Keeps (.finite u) := by
  intro v hv
  rw [← Magnitude.finite.inj hv]
  exact ⟨h, hlimit⟩

theorem keeps_mul (hp : 0 < f.precision) (x y : Magnitude) : f.Keeps (f.mul x y) := by
  intro u hu
  obtain ⟨a, b, rfl, rfl, hround⟩ := eq_finite_of_mul hu
  refine ⟨?_, lt_limit_of_round hround⟩
  rw [round_eq] at hround
  split at hround
  · cases hround
  · cases hround
    exact holds_rounded hp (Nat.two_pow_pos _)

theorem Regular.one_mul (hf : f.Regular) (hx : f.Keeps x) : f.mul (f.ofNat 1) x = x := by
  rw [hf.ofNat_one]
  cases x with
  | finite u =>
    have hkeeps := hx u rfl
    have hunits : 2 ^ f.fraction * u = u * 2 ^ f.fraction := Nat.mul_comm _ _
    apply Magnitude.AtMost.eq_finite
    · exact atMost_round (Nat.two_pow_pos _) hkeeps.1 hkeeps.2 hunits.le
    · exact atLeast_round hf.precision_pos (Nat.two_pow_pos _) hkeeps.1 hunits.ge
  | infinite => rw [mul, if_neg (Nat.two_pow_pos _).ne']
  | undefined => rfl

theorem powerFrom_mono (hp : 0 < f.precision) (hx : x.Le x') (hy : y.Le y') (n : Nat) :
    (f.powerFrom x y n).Le (f.powerFrom x' y' n) := by
  induction n using Nat.strong_induction_on generalizing x y x' y' with
  | h n ih =>
    have hsquare : (f.mul y y).Le (f.mul y' y') := mul_mono hp hy hy
    by_cases hodd : n % 2 = 1
    · have hacc : (f.mul x y).Le (f.mul x' y') := mul_mono hp hx hy
      rw [powerFrom_odd hodd, powerFrom_odd hodd]
      by_cases hlast : n / 2 = 0
      · rw [if_pos hlast, if_pos hlast]
        exact hacc
      · rw [if_neg hlast, if_neg hlast]
        exact ih (n / 2) (by omega) hacc hsquare
    · rw [powerFrom_even hodd, powerFrom_even hodd]
      by_cases hlast : n / 2 = 0
      · rw [if_pos hlast, if_pos hlast]
        exact hx
      · rw [if_neg hlast, if_neg hlast]
        exact ih (n / 2) (by omega) hx hsquare

/-- **The next exponent makes no power smaller,** as long as what has been multiplied together
below a carry is not greater than the square that the carry goes to. -/
theorem powerFrom_le_succ (hf : f.Regular) (hy : f.Keeps y) (hx : x.Le y) (n : Nat) :
    (f.powerFrom x y n).Le (f.powerFrom (f.ofNat 1) y (n + 1)) := by
  induction n using Nat.strong_induction_on generalizing x y with
  | h n ih =>
    have hp := hf.precision_pos
    by_cases hodd : n % 2 = 1
    · -- The last bit of the successor is zero, and the carry goes on.
      have hsquare : f.Keeps (f.mul y y) := keeps_mul hp y y
      have hacc : (f.mul x y).Le (f.mul y y) := mul_mono hp hx (.refl y)
      have hcarry : (n + 1) / 2 = n / 2 + 1 := by omega
      rw [powerFrom_odd hodd, powerFrom_even (by omega : ¬(n + 1) % 2 = 1), hcarry,
        if_neg (Nat.succ_ne_zero _)]
      by_cases hlast : n / 2 = 0
      · rw [if_pos hlast, hlast, powerFrom_odd (by decide : (0 + 1) % 2 = 1), if_pos (by decide),
          hf.one_mul hsquare]
        exact hacc
      · rw [if_neg hlast]
        exact ih (n / 2) (by omega) hsquare hacc
    · -- The carry stops here, and the higher bits are the same.
      have hacc : x.Le (f.mul (f.ofNat 1) y) := by
        rw [hf.one_mul hy]
        exact hx
      have hsame : (n + 1) / 2 = n / 2 := by omega
      rw [powerFrom_even hodd, powerFrom_odd (by omega : (n + 1) % 2 = 1), hsame]
      by_cases hlast : n / 2 = 0
      · rw [if_pos hlast, if_pos hlast]
        exact hacc
      · rw [if_neg hlast, if_neg hlast]
        exact powerFrom_mono hp hacc (.refl _) (n / 2)

/-- **Powers of a base that is at least one do not fall.** -/
theorem power_mono (hf : f.Regular) (hx : f.Keeps x) (hone : (f.ofNat 1).Le x) {m n : Nat}
    (h : m ≤ n) : (f.power x m).Le (f.power x n) := by
  induction n, h using Nat.le_induction with
  | base => exact .refl _
  | succ n _ ih => exact ih.trans (powerFrom_le_succ hf hx hone n)

end Format

end StreamBoard.Binary

/-!
# Magnitude — binary floating point without sign, in exact integers

The numbers of a binary floating-point format are multiples of one least unit `2 ^ -fraction`.  A
finite magnitude is held as its natural number of units, so every operation is exact integer
arithmetic followed by one rounding (`Format.round`): to a multiple of the power of two that leaves
`precision` bits, to the nearest such multiple, and to the even one from halfway.
-/

namespace StreamBoard.Binary

/-- The shape of a floating-point format. -/
structure Format where
  /-- Bits of a significand. -/
  precision : Nat
  /-- Binary places: the least unit is `2 ^ -fraction`. -/
  fraction : Nat
  /-- Magnitudes of `2 ^ limit` units and more are infinite. -/
  limit : Nat
deriving DecidableEq

namespace Format

/-- Double precision: 53 bits, least unit `2 ^ -1074`, infinite from `2 ^ 1024` on. -/
def double : Format := ⟨53, 1074, 2098⟩

/-- Single precision: 24 bits, least unit `2 ^ -149`, infinite from `2 ^ 128` on. -/
def single : Format := ⟨24, 149, 277⟩

end Format

/-- A magnitude of some format, counted in the format's least units. -/
inductive Magnitude
  | finite (units : Nat)
  | infinite
  /-- No number at all, such as zero times infinity. -/
  | undefined
deriving DecidableEq

/-! ## 1. Rounding -/

/-- The integer nearest to `num / den`; from halfway the even one. -/
def nearestEven (num den : Nat) : Nat :=
  let q := num / den
  let r := num % den
  if 2 * r < den then q
  else if den < 2 * r then q + 1
  else if q % 2 = 0 then q
  else q + 1

namespace Format

/-- The bits that a magnitude of `units` units has beyond the precision: it is a multiple of two to
this power when it is in the format. -/
def excess (f : Format) (units : Nat) : Nat := units.log2 + 1 - f.precision

def round (f : Format) (num den : Nat) : Magnitude :=
  let step := Nat.pow 2 (f.excess (num / den))
  let units := nearestEven num (den * step) * step
  if Nat.pow 2 f.limit ≤ units then .infinite else .finite units

def ofNat (f : Format) (n : Nat) : Magnitude := f.round (n * Nat.pow 2 f.fraction) 1

/-- The product, rounded once. -/
def mul (f : Format) : Magnitude → Magnitude → Magnitude
  | .finite a, .finite b => f.round (a * b) (Nat.pow 2 f.fraction)
  | .finite a, .infinite => if a = 0 then .undefined else .infinite
  | .infinite, .finite b => if b = 0 then .undefined else .infinite
  | .infinite, .infinite => .infinite
  | .undefined, _ => .undefined
  | _, .undefined => .undefined

/-- The quotient by a positive divisor of `units` units, rounded once. -/
def divBy (f : Format) (units : Nat) : Magnitude → Magnitude
  | .finite a => f.round (a * Nat.pow 2 f.fraction) units
  | x => x

/-- The quotient by a magnitude that is finite and positive. -/
def div (f : Format) (x : Magnitude) : Magnitude → Magnitude
  | .finite units => f.divBy units x
  | _ => .undefined

/-- The power by repeated squaring, each product rounded on its own; `acc` carries the factors of
the odd exponents met so far. -/
def powerFrom (f : Format) (acc base : Magnitude) (exponent : Nat) : Magnitude :=
  let acc := if exponent % 2 = 1 then f.mul acc base else acc
  if exponent / 2 = 0 then acc else f.powerFrom acc (f.mul base base) (exponent / 2)
termination_by exponent
decreasing_by omega

def power (f : Format) (base : Magnitude) (exponent : Nat) : Magnitude :=
  f.powerFrom (f.ofNat 1) base exponent

/-- The natural number below a count of units. -/
def floor (f : Format) (units : Nat) : Nat := units / Nat.pow 2 f.fraction

end Format

/-- The lesser of a magnitude and a finite one; an undefined magnitude gives way. -/
def Magnitude.minUnits : Magnitude → Nat → Nat
  | .finite a, b => min a b
  | .infinite, b => b
  | .undefined, b => b

end StreamBoard.Binary

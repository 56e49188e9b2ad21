import StreamBoard.Binary.Magnitude

/-!
# Shortest — the fewest decimal digits that name a floating-point number

A decimal names a finite magnitude when it lies in the interval of reals that round to it; the ends
of the interval belong to it when the significand is even.  `shortest` walks the decimal grids from
coarse to fine, looks at the two neighbours of the number on each, and takes the first grid with a
neighbour inside the interval, of two the nearer one.
-/

namespace StreamBoard.Binary

/-- A decimal `digits * 10 ^ exponent`. -/
structure Decimal where
  digits : Nat
  exponent : Int
deriving DecidableEq

/-- The number of decimal digits of a positive natural number; zero has none. -/
def decimalLength (n : Nat) : Nat := if n = 0 then 0 else (Nat.toDigits 10 n).length

namespace Format

/-- The interval that rounds to `units`, in quarters of a unit: its two ends, and whether they
belong to it. -/
def interval (f : Format) (units : Nat) : Nat × Nat × Bool :=
  let step := Nat.pow 2 (f.excess units)
  let below := if units = Nat.pow 2 (f.precision - 1) * step ∧ 1 < step then step else 2 * step
  (4 * units - below, 4 * units + 2 * step, units / step % 2 = 0)

/-- The exponent of the leading decimal digit of `units` units. -/
def leadingExponent (f : Format) (units : Nat) : Int :=
  let places := f.fraction
  (decimalLength (units * Nat.pow 10 places / Nat.pow 2 f.fraction) : Int) - 1 - places

/-- The neighbour of `units` on the grid `10 ^ exponent` that lies in the interval, if one does. -/
def onGrid (f : Format) (units : Nat) (exponent : Int) : Option Nat :=
  let (low, high, closed) := f.interval units
  let up := Nat.pow 10 (-exponent).toNat
  let down := Nat.pow 2 f.fraction * Nat.pow 10 exponent.toNat
  let inside (c : Nat) : Bool :=
    let x := 4 * c * down
    if closed then low * up ≤ x && x ≤ high * up else low * up < x && x < high * up
  let floor := units * up / down
  let distanceBelow := units * up - floor * down
  let distanceAbove := (floor + 1) * down - units * up
  match inside floor, inside (floor + 1) with
  | true, true =>
    if distanceBelow < distanceAbove then some floor
    else if distanceAbove < distanceBelow then some (floor + 1)
    else if floor % 2 = 0 then some floor
    else some (floor + 1)
  | true, false => some floor
  | false, true => some (floor + 1)
  | false, false => none

/-- Tries grids of `count` digits more, from the grid `10 ^ exponent` on to finer ones. -/
def firstGrid (f : Format) (units : Nat) : Nat → Int → Decimal
  | 0, exponent =>
    let up := Nat.pow 10 (-exponent).toNat
    let down := Nat.pow 2 f.fraction * Nat.pow 10 exponent.toNat
    ⟨units * up / down, exponent⟩
  | count + 1, exponent =>
    match f.onGrid units exponent with
    | some digits => ⟨digits, exponent⟩
    | none => f.firstGrid units count (exponent - 1)

/-- The shortest decimal that names `units` units; of two the nearer, from halfway the even one.
Seventeen digits name every double.  On the coarsest grid the neighbour above `9` is `10`, which is
written with one digit. -/
def shortest (f : Format) (units : Nat) : Decimal :=
  let d := f.firstGrid units 17 (f.leadingExponent units)
  if d.digits = 10 then ⟨1, d.exponent + 1⟩ else d

end Format

end StreamBoard.Binary

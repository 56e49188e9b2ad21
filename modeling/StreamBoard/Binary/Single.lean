import StreamBoard.Binary.Magnitude

/-!
# Single — single-precision numbers by their bits

Every pattern of 32 bits is a number: a sign, eight bits of exponent, 23 bits of fraction.  Counted
in units of `2 ^ -149` the fields say: the fraction alone for exponent zero, else the fraction with
a leading one, doubled once less than the exponent says.
-/

namespace StreamBoard.Binary

/-- A single-precision number, infinities and undefined ones included. -/
structure Single where
  bits : UInt32
deriving DecidableEq

namespace Single

def one : Single := ⟨0x3f800000⟩

def negative (x : Single) : Bool := 2147483648 ≤ x.bits.toNat

def exponentField (x : Single) : Nat := x.bits.toNat / 8388608 % 256

def fractionField (x : Single) : Nat := x.bits.toNat % 8388608

def magnitude (x : Single) : Magnitude :=
  if x.exponentField = 255 then (if x.fractionField = 0 then .infinite else .undefined)
  else if x.exponentField = 0 then .finite x.fractionField
  else .finite ((8388608 + x.fractionField) * Nat.pow 2 (x.exponentField - 1))

def isUndefined (x : Single) : Bool := x.magnitude = .undefined

/-- The number with this sign and magnitude.  With `k` bits beyond the precision the exponent field
is `k + 1`, and the leading one of the significand supplies one of these. -/
def ofMagnitude (negative : Bool) (x : Magnitude) : Single :=
  let sign := if negative then 2147483648 else 0
  match x with
  | .finite units =>
    let k := Format.single.excess units
    ⟨.ofNat (sign + k * 8388608 + units / Nat.pow 2 k)⟩
  | .infinite => ⟨.ofNat (sign + 255 * 8388608)⟩
  | .undefined => ⟨.ofNat (sign + 255 * 8388608 + 4194304)⟩

/-- The units of a finite number above one. -/
def aboveOne? (x : Single) : Option Nat :=
  match x.magnitude with
  | .finite units =>
    if !x.negative && Nat.pow 2 Format.single.fraction < units then some units else none
  | _ => none

end Single

end StreamBoard.Binary

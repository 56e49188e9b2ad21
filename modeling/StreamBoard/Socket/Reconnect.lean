import StreamBoard.Binary.Single

/-!
# Reconnect — when the next attempt is made, and when there is none

The delay before an attempt is the initial delay times a power of the multiplier, in double
precision, and never more than the greatest delay.  A multiplier that is not a finite number above
one leaves the delay as it is.
-/

namespace StreamBoard.Socket

open Binary

/-- How a lost connection is taken up again; delays are in milliseconds. -/
structure Policy where
  /-- Reconnect attempts in a row; zero sets no limit. -/
  maxAttempts : UInt32 := 0
  initialDelay : UInt32 := 1000
  /-- The greatest delay; an initial delay above it counts instead. -/
  maxDelay : UInt32 := 30000
  /-- What the delay is multiplied by from one attempt to the next. -/
  backoff : Single := .one
deriving DecidableEq

namespace Policy

/-- Retries forever at one distance. -/
def fixed (delay : UInt32) : Policy := { initialDelay := delay }

/-- The multiplier as a double; a unit of single precision is `2 ^ 925` units of double. -/
def multiplier (p : Policy) : Magnitude :=
  match p.backoff.aboveOne? with
  | some units => .finite (units * Nat.pow 2 (Format.double.fraction - Format.single.fraction))
  | none => Format.double.ofNat 1

def cap (p : Policy) : Nat := max p.maxDelay.toNat p.initialDelay.toNat

/-- The delay after `failures` failed attempts in a row.  An undefined product counts as the cap. -/
def delay (p : Policy) (failures : Nat) : Nat :=
  let f := Format.double
  let power := f.power p.multiplier (min failures 2147483647)
  let product := f.mul (f.ofNat p.initialDelay.toNat) power
  f.floor (product.minUnits (p.cap * Nat.pow 2 f.fraction))

/-- Whether `attempts` failed reconnect attempts in a row are all that there may be. -/
def exhausted (p : Policy) (attempts : Nat) : Bool :=
  0 < p.maxAttempts.toNat && p.maxAttempts.toNat ≤ attempts

end Policy

end StreamBoard.Socket

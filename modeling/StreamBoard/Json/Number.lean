import StreamBoard.Binary.Shortest

/-!
# Number — the numbers of JSON values

A number is an integer from `-2 ^ 63` up to `2 ^ 64`, kept exactly, or a finite double.  An integer
and a double are never the same number, and the double keeps the sign of zero.

A decimal is read as a double in two roundings (`Double.ofDecimal`): its digits become a double, and
that is multiplied or divided once by the double of a power of ten.  The result is not always the
double nearest to the decimal.
-/

namespace StreamBoard.Json

open Binary

/-! ## 1. Integers -/

/-- An integer that fits in 64 bits, signed or unsigned. -/
structure Integer where
  val : Int
  lower : -9223372036854775808 ≤ val
  upper : val < 18446744073709551616
deriving DecidableEq

namespace Integer

/-- The integer of this value, if it is in range. -/
def ofInt? (i : Int) : Option Integer :=
  if h : -9223372036854775808 ≤ i ∧ i < 18446744073709551616 then some ⟨i, h.1, h.2⟩ else none

def ofInt64 (i : Int64) : Integer :=
  ⟨i.toInt, Int64.le_toInt i, Int.lt_trans (Int64.toInt_lt i) (by decide)⟩

def ofUInt64 (n : UInt64) : Integer :=
  ⟨n.toNat, Int.le_trans (by decide) (Int.natCast_nonneg _),
    by have := UInt64.toNat_lt n; omega⟩

/-- Decimal digits, after a minus sign where it is negative. -/
def text (i : Integer) : List Char :=
  if i.val < 0 then '-' :: Nat.toDigits 10 i.val.natAbs else Nat.toDigits 10 i.val.natAbs

end Integer

/-! ## 2. Doubles -/

/-- A finite double: its sign and its magnitude in units of `2 ^ -1074`. -/
structure Double where
  negative : Bool
  units : Nat
deriving DecidableEq

namespace Double

/-- The magnitude times `10 ^ -places`, by one division; before it the scale is brought down to
308 places by `steps` divisions by `10 ^ 308`, as far as anything is left. -/
def scaleDown (places : Nat) : Nat → Magnitude → Magnitude
  | 0, x => divideBy places x
  | steps + 1, x =>
    if x = .finite 0 then x else scaleDown places steps (divideBy 308 x)
where
  divideBy (places : Nat) (x : Magnitude) : Magnitude :=
    Format.double.div x (Format.double.ofNat (Nat.pow 10 places))

/-- The magnitude read for `digits * 10 ^ exponent`. -/
def ofDecimal (digits : Nat) (exponent : Int) : Magnitude :=
  let x := Format.double.ofNat digits
  if digits = 0 then .finite 0
  else if 308 < exponent then .infinite
  else if 0 ≤ exponent then
    Format.double.mul x (Format.double.ofNat (Nat.pow 10 exponent.toNat))
  else
    let places := exponent.natAbs
    let steps := (places - 1) / 308
    scaleDown (places - 308 * steps) steps x

/-- A decimal as text, in a form that keeps the mark of a fraction: positional when the leading
digit stands for `10 ^ -5` up to `10 ^ 15`, else one digit before the point and an exponent with its
sign. -/
def decimalText (d : Decimal) : List Char :=
  let digits := Nat.toDigits 10 d.digits
  let point : Int := digits.length + d.exponent
  if -5 < point ∧ point ≤ 16 then
    if 0 ≤ d.exponent then digits ++ List.replicate d.exponent.toNat '0' ++ ['.', '0']
    else if 0 < point then digits.take point.toNat ++ '.' :: digits.drop point.toNat
    else '0' :: '.' :: List.replicate point.natAbs '0' ++ digits
  else
    let lead := digits.take 1
    let rest := digits.drop 1
    let exponent := point - 1
    lead ++ (if rest.isEmpty then [] else '.' :: rest) ++ 'e' ::
      (if exponent < 0 then '-' else '+') :: Nat.toDigits 10 exponent.natAbs

def text (x : Double) : List Char :=
  let magnitude :=
    if x.units = 0 then ['0', '.', '0'] else decimalText (Format.double.shortest x.units)
  if x.negative then '-' :: magnitude else magnitude

/-- Equality of values: the two zeros are equal. -/
def sameValue (x y : Double) : Bool :=
  x.units == y.units && (x.negative == y.negative || x.units == 0)

end Double

/-! ## 3. Numbers -/

inductive Number
  | integer (value : Integer)
  | double (value : Double)
deriving DecidableEq

namespace Number

def text : Number → List Char
  | .integer i => i.text
  | .double x => x.text

def sameValue : Number → Number → Bool
  | .integer i, .integer j => i == j
  | .double x, .double y => x.sameValue y
  | _, _ => false

/-- The number of a numeral without fraction and exponent, where it fits in 64 bits.  A negative
zero is no integer. -/
def ofDigits? (negative : Bool) (digits : Nat) : Option Number :=
  if negative then
    if digits = 0 then none else (Integer.ofInt? (-digits)).map .integer
  else (Integer.ofInt? digits).map .integer

end Number

end StreamBoard.Json

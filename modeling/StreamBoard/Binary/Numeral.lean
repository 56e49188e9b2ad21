import StreamBoard.Binary.Single

/-!
# Numeral — numbers written by hand

Settings give numbers as text.  A natural number has a plus sign or none and digits; a
single-precision number has a sign or none and digits with at most one point, then an exponent or
none, and is the number nearest to that decimal.  It may also be one of the words `inf`, `infinity`
and `nan`, in any case of letters.
-/

namespace StreamBoard.Binary

def digitsValue (digits : List Char) : Nat :=
  digits.foldl (fun n c => n * 10 + (c.toNat - 48)) 0

/-- The natural number below `2 ^ 32` that a text writes. -/
def readUInt32? (s : List Char) : Option UInt32 :=
  let digits := match s with
    | '+' :: r => r
    | _ => s
  if digits.isEmpty || !digits.all Char.isDigit then none
  else
    let n := digitsValue digits
    if n < 4294967296 then some (.ofNat n) else none

/-- The magnitude nearest to `digits * 10 ^ exponent`.  Beyond sixty places either way the result is
plain from the number of digits. -/
def nearestSingle (digits : Nat) (exponent : Int) : Magnitude :=
  let places : Int := (Nat.toDigits 10 digits).length + exponent
  let one := Nat.pow 2 Format.single.fraction
  if digits = 0 then .finite 0
  else if 60 < places then .infinite
  else if places < -60 then .finite 0
  else Format.single.round (digits * Nat.pow 10 exponent.toNat * one) (Nat.pow 10 (-exponent).toNat)

/-- The exponent at the end of a numeral; nothing is zero. -/
def readExponent? (s : List Char) : Option Int :=
  match s with
  | [] => some 0
  | e :: r =>
    if e = 'e' ∨ e = 'E' then
      let (negative, digits) := match r with
        | '-' :: d => (true, d)
        | '+' :: d => (false, d)
        | _ => (false, r)
      if digits.isEmpty || !digits.all Char.isDigit then none
      else some (if negative then -(digitsValue digits) else digitsValue digits)
    else none

def readMagnitude? (s : List Char) : Option Magnitude :=
  let whole := s.takeWhile Char.isDigit
  let (fraction, rest) := match s.dropWhile Char.isDigit with
    | '.' :: r => (r.takeWhile Char.isDigit, r.dropWhile Char.isDigit)
    | r => ([], r)
  if whole.isEmpty && fraction.isEmpty then
    match s.map Char.toLower with
    | ['i', 'n', 'f'] | ['i', 'n', 'f', 'i', 'n', 'i', 't', 'y'] => some .infinite
    | ['n', 'a', 'n'] => some .undefined
    | _ => none
  else
    (readExponent? rest).map fun e =>
      nearestSingle (digitsValue (whole ++ fraction)) (e - fraction.length)

def readSingle? (s : List Char) : Option Single :=
  match s with
  | '-' :: r => (readMagnitude? r).map (.ofMagnitude true)
  | '+' :: r => (readMagnitude? r).map (.ofMagnitude false)
  | _ => (readMagnitude? s).map (.ofMagnitude false)

end StreamBoard.Binary

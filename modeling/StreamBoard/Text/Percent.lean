/-!
# Percent — bytes as text

A byte that text may not hold is written as a percent sign and two hexadecimal digits in upper case.
Which bytes those are depends on where the text stands, so the encoders take them as a predicate.
-/

namespace StreamBoard.Text

/-- The bytes of a text in UTF-8. -/
def utf8 (s : List Char) : List UInt8 := s.flatMap String.utf8EncodeChar

/-- The hexadecimal digit of a number below sixteen, in upper case. -/
def upperHex (n : Nat) : Char := (Nat.digitChar n).toUpper

/-- A byte behind a percent sign. -/
def percentByte (b : UInt8) : List Char :=
  ['%', upperHex (b.toNat / 16), upperHex (b.toNat % 16)]

/-- Writes bytes as text; those that are not `plain` stand behind a percent sign. -/
def percentEncodeBytes (plain : UInt8 → Bool) (bytes : List UInt8) : List Char :=
  bytes.flatMap fun b => if plain b then [Char.ofNat b.toNat] else percentByte b

/-- Writes a text so that it has plain bytes and percent signs only. -/
def percentEncode (plain : UInt8 → Bool) (s : List Char) : List Char :=
  percentEncodeBytes plain (utf8 s)

def isAsciiAlphanumeric (n : Nat) : Bool :=
  (48 ≤ n && n ≤ 57) || (65 ≤ n && n ≤ 90) || (97 ≤ n && n ≤ 122)

/-- Letters, digits, hyphen, full stop, underscore and tilde. -/
def isUnreserved (b : UInt8) : Bool :=
  isAsciiAlphanumeric b.toNat || b == 45 || b == 46 || b == 95 || b == 126

/-- The value of a hexadecimal digit of either case. -/
def hexDigitValue? (c : Char) : Option Nat :=
  let n := c.toNat
  if 48 ≤ n && n ≤ 57 then some (n - 48)
  else if 97 ≤ n && n ≤ 102 then some (n - 87)
  else if 65 ≤ n && n ≤ 70 then some (n - 55)
  else none

/-- The bytes that a text with percent signs stands for; a percent sign without two digits stands
for itself. -/
def percentDecode : List Char → List UInt8
  | [] => []
  | '%' :: a :: b :: rest =>
    match hexDigitValue? a, hexDigitValue? b with
    | some x, some y => .ofNat (x * 16 + y) :: percentDecode rest
    | _, _ => String.utf8EncodeChar '%' ++ percentDecode (a :: b :: rest)
  | c :: rest => String.utf8EncodeChar c ++ percentDecode rest

end StreamBoard.Text

/-!
# Secret — what a publisher presents

A secret is twelve random bytes as text in the URL-safe alphabet of base 64: six bits a character,
three bytes to four characters, and a padding sign where bytes are missing at the end.
-/

namespace StreamBoard.Rest.Secret

/-- The number of random bytes behind a secret. -/
def byteCount : Nat := 12

def alphabet : List Char :=
  "ABCDEFGHIJKLMNOPQRSTUVWXYZabcdefghijklmnopqrstuvwxyz0123456789-_".toList

/-- The character of a number below sixty-four. -/
def digit (n : Nat) : Char := alphabet[n]?.getD '='

/-- Writes bytes in base 64. -/
def encode : List UInt8 → List Char
  | [] => []
  | [a] =>
    let n := a.toNat * 65536
    [digit (n / 262144), digit (n / 4096 % 64), '=', '=']
  | [a, b] =>
    let n := a.toNat * 65536 + b.toNat * 256
    [digit (n / 262144), digit (n / 4096 % 64), digit (n / 64 % 64), '=']
  | a :: b :: c :: rest =>
    let n := a.toNat * 65536 + b.toNat * 256 + c.toNat
    digit (n / 262144) :: digit (n / 4096 % 64) :: digit (n / 64 % 64) :: digit (n % 64) ::
      encode rest

/-- The secret of twelve random bytes. -/
def ofBytes (bytes : List UInt8) : String := .ofList (encode bytes)

end StreamBoard.Rest.Secret

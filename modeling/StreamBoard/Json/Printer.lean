import StreamBoard.Json.Value

/-!
# Printer — the compact text of a JSON value

No blanks, members in the order in which the value lists them.  In strings the quote, the backslash
and the controls below U+0020 are escaped, five of them by a letter; everything else stands for
itself.
-/

namespace StreamBoard.Json

/-- The digit of a number below sixteen, in lower case. -/
def hexDigit (n : Nat) : Char := Nat.digitChar n

def escape (c : Char) : List Char :=
  match c with
  | '"' => ['\\', '"']
  | '\\' => ['\\', '\\']
  | '\n' => ['\\', 'n']
  | '\r' => ['\\', 'r']
  | '\t' => ['\\', 't']
  | '\x08' => ['\\', 'b']
  | '\x0c' => ['\\', 'f']
  | c =>
    if c.toNat < 0x20 then ['\\', 'u', '0', '0', hexDigit (c.toNat / 16), hexDigit (c.toNat % 16)]
    else [c]

def quote (s : List Char) : List Char := '"' :: s.flatMap escape ++ ['"']

mutual

/-- The compact text of a value. -/
def text : Json → List Char
  | .null => ['n', 'u', 'l', 'l']
  | .bool true => ['t', 'r', 'u', 'e']
  | .bool false => ['f', 'a', 'l', 's', 'e']
  | .number n => n.text
  | .string s => quote s.toList
  | .array [] => ['[', ']']
  | .array (x :: xs) => '[' :: x.text ++ textItems xs
  | .object [] => ['{', '}']
  | .object ((k, x) :: xs) => '{' :: quote k.toList ++ ':' :: x.text ++ textMembers xs

/-- The items after the first one, and the closing bracket. -/
def textItems : List Json → List Char
  | [] => [']']
  | x :: xs => ',' :: x.text ++ textItems xs

/-- The members after the first one, and the closing brace. -/
def textMembers : List (String × Json) → List Char
  | [] => ['}']
  | (k, x) :: xs => ',' :: quote k.toList ++ ':' :: x.text ++ textMembers xs

end

def print (v : Json) : String := .ofList v.text

end StreamBoard.Json

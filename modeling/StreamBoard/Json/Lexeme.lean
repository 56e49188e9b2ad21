import StreamBoard.Json.Fault
import StreamBoard.Json.Value

/-!
# Lexeme — the scalars of a JSON text

A scalar is read in one of two ways.  Read for its value, a string has to have paired surrogates and
a number has to be in range; skipped, it only has to have the right shape, and where the text breaks
off inside a number the fault is another one.  A `Lexeme` holds the outcome of both.
-/

namespace StreamBoard.Json

/-- A stretch of text that stands for a value of `α`. -/
structure Lexeme (α : Type) where
  /-- What was unread in front of it. -/
  start : List Char
  /-- Its value, or why it has none. -/
  value : Except Fault α
  /-- Why it cannot even be skipped. -/
  skipFault : Option Fault
  /-- What is unread behind it. -/
  next : List Char

namespace Lexeme

variable {α β : Type}

/-- A lexeme that neither reads nor can be skipped. -/
def broken (start : List Char) (fault : Fault) : Lexeme α :=
  ⟨start, .error fault, some fault, []⟩

def map (f : α → β) (l : Lexeme α) : Lexeme β := { l with value := l.value.map f }

/-- What is unread behind a lexeme that can be skipped. -/
def rest? (l : Lexeme α) : Option (List Char) :=
  if l.skipFault.isSome then none else some l.next

end Lexeme

def isBlank (c : Char) : Bool := c == ' ' || c == '\n' || c == '\t' || c == '\r'

def skipBlanks (s : List Char) : List Char := s.dropWhile isBlank

/-! ## 1. Words -/

/-- Reads the rest of `null`, `true` or `false`. -/
def readWord (word s : List Char) : Except Fault (List Char) :=
  match word, s with
  | [], s => .ok s
  | _ :: _, [] => .error (.at .cutValue [])
  | w :: ws, c :: cs => if w = c then readWord ws cs else .error (.before .expectedIdent (c :: cs))

/-! ## 2. Strings -/

/-- The value of a hexadecimal digit of either case. -/
def hexValue? (c : Char) : Option Nat :=
  if '0' ≤ c ∧ c ≤ '9' then some (c.toNat - 48)
  else if 'a' ≤ c ∧ c ≤ 'f' then some (c.toNat - 87)
  else if 'A' ≤ c ∧ c ≤ 'F' then some (c.toNat - 55)
  else none

def hexFour? (a b c d : Char) : Option Nat := do
  return ((← hexValue? a) * 16 + (← hexValue? b)) * 256 + (← hexValue? c) * 16 + (← hexValue? d)

/-- The fault of a `\u` that four hexadecimal digits do not follow: four bytes are looked at. -/
def hexFault (s : List Char) : Fault :=
  if byteLength s < 4 then .at .cutString [] else ⟨.invalidEscape, some ⟨s, 4⟩⟩

/-- The character that a letter stands for after a backslash. -/
def escapeLetter? (c : Char) : Option Char :=
  match c with
  | '"' => some '"'
  | '\\' => some '\\'
  | '/' => some '/'
  | 'b' => some '\x08'
  | 'f' => some '\x0c'
  | 'n' => some '\n'
  | 'r' => some '\r'
  | 't' => some '\t'
  | _ => none

/-- What a UTF-16 unit means behind the leading surrogate that awaits its mate, if one does. -/
inductive Unit16
  | char (c : Char)
  | lead (unit : Nat)
  | lone

def Unit16.of (lead : Option Nat) (unit : Nat) : Unit16 :=
  match lead with
  | none =>
    if 0xdc00 ≤ unit ∧ unit ≤ 0xdfff then .lone
    else if 0xd800 ≤ unit ∧ unit ≤ 0xdbff then .lead unit
    else .char (.ofNat unit)
  | some high =>
    if 0xdc00 ≤ unit ∧ unit ≤ 0xdfff then
      .char (.ofNat ((high - 0xd800) * 0x400 + (unit - 0xdc00) + 0x10000))
    else .lone

def pushChar (c : Char) (r : Except Fault (List Char × List Char)) :
    Except Fault (List Char × List Char) :=
  r.map fun (text, rest) => (c :: text, rest)

/-- Reads a string from behind its opening quote: its characters, and what is unread behind the
closing quote.  `lead` is a leading surrogate that awaits its mate. -/
def readString (lead : Option Nat) : List Char → Except Fault (List Char × List Char)
  | [] => .error (.at .cutString [])
  | '\\' :: [] => .error (.at .cutString [])
  | '\\' :: 'u' :: a :: b :: c :: d :: rest =>
    match hexFour? a b c d with
    | none => .error (hexFault (a :: b :: c :: d :: rest))
    | some unit =>
      match Unit16.of lead unit with
      | .char c => pushChar c (readString none rest)
      | .lead unit => readString (some unit) rest
      | .lone => .error (.at .loneSurrogate rest)
  | '\\' :: 'u' :: rest => .error (hexFault rest)
  | '\\' :: e :: rest =>
    if lead.isSome then .error (.before .endOfHexEscape (e :: rest))
    else
      match escapeLetter? e with
      | none => .error (.before .invalidEscape (e :: rest))
      | some c => pushChar c (readString none rest)
  | c :: rest =>
    if lead.isSome then .error (.before .endOfHexEscape (c :: rest))
    else if c = '"' then .ok ([], rest)
    else if c.toNat < 0x20 then .error (.before .controlCharacter (c :: rest))
    else pushChar c (readString none rest)

/-- Skips a string from behind its opening quote, whatever its surrogates. -/
def skipString : List Char → Except Fault (List Char)
  | [] => .error (.at .cutString [])
  | '\\' :: [] => .error (.at .cutString [])
  | '\\' :: 'u' :: a :: b :: c :: d :: rest =>
    if (hexFour? a b c d).isSome then skipString rest
    else .error (hexFault (a :: b :: c :: d :: rest))
  | '\\' :: 'u' :: rest => .error (hexFault rest)
  | '\\' :: e :: rest =>
    if (escapeLetter? e).isSome then skipString rest
    else .error (.before .invalidEscape (e :: rest))
  | c :: rest =>
    if c = '"' then .ok rest
    else if c.toNat < 0x20 then .error (.at .controlCharacter (c :: rest))
    else skipString rest

/-- The string that starts here, `s` being unread behind its opening quote. -/
def Lexeme.ofString (start s : List Char) : Lexeme String :=
  let value := (readString none s).map fun r => String.ofList r.1
  match skipString s with
  | .ok rest => ⟨start, value, none, rest⟩
  | .error fault => ⟨start, value, some fault, []⟩

/-! ## 3. Numbers -/

/-- The parts of a numeral, digits as characters. -/
structure Numeral where
  negative : Bool
  whole : List Char
  /-- The digits behind the point, if there is one. -/
  fraction : Option (List Char)
  /-- Whether the exponent is negative, and its digits, if there is one. -/
  exponent : Option (Bool × List Char)

def digitValue (c : Char) : Nat := c.toNat - 48

/-- Takes digits into a number of 64 bits, as many as fit; gives the number and the digits left. -/
def takeDigits (acc : Nat) : List Char → Nat × List Char
  | [] => (acc, [])
  | c :: cs =>
    let next := acc * 10 + digitValue c
    if next < 18446744073709551616 then takeDigits next cs else (acc, c :: cs)

/-- Takes the digits of an exponent into a number of 31 bits; where they do not fit, gives the
digits behind the one that was too many. -/
def takeExponent (acc : Nat) : List Char → Except (List Char) Nat
  | [] => .ok acc
  | c :: cs =>
    let next := acc * 10 + digitValue c
    if next < 2147483648 then takeExponent next cs else .error cs

/-- The double of a magnitude, `rest` being unread when it turns out to be out of range. -/
def numberOfMagnitude (negative : Bool) (rest : List Char) :
    Binary.Magnitude → Except Fault Number
  | .finite units => .ok (.double ⟨negative, units⟩)
  | _ => .error (.at .numberOutOfRange rest)

/-- The number of a numeral with `rest` unread behind it.  Digits of the whole part that do not fit
raise the exponent, those of the fraction are dropped. -/
def Numeral.value (n : Numeral) (rest : List Char) : Except Fault Number :=
  let (whole, left) := takeDigits 0 n.whole
  let fraction := n.fraction.getD []
  let (digits, dropped) := takeDigits whole fraction
  let scale : Int := left.length - (fraction.length - dropped.length : Nat)
  match n.exponent with
  | some (negative, exponent) =>
    match takeExponent 0 exponent with
    | .ok e =>
      numberOfMagnitude n.negative rest
        (Double.ofDecimal digits (if negative then scale - e else scale + e))
    | .error tail =>
      if digits = 0 ∨ negative then .ok (.double ⟨n.negative, 0⟩)
      else .error (.at .numberOutOfRange (tail ++ rest))
  | none =>
    match n.fraction, left, Number.ofDigits? n.negative digits with
    | none, [], some value => .ok value
    | _, _, _ => numberOfMagnitude n.negative rest (Double.ofDecimal digits scale)

/-- A text that does not go on as a number: read for its value, its end is reported as such. -/
def Lexeme.noDigit (start s : List Char) : Lexeme Number :=
  match s with
  | [] => ⟨start, .error (.at .cutValue []), some (.at .invalidNumber []), []⟩
  | _ => .broken start (.before .invalidNumber s)

def Lexeme.ofNumeral (start : List Char) (n : Numeral) (rest : List Char) : Lexeme Number :=
  ⟨start, n.value rest, none, rest⟩

/-- Reads the exponent of a number, `s` being unread behind the `e`. -/
def readExponent (start : List Char) (n : Numeral) (s : List Char) : Lexeme Number :=
  let (negative, s) :=
    match s with
    | '-' :: r => (true, r)
    | '+' :: r => (false, r)
    | _ => (false, s)
  let digits := s.takeWhile Char.isDigit
  if digits.isEmpty then .noDigit start s
  else
    .ofNumeral start { n with exponent := some (negative, digits) } (s.dropWhile Char.isDigit)

/-- Goes on with the exponent where there is one. -/
def readScale (start : List Char) (n : Numeral) (s : List Char) : Lexeme Number :=
  match s with
  | 'e' :: r | 'E' :: r => readExponent start n r
  | _ => .ofNumeral start n s

/-- Goes on with the fraction where there is one. -/
def readFraction (start : List Char) (n : Numeral) (s : List Char) : Lexeme Number :=
  match s with
  | '.' :: r =>
    let digits := r.takeWhile Char.isDigit
    if digits.isEmpty then .noDigit start r
    else readScale start { n with fraction := some digits } (r.dropWhile Char.isDigit)
  | _ => readScale start n s

/-- Reads a number from behind its sign. -/
def readNumber (start : List Char) (negative : Bool) (s : List Char) : Lexeme Number :=
  match s with
  | '0' :: r =>
    match r with
    | c :: _ =>
      if c.isDigit then .broken start (.before .invalidNumber r)
      else readFraction start ⟨negative, ['0'], none, none⟩ r
    | [] => readFraction start ⟨negative, ['0'], none, none⟩ r
  | _ =>
    let digits := s.takeWhile Char.isDigit
    if digits.isEmpty then .noDigit start s
    else readFraction start ⟨negative, digits, none, none⟩ (s.dropWhile Char.isDigit)

/-! ## 4. Scalars -/

inductive Scalar
  | null
  | bool (value : Bool)
  | number (value : Number)
  | string (value : String)

namespace Scalar

def toJson : Scalar → Json
  | .null => .null
  | .bool b => .bool b
  | .number n => .number n
  | .string s => .string s

def found : Scalar → Found
  | .null => .null
  | .bool b => .bool b
  | .number n => .number n
  | .string s => .string s

end Scalar

/-- A word that starts here, `s` being unread behind its first letter. -/
def Lexeme.ofWord (start : List Char) (scalar : Scalar) (word s : List Char) : Lexeme Scalar :=
  match readWord word s with
  | .ok rest => ⟨start, .ok scalar, none, rest⟩
  | .error fault => .broken start fault

/-- The scalar that starts here, no blank in front of it. -/
def Lexeme.scalar (s : List Char) : Lexeme Scalar :=
  match s with
  | [] => .broken s (.at .cutValue [])
  | 'n' :: r => .ofWord s .null ['u', 'l', 'l'] r
  | 't' :: r => .ofWord s (.bool true) ['r', 'u', 'e'] r
  | 'f' :: r => .ofWord s (.bool false) ['a', 'l', 's', 'e'] r
  | '"' :: r => (Lexeme.ofString s r).map .string
  | '-' :: r => (readNumber s true r).map .number
  | c :: _ =>
    if c.isDigit then (readNumber s false s).map .number
    else .broken s (.before .expectedValue s)

end StreamBoard.Json

import StreamBoard.Json.Lexeme

/-!
# Grammar — JSON texts, and what they denote

The rules of RFC 8259 as relations between texts and what they denote, with no reader in sight.  To
these come the limits of the reader: brackets are nested no deeper than a bound, no string has a
lone surrogate, and a number is an integer of 64 bits or finite by the rule in which the reader
converts decimals (`magnitude`).  Of equal keys in an object the last one counts.
-/

namespace StreamBoard.Json.Grammar

/-- `ws = *( %x20 / %x09 / %x0A / %x0D )` -/
def Blanks (w : List Char) : Prop := ∀ c ∈ w, c = ' ' ∨ c = '\t' ∨ c = '\n' ∨ c = '\r'

/-! ## 1. Strings -/

/-- A hexadecimal digit of either case, and its value. -/
def HexDigit (c : Char) (n : Nat) : Prop :=
  "0123456789abcdef".toList[n]? = some c ∨ "0123456789ABCDEF".toList[n]? = some c

/-- `4HEXDIG`, and the unit of 16 bits that they stand for. -/
def HexUnit (a b c d : Char) (unit : Nat) : Prop :=
  ∃ w x y z, HexDigit a w ∧ HexDigit b x ∧ HexDigit c y ∧ HexDigit d z ∧
    unit = 4096 * w + 256 * x + 16 * y + z

/-- What may stand behind a backslash, but for `u`, and the character that it stands for. -/
def escapes : List (Char × Char) :=
  [('"', '"'), ('\\', '\\'), ('/', '/'), ('b', '\x08'), ('f', '\x0c'), ('n', '\n'), ('r', '\r'),
    ('t', '\t')]

/-- `*char`, what stands between the quotes of a string, and its characters. -/
inductive Chars : List Char → List Char → Prop
  | nil : Chars [] []
  /-- Anything but quotes, backslashes and control characters stands for itself. -/
  | plain {c : Char} {t s : List Char} :
      0x20 ≤ c.toNat → c ≠ '"' → c ≠ '\\' → Chars t s → Chars (c :: t) (c :: s)
  | escape {e c : Char} {t s : List Char} :
      (e, c) ∈ escapes → Chars t s → Chars ('\\' :: e :: t) (c :: s)
  /-- The code of a character.  No character has a surrogate for its code. -/
  | unit {a b c d x : Char} {t s : List Char} :
      HexUnit a b c d x.toNat → Chars t s →
      Chars ('\\' :: 'u' :: a :: b :: c :: d :: t) (x :: s)
  /-- A leading and a trailing surrogate, the two halves of a code beyond 16 bits. -/
  | pair {a b c d e f g h x : Char} {high low : Nat} {t s : List Char} :
      HexUnit a b c d high → 0xd800 ≤ high ∧ high ≤ 0xdbff →
      HexUnit e f g h low → 0xdc00 ≤ low ∧ low ≤ 0xdfff →
      x.toNat = 0x10000 + 0x400 * (high - 0xd800) + (low - 0xdc00) → Chars t s →
      Chars ('\\' :: 'u' :: a :: b :: c :: d :: '\\' :: 'u' :: e :: f :: g :: h :: t) (x :: s)

/-! ## 2. Numbers -/

/-- `1*DIGIT` -/
def Digits (ds : List Char) : Prop := ds ≠ [] ∧ ∀ c ∈ ds, c.isDigit = true

/-- `int = zero / ( digit1-9 *DIGIT )` -/
def Whole (ds : List Char) : Prop := ds = ['0'] ∨ Digits ds ∧ ds.head? ≠ some '0'

/-- `[ frac ]` with `frac = decimal-point 1*DIGIT`. -/
inductive Fraction : List Char → Option (List Char) → Prop
  | none : Fraction [] none
  | digits {ds : List Char} : Digits ds → Fraction ('.' :: ds) (some ds)

/-- `[ exp ]` with `exp = e [ minus / plus ] 1*DIGIT`. -/
inductive Exponent : List Char → Option (Bool × List Char) → Prop
  | none : Exponent [] none
  | bare {e : Char} {ds : List Char} :
      e = 'e' ∨ e = 'E' → Digits ds → Exponent (e :: ds) (some (false, ds))
  | plus {e : Char} {ds : List Char} :
      e = 'e' ∨ e = 'E' → Digits ds → Exponent (e :: '+' :: ds) (some (false, ds))
  | minus {e : Char} {ds : List Char} :
      e = 'e' ∨ e = 'E' → Digits ds → Exponent (e :: '-' :: ds) (some (true, ds))

/-- `number = [ minus ] int [ frac ] [ exp ]`, and its parts. -/
inductive Numerals : List Char → Numeral → Prop
  | parts {n : Numeral} {f x : List Char} :
      Whole n.whole → Fraction f n.fraction → Exponent x n.exponent →
      Numerals ((if n.negative then ['-'] else []) ++ (n.whole ++ (f ++ x))) n

/-- The number that digits stand for. -/
def decimal (ds : List Char) : Nat := ds.foldl (fun n c => 10 * n + (c.toNat - '0'.toNat)) 0

/-- The numeral writes this integer.  A negative zero does not: it keeps its sign as a double. -/
structure IsInteger (n : Numeral) (i : Integer) : Prop where
  fraction : n.fraction = none
  exponent : n.exponent = none
  value : i.val = if n.negative then -(decimal n.whole : Int) else decimal n.whole
  signed : n.negative = true → decimal n.whole ≠ 0

/-- The digits that fit in 64 bits, and the power of ten for their place. -/
def significand (n : Numeral) : Nat × Int :=
  let whole := takeDigits 0 n.whole
  let fraction := n.fraction.getD []
  let digits := takeDigits whole.1 fraction
  (digits.1, whole.2.length - (fraction.length - digits.2.length : Nat))

/-- The magnitude by the rule of the reader.  An exponent of more than 31 bits leaves nothing or
is out of range. -/
def magnitude (n : Numeral) : Binary.Magnitude :=
  let (digits, scale) := significand n
  match n.exponent with
  | none => Double.ofDecimal digits scale
  | some (negative, ds) =>
    if decimal ds < 2147483648 then
      Double.ofDecimal digits (if negative then scale - decimal ds else scale + decimal ds)
    else if digits = 0 ∨ negative = true then .finite 0
    else .infinite

/-- The number that a numeral denotes, if any: an integer of 64 bits exactly, else a finite double.
-/
inductive Denotes (n : Numeral) : Number → Prop
  | integer {i : Integer} : IsInteger n i → Denotes n (.integer i)
  | double {units : Nat} :
      (∀ i, ¬ IsInteger n i) → magnitude n = .finite units →
      Denotes n (.double ⟨n.negative, units⟩)

/-! ## 3. Values -/

/-- `false / null / true / number / string` -/
inductive Plain : List Char → Scalar → Prop
  | null : Plain ['n', 'u', 'l', 'l'] .null
  | true : Plain ['t', 'r', 'u', 'e'] (.bool true)
  | false : Plain ['f', 'a', 'l', 's', 'e'] (.bool false)
  | number {t : List Char} {n : Numeral} {x : Number} :
      Numerals t n → Denotes n x → Plain t (.number x)
  | string {t s : List Char} : Chars t s → Plain ('"' :: (t ++ ['"'])) (.string (String.ofList s))

/-- What a stretch of text denotes: a value, or what stands between two brackets. -/
inductive Phrase
  | value (v : Json)
  /-- `value *( value-separator value )` -/
  | items (l : List Json)
  /-- `member *( value-separator member )` -/
  | members (l : List (String × Json))

/-- The phrases with no more than so many brackets inside each other. -/
inductive Writes : Nat → List Char → Phrase → Prop
  | scalar {depth : Nat} {t : List Char} {x : Scalar} :
      Plain t x → Writes depth t (.value x.toJson)
  | emptyArray {depth : Nat} {w : List Char} :
      Blanks w → Writes (depth + 1) ('[' :: (w ++ [']'])) (.value (.array []))
  | array {depth : Nat} {t : List Char} {l : List Json} :
      Writes depth t (.items l) → Writes (depth + 1) ('[' :: (t ++ [']'])) (.value (.array l))
  | emptyObject {depth : Nat} {w : List Char} :
      Blanks w → Writes (depth + 1) ('\x7b' :: (w ++ ['\x7d'])) (.value (.object []))
  /-- An object has the last value under each key. -/
  | object {depth : Nat} {t : List Char} {l : List (String × Json)} {table : Table Json} :
      Writes depth t (.members l) → (∀ key, table.find? key = l.reverse.lookup key) →
      Writes (depth + 1) ('\x7b' :: (t ++ ['\x7d'])) (.value (.object table.entries))
  | item {depth : Nat} {w t u : List Char} {v : Json} :
      Blanks w → Writes depth t (.value v) → Blanks u →
      Writes depth (w ++ (t ++ u)) (.items [v])
  | items {depth : Nat} {w t u r : List Char} {v : Json} {l : List Json} :
      Blanks w → Writes depth t (.value v) → Blanks u → Writes depth r (.items l) →
      Writes depth (w ++ (t ++ (u ++ ',' :: r))) (.items (v :: l))
  | member {depth : Nat} {w k s x y t u : List Char} {v : Json} :
      Blanks w → Chars k s → Blanks x → Blanks y → Writes depth t (.value v) → Blanks u →
      Writes depth (w ++ '"' :: (k ++ '"' :: (x ++ ':' :: (y ++ (t ++ u)))))
        (.members [(String.ofList s, v)])
  | members {depth : Nat} {w k s x y t u r : List Char} {v : Json} {l : List (String × Json)} :
      Blanks w → Chars k s → Blanks x → Blanks y → Writes depth t (.value v) → Blanks u →
      Writes depth r (.members l) →
      Writes depth (w ++ '"' :: (k ++ '"' :: (x ++ ':' :: (y ++ (t ++ (u ++ ',' :: r))))))
        (.members ((String.ofList s, v) :: l))

/-- `JSON-text = ws value ws`, with no more than 127 brackets inside each other. -/
def Text (raw : List Char) (v : Json) : Prop :=
  ∃ w t u, raw = w ++ (t ++ u) ∧ Blanks w ∧ Writes 127 t (.value v) ∧ Blanks u

/-- The kind of a value that is no object, by its name. -/
inductive Kind : Json → String → Prop
  | null : Kind .null "null"
  | boolean {b : Bool} : Kind (.bool b) "boolean"
  | number {x : Number} : Kind (.number x) "number"
  | string {s : String} : Kind (.string s) "string"
  | array {l : List Json} : Kind (.array l) "array"

end StreamBoard.Json.Grammar

import StreamBoard.Text.Percent
import StreamBoard.Text.Pieces

/-!
# Address — the numeric addresses of hosts

An IPv4 address is read from one to four parts in decimal, octal or hexadecimal, of which the last
fills all bytes that the others leave.  An IPv6 address is eight groups of up to four hexadecimal
digits; one run of zero groups may be left out, and the last two groups may be an IPv4 address with
four decimal parts.
-/

namespace StreamBoard.Url

/-- The value of digits in a base up to sixteen; no digits are zero. -/
def numberIn? (base : Nat) (s : List Char) : Option Nat :=
  s.foldlM (fun n c =>
    match Text.hexDigitValue? c with
    | some d => if d < base then some (n * base + d) else none
    | none => none) 0

/-! ## 1. IPv4 -/

structure Ipv4 where
  value : UInt32
deriving DecidableEq

namespace Ipv4

/-- The number of one part: `0x` marks hexadecimal and a leading zero octal. -/
def readPart? : List Char → Option Nat
  | [] => none
  | '0' :: x :: rest =>
    if x = 'x' ∨ x = 'X' then numberIn? 16 rest else numberIn? 8 (x :: rest)
  | s => numberIn? 10 s

/-- The parts of a text; one full stop at its end does not count. -/
def parts (s : List Char) : List (List Char) :=
  let all := Text.pieces (· == '.') s
  if 1 < all.length ∧ all.getLast? = some [] then all.dropLast else all

/-- Whether a host can only be a numeric address: its last part is a number. -/
def endsInNumber (s : List Char) : Bool :=
  match (parts s).getLast? with
  | some part => (!part.isEmpty && part.all Char.isDigit) || (readPart? part).isSome
  | none => false

/-- The value of numbers of which all but the last are one byte each. -/
def assemble? (room : Nat) : List Nat → Option Nat
  | [] => none
  | [last] => if last < Nat.pow 256 room then some last else none
  | byte :: more =>
    if byte < 256 then
      (assemble? (room - 1) more).map (byte * Nat.pow 256 (room - 1) + ·)
    else none

def read? (s : List Char) : Option Ipv4 :=
  let ps := parts s
  if 4 < ps.length then none
  else do
    let numbers ← ps.mapM readPart?
    let value ← assemble? 4 numbers
    some ⟨.ofNat value⟩

/-- The four bytes of the address. -/
def bytes (a : Ipv4) : List Nat :=
  let n := a.value.toNat
  [n / 16777216, n / 65536 % 256, n / 256 % 256, n % 256]

def text (a : Ipv4) : List Char := Text.joined '.' (a.bytes.map (Nat.toDigits 10))

end Ipv4

/-! ## 2. IPv6 -/

structure Ipv6 where
  groups : List UInt16
  length_eq : groups.length = 8
deriving DecidableEq

namespace Ipv6

def readGroup? (s : List Char) : Option UInt16 :=
  if 1 ≤ s.length ∧ s.length ≤ 4 then (numberIn? 16 s).map .ofNat else none

/-- One byte in decimal, without a leading zero. -/
def readByte? (s : List Char) : Option Nat :=
  match s with
  | [] => none
  | '0' :: _ :: _ => none
  | _ =>
    match numberIn? 10 s with
    | some n => if n < 256 then some n else none
    | none => none

/-- The two groups of four decimal bytes. -/
def readDotted? (s : List Char) : Option (List UInt16) :=
  match (Text.pieces (· == '.') s).mapM readByte? with
  | some [a, b, c, d] => some [.ofNat (a * 256 + b), .ofNat (c * 256 + d)]
  | _ => none

/-- The groups of a text that ends the address. -/
def readFinal? : List (List Char) → Option (List UInt16)
  | [] => some []
  | [last] => if last.contains '.' then readDotted? last else (readGroup? last).map ([·])
  | piece :: more => do
    let group ← readGroup? piece
    let groups ← readFinal? more
    some (group :: groups)

/-- The pieces between colons; an empty text has none. -/
def colonPieces (s : List Char) : List (List Char) :=
  if s.isEmpty then [] else Text.pieces (· == ':') s

/-- What stands before and behind the first two colons in a row. -/
def splitGap : List Char → List Char × Option (List Char)
  | [] => ([], none)
  | ':' :: ':' :: rest => ([], some rest)
  | c :: rest =>
    let (before, behind) := splitGap rest
    (c :: before, behind)

/-- Eight groups in full, or up to seven around a gap. -/
def read? (s : List Char) : Option Ipv6 :=
  match splitGap s with
  | (all, none) => do
    let groups ← readFinal? (colonPieces all)
    if h : groups.length = 8 then some ⟨groups, h⟩ else none
  | (before, some behind) => do
    let left ← (colonPieces before).mapM readGroup?
    let right ← readFinal? (colonPieces behind)
    if h : left.length + right.length < 8 then
      some ⟨left ++ List.replicate (8 - (left.length + right.length)) 0 ++ right, by
        simp only [List.length_append, List.length_replicate]; omega⟩
    else none

/-- How many zero groups there are in a row from each place on. -/
def zeroRuns (groups : List UInt16) : List Nat :=
  (List.range groups.length).map fun k => ((groups.drop k).takeWhile (· == 0)).length

def groupsText (groups : List UInt16) : List Char :=
  Text.joined ':' (groups.map fun g => Nat.toDigits 16 g.toNat)

/-- The groups without leading zeros; the longest run of two zero groups or more is left out, and of
several such the first. -/
def text (a : Ipv6) : List Char :=
  let runs := zeroRuns a.groups
  let longest := runs.foldl max 0
  if longest < 2 then groupsText a.groups
  else
    let start := runs.idxOf longest
    groupsText (a.groups.take start) ++ ':' :: ':' :: groupsText (a.groups.drop (start + longest))

end Ipv6

end StreamBoard.Url

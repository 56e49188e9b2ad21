import StreamBoard.Json.Number
import StreamBoard.Text.Quoted

/-!
# Fault — why a text or a value does not read, and where

A fault names its cause and, where it was found in a text, its place.  A place is what was unread at
that point (`rest`) and how many bytes beyond it the fault points (`ahead`), so no part of the
reader counts anything; line and column are worked out from the whole text when a message is
written.
-/

namespace StreamBoard.Json

/-! ## 1. Causes -/

/-- What stood where something else was expected. -/
inductive Found
  | null
  | bool (value : Bool)
  | number (value : Number)
  | string (value : String)
  | sequence
  | map
deriving DecidableEq

/-- What a value is read as. -/
inductive Expected
  | string
  | bool
  | int64
  | sequence
  | struct (title : String)
deriving DecidableEq

inductive Cause
  | cutValue
  | cutList
  | cutObject
  | cutString
  | expectedValue
  | expectedIdent
  | invalidNumber
  | numberOutOfRange
  | keyMustBeString
  | expectedColon
  | expectedCommaOrBrace
  | expectedCommaOrBracket
  | trailingComma
  | trailingCharacters
  | invalidEscape
  | loneSurrogate
  | endOfHexEscape
  | controlCharacter
  | recursionLimit
  | invalidType (found : Found) (expected : Expected)
  | integerOutOfRange (value : Integer) (expected : Expected)
  | missingField (name : String)
  | duplicateField (name : String)
  /-- Neither a count nor a list of names. -/
  | noVariant
  | tooLong (length : Nat)
deriving DecidableEq

/-- A place in a text: `ahead` bytes into what is unread there. -/
structure Place where
  rest : List Char
  ahead : Nat
deriving DecidableEq

structure Fault where
  cause : Cause
  place : Option Place
deriving DecidableEq

def Fault.at (cause : Cause) (rest : List Char) : Fault := ⟨cause, some ⟨rest, 0⟩⟩

/-- A fault that points at the next byte. -/
def Fault.before (cause : Cause) (rest : List Char) : Fault := ⟨cause, some ⟨rest, 1⟩⟩

/-- Gives a place to a fault that has none. -/
def Fault.placed (f : Fault) (place : Place) : Fault :=
  { f with place := f.place.or (some place) }

/-! ## 2. Messages -/

def Found.describe : Found → String
  | .null => "null"
  | .bool b => "boolean `" ++ (if b then "true" else "false") ++ "`"
  | .number (.integer i) => "integer `" ++ .ofList i.text ++ "`"
  | .number (.double x) => "floating point `" ++ .ofList x.text ++ "`"
  | .string s => "string " ++ Text.quoted s
  | .sequence => "sequence"
  | .map => "map"

def Expected.describe : Expected → String
  | .string => "a string"
  | .bool => "a boolean"
  | .int64 => "i64"
  | .sequence => "a sequence"
  | .struct title => "struct " ++ title

def Cause.describe : Cause → String
  | .cutValue => "EOF while parsing a value"
  | .cutList => "EOF while parsing a list"
  | .cutObject => "EOF while parsing an object"
  | .cutString => "EOF while parsing a string"
  | .expectedValue => "expected value"
  | .expectedIdent => "expected ident"
  | .invalidNumber => "invalid number"
  | .numberOutOfRange => "number out of range"
  | .keyMustBeString => "key must be a string"
  | .expectedColon => "expected `:`"
  | .expectedCommaOrBrace => "expected `,` or `\x7d`"
  | .expectedCommaOrBracket => "expected `,` or `]`"
  | .trailingComma => "trailing comma"
  | .trailingCharacters => "trailing characters"
  | .invalidEscape => "invalid escape"
  | .loneSurrogate => "lone leading surrogate in hex escape"
  | .endOfHexEscape => "unexpected end of hex escape"
  | .controlCharacter => "control character (\\u0000-\\u001F) found while parsing a string"
  | .recursionLimit => "recursion limit exceeded"
  | .invalidType found expected =>
    "invalid type: " ++ found.describe ++ ", expected " ++ expected.describe
  | .integerOutOfRange value expected =>
    "invalid value: integer `" ++ .ofList value.text ++ "`, expected " ++ expected.describe
  | .missingField name => "missing field `" ++ name ++ "`"
  | .duplicateField name => "duplicate field `" ++ name ++ "`"
  | .noVariant => "data did not match any variant of untagged enum Assignment"
  | .tooLong length =>
    "invalid length " ++ toString length ++ ", expected fewer elements in array"

/-- The bytes of a text in UTF-8. -/
def byteLength : List Char → Nat
  | [] => 0
  | c :: rest => c.utf8Size + byteLength rest

/-- Line and column after `n` bytes of a text, counted on from those given: the line counts line
feeds, the column the bytes since the last one. -/
def locate (line column : Nat) : Nat → List Char → Nat × Nat
  | _, [] => (line, column)
  | n, c :: rest =>
    if n < c.utf8Size then (line, column + n)
    else if c = '\n' then locate (line + 1) 0 (n - 1) rest
    else locate line (column + c.utf8Size) (n - c.utf8Size) rest

/-- The message about a fault found in a text: its cause, and its line and column if it has a place.
-/
def Fault.describe (f : Fault) (text : List Char) : String :=
  match f.place with
  | none => f.cause.describe
  | some place =>
    let (line, column) := locate 1 0 (byteLength text - byteLength place.rest + place.ahead) text
    f.cause.describe ++ " at line " ++ toString line ++ " column " ++ toString column

end StreamBoard.Json

import StreamBoard.Json.Outline

/-!
# Reader — values out of outlines

A reader takes an outline to a value or to the first fault that it meets.  `Outline.value` reads any
value; the others read a scalar of one type and say what they found instead.  A reader is run on a
text with `readText`, which wants nothing but blanks behind the value, and on a value with
`readValue`.
-/

namespace StreamBoard.Json

abbrev Reader (α : Type) := Outline → Except Fault α

/-! ## 1. Any value -/

/-- The fault of an array that does not close. -/
def Finish.itemsFault : Finish → Option Fault
  | .closed _ | .whole => none
  | .cut => some (.at .cutList [])
  | .unseparated rest => some (.before .expectedCommaOrBracket rest)
  | .trailingComma rest => some (.before .trailingComma rest)
  | .cutAfterComma => some (.at .cutValue [])
  | .noKey rest => some (.before .keyMustBeString rest)
  | .broken => some (.at .cutValue [])

/-- The fault of an object that does not close. -/
def Finish.membersFault : Finish → Option Fault
  | .closed _ | .whole => none
  | .cut => some (.at .cutObject [])
  | .unseparated rest => some (.before .expectedCommaOrBrace rest)
  | .trailingComma rest => some (.before .trailingComma rest)
  | .cutAfterComma => some (.at .cutValue [])
  | .noKey rest => some (.before .keyMustBeString rest)
  | .broken => some (.at .cutValue [])

mutual

/-- Reads any value.  Members come out in ascending key order, the last of equal keys. -/
def Outline.value : Outline → Except Fault Json
  | .scalar l => l.value.map Scalar.toJson
  | .array _ items => items.values.map .array
  | .object _ members => members.values.map fun l => .object (Table.ofList l).entries

def Items.values : Items → Except Fault (List Json)
  | .finish how =>
    match how.itemsFault with
    | some fault => .error fault
    | none => .ok []
  | .item o rest => do
    let v ← o.value
    let vs ← rest.values
    return v :: vs

def Members.values : Members → Except Fault (List (String × Json))
  | .finish how =>
    match how.membersFault with
    | some fault => .error fault
    | none => .ok []
  | .member key o rest => do
    let k ← key.value
    let v ← o.value
    let vs ← rest.values
    return (k, v) :: vs

end

/-! ## 2. Typed scalars -/

/-- The fault of an outline of another type: behind a scalar, before an opening bracket. -/
def Outline.mismatch (expected : Expected) : Outline → Fault
  | .scalar l =>
    match l.value with
    | .error fault => fault
    | .ok s => .at (.invalidType s.found expected) l.next
  | .array start _ => .at (.invalidType .sequence expected) start
  | .object start _ => .at (.invalidType .map expected) start

namespace Reader

variable {α : Type}

def string : Reader String := fun o =>
  match o with
  | .scalar ⟨_, .ok (.string s), _, _⟩ => .ok s
  | o => .error (o.mismatch .string)

def bool : Reader Bool := fun o =>
  match o with
  | .scalar ⟨_, .ok (.bool b), _, _⟩ => .ok b
  | o => .error (o.mismatch .bool)

/-- Reads an integer of 64 bits with sign. -/
def int64 : Reader Int64 := fun o =>
  match o with
  | .scalar ⟨_, .ok (.number (.integer i)), _, next⟩ =>
    if i.val < 9223372036854775808 then .ok (.ofInt i.val)
    else .error (.at (.integerOutOfRange i .int64) next)
  | o => .error (o.mismatch .int64)

/-- Reads `null` as nothing and everything else with `r`. -/
def option (r : Reader α) : Reader (Option α) := fun o =>
  match o with
  | .scalar ⟨_, .ok .null, _, _⟩ => .ok none
  | o => (r o).map some

def items (r : Reader α) : Items → Except Fault (List α)
  | .finish how =>
    match how.itemsFault with
    | some fault => .error fault
    | none => .ok []
  | .item o rest => do
    let a ← r o
    let as ← items r rest
    return a :: as

def list (r : Reader α) : Reader (List α) := fun o =>
  match o with
  | .array _ l => items r l
  | o => .error (o.mismatch .sequence)

end Reader

/-! ## 3. Running a reader -/

/-- Reads a text that holds one value and blanks. -/
def readText {α : Type} (r : Reader α) (s : List Char) : Except Fault α :=
  let o := Outline.ofText s
  match r o with
  | .error fault => .error fault
  | .ok a =>
    match skipBlanks o.next with
    | [] => .ok a
    | rest => .error (.before .trailingCharacters rest)

def readValue {α : Type} (r : Reader α) (v : Json) : Except Fault α := r (.ofValue v)

def parse (s : String) : Except Fault Json := readText Outline.value s.toList

end StreamBoard.Json

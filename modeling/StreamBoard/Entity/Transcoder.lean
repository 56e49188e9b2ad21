import StreamBoard.Entity.Schema

/-!
# Transcoder — a worker and the streams assigned to it

The backend announces the assigned streams as a count or as a list of slugs (`Assignment`).  Free
slots are the capacity less the assigned streams, never below zero; all arithmetic is that of 64-bit
integers with sign, which stop at their ends.
-/

namespace StreamBoard

open Json

/-! ## 1. Assignments -/

/-- The streams a transcoder works on. -/
inductive Assignment
  | count (n : UInt64)
  | slugs (names : List String)
deriving DecidableEq

namespace Assignment

instance : Inhabited Assignment := ⟨.slugs []⟩

def length : Assignment → Nat
  | .count n => n.toNat
  | .slugs names => names.length

def isEmpty (a : Assignment) : Bool := a.length == 0

/-- The assigned slugs, as far as they are known. -/
def names : Assignment → List String
  | .count _ => []
  | .slugs names => names

/-- The texts of a list that holds nothing else. -/
def texts? : List Json → Option (List String)
  | [] => some []
  | .string s :: rest => (texts? rest).map (s :: ·)
  | _ :: _ => none

/-- The assignment that a value stands for. -/
def ofJson? : Json → Option Assignment
  | .number (.integer i) => if 0 ≤ i.val then some (.count (.ofNat i.val.toNat)) else none
  | .array items => (texts? items).map .slugs
  | _ => none

/-- Reads the whole value before it looks at its type. -/
def read : Reader Assignment := fun o =>
  match o.value with
  | .error fault => .error fault
  | .ok v =>
    match ofJson? v with
    | some a => .ok a
    | none => .error ⟨.noVariant, none⟩

def document : Assignment → Json
  | .count n => .number (.integer (.ofUInt64 n))
  | .slugs names => .array (names.map .string)

end Assignment

/-! ## 2. Transcoders -/

/-- The 64-bit integer nearest to an integer. -/
def saturate (i : Int) : Int64 :=
  if i < Int64.minValue.toInt then .minValue
  else if Int64.maxValue.toInt < i then .maxValue
  else .ofInt i

structure Transcoder where
  name : String := ""
  /-- Zero or less means unbounded. -/
  capacity : Int64 := 0
  streams : Assignment := default
  extra : Table Json := .empty
deriving DecidableEq

namespace Transcoder

/-- Slots left: none, rather than a debt, for an overbooked worker. -/
def freeSlots (t : Transcoder) : Int64 :=
  let used := saturate t.streams.length
  let left := saturate (t.capacity.toInt - used.toInt)
  if left < 0 then 0 else left

def schema : Schema Transcoder where
  title := "Transcoder"
  fields := [
    .of "name" .string fun v t => { t with name := v },
    .of "capacity" .int64 fun v t => { t with capacity := v },
    .of "streams" Assignment.read fun v t => { t with streams := v }]
  required := []
  undeclared := .keep fun k v t => { t with extra := t.extra.insert k v }

def read : Reader Transcoder := schema.read {}

def members (t : Transcoder) : List (String × Json) :=
  ("name", .string t.name) :: ("capacity", .number (.integer (.ofInt64 t.capacity))) ::
    ("streams", t.streams.document) :: t.extra.entries

def document (t : Transcoder) : Json := .object t.members

end Transcoder

end StreamBoard

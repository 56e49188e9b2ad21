import StreamBoard.Json.Printer
import StreamBoard.Json.Reader

/-!
# Fragment — a partial update of the board

The backend pushes JSON objects.  Each member names a field of the board and carries its complete
new value; the member `type` only tells kinds of messages apart and never reaches the board.
-/

namespace StreamBoard

/-- New values of top-level fields. -/
abbrev Fragment := Table Json

namespace Fragment

/-- The member that tells kinds of messages apart. -/
def typeKey : String := "type"

inductive Refusal
  | malformed (fault : Json.Fault)
  /-- The frame is a value of another kind. -/
  | notAnObject (kind : String)
deriving DecidableEq

def Refusal.message (frame : String) : Refusal → String
  | .malformed fault => "malformed json: " ++ fault.describe frame.toList
  | .notAnObject kind => "expected a json object, got " ++ kind

def kind : Json → String
  | .null => "null"
  | .bool _ => "boolean"
  | .number _ => "number"
  | .string _ => "string"
  | .array _ => "array"
  | .object _ => "object"

def decode (frame : String) : Except Refusal Fragment :=
  match Json.parse frame with
  | .error fault => .error (.malformed fault)
  | .ok (.object members) => .ok ((Table.ofList members).erase typeKey)
  | .ok v => .error (.notAnObject (kind v))

/-- The fragment of a frame; a frame that is none is dropped. -/
def decode? (frame : String) : Option Fragment := (decode frame).toOption

def text (f : Fragment) : String := (Json.ofTable f).print

end Fragment

end StreamBoard

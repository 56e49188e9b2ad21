import StreamBoard.Json.Reader
import StreamBoard.Text.Utf8
import StreamBoard.Rest.Failure

/-!
# Reply — what an answer over HTTP means

A status outside 200 to 299 is a failure with the body as it is, whatever the body holds.  Otherwise
the body has to read as what was asked for, in full; a blank body reads as `null`.
-/

namespace StreamBoard.Rest

structure Reply where
  status : UInt16
  /-- Nothing, if the body broke off. -/
  body : Option (List UInt8)
deriving DecidableEq

namespace Reply

def isSuccess (r : Reply) : Bool := 200 ≤ r.status.toNat && r.status.toNat < 300

/-- The text that a successful body is read as. -/
def readable (body : List Char) : List Char :=
  if (Text.trim body).isEmpty then "null".toList else body

/-- Reads the value that was asked for. -/
def read {α : Type} (reader : Json.Reader α) (r : Reply) : Except Failure α :=
  match r.body with
  | none => .error (.network "failed to read body: error decoding response body")
  | some bytes =>
    let body := Text.utf8Decode bytes
    if r.isSuccess then
      match Json.readText reader (readable body) with
      | .ok a => .ok a
      | .error fault => .error (.deserialize (fault.describe (readable body)))
    else .error (.http r.status (.ofList body))

end Reply

end StreamBoard.Rest

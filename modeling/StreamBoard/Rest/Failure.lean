import StreamBoard.Text.Blank

/-!
# Failure — why a request failed
-/

namespace StreamBoard.Rest

inductive Failure
  /-- The peer was not reached, or its answer broke off. -/
  | network (text : String)
  /-- The answer has a status outside 200 to 299. -/
  | http (status : UInt16) (body : String)
  /-- The body does not read as what was asked for. -/
  | deserialize (text : String)
deriving DecidableEq

namespace Failure

def message : Failure → String
  | .network text => "Network error: " ++ text
  | .http status body => "HTTP " ++ toString status.toNat ++ ": " ++ body
  | .deserialize text => "Deserialization error: " ++ text

/-- A short text for a user: what the backend wrote with its error status, if it wrote anything. -/
def userMessage : Failure → String
  | .http status body =>
    let text := Text.trim body.toList
    if text.isEmpty then "request failed with status " ++ toString status.toNat else .ofList text
  | f => f.message

end Failure

end StreamBoard.Rest

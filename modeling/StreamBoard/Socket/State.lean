/-!
# State — what is published about the push connection
-/

namespace StreamBoard.Socket

/-- Why a payload or an address is refused. -/
inductive Failure
  | transport (text : String)
  | notConnected
  | invalidUrl (text : String)
  | retriesExhausted (attempts : Nat)
deriving DecidableEq

namespace Failure

def message : Failure → String
  | .transport text => "transport error: " ++ text
  | .notConnected => "not connected"
  | .invalidUrl text => "invalid endpoint url: " ++ text
  | .retriesExhausted attempts => "gave up after " ++ toString attempts ++ " reconnect attempts"

end Failure

inductive State
  | disconnected
  | connecting
  | connected
  | reconnecting (attempt : Nat)
  /-- The reconnect budget is spent; nothing follows. -/
  | failed (reason : String)
deriving DecidableEq

namespace State

def isConnected : State → Bool
  | .connected => true
  | _ => false

def isConnecting : State → Bool
  | .connecting => true
  | .reconnecting _ => true
  | _ => false

/-- What one who sends is told: nothing is queued but for a connection that is up. -/
def sendResult (s : State) : Except Failure Unit :=
  if s.isConnected then .ok () else .error .notConnected

def describe : State → String
  | .disconnected => "Disconnected"
  | .connecting => "Connecting"
  | .connected => "Connected"
  | .reconnecting attempt => "Reconnecting(" ++ toString attempt ++ ")"
  | .failed reason => "Failed(" ++ reason ++ ")"

end State

end StreamBoard.Socket

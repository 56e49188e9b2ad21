import StreamBoard.Url.Reader
import StreamBoard.Binary.Numeral
import StreamBoard.Rest.Route
import StreamBoard.Socket.State
import StreamBoard.Socket.Reconnect

/-!
# Config — where the backend is, and how the push connection is kept up

The backend has one base address.  Requests are rooted at its origin, and the push endpoint is the
base address with the matching socket scheme and a path of its own, so both talk to one server.
-/

namespace StreamBoard

/-- The socket scheme that goes with a scheme: secure with secure. -/
def socketScheme (scheme : String) : String :=
  if scheme = "https" ∨ scheme = "wss" then "wss" else "ws"

structure Config where
  /-- A web address with a host. -/
  baseUrl : Url
  reconnect : Socket.Policy := {}
deriving DecidableEq

namespace Config

/-! ## 1. Base address -/

/-- The base address that a text writes.  Blanks around it do not count; the failure quotes them. -/
def readBaseUrl (raw : String) : Except Socket.Failure Url :=
  match Url.ofList (Text.trim raw.toList) with
  | .error fault => .error (.invalidUrl (raw ++ ": " ++ fault.message))
  | .ok url =>
    if (url.scheme = "http" ∨ url.scheme = "https") ∧ url.hasHost then .ok url
    else .error (.invalidUrl raw)

def ofUrl (raw : String) : Except Socket.Failure Config := do
  return { baseUrl := ← readBaseUrl raw }

def withBaseUrl (c : Config) (raw : String) : Except Socket.Failure Config := do
  return { c with baseUrl := ← readBaseUrl raw }

/-! ## 2. Environment -/

/-- The variables that are read, and the base address where none is given. -/
def urlVariable : String := "STREAM_MONITOR_URL"
def delayVariable : String := "STREAM_MONITOR_RECONNECT_DELAY_MS"
def attemptsVariable : String := "STREAM_MONITOR_RECONNECT_MAX_ATTEMPTS"
def backoffVariable : String := "STREAM_MONITOR_RECONNECT_BACKOFF"
def maxDelayVariable : String := "STREAM_MONITOR_RECONNECT_MAX_DELAY_MS"
def defaultUrl : String := "http://localhost:8080"

/-- A number from a variable; what is not a number counts as missing. -/
def numberFrom? {α : Type} (lookup : String → Option String) (read? : List Char → Option α)
    (name : String) : Option α :=
  (lookup name).bind fun raw => read? (Text.trim raw.toList)

def policyOf (lookup : String → Option String) : Socket.Policy :=
  let default : Socket.Policy := {}
  let number := numberFrom? lookup Binary.readUInt32?
  { maxAttempts := (number attemptsVariable).getD default.maxAttempts
    initialDelay := (number delayVariable).getD default.initialDelay
    maxDelay := (number maxDelayVariable).getD default.maxDelay
    backoff := (numberFrom? lookup Binary.readSingle? backoffVariable).getD default.backoff }

/-- The configuration from variables.  Only the base address can be wrong. -/
def ofVariables (lookup : String → Option String) : Except Socket.Failure Config := do
  return { baseUrl := ← readBaseUrl ((lookup urlVariable).getD defaultUrl),
           reconnect := policyOf lookup }

/-- The configuration of a run: from variables, and a base address in the first argument wins. -/
def ofCommandLine (lookup : String → Option String) (args : List String) :
    Except Socket.Failure Config := do
  let c ← ofVariables lookup
  match args with
  | [] => return c
  | raw :: _ => c.withBaseUrl raw

/-! ## 3. What follows from it -/

def origin (c : Config) : String := c.baseUrl.origin

/-- Where the backend pushes fragments. -/
def socketPath : Url.Path := .segments ["ws"]

def socketUrl (c : Config) : Except Socket.Failure Url :=
  match c.baseUrl.withScheme? (socketScheme c.baseUrl.scheme) with
  | some url => .ok { url with path := socketPath, query := none, fragment := none }
  | none => .error (.invalidUrl c.baseUrl.text)

end Config

end StreamBoard

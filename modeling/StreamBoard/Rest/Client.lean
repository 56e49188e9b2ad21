import StreamBoard.Json.Printer
import StreamBoard.Url.Reader
import StreamBoard.Request
import StreamBoard.Rest.Reply
import StreamBoard.Rest.Route

/-!
# Client — requests over HTTP

A client has a base address and asks for paths below it.  Who carries a call to the backend and its
reply back is a parameter (`Carrier`), so that everything else is a function of what comes back.
-/

namespace StreamBoard.Rest

/-! ## 1. Calls -/

/-- A call that is put on the wire.  A body is JSON. -/
structure Call where
  url : Url
  /-- Nothing for a call that only reads. -/
  body : Option String
deriving DecidableEq

def Call.method (c : Call) : String := if c.body.isSome then "POST" else "GET"

/-- What comes back for a call; nothing, if the peer was not reached or did not answer. -/
abbrev Carrier := Call → Option Reply

/-! ## 2. Addresses -/

/-- The address of a path below a base.  A path that is an address itself stays as it is, and
between base and path stands one slash, however many either has. -/
def join (base path : String) : String :=
  let p := path.toList
  if "http://".toList.isPrefixOf p || "https://".toList.isPrefixOf p then path
  else if base.isEmpty then
    if p.head? = some '/' then path else .ofList ('/' :: p)
  else
    .ofList (Text.dropEndWhile (· == '/') base.toList ++ '/' :: p.dropWhile (· == '/'))

/-- Whether a host can stand in a call: four characters that names may have are not sent. -/
def isSendable (host : Url.Host) : Bool :=
  !host.text.any ['"', '\x60', '\x7b', '\x7d'].contains

/-- The address that a call goes to, without user information; only web addresses with a host can be
called. -/
def target (raw : String) : Except Failure Url :=
  match Url.parse raw with
  | .error _ => .error (.network "builder error")
  | .ok url =>
    let url := url.withoutUser
    let sendable := url.authority.any fun a => isSendable a.host
    if url.hasHost ∧ (url.scheme = "http" ∨ url.scheme = "https") ∧ sendable then .ok url
    else .error (.network ("builder error for url (" ++ url.text ++ ")"))

/-! ## 3. The client -/

structure Client where
  base : String := ""
deriving DecidableEq

namespace Client

def call (c : Client) (path : String) (body : Option String) : Except Failure Call := do
  return { url := ← target (join c.base path), body }

def exchange {α : Type} (c : Client) (carrier : Carrier) (reader : Json.Reader α) (path : String)
    (body : Option String) : Except Failure α := do
  let call ← c.call path body
  match carrier call with
  | none => throw (.network ("error sending request for url (" ++ call.url.text ++ ")"))
  | some reply => reply.read reader

def get {α : Type} (c : Client) (carrier : Carrier) (reader : Json.Reader α) (path : String) :
    Except Failure α := c.exchange carrier reader path none

def post {α : Type} (c : Client) (carrier : Carrier) (reader : Json.Reader α) (path : String)
    (body : Json) : Except Failure α := c.exchange carrier reader path (some body.print)

/-! ## 4. Settings -/

/-- The settings of all streams; `null` is an empty list. -/
def fetchAll (c : Client) (carrier : Carrier) : Except Failure (List StreamSettings) := do
  let list ← c.get carrier (Json.Reader.option (Json.Reader.list StreamSettings.read)) settingsPath
  return list.getD []

def fetch (c : Client) (carrier : Carrier) (slug : String) : Except Failure StreamSettings :=
  c.get carrier StreamSettings.read (streamSettingsPath slug)

/-- Stores settings under their slug.  The result is what the backend kept; `null` says that they
were kept as they are. -/
def submit (c : Client) (carrier : Carrier) (s : StreamSettings) :
    Except Failure StreamSettings := do
  let kept ← c.post carrier (Json.Reader.option StreamSettings.read) (streamSettingsPath s.slug)
    s.document
  return kept.getD s

def perform (c : Client) (carrier : Carrier) : Request → Except Failure Answer
  | .fetchAll => (c.fetchAll carrier).map .all
  | .load slug => (c.fetch carrier slug).map .one
  | .submit s => (c.submit carrier s).map .one

end Client

end StreamBoard.Rest

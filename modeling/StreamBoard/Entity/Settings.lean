import StreamBoard.Entity.Schema

/-!
# Settings — the stored settings of one stream

Only the slug is required.  Everything else may be absent or `null`, and is left out again when the
settings are written.  The options are an entity of their own, which also reads from an array of
their values.
-/

namespace StreamBoard

open Json

/-! ## 1. Options -/

structure StreamOptions where
  passthrough : Bool := false
deriving DecidableEq

namespace StreamOptions

def schema : Schema StreamOptions where
  title := "StreamOptions"
  fields := [.of "passthrough" .bool fun v o => { o with passthrough := v }]
  required := []
  undeclared := .passOver

/-- How many items follow. -/
def itemCount : Items → Nat
  | .finish _ => 0
  | .item _ rest => itemCount rest + 1

/-- The fault of what follows the last value that an array of options may hold. -/
def endFault : Items → Option Fault
  | .finish (.closed _) | .finish .whole => none
  | .finish .cut => some (.at .cutList [])
  | .finish (.unseparated rest) => some (.before .trailingCharacters rest)
  | .finish (.trailingComma rest) => some (.before .trailingComma rest)
  | .finish .cutAfterComma => some (.at .trailingCharacters [])
  | .finish (.noKey rest) => some (.before .trailingCharacters rest)
  | .finish .broken => some (.at .cutValue [])
  | .item o rest =>
    match rest.ending with
    | .whole => some ⟨.tooLong (itemCount rest + 2), none⟩
    | _ => some (.before .trailingCharacters o.start)

/-- Reads the options from the items of an array, in the order of their declaration. -/
def readItems : Items → Except Fault StreamOptions
  | .finish how =>
    match how.itemsFault with
    | some fault => .error fault
    | none => .ok {}
  | .item o rest =>
    match Reader.bool o with
    | .error fault => .error fault
    | .ok b =>
      match endFault rest with
      | some fault => .error fault
      | none => .ok ⟨b⟩

def read : Reader StreamOptions := fun o =>
  match o with
  | .array _ items => readItems items
  | o => schema.read {} o

def members (o : StreamOptions) : List (String × Json) := [("passthrough", .bool o.passthrough)]

def document (o : StreamOptions) : Json := .object o.members

end StreamOptions

/-! ## 2. Settings -/

structure StreamSettings where
  slug : String
  /-- `ingest` or `relay`. -/
  ingestType : Option String := none
  /-- What a publisher has to present; an empty one asks for nothing. -/
  secret : Option String := none
  notes : Option String := none
  isPublic : Option Bool := none
  options : Option StreamOptions := none
  extra : Table Json := .empty
deriving DecidableEq

namespace StreamSettings

/-- Whether publishing takes a secret. -/
def requiresAuth (s : StreamSettings) : Bool :=
  match s.secret with
  | some secret => !secret.isEmpty
  | none => false

def schema : Schema StreamSettings where
  title := "StreamSettings"
  fields := [
    .of "slug" .string fun v s => { s with slug := v },
    .of "ingestType" (.option .string) fun v s => { s with ingestType := v },
    .of "secret" (.option .string) fun v s => { s with secret := v },
    .of "notes" (.option .string) fun v s => { s with notes := v },
    .of "public" (.option .bool) fun v s => { s with isPublic := v },
    .of "options" (.option StreamOptions.read) fun v s => { s with options := v }]
  required := ["slug"]
  undeclared := .keep fun k v s => { s with extra := s.extra.insert k v }

def read : Reader StreamSettings := schema.read { slug := "" }

def members (s : StreamSettings) : List (String × Json) :=
  ("slug", .string s.slug) :: member? "ingestType" .string s.ingestType ++
    member? "secret" .string s.secret ++ member? "notes" .string s.notes ++
    member? "public" .bool s.isPublic ++ member? "options" StreamOptions.document s.options ++
    s.extra.entries

def document (s : StreamSettings) : Json := .object s.members

end StreamSettings

end StreamBoard

import StreamBoard.Board.Key
import StreamBoard.Entity.Stream
import StreamBoard.Entity.Transcoder
import StreamBoard.Entity.Fanout
import StreamBoard.Entity.Settings
import StreamBoard.Fragment

/-!
# State — the board

Everything that views render, under the keys under which the backend pushes it.  The typed maps are
views over the last pushed value of their field: an entry that does not read as its entity is left
out of the view but stays in the pushed value, and `Board.field` gives that value back unchanged.
-/

namespace StreamBoard

open Json

structure Board where
  streams : Table Stream := .empty
  transcoders : Table Transcoder := .empty
  /-- The transcoder of each stream, by name. -/
  streamTranscoders : Table String := .empty
  fanouts : Table Fanout := .empty
  streamSettings : Table StreamSettings := .empty
  connected : Bool := false
  /-- The pushed fields that the board has no view of. -/
  extra : Table Json := .empty
  /-- The fields with a view, as they were last pushed. -/
  pushed : Table Json := .empty
deriving DecidableEq

namespace Board

instance : Inhabited Board := ⟨{}⟩

/-! ## 1. Views of pushed values -/

/-- The entries of an object that read with `r`; nothing, for a value of another kind. -/
def entities {α : Type} (r : Reader α) : Json → Table α
  | .object members => (Table.ofList members).filterMap fun v => (readValue r v).toOption
  | _ => .empty

/-- Takes a pushed value into the view of its field. -/
def view (b : Board) (key : MapKey) (value : Json) : Board :=
  match key with
  | .streams => { b with streams := entities Stream.read value }
  | .transcoders => { b with transcoders := entities Transcoder.read value }
  | .streamTranscoders => { b with streamTranscoders := entities Reader.string value }
  | .fanouts => { b with fanouts := entities Fanout.read value }
  | .streamSettings => { b with streamSettings := entities StreamSettings.read value }

/-! ## 2. Writing fields -/

inductive Refusal
  /-- Only the connection itself writes the field. -/
  | reserved
deriving DecidableEq

def Refusal.message : Refusal → String
  | .reserved => "field is not writable by fragments"

/-- Replaces one field by a pushed value, which is kept as it was sent. -/
def replaceField (b : Board) (key : String) (value : Json) : Except Refusal Board :=
  match MapKey.ofName? key with
  | some k => .ok { b.view k value with pushed := b.pushed.insert key value }
  | none =>
    if key = connectedKey then .error .reserved
    else .ok { b with extra := b.extra.insert key value }

/-- Replaces the settings of all streams; what was pushed for them no longer counts. -/
def setSettings (b : Board) (settings : Table StreamSettings) : Board :=
  { b with
    streamSettings := settings
    pushed := b.pushed.erase MapKey.streamSettings.name }

/-! ## 3. Reading fields -/

def mapDocument {α : Type} (document : α → Json) (t : Table α) : Json :=
  .ofTable (t.map document)

def viewDocument (b : Board) : MapKey → Json
  | .streams => mapDocument Stream.document b.streams
  | .transcoders => mapDocument Transcoder.document b.transcoders
  | .streamTranscoders => mapDocument .string b.streamTranscoders
  | .fanouts => mapDocument Fanout.document b.fanouts
  | .streamSettings => mapDocument StreamSettings.document b.streamSettings

/-- One field as a fragment would carry it. -/
def field (b : Board) (key : String) : Option Json :=
  match b.pushed.find? key with
  | some value => some value
  | none =>
    match MapKey.ofName? key with
    | some k => some (b.viewDocument k).ordered
    | none => if key = connectedKey then some (.bool b.connected) else b.extra.find? key

/-- The board as it is written: the views, the connection flag, then all other fields. -/
def document (b : Board) : Json :=
  .object <| MapKey.all.map (fun k => (k.name, b.viewDocument k)) ++
    (connectedKey, .bool b.connected) :: b.extra.entries

/-- Equality of boards that takes the two zeros of a double for the same number. -/
def sameValue (a b : Board) : Bool :=
  a.document.sameValue b.document && (Json.ofTable a.pushed).sameValue (.ofTable b.pushed)

end Board

end StreamBoard

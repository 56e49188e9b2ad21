import StreamBoard.Json.Reader

/-!
# Schema — how an entity is read from the members of an object

An entity declares some members, each with a reader, and either keeps the members that it does not
declare or passes over them.  Members are read in the order of the text: a declared member may occur
once, a required one has to occur.  A fault that belongs to the entity as a whole is placed behind
the member at which it shows, or behind the closing brace that follows.
-/

namespace StreamBoard

open Json

/-- A declared member: its name, and how its value changes the entity. -/
structure Field (α : Type) where
  name : String
  read : Reader (α → α)

/-- What becomes of a member that is not declared. -/
inductive Undeclared (α : Type)
  | keep (add : String → Json → α → α)
  | passOver

structure Schema (α : Type) where
  /-- The name of the entity in messages. -/
  title : String
  fields : List (Field α)
  required : List String
  undeclared : Undeclared α

namespace Schema

variable {α : Type}

def field? (σ : Schema α) (name : String) : Option (Field α) :=
  σ.fields.find? fun f => f.name == name

/-- The place behind a member: behind a closing brace, if that follows. -/
def placeBehind (rest : List Char) : Place :=
  match skipBlanks rest with
  | '\x7d' :: next => ⟨next, 0⟩
  | s => ⟨s, 0⟩

/-- Reads the members of an object into an entity; `seen` are the declared names met so far. -/
def readMembers (σ : Schema α) (seen : List String) (entity : α) : Members → Except Fault α
  | .finish how =>
    match how.membersFault with
    | some fault => .error fault
    | none =>
      match σ.required.find? (fun name => !seen.contains name) with
      | some name => .error ⟨.missingField name, how.rest?.map (⟨·, 0⟩)⟩
      | none => .ok entity
  | .member key value rest =>
    match key.value with
    | .error fault => .error fault
    | .ok name =>
      match σ.field? name with
      | some f =>
        if seen.contains name then .error ⟨.duplicateField name, some (placeBehind key.next)⟩
        else
          match f.read value with
          | .error fault => .error (fault.placed (placeBehind value.next))
          | .ok update => σ.readMembers (name :: seen) (update entity) rest
      | none =>
        match σ.undeclared with
        | .keep add =>
          match value.value with
          | .error fault => .error fault
          | .ok v => σ.readMembers seen (add name v entity) rest
        | .passOver =>
          match value.skipFault with
          | some fault => .error fault
          | none => σ.readMembers seen entity rest

/-- Reads an object into an entity, starting from a blank one. -/
def read (σ : Schema α) (blank : α) : Reader α := fun o =>
  match o with
  | .object _ members => σ.readMembers [] blank members
  | o => .error (o.mismatch (.struct σ.title))

end Schema

/-- A field that a reader fills. -/
def Field.of {α β : Type} (name : String) (r : Reader β) (set : β → α → α) : Field α :=
  ⟨name, fun o => (r o).map set⟩

/-- A member that is written only if there is something to write. -/
def member? {α : Type} (name : String) (write : α → Json) (value : Option α) :
    List (String × Json) :=
  match value with
  | some a => [(name, write a)]
  | none => []

/-- A text member that is left out when it is empty. -/
def textMember? (name text : String) : List (String × Json) :=
  if text.isEmpty then [] else [(name, .string text)]

end StreamBoard

/-!
# Key — the fields of the board that are maps of entities
-/

namespace StreamBoard

/-- A field whose value is a map of entities. -/
inductive MapKey
  | streams
  | transcoders
  | streamTranscoders
  | fanouts
  | streamSettings
deriving DecidableEq

namespace MapKey

def name : MapKey → String
  | .streams => "streams"
  | .transcoders => "transcoders"
  | .streamTranscoders => "streamTranscoders"
  | .fanouts => "fanouts"
  | .streamSettings => "streamSettings"

/-- All of them, in the order in which a board is written. -/
def all : List MapKey := [.streams, .transcoders, .streamTranscoders, .fanouts, .streamSettings]

def ofName? (name : String) : Option MapKey := all.find? fun k => k.name == name

theorem ofName?_name (k : MapKey) : ofName? k.name = some k := by
  cases k <;> decide

theorem name_injective {k l : MapKey} (h : k.name = l.name) : k = l := by
  have := congrArg ofName? h
  simpa [ofName?_name] using this

theorem ofName?_eq_some_iff {name : String} {k : MapKey} :
    ofName? name = some k ↔ name = k.name := by
  constructor
  · intro h
    have := List.find?_some h
    exact (beq_iff_eq.mp this).symm
  · rintro rfl
    exact ofName?_name k

end MapKey

def isKnownKey (name : String) : Bool := (MapKey.ofName? name).isSome

/-- The field that tells whether the push connection is up; fragments cannot write it. -/
def connectedKey : String := "socketConnected"

end StreamBoard

import StreamBoard.Board.State
import StreamBoard.Rest.Failure

/-!
# Action — what happens to a board

`Board.step?` gives the board after an action, or nothing where the action leaves the very same
board.  A fragment replaces the fields that it names and nothing below them; a field that it may not
write is passed over.
-/

namespace StreamBoard

inductive Action
  /-- Replaces every field that the fragment names. -/
  | updateState (fragment : Fragment)
  | socketConnected
  | socketDisconnected
  /-- The settings of all streams, in the order of the backend. -/
  | updatedStreamSettings (list : List StreamSettings)
  /-- The settings of one stream, as the backend keeps them. -/
  | setStreamSettings (settings : StreamSettings)
  | fetchError (failure : Rest.Failure)
deriving DecidableEq

def Action.name : Action → String
  | .updateState _ => "UPDATE_STATE"
  | .socketConnected => "SOCKET_CONNECTED"
  | .socketDisconnected => "SOCKET_DISCONNECTED"
  | .updatedStreamSettings _ => "UPDATED_STREAM_SETTINGS"
  | .setStreamSettings _ => "SET_STREAM_SETTINGS"
  | .fetchError _ => "FETCH_ERROR"

namespace Board

/-- Replaces one field where that is allowed. -/
def put (b : Board) (key : String) (value : Json) : Board :=
  (b.replaceField key value).toOption.getD b

def putAll (b : Board) (members : List (String × Json)) : Board :=
  members.foldl (fun b m => b.put m.1 m.2) b

/-- The board after a fragment; nothing, if it names no field. -/
def applyFragment? (b : Board) (fragment : Fragment) : Option Board :=
  let members := (fragment.erase Fragment.typeKey).entries
  if members.isEmpty then none else some (b.putAll members)

/-- The board with this connection flag; nothing, if it has it already. -/
def setConnected? (b : Board) (connected : Bool) : Option Board :=
  if b.connected = connected then none else some { b with connected }

/-- The settings of a list, by slug; of equal slugs the last counts. -/
def settingsBySlug (list : List StreamSettings) : Table StreamSettings :=
  .ofList (list.map fun s => (s.slug, s))

/-- The board after an action; nothing, if the action leaves the very same board. -/
def step? (b : Board) : Action → Option Board
  | .updateState fragment => b.applyFragment? fragment
  | .socketConnected => b.setConnected? true
  | .socketDisconnected => b.setConnected? false
  | .updatedStreamSettings list => some (b.setSettings (settingsBySlug list))
  | .setStreamSettings _ => none
  | .fetchError _ => none

def step (b : Board) (a : Action) : Board := (b.step? a).getD b

def run (b : Board) (actions : List Action) : Board := actions.foldl step b

end Board

end StreamBoard

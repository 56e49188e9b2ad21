import StreamBoard.Entity.Settings
import StreamBoard.Rest.Failure

/-!
# Request — what is asked of the settings backend, and its answers
-/

namespace StreamBoard

inductive Request
  | fetchAll
  | load (slug : String)
  | submit (settings : StreamSettings)
deriving DecidableEq

inductive Answer
  | all (list : List StreamSettings)
  | one (settings : StreamSettings)
deriving DecidableEq

namespace Answer

def read (request : Request) (text : String) : Except Json.Fault Answer :=
  match request with
  | .fetchAll => (Json.readText (Json.Reader.list StreamSettings.read) text.toList).map .all
  | _ => (Json.readText StreamSettings.read text.toList).map .one

/-- The answer that the text of a backend stands for. -/
def ofText (request : Request) (text : String) : Except Rest.Failure Answer :=
  match read request text with
  | .ok answer => .ok answer
  | .error fault => .error (.deserialize (fault.describe text.toList))

end Answer

end StreamBoard

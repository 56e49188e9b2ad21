import StreamBoard.Board.Action
import StreamBoard.Request
import StreamBoard.Socket.Connection

/-!
# Dispatch — where actions come from

Connection events and answered requests become actions, and all actions go through one channel.  A
request remembers the epoch in which it was issued; its answer counts only if the epoch is still the
same when it arrives, so whoever advances the epoch puts an end to all requests before.
-/

namespace StreamBoard

/-! ## 1. Actions of events and answers -/

/-- The action of a connection event.  A frame that is no fragment is dropped, and an announced
attempt changes nothing. -/
def Action.ofEvent? : Socket.Event → Option Action
  | .connected => some .socketConnected
  | .disconnected => some .socketDisconnected
  | .message frame => (Fragment.decode? frame).map .updateState
  | .reconnecting _ _ => none

/-- The action of an answer, or of the failure that came instead. -/
def Action.ofAnswer : Except Rest.Failure Answer → Action
  | .ok (.all list) => .updatedStreamSettings list
  | .ok (.one settings) => .setStreamSettings settings
  | .error failure => .fetchError failure

/-! ## 2. The dispatcher -/

/-- A request that was not answered yet. -/
structure Ticket where
  id : String
  request : Request
  epoch : UInt64
deriving DecidableEq

structure Dispatcher where
  epoch : UInt64 := 0
  /-- Requests without an answer, in the order in which they were issued. -/
  pending : List Ticket := []
  /-- The actions of the channel, the first one to be taken in front. -/
  channel : List Action := []

namespace Dispatcher

/-- One step of the dispatcher.  Checking the epoch of an answer and enqueueing its action are one
step. -/
inductive Step
  | issue (id : String) (request : Request)
  | complete (id : String) (answer : Except Rest.Failure Answer)
  | invalidate
  | dispatch (action : Action)
  | event (event : Socket.Event)

def dispatch (d : Dispatcher) (action : Action) : Dispatcher :=
  { d with channel := d.channel ++ [action] }

def handleEvent (d : Dispatcher) (e : Socket.Event) : Dispatcher :=
  match Action.ofEvent? e with
  | some action => d.dispatch action
  | none => d

def issue (d : Dispatcher) (id : String) (request : Request) : Dispatcher :=
  { d with pending := d.pending ++ [⟨id, request, d.epoch⟩] }

/-- Discards the answers of all requests issued so far. -/
def invalidate (d : Dispatcher) : Dispatcher := { d with epoch := d.epoch + 1 }

/-- Takes the answer to a request; a stale one is dropped. -/
def complete (d : Dispatcher) (id : String) (answer : Except Rest.Failure Answer) : Dispatcher :=
  match d.pending.find? (fun t => t.id == id) with
  | none => d
  | some ticket =>
    let d := { d with pending := d.pending.eraseP fun t => t.id == id }
    if ticket.epoch = d.epoch then d.dispatch (.ofAnswer answer) else d

def step (d : Dispatcher) : Step → Dispatcher
  | .issue id request => d.issue id request
  | .complete id answer => d.complete id answer
  | .invalidate => d.invalidate
  | .dispatch action => d.dispatch action
  | .event e => d.handleEvent e

def run (d : Dispatcher) (steps : List Step) : Dispatcher := steps.foldl step d

end Dispatcher

end StreamBoard

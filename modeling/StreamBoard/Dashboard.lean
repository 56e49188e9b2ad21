import StreamBoard.Config
import StreamBoard.Session
import StreamBoard.Rest.Client

/-!
# Dashboard — the whole of it

A dashboard is a session, a connection task and a client for one configuration.  The events of the
task go to the dispatcher in the order in which they happen, and the answers of the client go there
as well, so the board is what the actions of the one channel make of it.
-/

namespace StreamBoard

structure Dashboard where
  config : Config
  endpoint : Url
  session : Session
  task : Socket.Task

namespace Dashboard

/-- A dashboard with the default board, before its first attempt to connect. -/
def start (config : Config) (subscribers : Nat) : Except Socket.Failure Dashboard := do
  return {
    config
    endpoint := ← config.socketUrl
    session := .start {} subscribers
    task := { policy := config.reconnect } }

def client (d : Dashboard) : Rest.Client := { base := d.config.origin }

def board (d : Dashboard) : Board := d.session.store.snapshot

def settle (d : Dashboard) : Dashboard × Progress :=
  let (session, progress) := d.session.settle
  ({ d with session }, progress)

/-- The task makes one attempt, and the dispatcher handles its events. -/
def connect (d : Dashboard) (a : Socket.Attempt) : Dashboard :=
  let task := d.task.attemptOnce a
  let events := task.events.drop d.task.events.length
  { d with
    task
    session := events.foldl (fun s e => (s.command (.event e.1)).1) d.session }

/-- Makes a request and takes what the client answers; with `stale`, requests are invalidated before
the answer arrives. -/
def request (d : Dashboard) (carrier : Rest.Carrier) (q : Request) (stale : Bool) : Dashboard :=
  let ticket : Ticket := ⟨"", q, d.session.dispatcher.epoch⟩
  let session := (d.session.command (.issue ticket.id q)).1.settle.1
  let session := if stale then (session.command .invalidate).1 else session
  { d with session := session.answer ticket (d.client.perform carrier q) }

/-- Ends the tasks; answers that are still to come do not count. -/
def shutdown (d : Dashboard) : Dashboard :=
  { d with session := { (d.session.command .invalidate).1 with alive := false } }

/-- The dashboard after a script of attempts and nothing else. -/
def afterScript (d : Dashboard) (script : List Socket.Attempt) : Dashboard :=
  script.foldl (fun d a => (d.connect a).settle.1) d

end Dashboard

end StreamBoard

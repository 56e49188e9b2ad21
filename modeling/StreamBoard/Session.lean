import StreamBoard.Dispatch
import StreamBoard.Board.Store
import StreamBoard.Board.View

/-!
# Session — a store, a dispatcher and a backend, step by step

A session puts the parts together: a dispatcher whose requests go to a settings backend, a store
that takes the actions of the channel, and one watcher.  What is done to a session (`Command`) only
leaves work behind: actions in the channel, requests to be sent, answers to be processed.
`Session.settle` does all of it: it sends the requests, processes the answers in the order in which
they were given, and lets the store take the channel.
-/

namespace StreamBoard

structure Session where
  store : Store := {}
  dispatcher : Dispatcher := {}
  /-- Whether the store is still there. -/
  alive : Bool := true
  watcher : Watcher := ⟨0⟩
  /-- Requests that the backend has not seen yet. -/
  unsent : List Ticket := []
  /-- Requests that the backend has seen and not answered. -/
  waiting : List Ticket := []
  /-- Answers that were given and not processed. -/
  answers : List (Ticket × Except Rest.Failure Answer) := []

inductive Command
  | event (event : Socket.Event)
  | dispatch (action : Action)
  | issue (id : String) (request : Request)
  /-- The backend answers; the text of an answer is read as what the request asks for. -/
  | reply (id : String) (answer : Except Rest.Failure String)
  | invalidate
  | epoch
  | subscribe
  /-- The store goes away. -/
  | stop
  /-- Waits for a stream with this key. -/
  | waitFor (stream : String)

/-- What the one who gives a command is told. -/
inductive Outcome
  | nothing
  | noSuchRequest
  | epoch (before now : Nat)
  | subscriber (number : Nat)
  | waited (change : Watcher.Change)

/-- What happened while a session settled. -/
structure Progress where
  /-- The requests that reached the backend. -/
  sent : List Ticket
  /-- The requests that ended, in the order in which they were issued. -/
  done : List Ticket
  calls : List Call
  replaced : Bool
  change : Watcher.Change

namespace Session

def start (board : Board) (subscribers : Nat) : Session :=
  { store := { board, subscribers } }

/-- The backend answers a request that is waiting. -/
def answer (s : Session) (ticket : Ticket) (answer : Except Rest.Failure Answer) : Session :=
  { s with
    waiting := s.waiting.eraseP fun t => t.id == ticket.id
    answers := s.answers ++ [(ticket, answer)] }

def command (s : Session) : Command → Session × Outcome
  | .event e => ({ s with dispatcher := s.dispatcher.handleEvent e }, .nothing)
  | .dispatch action => ({ s with dispatcher := s.dispatcher.dispatch action }, .nothing)
  | .issue id request =>
    let ticket : Ticket := ⟨id, request, s.dispatcher.epoch⟩
    ({ s with
        dispatcher := s.dispatcher.issue id request
        unsent := s.unsent ++ [ticket] }, .nothing)
  | .reply id answer =>
    match s.waiting.find? (fun t => t.id == id) with
    | none => (s, .noSuchRequest)
    | some ticket => (s.answer ticket (answer.bind (Answer.ofText ticket.request)), .nothing)
  | .invalidate =>
    ({ s with dispatcher := s.dispatcher.invalidate },
      .epoch s.dispatcher.epoch.toNat s.dispatcher.invalidate.epoch.toNat)
  | .epoch => (s, .epoch s.dispatcher.epoch.toNat s.dispatcher.epoch.toNat)
  | .subscribe =>
    let store := s.store.subscribe
    ({ s with store }, .subscriber store.subscribers)
  | .stop => ({ s with alive := false }, .nothing)
  | .waitFor stream =>
    (s, .waited (Watcher.waitFor s.store s.alive fun b => b.streams.contains stream))

/-- The dispatcher processes the answers in the order in which they were given. -/
def processAnswers (s : Session) : Session :=
  { s with
    dispatcher := s.answers.foldl (fun d a => d.complete a.1.id a.2) s.dispatcher
    answers := [] }

/-- The store takes the next action of the channel.  A store that is gone lets the channel run dry.
-/
def receive (s : Session) : Session :=
  match s.dispatcher.channel with
  | [] => s
  | action :: rest =>
    { s with
      dispatcher := { s.dispatcher with channel := rest }
      store := if s.alive then s.store.dispatch action else s.store }

def drain (s : Session) : Session := s.dispatcher.channel.foldl (fun s _ => s.receive) s

/-- Does all the work that is left behind. -/
def settle (s : Session) : Session × Progress :=
  let next := s.processAnswers.drain
  let change := s.watcher.changed next.store s.alive
  let watcher := match change with
    | .ready _ w => w
    | _ => s.watcher
  let answered := s.answers.map fun a => a.1.id
  ({ next with watcher, unsent := [], waiting := s.waiting ++ s.unsent },
    { sent := s.unsent
      done := s.dispatcher.pending.filter fun t => answered.contains t.id
      calls := next.store.calls.drop s.store.calls.length
      replaced := s.store.version < next.store.version
      change })

end Session

end StreamBoard

import StreamBoard.Socket.State
import StreamBoard.Socket.Reconnect

/-!
# Connection — the task that keeps the push connection up

The task makes one attempt after another.  It is a machine of small steps, because others send
payloads between any two of them: a payload is accepted while `connected` is published, and the
order in which the task clears the queue, publishes and closes decides which connection may deliver
it. `Task.attempt` is what the task does by itself for one attempt, and `Task.run` for a script of
them.
-/

namespace StreamBoard.Socket

/-- What the task reports, in the order in which it happens. -/
inductive Event
  /-- The handshake is complete. -/
  | connected
  /-- One text frame, not decoded. -/
  | message (text : String)
  /-- The connection ended, or the attempt failed. -/
  | disconnected
  /-- The next attempt follows after a delay in milliseconds. -/
  | reconnecting (attempt : Nat) (delay : Nat)
deriving DecidableEq

inductive Frame
  | text (text : String)
  | binary (bytes : List UInt8)
  | ping (bytes : List UInt8)
  | pong (bytes : List UInt8)
deriving DecidableEq

/-- Only text is reported. -/
def Frame.event? : Frame → Option Event
  | .text s => some (.message s)
  | _ => none

inductive Phase
  | due
  | attempting
  /-- The handshake is complete, and nobody knows yet. -/
  | established
  /-- The queue is cleared as well. -/
  | cleared
  /-- Frames go both ways. -/
  | relaying
  /-- The connection ended or the attempt failed, and nobody knows yet. -/
  | ended
  | down
  /-- The budget is spent. -/
  | finished
deriving DecidableEq

structure Task where
  policy : Policy
  phase : Phase := .due
  /-- Failed attempts since the last success or the start. -/
  attempt : Nat := 0
  state : State := .disconnected
  /-- Accepted payloads that are not delivered. -/
  queue : List String := []
  /-- All events so far, each with the state published at that moment. -/
  events : List (Event × State) := []
  published : List State := []
  /-- What the peer received, by connection, the last one first. -/
  received : List (List String) := []

/-- One step of the task, or of one who sends. -/
inductive Step
  | send (payload : String)
  /-- Publishes the attempt that is due. -/
  | start
  | fail
  | establish
  | clearQueue
  /-- Publishes the connection and reports it. -/
  | announce
  | receive (frame : Frame)
  | deliver
  | lose
  /-- Publishes the loss and reports it. -/
  | withdraw
  /-- Gives up, or announces the next attempt. -/
  | decide
deriving DecidableEq

namespace Task

/-! ## 1. Sending -/

/-- Queues a payload while a connection is published, and drops it otherwise. -/
def send (t : Task) (payload : String) : Task :=
  if t.state.isConnected then { t with queue := t.queue ++ [payload] } else t

/-! ## 2. Steps of the task -/

def publish (t : Task) (state : State) : Task :=
  { t with state, published := t.published ++ [state] }

def report (t : Task) (event : Event) : Task := { t with events := t.events ++ [(event, t.state)] }

def reportFrame (t : Task) (frame : Frame) : Task :=
  match frame.event? with
  | some event => t.report event
  | none => t

def deliverFirst (t : Task) : Task :=
  match t.queue, t.received with
  | payload :: queue, current :: earlier =>
    { t with queue, received := (current ++ [payload]) :: earlier }
  | _, _ => t

def attemptState (t : Task) : State :=
  if t.attempt = 0 then .connecting else .reconnecting t.attempt

/-- After a loss: gives up if the failures so far spend the budget, else announces one attempt
more. -/
def decideNext (t : Task) : Task :=
  if t.policy.exhausted t.attempt then
    { t.publish (.failed (Failure.retriesExhausted t.attempt).message) with phase := .finished }
  else
    let next := min (t.attempt + 1) 4294967295
    { t.report (.reconnecting next (t.policy.delay t.attempt)) with attempt := next, phase := .due }

/-- The task after a step; nothing, where the step cannot be taken. -/
def step? (t : Task) : Step → Option Task
  | .send payload => some (t.send payload)
  | .start =>
    if t.phase = .due then some { t.publish t.attemptState with phase := .attempting } else none
  | .fail => if t.phase = .attempting then some { t with phase := .ended } else none
  | .establish =>
    if t.phase = .attempting then
      some { t with phase := .established, attempt := 0, received := [] :: t.received }
    else none
  | .clearQueue =>
    if t.phase = .established then some { t with phase := .cleared, queue := [] } else none
  | .announce =>
    if t.phase = .cleared then
      some { (t.publish .connected).report .connected with phase := .relaying }
    else none
  | .receive frame => if t.phase = .relaying then some (t.reportFrame frame) else none
  | .deliver => if t.phase = .relaying then some t.deliverFirst else none
  | .lose => if t.phase = .relaying then some { t with phase := .ended } else none
  | .withdraw =>
    if t.phase = .ended then
      some { (t.publish .disconnected).report .disconnected with phase := .down }
    else none
  | .decide => if t.phase = .down then some t.decideNext else none

/-- The task after those of the steps that can be taken. -/
def steps (t : Task) (l : List Step) : Task := l.foldl (fun t s => (t.step? s).getD t) t

end Task

/-! ## 3. Scripts -/

inductive Attempt
  | failed
  /-- The handshake succeeds, these frames arrive, and the connection ends. -/
  | succeeded (frames : List Frame)
deriving DecidableEq

namespace Attempt

/-- The steps of the task for one attempt, up to the decision about the next one. -/
def steps : Attempt → List Step
  | .failed => [.start, .fail, .withdraw, .decide]
  | .succeeded frames =>
    [.start, .establish, .clearQueue, .announce] ++ frames.map .receive ++
      [.lose, .withdraw, .decide]

end Attempt

namespace Task

/-- One attempt of the task that nobody interferes with. -/
def attemptOnce (t : Task) (a : Attempt) : Task := t.steps a.steps

/-- All attempts of a script; after the task gave up nothing more happens. -/
def runScript (t : Task) (script : List Attempt) : Task := script.foldl attemptOnce t

end Task

def run (policy : Policy) (script : List Attempt) : Task := Task.runScript { policy } script

end StreamBoard.Socket

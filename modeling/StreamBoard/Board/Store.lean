import StreamBoard.Board.Action

/-!
# Store — a board, its subscribers and its watchers

The store applies actions one at a time.  Every subscriber is called with every action and the board
after it, inert actions included.  Watchers share one cell with the last published board and a
version; the cell is written only when the board was replaced, after the subscribers ran.
-/

namespace StreamBoard

structure Call where
  subscriber : Nat
  action : Action
  /-- The board after the action. -/
  board : Board
deriving DecidableEq

structure Store where
  board : Board := {}
  /-- How many subscribers there are; they are numbered from one. -/
  subscribers : Nat := 0
  calls : List Call := []
  /-- What watchers see. -/
  snapshot : Board := board
  /-- How often the snapshot was replaced. -/
  version : Nat := 0

namespace Store

def withBoard (board : Board) : Store := { board }

def subscribe (s : Store) : Store := { s with subscribers := s.subscribers + 1 }

def callsFor (s : Store) (action : Action) (board : Board) : List Call :=
  (List.range s.subscribers).map fun i => ⟨i + 1, action, board⟩

def dispatch (s : Store) (action : Action) : Store :=
  match s.board.step? action with
  | none => { s with calls := s.calls ++ s.callsFor action s.board }
  | some board =>
    { s with
      board
      calls := s.calls ++ s.callsFor action board
      snapshot := board
      version := s.version + 1 }

def dispatchAll (s : Store) (actions : List Action) : Store := actions.foldl dispatch s

end Store

/-! ## Watching -/

/-- A watcher of a store: the version that it has seen. -/
structure Watcher where
  seen : Nat
deriving DecidableEq

namespace Watcher

/-- A watcher that has seen all that was published so far. -/
def of (s : Store) : Watcher := ⟨s.version⟩

/-- What waiting for a change comes to. -/
inductive Change
  /-- There is one: the snapshot now, and the watcher that has seen it. -/
  | ready (board : Board) (watcher : Watcher)
  | pending
  /-- The store is gone, and there is none to come. -/
  | gone

/-- A change that the watcher has not seen counts, also when the store is gone; several count as
one. -/
def changed (w : Watcher) (s : Store) (alive : Bool) : Change :=
  if w.seen < s.version then .ready s.snapshot ⟨s.version⟩
  else if alive then .pending
  else .gone

/-- What waiting for a board that satisfies `p` comes to; the present one counts. -/
def waitFor (s : Store) (alive : Bool) (p : Board → Bool) : Change :=
  if p s.snapshot then .ready s.snapshot ⟨s.version⟩
  else if alive then .pending
  else .gone

end Watcher

end StreamBoard

import StreamBoard.Session
import StreamBoard.Proofs.Ledger

/-!
# Replay — the store does with a channel what it does with a list

Actions are enqueued at any time and taken one by one.  `applied` counts from the turns alone how
many were taken; the store is then the one that was given the first so many actions directly
(`store_turns_of_alive`).  What such a store holds follows from the list: the board is the run of
it, every subscriber was called with every action and the board right after it, and the snapshot is
the board.
-/

namespace StreamBoard

/-! ## 1. Boards and calls of a list of actions -/

namespace Board

/-- Every action with the board right after it. -/
def history (b : Board) : List Action → List (Action × Board)
  | [] => []
  | a :: actions => (a, b.step a) :: (b.step a).history actions

theorem history_getElem? (b : Board) (actions : List Action) (i : Nat) :
    (b.history actions)[i]? = actions[i]?.map fun a => (a, b.run (actions.take (i + 1))) := by
  induction actions generalizing b i with
  | nil => rfl
  | cons a actions ih =>
    cases i with
    | zero => rfl
    | succ i => exact ih (b.step a) i

end Board

namespace Store

/-- What a subscriber was called with. -/
def log (s : Store) (subscriber : Nat) : List (Action × Board) :=
  (s.calls.filter fun c => c.subscriber == subscriber).map fun c => (c.action, c.board)

theorem dispatch_board (s : Store) (a : Action) : (s.dispatch a).board = s.board.step a := by
  unfold dispatch Board.step
  cases s.board.step? a <;> rfl

theorem dispatch_subscribers (s : Store) (a : Action) :
    (s.dispatch a).subscribers = s.subscribers := by
  unfold dispatch
  cases s.board.step? a <;> rfl

/-- Inert actions are reported as well, with the board that they left. -/
theorem dispatch_calls (s : Store) (a : Action) :
    (s.dispatch a).calls = s.calls ++ s.callsFor a (s.board.step a) := by
  unfold dispatch Board.step
  cases s.board.step? a <;> rfl

theorem dispatch_snapshot {s : Store} (h : s.snapshot = s.board) (a : Action) :
    (s.dispatch a).snapshot = (s.dispatch a).board := by
  unfold dispatch
  cases s.board.step? a with
  | none => exact h
  | some b => rfl

/-- Each subscriber is called once. -/
theorem callsFor_filter (s : Store) (a : Action) (b : Board) {i : Nat} (h : i < s.subscribers) :
    (s.callsFor a b).filter (fun c => c.subscriber == i + 1) = [⟨i + 1, a, b⟩] := by
  unfold callsFor
  rw [List.filter_map]
  have hone : (List.range s.subscribers).filter
      ((fun c : Call => c.subscriber == i + 1) ∘ fun j => ⟨j + 1, a, b⟩) = [i] := by
    have hnumber : ((fun c : Call => c.subscriber == i + 1) ∘ fun j => ⟨j + 1, a, b⟩) =
        (· == i) := by
      funext j
      exact Bool.eq_iff_iff.mpr (by simp)
    rw [hnumber, List.filter_beq, List.count_range, if_pos h]
    rfl
  rw [hone]
  rfl

theorem log_dispatch (s : Store) (a : Action) {i : Nat} (h : i < s.subscribers) :
    (s.dispatch a).log (i + 1) = s.log (i + 1) ++ [(a, s.board.step a)] := by
  rw [log, dispatch_calls, List.filter_append, s.callsFor_filter a _ h, List.map_append]
  rfl

theorem dispatchAll_append (s : Store) (first second : List Action) :
    s.dispatchAll (first ++ second) = (s.dispatchAll first).dispatchAll second :=
  List.foldl_append

theorem dispatchAll_board (s : Store) (actions : List Action) :
    (s.dispatchAll actions).board = s.board.run actions := by
  induction actions generalizing s with
  | nil => rfl
  | cons a actions ih =>
    rw [dispatchAll, List.foldl_cons, ← dispatchAll, ih, dispatch_board]
    rfl

theorem dispatchAll_snapshot {s : Store} (h : s.snapshot = s.board) (actions : List Action) :
    (s.dispatchAll actions).snapshot = (s.dispatchAll actions).board :=
  foldl_keeps (fun s : Store => s.snapshot = s.board) (fun _ a _ hs => dispatch_snapshot hs a) h

theorem log_dispatchAll (s : Store) (actions : List Action) {i : Nat} (h : i < s.subscribers) :
    (s.dispatchAll actions).log (i + 1) = s.log (i + 1) ++ s.board.history actions := by
  induction actions generalizing s with
  | nil => simp [dispatchAll, Board.history]
  | cons a actions ih =>
    have hnext : i < (s.dispatch a).subscribers := by
      rw [dispatch_subscribers]
      exact h
    have htail := ih _ hnext
    rw [s.log_dispatch a h, dispatch_board, List.append_assoc] at htail
    exact htail

end Store

/-! ## 2. Turns -/

namespace Session

/-- A turn of those who enqueue actions, of the store, or of the one who ends it. -/
inductive Turn
  | enqueue (action : Action)
  | receive
  | stop

def Turn.action? : Turn → Option Action
  | .enqueue action => some action
  | _ => none

def turn (s : Session) : Turn → Session
  | .enqueue action => (s.command (.dispatch action)).1
  | .receive => s.receive
  | .stop => (s.command .stop).1

def turns (s : Session) (l : List Turn) : Session := l.foldl turn s

/-- The actions that are enqueued, in their order. -/
def enqueued (l : List Turn) : List Action := l.filterMap Turn.action?

/-- How many actions the store applies, with so many waiting at the start. -/
def applied (waiting : Nat) : List Turn → Nat
  | [] => 0
  | .enqueue _ :: l => applied (waiting + 1) l
  | .receive :: l => if waiting = 0 then applied 0 l else applied (waiting - 1) l + 1
  | .stop :: _ => 0

theorem applied_le (waiting : Nat) (l : List Turn) :
    applied waiting l ≤ waiting + (enqueued l).length := by
  induction l generalizing waiting with
  | nil => exact Nat.zero_le _
  | cons t l ih =>
    cases t with
    | enqueue action =>
      have htail := ih (waiting + 1)
      have hlength : (enqueued (.enqueue action :: l)).length = (enqueued l).length + 1 := rfl
      rw [applied, hlength]
      omega
    | receive =>
      have hlength : (enqueued (.receive :: l)).length = (enqueued l).length := rfl
      rw [applied, hlength]
      split
      next hnone =>
        have htail := ih 0
        omega
      next hsome =>
        have htail := ih (waiting - 1)
        omega
    | stop => exact Nat.zero_le _

theorem applied_replicate {waiting count : Nat} (h : waiting ≤ count) :
    applied waiting (List.replicate count .receive) = waiting := by
  induction count generalizing waiting with
  | zero =>
    rw [Nat.le_zero.mp h]
    rfl
  | succ count ih =>
    rw [List.replicate_succ, applied]
    split
    next hnone =>
      rw [hnone, ih (Nat.zero_le _)]
    next hsome =>
      rw [ih (by omega)]
      omega

/-- Turns of the store in sufficient number apply all that was enqueued. -/
theorem applied_receive {waiting count : Nat} {l : List Turn} (hstop : .stop ∉ l)
    (hcount : waiting + (enqueued l).length ≤ count) :
    applied waiting (l ++ List.replicate count .receive) = waiting + (enqueued l).length := by
  induction l generalizing waiting with
  | nil => exact applied_replicate hcount
  | cons t l ih =>
    have htail : .stop ∉ l := fun hmem => hstop (List.mem_cons_of_mem _ hmem)
    cases t with
    | enqueue action =>
      have hlength : (enqueued (.enqueue action :: l)).length = (enqueued l).length + 1 := rfl
      rw [hlength] at hcount ⊢
      rw [List.cons_append, applied, ih htail (by omega)]
      omega
    | receive =>
      have hlength : (enqueued (.receive :: l)).length = (enqueued l).length := rfl
      rw [hlength] at hcount ⊢
      rw [List.cons_append, applied]
      split
      next hnone =>
        rw [hnone] at hcount ⊢
        exact ih htail hcount
      next hsome =>
        rw [ih htail (by omega)]
        omega
    | stop => exact absurd List.mem_cons_self hstop

/-- What the store takes in some turns, if nothing waits at the start. -/
def taken (l : List Turn) : List Action := (enqueued l).take (applied 0 l)

theorem length_taken (l : List Turn) : (taken l).length = applied 0 l := by
  have hle := applied_le 0 l
  rw [taken, List.length_take]
  omega

/-! ## 3. The store -/

/-- A store that is gone takes nothing more. -/
theorem store_turns_of_gone {s : Session} (h : s.alive = false) (l : List Turn) :
    (s.turns l).store = s.store := by
  induction l generalizing s with
  | nil => rfl
  | cons t l ih =>
    cases t with
    | enqueue action => exact ih (s := s.turn (.enqueue action)) h
    | receive =>
      have hreceive : s.receive.alive = false ∧ s.receive.store = s.store := by
        rw [receive]
        split
        · exact ⟨h, rfl⟩
        · exact ⟨h, if_neg (by simp [h])⟩
      rw [← hreceive.2]
      exact ih hreceive.1
    | stop => exact ih (s := s.turn .stop) rfl

/-- The store is the one that was given the first of all actions directly, as many as it took. -/
theorem store_turns_of_alive {s : Session} (h : s.alive = true) (l : List Turn) :
    (s.turns l).store = s.store.dispatchAll
      ((s.dispatcher.channel ++ enqueued l).take (applied s.dispatcher.channel.length l)) := by
  induction l generalizing s with
  | nil => rfl
  | cons t l ih =>
    cases t with
    | enqueue action =>
      have htail := ih (s := s.turn (.enqueue action)) h
      have hchannel : (s.turn (.enqueue action)).dispatcher.channel =
          s.dispatcher.channel ++ [action] := rfl
      rw [hchannel, List.length_append, List.append_assoc] at htail
      exact htail
    | receive =>
      -- The first of the channel is what the store takes, if anything waits.
      cases hchannel : s.dispatcher.channel with
      | nil =>
        have hsame : s.turn .receive = s := by
          rw [turn, receive, hchannel]
        have htail := ih h
        rw [hchannel] at htail
        rw [turns, List.foldl_cons, hsame]
        exact htail
      | cons action rest =>
        have hnext : s.turn .receive =
            { s with
              dispatcher := { s.dispatcher with channel := rest }
              store := s.store.dispatch action } := by
          rw [turn, receive, hchannel]
          simp [h]
        have htail := ih (s := s.turn .receive) (by rw [hnext]; exact h)
        rw [hnext] at htail
        rw [turns, List.foldl_cons, hnext]
        exact htail
    | stop => exact store_turns_of_gone (s := s.turn .stop) rfl l

/-- **The store does with a channel what it does with a list.**  It took as many actions as the
turns say, the first ones in the order in which they were enqueued, and it is the store that was
given these directly.  Its board is the run of them; every subscriber was called once for each,
with the action and the board right after it; and watchers see the board that there is.  As long as
the store is there, turns enough let it take everything; what is enqueued or waits when it goes
away is without effect. -/
theorem store_turns (board : Board) (subscribers : Nat) (l : List Turn) :
    (taken l).length = applied 0 l ∧ taken l <+: enqueued l ∧
    ((start board subscribers).turns l).store =
      Store.dispatchAll { board, subscribers } (taken l) ∧
    ((start board subscribers).turns l).store.board = board.run (taken l) ∧
    (∀ i, i < subscribers → ∀ j, (((start board subscribers).turns l).store.log (i + 1))[j]? =
      (taken l)[j]?.map fun a => (a, board.run ((taken l).take (j + 1)))) ∧
    ((start board subscribers).turns l).store.snapshot =
      ((start board subscribers).turns l).store.board ∧
    (.stop ∉ l → ∀ count, (enqueued l).length ≤ count →
      taken (l ++ List.replicate count .receive) = enqueued l) ∧
    (∀ before rest, l = before ++ .stop :: rest →
      ((start board subscribers).turns l).store =
        ((start board subscribers).turns before).store) := by
  -- Nothing waits at the start, so what is taken is a prefix of what is enqueued.
  have hstore : ((start board subscribers).turns l).store =
      Store.dispatchAll { board, subscribers } (taken l) := store_turns_of_alive rfl l
  have hboard : (Store.dispatchAll { board, subscribers } (taken l)).board = board.run (taken l) :=
    Store.dispatchAll_board _ _
  refine ⟨length_taken l, List.take_prefix _ _, hstore, by rw [hstore, hboard], fun i hi j => ?_,
    ?_, fun hstop count hcount => ?_, fun before rest hl => ?_⟩
  · have hlog : (Store.dispatchAll { board, subscribers } (taken l)).log (i + 1) =
        board.history (taken l) := Store.log_dispatchAll _ _ hi
    rw [hstore, hlog, Board.history_getElem?]
  · rw [hstore]
    exact Store.dispatchAll_snapshot rfl _
  · have hall := applied_receive hstop (Nat.le_trans (Nat.le_of_eq (Nat.zero_add _)) hcount)
    have hsame : enqueued (l ++ List.replicate count .receive) = enqueued l := by
      rw [enqueued, List.filterMap_append, List.filterMap_replicate_of_none rfl, List.append_nil]
      rfl
    rw [taken, hall, hsame, Nat.zero_add, List.take_length]
  · rw [hl, turns, List.foldl_append, ← turns]
    exact store_turns_of_gone (s := (turns (start board subscribers) before).turn .stop) rfl rest

/-- A store that is gone after two of three actions; the second one changed nothing. -/
theorem store_turns_stop :
    ((start {} 2).turns [.enqueue .socketConnected, .enqueue .socketConnected, .receive, .receive,
      .enqueue .socketDisconnected, .stop, .receive]).store.snapshot = { connected := true } ∧
    (((start {} 2).turns [.enqueue .socketConnected, .enqueue .socketConnected, .receive, .receive,
      .enqueue .socketDisconnected, .stop, .receive]).store.log 2)[1]? =
      some (.socketConnected, { connected := true }) ∧
    ((start {} 2).turns [.enqueue .socketConnected, .enqueue .socketConnected, .receive, .receive,
      .enqueue .socketDisconnected, .stop, .receive]).store =
      ((start {} 2).turns [.enqueue .socketConnected, .enqueue .socketConnected, .receive,
        .receive, .enqueue .socketDisconnected]).store ∧
    taken ([.receive, .enqueue .socketConnected] ++ List.replicate 1 .receive) =
      [.socketConnected] := by
  obtain ⟨-, -, -, hboard, hlog, hsnapshot, -, hgone⟩ := store_turns {} 2
    [.enqueue .socketConnected, .enqueue .socketConnected, .receive, .receive,
      .enqueue .socketDisconnected, .stop, .receive]
  refine ⟨?_, (hlog 1 (by decide) 1).trans rfl, hgone [_, _, _, _, _] [_] rfl, ?_⟩
  · rw [hsnapshot, hboard]
    rfl
  · obtain ⟨-, -, -, -, -, -, hall, -⟩ := store_turns {} 0 [.receive, .enqueue .socketConnected]
    exact hall (by simp) 1 (by decide)

end Session

end StreamBoard

import StreamBoard.Proofs.Session.Replay
import StreamBoard.Proofs.Table

/-!
# Watching — a watcher that waits has missed nothing

A store and any number of watchers take steps in any order.  What is noted of a run are the actions
that were applied, and for each watcher how many of them it has seen: all that there were when it
was made, those of its original if it was cloned, and all up to its last change that was ready.  The
version that a watcher remembers is the one that the store had then (`Notes.Faithful`), and versions
grow with the actions that put another board in place, so waiting is ready exactly if one of these
came since.
-/

namespace StreamBoard

/-! ## 1. Actions that put another board in place -/

/-- The action replaces the board: a list of settings does, a fragment with a field, and a flag that
was not set. -/
def Action.Replaces (b : Board) : Action → Prop
  | .updateState fragment => ∃ key, key ≠ Fragment.typeKey ∧ fragment.contains key = true
  | .socketConnected => b.connected = false
  | .socketDisconnected => b.connected = true
  | .updatedStreamSettings _ => True
  | .setStreamSettings _ | .fetchError _ => False

namespace Board

theorem applyFragment?_isSome_iff (b : Board) (fragment : Fragment) :
    (b.applyFragment? fragment).isSome ↔
      ∃ key, key ≠ Fragment.typeKey ∧ fragment.contains key = true := by
  have hkey : ∀ key, (fragment.erase Fragment.typeKey).contains key = true ↔
      key ≠ Fragment.typeKey ∧ fragment.contains key = true := by
    intro key
    rw [Table.contains, Table.find?_erase]
    by_cases h : key = Fragment.typeKey <;> simp [h, Table.contains]
  have hnames := (Table.entries_ne_nil_iff (t := fragment.erase Fragment.typeKey)).trans
    (exists_congr hkey)
  rw [← hnames, applyFragment?]
  cases (fragment.erase Fragment.typeKey).entries <;> simp

theorem step?_isSome_iff (b : Board) (a : Action) : (b.step? a).isSome ↔ a.Replaces b := by
  cases a with
  | updateState fragment => exact b.applyFragment?_isSome_iff fragment
  | socketConnected | socketDisconnected =>
    rw [step?, setConnected?]
    cases hflag : b.connected <;> simp [Action.Replaces, hflag]
  | updatedStreamSettings list => simp [step?, Action.Replaces]
  | setStreamSettings _ | fetchError _ => simp [step?, Action.Replaces]

instance (b : Board) (a : Action) : Decidable (a.Replaces b) :=
  decidable_of_iff _ (b.step?_isSome_iff a)

theorem step?_eq_none {b : Board} {a : Action} (h : ¬ a.Replaces b) : b.step? a = none := by
  rw [← step?_isSome_iff] at h
  simpa using h

/-- One of the actions replaces the board, when they are applied one after another. -/
def Replaced (b : Board) (actions : List Action) : Prop :=
  ∃ before a since, actions = before ++ a :: since ∧ a.Replaces (b.run before)

theorem not_replaced_nil (b : Board) : ¬ b.Replaced [] := by
  rintro ⟨before, a, since, h, -⟩
  exact absurd h.symm (by simp)

theorem replaced_cons_iff {b : Board} {a : Action} {actions : List Action} :
    b.Replaced (a :: actions) ↔ a.Replaces b ∨ (b.step a).Replaced actions := by
  constructor
  · rintro ⟨before, x, since, h, hx⟩
    cases before with
    | nil =>
      obtain ⟨rfl, rfl⟩ := List.cons.inj h
      exact .inl hx
    | cons y before =>
      obtain ⟨rfl, htail⟩ := List.cons.inj h
      exact .inr ⟨before, x, since, htail, hx⟩
  · rintro (h | ⟨before, x, since, h, hx⟩)
    · exact ⟨[], a, actions, rfl, h⟩
    · exact ⟨a :: before, x, since, congrArg (a :: ·) h, hx⟩

/-- Actions of which none replaces the board leave it as it is. -/
theorem run_of_not_replaced {b : Board} {actions : List Action} (h : ¬ b.Replaced actions) :
    b.run actions = b := by
  induction actions with
  | nil => rfl
  | cons a actions ih =>
    obtain ⟨ha, htail⟩ := not_or.mp (fun hor => h (replaced_cons_iff.mpr hor))
    have hstep : b.step a = b := by
      rw [step, step?_eq_none ha]
      rfl
    rw [hstep] at htail
    rw [run, List.foldl_cons, hstep]
    exact ih htail

end Board

/-! ## 2. Versions -/

namespace Store

theorem dispatch_version_of_replaces {s : Store} {a : Action} (h : a.Replaces s.board) :
    (s.dispatch a).version = s.version + 1 := by
  obtain ⟨b, hb⟩ := Option.isSome_iff_exists.mp ((s.board.step?_isSome_iff a).mpr h)
  rw [dispatch, hb]

theorem dispatch_version_of_not_replaces {s : Store} {a : Action} (h : ¬ a.Replaces s.board) :
    (s.dispatch a).version = s.version := by
  rw [dispatch, Board.step?_eq_none h]

theorem version_le_dispatch (s : Store) (a : Action) : s.version ≤ (s.dispatch a).version := by
  by_cases h : a.Replaces s.board
  · rw [dispatch_version_of_replaces h]
    omega
  · exact Nat.le_of_eq (dispatch_version_of_not_replaces h).symm

theorem version_le_dispatchAll (s : Store) (actions : List Action) :
    s.version ≤ (s.dispatchAll actions).version :=
  foldl_keeps (fun t : Store => s.version ≤ t.version)
    (fun t a _ h => Nat.le_trans h (t.version_le_dispatch a)) (Nat.le_refl _)

/-- **The version grows exactly with the actions that replace the board.** -/
theorem version_lt_iff (s : Store) (actions : List Action) :
    s.version < (s.dispatchAll actions).version ↔ s.board.Replaced actions := by
  induction actions generalizing s with
  | nil => exact iff_of_false (Nat.lt_irrefl _) s.board.not_replaced_nil
  | cons a actions ih =>
    have htail := ih (s.dispatch a)
    rw [dispatch_board] at htail
    rw [Board.replaced_cons_iff, ← htail, dispatchAll, List.foldl_cons, ← dispatchAll]
    by_cases h : a.Replaces s.board
    · have hle := (s.dispatch a).version_le_dispatchAll actions
      rw [dispatch_version_of_replaces h] at hle
      exact iff_of_true (by omega) (.inl h)
    · rw [dispatch_version_of_not_replaces h]
      exact (or_iff_right h).symm

end Store

/-! ## 3. Runs -/

/-- A store and its watchers, which are numbered in the order in which they were made. -/
structure Scene where
  store : Store
  /-- Whether the store is still there. -/
  alive : Bool := true
  watchers : List Watcher := []

namespace Scene

/-- A step of the store or of the one who holds a watcher. -/
inductive Step
  | dispatch (action : Action)
  /-- A new watcher of the store. -/
  | watch
  | clone (i : Nat)
  | snapshot (i : Nat)
  /-- Waits for a change; what was seen moves on only if there is one. -/
  | changed (i : Nat)
  /-- The store goes away. -/
  | stop

/-- What waiting for a change comes to for a watcher. -/
def change? (s : Scene) (i : Nat) : Option Watcher.Change :=
  s.watchers[i]?.map fun w => w.changed s.store s.alive

/-- The board that a watcher reads. -/
def snapshot? (s : Scene) (i : Nat) : Option Board := s.watchers[i]?.map fun _ => s.store.snapshot

/-- A store that is gone takes no action and makes no watcher; those that there are remain. -/
def step (s : Scene) : Step → Scene
  | .dispatch action => if s.alive then { s with store := s.store.dispatch action } else s
  | .watch => if s.alive then { s with watchers := s.watchers ++ [.of s.store] } else s
  | .clone i => { s with watchers := s.watchers ++ s.watchers[i]?.toList }
  | .snapshot _ => s
  | .changed i =>
    match s.change? i with
    | some (.ready _ watcher) => { s with watchers := s.watchers.set i watcher }
    | _ => s
  | .stop => { s with alive := false }

def run (s : Scene) (l : List Step) : Scene := l.foldl step s

theorem eq_of_change?_ready {s : Scene} {i : Nat} {b : Board} {w : Watcher}
    (h : s.change? i = some (.ready b w)) : w = .of s.store := by
  obtain ⟨w', -, hw⟩ := Option.map_eq_some_iff.mp h
  unfold Watcher.changed at hw
  split at hw
  · cases hw
    rfl
  · split at hw <;> cases hw

end Scene

/-- What is noted of a run. -/
structure Notes where
  /-- The actions that the store applied. -/
  actions : List Action := []
  /-- How many of them each watcher has seen. -/
  points : List Nat := []

namespace Notes

open Scene (Step)

/-- What is noted of a step in a scene: a new watcher has seen all there is, a clone what its
original has seen, and a change that is ready moves its watcher on to all there is. -/
def step (n : Notes) (s : Scene) : Step → Notes
  | .dispatch action => if s.alive then { n with actions := n.actions ++ [action] } else n
  | .watch => if s.alive then { n with points := n.points ++ [n.actions.length] } else n
  | .clone i => { n with points := n.points ++ n.points[i]?.toList }
  | .changed i =>
    match s.change? i with
    | some (.ready _ _) => { n with points := n.points.set i n.actions.length }
    | _ => n
  | .snapshot _ | .stop => n

/-- What is noted of a run, behind what was noted before. -/
def run (n : Notes) (s : Scene) : List Step → Notes
  | [] => n
  | t :: l => (n.step s t).run (s.step t) l

/-- The watcher that has seen so many actions of the store. -/
def watcher (first : Store) (n : Notes) (point : Nat) : Watcher :=
  .of (first.dispatchAll (n.actions.take point))

/-- The store is the one that was given all actions, and every watcher remembers the version of the
store at the point up to which it has seen. -/
structure Faithful (first : Store) (s : Scene) (n : Notes) : Prop where
  store : s.store = first.dispatchAll n.actions
  watchers : s.watchers = n.points.map (n.watcher first)
  le : ∀ p ∈ n.points, p ≤ n.actions.length

variable {first : Store} {s : Scene} {n : Notes}

theorem watcher_all (h : Faithful first s n) : n.watcher first n.actions.length = .of s.store := by
  rw [watcher, List.take_length, h.store]

theorem Faithful.dispatch (h : Faithful first s n) (action : Action) :
    Faithful first { s with store := s.store.dispatch action }
      { n with actions := n.actions ++ [action] } where
  store := by
    rw [h.store, Store.dispatchAll_append]
    rfl
  watchers := by
    rw [h.watchers]
    refine List.map_congr_left fun p hp => ?_
    rw [watcher, watcher, List.take_append_of_le_length (h.le p hp)]
  le p hp := by
    rw [List.length_append]
    exact Nat.le_add_right_of_le (h.le p hp)

/-- More watchers, at points that there are. -/
theorem Faithful.concat (h : Faithful first s n) (points : List Nat)
    (hpoints : ∀ p ∈ points, p ≤ n.actions.length) :
    Faithful first { s with watchers := s.watchers ++ points.map (n.watcher first) }
      { n with points := n.points ++ points } where
  store := h.store
  watchers := by
    rw [h.watchers, List.map_append]
    rfl
  le p hp := (List.mem_append.mp hp).elim (h.le p) (hpoints p)

theorem Faithful.set (h : Faithful first s n) (i : Nat) :
    Faithful first { s with watchers := s.watchers.set i (.of s.store) }
      { n with points := n.points.set i n.actions.length } where
  store := h.store
  watchers := by
    rw [h.watchers, ← watcher_all h, ← List.map_set]
    rfl
  le p hp := by
    rcases List.mem_or_eq_of_mem_set hp with hp | rfl
    · exact h.le p hp
    · exact Nat.le_refl _

/-- A watcher is ready if the store went on from what it has seen. -/
theorem Faithful.seen_lt_iff (h : Faithful first s n) (p : Nat) :
    (n.watcher first p).seen < s.store.version ↔
      (first.board.run (n.actions.take p)).Replaced (n.actions.drop p) := by
  have hlt := (first.dispatchAll (n.actions.take p)).version_lt_iff (n.actions.drop p)
  rw [← Store.dispatchAll_append, List.take_append_drop, Store.dispatchAll_board, ← h.store] at hlt
  exact hlt

theorem Faithful.change? (h : Faithful first s n) {i p : Nat} (hp : n.points[i]? = some p) :
    s.change? i = some ((n.watcher first p).changed s.store s.alive) := by
  rw [Scene.change?, h.watchers, List.getElem?_map, hp]
  rfl

theorem Faithful.step (h : Faithful first s n) (t : Step) :
    Faithful first (s.step t) (n.step s t) := by
  cases t with
  | dispatch action =>
    rw [Scene.step, Notes.step]
    split
    · exact h.dispatch action
    · exact h
  | watch =>
    rw [Scene.step, Notes.step]
    split
    · have hnew := h.concat [n.actions.length] fun p hp => by simp [List.mem_singleton.mp hp]
      rw [List.map_singleton, watcher_all h] at hnew
      exact hnew
    · exact h
  | clone i =>
    have hnew := h.concat n.points[i]?.toList fun p hp =>
      h.le p (List.mem_of_getElem? (Option.mem_toList.mp hp))
    have hclone : s.watchers[i]?.toList = n.points[i]?.toList.map (n.watcher first) := by
      rw [h.watchers, List.getElem?_map, Option.toList_map]
    rw [← hclone] at hnew
    exact hnew
  | snapshot i => exact h
  | changed i =>
    have hready := h.set i
    rw [Scene.step, Notes.step]
    cases hchange : s.change? i with
    | none => exact h
    | some change =>
      cases change with
      | ready b w =>
        -- A watcher that was ready has seen all there is.
        have hw : w = .of s.store := Scene.eq_of_change?_ready hchange
        rw [hw]
        exact hready
      | pending | gone => exact h
  | stop => exact ⟨h.store, h.watchers, h.le⟩

theorem Faithful.run (h : Faithful first s n) (l : List Step) :
    Faithful first (s.run l) (n.run s l) := by
  induction l generalizing s n with
  | nil => exact h
  | cons t l ih => exact ih (h.step t)

theorem faithful_start (first : Store) : Faithful first { store := first } {} :=
  ⟨rfl, rfl, fun _ => nofun⟩

end Notes

/-! ## 4. Changes -/

namespace Scene

/-- **A watcher that waits has missed nothing.**  In every run, a watcher reads the board that there
is, and waiting is ready exactly if some action since the point up to which the watcher has seen
replaced the board; it then gives the board that there is, however many changes there were.  Where
the watcher has to wait, or is told that the store is gone, the board at that point is the one that
there is. -/
theorem change?_run (board : Board) (subscribers : Nat) (l : List Step) :
    let s := run { store := { board, subscribers } } l
    let n := Notes.run {} { store := { board, subscribers } } l
    s.store.board = board.run n.actions ∧ s.watchers.length = n.points.length ∧
      ∀ i p, n.points[i]? = some p → p ≤ n.actions.length ∧
        s.snapshot? i = some s.store.board ∧
        ((board.run (n.actions.take p)).Replaced (n.actions.drop p) →
          s.change? i = some (.ready s.store.board (.of s.store))) ∧
        (¬ (board.run (n.actions.take p)).Replaced (n.actions.drop p) →
          s.change? i = some (if s.alive then .pending else .gone) ∧
            board.run (n.actions.take p) = s.store.board) := by
  intro s n
  have h : Notes.Faithful { board, subscribers } s n := (Notes.faithful_start _).run l
  have hboard : s.store.board = board.run n.actions := by
    rw [h.store, Store.dispatchAll_board]
  have hsnapshot : s.store.snapshot = s.store.board := by
    rw [h.store]
    exact Store.dispatchAll_snapshot rfl _
  refine ⟨hboard, by rw [h.watchers, List.length_map], fun i p hp => ?_⟩
  have hseen := h.seen_lt_iff p
  refine ⟨h.le p (List.mem_of_getElem? hp), ?_, fun hreplaced => ?_, fun hreplaced => ⟨?_, ?_⟩⟩
  · rw [snapshot?, h.watchers, List.getElem?_map, hp, ← hsnapshot]
    rfl
  · rw [h.change? hp, Watcher.changed, if_pos (hseen.mpr hreplaced), hsnapshot]
    rfl
  · rw [h.change? hp, Watcher.changed, if_neg (fun hlt => hreplaced (hseen.mp hlt))]
  · -- Nothing since has replaced the board.
    have hsame := Board.run_of_not_replaced hreplaced
    rw [← List.take_append_drop p n.actions, Board.run, List.foldl_append] at hboard
    exact (hboard.trans hsame).symm

/-- Two changes of which a clone is told at once, when the store is gone already; the original took
them before, and what came since changed nothing. -/
theorem change?_run_clone :
    let fragment : Fragment := .ofList [("relays", .null)]
    let l : List Step := [.watch, .dispatch .socketConnected, .dispatch (.updateState fragment),
      .clone 0, .changed 0, .dispatch .socketConnected, .snapshot 1, .stop]
    let s := run { store := { board := {}, subscribers := 1 } } l
    s.change? 0 = some .gone ∧
      s.change? 1 = some (.ready { connected := true, extra := fragment } (.of s.store)) := by
  intro fragment l s
  obtain ⟨hboard, -, hchange⟩ := change?_run {} 1 l
  have hnow : s.store.board = { connected := true, extra := fragment } :=
    hboard.trans (by decide +kernel)
  obtain ⟨-, -, -, hgone⟩ := hchange 0 2 (by decide +kernel)
  obtain ⟨-, -, hready, -⟩ := hchange 1 0 (by decide +kernel)
  refine ⟨(hgone ?_).1, ?_⟩
  · intro h
    change Board.Replaced _ [.socketConnected] at h
    rcases Board.replaced_cons_iff.mp h with hconnected | hnil
    · exact absurd hconnected (by decide +kernel)
    · exact Board.not_replaced_nil _ hnil
  · rw [← hnow]
    exact hready ⟨[], _, _, rfl, rfl⟩

end Scene

end StreamBoard

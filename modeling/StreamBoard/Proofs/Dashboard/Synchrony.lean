import StreamBoard.Dashboard
import StreamBoard.Proofs.Session.Replay
import StreamBoard.Proofs.Socket.Relay

/-!
# Synchrony — the board shows what the connection brought

The task and the store take turns in any order.  Between them stands the channel, and what the
store would be after the channel is always what the reported events make of it (`Synced`).  Once the
channel is empty, every field of the board is the one that the texts read so far say, and the
connection flag is what the task publishes.
-/

namespace StreamBoard

/-- The value that a text carries under a key; a text that is no fragment carries none. -/
def Fragment.carried? (key : String) (text : String) : Option Json :=
  (Fragment.decode? text).bind (·.find? key)

/-! ## 1. Fields of what was read -/

theorem Action.pushed?_ofStep? (key : String) (s : Socket.Step) :
    (Action.ofStep? s).bind (Action.pushed? key) = s.text?.bind (Fragment.carried? key) := by
  cases s with
  | receive frame =>
    cases frame with
    | text text =>
      show ((Fragment.decode? text).map Action.updateState).bind _ = Fragment.carried? key text
      rw [Fragment.carried?]
      cases Fragment.decode? text <;> rfl
    | _ => rfl
  | _ => rfl

/-- No step carries a list of settings. -/
theorem Action.settings?_ofStep? (s : Socket.Step) :
    (Action.ofStep? s).bind Action.settings? =
      (Action.ofStep? s).bind (Action.pushed? MapKey.streamSettings.name) := by
  cases s with
  | receive frame =>
    cases frame with
    | text text =>
      show ((Fragment.decode? text).map Action.updateState).bind _ =
        ((Fragment.decode? text).map Action.updateState).bind _
      cases Fragment.decode? text <;> rfl
    | _ => rfl
  | _ => rfl

namespace Board

/-- A field that was pushed holds what the last text carried under its name. -/
theorem field_run_texts (l : List Socket.Step) {key : String} (htype : key ≠ Fragment.typeKey)
    (hflag : key ≠ connectedKey) :
    (run {} (l.filterMap Action.ofStep?)).field key =
      (lastWrite? (Fragment.carried? key) (l.filterMap Socket.Step.text?)).or
        (if isKnownKey key then some (.object []) else none) := by
  have htexts : lastWrite? (Action.pushed? key) (l.filterMap Action.ofStep?) =
      lastWrite? (Fragment.carried? key) (l.filterMap Socket.Step.text?) := by
    rw [lastWrite?_filterMap, lastWrite?_filterMap]
    exact congrArg (fun f => lastWrite? f l) (funext (Action.pushed?_ofStep? key))
  have hblank : ({} : Board).field key = if isKnownKey key then some (.object []) else none := by
    rw [field_blank, if_neg hflag]
  rw [← htexts, ← hblank]
  by_cases hsettings : key = MapKey.streamSettings.name
  · rw [hsettings, field_run_settings, lastWrite?_filterMap, lastWrite?_filterMap]
    exact congrArg (fun f => (lastWrite? f l).or _) (funext Action.settings?_ofStep?)
  · exact field_run_of_pushed _ htype hsettings hflag

/-- The flag is set by the last action about the connection. -/
theorem field_run_flag (actions : List Action) {up : Bool}
    (hup : up = true ↔ lastWrite? Action.lifecycle? actions = some true) :
    (run {} actions).field connectedKey = some (.bool up) := by
  rw [field_run_connected]
  rcases hlast : lastWrite? Action.lifecycle? actions with _ | _ | _
  · rw [hlast] at hup
    rw [Bool.eq_false_iff.mpr (mt hup.mp nofun)]
    rfl
  · rw [hlast] at hup
    rw [Bool.eq_false_iff.mpr (mt hup.mp nofun)]
    rfl
  · rw [hup.mpr hlast]
    rfl

end Board

namespace Dashboard

/-! ## 2. Turns -/

/-- A turn of the connection task, or of those who send, or of the store. -/
inductive Turn
  | task (step : Socket.Step)
  | receive

def Turn.step? : Turn → Option Socket.Step
  | .task s => some s
  | .receive => none

/-- The texts that are read in some turns. -/
def texts (policy : Socket.Policy) (l : List Turn) : List String :=
  Socket.Task.texts { policy } (l.filterMap Turn.step?)

/-- The steps that the task takes of its own accord. -/
def ownSteps (l : List Turn) : List Socket.Step :=
  (l.filterMap Turn.step?).filter fun s => !s.concernsPayload

/-- The dispatcher handles the events of a step at once. -/
def turn (d : Dashboard) : Turn → Dashboard
  | .task s =>
    let task := d.task.step s
    let events := task.events.drop d.task.events.length
    { d with
      task
      session := events.foldl (fun s e => (s.command (.event e.1)).1) d.session }
  | .receive => { d with session := d.session.receive }

def turns (d : Dashboard) (l : List Turn) : Dashboard := l.foldl turn d

/-- The session that the actions of some events were enqueued in. -/
def enqueue (s : Session) (events : List Socket.Event) : Session :=
  { s with
    dispatcher := { s.dispatcher with
      channel := s.dispatcher.channel ++ events.filterMap Action.ofEvent? } }

theorem foldl_event (s : Session) (events : List (Socket.Event × Socket.State)) :
    events.foldl (fun s e => (s.command (.event e.1)).1) s = enqueue s (events.map Prod.fst) := by
  induction events generalizing s with
  | nil => simp [enqueue]
  | cons e events ih =>
    rw [List.foldl_cons, ih]
    simp only [Session.command, Dispatcher.handleEvent, enqueue, List.map_cons,
      List.filterMap_cons]
    cases Action.ofEvent? e.1 with
    | none => rfl
    | some action => simp [Dispatcher.dispatch]

theorem enqueue_append (s : Session) (first second : List Socket.Event) :
    enqueue (enqueue s first) second = enqueue s (first ++ second) := by
  simp [enqueue]

theorem turn_task (d : Dashboard) (s : Socket.Step) :
    d.turn (.task s) =
      { d with task := d.task.step s, session := enqueue d.session (d.task.news s) } := by
  have hnews : ((d.task.step s).events.drop d.task.events.length).map Prod.fst =
      d.task.news s := by
    rw [Socket.Task.events_step, List.drop_left, List.map_map]
    exact List.map_id _
  simp only [turn, foldl_event, hnews]

/-- An attempt that nobody interferes with is the turns of its steps. -/
theorem connect_eq_turns (d : Dashboard) (a : Socket.Attempt) :
    d.connect a = d.turns (a.steps.map .task) := by
  have hsteps : ∀ (l : List Socket.Step) (d : Dashboard), ∃ told,
      (d.task.steps l).reports = d.task.reports ++ told ∧
        d.turns (l.map .task) =
          { d with task := d.task.steps l, session := enqueue d.session told } := by
    intro l
    induction l with
    | nil =>
      intro d
      refine ⟨[], (List.append_nil _).symm, ?_⟩
      simp [turns, enqueue, Socket.Task.steps]
    | cons s l ih =>
      intro d
      obtain ⟨told, htold, hturns⟩ := ih (d.turn (.task s))
      rw [turn_task] at htold hturns
      refine ⟨d.task.news s ++ told, ?_, ?_⟩
      · rw [← List.append_assoc, ← Socket.Task.reports_step]
        exact htold
      · rw [List.map_cons, turns, List.foldl_cons, turn_task, ← turns, hturns, enqueue_append]
        rfl
  obtain ⟨told, htold, hturns⟩ := hsteps a.steps d
  have hnew : ((d.task.steps a.steps).events.drop d.task.events.length).map Prod.fst = told := by
    have hlength : d.task.events.length = d.task.reports.length := (List.length_map _).symm
    rw [List.map_drop, hlength]
    show (d.task.steps a.steps).reports.drop _ = told
    rw [htold, List.drop_left]
  rw [hturns, ← hnew, ← foldl_event]
  rfl

/-! ## 3. What the channel makes of the store -/

/-- What the store is to be after the channel, the reported events have made of it. -/
structure Synced (blank : Store) (d : Dashboard) : Prop where
  alive : d.session.alive = true
  snapshot : d.session.store.snapshot = d.session.store.board
  store : d.session.store.dispatchAll d.session.dispatcher.channel =
    blank.dispatchAll (d.task.reports.filterMap Action.ofEvent?)

theorem Synced.turn {blank : Store} {d : Dashboard} (h : Synced blank d) (t : Turn) :
    Synced blank (d.turn t) := by
  cases t with
  | task s =>
    rw [turn_task]
    refine ⟨h.alive, h.snapshot, ?_⟩
    show d.session.store.dispatchAll (d.session.dispatcher.channel ++ _) = _
    rw [Socket.Task.reports_step, List.filterMap_append, Store.dispatchAll_append, h.store,
      Store.dispatchAll_append]
  | receive =>
    have hstore := h.store
    cases hchannel : d.session.dispatcher.channel with
    | nil =>
      have hsame : d.turn .receive = d := by
        simp [Dashboard.turn, Session.receive, hchannel]
      rw [hsame]
      exact h
    | cons action rest =>
      -- What was the first of the channel is the last that the store was given.
      have hreceive : d.session.receive =
          { d.session with
            dispatcher := { d.session.dispatcher with channel := rest }
            store := d.session.store.dispatch action } := by
        rw [Session.receive, hchannel]
        simp [h.alive]
      rw [hchannel] at hstore
      refine ⟨?_, ?_, ?_⟩
      · show d.session.receive.alive = true
        rw [hreceive]
        exact h.alive
      · show d.session.receive.store.snapshot = d.session.receive.store.board
        rw [hreceive]
        exact Store.dispatch_snapshot h.snapshot action
      · show d.session.receive.store.dispatchAll d.session.receive.dispatcher.channel = _
        rw [hreceive]
        exact hstore

theorem task_turns (d : Dashboard) (l : List Turn) :
    (d.turns l).task = d.task.steps (l.filterMap Turn.step?) := by
  induction l generalizing d with
  | nil => rfl
  | cons t l ih =>
    rw [turns, List.foldl_cons, ← turns, ih]
    cases t with
    | task s =>
      rw [turn_task]
      rfl
    | receive => rfl

/-! ## 4. Frames that are not fragments -/

/-- The events of a task decide nothing. -/
theorem step_with_events (t : Socket.Task) (events : List (Socket.Event × Socket.State))
    (s : Socket.Step) :
    ∃ later, Socket.Task.step { t with events } s = { t.step s with events := later } := by
  unfold Socket.Task.step
  cases s with
  | send payload =>
    simp only [Socket.Task.step?, Socket.Task.send, Option.getD_some]
    split <;> exact ⟨_, rfl⟩
  | receive frame =>
    simp only [Socket.Task.step?]
    split
    · cases frame <;> exact ⟨_, rfl⟩
    · exact ⟨_, rfl⟩
  | deliver =>
    simp only [Socket.Task.step?, Socket.Task.deliverFirst]
    split
    · cases t with
      | mk _ _ _ _ queue _ _ received =>
        cases queue with
        | nil => exact ⟨events, rfl⟩
        | cons payload queue => cases received <;> exact ⟨events, rfl⟩
    · exact ⟨_, rfl⟩
  | decide =>
    simp only [Socket.Task.step?, Socket.Task.decideNext]
    split
    · split <;> exact ⟨_, rfl⟩
    · exact ⟨_, rfl⟩
  | _ =>
    simp only [Socket.Task.step?]
    split <;> exact ⟨_, rfl⟩

/-- Dashboards whose tasks differ in their events only have one session at any time. -/
theorem session_turns_of_events {d e : Dashboard} (hsession : e.session = d.session)
    (htask : ∃ events, e.task = { d.task with events }) (l : List Turn) :
    (e.turns l).session = (d.turns l).session := by
  induction l generalizing d e with
  | nil => exact hsession
  | cons t l ih =>
    obtain ⟨events, htask⟩ := htask
    apply ih
    · cases t with
      | task s =>
        have hnews : e.task.news s = d.task.news s := by
          rw [htask]
          cases s <;> rfl
        rw [turn_task, turn_task, hnews, hsession]
      | receive =>
        show e.session.receive = d.session.receive
        rw [hsession]
    · cases t with
      | task s =>
        rw [turn_task, turn_task, htask]
        exact step_with_events d.task events s
      | receive => exact ⟨events, htask⟩

/-- A step whose news are no actions leaves the session alone. -/
theorem session_turn_task {d : Dashboard} {s : Socket.Step} (h : Action.ofStep? s = none) :
    (d.turn (.task s)).session = d.session := by
  have hnone : (d.task.news s).filterMap Action.ofEvent? = [] := by
    rw [Socket.Task.news_actions, h]
    split <;> rfl
  rw [turn_task, enqueue, hnone, List.append_nil]

/-- After a frame that is no fragment, everything is as if it had not been sent. -/
theorem session_turns_of_frame {d : Dashboard} {frame : Socket.Frame}
    (h : Action.ofStep? (.receive frame) = none) (rest : List Turn) :
    (d.turns (.task (.receive frame) :: rest)).session = (d.turns rest).session := by
  refine session_turns_of_events (session_turn_task h) ?_ rest
  rw [turn_task]
  show ∃ events, d.task.step (.receive frame) = { d.task with events }
  simp only [Socket.Task.step, Socket.Task.step?]
  split
  · cases frame <;> exact ⟨_, rfl⟩
  · exact ⟨_, rfl⟩

theorem turns_append (d : Dashboard) (l m : List Turn) : d.turns (l ++ m) = (d.turns l).turns m :=
  List.foldl_append

/-- The store empties any channel, if it has a turn for each action there. -/
theorem channel_receive {d : Dashboard} {count : Nat}
    (h : d.session.dispatcher.channel.length ≤ count) :
    (d.turns (List.replicate count .receive)).session.dispatcher.channel = [] := by
  induction count generalizing d with
  | zero => exact List.length_eq_zero_iff.mp (Nat.le_zero.mp h)
  | succ count ih =>
    -- A turn of the store takes one action, or finds none.
    have hreceive : (d.turn .receive).session.dispatcher.channel =
        d.session.dispatcher.channel.tail := by
      show d.session.receive.dispatcher.channel = _
      rw [Session.receive]
      cases hchannel : d.session.dispatcher.channel with
      | nil => exact hchannel
      | cons action rest => rfl
    apply ih (d := d.turn .receive)
    rw [hreceive, List.length_tail]
    omega

theorem step?_receive (l : List Turn) (count : Nat) :
    (l ++ List.replicate count Turn.receive).filterMap Turn.step? = l.filterMap Turn.step? := by
  have hnone : (List.replicate count Turn.receive).filterMap Turn.step? = [] := by
    rw [List.filterMap_eq_nil_iff]
    intro t ht
    rw [List.eq_of_mem_replicate ht]
    rfl
  rw [List.filterMap_append, hnone, List.append_nil]

/-! ## 5. The board -/

theorem start_eq {config : Config} {subscribers : Nat} {d : Dashboard}
    (h : start config subscribers = .ok d) :
    d.session = .start {} subscribers ∧ d.task = { policy := config.reconnect } := by
  unfold start at h
  cases hurl : config.socketUrl with
  | error failure =>
    rw [hurl] at h
    cases h
  | ok url =>
    rw [hurl] at h
    cases h
    exact ⟨rfl, rfl⟩

/-- The board of an empty channel. -/
theorem board_of_drained {config : Config} {subscribers : Nat} {d : Dashboard}
    (hstart : start config subscribers = .ok d) {l : List Turn}
    (hdrained : (d.turns l).session.dispatcher.channel = []) :
    (d.turns l).session.store.board = (d.turns l).board ∧
      (d.turns l).board = Board.run {} ((Socket.Task.performed { policy := config.reconnect }
        (l.filterMap Turn.step?)).filterMap Action.ofStep?) := by
  obtain ⟨hsession, htask⟩ := start_eq hstart
  have hblank : Synced { subscribers } d := by
    refine ⟨?_, ?_, ?_⟩
    · rw [hsession]
      rfl
    · rw [hsession]
      rfl
    · rw [hsession, htask]
      rfl
  have hsynced : Synced { subscribers } (d.turns l) :=
    foldl_keeps (Synced { subscribers }) (fun _ t _ h => h.turn t) hblank
  have hsame : (d.turns l).session.store.board = (d.turns l).board := hsynced.snapshot.symm
  have hstore := hsynced.store
  rw [hdrained, task_turns, htask, Socket.Task.reports_actions] at hstore
  refine ⟨hsame, ?_⟩
  rw [← hsame]
  exact (congrArg Store.board hstore).trans (Store.dispatchAll_board _ _)

/-- **The channel can always be emptied.**  Turns of the store alone do it, as many as there are
actions in the channel, and they neither read a text nor take a step of the task.  So the board of
an empty channel is reached after any turns, with the texts and the task as they are. -/
theorem channel_turns_receive (d : Dashboard) (policy : Socket.Policy) (l : List Turn) {count : Nat}
    (h : (d.turns l).session.dispatcher.channel.length ≤ count) :
    (d.turns (l ++ List.replicate count .receive)).session.dispatcher.channel = [] ∧
      texts policy (l ++ List.replicate count .receive) = texts policy l ∧
      ownSteps (l ++ List.replicate count .receive) = ownSteps l ∧
      (d.turns (l ++ List.replicate count .receive)).task = (d.turns l).task := by
  refine ⟨?_, ?_, ?_, ?_⟩
  · rw [turns_append]
    exact channel_receive h
  · rw [texts, step?_receive, texts]
  · rw [ownSteps, step?_receive, ownSteps]
  · rw [task_turns, step?_receive, task_turns]

/-- **Once the channel is empty, the board shows what the connection brought.**  Every field but the
discriminator and the flag holds the last value that a text carried under its name, over all
connections so far, whatever was lost in between; the flag is true while the task publishes that it
is connected.  As long as the budget of reconnect attempts lasts, the texts are those of the
attempts made and of the next one as far as it has come, and the flag is true from the announcement
of its connection to its withdrawal; after the attempt that spends the budget nothing changes, and
the flag is false.  Frames that are not fragments and announced attempts leave the store and the
channel as if they had not been. -/
theorem board_turns {config : Config} {subscribers : Nat} {d : Dashboard}
    (hstart : start config subscribers = .ok d) (l : List Turn)
    (hdrained : (d.turns l).session.dispatcher.channel = []) :
    (d.turns l).session.store.board = (d.turns l).board ∧
    (∀ key, key ≠ Fragment.typeKey → key ≠ connectedKey →
      (d.turns l).board.field key =
        (lastWrite? (Fragment.carried? key) (texts config.reconnect l)).or
          (if isKnownKey key then some (.object []) else none)) ∧
    (∀ before text since key value,
      texts config.reconnect l = before ++ text :: since →
      Fragment.carried? key text = some value → (∀ s ∈ since, Fragment.carried? key s = none) →
      key ≠ Fragment.typeKey → key ≠ connectedKey →
      (d.turns l).board.field key = some value) ∧
    (d.turns l).board.field connectedKey = some (.bool (d.turns l).task.state.isConnected) ∧
    (∀ script (a : Socket.Attempt) p,
      ownSteps l = script.flatMap Socket.Attempt.steps ++ p → p <+: a.steps →
      ¬ Socket.Spent config.reconnect [] script →
      texts config.reconnect l =
        script.flatMap Socket.Attempt.texts ++ p.filterMap Socket.Step.text? ∧
      ((d.turns l).board.field connectedKey = some (.bool true) ↔
        .announce ∈ p ∧ .withdraw ∉ p)) ∧
    (∀ past a more,
      ownSteps l = (past ++ [a]).flatMap Socket.Attempt.steps ++ more →
      Socket.Spends config.reconnect past a → ¬ Socket.Spent config.reconnect [] past →
      texts config.reconnect l = (past ++ [a]).flatMap Socket.Attempt.texts ∧
      (∃ reason, (d.turns l).task.state = .failed reason) ∧
      (d.turns l).board.field connectedKey = some (.bool false)) ∧
    (∀ before frame rest, l = before ++ .task (.receive frame) :: rest →
      (∀ text, frame = .text text → Fragment.decode? text = none) →
      (d.turns l).session = (d.turns (before ++ rest)).session) ∧
    (∀ before rest, l = before ++ .task .decide :: rest →
      (d.turns (before ++ [.task .decide])).session = (d.turns before).session) := by
  -- Both halves of the board are read off the actions of the steps that were performed.
  obtain ⟨hsame, hboard⟩ := board_of_drained hstart hdrained
  have htask : (d.turns l).task =
      Socket.Task.steps { policy := config.reconnect } (l.filterMap Turn.step?) := by
    rw [task_turns, (start_eq hstart).2]
  have hfield : ∀ key, key ≠ Fragment.typeKey → key ≠ connectedKey →
      (d.turns l).board.field key =
        (lastWrite? (Fragment.carried? key) (texts config.reconnect l)).or
          (if isKnownKey key then some (.object []) else none) := by
    intro key htype hflag
    rw [hboard]
    exact Board.field_run_texts _ htype hflag
  have hflag : (d.turns l).board.field connectedKey =
      some (.bool (d.turns l).task.state.isConnected) := by
    rw [hboard, htask]
    refine Board.field_run_flag _ ?_
    rw [← Socket.Task.state_iff]
    exact Socket.State.isConnected_iff _
  refine ⟨hsame, hfield, ?_, hflag, ?_, ?_, ?_, ?_⟩
  · intro before text since key value htexts hvalue hsince htype hconnected
    have hnone : lastWrite? (Fragment.carried? key) since = none := by
      rw [lastWrite?, List.findSome?_eq_none_iff]
      intro s hs
      exact hsince s (List.mem_reverse.mp hs)
    rw [hfield key htype hconnected, htexts, lastWrite?_append, lastWrite?_cons, hnone, hvalue]
    rfl
  · intro script a p hl hp hspent
    obtain ⟨htexts, hstate⟩ := Socket.Task.texts_of_script hl hp hspent
    rw [hflag, htask, ← hstate, ← Socket.State.isConnected_iff]
    exact ⟨htexts, by simp⟩
  · intro past a more hl hspends hpast
    obtain ⟨htexts, reason, hstate⟩ := Socket.Task.texts_of_spent hl hspends hpast
    rw [hflag, htask, hstate]
    exact ⟨htexts, ⟨reason, rfl⟩, rfl⟩
  · -- Only fragments become actions, and events without actions reach no session.
    intro before frame rest hl hframe
    have hnone : Action.ofStep? (.receive frame) = none := by
      cases frame with
      | text text =>
        show (Fragment.decode? text).map Action.updateState = none
        rw [hframe text rfl]
        rfl
      | _ => rfl
    rw [hl, turns_append, turns_append]
    exact session_turns_of_frame hnone rest
  · intro before rest hl
    rw [turns_append]
    exact session_turn_task rfl

/-- A connection that is lost after a fragment and a frame that is none, and a failure that spends
the budget: the field stays, and the flag does not. -/
theorem board_turns_lost :
    ∃ d l, start ⟨⟨"http", some { host := .name "localhost" }, .segments [], none, none⟩,
        { maxAttempts := 1 }⟩ 1 = .ok d ∧
      l.filterMap Turn.step? =
        [.succeeded [.text "\x7b\"a\": true\x7d", .text "[]"], .failed].flatMap
          Socket.Attempt.steps ∧
      (d.turns l).board.field "a" = some (.bool true) ∧
      (d.turns l).board.field connectedKey = some (.bool false) := by
  have hstart : start ⟨⟨"http", some { host := .name "localhost" }, .segments [], none, none⟩,
      { maxAttempts := 1 }⟩ 1 =
      .ok ⟨⟨⟨"http", some { host := .name "localhost" }, .segments [], none, none⟩,
        { maxAttempts := 1 }⟩,
        ⟨"ws", some { host := .name "localhost" }, .segments ["ws"], none, none⟩, .start {} 1,
        { policy := { maxAttempts := 1 } }⟩ := rfl
  have hboard := board_turns hstart
    [.task .start, .task .establish, .task .clearQueue, .task .announce, .receive,
      .task (.receive (.text "\x7b\"a\": true\x7d")), .task (.receive (.text "[]")), .task .lose,
      .task .withdraw, .receive, .task .decide, .receive, .task .start, .task .fail,
      .task .withdraw, .receive, .task .decide] (by decide +kernel)
  have hunspent : ¬ Socket.Spent { maxAttempts := 1 } []
      [.succeeded [.text "\x7b\"a\": true\x7d", .text "[]"]] := by
    rw [Socket.spent_cons]
    rintro (hspends | ⟨before, a, rest, hsplit, -⟩)
    · cases hspends.2.1
    · simp at hsplit
  obtain ⟨htexts, -, hflag⟩ := hboard.2.2.2.2.2.1 [_] .failed [] rfl (by decide) hunspent
  refine ⟨_, _, hstart, rfl, ?_, hflag⟩
  exact hboard.2.2.1 [] _ ["[]"] "a" _ htexts (by decide +kernel) (by decide +kernel) (by decide)
    (by decide)

end Dashboard

end StreamBoard

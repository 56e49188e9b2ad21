import StreamBoard.Proofs.Socket.Relay

/-!
# Publication — what is published, and what is reported beside it

The history of a run holds what it publishes and what it reports, in the order in which that
happens, so it shows which state an event was reported in.  `Allowed` lists the signs that may stand
behind a history; a task makes no others (`recorded_steps`), and none at all once it gave up.
-/

namespace StreamBoard.Socket

/-! ## 1. Histories -/

/-- What can be seen of the task from outside. -/
inductive Sign
  | published (state : State)
  | reported (event : Event)
deriving DecidableEq

def Sign.state? : Sign → Option State
  | .published state => some state
  | .reported _ => none

/-- The state that is published after a history, from the one before it. -/
def shownAfter (state : State) : List Sign → State
  | [] => state
  | .published next :: h => shownAfter next h
  | .reported _ :: h => shownAfter state h

/-- The state that was published last; before the first one the task is disconnected. -/
def shown (h : List Sign) : State := shownAfter .disconnected h

/-- The events of a history, each with the state published at that moment. -/
def witnessed (state : State) : List Sign → List (Event × State)
  | [] => []
  | .published next :: h => witnessed next h
  | .reported event :: h => (event, state) :: witnessed state h

/-- The event comes from a connection that is up. -/
def Event.isOfConnection : Event → Bool
  | .connected | .message _ => true
  | .disconnected | .reconnecting _ _ => false

/-- The signs that may stand behind a history. -/
inductive Allowed (policy : Policy) : List Sign → Sign → Prop
  /-- The first attempt. -/
  | connecting : Allowed policy [] (.published .connecting)
  | accepted {h : List Sign} (hshown : (shown h).isConnecting = true) :
    Allowed policy h (.published .connected)
  | refused {h : List Sign} (hshown : (shown h).isConnecting = true) :
    Allowed policy h (.published .disconnected)
  | lost {h : List Sign} (hshown : shown h = .connected) :
    Allowed policy h (.published .disconnected)
  /-- An attempt that was just announced, under its number. -/
  | reconnecting {h : List Sign} {attempt delay : Nat} (hshown : shown h = .disconnected) :
    Allowed policy (h ++ [.reported (.reconnecting attempt delay)])
      (.published (.reconnecting attempt))
  /-- The loss was just reported, and there is a limit. -/
  | gaveUp {h : List Sign} (hlimit : 0 < policy.maxAttempts.toNat)
      (hshown : shown h = .disconnected) :
    Allowed policy (h ++ [.reported .disconnected])
      (.published (.failed (Failure.retriesExhausted policy.maxAttempts.toNat).message))
  | connected {h : List Sign} :
    Allowed policy (h ++ [.published .connected]) (.reported .connected)
  | message {h : List Sign} {text : String} (hshown : shown h = .connected) :
    Allowed policy h (.reported (.message text))
  | disconnected {h : List Sign} :
    Allowed policy (h ++ [.published .disconnected]) (.reported .disconnected)
  | announced {h : List Sign} {attempt delay : Nat} (hshown : shown h = .disconnected) :
    Allowed policy (h ++ [.reported .disconnected]) (.reported (.reconnecting attempt delay))

/-- Every sign of the history may stand behind those before it. -/
def Orderly (policy : Policy) (h : List Sign) : Prop :=
  ∀ before sign rest, h = before ++ sign :: rest → Allowed policy before sign

namespace Task

/-- The state that a step publishes. -/
def publishes (t : Task) : Step → Option State
  | .start => if t.phase = .due then some t.attemptState else none
  | .announce => if t.phase = .cleared then some .connected else none
  | .withdraw => if t.phase = .ended then some .disconnected else none
  | .decide =>
    if t.phase = .down ∧ t.policy.exhausted t.attempt = true then
      some (.failed (Failure.retriesExhausted t.attempt).message)
    else none
  | _ => none

/-- What can be seen of a step: a state is published before it is reported. -/
def signs (t : Task) (s : Step) : List Sign :=
  (t.publishes s).toList.map .published ++ (t.news s).map .reported

/-- What can be seen of some steps. -/
def history (t : Task) : List Step → List Sign
  | [] => []
  | s :: l => t.signs s ++ (t.step s).history l

theorem history_append (t : Task) (l m : List Step) :
    t.history (l ++ m) = t.history l ++ (t.steps l).history m := by
  induction l generalizing t with
  | nil => rfl
  | cons s l ih =>
    rw [List.cons_append, history, ih, history, List.append_assoc]
    rfl

theorem history_concat (t : Task) (l : List Step) (s : Step) :
    t.history (l ++ [s]) = t.history l ++ (t.steps l).signs s := by
  rw [history_append, history, history, List.append_nil]

end Task

/-! ## 2. What is shown -/

theorem shownAfter_append (state : State) (h g : List Sign) :
    shownAfter state (h ++ g) = shownAfter (shownAfter state h) g := by
  induction h generalizing state with
  | nil => rfl
  | cons sign h ih =>
    cases sign with
    | published next => exact ih next
    | reported event => exact ih state

@[simp] theorem shown_published (h : List Sign) (state : State) :
    shown (h ++ [.published state]) = state :=
  shownAfter_append .disconnected h [.published state]

@[simp] theorem shown_reported (h : List Sign) (event : Event) :
    shown (h ++ [.reported event]) = shown h :=
  shownAfter_append .disconnected h [.reported event]

theorem witnessed_append (state : State) (h g : List Sign) :
    witnessed state (h ++ g) = witnessed state h ++ witnessed (shownAfter state h) g := by
  induction h generalizing state with
  | nil => rfl
  | cons sign h ih =>
    cases sign with
    | published next => exact ih next
    | reported event => exact congrArg ((event, state) :: ·) (ih state)

/-- The state beside an event is the one that is shown by what comes before it. -/
theorem exists_of_mem_witnessed {start state : State} {h : List Sign} {event : Event}
    (hmem : (event, state) ∈ witnessed start h) :
    ∃ before rest, h = before ++ .reported event :: rest ∧ state = shownAfter start before := by
  induction h generalizing start with
  | nil => cases hmem
  | cons sign h ih =>
    cases sign with
    | published next =>
      obtain ⟨before, rest, rfl, hstate⟩ := ih hmem
      exact ⟨.published next :: before, rest, rfl, hstate⟩
    | reported first =>
      rcases List.mem_cons.mp hmem with heq | hmem
      · obtain ⟨rfl, rfl⟩ := Prod.mk.inj heq
        exact ⟨[], h, rfl, rfl⟩
      · obtain ⟨before, rest, rfl, hstate⟩ := ih hmem
        exact ⟨.reported first :: before, rest, rfl, hstate⟩

theorem Orderly.concat {policy : Policy} {h : List Sign} (horderly : Orderly policy h) {sign : Sign}
    (hsign : Allowed policy h sign) : Orderly policy (h ++ [sign]) := by
  intro before sign' rest hsplit
  rcases concat_split.mp hsplit with ⟨rfl, rfl, -⟩ | ⟨rest', -, rfl⟩
  · exact hsign
  · exact horderly before sign' rest' rfl

/-- Behind a failure there is no sign. -/
theorem Orderly.eq_nil_of_failed {policy : Policy} {before rest : List Sign} {reason : String}
    (horderly : Orderly policy (before ++ .published (.failed reason) :: rest)) : rest = [] := by
  cases rest with
  | nil => rfl
  | cons sign rest =>
    have hallowed := horderly (before ++ [.published (.failed reason)]) sign rest (by simp)
    have hshown := shown_published before (.failed reason)
    generalize before ++ [.published (.failed reason)] = h at hallowed hshown
    -- Each rule wants another state than this to be shown.
    cases hallowed with
    | connecting => cases hshown
    | accepted hconnecting | refused hconnecting =>
      rw [hshown] at hconnecting
      cases hconnecting
    | lost hup | message hup =>
      rw [hshown] at hup
      cases hup
    | reconnecting hdown | gaveUp _ hdown | announced hdown =>
      rw [shown_reported, hdown] at hshown
      cases hshown
    | connected | disconnected =>
      rw [shown_published] at hshown
      cases hshown

namespace Task

theorem published_step (t : Task) (s : Step) :
    (t.step s).published = t.published ++ (t.publishes s).toList ∧
      (t.step s).state = (t.publishes s).getD t.state := by
  cases s with
  | send payload =>
    simp only [step, step?, send, publishes, Option.getD_some]
    split <;> simp
  | deliver =>
    simp only [step, step?, deliverFirst, publishes]
    split
    · split <;> simp
    · simp
  | receive frame =>
    simp only [step, step?, publishes]
    split
    · cases frame <;> simp [reportFrame, Frame.event?, report]
    · simp
  | start | fail | establish | clearQueue | announce | lose | withdraw =>
    simp only [step, step?, publishes]
    split <;> simp [publish, report]
  | decide =>
    simp only [step, step?, publishes, decideNext]
    split
    next hphase =>
      split
      next hspent => simp [hphase, hspent, publish]
      next hleft => simp [hphase, hleft, report]
    next hphase => simp [hphase]

theorem signs_of_not_performs {t : Task} {s : Step} (h : t.step? s = none) : t.signs s = [] := by
  have hstay : t.step s = t := by
    rw [step, h]
    rfl
  have hpublishes := (t.published_step s).1
  have hnews := t.events_step s
  rw [hstay, List.self_eq_append_right] at hpublishes hnews
  rw [signs, hpublishes, List.map_eq_nil_iff.mp hnews]
  rfl

/-! ## 3. One step -/

/-- What the history shows of a task in some phase. -/
def Reached (h : List Sign) (attempt : Nat) : Phase → Prop
  | .due => h = [] ∧ attempt = 0 ∨ 0 < attempt ∧ ∃ before delay,
      h = before ++ [.reported (.reconnecting attempt delay)] ∧ shown before = .disconnected
  | .attempting | .established | .cleared => (shown h).isConnecting = true
  | .relaying => shown h = .connected
  | .ended => (shown h).isConnecting = true ∨ shown h = .connected
  | .down => ∃ before, h = before ++ [.reported .disconnected] ∧ shown before = .disconnected
  | .finished => ∃ reason, shown h = .failed reason

/-- The task has come as far as the history, and the history is in order. -/
structure Recorded (policy : Policy) (h : List Sign) (t : Task) : Prop where
  policy_eq : t.policy = policy
  state : t.state = shown h
  /-- A limit is not passed. -/
  within : 0 < policy.maxAttempts.toNat → t.attempt ≤ policy.maxAttempts.toNat
  orderly : Orderly policy h
  reached : Reached h t.attempt t.phase

theorem recorded_blank (policy : Policy) : Recorded policy [] { policy } where
  policy_eq := rfl
  state := rfl
  within _ := Nat.zero_le _
  orderly before sign rest h := by simp at h
  reached := .inl ⟨rfl, rfl⟩

section Steps

variable {policy : Policy} {h : List Sign} {t u : Task}

/-- A step without signs. -/
theorem Recorded.stay (hrecorded : Recorded policy h t) (hpolicy : u.policy = t.policy)
    (hstate : u.state = t.state) (hattempt : u.attempt ≤ t.attempt)
    (hreached : Reached h u.attempt u.phase) : Recorded policy h u where
  policy_eq := hpolicy.trans hrecorded.policy_eq
  state := hstate.trans hrecorded.state
  within hlimit := Nat.le_trans hattempt (hrecorded.within hlimit)
  orderly := hrecorded.orderly
  reached := hreached

theorem Recorded.start (hrecorded : Recorded policy h t) (hphase : t.phase = .due) :
    Recorded policy (h ++ [.published t.attemptState])
      { t.publish t.attemptState with phase := .attempting } := by
  have hreached := hrecorded.reached
  rw [hphase] at hreached
  have hallowed : Allowed policy h (.published t.attemptState) ∧
      t.attemptState.isConnecting = true := by
    rcases hreached with ⟨rfl, hfirst⟩ | ⟨hagain, before, delay, rfl, hshown⟩
    · rw [attemptState, if_pos hfirst]
      exact ⟨.connecting, rfl⟩
    · rw [attemptState, if_neg (by omega)]
      exact ⟨.reconnecting hshown, rfl⟩
  refine ⟨hrecorded.policy_eq, (shown_published h _).symm, hrecorded.within,
    hrecorded.orderly.concat hallowed.1, ?_⟩
  change (shown (h ++ [.published t.attemptState])).isConnecting = true
  rw [shown_published]
  exact hallowed.2

theorem Recorded.announce (hrecorded : Recorded policy h t) (hphase : t.phase = .cleared) :
    Recorded policy (h ++ [.published .connected, .reported .connected])
      { (t.publish .connected).report .connected with phase := .relaying } := by
  have hreached := hrecorded.reached
  rw [hphase] at hreached
  have hshown : shown (h ++ [.published .connected, .reported .connected]) = .connected :=
    shownAfter_append _ h _
  have horderly := (hrecorded.orderly.concat (.accepted hreached)).concat .connected
  rw [List.append_assoc] at horderly
  exact ⟨hrecorded.policy_eq, hshown.symm, hrecorded.within, horderly, hshown⟩

theorem Recorded.message (hrecorded : Recorded policy h t) (hphase : t.phase = .relaying)
    (text : String) :
    Recorded policy (h ++ [.reported (.message text)]) (t.report (.message text)) := by
  have hreached := hrecorded.reached
  rw [hphase] at hreached
  have hshown := shown_reported h (.message text)
  refine ⟨hrecorded.policy_eq, hrecorded.state.trans hshown.symm, hrecorded.within,
    hrecorded.orderly.concat (.message hreached), ?_⟩
  change Reached _ t.attempt t.phase
  rw [hphase]
  exact hshown.trans hreached

theorem Recorded.withdraw (hrecorded : Recorded policy h t) (hphase : t.phase = .ended) :
    Recorded policy (h ++ [.published .disconnected, .reported .disconnected])
      { (t.publish .disconnected).report .disconnected with phase := .down } := by
  have hreached := hrecorded.reached
  rw [hphase] at hreached
  have hallowed : Allowed policy h (.published .disconnected) :=
    hreached.elim Allowed.refused Allowed.lost
  have hsplit : h ++ [.published .disconnected, .reported .disconnected] =
      (h ++ [.published .disconnected]) ++ [.reported .disconnected] := by
    rw [List.append_assoc]
    rfl
  rw [hsplit]
  refine ⟨hrecorded.policy_eq, ?_, hrecorded.within,
    (hrecorded.orderly.concat hallowed).concat .disconnected, ?_⟩
  · rw [shown_reported, shown_published]
    rfl
  · exact ⟨_, rfl, shown_published h _⟩

theorem Recorded.giveUp (hrecorded : Recorded policy h t) (hphase : t.phase = .down)
    (hspent : t.policy.exhausted t.attempt = true) :
    Recorded policy (h ++ [.published (.failed (Failure.retriesExhausted t.attempt).message)])
      { t.publish (.failed (Failure.retriesExhausted t.attempt).message) with
        phase := .finished } := by
  have hreached := hrecorded.reached
  rw [hphase] at hreached
  obtain ⟨before, rfl, hshown⟩ := hreached
  rw [hrecorded.policy_eq] at hspent
  simp only [Policy.exhausted, Bool.and_eq_true, decide_eq_true_eq] at hspent
  -- The counter has not passed the limit, so it is there.
  have hattempt : t.attempt = policy.maxAttempts.toNat :=
    Nat.le_antisymm (hrecorded.within hspent.1) hspent.2
  rw [hattempt]
  exact ⟨hrecorded.policy_eq, (shown_published _ _).symm, hrecorded.within,
    hrecorded.orderly.concat (.gaveUp hspent.1 hshown), ⟨_, shown_published _ _⟩⟩

theorem Recorded.goOn (hrecorded : Recorded policy h t) (hphase : t.phase = .down)
    (hleft : t.policy.exhausted t.attempt = false) :
    let next := min (t.attempt + 1) 4294967295
    let event := Event.reconnecting next (t.policy.delay t.attempt)
    Recorded policy (h ++ [.reported event])
      { t.report event with attempt := next, phase := .due } := by
  intro next event
  have hreached := hrecorded.reached
  rw [hphase] at hreached
  obtain ⟨before, rfl, hshown⟩ := hreached
  have hstate := shown_reported (before ++ [.reported .disconnected]) event
  refine ⟨hrecorded.policy_eq, hrecorded.state.trans hstate.symm, fun hlimit => ?_,
    hrecorded.orderly.concat (.announced hshown), .inr ⟨?_, _, _, rfl, ?_⟩⟩
  · rw [hrecorded.policy_eq] at hleft
    simp only [Policy.exhausted, Bool.and_eq_false_iff, decide_eq_false_iff_not] at hleft
    change min (t.attempt + 1) 4294967295 ≤ policy.maxAttempts.toNat
    omega
  · change 0 < min (t.attempt + 1) 4294967295
    omega
  · rw [shown_reported]
    exact hshown

theorem Recorded.step? (hrecorded : Recorded policy h t) {s : Step} (hstep : t.step? s = some u) :
    Recorded policy (h ++ t.signs s) u := by
  have hreached := hrecorded.reached
  -- A step that nobody sees.
  have hunseen {s : Step} (hsigns : t.signs s = []) (hu : Recorded policy h u) :
      Recorded policy (h ++ t.signs s) u := by
    rwa [hsigns, List.append_nil]
  cases s with
  | send payload =>
    cases hstep
    refine hunseen rfl ?_
    unfold Task.send
    split
    · exact hrecorded.stay rfl rfl (Nat.le_refl _) hreached
    · exact hrecorded
  | deliver =>
    obtain ⟨-, rfl⟩ := taken hstep
    refine hunseen rfl ?_
    unfold deliverFirst
    split
    · exact hrecorded.stay rfl rfl (Nat.le_refl _) hreached
    · exact hrecorded
  | start =>
    obtain ⟨hphase, rfl⟩ := taken hstep
    have hsigns : t.signs .start = [.published t.attemptState] := by
      simp [signs, publishes, news, hphase]
    rw [hsigns]
    exact hrecorded.start hphase
  | fail =>
    obtain ⟨hphase, rfl⟩ := taken hstep
    rw [hphase] at hreached
    exact hunseen rfl (hrecorded.stay rfl rfl (Nat.le_refl _) (.inl hreached))
  | establish =>
    obtain ⟨hphase, rfl⟩ := taken hstep
    rw [hphase] at hreached
    exact hunseen rfl (hrecorded.stay rfl rfl (Nat.zero_le _) hreached)
  | clearQueue =>
    obtain ⟨hphase, rfl⟩ := taken hstep
    rw [hphase] at hreached
    exact hunseen rfl (hrecorded.stay rfl rfl (Nat.le_refl _) hreached)
  | announce =>
    obtain ⟨hphase, rfl⟩ := taken hstep
    have hsigns : t.signs .announce = [.published .connected, .reported .connected] := by
      simp [signs, publishes, news, hphase]
    rw [hsigns]
    exact hrecorded.announce hphase
  | receive frame =>
    obtain ⟨hphase, rfl⟩ := taken hstep
    cases frame with
    | text text =>
      have hsigns : t.signs (.receive (.text text)) = [.reported (.message text)] := by
        simp [signs, publishes, news, hphase, Frame.event?]
      rw [hsigns]
      exact hrecorded.message hphase text
    | binary _ | ping _ | pong _ =>
      refine hunseen ?_ hrecorded
      simp [signs, publishes, news, Frame.event?]
  | lose =>
    obtain ⟨hphase, rfl⟩ := taken hstep
    rw [hphase] at hreached
    exact hunseen rfl (hrecorded.stay rfl rfl (Nat.le_refl _) (.inr hreached))
  | withdraw =>
    obtain ⟨hphase, rfl⟩ := taken hstep
    have hsigns : t.signs .withdraw = [.published .disconnected, .reported .disconnected] := by
      simp [signs, publishes, news, hphase]
    rw [hsigns]
    exact hrecorded.withdraw hphase
  | decide =>
    obtain ⟨hphase, rfl⟩ := taken hstep
    cases hspent : t.policy.exhausted t.attempt with
    | true =>
      have hsigns : t.signs .decide =
          [.published (.failed (Failure.retriesExhausted t.attempt).message)] := by
        simp [signs, publishes, news, hphase, hspent]
      rw [hsigns, decideNext, if_pos hspent]
      exact hrecorded.giveUp hphase hspent
    | false =>
      have hsigns : t.signs .decide =
          [.reported (.reconnecting (min (t.attempt + 1) 4294967295)
            (t.policy.delay t.attempt))] := by
        simp [signs, publishes, news, hphase, hspent]
      rw [hsigns, decideNext, hspent, if_neg Bool.false_ne_true]
      exact hrecorded.goOn hphase hspent

theorem Recorded.step (hrecorded : Recorded policy h t) (s : Step) :
    Recorded policy (h ++ t.signs s) (t.step s) := by
  unfold Task.step
  cases hstep : t.step? s with
  | none =>
    rw [signs_of_not_performs hstep, List.append_nil]
    exact hrecorded
  | some u => exact hrecorded.step? hstep

end Steps

/-! ## 4. Runs -/

/-- What a run publishes and reports is what its history shows. -/
theorem steps_history (t : Task) (l : List Step) :
    (t.steps l).published = t.published ++ (t.history l).filterMap Sign.state? ∧
      (t.steps l).events = t.events ++ witnessed t.state (t.history l) ∧
      (t.steps l).state = shownAfter t.state (t.history l) := by
  induction l generalizing t with
  | nil => simp [steps, history, witnessed, shownAfter]
  | cons s l ih =>
    have hsteps : t.steps (s :: l) = (t.step s).steps l := rfl
    obtain ⟨hpublished, hstate⟩ := t.published_step s
    have hevents := t.events_step s
    obtain ⟨ihPublished, ihEvents, ihState⟩ := ih (t.step s)
    have hnews (state : State) :
        shownAfter state ((t.news s).map .reported) = state ∧
          witnessed state ((t.news s).map .reported) = (t.news s).map fun e => (e, state) := by
      induction t.news s with
      | nil => exact ⟨rfl, rfl⟩
      | cons e news ih => exact ⟨ih.1, congrArg ((e, state) :: ·) ih.2⟩
    have hshown : shownAfter t.state (t.signs s) = (t.step s).state := by
      rw [hstate, signs, shownAfter_append, (hnews _).1]
      cases t.publishes s <;> rfl
    have hwitnessed : witnessed t.state (t.signs s) =
        (t.news s).map fun e => (e, (t.step s).state) := by
      rw [hstate, signs, witnessed_append, (hnews _).2]
      cases t.publishes s <;> rfl
    have hstates : (t.signs s).filterMap Sign.state? = (t.publishes s).toList := by
      rw [signs, List.filterMap_append, List.filterMap_map, List.filterMap_map]
      have hnone : (t.news s).filterMap (Sign.state? ∘ Sign.reported) = [] :=
        List.filterMap_eq_nil_iff.mpr fun _ _ => rfl
      rw [hnone, List.append_nil]
      cases t.publishes s <;> rfl
    rw [hsteps, history, List.filterMap_append, witnessed_append, shownAfter_append, hshown,
      hstates, hwitnessed, ihPublished, ihEvents, ihState, hpublished, hevents, List.append_assoc,
      List.append_assoc]
    exact ⟨rfl, rfl, rfl⟩

theorem Recorded.steps {policy : Policy} {h : List Sign} {t : Task}
    (hrecorded : Recorded policy h t) (l : List Step) :
    Recorded policy (h ++ t.history l) (t.steps l) := by
  induction l generalizing h t with
  | nil =>
    rw [history, List.append_nil]
    exact hrecorded
  | cons s l ih =>
    rw [history, ← List.append_assoc]
    exact ih (hrecorded.step s)

/-- **A task is always where its history left it, and the history is in order.** -/
theorem recorded_steps (policy : Policy) (l : List Step) :
    Recorded policy (Task.history { policy } l) (Task.steps { policy } l) :=
  (recorded_blank policy).steps l

/-- Until it gave up, the task has more to show. -/
theorem exists_history_ne_nil {t : Task} (h : t.phase ≠ .finished) : ∃ l, t.history l ≠ [] := by
  have hsees {l : List Step} {s : Step} {u : Task} (hu : t.steps l = u) (hs : u.signs s ≠ []) :
      ∃ l, t.history l ≠ [] := by
    refine ⟨l ++ [s], fun hnil => hs ?_⟩
    rw [history_concat, hu] at hnil
    exact (List.append_eq_nil_iff.mp hnil).2
  cases hphase : t.phase with
  | due => exact hsees (l := []) (s := .start) rfl (by simp [steps, signs, publishes, hphase])
  | attempting =>
    exact hsees (l := [.fail]) (s := .withdraw) rfl
      (by simp [steps, step?, signs, publishes, hphase])
  | established =>
    exact hsees (l := [.clearQueue]) (s := .announce) rfl
      (by simp [steps, step?, signs, publishes, hphase])
  | cleared =>
    exact hsees (l := []) (s := .announce) rfl (by simp [steps, signs, publishes, hphase])
  | relaying =>
    exact hsees (l := [.lose]) (s := .withdraw) rfl
      (by simp [steps, step?, signs, publishes, hphase])
  | ended => exact hsees (l := []) (s := .withdraw) rfl (by simp [steps, signs, publishes, hphase])
  | down =>
    refine hsees (l := []) (s := .decide) rfl ?_
    cases hspent : t.policy.exhausted t.attempt with
    | true => simp [steps, signs, publishes, hphase, hspent]
    | false => simp [steps, signs, news, hphase, hspent]
  | finished => exact absurd hphase h

end Task

theorem exists_published_of_shownAfter {start state : State} {h : List Sign}
    (hshown : shownAfter start h = state) (hne : state ≠ start) :
    ∃ before rest, h = before ++ .published state :: rest := by
  induction h generalizing start with
  | nil => exact absurd hshown.symm hne
  | cons sign h ih =>
    cases sign with
    | reported event =>
      obtain ⟨before, rest, rfl⟩ := ih hshown hne
      exact ⟨.reported event :: before, rest, rfl⟩
    | published next =>
      by_cases heq : state = next
      · exact ⟨[], h, by rw [heq]; rfl⟩
      · obtain ⟨before, rest, rfl⟩ := ih hshown heq
        exact ⟨.published next :: before, rest, rfl⟩

/-- An event is reported while the state that belongs to it is published. -/
theorem Orderly.shown_of_reported {policy : Policy} {before rest : List Sign} {event : Event}
    (horderly : Orderly policy (before ++ .reported event :: rest)) :
    shown before = if event.isOfConnection then .connected else .disconnected := by
  cases horderly before _ rest rfl with
  | connected => exact shown_published _ _
  | message hshown => exact hshown
  | disconnected => exact shown_published _ _
  | announced hshown => rw [shown_reported, hshown]; rfl

/-- **What is published and what is reported agree.**  In turn: the history of a run shows what the
run publishes, what it reports, and which state was published at each report; each of its signs may
stand behind those before it; a failure is published under a limit only, and it is the last sign,
whatever steps follow; there is no other end; and a connection and its messages are reported while
`connected` is published, all else while `disconnected` is, so just in the former case a payload
that is sent at the report is accepted. -/
theorem history_steps (policy : Policy) (l : List Step) :
    let t := Task.steps { policy } l
    let h := Task.history { policy } l
    (t.published = h.filterMap Sign.state? ∧ t.events = witnessed .disconnected h ∧
      t.state = shown h) ∧
    (∀ before sign rest, h = before ++ sign :: rest → Allowed policy before sign) ∧
    (∀ before reason rest, h = before ++ .published (.failed reason) :: rest →
      0 < policy.maxAttempts.toNat ∧ rest = [] ∧ t.state = .failed reason) ∧
    ((∀ more, Task.history { policy } (l ++ more) = h) ↔ ∃ reason, t.state = .failed reason) ∧
    (∀ event state, (event, state) ∈ t.events →
      state = (if event.isOfConnection then .connected else .disconnected) ∧
        (state.sendResult = .ok () ↔ event.isOfConnection = true)) := by
  intro t h
  obtain ⟨hpublished, hevents, hstate⟩ := Task.steps_history { policy } l
  have hrecorded := Task.recorded_steps policy l
  refine ⟨⟨hpublished, hevents, hstate⟩, hrecorded.orderly, fun before reason rest hsplit => ?_,
    ⟨fun hend => ?_, fun ⟨reason, hfailed⟩ more => ?_⟩, fun event state hmem => ?_⟩
  · have horderly := hrecorded.orderly
    rw [show Task.history { policy } l = _ from hsplit] at horderly
    have hrest := horderly.eq_nil_of_failed
    refine ⟨?_, hrest, ?_⟩
    · cases horderly before _ rest rfl with
      | gaveUp hlimit => exact hlimit
    · rw [show t.state = shown h from hstate, hsplit, hrest]
      exact shown_published before (.failed reason)
  · have hfinished : t.phase = .finished := by
      apply Classical.byContradiction
      intro hphase
      obtain ⟨more, hmore⟩ := Task.exists_history_ne_nil hphase
      have hlonger := hend more
      rw [Task.history_append, List.append_right_eq_self] at hlonger
      exact hmore hlonger
    have hreached := hrecorded.reached
    rw [show (Task.steps { policy } l).phase = _ from hfinished] at hreached
    obtain ⟨reason, hshown⟩ := hreached
    exact ⟨reason, hstate.trans hshown⟩
  · have hlonger := (Task.recorded_steps policy (l ++ more)).orderly
    rw [Task.history_append] at hlonger ⊢
    obtain ⟨before, rest, hsplit⟩ :=
      exists_published_of_shownAfter (hstate.symm.trans hfailed) nofun
    rw [hsplit, List.append_assoc, List.cons_append] at hlonger
    have hnone := (List.append_eq_nil_iff.mp hlonger.eq_nil_of_failed).2
    rw [hnone, List.append_nil]
  · rw [show t.events = witnessed .disconnected h from hevents] at hmem
    obtain ⟨before, rest, hsplit, hbefore⟩ := exists_of_mem_witnessed hmem
    have horderly := hrecorded.orderly
    rw [show Task.history { policy } l = _ from hsplit] at horderly
    have hshown := hbefore.trans horderly.shown_of_reported
    refine ⟨hshown, ?_⟩
    rw [State.sendResult_eq_ok_iff, hshown]
    cases event.isOfConnection <;> simp

/-- One reconnect attempt in a row: a success between two failures brings it back, and after the
failure that spends it nothing more is seen, whatever is sent or done. -/
theorem history_steps_limit :
    let l : List Step := [.start, .fail, .withdraw, .decide, .start, .establish, .clearQueue,
      .announce, .receive (.text "frame"), .lose, .withdraw, .decide, .start, .fail, .withdraw,
      .decide]
    let policy : Policy := { maxAttempts := 1 }
    (∃ before, Task.history { policy } l =
      before ++ [.published (.failed "gave up after 1 reconnect attempts")] ∧
        Allowed policy before (.published (.failed "gave up after 1 reconnect attempts"))) ∧
    (∀ more, Task.history { policy } (l ++ more) = Task.history { policy } l) ∧
    (Event.message "frame", State.connected) ∈ (Task.steps { policy } l).events ∧
    State.connected.sendResult = .ok () := by
  intro l policy
  obtain ⟨-, horderly, -, hend, hevents⟩ := history_steps policy l
  have hhistory : Task.history { policy } l = (Task.history { policy } l).dropLast ++
      [.published (.failed "gave up after 1 reconnect attempts")] := by decide +kernel
  have hmem : (Event.message "frame", State.connected) ∈ (Task.steps { policy } l).events := by
    decide +kernel
  exact ⟨⟨_, hhistory, horderly _ _ [] hhistory⟩,
    hend.mpr ⟨"gave up after 1 reconnect attempts", by decide +kernel⟩, hmem,
    (hevents _ _ hmem).2.mpr rfl⟩

end StreamBoard.Socket

import StreamBoard.Dispatch
import StreamBoard.Proofs.Board.LastWriter
import StreamBoard.Proofs.Socket.Payload

/-!
# Relay — which actions follow from the steps of the task

A step is performed where the phase of the task allows it.  What the task reports is the news of
the steps that it performed, and of a script it performs the steps of all attempts up to the one
that spends the budget.  So the actions that its events become are found from the steps alone, and
the last of them about the connection agrees with what the task publishes.
-/

namespace StreamBoard

/-! ## 1. Steps that are performed -/

/-- The action that a performed step of the task leads to. -/
def Action.ofStep? : Socket.Step → Option Action
  | .announce => some .socketConnected
  | .receive (.text text) => (Fragment.decode? text).map .updateState
  | .withdraw => some .socketDisconnected
  | _ => none

namespace Socket

namespace Task

def performs (t : Task) (s : Step) : Bool := (t.step? s).isSome

/-- Those of the steps that are performed. -/
def performed (t : Task) : List Step → List Step
  | [] => []
  | s :: l => if t.performs s then s :: (t.step s).performed l else (t.step s).performed l

/-- What is reported of a step. -/
def news (t : Task) : Step → List Event
  | .announce => if t.phase = .cleared then [.connected] else []
  | .receive frame => if t.phase = .relaying then frame.event?.toList else []
  | .withdraw => if t.phase = .ended then [.disconnected] else []
  | .decide =>
    if t.phase = .down ∧ t.policy.exhausted t.attempt = false then
      [.reconnecting (min (t.attempt + 1) 4294967295) (t.policy.delay t.attempt)]
    else []
  | _ => []

theorem performed_append (t : Task) (l m : List Step) :
    t.performed (l ++ m) = t.performed l ++ (t.steps l).performed m := by
  induction l generalizing t with
  | nil => rfl
  | cons s l ih =>
    have htail : (t.steps (s :: l)) = (t.step s).steps l := rfl
    rw [List.cons_append, performed, performed, ih, htail]
    split
    · rw [List.cons_append]
    · rfl

theorem performed_sublist (t : Task) (l : List Step) : (t.performed l).Sublist l := by
  induction l generalizing t with
  | nil => exact List.Sublist.refl _
  | cons s l ih =>
    rw [performed]
    split
    · exact (ih _).cons_cons s
    · exact (ih _).cons s

/-- Of steps that are all performed, the first ones are. -/
theorem performed_of_prefix {t : Task} {l p : List Step} (h : t.performed l = l) (hp : p <+: l) :
    t.performed p = p := by
  obtain ⟨q, rfl⟩ := hp
  rw [performed_append] at h
  have hfirst := (t.performed_sublist p).length_le
  have hsecond := ((t.steps p).performed_sublist q).length_le
  have hlength := congrArg List.length h
  rw [List.length_append, List.length_append] at hlength
  exact (t.performed_sublist p).eq_of_length (by omega)

theorem step_of_not_performs {t : Task} {s : Step} (h : t.performs s = false) : t.step s = t := by
  rw [performs, Option.isSome_eq_false_iff, Option.isNone_iff_eq_none] at h
  rw [step, h]
  rfl

/-- A step adds its news to the reports, and nothing else does. -/
theorem events_step (t : Task) (s : Step) :
    (t.step s).events = t.events ++ (t.news s).map fun e => (e, (t.step s).state) := by
  cases s with
  | send payload =>
    simp only [step, step?, send, news, Option.getD_some]
    split <;> simp
  | deliver =>
    simp only [step, step?, deliverFirst, news]
    split
    · split <;> simp
    · simp
  | announce | withdraw =>
    simp only [step, step?, news]
    split <;> simp [publish, report]
  | start | fail | establish | clearQueue | lose =>
    simp only [step, step?, news]
    split <;> simp [publish]
  | receive frame =>
    simp only [step, step?, news]
    split
    · cases frame <;> simp [reportFrame, Frame.event?, report]
    · simp
  | decide =>
    simp only [step, step?, news, decideNext]
    split
    next hphase =>
      split
      next hspent => simp [hphase, hspent, publish]
      next hleft => simp [hphase, hleft, report]
    next hphase => simp [hphase]

theorem reports_step (t : Task) (s : Step) : (t.step s).reports = t.reports ++ t.news s := by
  rw [reports, events_step, List.map_append, List.map_map, reports]
  exact congrArg (t.events.map Prod.fst ++ ·) (List.map_id _)

/-- The news of a step become the action of the step; an announced attempt becomes none. -/
theorem news_actions (t : Task) (s : Step) :
    (t.news s).filterMap Action.ofEvent? =
      if t.performs s then (Action.ofStep? s).toList else [] := by
  cases s with
  | decide =>
    have hnone : (t.news .decide).filterMap Action.ofEvent? = [] := by
      rw [news]
      split <;> rfl
    rw [hnone]
    split <;> rfl
  | announce | withdraw =>
    simp only [news, performs, step?]
    split <;> rfl
  | receive frame =>
    simp only [news, performs, step?]
    split
    · cases frame with
      | text s =>
        cases hs : Fragment.decode? s with
        | none => simp [Frame.event?, Action.ofEvent?, Action.ofStep?, hs]
        | some fragment => simp [Frame.event?, Action.ofEvent?, Action.ofStep?, hs]
      | binary _ | ping _ | pong _ => rfl
    · rfl
  | send _ | start | fail | establish | clearQueue | deliver | lose =>
    simp only [news, Action.ofStep?]
    split <;> rfl

/-- **The events of a run become the actions of the steps that were performed.** -/
theorem reports_actions (t : Task) (l : List Step) :
    (t.steps l).reports.filterMap Action.ofEvent? =
      t.reports.filterMap Action.ofEvent? ++ (t.performed l).filterMap Action.ofStep? := by
  induction l generalizing t with
  | nil => simp [steps, performed]
  | cons s l ih =>
    have htail : (t.steps (s :: l)) = (t.step s).steps l := rfl
    rw [htail, ih, reports_step, List.filterMap_append, news_actions, List.append_assoc, performed]
    split
    · rw [List.filterMap_cons]
      cases Action.ofStep? s <;> rfl
    · rfl

/-! ## 2. The connection -/

end Task

theorem State.isConnected_iff (s : State) : s.isConnected = true ↔ s = .connected := by
  cases s <;> simp [State.isConnected]

namespace Task

/-- What the task publishes about the connection agrees with what it reported. -/
structure Shown (t : Task) : Prop where
  flag : t.state = .connected ↔
    lastWrite? Action.lifecycle? (t.reports.filterMap Action.ofEvent?) = some true
  phase : t.state = .connected → t.phase = .relaying ∨ t.phase = .ended

theorem Shown.not_connected {t : Task} (h : t.Shown) (hrelaying : t.phase ≠ .relaying)
    (hended : t.phase ≠ .ended) : t.state ≠ .connected := by
  intro hstate
  cases h.phase hstate with
  | inl hphase => exact hrelaying hphase
  | inr hphase => exact hended hphase

/-- A step that says nothing about the connection. -/
theorem Shown.stay {t u : Task} (h : t.Shown)
    (hactions : lastWrite? Action.lifecycle? (u.reports.filterMap Action.ofEvent?) =
      lastWrite? Action.lifecycle? (t.reports.filterMap Action.ofEvent?))
    (hstate : u.state = .connected ↔ t.state = .connected)
    (hphase : t.state = .connected → u.phase = .relaying ∨ u.phase = .ended) : u.Shown where
  flag := by
    rw [hstate, hactions]
    exact h.flag
  phase hu := hphase (hstate.mp hu)

/-- A step that shows a change of the connection. -/
theorem Shown.change {t : Task} {state : State} {event : Event} {action : Action} {phase : Phase}
    (hevent : Action.ofEvent? event = some action)
    (haction : action.lifecycle? = some state.isConnected)
    (hphase : state = .connected → phase = .relaying ∨ phase = .ended) :
    Shown { (t.publish state).report event with phase } where
  flag := by
    have hlast : lastWrite? Action.lifecycle?
        ((t.reports ++ [event]).filterMap Action.ofEvent?) = some state.isConnected := by
      rw [List.filterMap_append, lastWrite?_append]
      simp [lastWrite?, hevent, haction]
    have hreports : reports { (t.publish state).report event with phase } = t.reports ++ [event] :=
      (t.publish state).reports_report event
    rw [hreports, hlast, Option.some.injEq]
    exact state.isConnected_iff.symm
  phase := hphase

theorem Shown.step? {t u : Task} (h : t.Shown) {s : Step} (hstep : t.step? s = some u) :
    u.Shown := by
  have hdown {phase : Phase} (hphase : t.phase = phase) (hrelaying : phase ≠ .relaying)
      (hended : phase ≠ .ended) : t.state ≠ .connected := by
    subst hphase
    exact h.not_connected hrelaying hended
  cases s with
  | send payload =>
    cases hstep
    unfold Task.send
    split
    · exact h.stay rfl Iff.rfl h.phase
    · exact h
  | start =>
    obtain ⟨hphase, rfl⟩ := taken hstep
    have hstate := hdown hphase (by decide) (by decide)
    exact h.stay rfl (iff_of_false t.attemptState_ne hstate) (fun heq => absurd heq hstate)
  | fail | establish | clearQueue =>
    obtain ⟨hphase, rfl⟩ := taken hstep
    exact h.stay rfl Iff.rfl (fun heq => absurd heq (hdown hphase (by decide) (by decide)))
  | announce =>
    obtain ⟨-, rfl⟩ := taken hstep
    exact Shown.change rfl rfl (fun _ => .inl rfl)
  | receive frame =>
    obtain ⟨-, rfl⟩ := taken hstep
    cases frame with
    | text text =>
      refine h.stay ?_ Iff.rfl h.phase
      have hreports : (t.reportFrame (.text text)).reports = t.reports ++ [.message text] :=
        t.reports_report _
      rw [hreports, List.filterMap_append, lastWrite?_append, lastWrite?_filterMap _ _ [_]]
      have hmessage : (Action.ofEvent? (.message text)).bind Action.lifecycle? = none := by
        show ((Fragment.decode? text).map Action.updateState).bind _ = none
        cases Fragment.decode? text <;> rfl
      simp [lastWrite?, hmessage]
    | binary _ | ping _ | pong _ => exact h
  | deliver =>
    obtain ⟨-, rfl⟩ := taken hstep
    unfold deliverFirst
    split
    · exact h.stay rfl Iff.rfl h.phase
    · exact h
  | lose =>
    obtain ⟨-, rfl⟩ := taken hstep
    exact h.stay rfl Iff.rfl (fun _ => .inr rfl)
  | withdraw =>
    obtain ⟨-, rfl⟩ := taken hstep
    exact Shown.change rfl rfl (fun heq => by cases heq)
  | decide =>
    obtain ⟨hphase, rfl⟩ := taken hstep
    have hstate := hdown hphase (by decide) (by decide)
    unfold decideNext
    split
    · exact h.stay rfl (iff_of_false State.noConfusion hstate) (fun heq => absurd heq hstate)
    · refine h.stay ?_ Iff.rfl (fun heq => absurd heq hstate)
      -- An announced attempt is an event, but no action.
      show lastWrite? _ ((List.map Prod.fst (t.events ++ [_])).filterMap _) = _
      rw [List.map_append, List.filterMap_append]
      exact congrArg (lastWrite? Action.lifecycle?) (List.append_nil _)

theorem shown_steps (policy : Policy) (l : List Step) : (Task.steps { policy } l).Shown := by
  have hblank : Task.Shown { policy } := ⟨⟨nofun, nofun⟩, nofun⟩
  refine foldl_keeps Shown (fun t s _ h => ?_) hblank
  cases hstep : t.step? s with
  | none => exact h
  | some u => exact h.step? hstep

end Task

end Socket

/-- What the action of a step says about the connection. -/
theorem Action.lifecycle?_ofStep? (s : Socket.Step) :
    (Action.ofStep? s).bind Action.lifecycle? =
      match s with
      | .announce => some true
      | .withdraw => some false
      | _ => none := by
  cases s with
  | receive frame =>
    cases frame with
    | text text =>
      show ((Fragment.decode? text).map Action.updateState).bind _ = none
      cases Fragment.decode? text <;> rfl
    | _ => rfl
  | _ => rfl

/-- The last action about the connection says that there is one, if it was announced and not
withdrawn since. -/
theorem Action.lifecycle?_iff (l : List Socket.Step) :
    lastWrite? Action.lifecycle? (l.filterMap Action.ofStep?) = some true ↔
      ∃ before since, l = before ++ .announce :: since ∧ .withdraw ∉ since := by
  rw [lastWrite?_filterMap]
  constructor
  · intro h
    obtain ⟨since, s, before, hl, hs, hnone⟩ := List.findSome?_eq_some_iff.mp h
    have hannounce : s = .announce := by
      rw [Action.lifecycle?_ofStep?] at hs
      cases s with
      | announce => rfl
      | _ => cases hs
    have hsplit : l = before.reverse ++ .announce :: since.reverse := by
      rw [← List.reverse_reverse l, hl, hannounce]
      simp
    refine ⟨_, _, hsplit, fun hwithdraw => ?_⟩
    have habsent := hnone _ (List.mem_reverse.mp hwithdraw)
    cases habsent
  · rintro ⟨before, since, rfl, hwithdraw⟩
    rw [lastWrite?_append, lastWrite?_cons]
    cases hsince : lastWrite? (fun s => (Action.ofStep? s).bind Action.lifecycle?) since with
    | none => rfl
    | some up =>
      -- Whatever was said since was not that the connection is lost.
      obtain ⟨later, s, earlier, hl, hs, -⟩ := List.findSome?_eq_some_iff.mp hsince
      have hmem : s ∈ since := by
        rw [← List.mem_reverse, hl]
        simp
      rw [Action.lifecycle?_ofStep?] at hs
      cases s with
      | announce =>
        cases hs
        rfl
      | withdraw => exact absurd hmem hwithdraw
      | _ => cases hs

namespace Socket

/-! ## 3. Scripts -/

/-- The text that arrives in a step. -/
def Step.text? : Step → Option String
  | .receive (.text text) => some text
  | _ => none

theorem Step.text?_of_payload {s : Step} (h : s.concernsPayload = true) : s.text? = none := by
  cases s with
  | send _ | deliver => rfl
  | _ => cases h

theorem Step.ofStep?_of_payload {s : Step} (h : s.concernsPayload = true) :
    Action.ofStep? s = none := by
  cases s with
  | send _ | deliver => rfl
  | _ => cases h

namespace Task

/-- The texts that are read in some steps. -/
def texts (t : Task) (l : List Step) : List String := (t.performed l).filterMap Step.text?

theorem performs_of_bare {t u : Task} (h : t.bare = u.bare) {s : Step}
    (hs : s.concernsPayload = false) : t.performs s = u.performs s := by
  have hphase : t.phase = u.phase := by
    show t.bare.phase = u.bare.phase
    rw [h]
  cases s with
  | send _ | deliver => cases hs
  | _ =>
    simp only [performs, step?, hphase]
    split <;> rfl

/-- But for payloads, the same steps are performed whether payloads are sent or not. -/
theorem performed_filter {t u : Task} (h : t.bare = u.bare) (l : List Step) :
    (t.performed l).filter (fun s => !s.concernsPayload) =
      u.performed (l.filter fun s => !s.concernsPayload) := by
  induction l generalizing t u with
  | nil => rfl
  | cons s l ih =>
    cases hs : s.concernsPayload with
    | true =>
      have hnext := ih ((t.bare_step_of_payload hs).trans h)
      rw [List.filter_cons_of_neg (by simp [hs]), ← hnext, performed]
      split
      · rw [List.filter_cons_of_neg (by simp [hs])]
        rfl
      · rfl
    | false =>
      have hbare : (t.step s).bare = (u.step s).bare := by
        unfold step
        rw [← t.bare_step hs, ← u.bare_step hs, h]
      rw [List.filter_cons_of_pos (by simp [hs]), performed, performed, performs_of_bare h hs]
      split
      · rw [List.filter_cons_of_pos (by simp [hs]), ih hbare]
      · exact ih hbare

/-- What payloads do not say, the other steps say alone. -/
theorem filterMap_performed {β : Type} (policy : Policy) (l : List Step) {tells : Step → Option β}
    (htells : ∀ s, s.concernsPayload = true → tells s = none) :
    (Task.performed { policy } l).filterMap tells =
      (Task.performed { policy } (l.filter fun s => !s.concernsPayload)).filterMap tells := by
  rw [← performed_filter rfl l, List.filterMap_filter]
  refine congrArg (fun f => (Task.performed { policy } l).filterMap f) (funext fun s => ?_)
  cases hs : s.concernsPayload with
  | true => exact htells s hs
  | false => rfl

theorem performed_receive {t : Task} (h : t.phase = .relaying) (frames : List Frame) :
    t.performed (frames.map .receive) = frames.map .receive := by
  induction frames generalizing t with
  | nil => rfl
  | cons frame frames ih =>
    have hperforms : t.performs (.receive frame) = true := by
      simp [performs, step?, h]
    have hnext : (t.step (.receive frame)).phase = .relaying := by
      rw [step, step?, if_pos h]
      cases frame <;> exact h
    rw [List.map_cons, performed, if_pos hperforms, ih hnext]

/-- A task that is to make an attempt performs all its steps. -/
theorem performed_attempt {t : Task} (h : t.phase = .due) (a : Attempt) :
    t.performed a.steps = a.steps := by
  cases a with
  | failed => simp [Attempt.steps, performed, performs, step, step?, h, publish, report]
  | succeeded frames =>
    have hrelay : t.connect.phase = .relaying := rfl
    have hconnect : t.performed [.start, .establish, .clearQueue, .announce] =
        [.start, .establish, .clearQueue, .announce] := by
      simp [performed, performs, step, step?, h, publish]
    have hlose {u : Task} (hu : u.phase = .relaying) :
        u.performed [.lose, .withdraw, .decide] = [.lose, .withdraw, .decide] := by
      simp [performed, performs, step, step?, hu, publish, report]
    have hframes : (t.connect.steps (frames.map .receive)).phase = .relaying := by
      rw [steps_receive hrelay]
      rfl
    rw [Attempt.steps, performed_append, performed_append, steps_append, steps_connect h, hconnect,
      performed_receive hrelay, hlose hframes]

theorem performed_of_finished {t : Task} (h : t.phase = .finished) {l : List Step}
    (hl : ∀ s ∈ l, s.concernsPayload = false) : t.performed l = [] ∧ t.steps l = t := by
  induction l with
  | nil => exact ⟨rfl, rfl⟩
  | cons s l ih =>
    have hrefused : t.performs s = false := by
      have hs := hl s List.mem_cons_self
      cases s with
      | send _ => cases hs
      | _ => simp [performs, step?, h]
    have hstay := step_of_not_performs hrefused
    have hsteps : t.steps (s :: l) = (t.step s).steps l := rfl
    rw [performed, hrefused, hsteps, hstay]
    exact ih fun s hs => hl s (List.mem_cons_of_mem _ hs)

/-- As long as the budget lasts, all steps of a script are performed. -/
theorem Due.performed_script {policy : Policy} {past : List Attempt} {t : Task}
    (h : Due policy past t) {script : List Attempt} (hspent : ¬ Spent policy past script) :
    t.performed (script.flatMap Attempt.steps) = script.flatMap Attempt.steps := by
  induction script generalizing past t with
  | nil => rfl
  | cons a script ih =>
    have hlater := mt spent_cons.mpr hspent
    obtain ⟨hdue, -⟩ := h.attemptOnce_of_not_spends fun hnow => hlater (.inl hnow)
    have hnext := ih hdue fun hthen => hlater (.inr hthen)
    rw [List.flatMap_cons, performed_append, performed_attempt h.phase]
    exact congrArg (a.steps ++ ·) hnext

end Task

namespace Attempt

/-- The texts that arrive in an attempt. -/
def texts : Attempt → List String
  | .failed => []
  | .succeeded frames => frames.filterMap fun frame => Step.text? (.receive frame)

theorem texts_steps (a : Attempt) : a.steps.filterMap Step.text? = a.texts := by
  cases a with
  | failed => rfl
  | succeeded frames =>
    rw [steps, List.filterMap_append, List.filterMap_append, List.filterMap_map]
    show [] ++ frames.filterMap (fun frame => Step.text? (.receive frame)) ++ [] = _
    rw [List.nil_append, List.append_nil, texts]

theorem texts_script (script : List Attempt) :
    (script.flatMap steps).filterMap Step.text? = script.flatMap texts := by
  rw [List.filterMap_flatMap]
  exact congrArg (fun f => script.flatMap f) (funext texts_steps)

/-- The last that an attempt says of the connection is that there is none. -/
theorem lifecycle_steps (a : Attempt) :
    lastWrite? Action.lifecycle? (a.steps.filterMap Action.ofStep?) = some false := by
  have hend : ∃ before, a.steps = before ++ [.withdraw, .decide] := by
    cases a with
    | failed => exact ⟨[.start, .fail], rfl⟩
    | succeeded frames =>
      exact ⟨[.start, .establish, .clearQueue, .announce] ++ frames.map .receive ++ [.lose],
        by simp [steps]⟩
  obtain ⟨before, hbefore⟩ := hend
  rw [hbefore, List.filterMap_append, lastWrite?_append]
  rfl

theorem lifecycle_script (script : List Attempt) :
    lastWrite? Action.lifecycle? ((script.flatMap steps).filterMap Action.ofStep?) ≠ some true := by
  rcases List.eq_nil_or_concat script with rfl | ⟨earlier, a, rfl⟩
  · exact nofun
  · rw [List.concat_eq_append, List.flatMap_append, List.flatMap_singleton, List.filterMap_append,
      lastWrite?_append, lifecycle_steps]
    exact nofun

/-- A connection is announced before it is withdrawn. -/
theorem withdraw_not_mem {a : Attempt} {before since : List Step}
    (h : a.steps = before ++ .announce :: since) : .withdraw ∉ before := by
  have horder : a.steps.Pairwise fun s t => s = .withdraw → t ≠ .announce := by
    cases a with
    | failed => simp [steps]
    | succeeded frames =>
      simp [steps, List.pairwise_append, List.pairwise_map, List.pairwise_of_forall]
  rw [h, List.pairwise_append] at horder
  intro hmem
  exact horder.2.2 _ hmem _ List.mem_cons_self rfl rfl

/-- As far as an attempt has come, its connection stands if it was announced and not withdrawn. -/
theorem lifecycle_prefix {a : Attempt} {p : List Step} (hp : p <+: a.steps) :
    lastWrite? Action.lifecycle? (p.filterMap Action.ofStep?) = some true ↔
      .announce ∈ p ∧ .withdraw ∉ p := by
  obtain ⟨q, hq⟩ := hp
  rw [Action.lifecycle?_iff]
  constructor
  · rintro ⟨before, since, rfl, hsince⟩
    rw [List.append_assoc] at hq
    have hbefore := withdraw_not_mem hq.symm
    exact ⟨by simp, by simp [hbefore, hsince]⟩
  · intro h
    obtain ⟨before, since, hsplit⟩ := List.append_of_mem h.1
    refine ⟨before, since, hsplit, fun hmem => h.2 ?_⟩
    rw [hsplit]
    exact List.mem_append_right _ (List.mem_cons_of_mem _ hmem)

end Attempt

namespace Task

variable {policy : Policy} {l : List Step}

/-- The actions of the events are those of the steps that were performed. -/
theorem state_iff (policy : Policy) (l : List Step) :
    (Task.steps { policy } l).state = .connected ↔
      lastWrite? Action.lifecycle? ((Task.performed { policy } l).filterMap Action.ofStep?) =
        some true := by
  rw [(shown_steps policy l).flag, reports_actions]
  rfl

/-- What is read in a script whose budget is not spent, as far as its next attempt has come. -/
theorem texts_of_script {script : List Attempt} {a : Attempt} {p : List Step}
    (hl : l.filter (fun s => !s.concernsPayload) = script.flatMap Attempt.steps ++ p)
    (hp : p <+: a.steps) (hspent : ¬ Spent policy [] script) :
    Task.texts { policy } l = script.flatMap Attempt.texts ++ p.filterMap Step.text? ∧
      ((Task.steps { policy } l).state = .connected ↔ .announce ∈ p ∧ .withdraw ∉ p) := by
  have hdue := ((due_blank policy).runScript script).2.2 hspent
  have hperformed : Task.performed { policy } (script.flatMap Attempt.steps ++ p) =
      script.flatMap Attempt.steps ++ p := by
    have hnext : (Task.steps { policy } (script.flatMap Attempt.steps)).phase = .due := by
      rw [steps_flatMap]
      exact hdue.phase
    rw [performed_append, (due_blank policy).performed_script hspent,
      performed_of_prefix (performed_attempt hnext a) hp]
  constructor
  · rw [texts, filterMap_performed policy l (fun _ => Step.text?_of_payload), hl, hperformed,
      List.filterMap_append, Attempt.texts_script]
  · rw [state_iff, filterMap_performed policy l (fun _ => Step.ofStep?_of_payload), hl,
      hperformed, List.filterMap_append, lastWrite?_append, ← Attempt.lifecycle_prefix hp]
    have hscript := Attempt.lifecycle_script script
    cases lastWrite? Action.lifecycle? (p.filterMap Action.ofStep?) with
    | some up => exact Iff.rfl
    | none => exact iff_of_false hscript nofun

/-- After the attempt that spends the budget nothing is read, and the task has failed. -/
theorem texts_of_spent {past : List Attempt} {a : Attempt} {more : List Step}
    (hl : l.filter (fun s => !s.concernsPayload) =
      (past ++ [a]).flatMap Attempt.steps ++ more)
    (hspends : Spends policy past a) (hpast : ¬ Spent policy [] past) :
    Task.texts { policy } l = (past ++ [a]).flatMap Attempt.texts ∧
      ∃ reason, (Task.steps { policy } l).state = .failed reason := by
  have hgave := ((due_blank policy).runScript (past ++ [a])).2.1 ⟨past, a, [], rfl, hspends⟩
  have hpayload : ∀ s ∈ more, s.concernsPayload = false := by
    intro s hs
    have hmem : s ∈ l.filter fun s => !s.concernsPayload := by
      rw [hl]
      exact List.mem_append_right _ hs
    simpa using (List.mem_filter.mp hmem).2
  have hmore := performed_of_finished hgave.phase hpayload
  have hscript : (Task.steps { policy } ((past ++ [a]).flatMap Attempt.steps)) =
      Task.runScript { policy } (past ++ [a]) := steps_flatMap _ _
  constructor
  · have hdue : (Task.steps { policy } (past.flatMap Attempt.steps)).phase = .due := by
      rw [steps_flatMap]
      exact (((due_blank policy).runScript past).2.2 hpast).phase
    have hperformed : Task.performed { policy } ((past ++ [a]).flatMap Attempt.steps) =
        (past ++ [a]).flatMap Attempt.steps := by
      rw [List.flatMap_append, List.flatMap_singleton, performed_append,
        (due_blank policy).performed_script hpast, performed_attempt hdue]
    rw [texts, filterMap_performed policy l (fun _ => Step.text?_of_payload), hl, performed_append,
      hperformed, hscript, hmore.1, List.append_nil, Attempt.texts_script]
  · have hbare : (Task.steps { policy } l).bare =
        (Task.runScript { policy } (past ++ [a])).bare := by
      rw [bare_steps rfl l, hl, steps_append, hscript, hmore.2]
    exact ⟨_, (congrArg Task.state hbare).trans hgave.state⟩

end Task

end Socket

end StreamBoard

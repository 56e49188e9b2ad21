import StreamBoard.Socket.Connection
import StreamBoard.Proofs.Ledger

/-!
# Trace — what the task reports of its attempts

`trace` gives the events of a script from the script alone: each attempt has its own events, and
after each but the last one an attempt is announced with its number and delay.  `streak` finds the
number by looking back to the last success.  The counter of the task is 32 bits wide and stops at
its greatest value; so does the number that is announced, and nothing else.
-/

namespace StreamBoard.Socket

/-! ## 1. What a script says -/

namespace Attempt

def isFailed : Attempt → Bool
  | .failed => true
  | .succeeded _ => false

/-- What is reported of an attempt, before the next one is announced or the task ends. -/
def reported : Attempt → List Event
  | .failed => [.disconnected]
  | .succeeded frames => .connected :: frames.filterMap Frame.event? ++ [.disconnected]

end Attempt

/-- The attempts since the last one that succeeded, which counts, or since the start. -/
def streak (past : List Attempt) : Nat :=
  (past.reverse.takeWhile Attempt.isFailed).length + if past.all Attempt.isFailed then 0 else 1

/-- The attempt fails, and it was the last of all reconnect attempts in a row. -/
def Spends (policy : Policy) (past : List Attempt) (a : Attempt) : Prop :=
  0 < policy.maxAttempts.toNat ∧ a = .failed ∧ streak past = policy.maxAttempts.toNat

instance (policy : Policy) (past : List Attempt) (a : Attempt) : Decidable (Spends policy past a) :=
  inferInstanceAs (Decidable (_ ∧ _ ∧ _))

/-- All events of a script, after such a past. -/
def trace (policy : Policy) (past : List Attempt) : List Attempt → List Event
  | [] => []
  | a :: script =>
    a.reported ++
      if Spends policy past a then []
      else
        .reconnecting (streak (past ++ [a])) (policy.delay (streak (past ++ [a]) - 1)) ::
          trace policy (past ++ [a]) script

def Event.announced (n : Nat) : Event → Nat
  | .connected => 0
  | .reconnecting _ _ => n + 1
  | _ => n

/-- The announcements since the last connection, or since the start. -/
def announced (events : List Event) : Nat := events.foldl Event.announced 0

/-- The event with the number as the counter holds it. -/
def Event.saturated : Event → Event
  | .reconnecting attempt delay => .reconnecting (min attempt 4294967295) delay
  | e => e

theorem streak_concat (past : List Attempt) (a : Attempt) :
    streak (past ++ [a]) = (if a.isFailed then streak past else 0) + 1 := by
  cases a with
  | failed =>
    have hlast : [Attempt.failed].all Attempt.isFailed = true := rfl
    rw [streak, List.reverse_append, List.all_append, hlast, Bool.and_true]
    show (List.takeWhile _ (.failed :: past.reverse)).length + _ = streak past + 1
    rw [List.takeWhile_cons_of_pos rfl, List.length_cons, streak]
    omega
  | succeeded frames => simp [streak, Attempt.isFailed]

theorem announced_concat (events : List Event) (e : Event) :
    announced (events ++ [e]) = e.announced (announced events) := by
  rw [announced, announced, List.foldl_append]
  rfl

theorem frames_announced (frames : List Frame) (n : Nat) :
    (frames.filterMap Frame.event?).foldl Event.announced n = n := by
  induction frames with
  | nil => rfl
  | cons frame frames ih =>
    cases frame with
    | text s => exact ih
    | binary _ | ping _ | pong _ => exact ih

theorem announced_append_reported (events : List Event) (a : Attempt) :
    announced (events ++ a.reported) = if a.isFailed then announced events else 0 := by
  cases a with
  | failed => exact announced_concat events .disconnected
  | succeeded frames =>
    rw [Attempt.reported, ← List.append_assoc, announced_concat, announced, List.foldl_append,
      List.foldl_cons, frames_announced]
    rfl

/-! ## 2. Numbers and delays -/

/-- Every announcement has the number that follows on those since the last connection, and the delay
after as many failures as there were announcements. -/
def Numbered (policy : Policy) (events : List Event) : Prop :=
  ∀ before n d rest, events = before ++ .reconnecting n d :: rest →
    n = announced before + 1 ∧ d = policy.delay (announced before)

theorem Numbered.concat {policy : Policy} {events : List Event} (h : Numbered policy events)
    {e : Event} (he : ∀ n d, e = .reconnecting n d →
      n = announced events + 1 ∧ d = policy.delay (announced events)) :
    Numbered policy (events ++ [e]) := by
  intro before n d rest hsplit
  rcases concat_split.mp hsplit with ⟨rfl, rfl, -⟩ | ⟨rest', -, rfl⟩
  · exact he n d rfl
  · exact h before n d rest' rfl

theorem Numbered.append_reported {policy : Policy} {events : List Event}
    (h : Numbered policy events) (a : Attempt) : Numbered policy (events ++ a.reported) := by
  cases a with
  | failed => exact h.concat (by simp)
  | succeeded frames =>
    -- Messages between the connection and the loss announce nothing.
    have hframes {events : List Event} (h : Numbered policy events) :
        Numbered policy (events ++ frames.filterMap Frame.event?) := by
      induction frames generalizing events with
      | nil => simpa using h
      | cons frame frames ih =>
        cases frame with
        | text s =>
          have hsplit : events ++ (Frame.text s :: frames).filterMap Frame.event? =
              events ++ [.message s] ++ frames.filterMap Frame.event? := by
            simp [Frame.event?]
          rw [hsplit]
          exact ih (h.concat (by simp))
        | binary _ | ping _ | pong _ => exact ih h
    have hsplit : events ++ (Attempt.succeeded frames).reported =
        events ++ [.connected] ++ frames.filterMap Frame.event? ++ [.disconnected] := by
      simp [Attempt.reported]
    rw [hsplit]
    exact (hframes (h.concat (by simp))).concat (by simp)

theorem Numbered.announce {policy : Policy} {events : List Event} (h : Numbered policy events)
    {past : List Attempt} (hpast : announced events = streak past) (a : Attempt) :
    let e := Event.reconnecting (streak (past ++ [a])) (policy.delay (streak (past ++ [a]) - 1))
    Numbered policy (events ++ a.reported ++ [e]) ∧
      announced (events ++ a.reported ++ [e]) = streak (past ++ [a]) := by
  intro e
  have hnumber : streak (past ++ [a]) = announced (events ++ a.reported) + 1 := by
    rw [streak_concat, announced_append_reported, hpast]
  refine ⟨(h.append_reported a).concat fun n d he => ?_, ?_⟩
  · obtain ⟨rfl, rfl⟩ := Event.reconnecting.inj he
    rw [hnumber, Nat.add_sub_cancel]
    exact ⟨rfl, rfl⟩
  · rw [announced_concat, hnumber]
    rfl

/-- Some attempt of the script spends the budget. -/
def Spent (policy : Policy) (past script : List Attempt) : Prop :=
  ∃ before a rest, script = before ++ a :: rest ∧ Spends policy (past ++ before) a

theorem spent_cons {policy : Policy} {past script : List Attempt} {a : Attempt} :
    Spent policy past (a :: script) ↔ Spends policy past a ∨ Spent policy (past ++ [a]) script := by
  constructor
  · rintro ⟨before, a', rest, hsplit, hspends⟩
    cases before with
    | nil =>
      obtain ⟨rfl, rfl⟩ := List.cons.inj hsplit
      exact .inl (by simpa using hspends)
    | cons b before =>
      obtain ⟨rfl, rfl⟩ := List.cons.inj hsplit
      exact .inr ⟨before, a', rest, rfl, by simpa using hspends⟩
  · rintro (hspends | ⟨before, a', rest, rfl, hspends⟩)
    · exact ⟨[], a, script, rfl, by simpa using hspends⟩
    · exact ⟨a :: before, a', rest, rfl, by simpa using hspends⟩

/-- Steps that take or deliver a payload. -/
def Step.concernsPayload : Step → Bool
  | .send _ | .deliver => true
  | _ => false

namespace Task

def reports (t : Task) : List Event := t.events.map Prod.fst

/-- The task without its payloads. -/
def bare (t : Task) : Task := { t with queue := [], received := [] }

theorem bare_step_of_payload (t : Task) {s : Step} (h : s.concernsPayload = true) :
    ((t.step? s).getD t).bare = t.bare := by
  cases s with
  | send payload =>
    simp only [step?, send, Option.getD_some]
    split <;> rfl
  | deliver =>
    simp only [step?, deliverFirst]
    split
    next => split <;> rfl
    next => rfl
  | _ => cases h

theorem bare_decideNext (t : Task) : t.bare.decideNext.bare = t.decideNext.bare := by
  have hexhausted : t.bare.policy.exhausted t.bare.attempt = t.policy.exhausted t.attempt := rfl
  simp only [decideNext, hexhausted]
  split <;> rfl

theorem bare_guarded {t u v : Task} {phase : Phase} (h : u.bare = v.bare) :
    ((if t.bare.phase = phase then some u else none).getD t.bare).bare =
      ((if t.phase = phase then some v else none).getD t).bare := by
  by_cases hphase : t.phase = phase
  · have hbare : t.bare.phase = phase := hphase
    rw [if_pos hphase, if_pos hbare]
    exact h
  · have hbare : ¬ t.bare.phase = phase := hphase
    rw [if_neg hphase, if_neg hbare]
    rfl

theorem bare_step (t : Task) {s : Step} (h : s.concernsPayload = false) :
    ((t.bare.step? s).getD t.bare).bare = ((t.step? s).getD t).bare := by
  cases s with
  | send _ | deliver => cases h
  | receive frame => exact bare_guarded (by cases frame <;> rfl)
  | decide => exact bare_guarded t.bare_decideNext
  | _ => exact bare_guarded rfl

/-- What the task does but for payloads, it does without them. -/
theorem bare_steps {t u : Task} (h : t.bare = u.bare) (l : List Step) :
    (t.steps l).bare = (u.steps (l.filter fun s => !s.concernsPayload)).bare := by
  induction l generalizing t u with
  | nil => exact h
  | cons s l ih =>
    cases hs : s.concernsPayload with
    | true =>
      rw [List.filter_cons_of_neg (by simp [hs])]
      exact ih ((t.bare_step_of_payload hs).trans h)
    | false =>
      rw [List.filter_cons_of_pos (by simp [hs])]
      exact ih (by rw [← t.bare_step hs, ← u.bare_step hs, h])

/-! ## 4. One attempt -/

theorem steps_append (t : Task) (l m : List Step) : t.steps (l ++ m) = (t.steps l).steps m :=
  List.foldl_append

theorem steps_receive {t : Task} (h : t.phase = .relaying) (frames : List Frame) :
    t.steps (frames.map .receive) =
      { t with
        events := t.events ++ (frames.filterMap Frame.event?).map fun e => (e, t.state) } := by
  induction frames generalizing t with
  | nil => simp [steps]
  | cons frame frames ih =>
    have hstep : t.steps ((frame :: frames).map .receive) =
        (t.reportFrame frame).steps (frames.map .receive) := by
      simp [steps, step?, h]
    rw [hstep]
    cases frame with
    | text s =>
      rw [ih (t := t.reportFrame (.text s)) h]
      simp [reportFrame, report, Frame.event?]
    | binary _ | ping _ | pong _ => exact ih h

theorem attemptOnce_of_finished {t : Task} (h : t.phase = .finished) (a : Attempt) :
    t.attemptOnce a = t := by
  have hstep : ∀ s ∈ a.steps, (t.step? s).getD t = t := by
    intro s hs
    cases s with
    | send _ => cases a <;> simp [Attempt.steps] at hs
    | _ => simp [step?, h]
  -- The steps of an attempt send nothing, and a finished task takes no other step.
  refine foldl_keeps (fun u => u = t) (fun u s hs hu => ?_) rfl
  rw [hu, hstep s hs]

/-- The task that a connection was announced to. -/
def connect (t : Task) : Task :=
  let fresh :=
    { t.publish t.attemptState with attempt := 0, received := [] :: t.received, queue := [] }
  { (fresh.publish .connected).report .connected with phase := .relaying }

/-- The task that a loss was announced to, or a failed attempt. -/
def disconnect (t : Task) : Task :=
  { (t.publish .disconnected).report .disconnected with phase := .down }

theorem steps_connect {t : Task} (h : t.phase = .due) :
    t.steps [.start, .establish, .clearQueue, .announce] = t.connect := by
  simp [steps, step?, h, connect, publish, report]

theorem steps_fail {t : Task} (h : t.phase = .due) :
    t.steps [.start, .fail, .withdraw, .decide] =
      (t.publish t.attemptState).disconnect.decideNext := by
  simp [steps, step?, h, disconnect, publish, report]

theorem steps_lose {t : Task} (h : t.phase = .relaying) :
    t.steps [.lose, .withdraw, .decide] = t.disconnect.decideNext := by
  simp [steps, step?, h, disconnect, publish, report]

theorem reports_report (t : Task) (e : Event) : (t.report e).reports = t.reports ++ [e] := by
  simp [reports, report]

theorem reports_disconnect (t : Task) : t.disconnect.reports = t.reports ++ [.disconnected] :=
  (t.publish .disconnected).reports_report .disconnected

theorem reports_receive {t : Task} (h : t.phase = .relaying) (frames : List Frame) :
    (t.steps (frames.map .receive)).reports = t.reports ++ frames.filterMap Frame.event? := by
  rw [steps_receive h]
  simp [reports, Function.comp_def]

/-- An attempt ends in the decision of a task that reported the attempt. -/
theorem attemptOnce_of_due {t : Task} (h : t.phase = .due) (a : Attempt) :
    ∃ u : Task, t.attemptOnce a = u.decideNext ∧ u.policy = t.policy ∧
      u.attempt = (if a.isFailed then t.attempt else 0) ∧ u.reports = t.reports ++ a.reported := by
  cases a with
  | failed =>
    exact ⟨_, steps_fail h, rfl, rfl, reports_disconnect (t.publish t.attemptState)⟩
  | succeeded frames =>
    have hrelay : t.connect.phase = .relaying := rfl
    have hframes := steps_receive hrelay frames
    refine ⟨(t.connect.steps (frames.map .receive)).disconnect, ?_, ?_, ?_, ?_⟩
    · rw [attemptOnce, Attempt.steps, steps_append, steps_append, steps_connect h, hframes]
      exact steps_lose hrelay
    · rw [hframes]
      rfl
    · rw [hframes]
      rfl
    · have hconnect : t.connect.reports = t.reports ++ [.connected] :=
        reports_report _ .connected
      rw [reports_disconnect, reports_receive hrelay, hconnect, Attempt.reported]
      simp

/-! ## 5. Runs -/

/-- The task is about to make the attempt that follows on this past. -/
structure Due (policy : Policy) (past : List Attempt) (t : Task) : Prop where
  policy_eq : t.policy = policy
  phase : t.phase = .due
  attempt : t.attempt = min (streak past) 4294967295
  /-- A limit was not passed. -/
  within : 0 < policy.maxAttempts.toNat → streak past ≤ policy.maxAttempts.toNat

/-- The task spent its budget and published that. -/
structure GaveUp (policy : Policy) (t : Task) : Prop where
  phase : t.phase = .finished
  state : t.state = .failed ("gave up after " ++ toString policy.maxAttempts.toNat ++
    " reconnect attempts")
  published : t.published.getLast? = some t.state

theorem due_blank (policy : Policy) : Due policy [] { policy } :=
  ⟨rfl, rfl, rfl, fun _ => Nat.zero_le _⟩

end Task

theorem Policy.delay_min (p : Policy) (failures : Nat) :
    p.delay (min failures 4294967295) = p.delay failures := by
  -- The exponent stops before the counter does.
  have hexponent : min (min failures 4294967295) 2147483647 = min failures 2147483647 := by
    omega
  simp only [Policy.delay, hexponent]

theorem Policy.exhausted_min (p : Policy) (failures : Nat) :
    p.exhausted (min failures 4294967295) = true ↔
      0 < p.maxAttempts.toNat ∧ p.maxAttempts.toNat ≤ failures := by
  have hmax : p.maxAttempts.toNat < 4294967296 := p.maxAttempts.toNat_lt
  simp only [Policy.exhausted, Bool.and_eq_true, decide_eq_true_eq]
  omega

namespace Task

/-- A task that is not at its limit announces one attempt more. -/
theorem decideNext_of_lt {policy : Policy} {past : List Attempt} {a : Attempt} {u : Task}
    (hpolicy : u.policy = policy) {n : Nat} (hattempt : u.attempt = min n 4294967295)
    (hstreak : streak (past ++ [a]) = n + 1)
    (hlimit : 0 < policy.maxAttempts.toNat → n < policy.maxAttempts.toNat) :
    Due policy (past ++ [a]) u.decideNext ∧ u.decideNext.reports =
      u.reports ++ [(Event.reconnecting (n + 1) (policy.delay n)).saturated] := by
  have hexhausted : ¬ u.policy.exhausted u.attempt = true := by
    rw [hpolicy, hattempt, Policy.exhausted_min]
    omega
  have hnext : min (u.attempt + 1) 4294967295 = min (n + 1) 4294967295 := by
    omega
  rw [decideNext, if_neg hexhausted]
  refine ⟨⟨hpolicy, rfl, ?_, fun h => ?_⟩, ?_⟩
  · rw [hstreak]
    exact hnext
  · rw [hstreak]
    exact hlimit h
  · rw [hnext, hattempt, hpolicy, Policy.delay_min]
    exact reports_report u _

theorem decideNext_of_eq {policy : Policy} {u : Task} (hpolicy : u.policy = policy)
    (hattempt : u.attempt = policy.maxAttempts.toNat) (hlimit : 0 < policy.maxAttempts.toNat) :
    GaveUp policy u.decideNext ∧ u.decideNext.reports = u.reports := by
  have hexhausted : u.policy.exhausted u.attempt = true := by
    rw [hpolicy, hattempt]
    simpa [Policy.exhausted] using hlimit
  rw [decideNext, if_pos hexhausted, hattempt]
  exact ⟨⟨rfl, rfl, by simp [publish]⟩, rfl⟩

theorem Due.attemptOnce_of_spends {policy : Policy} {past : List Attempt} {t : Task}
    (h : Due policy past t) {a : Attempt} (hspends : Spends policy past a) :
    GaveUp policy (t.attemptOnce a) ∧ (t.attemptOnce a).reports = t.reports ++ a.reported := by
  obtain ⟨hlimit, rfl, hstreak⟩ := hspends
  obtain ⟨u, hu, hpolicy, hattempt, hreports⟩ := attemptOnce_of_due h.phase .failed
  have hmax : policy.maxAttempts.toNat < 4294967296 := policy.maxAttempts.toNat_lt
  -- The limit is a word of 32 bits, so the counter has not stopped short of it.
  have hspent : u.attempt = policy.maxAttempts.toNat := by
    have hfailed : Attempt.failed.isFailed = true := rfl
    rw [hattempt, if_pos hfailed, h.attempt, hstreak]
    omega
  rw [hu, ← hreports]
  exact decideNext_of_eq (hpolicy.trans h.policy_eq) hspent hlimit

theorem Due.attemptOnce_of_not_spends {policy : Policy} {past : List Attempt} {t : Task}
    (h : Due policy past t) {a : Attempt} (hspends : ¬ Spends policy past a) :
    Due policy (past ++ [a]) (t.attemptOnce a) ∧ (t.attemptOnce a).reports =
      t.reports ++ a.reported ++ [(Event.reconnecting (streak (past ++ [a]))
        (policy.delay (streak (past ++ [a]) - 1))).saturated] := by
  obtain ⟨u, hu, hpolicy, hattempt, hreports⟩ := attemptOnce_of_due h.phase a
  have hstreak := streak_concat past a
  have hlimit : 0 < policy.maxAttempts.toNat →
      (if a.isFailed then streak past else 0) < policy.maxAttempts.toNat := by
    intro hpos
    cases a with
    -- A failure at the limit would spend the budget.
    | failed => exact Nat.lt_of_le_of_ne (h.within hpos) fun heq => hspends ⟨hpos, rfl, heq⟩
    | succeeded frames => exact hpos
  have hcount : u.attempt = min (if a.isFailed then streak past else 0) 4294967295 := by
    rw [hattempt, h.attempt]
    split <;> rfl
  rw [hu, hstreak, Nat.add_sub_cancel, ← hreports]
  exact decideNext_of_lt (hpolicy.trans h.policy_eq) hcount hstreak hlimit

theorem runScript_of_finished {t : Task} (h : t.phase = .finished) (script : List Attempt) :
    t.runScript script = t := by
  refine foldl_keeps (fun u => u = t) (fun u a _ hu => ?_) rfl
  rw [hu, attemptOnce_of_finished h]

theorem reported_saturated (a : Attempt) : a.reported.map Event.saturated = a.reported := by
  cases a with
  | failed => rfl
  | succeeded frames =>
    have hframes : (frames.filterMap Frame.event?).map Event.saturated =
        frames.filterMap Frame.event? := by
      rw [List.map_filterMap]
      refine congrArg (fun f => frames.filterMap f) (funext fun frame => ?_)
      cases frame <;> rfl
    simp [Attempt.reported, hframes, Event.saturated]

theorem Due.runScript {policy : Policy} {past : List Attempt} {t : Task} (h : Due policy past t)
    (script : List Attempt) :
    (t.runScript script).reports = t.reports ++ (trace policy past script).map Event.saturated ∧
      (Spent policy past script → GaveUp policy (t.runScript script)) ∧
      (¬ Spent policy past script → Due policy (past ++ script) (t.runScript script)) := by
  induction script generalizing past t with
  | nil =>
    refine ⟨by simp [Task.runScript, trace], ?_, fun _ => by simpa [Task.runScript] using h⟩
    rintro ⟨before, a, rest, hsplit, -⟩
    simp at hsplit
  | cons a script ih =>
    have hrun : t.runScript (a :: script) = (t.attemptOnce a).runScript script := rfl
    rw [hrun, trace, spent_cons, List.map_append, reported_saturated]
    by_cases hspends : Spends policy past a
    · -- What is left of the script finds a finished task; the trace leaves it out.
      obtain ⟨hgave, hreports⟩ := h.attemptOnce_of_spends hspends
      rw [runScript_of_finished hgave.phase, if_pos hspends, hreports]
      exact ⟨by simp, fun _ => hgave, fun hnot => absurd (.inl hspends) hnot⟩
    · obtain ⟨hdue, hreports⟩ := h.attemptOnce_of_not_spends hspends
      obtain ⟨htrace, hspent, hnotSpent⟩ := ih hdue
      rw [if_neg hspends, htrace, hreports]
      refine ⟨by simp, ?_, fun hnot => ?_⟩
      · rintro (hnow | hlater)
        · exact absurd hnow hspends
        · exact hspent hlater
      · simpa using hnotSpent fun hlater => hnot (.inr hlater)

theorem steps_flatMap (t : Task) (script : List Attempt) :
    t.steps (script.flatMap Attempt.steps) = t.runScript script := by
  rw [steps, List.foldl_flatMap]
  rfl

end Task

end StreamBoard.Socket

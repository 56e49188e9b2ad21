import StreamBoard.Proofs.Socket.Trace

/-!
# Payload — what a connection delivers

Payloads wait in one queue that outlives the connections.  A payload is accepted while a connection
is published, and it is delivered by that connection or by none: `accepted` finds the payloads of a
connection from the steps alone, and what the peer received on the connection is a prefix of them.
The queue is cleared after the handshake and before the connection is published, so it never holds
what an earlier connection left behind (`received_of_left`), and nothing that was accepted for the
present one is missing from it (`Carried.queued`).
-/

namespace StreamBoard.Socket

namespace Task

/-! ## 1. What was accepted, and what was received -/

/-- The task after a step; a step that cannot be taken changes nothing. -/
def step (t : Task) (s : Step) : Task := (t.step? s).getD t

/-- How many connections were published so far. -/
def connections (t : Task) : Nat := t.published.count .connected

/-- Connection `i` is published; connections are counted from zero. -/
def IsUp (t : Task) (i : Nat) : Prop := t.state = .connected ∧ t.connections = i + 1

instance (t : Task) (i : Nat) : Decidable (t.IsUp i) := inferInstanceAs (Decidable (_ ∧ _))

/-- The payload that a step sends while connection `i` is published. -/
def accepts (t : Task) (i : Nat) : Step → List String
  | .send payload => if t.IsUp i then [payload] else []
  | _ => []

/-- The payloads that are sent in some steps while connection `i` is published. -/
def accepted (t : Task) (i : Nat) : List Step → List String
  | [] => []
  | s :: l => t.accepts i s ++ (t.step s).accepted i l

/-- What the peer received on connection `i`. -/
def receivedOn (t : Task) (i : Nat) : List String := t.received.reverse[i]?.getD []

theorem steps_concat (t : Task) (l : List Step) (s : Step) :
    t.steps (l ++ [s]) = (t.steps l).step s :=
  t.steps_append l [s]

theorem accepted_append (t : Task) (i : Nat) (l m : List Step) :
    t.accepted i (l ++ m) = t.accepted i l ++ (t.steps l).accepted i m := by
  induction l generalizing t with
  | nil => rfl
  | cons s l ih =>
    rw [List.cons_append, accepted, ih, accepted, List.append_assoc]
    rfl

theorem accepted_concat (t : Task) (i : Nat) (l : List Step) (s : Step) :
    t.accepted i (l ++ [s]) = t.accepted i l ++ (t.steps l).accepts i s := by
  rw [accepted_append, accepted, accepted, List.append_nil]

theorem receivedOn_cons {t : Task} {current : List String} {earlier : List (List String)}
    (h : t.received = current :: earlier) (i : Nat) :
    t.receivedOn i = if i = earlier.length then current else earlier.reverse[i]?.getD [] := by
  have hreverse : t.received.reverse = earlier.reverse ++ [current] := by
    rw [h, List.reverse_cons]
  rw [receivedOn, hreverse]
  by_cases hi : i = earlier.length
  · rw [if_pos hi, hi]
    simp
  · rw [if_neg hi]
    by_cases hlt : i < earlier.length
    · rw [List.getElem?_append_left (by simpa using hlt)]
    · have hlong : (earlier.reverse ++ [current]).length ≤ i := by
        rw [List.length_append, List.length_reverse, List.length_singleton]
        omega
      have hshort : earlier.reverse.length ≤ i := by
        rw [List.length_reverse]
        omega
      rw [List.getElem?_eq_none hlong, List.getElem?_eq_none hshort]

/-! ## 2. Where payloads are -/

end Task

/-- The handshake is complete, and the connection is not published yet. -/
def Phase.isFresh : Phase → Bool
  | .established | .cleared => true
  | _ => false

namespace Task

theorem connections_publish_of_ne (t : Task) {state : State} (h : state ≠ .connected) :
    (t.publish state).connections = t.connections := by
  rw [connections, publish, List.count_append, List.count_singleton, if_neg (by simpa using h)]
  rfl

theorem connections_announce (t : Task) :
    (t.publish .connected).connections = t.connections + 1 := by
  rw [connections, publish, List.count_append, List.count_singleton_self]
  rfl

theorem attemptState_ne (t : Task) : t.attemptState ≠ .connected := by
  unfold attemptState
  split <;> exact nofun

/-- Where the payloads are that the steps `past` sent to a task of this policy. -/
structure Carried (policy : Policy) (past : List Step) (t : Task) : Prop where
  /-- A connection is published until its loss is. -/
  up : t.state = .connected → 0 < t.connections ∧ (t.phase = .relaying ∨ t.phase = .ended)
  relaying : t.phase = .relaying → t.state = .connected
  /-- The peer has a record of every connection, also of one that is not published yet. -/
  count : t.received.length = t.connections + if t.phase.isFresh then 1 else 0
  cleared : t.phase = .cleared → t.queue = []
  delivered : ∀ i, t.receivedOn i <+: Task.accepted { policy } i past
  /-- What is accepted is delivered or waits, in the order of the sends. -/
  queued : t.phase = .relaying → ∃ current earlier, t.received = current :: earlier ∧
    current ++ t.queue = Task.accepted { policy } earlier.length past
  later : ∀ i, t.connections ≤ i → Task.accepted { policy } i past = []

theorem carried_blank (policy : Policy) : Carried policy [] { policy } where
  up h := nomatch h
  relaying h := nomatch h
  count := rfl
  cleared h := nomatch h
  delivered _ := List.nil_prefix
  queued h := nomatch h
  later _ _ := rfl

section Steps

variable {policy : Policy} {past : List Step} {t u : Task} {s : Step}

/-- A step that is not accepted leaves what was accepted. -/
theorem accepted_concat_of_nil (h : ∀ i, (Task.steps { policy } past).accepts i s = []) (i : Nat) :
    Task.accepted { policy } i (past ++ [s]) = Task.accepted { policy } i past := by
  rw [accepted_concat, h i, List.append_nil]

/-- A step that moves no payload and publishes nothing. -/
theorem Carried.stay (h : Carried policy past t)
    (hs : ∀ i, (Task.steps { policy } past).accepts i s = [])
    (hphase : u.phase = t.phase) (hstate : u.state = t.state)
    (hconnections : u.connections = t.connections) (hreceived : u.received = t.received)
    (hqueue : u.queue = t.queue) : Carried policy (past ++ [s]) u where
  up := by
    rw [hstate, hphase, hconnections]
    exact h.up
  relaying := by
    rw [hstate, hphase]
    exact h.relaying
  count := by
    rw [hreceived, hconnections, hphase]
    exact h.count
  cleared := by
    rw [hphase, hqueue]
    exact h.cleared
  delivered i := by
    rw [accepted_concat_of_nil hs, receivedOn, hreceived]
    exact h.delivered i
  queued := by
    simp only [accepted_concat_of_nil hs, hphase, hreceived, hqueue]
    exact h.queued
  later i := by
    rw [accepted_concat_of_nil hs, hconnections]
    exact h.later i

/-- A step between connections: it publishes none, and what it does to the queue does not matter. -/
theorem Carried.between (h : Carried policy past t)
    (hs : ∀ i, (Task.steps { policy } past).accepts i s = [])
    (hreceived : u.received = t.received) (hconnections : u.connections = t.connections)
    (hold : t.phase.isFresh = false) (hfresh : u.phase.isFresh = false)
    (hrelaying : u.phase ≠ .relaying)
    (hup : u.state = .connected → t.state = .connected ∧ u.phase = .ended) :
    Carried policy (past ++ [s]) u where
  up hstate := by
    rw [hconnections]
    exact ⟨(h.up (hup hstate).1).1, .inr (hup hstate).2⟩
  relaying hphase := absurd hphase hrelaying
  count := by
    have hcount := h.count
    rw [hold] at hcount
    rw [hreceived, hconnections, hfresh, hcount]
  cleared hphase := by
    rw [hphase] at hfresh
    cases hfresh
  delivered i := by
    rw [accepted_concat_of_nil hs, receivedOn, hreceived]
    exact h.delivered i
  queued hphase := absurd hphase hrelaying
  later i hi := by
    rw [accepted_concat_of_nil hs]
    exact h.later i (hconnections ▸ hi)

theorem Carried.not_connected (h : Carried policy past t) (hrelaying : t.phase ≠ .relaying)
    (hended : t.phase ≠ .ended) : t.state ≠ .connected := by
  intro hstate
  cases (h.up hstate).2 with
  | inl hphase => exact hrelaying hphase
  | inr hphase => exact hended hphase

/-! ## 3. One step -/

theorem Carried.establish (h : Carried policy past t)
    (hs : ∀ i, (Task.steps { policy } past).accepts i s = []) (hphase : t.phase = .attempting) :
    Carried policy (past ++ [s])
      { t with phase := .established, attempt := 0, received := [] :: t.received } := by
  have hstate : t.state ≠ .connected := h.not_connected (by simp [hphase]) (by simp [hphase])
  have hcount := h.count
  rw [hphase] at hcount
  refine ⟨fun heq => absurd heq hstate, nofun, congrArg (· + 1) hcount, nofun, fun i => ?_, nofun,
    fun i hi => ?_⟩
  · rw [accepted_concat_of_nil hs, receivedOn_cons rfl]
    split
    · exact List.nil_prefix
    · exact h.delivered i
  · rw [accepted_concat_of_nil hs]
    exact h.later i hi

theorem Carried.clearQueue (h : Carried policy past t)
    (hs : ∀ i, (Task.steps { policy } past).accepts i s = []) (hphase : t.phase = .established) :
    Carried policy (past ++ [s]) { t with phase := .cleared, queue := [] } := by
  have hstate : t.state ≠ .connected := h.not_connected (by simp [hphase]) (by simp [hphase])
  have hcount := h.count
  rw [hphase] at hcount
  refine ⟨fun heq => absurd heq hstate, nofun, hcount, fun _ => rfl, fun i => ?_, nofun,
    fun i hi => ?_⟩
  · rw [accepted_concat_of_nil hs]
    exact h.delivered i
  · rw [accepted_concat_of_nil hs]
    exact h.later i hi

/-- When a connection is published, nothing was received on it and nothing waits. -/
theorem Carried.fresh (h : Carried policy past t) (hphase : t.phase = .cleared) :
    ∃ earlier, t.received = [] :: earlier ∧ earlier.length = t.connections ∧ t.queue = [] := by
  have hcount := h.count
  rw [hphase] at hcount
  cases hreceived : t.received with
  | nil =>
    rw [hreceived] at hcount
    cases hcount
  | cons current earlier =>
    have hlength : earlier.length = t.connections := by
      rw [hreceived] at hcount
      exact Nat.succ.inj hcount
    have hempty := h.delivered earlier.length
    rw [receivedOn_cons hreceived, if_pos rfl, h.later _ (Nat.le_of_eq hlength.symm),
      List.prefix_nil] at hempty
    exact ⟨earlier, by rw [hempty], hlength, h.cleared hphase⟩

theorem Carried.announce (h : Carried policy past t)
    (hs : ∀ i, (Task.steps { policy } past).accepts i s = []) (hphase : t.phase = .cleared) :
    Carried policy (past ++ [s])
      { (t.publish .connected).report .connected with phase := .relaying } := by
  obtain ⟨earlier, hreceived, hlength, hqueue⟩ := h.fresh hphase
  have hconnections : connections { (t.publish .connected).report .connected with
      phase := .relaying } = t.connections + 1 := t.connections_announce
  refine ⟨fun _ => ⟨?_, .inl rfl⟩, fun _ => rfl, ?_, nofun, fun i => ?_, fun _ => ?_,
    fun i hi => ?_⟩
  · omega
  · rw [hconnections, ← hlength]
    exact congrArg List.length hreceived
  · rw [accepted_concat_of_nil hs]
    exact h.delivered i
  · refine ⟨[], earlier, hreceived, ?_⟩
    rw [accepted_concat_of_nil hs, h.later _ (Nat.le_of_eq hlength.symm)]
    exact hqueue
  · rw [accepted_concat_of_nil hs]
    exact h.later i (by omega)

theorem Carried.deliver (h : Carried policy past t)
    (hs : ∀ i, (Task.steps { policy } past).accepts i s = []) (hphase : t.phase = .relaying) :
    Carried policy (past ++ [s]) t.deliverFirst := by
  obtain ⟨current, earlier, hreceived, hqueued⟩ := h.queued hphase
  cases hqueue : t.queue with
  | nil =>
    have hsame : t.deliverFirst = t := by
      rw [deliverFirst, hqueue]
    rw [hsame]
    exact h.stay hs rfl rfl rfl rfl rfl
  | cons payload queue =>
    have hnext : t.deliverFirst =
        { t with queue, received := (current ++ [payload]) :: earlier } := by
      rw [deliverFirst, hqueue, hreceived]
    have hmoved : (current ++ [payload]) ++ queue =
        Task.accepted { policy } earlier.length past := by
      rw [← hqueued, hqueue]
      simp
    have hcount := h.count
    rw [hreceived] at hcount
    rw [hnext]
    refine ⟨h.up, h.relaying, hcount, fun hcleared => ?_, fun i => ?_, fun _ => ?_, fun i hi => ?_⟩
    · change t.phase = .cleared at hcleared
      rw [hphase] at hcleared
      cases hcleared
    · -- Only the record of the present connection grew, and by what was next in turn.
      rw [accepted_concat_of_nil hs, receivedOn_cons rfl]
      split
      next hi =>
        rw [hi, ← hmoved]
        exact List.prefix_append _ _
      next hi =>
        have hold := h.delivered i
        rwa [receivedOn_cons hreceived, if_neg hi] at hold
    · exact ⟨_, earlier, rfl, by rw [accepted_concat_of_nil hs, hmoved]⟩
    · rw [accepted_concat_of_nil hs]
      exact h.later i hi

theorem Carried.send (h : Carried policy past (Task.steps { policy } past)) (payload : String) :
    Carried policy (past ++ [.send payload]) ((Task.steps { policy } past).send payload) := by
  have haccepted (i : Nat) : Task.accepted { policy } i (past ++ [.send payload]) =
      Task.accepted { policy } i past ++
        if (Task.steps { policy } past).IsUp i then [payload] else [] :=
    accepted_concat _ i past _
  generalize Task.steps { policy } past = t at h haccepted ⊢
  unfold Task.send
  split
  next hup =>
    have hstate : t.state = .connected := by
      cases hs : t.state with
      | connected => rfl
      | _ => rw [hs] at hup; cases hup
    have hnumber : ∀ i, t.IsUp i ↔ t.connections = i + 1 := fun i => and_iff_right hstate
    refine ⟨h.up, h.relaying, h.count, fun hphase => ?_, fun i => ?_, fun hphase => ?_,
      fun i hi => ?_⟩
    · change t.phase = .cleared at hphase
      exact absurd hstate (h.not_connected (by simp [hphase]) (by simp [hphase]))
    · rw [haccepted]
      exact (h.delivered i).trans (List.prefix_append _ _)
    · obtain ⟨current, earlier, hreceived, hqueued⟩ := h.queued hphase
      have hcount := h.count
      rw [hreceived, hphase] at hcount
      have hpresent : t.IsUp earlier.length := (hnumber _).mpr hcount.symm
      refine ⟨current, earlier, hreceived, ?_⟩
      rw [haccepted, if_pos hpresent, ← hqueued]
      simp
    · have hpast : ¬ t.IsUp i := by
        rw [hnumber]
        change t.connections ≤ i at hi
        omega
      rw [haccepted, if_neg hpast, List.append_nil]
      exact h.later i hi
  next hdown =>
    have hnone : ∀ i, ¬ t.IsUp i := by
      intro i hi
      rw [hi.1] at hdown
      exact hdown rfl
    refine ⟨h.up, h.relaying, h.count, h.cleared, fun i => ?_, fun hphase => ?_, fun i hi => ?_⟩
    · rw [haccepted, if_neg (hnone i), List.append_nil]
      exact h.delivered i
    · simp only [haccepted, if_neg (hnone _), List.append_nil]
      exact h.queued hphase
    · rw [haccepted, if_neg (hnone i), List.append_nil]
      exact h.later i hi

end Steps

/-! ## 4. All steps -/

/-- A step of the task is taken in one phase only. -/
theorem taken {t u v : Task} {phase : Phase}
    (h : (if t.phase = phase then some v else none) = some u) : t.phase = phase ∧ v = u := by
  by_cases hphase : t.phase = phase
  · rw [if_pos hphase] at h
    exact ⟨hphase, Option.some.inj h⟩
  · rw [if_neg hphase] at h
    cases h

/-- A step that the task takes for itself. -/
theorem Carried.move {policy : Policy} {past : List Step} {t u : Task} (h : Carried policy past t)
    {s : Step} (hs : ∀ payload, s ≠ .send payload) (hstep : t.step? s = some u) :
    Carried policy (past ++ [s]) u := by
  cases s with
  | send payload => exact absurd rfl (hs payload)
  | start =>
    obtain ⟨hphase, rfl⟩ := taken hstep
    exact h.between (fun _ => rfl) rfl (t.connections_publish_of_ne t.attemptState_ne)
      (by rw [hphase]; rfl) rfl nofun (fun heq => absurd heq t.attemptState_ne)
  | fail =>
    obtain ⟨hphase, rfl⟩ := taken hstep
    exact h.between (fun _ => rfl) rfl rfl (by rw [hphase]; rfl) rfl nofun (fun heq => ⟨heq, rfl⟩)
  | establish =>
    obtain ⟨hphase, rfl⟩ := taken hstep
    exact h.establish (fun _ => rfl) hphase
  | clearQueue =>
    obtain ⟨hphase, rfl⟩ := taken hstep
    exact h.clearQueue (fun _ => rfl) hphase
  | announce =>
    obtain ⟨hphase, rfl⟩ := taken hstep
    exact h.announce (fun _ => rfl) hphase
  | receive frame =>
    obtain ⟨-, rfl⟩ := taken hstep
    cases frame with
    | _ => exact h.stay (fun _ => rfl) rfl rfl rfl rfl rfl
  | deliver =>
    obtain ⟨hphase, rfl⟩ := taken hstep
    exact h.deliver (fun _ => rfl) hphase
  | lose =>
    obtain ⟨hphase, rfl⟩ := taken hstep
    exact h.between (fun _ => rfl) rfl rfl (by rw [hphase]; rfl) rfl nofun (fun heq => ⟨heq, rfl⟩)
  | withdraw =>
    obtain ⟨hphase, rfl⟩ := taken hstep
    exact h.between (fun _ => rfl) rfl (t.connections_publish_of_ne nofun)
      (by rw [hphase]; rfl) rfl nofun nofun
  | decide =>
    obtain ⟨hphase, rfl⟩ := taken hstep
    have hdown : t.state ≠ .connected := h.not_connected (by simp [hphase]) (by simp [hphase])
    have hold : t.phase.isFresh = false := by rw [hphase]; rfl
    unfold decideNext
    split
    · exact h.between (fun _ => rfl) rfl (t.connections_publish_of_ne nofun) hold rfl nofun nofun
    · exact h.between (fun _ => rfl) rfl rfl hold rfl nofun (fun heq => absurd heq hdown)

theorem Carried.step {policy : Policy} {past : List Step}
    (h : Carried policy past (Task.steps { policy } past)) (s : Step) :
    Carried policy (past ++ [s]) (Task.steps { policy } (past ++ [s])) := by
  rw [steps_concat, Task.step]
  cases hstep : (Task.steps { policy } past).step? s with
  | none =>
    -- Only steps of the task can be out of turn.
    have hs : ∀ i, (Task.steps { policy } past).accepts i s = [] := by
      intro i
      cases s with
      | send payload => cases hstep
      | _ => rfl
    exact h.stay hs rfl rfl rfl rfl rfl
  | some u =>
    cases s with
    | send payload =>
      cases hstep
      exact h.send payload
    | _ => exact h.move nofun hstep

/-- **What is accepted for a connection is delivered by it or by none.** -/
theorem carried_steps (policy : Policy) (l : List Step) :
    Carried policy l (Task.steps { policy } l) := by
  have hrun : ∀ past l, Carried policy past (Task.steps { policy } past) →
      Carried policy (past ++ l) (Task.steps { policy } (past ++ l)) := by
    intro past l
    induction l generalizing past with
    | nil =>
      intro h
      rwa [List.append_nil]
    | cons s l ih =>
      -- Each step moves from what is to come to the past.
      intro h
      have hsplit : past ++ s :: l = past ++ [s] ++ l := by simp
      rw [hsplit]
      exact ih (past ++ [s]) (h.step s)
  exact hrun [] l (carried_blank policy)

/-! ## 5. What is left behind -/

end Task

/-- Whatever is in the queue now is cleared before anything is delivered. -/
def Phase.isIdle : Phase → Bool
  | .cleared | .relaying => false
  | _ => true

namespace Task

/-- The tasks are the same, but for a queue that is to be cleared. -/
def SameButQueue (t u : Task) : Prop :=
  u = t ∨ t.phase.isIdle = true ∧ ∃ queue, u = { t with queue }

theorem SameButQueue.step {t u : Task} (h : SameButQueue t u) (s : Step) :
    SameButQueue (t.step s) (u.step s) := by
  rcases h with rfl | ⟨hidle, queue, rfl⟩
  · exact .inl rfl
  -- In these phases only sends and the clearing look at the queue at all.
  have hrelaying : t.phase ≠ .relaying := by
    intro hphase
    rw [hphase] at hidle
    cases hidle
  have hcleared : t.phase ≠ .cleared := by
    intro hphase
    rw [hphase] at hidle
    cases hidle
  unfold Task.step
  cases s with
  | send payload =>
    simp only [step?, Task.send, Option.getD_some]
    split
    · exact .inr ⟨hidle, _, rfl⟩
    · exact .inr ⟨hidle, _, rfl⟩
  | clearQueue =>
    simp only [step?]
    split
    · exact .inl rfl
    · exact .inr ⟨hidle, _, rfl⟩
  | announce =>
    simp only [step?, if_neg hcleared]
    exact .inr ⟨hidle, _, rfl⟩
  | receive _ | deliver | lose =>
    simp only [step?, if_neg hrelaying]
    exact .inr ⟨hidle, _, rfl⟩
  | start | fail | establish | withdraw =>
    simp only [step?]
    split
    · exact .inr ⟨rfl, _, rfl⟩
    · exact .inr ⟨hidle, _, rfl⟩
  | decide =>
    simp only [step?, decideNext]
    split
    · split
      · exact .inr ⟨rfl, _, rfl⟩
      · exact .inr ⟨rfl, _, rfl⟩
    · exact .inr ⟨hidle, _, rfl⟩

/-- What is in the queue when a connection ended makes no difference to what any connection
delivers, so neither does it whether a write that failed had taken its payload. -/
theorem received_of_left {t : Task} (h : t.phase.isIdle = true) (queue : List String)
    (l : List Step) : (Task.steps { t with queue } l).received = (t.steps l).received := by
  have hrun : ∀ (t u : Task), SameButQueue t u → (u.steps l).received = (t.steps l).received := by
    induction l with
    | nil =>
      intro t u hsame
      rcases hsame with rfl | ⟨-, _, rfl⟩
      · rfl
      · rfl
    | cons s l ih =>
      intro t u hsame
      exact ih _ _ (hsame.step s)
  exact hrun t _ (.inr ⟨h, queue, rfl⟩)

/-! ## 6. What is not discarded -/

/-- While the connection lasts, the pump delivers all that waits. -/
theorem steps_deliver {t : Task} (h : t.phase = .relaying) {current : List String}
    {earlier : List (List String)} (hreceived : t.received = current :: earlier) :
    t.steps (List.replicate t.queue.length .deliver) =
      { t with queue := [], received := (current ++ t.queue) :: earlier } := by
  cases t with
  | mk policy phase attempt state queue events published received =>
    simp only at h hreceived ⊢
    subst h hreceived
    induction queue generalizing current with
    | nil => simp [steps]
    | cons payload queue ih =>
      have hstep := @ih (current ++ [payload])
      simp only [List.append_assoc, List.singleton_append] at hstep
      exact hstep

/-- Until the connection ends, frames are relayed and no other connection is published. -/
theorem relaying_steps {t : Task} (h : t.phase = .relaying) {l : List Step} (hl : .lose ∉ l) :
    (t.steps l).phase = .relaying ∧ (t.steps l).connections = t.connections := by
  refine foldl_keeps (fun u : Task => u.phase = .relaying ∧ u.connections = t.connections)
    (fun u s hs hu => ?_) ⟨h, rfl⟩
  cases s with
  | lose => exact absurd hs hl
  | send payload =>
    simp only [step?, Task.send, Option.getD_some]
    split
    · exact hu
    · exact hu
  | receive frame =>
    simp only [step?, if_pos hu.1, Option.getD_some]
    cases frame with
    | _ => exact hu
  | deliver =>
    simp only [step?, if_pos hu.1, Option.getD_some, deliverFirst]
    split
    · exact hu
    · exact hu
  | _ =>
    simp only [step?, hu.1, reduceCtorEq, if_false, Option.getD_none]
    exact ⟨trivial, hu.2⟩

theorem step_announce {t : Task} (h : t.phase = .cleared) :
    t.step .announce = { (t.publish .connected).report .connected with phase := .relaying } := by
  rw [step, step?, if_pos h]
  rfl

theorem relaying_announce_send {t : Task} (h : t.phase = .cleared) (payload : String)
    {l : List Step} (hl : .lose ∉ l) :
    (t.steps (.announce :: .send payload :: l)).phase = .relaying ∧
      (t.steps (.announce :: .send payload :: l)).connections = t.connections + 1 := by
  have hphase : (t.step .announce).phase = .relaying := by
    rw [step_announce h]
  have hconnections : (t.step .announce).connections = t.connections + 1 := by
    rw [step_announce h]
    exact t.connections_announce
  have hmem : .lose ∉ .send payload :: l := by
    simpa using hl
  have hsteps := relaying_steps hphase hmem
  rw [hconnections] at hsteps
  exact hsteps

/-- The first payload after a connection was published is the first that is accepted for it. -/
theorem accepted_announce_send {policy : Policy} {before : List Step}
    (hphase : (Task.steps { policy } before).phase = .cleared) (payload : String)
    (rest : List Step) :
    ∃ more, Task.accepted { policy } (Task.steps { policy } before).connections
      (before ++ .announce :: .send payload :: rest) = payload :: more := by
  have hcarried := carried_steps policy before
  rw [accepted_append, hcarried.later _ (Nat.le_refl _), List.nil_append]
  generalize Task.steps { policy } before = t at hphase
  have hup : (t.step .announce).IsUp t.connections := by
    rw [step_announce hphase]
    exact ⟨rfl, t.connections_announce⟩
  have hfirst : (t.step .announce).accepts t.connections (.send payload) = [payload] :=
    if_pos hup
  rw [accepted, accepted, hfirst]
  exact ⟨_, rfl⟩

theorem send_of_ne {t : Task} (h : t.state ≠ .connected) (payload : String) :
    t.send payload = t := by
  unfold Task.send
  cases hs : t.state with
  | connected => exact absurd hs h
  | _ => rfl

end Task

theorem State.sendResult_eq_ok_iff (s : State) : s.sendResult = .ok () ↔ s = .connected := by
  cases s <;> simp [State.sendResult, State.isConnected]

theorem State.sendResult_of_ne {s : State} (h : s ≠ .connected) :
    s.sendResult = .error .notConnected := by
  cases s with
  | connected => exact absurd rfl h
  | _ => rfl

/-- **No payload crosses from one connection to another.**  In turn: a send is told `ok` while a
connection is published, and then that connection has a number; else it is told so, and the run is
the same without it.  On every connection the peer receives a prefix of what was accepted for it.
What waits when a connection ends makes no difference to what any other delivers.  While frames are
relayed, all that was accepted for the connection is received or waits its turn; so is a payload
sent right after the connection was published, and it is the first to be delivered. -/
theorem received_steps (policy : Policy) (l : List Step) :
    (∀ before payload rest, l = before ++ .send payload :: rest →
      ((Task.steps { policy } before).state.sendResult = .ok () ↔
        (Task.steps { policy } before).state = .connected) ∧
      ((Task.steps { policy } before).state = .connected →
        ∃ i, (Task.steps { policy } before).IsUp i) ∧
      ((Task.steps { policy } before).state ≠ .connected →
        (Task.steps { policy } before).state.sendResult = .error .notConnected ∧
          Task.steps { policy } l = Task.steps { policy } (before ++ rest))) ∧
    (∀ i, (Task.steps { policy } l).receivedOn i <+: Task.accepted { policy } i l) ∧
    (∀ before rest queue, l = before ++ rest → (Task.steps { policy } before).phase = .ended →
      (Task.steps { Task.steps { policy } before with queue } rest).received =
        (Task.steps { policy } l).received) ∧
    ((Task.steps { policy } l).phase = .relaying →
      ∃ current earlier, (Task.steps { policy } l).received = current :: earlier ∧
        current ++ (Task.steps { policy } l).queue = Task.accepted { policy } earlier.length l) ∧
    (∀ before payload rest, l = before ++ .announce :: .send payload :: rest →
      (Task.steps { policy } before).phase = .cleared → .lose ∉ rest →
      ∃ more earlier, Task.accepted { policy } earlier.length l = payload :: more ∧
        (Task.steps { policy } (l ++ List.replicate (Task.steps { policy } l).queue.length
          .deliver)).received = (payload :: more) :: earlier) := by
  refine ⟨?_, (Task.carried_steps policy l).delivered, ?_, (Task.carried_steps policy l).queued, ?_⟩
  · intro before payload rest hl
    have hcarried := Task.carried_steps policy before
    refine ⟨State.sendResult_eq_ok_iff _, fun hstate => ?_, fun hstate => ⟨?_, ?_⟩⟩
    · have hpos := (hcarried.up hstate).1
      exact ⟨(Task.steps { policy } before).connections - 1, hstate, by omega⟩
    · exact State.sendResult_of_ne hstate
    · have hsend : (Task.steps { policy } before).steps (.send payload :: rest) =
          ((Task.steps { policy } before).send payload).steps rest := rfl
      rw [hl, Task.steps_append, Task.steps_append, hsend, Task.send_of_ne hstate]
  · intro before rest queue hl hphase
    rw [Task.received_of_left (by rw [hphase]; rfl), hl, Task.steps_append]
  · intro before payload rest hl hphase hlose
    obtain ⟨more, hmore⟩ := Task.accepted_announce_send hphase payload rest
    have hcarried := Task.carried_steps policy l
    have hrelaying := Task.relaying_announce_send hphase payload hlose
    rw [← Task.steps_append, ← hl] at hrelaying
    obtain ⟨current, earlier, hreceived, hqueued⟩ := hcarried.queued hrelaying.1
    -- The connection that was announced is the present one.
    have hnumber : earlier.length = (Task.steps { policy } before).connections := by
      have hcount := hcarried.count
      rw [hreceived, hrelaying.1, hrelaying.2] at hcount
      exact Nat.succ.inj hcount
    rw [hnumber] at hqueued
    refine ⟨more, earlier, by rw [hnumber, hl, hmore], ?_⟩
    rw [Task.steps_append, Task.steps_deliver hrelaying.1 hreceived, hqueued, hl, hmore]

/-- What is sent too early or left behind reaches no connection, and what is sent when a connection
was just published is the first that it delivers. -/
theorem received_steps_reconnect :
    (Task.steps { policy := {} } [.send "early", .start]).received =
      (Task.steps { policy := {} } [.start]).received ∧
    (Task.steps { policy := {} } [.start, .establish, .clearQueue, .announce, .send "a", .lose,
      .send "late", .withdraw]).receivedOn 0 <+: ["a", "late"] ∧
    (Task.steps { Task.steps { policy := {} } [.start, .establish, .clearQueue, .announce,
        .send "a", .lose] with queue := [] } [.withdraw, .decide, .start]).received =
      (Task.steps { policy := {} } [.start, .establish, .clearQueue, .announce, .send "a", .lose,
        .withdraw, .decide, .start]).received ∧
    ∃ more earlier, (Task.steps { policy := {} } [.start, .establish, .clearQueue, .announce,
      .send "a", .send "b", .deliver, .deliver]).received = ("a" :: more) :: earlier := by
  refine ⟨?_, (received_steps {} _).2.1 0, ?_, ?_⟩
  · have hrefused := (received_steps {} [.send "early", .start]).1 [] "early" [.start] rfl
    exact congrArg Task.received (hrefused.2.2 nofun).2
  · exact (received_steps {} _).2.2.1 [.start, .establish, .clearQueue, .announce, .send "a",
      .lose] [.withdraw, .decide, .start] [] rfl rfl
  · obtain ⟨more, earlier, -, hreceived⟩ := (received_steps {} [.start, .establish, .clearQueue,
      .announce, .send "a", .send "b"]).2.2.2.2 [.start, .establish, .clearQueue] "a" [.send "b"]
      rfl rfl (by simp)
    exact ⟨more, earlier, hreceived⟩

end StreamBoard.Socket

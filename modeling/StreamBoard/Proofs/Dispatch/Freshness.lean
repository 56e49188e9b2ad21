import StreamBoard.Dispatch
import StreamBoard.Proofs.Ledger

/-!
# Freshness — which answers count

An answer counts if no invalidation came between its request and itself.  The dispatcher does not
look back: it compares two epochs.  `Tracks` says what the epoch and the open requests of a
dispatcher have to do with the steps it took, and every step keeps it; so the comparison comes to
looking back (`channel_run`), as long as the epoch has not come round.
-/

namespace StreamBoard

/-- The action that the answer to a request stands for. -/
inductive Request.Yields : Request → Except Rest.Failure Answer → Action → Prop
  | all (list : List StreamSettings) :
    Yields .fetchAll (.ok (.all list)) (.updatedStreamSettings list)
  | loaded (slug : String) (settings : StreamSettings) :
    Yields (.load slug) (.ok (.one settings)) (.setStreamSettings settings)
  | submitted (draft settings : StreamSettings) :
    Yields (.submit draft) (.ok (.one settings)) (.setStreamSettings settings)
  | failed (request : Request) (failure : Rest.Failure) :
    Yields request (.error failure) (.fetchError failure)

theorem Request.Yields.ofAnswer_eq {request : Request} {answer : Except Rest.Failure Answer}
    {action : Action} (h : request.Yields answer action) : Action.ofAnswer answer = action := by
  cases h <;> rfl

namespace Dispatcher

namespace Step

def issued? : Step → Option String
  | .issue id _ => some id
  | _ => none

def isInvalidate : Step → Bool
  | .invalidate => true
  | _ => false

theorem isInvalidate_iff {s : Step} : s.isInvalidate = true ↔ s = .invalidate := by
  cases s <;> simp [isInvalidate]

end Step

/-! ## 1. Looking back -/

/-- How often requests were invalidated, as the dispatcher counts. -/
def epochOf (past : List Step) : UInt64 := .ofNat (past.countP Step.isInvalidate)

/-- The ticket's request was issued in this past, and no answer to it came. -/
def Asked (past : List Step) (t : Ticket) : Prop :=
  ∃ before since, past = before ++ .issue t.id t.request :: since ∧
    (∀ answer, .complete t.id answer ∉ since) ∧ t.epoch = epochOf before

theorem asked_concat {past : List Step} {s : Step} {t : Ticket} :
    Asked (past ++ [s]) t ↔
      (s = .issue t.id t.request ∧ t.epoch = epochOf past) ∨
        Asked past t ∧ ∀ answer, s ≠ .complete t.id answer := by
  constructor
  · rintro ⟨before, since, hsplit, hopen, hepoch⟩
    rcases concat_split.mp hsplit with ⟨rfl, rfl, rfl⟩ | ⟨since', rfl, rfl⟩
    · exact .inl ⟨rfl, hepoch⟩
    · refine .inr ⟨⟨before, since', rfl, fun answer h => ?_, hepoch⟩, fun answer h => ?_⟩
      · exact hopen answer (List.mem_append_left _ h)
      · exact hopen answer (List.mem_append_right _ (List.mem_singleton.mpr h.symm))
  · rintro (⟨rfl, hepoch⟩ | ⟨⟨before, since, rfl, hopen, hepoch⟩, hs⟩)
    · exact ⟨past, [], rfl, by simp, hepoch⟩
    · refine ⟨before, since ++ [s], by simp, fun answer h => ?_, hepoch⟩
      rcases List.mem_append.mp h with h | h
      · exact hopen answer h
      · exact hs answer (List.mem_singleton.mp h).symm

theorem Asked.mem_issued {past : List Step} {t : Ticket} (h : Asked past t) :
    t.id ∈ past.filterMap Step.issued? := by
  obtain ⟨before, since, rfl, -, -⟩ := h
  exact List.mem_filterMap.mpr ⟨.issue t.id t.request, by simp, rfl⟩

/-! ## 2. One step -/

/-- What a step adds to the channel. -/
def added (d : Dispatcher) : Step → List Action
  | .dispatch action => [action]
  | .event e => (Action.ofEvent? e).toList
  | .issue _ _ | .invalidate => []
  | .complete id answer =>
    match d.pending.find? (fun t => t.id == id) with
    | none => []
    | some ticket => if ticket.epoch = d.epoch then [.ofAnswer answer] else []

theorem channel_step (d : Dispatcher) (s : Step) : (d.step s).channel = d.channel ++ d.added s := by
  cases s with
  | issue id request => simp [step, issue, added]
  | complete id answer =>
    simp only [step, complete, added]
    cases d.pending.find? (fun t => t.id == id) with
    | none => simp
    | some ticket => by_cases h : ticket.epoch = d.epoch <;> simp [h, dispatch]
  | invalidate => simp [step, invalidate, added]
  | dispatch action => rfl
  | event e =>
    simp only [step, handleEvent, added]
    split <;> simp_all [dispatch]

theorem complete_epoch (d : Dispatcher) (id : String) (answer : Except Rest.Failure Answer) :
    (d.complete id answer).epoch = d.epoch := by
  unfold complete
  split
  next => rfl
  next => dsimp only; split <;> rfl

theorem complete_pending (d : Dispatcher) (id : String) (answer : Except Rest.Failure Answer) :
    (d.complete id answer).pending = d.pending.eraseP fun t => t.id == id := by
  unfold complete
  split
  next hfind => rw [List.eraseP_of_forall_not (List.find?_eq_none.mp hfind)]
  next => dsimp only; split <;> rfl

theorem handleEvent_epoch (d : Dispatcher) (e : Socket.Event) :
    (d.handleEvent e).epoch = d.epoch := by
  unfold handleEvent
  split <;> rfl

theorem handleEvent_pending (d : Dispatcher) (e : Socket.Event) :
    (d.handleEvent e).pending = d.pending := by
  unfold handleEvent
  split <;> rfl

theorem mem_eraseP_iff {l : List Ticket} (h : (l.map Ticket.id).Nodup) {id : String} {t : Ticket} :
    t ∈ l.eraseP (fun t => t.id == id) ↔ t ∈ l ∧ t.id ≠ id := by
  induction l with
  | nil => simp
  | cons u l ih =>
    obtain ⟨hu, hl⟩ := List.nodup_cons.mp h
    by_cases hid : u.id = id
    · -- The head goes, and no ticket behind it has its name.
      subst hid
      rw [List.eraseP_cons_of_pos (by simp)]
      constructor
      · intro ht
        exact ⟨List.mem_cons_of_mem _ ht, fun heq => hu (List.mem_map.mpr ⟨t, ht, heq⟩)⟩
      · rintro ⟨ht, hne⟩
        rcases List.mem_cons.mp ht with rfl | ht
        · exact absurd rfl hne
        · exact ht
    · rw [List.eraseP_cons_of_neg (by simpa using hid), List.mem_cons, ih hl, List.mem_cons]
      constructor
      · rintro (rfl | ⟨ht, hne⟩)
        · exact ⟨.inl rfl, hid⟩
        · exact ⟨.inr ht, hne⟩
      · rintro ⟨rfl | ht, hne⟩
        · exact .inl rfl
        · exact .inr ⟨ht, hne⟩

/-! ## 3. What a dispatcher knows of its past -/

/-- The dispatcher counts the invalidations, and its open requests are those that were asked. -/
structure Tracks (past : List Step) (d : Dispatcher) : Prop where
  epoch : d.epoch = epochOf past
  mem_pending_iff : ∀ t, t ∈ d.pending ↔ Asked past t
  ids : (d.pending.map Ticket.id).Nodup

theorem tracks_nil : Tracks [] {} where
  epoch := rfl
  mem_pending_iff t := by
    constructor
    · intro h
      cases h
    · rintro ⟨before, since, h, -⟩
      simp at h
  ids := .nil

theorem epochOf_concat_of_ne {past : List Step} {s : Step} (h : s ≠ .invalidate) :
    epochOf (past ++ [s]) = epochOf past := by
  have hs : s.isInvalidate = false := by
    simpa using mt Step.isInvalidate_iff.mp h
  simp [epochOf, List.countP_append, hs]

theorem Tracks.step {past : List Step} {d : Dispatcher} (h : Tracks past d) {s : Step}
    (hdistinct : ((past ++ [s]).filterMap Step.issued?).Nodup) :
    Tracks (past ++ [s]) (d.step s) := by
  cases s with
  | issue id request =>
    refine ⟨?_, fun t => ?_, ?_⟩
    · rw [epochOf_concat_of_ne (by simp)]
      exact h.epoch
    · -- The new ticket carries the epoch of the whole past, which the dispatcher holds.
      simp only [Dispatcher.step, issue, List.mem_append, h.mem_pending_iff, List.mem_singleton,
        asked_concat, Step.issue.injEq]
      constructor
      · rintro (ht | rfl)
        · exact .inr ⟨ht, by simp⟩
        · exact .inl ⟨⟨rfl, rfl⟩, h.epoch⟩
      · rintro (⟨⟨rfl, rfl⟩, hepoch⟩ | ⟨ht, -⟩)
        · exact .inr (by rw [h.epoch, ← hepoch])
        · exact .inl ht
    · -- The name is new among all that were issued, so among the open ones too.
      have hnew : id ∉ d.pending.map Ticket.id := by
        intro hmem
        obtain ⟨t, ht, rfl⟩ := List.mem_map.mp hmem
        have hissued := ((h.mem_pending_iff t).mp ht).mem_issued
        rw [List.filterMap_append, List.nodup_append] at hdistinct
        exact hdistinct.2.2 t.id hissued t.id (by simp [Step.issued?]) rfl
      simp only [Dispatcher.step, issue, List.map_append, List.map_cons, List.map_nil]
      refine List.nodup_append.mpr ⟨h.ids, by simp, ?_⟩
      rintro name hname _ hid rfl
      exact hnew (List.mem_singleton.mp hid ▸ hname)
  | complete id answer =>
    refine ⟨?_, fun t => ?_, ?_⟩
    · rw [epochOf_concat_of_ne (by simp), ← h.epoch]
      exact d.complete_epoch id answer
    · -- Whether the answer counts or not, its ticket goes and the others stay.
      rw [Dispatcher.step, complete_pending, mem_eraseP_iff h.ids, h.mem_pending_iff, asked_concat]
      simp only [reduceCtorEq, false_and, false_or, ne_eq, Step.complete.injEq, not_and]
      exact and_congr_right fun _ =>
        ⟨fun hne _ heq => absurd heq.symm hne, fun hne heq => hne answer heq.symm rfl⟩
    · rw [Dispatcher.step, complete_pending]
      exact h.ids.sublist ((List.eraseP_sublist).map _)
  | invalidate =>
    refine ⟨?_, fun t => ?_, h.ids⟩
    · simp only [Dispatcher.step, invalidate, h.epoch, epochOf, List.countP_append]
      simp [Step.isInvalidate, UInt64.ofNat_add]
    · simp [Dispatcher.step, invalidate, h.mem_pending_iff, asked_concat]
  | dispatch action =>
    refine ⟨?_, fun t => ?_, h.ids⟩
    · rw [epochOf_concat_of_ne (by simp)]
      exact h.epoch
    · simp [Dispatcher.step, dispatch, h.mem_pending_iff, asked_concat]
  | event e =>
    refine ⟨?_, fun t => ?_, ?_⟩
    · rw [epochOf_concat_of_ne (by simp), ← h.epoch]
      exact d.handleEvent_epoch e
    · rw [Dispatcher.step, handleEvent_pending, h.mem_pending_iff]
      simp [asked_concat]
    · rw [Dispatcher.step, handleEvent_pending]
      exact h.ids

theorem Tracks.run {past : List Step} {d : Dispatcher} (h : Tracks past d) {steps : List Step}
    (hdistinct : ((past ++ steps).filterMap Step.issued?).Nodup) :
    Tracks (past ++ steps) (d.run steps) := by
  induction steps generalizing past d with
  | nil => simpa [Dispatcher.run] using h
  | cons s steps ih =>
    -- Each step moves from what is to come to the past.
    have hsplit : past ++ s :: steps = past ++ [s] ++ steps := by
      simp
    rw [hsplit] at hdistinct ⊢
    have hprefix : ((past ++ [s]).filterMap Step.issued?).Nodup := by
      rw [List.filterMap_append] at hdistinct
      exact (List.nodup_append.mp hdistinct).1
    exact ih (h.step hprefix) hdistinct

/-! ## 4. What a step adds -/

/-- What a step has to add to the channel, after such a past. -/
structure Adds (past : List Step) (s : Step) (share : List Action) : Prop where
  dispatch : ∀ action, s = .dispatch action → share = [action]
  event : ∀ e, s = .event e → share = (Action.ofEvent? e).toList
  issue : ∀ id request, s = .issue id request → share = []
  invalidate : s = .invalidate → share = []
  /-- An answer without an invalidation since its request adds its action. -/
  fresh : ∀ id answer before request since, s = .complete id answer →
    past = before ++ .issue id request :: since → (∀ x, .complete id x ∉ since) →
    .invalidate ∉ since → ∀ action, request.Yields answer action → share = [action]
  /-- No answer gets past an invalidation. -/
  stale : ∀ id answer before request since, s = .complete id answer →
    past = before ++ .issue id request :: since → .invalidate ∈ since → share = []
  /-- What was never asked, or is answered already, adds nothing. -/
  closed : ∀ id answer, s = .complete id answer →
    (∀ before request since, past = before ++ .issue id request :: since →
      ∃ x, .complete id x ∈ since) → share = []

/-- While the count has not come round, an epoch is the same if no invalidation came since. -/
theorem epochOf_eq_iff {before since : List Step} {s : Step} (hs : s ≠ .invalidate)
    (hfew : (before ++ s :: since).countP Step.isInvalidate < 18446744073709551616) :
    epochOf before = epochOf (before ++ s :: since) ↔ .invalidate ∉ since := by
  have hskip : s.isInvalidate = false := by
    simpa using mt Step.isInvalidate_iff.mp hs
  have hcount : (before ++ s :: since).countP Step.isInvalidate =
      before.countP Step.isInvalidate + since.countP Step.isInvalidate := by
    simp [List.countP_append, hskip]
  have hzero : since.countP Step.isInvalidate = 0 ↔ .invalidate ∉ since := by
    rw [List.countP_eq_zero]
    constructor
    · intro h hmem
      exact h _ hmem rfl
    · intro h s hmem hinv
      exact h (Step.isInvalidate_iff.mp hinv ▸ hmem)
  rw [hcount] at hfew
  -- Both counts are below the modulus, so the words are equal only if the counts are.
  rw [epochOf, epochOf, hcount, ← UInt64.toNat_inj, UInt64.toNat_ofNat_of_lt',
    UInt64.toNat_ofNat_of_lt', ← hzero]
  · omega
  · exact hfew
  · exact Nat.lt_of_le_of_lt (Nat.le_add_right _ _) hfew

theorem Tracks.find?_pending {past : List Step} {d : Dispatcher} (h : Tracks past d) {id : String}
    {t : Ticket} (hfind : d.pending.find? (fun t => t.id == id) = some t) :
    t.id = id ∧ Asked past t := by
  have hid := List.find?_some hfind
  exact ⟨beq_iff_eq.mp hid, (h.mem_pending_iff t).mp (List.mem_of_find?_eq_some hfind)⟩

/-- Comparing the epochs is looking back to the request. -/
theorem Tracks.epoch_eq_iff {past : List Step} {d : Dispatcher} (h : Tracks past d)
    (hdistinct : (past.filterMap Step.issued?).Nodup)
    (hfew : past.countP Step.isInvalidate < 18446744073709551616) {id : String} {request : Request}
    {before since : List Step} (hpast : past = before ++ .issue id request :: since) {t : Ticket}
    (hfind : d.pending.find? (fun t => t.id == id) = some t) :
    t.epoch = d.epoch ↔ .invalidate ∉ since := by
  obtain ⟨rfl, before', since', hpast', -, hepoch⟩ := h.find?_pending hfind
  subst hpast
  -- The ticket that is found and the request in question bear one name, so they are the same.
  have hissued : ∀ r, Step.issued? (.issue t.id r) = some t.id := fun _ => rfl
  obtain ⟨rfl, -, rfl⟩ := split_unique (hissued request) (hissued t.request) hdistinct hpast'
  rw [hepoch, h.epoch, epochOf_eq_iff (by simp) hfew]

theorem Tracks.added {past : List Step} {d : Dispatcher} (h : Tracks past d)
    (hdistinct : (past.filterMap Step.issued?).Nodup)
    (hfew : past.countP Step.isInvalidate < 18446744073709551616) (s : Step) :
    Adds past s (d.added s) := by
  refine ⟨?_, ?_, ?_, ?_, ?_, ?_, ?_⟩
  · rintro action rfl
    rfl
  · rintro e rfl
    rfl
  · rintro id request rfl
    rfl
  · rintro rfl
    rfl
  · rintro id answer before request since rfl hpast hopen hfresh action hyields
    have hasked : Asked past ⟨id, request, epochOf before⟩ := ⟨before, since, hpast, hopen, rfl⟩
    simp only [Dispatcher.added]
    cases hfind : d.pending.find? (fun t => t.id == id) with
    | none =>
      -- The request was asked and not answered, so its ticket is there.
      have hmem := (h.mem_pending_iff _).mpr hasked
      exact absurd (beq_self_eq_true id) (List.find?_eq_none.mp hfind _ hmem)
    | some t =>
      have hepoch := (h.epoch_eq_iff hdistinct hfew hpast hfind).mpr hfresh
      simp only [if_pos hepoch, hyields.ofAnswer_eq]
  · rintro id answer before request since rfl hpast hstale
    simp only [Dispatcher.added]
    cases hfind : d.pending.find? (fun t => t.id == id) with
    | none => rfl
    | some t =>
      have hepoch := mt (h.epoch_eq_iff hdistinct hfew hpast hfind).mp (not_not_intro hstale)
      exact if_neg hepoch
  · rintro id answer rfl hclosed
    simp only [Dispatcher.added]
    cases hfind : d.pending.find? (fun t => t.id == id) with
    | none => rfl
    | some t =>
      obtain ⟨rfl, before, since, hpast, hopen, -⟩ := h.find?_pending hfind
      obtain ⟨x, hx⟩ := hclosed before t.request since hpast
      exact absurd hx (hopen x)

/-! ## 5. The channel after a run -/

def addedAt (d : Dispatcher) (steps : List Step) (i : Nat) : List Action :=
  (steps[i]?.map (d.run (steps.take i)).added).getD []

theorem channel_foldl (d : Dispatcher) (steps : List Step) :
    (d.run steps).channel = d.channel ++ (List.range steps.length).flatMap (d.addedAt steps) := by
  induction steps generalizing d with
  | nil => simp [run]
  | cons s steps ih =>
    have htail (i : Nat) : d.addedAt (s :: steps) i.succ = (d.step s).addedAt steps i := rfl
    have hhead : d.addedAt (s :: steps) 0 = d.added s := rfl
    rw [List.length_cons, List.range_succ_eq_map, List.flatMap_cons, List.flatMap_map, hhead,
      ← List.append_assoc, ← d.channel_step s]
    simp only [htail]
    exact ih (d.step s)

/-- **An answer counts if and only if no invalidation came since its request.**  The channel is what
the steps add, one after the other. -/
theorem channel_run (steps : List Step) (hdistinct : (steps.filterMap Step.issued?).Nodup)
    (hfew : steps.countP Step.isInvalidate < 18446744073709551616) :
    ∃ share : Nat → List Action,
      (run {} steps).channel = (List.range steps.length).flatMap share ∧
      ∀ past s rest, steps = past ++ s :: rest → Adds past s (share past.length) := by
  refine ⟨addedAt {} steps, by simpa using channel_foldl {} steps, ?_⟩
  rintro past s rest rfl
  have hadded : addedAt {} (past ++ s :: rest) past.length = (run {} past).added s := by
    simp [addedAt]
  rw [List.filterMap_append] at hdistinct
  rw [List.countP_append] at hfew
  have hpast := (List.nodup_append.mp hdistinct).1
  rw [hadded]
  exact (tracks_nil.run hpast).added hpast (Nat.lt_of_le_of_lt (Nat.le_add_right _ _) hfew) s

/-- Of two requests with an invalidation between them, the later one counts. -/
theorem channel_run_later :
    (run {} [.issue "a" .fetchAll, .invalidate, .issue "b" (.load "x"),
      .complete "a" (.ok (.all [])), .complete "b" (.error (.network "refused"))]).channel =
      [.fetchError (.network "refused")] := by
  obtain ⟨share, hchannel, hadds⟩ := channel_run [.issue "a" .fetchAll, .invalidate,
    .issue "b" (.load "x"), .complete "a" (.ok (.all [])),
    .complete "b" (.error (.network "refused"))] (by decide) (by decide)
  have hfirst := (hadds [] _ _ rfl).issue _ _ rfl
  have hinvalidate := (hadds [_] _ _ rfl).invalidate rfl
  have hsecond := (hadds [_, _] _ _ rfl).issue _ _ rfl
  have hstale := (hadds [_, _, _] _ _ rfl).stale _ _ [] _ [_, _] rfl rfl (by simp)
  have hfresh := (hadds [_, _, _, _] _ _ rfl).fresh _ _ [_, _] _ [_] rfl rfl (by simp) (by simp) _
    (.failed _ _)
  simp only [List.length_cons, List.length_nil] at hfirst hinvalidate hsecond hstale hfresh
  rw [hchannel]
  simp [List.range_succ, hfirst, hinvalidate, hsecond, hstale, hfresh]

end Dispatcher

end StreamBoard

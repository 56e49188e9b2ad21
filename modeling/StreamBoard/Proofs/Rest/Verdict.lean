import Mathlib.Data.List.Forall2
import StreamBoard.Proofs.Fragment
import StreamBoard.Proofs.Entity.Agreement
import StreamBoard.Proofs.Rest.Exchange
import StreamBoard.Dispatch

/-!
# Verdict — what becomes of a request

Every request ends in one action.  A status outside 200 to 299 is a failure with the body as it is;
any other body means something to the request (`Means`) or it is a failure as a whole.  A list means
something only if each of its items reads, so there is never a part of a list.
-/

namespace StreamBoard

namespace Json

variable {α : Type}

/-! ## 1. Lists -/

/-- The items of an array, as far as they are there. -/
def Items.outlines : Items → List Outline
  | .finish _ => []
  | .item o rest => o :: rest.outlines

/-- The text is an array of these items, with nothing but blanks around it. -/
def ArrayOf (text : List Char) (items : List Outline) : Prop :=
  ∃ start l, Outline.ofText text = .array start l ∧ l.outlines = items ∧
    l.ending.itemsFault = none ∧ skipBlanks (Outline.ofText text).next = []

/-- A list is read if it closes and each of its items is read. -/
theorem Reader.items_eq_ok_iff {r : Reader α} {l : Items} {as : List α} :
    Reader.items r l = .ok as ↔
      l.ending.itemsFault = none ∧ List.Forall₂ (fun o a => r o = .ok a) l.outlines as := by
  match l with
  | .finish how =>
    rw [Reader.items, Items.ending, Items.outlines, List.forall₂_nil_left_iff]
    cases how.itemsFault <;> simp [eq_comm]
  | .item o rest =>
    rw [Items.ending, Items.outlines, List.forall₂_cons_left_iff]
    constructor
    · intro h
      obtain ⟨a, ha, h⟩ := bind_eq_ok_iff.mp h
      obtain ⟨rest', hrest, h⟩ := bind_eq_ok_iff.mp h
      cases h
      obtain ⟨hend, hitems⟩ := Reader.items_eq_ok_iff.mp hrest
      exact ⟨hend, a, rest', ha, hitems, rfl⟩
    · rintro ⟨hend, a, rest', ha, hitems, rfl⟩
      rw [Reader.items, ha, Reader.items_eq_ok_iff.mpr ⟨hend, hitems⟩]
      rfl

theorem items_value (l : Items) : Reader.items Outline.value l = l.values := by
  match l with
  | .finish how => rfl
  | .item o rest => rw [Reader.items, items_value rest, Items.values]

/-- **A text is read as a list if it is an array of which each item reads.** -/
theorem readText_list_iff {r : Reader α} {text : List Char} {as : List α} :
    readText (Reader.list r) text = .ok as ↔
      ∃ items, ArrayOf text items ∧ List.Forall₂ (fun o a => r o = .ok a) items as := by
  rw [readText_eq_ok_iff]
  constructor
  · rintro ⟨hread, hend⟩
    unfold Reader.list at hread
    split at hread
    next start l hl =>
      obtain ⟨hclosed, hitems⟩ := Reader.items_eq_ok_iff.mp hread
      exact ⟨l.outlines, ⟨start, l, hl, rfl, hclosed, hend⟩, hitems⟩
    next => cases hread
  · rintro ⟨items, ⟨start, l, hl, rfl, hclosed, hend⟩, hitems⟩
    refine ⟨?_, hend⟩
    rw [hl]
    exact Reader.items_eq_ok_iff.mpr ⟨hclosed, hitems⟩

/-- **`null` is nothing, and any other text is read as it is.** -/
theorem readText_option_iff {r : Reader α} {text : List Char} {a : Option α}
    (hscalar : ∀ (l : Lexeme Scalar) b, r (.scalar l) ≠ .ok b) :
    readText (Reader.option r) text = .ok a ↔
      a = none ∧ readText Outline.value text = .ok .null ∨
        ∃ b, a = some b ∧ readText r text = .ok b := by
  simp only [readText_eq_ok_iff]
  by_cases h : (Outline.ofText text).value = .ok .null
  · obtain ⟨l, hl, hvalue⟩ := (Scalar.value_eq_toJson_iff (x := .null)).mp h
    have hread : Reader.option r (Outline.ofText text) = .ok none := by
      obtain ⟨start, value, fault, next⟩ := l
      cases hvalue
      rw [hl]
      rfl
    constructor
    · rintro ⟨ha, hend⟩
      cases hread.symm.trans ha
      exact .inl ⟨rfl, h, hend⟩
    · rintro (⟨rfl, -, hend⟩ | ⟨b, -, hb, -⟩)
      · exact ⟨hread, hend⟩
      · rw [hl] at hb
        exact absurd hb (hscalar l b)
  · rw [Reader.option_of_ne_null h, map_eq_ok_iff]
    constructor
    · rintro ⟨⟨b, hb, rfl⟩, hend⟩
      exact .inr ⟨b, rfl, hb, hend⟩
    · rintro (⟨-, hvalue, -⟩ | ⟨b, rfl, hb, hend⟩)
      · exact absurd hvalue h
      · exact ⟨⟨b, hb, rfl⟩, hend⟩

theorem text_iff_readText {text : List Char} {v : Json} :
    Grammar.Text text v ↔ readText Outline.value text = .ok v := by
  have h : parse (.ofList text) = .ok v ↔ Grammar.Text (String.ofList text).toList v :=
    parse_eq_ok_iff
  rw [parse, String.toList_ofList] at h
  exact h.symm

/-- An array denotes the array of what its items denote. -/
theorem ArrayOf.text_iff {text : List Char} {items : List Outline} (h : ArrayOf text items)
    {vs : List Json} :
    Grammar.Text text (.array vs) ↔ List.Forall₂ (fun o v => o.value = .ok v) items vs := by
  obtain ⟨start, l, hl, rfl, hclosed, hend⟩ := h
  rw [text_iff_readText, readText_eq_ok_iff, and_iff_left hend, hl, Outline.value, map_eq_ok_iff,
    ← items_value]
  constructor
  · rintro ⟨vs', hvs, heq⟩
    cases heq
    exact (Reader.items_eq_ok_iff.mp hvs).2
  · intro hvs
    exact ⟨vs, Reader.items_eq_ok_iff.mpr ⟨hclosed, hvs⟩, rfl⟩

/-- Items that are read alike from a text and from its value are so one by one. -/
theorem forall₂_iff_values {r : Reader α} {items : List Outline} (h : ∀ o ∈ items, r.Agrees o)
    {as : List α} :
    List.Forall₂ (fun o a => r o = .ok a) items as ↔
      ∃ vs, List.Forall₂ (fun o v => o.value = .ok v) items vs ∧
        List.Forall₂ (fun v a => readValue r v = .ok a) vs as := by
  induction items generalizing as with
  | nil => simp
  | cons o items ih =>
    have htail : ∀ o ∈ items, r.Agrees o := fun o ho => h o (List.mem_cons_of_mem _ ho)
    have ho := h o List.mem_cons_self
    constructor
    · rintro (- | ⟨hread, hrest⟩)
      next a as =>
        obtain ⟨v, hv, ha⟩ := (ho a).mp hread
        obtain ⟨vs, hvs, has⟩ := (ih htail).mp hrest
        exact ⟨v :: vs, .cons hv hvs, .cons ha has⟩
    · rintro ⟨_, - | ⟨hv, hvs⟩, - | ⟨ha, has⟩⟩
      exact .cons ((ho _).mpr ⟨_, hv, ha⟩) ((ih htail).mpr ⟨_, hvs, has⟩)

end Json

/-! ## 2. What a body means -/

open Json

/-- A body is read as the settings of all streams: nothing, or all items of an array in order. -/
def ReadsAll (body : List Char) (list : List StreamSettings) : Prop :=
  Grammar.Text body .null ∧ list = [] ∨
    ∃ items, ArrayOf body items ∧ List.Forall₂ (fun o s => StreamSettings.read o = .ok s) items list

/-- A body is read as the settings of one stream. -/
def ReadsOne (body : List Char) (s : StreamSettings) : Prop :=
  readText StreamSettings.read body = .ok s

/-- What a body with a status of success means to a request. -/
inductive Means (body : List Char) : Request → Action → Prop
  | all {list : List StreamSettings} :
      ReadsAll body list → Means body .fetchAll (.updatedStreamSettings list)
  | loaded {slug : String} {s : StreamSettings} :
      ReadsOne body s → Means body (.load slug) (.setStreamSettings s)
  | kept {sent s : StreamSettings} :
      ReadsOne body s → Means body (.submit sent) (.setStreamSettings s)
  /-- The settings were kept as they were sent. -/
  | keptAsSent {sent : StreamSettings} :
      Grammar.Text body .null → Means body (.submit sent) (.setStreamSettings sent)

section Means

variable {body : List Char} {action : Action}

theorem means_fetchAll_iff : Means body .fetchAll action ↔
    ∃ list, ReadsAll body list ∧ .updatedStreamSettings list = action := by
  constructor
  · rintro ⟨hlist⟩
    exact ⟨_, hlist, rfl⟩
  · rintro ⟨list, hlist, rfl⟩
    exact .all hlist

theorem means_load_iff {slug : String} : Means body (.load slug) action ↔
    ∃ s, ReadsOne body s ∧ .setStreamSettings s = action := by
  constructor
  · rintro (- | hs)
    exact ⟨_, hs, rfl⟩
  · rintro ⟨s, hs, rfl⟩
    exact .loaded hs

theorem means_submit_iff {sent : StreamSettings} : Means body (.submit sent) action ↔
    ∃ s, (ReadsOne body s ∨ Grammar.Text body .null ∧ s = sent) ∧
      .setStreamSettings s = action := by
  constructor
  · rintro (- | - | hs | hnull)
    · exact ⟨_, .inl hs, rfl⟩
    · exact ⟨_, .inr ⟨hnull, rfl⟩, rfl⟩
  · rintro ⟨s, hs | ⟨hnull, rfl⟩, rfl⟩
    · exact .kept hs
    · exact .keptAsSent hnull

end Means

/-- `null` is no settings. -/
theorem not_readsOne_of_null {body : List Char} (h : Grammar.Text body .null) (s : StreamSettings) :
    ¬ ReadsOne body s := by
  intro hread
  have hvalue := (readText_eq_ok_iff.mp (text_iff_readText.mp h)).1
  obtain ⟨l, hl, -⟩ := (Scalar.value_eq_toJson_iff (x := .null)).mp hvalue
  have hsettings := (readText_eq_ok_iff.mp hread).1
  rw [hl] at hsettings
  cases hsettings

theorem readsAll_iff {body : List Char} {list : List StreamSettings} :
    ReadsAll body list ↔ ∃ read, readText (.option (.list StreamSettings.read)) body = .ok read ∧
      read.getD [] = list := by
  have hscalar : ∀ (l : Lexeme Scalar) b, Reader.list StreamSettings.read (.scalar l) ≠ .ok b :=
    fun _ _ => nofun
  simp only [readText_option_iff hscalar, ReadsAll, text_iff_readText, readText_list_iff]
  constructor
  · rintro (⟨hnull, rfl⟩ | hitems)
    · exact ⟨none, .inl ⟨rfl, hnull⟩, rfl⟩
    · exact ⟨some list, .inr ⟨list, rfl, hitems⟩, rfl⟩
  · rintro ⟨read, ⟨rfl, hnull⟩ | ⟨as, rfl, hitems⟩, rfl⟩
    · exact .inl ⟨hnull, rfl⟩
    · exact .inr hitems

theorem readsOne_or_null_iff {body : List Char} {sent s : StreamSettings} :
    ReadsOne body s ∨ Grammar.Text body .null ∧ s = sent ↔
      ∃ read, readText (.option StreamSettings.read) body = .ok read ∧ read.getD sent = s := by
  have hscalar : ∀ (l : Lexeme Scalar) b, StreamSettings.read (.scalar l) ≠ .ok b :=
    fun _ _ => nofun
  simp only [readText_option_iff hscalar, text_iff_readText]
  constructor
  · rintro (hread | ⟨hnull, rfl⟩)
    · exact ⟨some s, .inr ⟨s, rfl, hread⟩, rfl⟩
    · exact ⟨none, .inl ⟨rfl, hnull⟩, rfl⟩
  · rintro ⟨read, ⟨rfl, hnull⟩ | ⟨b, rfl, hread⟩, rfl⟩
    · exact .inr ⟨hnull, rfl⟩
    · exact .inl hread

/-! ## 3. Verdicts -/

namespace Rest

theorem Reply.isSuccess_iff (r : Reply) :
    r.isSuccess = true ↔ 200 ≤ r.status.toNat ∧ r.status.toNat < 300 := by
  simp [isSuccess]

section Success

variable {carrier : Carrier} {call : Call} {r : Reply} {text : List Char}

theorem Carrier.read_of_success {α : Type} (hreply : carrier call = some r) (h : r.Carries text)
    (hstatus : r.isSuccess = true) (reader : Reader α) :
    carrier.read reader call = (readText reader (Reply.readable text)).mapError fun fault =>
      .deserialize (fault.describe (Reply.readable text)) := by
  simp only [read, hreply]
  rw [Reply.read_of_carries h, if_pos hstatus]

theorem Carrier.read_eq_ok_iff {α : Type} (hreply : carrier call = some r) (h : r.Carries text)
    (hstatus : r.isSuccess = true) {reader : Reader α} {a : α} :
    carrier.read reader call = .ok a ↔ readText reader (Reply.readable text) = .ok a := by
  rw [read_of_success hreply h hstatus]
  cases readText reader (Reply.readable text) <;> simp [Except.mapError]

theorem Carrier.read_eq_error {α : Type} (hreply : carrier call = some r) (h : r.Carries text)
    (hstatus : r.isSuccess = true) {reader : Reader α} {f : Failure}
    (hread : carrier.read reader call = .error f) : ∃ text, f = .deserialize text := by
  rw [read_of_success hreply h hstatus] at hread
  cases hbody : readText reader (Reply.readable text) with
  | error fault =>
    rw [hbody] at hread
    cases hread
    exact ⟨_, rfl⟩
  | ok a =>
    rw [hbody] at hread
    cases hread

/-- **A body means what the answer says.** -/
theorem means_iff (hreply : carrier call = some r) (h : r.Carries text)
    (hstatus : r.isSuccess = true) (q : Request) (action : Action) :
    Means (Reply.readable text) q action ↔
      ∃ answer, carrier.answer call q = .ok answer ∧ Action.ofAnswer (.ok answer) = action := by
  have hread {α : Type} {reader : Reader α} {wrap : α → Answer} :
      (∃ answer, (carrier.read reader call).map wrap = .ok answer ∧
        Action.ofAnswer (.ok answer) = action) ↔
      ∃ a, readText reader (Reply.readable text) = .ok a ∧
        Action.ofAnswer (.ok (wrap a)) = action := by
    simp only [map_eq_ok_iff, Carrier.read_eq_ok_iff hreply h hstatus]
    exact exists_exists_and_eq_and
  cases q with
  | fetchAll =>
    rw [means_fetchAll_iff, Carrier.answer, hread]
    simp only [readsAll_iff]
    exact exists_exists_and_eq_and
  | load slug =>
    rw [means_load_iff, Carrier.answer, hread]
    rfl
  | submit sent =>
    rw [means_submit_iff, Carrier.answer, hread]
    simp only [readsOne_or_null_iff]
    exact exists_exists_and_eq_and

/-- A failure of a successful status is one of the body. -/
theorem Carrier.answer_eq_error (hreply : carrier call = some r) (h : r.Carries text)
    (hstatus : r.isSuccess = true) {q : Request} {f : Failure}
    (hanswer : carrier.answer call q = .error f) : ∃ text, f = .deserialize text := by
  have hread {α : Type} {reader : Reader α} {wrap : α → Answer}
      (hmap : (carrier.read reader call).map wrap = .error f) : ∃ text, f = .deserialize text := by
    cases hcall : carrier.read reader call with
    | ok a =>
      rw [hcall] at hmap
      cases hmap
    | error g =>
      rw [hcall] at hmap
      cases hmap
      exact read_eq_error hreply h hstatus hcall
  cases q with
  | fetchAll => exact hread hanswer
  | load slug => exact hread hanswer
  | submit sent => exact hread hanswer

/-- A status of failure is the failure of every request, whatever the body. -/
theorem Carrier.answer_of_refused (hreply : carrier call = some r) (h : r.Carries text)
    (hstatus : r.isSuccess = false) (q : Request) :
    carrier.answer call q = .error (.http r.status (.ofList text)) := by
  have hread {α : Type} (reader : Reader α) :
      carrier.read reader call = .error (.http r.status (.ofList text)) := by
    simp only [read, hreply]
    rw [Reply.read_of_carries h, hstatus]
    rfl
  cases q <;> simp only [answer, hread] <;> rfl

/-- **A status outside 200 to 299 is a failure with the body as it is,** and nothing else is. -/
theorem ofAnswer_eq_http_iff (hreply : carrier call = some r) (h : r.Carries text) (q : Request)
    (status : UInt16) (body : String) :
    Action.ofAnswer (carrier.answer call q) = .fetchError (.http status body) ↔
      ¬ (200 ≤ r.status.toNat ∧ r.status.toNat < 300) ∧ status = r.status ∧
        body = .ofList text := by
  rw [← r.isSuccess_iff]
  cases hsuccess : r.isSuccess with
  | true =>
    refine iff_of_false (fun hfails => ?_) fun hfails => hfails.1 rfl
    -- What a successful status is taken for is the body or its fault.
    cases hanswer : carrier.answer call q with
    | ok answer =>
      rw [hanswer] at hfails
      cases answer <;> cases hfails
    | error f =>
      obtain ⟨fault, rfl⟩ := Carrier.answer_eq_error hreply h hsuccess hanswer
      rw [hanswer] at hfails
      cases hfails
  | false =>
    rw [Carrier.answer_of_refused hreply h hsuccess]
    simp [Action.ofAnswer, eq_comm]

/-- **A body that means nothing to a request is a failure to read it.** -/
theorem ofAnswer_of_not_means (hreply : carrier call = some r) (h : r.Carries text)
    (hstatus : r.isSuccess = true) {q : Request}
    (hnone : ∀ meant, ¬ Means (Reply.readable text) q meant) :
    ∃ fault, Action.ofAnswer (carrier.answer call q) = .fetchError (.deserialize fault) := by
  cases hanswer : carrier.answer call q with
  | ok answer =>
    exact absurd ((means_iff hreply h hstatus q _).mpr ⟨answer, hanswer, rfl⟩) (hnone _)
  | error f =>
    obtain ⟨fault, rfl⟩ := Carrier.answer_eq_error hreply h hstatus hanswer
    exact ⟨fault, rfl⟩

end Success

/-- What was not answered, or not in full, fails like what was not sent. -/
theorem Carrier.answer_of_broken {carrier : Carrier} {call : Call}
    (h : ∀ r, carrier call = some r → r.body = none) (q : Request) :
    ∃ text, carrier.answer call q = .error (.network text) := by
  have hread : ∃ text, ∀ {α : Type} (reader : Reader α),
      carrier.read reader call = .error (.network text) := by
    cases hreply : carrier call with
    | none =>
      refine ⟨"error sending request for url (" ++ call.url.text ++ ")", fun reader => ?_⟩
      simp only [read, hreply]
    | some r =>
      refine ⟨"failed to read body: error decoding response body", fun reader => ?_⟩
      simp only [read, hreply, Reply.read, h r hreply]
  obtain ⟨text, hread⟩ := hread
  refine ⟨text, ?_⟩
  cases q <;> simp only [answer, hread] <;> rfl

/-- What the answer to a request of the present epoch adds to the channel. -/
theorem channel_complete {d : Dispatcher} {id : String} {ticket : Ticket}
    (hticket : d.pending.find? (fun t => t.id == id) = some ticket) (hepoch : ticket.epoch = d.epoch)
    (answer : Except Failure Answer) :
    (d.complete id answer).channel = d.channel ++ [Action.ofAnswer answer] := by
  rw [Dispatcher.complete, hticket]
  exact congrArg Dispatcher.channel (if_pos hepoch)

/-- **Every request ends in one action, which its reply decides in full.**  In turn: the action is
all that a request of the present epoch adds to the channel; a request that is not sent, and a call
that is not answered in full, is a network failure; and so is a status outside 200 to 299 a failure
of its own, with the text of the body untouched.  A body of any other status, read as `null` if it
is blank, is what it means to the request, and a failure to read it if it means nothing; in
particular `null` is never the settings of one stream.  Last, what it is for the items of an array
to read, where no declared name is repeated: their values do.

The text of a body is the decoded one (`Reply.Carries`): a byte order mark in front is no part of
it.  So a failure that has the text untouched does not have the mark. -/
theorem action_perform (c : Client) (carrier : Carrier) (q : Request) :
    let action := Action.ofAnswer (c.perform carrier q)
    (∀ (d : Dispatcher) id ticket, d.pending.find? (fun t => t.id == id) = some ticket →
      ticket.epoch = d.epoch →
        (d.complete id (c.perform carrier q)).channel = d.channel ++ [action]) ∧
    (∀ f, c.callOf q = .error f → ∃ text, action = .fetchError (.network text)) ∧
    (∀ call, c.callOf q = .ok call →
      ((∀ r, carrier call = some r → r.body = none) →
        ∃ text, action = .fetchError (.network text)) ∧
      ∀ r text, carrier call = some r → r.Carries text →
        (∀ status body, action = .fetchError (.http status body) ↔
          ¬ (200 ≤ r.status.toNat ∧ r.status.toNat < 300) ∧
            status = r.status ∧ body = .ofList text) ∧
        (200 ≤ r.status.toNat ∧ r.status.toNat < 300 →
          (∀ meant, Means (Reply.readable text) q meant → action = meant) ∧
          ((∀ meant, ¬ Means (Reply.readable text) q meant) →
            ∃ text, action = .fetchError (.deserialize text)))) ∧
    (∀ body, Grammar.Text body .null → ∀ s, ¬ ReadsOne body s) ∧
    ∀ body items, ArrayOf body items → (∀ o ∈ items, StreamSettings.Unambiguous o) →
      ∀ list, List.Forall₂ (fun o s => StreamSettings.read o = .ok s) items list ↔
        ∃ vs, Grammar.Text body (.array vs) ∧
          List.Forall₂ (fun v s => readValue StreamSettings.read v = .ok s) vs list := by
  intro action
  have haction : ∀ call, c.callOf q = .ok call → action = Action.ofAnswer (carrier.answer call q) := by
    intro call hcall
    change Action.ofAnswer (c.perform carrier q) = _
    rw [c.perform_eq, hcall]
    rfl
  refine ⟨fun d id ticket hticket hepoch => channel_complete hticket hepoch _, fun f hf => ?_,
    fun call hcall => ⟨fun hbroken => ?_, fun r text hreply htext => ⟨fun status body => ?_,
      fun hstatus => ⟨fun meant hmeant => ?_, fun hnone => ?_⟩⟩⟩,
    fun body hnull s => not_readsOne_of_null hnull s, fun body items hitems hsingle list => ?_⟩
  · obtain ⟨text, rfl⟩ := Client.callOf_eq_error hf
    refine ⟨text, ?_⟩
    change Action.ofAnswer (c.perform carrier q) = _
    rw [c.perform_eq, hf]
    rfl
  · obtain ⟨text, htext⟩ := carrier.answer_of_broken hbroken q
    exact ⟨text, by rw [haction call hcall, htext]; rfl⟩
  · rw [haction call hcall]
    exact ofAnswer_eq_http_iff hreply htext q status body
  · have hsuccess := r.isSuccess_iff.mpr hstatus
    obtain ⟨answer, hanswer, rfl⟩ := (means_iff hreply htext hsuccess q meant).mp hmeant
    rw [haction call hcall, hanswer]
  · rw [haction call hcall]
    exact ofAnswer_of_not_means hreply htext (r.isSuccess_iff.mpr hstatus) hnone
  · rw [forall₂_iff_values fun o ho => StreamSettings.read_agrees (hsingle o ho)]
    simp only [hitems.text_iff]

/-- A blank body keeps settings as they were sent, `null` behind an error status is its text, and a
list with one item that does not read is no list. -/
theorem action_perform_blank :
    let c : Client := { base := "http://monitor:8080" }
    let sent : StreamSettings := { slug := "a" }
    let d : Dispatcher := Dispatcher.issue {} "first" (.submit sent)
    let replying (status : UInt16) (text : List Char) : Carrier :=
      fun _ => some ⟨status, some (Text.utf8 text)⟩
    (d.complete "first" (c.perform (replying 204 [' ', '\n']) (.submit sent))).channel =
        [.setStreamSettings sent] ∧
      Action.ofAnswer (c.perform (replying 502 "null".toList) .fetchAll) =
        .fetchError (.http 502 "null") ∧
      ∃ text, Action.ofAnswer (c.perform (replying 200 "[null]".toList) .fetchAll) =
        .fetchError (.deserialize text) := by
  intro c sent d replying
  have hlist : c.callOf .fetchAll = .ok
      { url := { scheme := "http", authority := some { host := .name "monitor", port := some 8080 },
                 path := .segments ["stream", "settings"] },
        body := none } := by decide +kernel
  have hsubmit : c.callOf (.submit sent) = .ok
      { url := { scheme := "http", authority := some { host := .name "monitor", port := some 8080 },
                 path := .segments ["stream", "a", "settings"] },
        body := some sent.document.print } := by decide +kernel
  obtain ⟨henqueued, -, hkept, -⟩ := action_perform c (replying 204 [' ', '\n']) (.submit sent)
  obtain ⟨-, -, hrefused, -⟩ := action_perform c (replying 502 "null".toList) .fetchAll
  obtain ⟨-, -, hunread, -⟩ := action_perform c (replying 200 "[null]".toList) .fetchAll
  refine ⟨?_, ?_, ?_⟩
  · obtain ⟨hmeans, -⟩ := ((hkept _ hsubmit).2 _ [' ', '\n'] rfl (.inr ⟨rfl, by decide⟩)).2
      (by decide)
    rw [henqueued d "first" ⟨"first", .submit sent, 0⟩ (by decide) rfl,
      hmeans _ (.keptAsSent (text_iff_readText.mpr (by decide +kernel)))]
    rfl
  · exact (((hrefused _ hlist).2 _ "null".toList rfl (.inr ⟨rfl, by decide⟩)).1 502 "null").mpr
      ⟨by decide, rfl, rfl⟩
  · refine (((hunread _ hlist).2 _ "[null]".toList rfl (.inr ⟨rfl, by decide⟩)).2 (by decide)).2
      fun meant hmeant => ?_
    obtain ⟨hall⟩ := hmeant
    obtain ⟨list, hread, -⟩ := readsAll_iff.mp hall
    have hfails : (readText (.option (.list StreamSettings.read))
        (Reply.readable "[null]".toList)).isOk = false := by decide +kernel
    rw [hread] at hfails
    cases hfails

end Rest

end StreamBoard

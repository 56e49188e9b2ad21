import StreamBoard.Rest.Client
import StreamBoard.Proofs.Json.Ordering
import StreamBoard.Proofs.Text.Utf8

/-!
# Exchange — a request is one call, and its answer is what the reply means

A request goes to one address with one body (`Client.callOf`), and nothing but what comes back for
that call decides on the answer (`Client.perform_eq`).  A body is a text in UTF-8, and it is read as
that text (`Reply.read_of_carries`); a byte order mark in front of it says how the text is written
and is no part of it.
-/

namespace StreamBoard.Rest

/-! ## 1. Calls -/

/-- The call that a request puts on the wire. -/
def Client.callOf (c : Client) : Request → Except Failure Call
  | .fetchAll => c.call settingsPath none
  | .load slug => c.call (streamSettingsPath slug) none
  | .submit s => c.call (streamSettingsPath s.slug) (some s.document.print)

theorem Client.call_eq (c : Client) (path : String) (body : Option String) :
    c.call path body = (target (join c.base path)).map fun url => { url, body } := by
  unfold call
  cases target (join c.base path) <;> rfl

/-- An address that is not called fails like one that is not reached. -/
theorem target_eq_error {raw : String} {f : Failure} (h : target raw = .error f) :
    ∃ text, f = .network text := by
  unfold target at h
  cases hparse : Url.parse raw with
  | error fault =>
    rw [hparse] at h
    cases h
    exact ⟨_, rfl⟩
  | ok url =>
    simp only [hparse] at h
    split at h
    next => cases h
    next =>
      cases h
      exact ⟨_, rfl⟩

theorem Client.callOf_eq_error {c : Client} {q : Request} {f : Failure}
    (h : c.callOf q = .error f) : ∃ text, f = .network text := by
  have hcall : ∀ path body, c.call path body = .error f → ∃ text, f = .network text := by
    intro path body hcall
    rw [call_eq] at hcall
    cases htarget : target (join c.base path) with
    | error g =>
      rw [htarget] at hcall
      cases hcall
      exact target_eq_error htarget
    | ok url =>
      rw [htarget] at hcall
      cases hcall
  cases q with
  | fetchAll => exact hcall _ _ h
  | load slug => exact hcall _ _ h
  | submit s => exact hcall _ _ h

/-! ## 2. Answers -/

/-- What is read of the reply to a call. -/
def Carrier.read {α : Type} (carrier : Carrier) (reader : Json.Reader α) (call : Call) :
    Except Failure α :=
  match carrier call with
  | none => .error (.network ("error sending request for url (" ++ call.url.text ++ ")"))
  | some reply => reply.read reader

/-- What comes back for a call, as the answer to a request. -/
def Carrier.answer (carrier : Carrier) (call : Call) : Request → Except Failure Answer
  | .fetchAll =>
    (carrier.read (.option (.list StreamSettings.read)) call).map fun list => .all (list.getD [])
  | .load _ => (carrier.read StreamSettings.read call).map .one
  | .submit s => (carrier.read (.option StreamSettings.read) call).map fun kept => .one (kept.getD s)

theorem Client.exchange_eq {α : Type} (c : Client) (carrier : Carrier) (reader : Json.Reader α)
    (path : String) (body : Option String) :
    c.exchange carrier reader path body = c.call path body >>= carrier.read reader :=
  rfl

/-- **A request is one call, and the reply to it is all that counts.** -/
theorem Client.perform_eq (c : Client) (carrier : Carrier) (q : Request) :
    c.perform carrier q = c.callOf q >>= fun call => carrier.answer call q := by
  cases q with
  | fetchAll =>
    simp only [perform, fetchAll, get, exchange_eq, callOf, Carrier.answer]
    cases c.call settingsPath none with
    | error f => rfl
    | ok call =>
      change (carrier.read _ call >>= _).map _ = (carrier.read _ call).map _
      cases carrier.read _ call <;> rfl
  | load slug =>
    simp only [perform, fetch, get, exchange_eq, callOf, Carrier.answer]
    cases c.call (streamSettingsPath slug) none <;> rfl
  | submit s =>
    simp only [perform, submit, post, exchange_eq, callOf, Carrier.answer]
    cases c.call (streamSettingsPath s.slug) (some s.document.print) with
    | error f => rfl
    | ok call =>
      change (carrier.read _ call >>= _).map _ = (carrier.read _ call).map _
      cases carrier.read _ call <;> rfl

/-! ## 3. Bodies -/

/-- The body is this text in UTF-8.  With a byte order mark that holds of every text, and without
one of those that do not begin with its character. -/
def Reply.Carries (r : Reply) (text : List Char) : Prop :=
  r.body = some (Text.byteOrderMark ++ Text.utf8 text) ∨
    r.body = some (Text.utf8 text) ∧ text.head? ≠ some '\ufeff'

/-- **A body is read as the text that it is.** -/
theorem Reply.read_of_carries {α : Type} {r : Reply} {text : List Char} (h : r.Carries text)
    (reader : Json.Reader α) :
    r.read reader =
      if r.isSuccess then
        (Json.readText reader (readable text)).mapError fun fault =>
          .deserialize (fault.describe (readable text))
      else .error (.http r.status (.ofList text)) := by
  obtain ⟨bytes, hbody, hdecode⟩ : ∃ bytes, r.body = some bytes ∧ Text.utf8Decode bytes = text := by
    rcases h with h | ⟨h, hhead⟩
    · exact ⟨_, h, Text.utf8Decode_byteOrderMark text⟩
    · exact ⟨_, h, Text.utf8Decode_utf8 hhead⟩
  rw [read, hbody]
  simp only [hdecode]
  cases Json.readText reader (readable text) <;> rfl

end StreamBoard.Rest

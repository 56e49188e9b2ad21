import StreamBoard.Proofs.Entity.RoundTrip
import StreamBoard.Proofs.Rest.Verdict

/-!
# Echo — two ways of keeping settings

A backend that keeps settings as they were sent may answer with nothing, or with the very body that
it was sent.  The client takes different ways from there: it falls back on the settings in its hand,
or it reads them out of the body.  Both ways end with the same settings (`submit_accepted`), because
settings come back from the text of their document, whatever blanks stand around it.
-/

namespace StreamBoard.Rest

open Json

/-! ## 1. Bodies -/

/-- The body is white space and nothing else. -/
def Reply.IsBlank (r : Reply) : Prop :=
  ∃ text, (∀ c ∈ text, Text.isBlank c = true) ∧ r.body = some (Text.utf8 text)

/-- The body is that of the call, byte for byte, with blanks around it or without. -/
def Reply.Echoes (r : Reply) (call : Call) : Prop :=
  ∃ w body u, Grammar.Blanks w ∧ Grammar.Blanks u ∧ call.body = some body ∧
    r.body = some (Text.utf8 w ++ (Text.utf8 body.toList ++ Text.utf8 u))

theorem readable_of_blank {text : List Char} (h : ∀ c ∈ text, Text.isBlank c = true) :
    Reply.readable text = "null".toList := by
  have htrim : Text.trim text = [] := by
    rw [Text.trim, List.dropWhile_eq_nil_iff.mpr h]
    rfl
  rw [Reply.readable, htrim]
  rfl

/-- Text that is not all white space keeps something when it is trimmed. -/
theorem trim_ne_nil {text : List Char} {c : Char} (hc : c ∈ text) (h : Text.isBlank c = false) :
    Text.trim text ≠ [] := by
  intro htrim
  have hblank : ∀ d ∈ text.dropWhile Text.isBlank, Text.isBlank d = true := by
    intro d hd
    have hreverse := List.reverse_eq_nil_iff.mp htrim
    exact List.dropWhile_eq_nil_iff.mp hreverse d (List.mem_reverse.mpr hd)
  cases hrest : text.dropWhile Text.isBlank with
  | nil =>
    rw [List.dropWhile_eq_nil_iff.mp hrest c hc] at h
    cases h
  | cons d rest =>
    -- What is left begins with something that is no white space.
    have hhead := List.head_dropWhile_not Text.isBlank (l := text) (by simp [hrest])
    simp only [hrest, List.head_cons] at hhead
    rw [hblank d (by simp [hrest])] at hhead
    cases hhead

theorem readable_of_visible {text : List Char} {c : Char} (hc : c ∈ text)
    (h : Text.isBlank c = false) : Reply.readable text = text := by
  have hempty : (Text.trim text).isEmpty = false := by
    rw [Bool.eq_false_iff, ne_eq, List.isEmpty_iff]
    exact trim_ne_nil hc h
  rw [Reply.readable, hempty]
  rfl

theorem utf8_append (s t : List Char) : Text.utf8 (s ++ t) = Text.utf8 s ++ Text.utf8 t :=
  List.flatMap_append

/-- A document of settings is written between braces. -/
theorem exists_text_document (s : StreamSettings) : ∃ rest, s.document.text = '\x7b' :: rest :=
  ⟨_, rfl⟩

/-- Where blanks and a brace begin a text, no byte order mark does. -/
theorem head?_ne_mark {w : List Char} (hw : Grammar.Blanks w) (rest : List Char) :
    (w ++ '\x7b' :: rest).head? ≠ some '\ufeff' := by
  cases w with
  | nil =>
    rw [List.nil_append, List.head?_cons]
    decide
  | cons c w =>
    rw [List.cons_append, List.head?_cons, ne_eq, Option.some.injEq]
    rintro rfl
    have hblank := hw '\ufeff' List.mem_cons_self
    revert hblank
    decide

/-! ## 2. What is kept -/

section Accepted

variable {s : StreamSettings} {c : Client} {call : Call} {carrier : Carrier} {r : Reply}

theorem Client.body_of_submit (h : c.callOf (.submit s) = .ok call) :
    call.body = some s.document.print := by
  have hcall : c.call (streamSettingsPath s.slug) (some s.document.print) = .ok call := h
  rw [Client.call_eq] at hcall
  obtain ⟨url, -, rfl⟩ := map_eq_ok_iff.mp hcall
  rfl

/-- Storing settings ends with those that are read of the reply, or else with those sent. -/
theorem Client.submit_eq (h : c.callOf (.submit s) = .ok call) :
    c.submit carrier s =
      (carrier.read (.option StreamSettings.read) call).map fun kept => kept.getD s := by
  have hcall : c.call (streamSettingsPath s.slug) (some s.document.print) = .ok call := h
  rw [submit, post, exchange_eq, hcall]
  change (carrier.read _ call >>= _) = (carrier.read _ call).map _
  cases carrier.read (.option StreamSettings.read) call <;> rfl

/-- The settings of a request come back from what it sends. -/
theorem readsOne_of_echo (hmade : s.Made) (hintegral : s.document.Integral)
    (hdepth : s.document.depth ≤ depthLimit) {w u : List Char} (hw : Grammar.Blanks w)
    (hu : Grammar.Blanks u) : ReadsOne (w ++ (s.document.text ++ u)) s :=
  readText_of_agrees (StreamSettings.readValue_document hmade.proper)
    (fun _ h => StreamSettings.read_agrees (StreamSettings.unambiguous_of_listed hmade.proper h))
    hintegral hdepth hw hu

/-- Either way the reply is a text that means the settings that were sent. -/
theorem exists_text_of_accepted (hmade : s.Made) (hintegral : s.document.Integral)
    (hdepth : s.document.depth ≤ depthLimit) (hcall : c.callOf (.submit s) = .ok call)
    (haccepted : r.IsBlank ∨ r.Echoes call) :
    ∃ text, r.Carries text ∧
      (ReadsOne (Reply.readable text) s ∨ Grammar.Text (Reply.readable text) .null) := by
  rcases haccepted with ⟨text, hblank, hbody⟩ | ⟨w, body, u, hw, hu, hsent, hbody⟩
  · refine ⟨text, .inr ⟨hbody, fun hmark => ?_⟩, .inr ?_⟩
    · have hmem : '\ufeff' ∈ text := List.mem_of_head? hmark
      exact absurd (hblank _ hmem) (by decide)
    · rw [readable_of_blank hblank]
      exact ⟨[], _, [], rfl, .nil, .scalar .null, .nil⟩
  · have hprint : body.toList = s.document.text := by
      rw [Client.body_of_submit hcall] at hsent
      rw [← Option.some.inj hsent, print, String.toList_ofList]
    obtain ⟨rest, hrest⟩ := exists_text_document s
    rw [hprint, ← utf8_append, ← utf8_append] at hbody
    have hbrace : '\x7b' ∈ w ++ (s.document.text ++ u) := by
      rw [hrest]
      simp
    refine ⟨w ++ (s.document.text ++ u), .inr ⟨hbody, ?_⟩, .inl ?_⟩
    · rw [hrest]
      exact head?_ne_mark hw (rest ++ u)
    · rw [readable_of_visible hbrace (by decide)]
      exact readsOne_of_echo hmade hintegral hdepth hw hu

/-- **A blank reply and an echo mean the same.**  Either way the settings that were sent are the
result, and the answer to a request of the present epoch puts them on the channel. -/
theorem submit_accepted (hmade : s.Made) (hintegral : s.document.Integral)
    (hdepth : s.document.depth ≤ depthLimit) (hcall : c.callOf (.submit s) = .ok call)
    (hreply : carrier call = some r) (hstatus : 200 ≤ r.status.toNat ∧ r.status.toNat < 300)
    (haccepted : r.IsBlank ∨ r.Echoes call) :
    c.submit carrier s = .ok s ∧
      ∀ (d : Dispatcher) id ticket, d.pending.find? (fun t => t.id == id) = some ticket →
        ticket.epoch = d.epoch →
          (d.complete id (c.perform carrier (.submit s))).channel =
            d.channel ++ [.setStreamSettings s] := by
  obtain ⟨text, hcarries, hmeans⟩ :=
    exists_text_of_accepted hmade hintegral hdepth hcall haccepted
  obtain ⟨kept, hread, hkept⟩ :=
    readsOne_or_null_iff.mp (hmeans.imp_right fun hnull => ⟨hnull, rfl⟩)
  have hsuccess := r.isSuccess_iff.mpr hstatus
  have hsubmit : c.submit carrier s = .ok s := by
    rw [Client.submit_eq hcall, (Carrier.read_eq_ok_iff hreply hcarries hsuccess).mpr hread]
    exact congrArg Except.ok hkept
  refine ⟨hsubmit, fun d id ticket hticket hepoch => ?_⟩
  have hperform : c.perform carrier (.submit s) = .ok (.one s) := by
    rw [Client.perform, hsubmit]
    rfl
  rw [channel_complete hticket hepoch, hperform]
  rfl

end Accepted

/-- Settings with a line feed and an undeclared member: an empty reply of white space beyond ASCII,
and an echo between blanks. -/
theorem submit_accepted_notes :
    let c : Client := { base := "http://monitor:8080" }
    let s : StreamSettings :=
      { slug := "a", notes := some "\n", extra := .ofList [("x", .array [.null, .string "é"])] }
    let blank : Carrier := fun _ => some ⟨204, some (Text.utf8 ['\u00a0', '\r', '\n'])⟩
    let echo : Carrier := fun call => some ⟨200, call.body.map fun body =>
      Text.utf8 [' '] ++ (Text.utf8 body.toList ++ Text.utf8 ['\n'])⟩
    c.submit blank s = .ok s ∧ c.submit echo s = .ok s := by
  intro c s blank echo
  have hmade : s.Made := .read (o := .ofValue s.document.ordered)
    (toOption_eq_some_iff.mp (by decide +kernel))
  have hintegral : s.document.Integral := ⟨trivial, trivial, ⟨trivial, trivial, trivial⟩, trivial⟩
  have hdepth : s.document.depth ≤ depthLimit := by decide +kernel
  have hcall : c.callOf (.submit s) = .ok
      { url := { scheme := "http", authority := some { host := .name "monitor", port := some 8080 },
                 path := .segments ["stream", "a", "settings"] },
        body := some s.document.print } := by decide +kernel
  constructor
  · exact (submit_accepted hmade hintegral hdepth hcall rfl (by decide)
      (.inl ⟨_, List.all_eq_true.mp rfl, rfl⟩)).1
  · exact (submit_accepted hmade hintegral hdepth hcall rfl (by decide)
      (.inr ⟨[' '], _, ['\n'], by simp [Grammar.Blanks], by simp [Grammar.Blanks], rfl, rfl⟩)).1

end StreamBoard.Rest

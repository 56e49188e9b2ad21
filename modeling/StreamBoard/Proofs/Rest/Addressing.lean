import StreamBoard.Proofs.Config.Endpoint
import StreamBoard.Proofs.Rest.Exchange
import StreamBoard.Proofs.Rest.Route

/-!
# Addressing — which resource a request is about

Requests are rooted at the origin of the configuration (`join_origin`), and the address that a path
becomes there has the segments of that path (`target_origin`).  So the requests about a stream go to
the path of that stream (`callOf_addresses`), for every slug that an address does not resolve.
-/

namespace StreamBoard.Rest

open Url

/-! ## 1. Paths at an origin -/

section Origin

variable {base : Url} {a : Authority}

theorem origin_toList (hauthority : base.authority = some a) :
    base.origin.toList = base.scheme.toList ++ ':' :: '/' :: '/' :: a.hostText := by
  rw [origin, hauthority, String.toList_ofList]

/-- An origin has no slash at its end, so the path is put behind it as it is. -/
theorem join_origin (hauthority : base.authority = some a) (ha : a.host.Proper)
    {behind : List Char} (hbehind : behind.head? ≠ some '/') :
    join base.origin (.ofList ('/' :: behind)) =
      .ofList (base.scheme.toList ++ ':' :: '/' :: '/' :: (a.hostText ++ '/' :: behind)) := by
  have horigin := origin_toList hauthority
  have hslash : ∀ c ∈ a.hostText, (c == '/') = false := by
    intro c hc
    have hc := (mem_hostText ha hc).2.1
    simp only [isSlash, Bool.true_and, Bool.or_eq_false_iff] at hc
    exact hc.1
  have htrimmed : Text.dropEndWhile (· == '/') base.origin.toList = base.origin.toList := by
    have happend : base.origin.toList = (base.scheme.toList ++ [':', '/', '/']) ++ a.hostText := by
      rw [horigin, List.append_assoc]
      rfl
    rw [happend]
    exact Text.dropEndWhile_append _ (hostText_ne_nil ha) hslash
  have hdrop : ('/' :: behind).dropWhile (· == '/') = behind := by
    rw [List.dropWhile_cons_of_pos rfl, List.dropWhile_eq_self_iff]
    intro hlength hfirst
    rw [List.head?_eq_getElem?, List.getElem?_eq_getElem hlength] at hbehind
    exact hbehind (congrArg some (eq_of_beq hfirst))
  have hne : base.origin.isEmpty = false := by
    rw [String.isEmpty_eq_false_iff]
    intro hempty
    rw [hempty] at horigin
    exact List.append_ne_nil_of_right_ne_nil _ (List.cons_ne_nil _ _) horigin.symm
  have hrelative : ("http://".toList.isPrefixOf ('/' :: behind) ||
      "https://".toList.isPrefixOf ('/' :: behind)) = false := rfl
  simp only [join, String.toList_ofList, hrelative, hne, htrimmed, hdrop, Bool.false_eq_true,
    if_false]
  rw [horigin, List.append_assoc]
  rfl

/-- **A path becomes the path of an address at the origin,** as far as its host can be called. -/
theorem target_origin (hscheme : base.scheme = "http" ∨ base.scheme = "https")
    (hauthority : base.authority = some a) (ha : a.Proper base.scheme)
    {behind : List Char} (hhead : behind.head? ≠ some '/')
    (hbehind : behind.all isInPath = true) :
    let url : Url :=
      { scheme := base.scheme, authority := some a.withoutUser,
        path := .segments ((readSegments .web behind).map .ofList) }
    target (join base.origin (.ofList ('/' :: behind))) =
      if isSendable a.host then .ok url
      else .error (.network ("builder error for url (" ++ url.text ++ ")")) := by
  intro url
  have hparse : Url.parse (join base.origin (.ofList ('/' :: behind))) = .ok url := by
    rw [join_origin hauthority ha.host hhead, Url.parse, String.toList_ofList,
      ofList_web (Config.ofScheme_of_base hscheme) ha hbehind]
  have hhost : url.hasHost = true := by
    change (!a.host.isEmpty) = true
    rw [Host.isEmpty_of_proper ha.host]
    rfl
  have hkept : url.withoutUser = url := rfl
  simp only [target, hparse, hkept, hhost, true_and]
  by_cases hsendable : isSendable a.host = true
  · rw [if_pos ⟨hscheme, hsendable⟩, if_pos hsendable]
  · rw [if_neg fun h => hsendable h.2, if_neg hsendable]

end Origin

/-! ## 2. Requests -/

/-- The slug of the stream that a request is about. -/
def slug? : Request → Option String
  | .fetchAll => none
  | .load slug => some slug
  | .submit s => some s.slug

/-- The call goes to this path at the server of a base address. -/
structure Call.Addresses (call : Call) (base : Url) (path : String) : Prop where
  scheme : call.url.scheme = base.scheme
  authority : call.url.authority = base.authority.map Authority.withoutUser
  path : call.url.path.text = path.toList
  query : call.url.query = none
  fragment : call.url.fragment = none

/-- The segments at which a request arrives. -/
def arrival : Request → List String
  | .fetchAll => ["stream", "settings"]
  | .load slug => reached slug
  | .submit s => reached s.slug

theorem arrival_of_slug {q : Request} {slug : String} (h : slug? q = some slug) :
    arrival q = reached slug := by
  cases q <;> cases h <;> rfl

/-- A base address that is accepted has a host and a port that come back from their text. -/
theorem proper_of_readBaseUrl {raw : String} {base : Url}
    (h : Config.readBaseUrl raw = .ok base) :
    (base.scheme = "http" ∨ base.scheme = "https") ∧
      ∃ a, base.authority = some a ∧ a.Proper base.scheme := by
  obtain ⟨hscheme, a, hwritten⟩ := Config.written_of_readBaseUrl h
  exact ⟨hscheme, a, hwritten.authority, hwritten.proper⟩

section Arrival

variable {base : Url} {a : Authority} (hscheme : base.scheme = "http" ∨ base.scheme = "https")
  (hauthority : base.authority = some a) (ha : a.Proper base.scheme)

include hscheme hauthority ha

/-- **A request arrives at the segments of its path,** as far as the host can be called. -/
theorem callOf_origin (q : Request) :
    let url : Url :=
      { scheme := base.scheme, authority := some a.withoutUser, path := .segments (arrival q) }
    ∃ body, ({ base := base.origin } : Client).callOf q =
      if isSendable a.host then .ok { url, body }
      else .error (.network ("builder error for url (" ++ url.text ++ ")")) := by
  intro url
  have hcall : ∀ behind body, behind.head? ≠ some '/' →
      behind.all isInPath = true →
      (readSegments .web behind).map .ofList = arrival q →
      ({ base := base.origin } : Client).call (.ofList ('/' :: behind)) body =
        if isSendable a.host then .ok { url, body }
        else .error (.network ("builder error for url (" ++ url.text ++ ")")) := by
    intro behind body hhead hbehind hsegments
    rw [Client.call_eq, target_origin hscheme hauthority ha hhead hbehind, hsegments]
    split <;> rfl
  have hslug : ∀ slug body, arrival q = reached slug →
      ({ base := base.origin } : Client).call (streamSettingsPath slug) body =
        if isSendable a.host then .ok { url, body }
        else .error (.network ("builder error for url (" ++ url.text ++ ")")) := by
    intro slug body hq
    rw [streamSettingsPath_eq]
    have hhead : (behindSlash slug).head? = some 's' := rfl
    exact hcall _ body (by rw [hhead]; decide) (all_behindSlash slug)
      ((readSegments_behindSlash slug).trans hq.symm)
  cases q with
  | fetchAll =>
    exact ⟨_, hcall "stream/settings".toList none (by decide) (by decide) (by decide +kernel)⟩
  | load slug => exact ⟨_, hslug slug none rfl⟩
  | submit s => exact ⟨_, hslug s.slug (some s.document.print) rfl⟩

/-- **A call goes to the path of its request.** -/
theorem addresses_of_callOf {q : Request} {call : Call} {path : String}
    (hcall : ({ base := base.origin } : Client).callOf q = .ok call)
    (hpath : (Path.segments (arrival q)).text = path.toList) : call.Addresses base path := by
  obtain ⟨body, hbody⟩ := callOf_origin hscheme hauthority ha q
  rw [hbody] at hcall
  split at hcall
  next =>
    cases hcall
    exact ⟨rfl, by rw [hauthority]; rfl, hpath, rfl, rfl⟩
  next => cases hcall

theorem addresses_reachedPath {q : Request} {call : Call} {slug : String}
    (hq : slug? q = some slug)
    (hcall : ({ base := base.origin } : Client).callOf q = .ok call) :
    call.Addresses base (reachedPath slug) := by
  refine addresses_of_callOf hscheme hauthority ha hcall ?_
  rw [arrival_of_slug hq, text_reached]

end Arrival

/-- **The requests about a stream go to the path of that stream.**  In turn: as far as its host can
be called, every request is sent to the server of the base address, and the reply to its call is all
that counts; a slug that is not a dot or two arrives at its own path, `.` at the path of the list,
and `..` above it; different slugs arrive at different paths; and in its path a slug is one segment,
from which it comes back. -/
theorem callOf_addresses {raw : String} {c : Config} (h : Config.readBaseUrl raw = .ok c.baseUrl) :
    let client : Client := { base := c.origin }
    (∀ q, (∃ call, client.callOf q = .ok call) ↔
      c.baseUrl.authority.any (fun a => isSendable a.host) = true) ∧
    (∀ q call, client.callOf q = .ok call →
      ∀ carrier, client.perform carrier q = carrier.answer call q) ∧
    (∀ call, client.callOf .fetchAll = .ok call → call.Addresses c.baseUrl settingsPath) ∧
    (∀ q slug call, slug? q = some slug → client.callOf q = .ok call →
      (slug ≠ "." → slug ≠ ".." → call.Addresses c.baseUrl (streamSettingsPath slug)) ∧
      (slug = "." → call.Addresses c.baseUrl settingsPath) ∧
      (slug = ".." → call.Addresses c.baseUrl "/settings")) ∧
    (∀ q q' slug slug' call call', slug? q = some slug → slug? q' = some slug' →
      client.callOf q = .ok call → client.callOf q' = .ok call' →
        call.url.path.text = call'.url.path.text → slug = slug') ∧
    ∀ slug, streamSettingsPath slug ≠ settingsPath ∧
      ∃ s, streamSettingsPath slug = "/stream/" ++ .ofList s ++ "/settings" ∧
        (∀ ch ∈ s, ch ≠ '/') ∧ Text.percentDecode s = Text.utf8 slug.toList := by
  intro client
  obtain ⟨hscheme, a, hauthority, ha⟩ := proper_of_readBaseUrl h
  have hany : c.baseUrl.authority.any (fun a => isSendable a.host) = isSendable a.host := by
    rw [hauthority]
    rfl
  have hslug : ∀ q slug call, slug? q = some slug → client.callOf q = .ok call →
      call.Addresses c.baseUrl (reachedPath slug) := fun q slug call hq hcall =>
    addresses_reachedPath hscheme hauthority ha hq hcall
  refine ⟨fun q => ?_, fun q call hcall carrier => ?_, fun call hcall => ?_,
    fun q slug call hq hcall => ⟨fun hdot hdots => ?_, ?_, ?_⟩, fun q q' slug slug' call call' hq hq'
      hcall hcall' hpath => ?_, fun slug => ⟨?_, segment slug, rfl, fun ch hch => ?_, ?_⟩⟩
  · obtain ⟨body, hbody⟩ := callOf_origin hscheme hauthority ha q
    rw [hany, show client.callOf q = _ from hbody]
    cases isSendable a.host <;> simp
  · rw [client.perform_eq, hcall]
    rfl
  · exact addresses_of_callOf hscheme hauthority ha hcall (by decide +kernel)
  · have h := hslug q slug call hq hcall
    rwa [reachedPath, if_neg hdot, if_neg hdots] at h
  · rintro rfl
    exact hslug q "." call hq hcall
  · rintro rfl
    exact hslug q ".." call hq hcall
  · rw [(hslug q slug call hq hcall).path, (hslug q' slug' call' hq' hcall').path] at hpath
    exact reachedPath_injective (String.toList_injective hpath)
  · exact streamSettingsPath_ne (by decide) slug
  · rintro rfl
    have hslash := (mem_segment hch).2.1
    cases hslash
  · exact percentDecode_segment slug

/-- A slug with a slash is one segment, below a base that has a path of its own. -/
theorem callOf_addresses_slash :
    let base : Url :=
      { scheme := "http", authority := some { host := .name "monitor", port := some 8080 },
        path := .segments ["app"], query := some "x" }
    ∃ call, ({ base := base.origin } : Client).callOf (.load "a/b") = .ok call ∧
      call.Addresses base "/stream/a%2Fb/settings" := by
  intro base
  have hread : Config.readBaseUrl " HTTP://Monitor:8080/app?x" = .ok base := by decide +kernel
  obtain ⟨hsent, -, -, hslug, -⟩ := callOf_addresses (c := { baseUrl := base }) hread
  obtain ⟨call, hcall⟩ := (hsent (.load "a/b")).mpr (by decide +kernel)
  have hpath : streamSettingsPath "a/b" = "/stream/a%2Fb/settings" := by decide +kernel
  have haddresses := (hslug _ "a/b" call rfl hcall).1 (by decide) (by decide)
  rw [hpath] at haddresses
  exact ⟨call, hcall, haddresses⟩

/-- The settings of the stream with the slug `.` are asked for at the path of the list. -/
theorem exists_not_addressed :
    ∃ base call, Config.readBaseUrl "http://monitor:8080" = .ok base ∧
      ({ base := base.origin } : Client).callOf (.load ".") = .ok call ∧
      call.url.path.text = settingsPath.toList ∧
      call.url.path.text ≠ (streamSettingsPath ".").toList :=
  ⟨{ scheme := "http", authority := some { host := .name "monitor", port := some 8080 },
      path := .segments [""] },
    { url :=
        { scheme := "http", authority := some { host := .name "monitor", port := some 8080 },
          path := .segments ["stream", "settings"] },
      body := none },
    by decide +kernel, by decide +kernel, by decide +kernel, by decide +kernel⟩

end StreamBoard.Rest

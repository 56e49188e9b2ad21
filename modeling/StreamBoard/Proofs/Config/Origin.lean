import StreamBoard.Dashboard
import StreamBoard.Proofs.Rest.Addressing

/-!
# Origin — one server, however its address is written

A base address is read from its text as it is, and its origin is read as the root of its server
(`ofList_origin`), which has the same origin.  So a configuration that is made from either goes to
the server of the first (`ofUrl_baseUrl_origin`).
-/

namespace StreamBoard

/-! ## 1. Roots -/

namespace Url

/-- The root of the server of an address. -/
def root (u : Url) : Url :=
  { scheme := u.scheme, authority := u.authority.map Authority.withoutUser,
    path := .segments [""] }

/-- A host and its port hold no mark of any other part. -/
theorem not_mark_of_mem_hostText {a : Authority} (h : a.host.Proper) :
    ∀ c ∈ a.hostText, c ∉ ['/', '\\', '?', '#', '@'] := by
  intro c hc hmark
  obtain ⟨-, hslash, htail, hsign⟩ := mem_hostText h hc
  simp only [List.mem_cons, List.not_mem_nil, or_false] at hmark
  rcases hmark with rfl | rfl | rfl | rfl | rfl
  · cases hslash
  · cases hslash
  · cases htail
  · cases htail
  · exact hsign rfl

section Root

variable {u : Url} {a : Authority} (h : Written u a)

include h

theorem written_root : Written u.root a.withoutUser where
  authority := by
    rw [root, h.authority]
    rfl
  proper := ⟨h.proper.host, h.proper.port⟩
  user := a.userProper_withoutUser
  path := isPath_readPath []
  query := fun q hq => absurd hq (Option.not_mem_none q)
  fragment := fun f hf => absurd hf (Option.not_mem_none f)

theorem origin_eq : u.origin = .ofList (u.scheme.toList ++ ':' :: '/' :: '/' :: a.hostText) := by
  rw [origin, h.authority]

theorem origin_root : u.root.origin = u.origin := by
  rw [origin_eq h, origin_eq (written_root h)]
  rfl

/-- Between an origin and the text of its root there is one slash. -/
theorem chars_root : u.root.chars = u.origin.toList ++ ['/'] := by
  rw [(written_root h).chars_eq, origin_eq h, String.toList_ofList, List.append_assoc]
  rfl

theorem text_root : u.root.text = u.origin ++ "/" := by
  apply String.toList_injective
  rw [text, String.toList_ofList, chars_root h, String.toList_append]
  rfl

/-- **An origin is read as the root of its server.** -/
theorem ofList_origin (hweb : Kind.ofScheme u.scheme = .web) :
    ofList u.origin.toList = .ok u.root := by
  have hproper := (written_root h).proper
  have hread : ofList (u.scheme.toList ++ ':' :: '/' :: '/' :: (a.withoutUser.text ++ [])) =
      .ok (assemble u.scheme .web (some a.withoutUser) (readPath .web) []) :=
    ofList_text hweb hproper a.userProper_withoutUser (fun _ hc => absurd hc List.not_mem_nil)
      fun c hc => absurd hc (Option.not_mem_none c)
  rw [List.append_nil, a.text_withoutUser] at hread
  rw [origin_eq h, String.toList_ofList, hread, root, h.authority]
  rfl

end Root

theorem effectivePort?_root (u : Url) : u.root.effectivePort? = u.effectivePort? := by
  unfold effectivePort? root
  cases u.authority <;> rfl

end Url

/-! ## 2. Configurations -/

namespace Config

open Url

/-- Text without blanks that is an address is accepted as a base address. -/
theorem ofUrl_ofList {s : List Char} {u : Url} (hs : ∀ c ∈ s, IsVisible c)
    (hread : ofList s = .ok u) (hscheme : u.scheme = "http" ∨ u.scheme = "https")
    (hhost : u.hasHost = true) : ofUrl (.ofList s) = .ok { baseUrl := u } := by
  have hblank : ∀ c ∈ s, Text.isBlank c = false := by
    intro c hc
    refine Text.forall_ascii (P := fun c => IsVisible c → Text.isBlank c = false) ?_ (hs c hc).2
      (hs c hc)
    decide +kernel
  refine ofUrl_eq_ok_iff.mpr ⟨readBaseUrl_eq_ok_iff.mpr ⟨?_, hscheme, hhost⟩, rfl⟩
  rw [String.toList_ofList, Text.trim, Text.dropEndWhile_dropWhile_eq_self hblank, hread]

section Written

variable {u : Url} {a : Authority} (h : Written u a)
  (hscheme : u.scheme = "http" ∨ u.scheme = "https")

include h hscheme

/-- **A base address is accepted as it is written.** -/
theorem ofUrl_text : ofUrl u.text = .ok { baseUrl := u } := by
  have hweb := ofScheme_of_base hscheme
  have hchars : ∀ c ∈ u.chars, IsVisible c := fun c hc => isVisible_of_mem_chars h hweb hc
  exact ofUrl_ofList hchars (ofList_chars h hweb) hscheme h.hasHost

/-- **An origin is accepted,** and the base address is the root of its server. -/
theorem ofUrl_origin : ofUrl u.origin = .ok { baseUrl := u.root } := by
  have hweb := ofScheme_of_base hscheme
  -- The origin is the front of the text of its root.
  have hchars : ∀ c ∈ u.origin.toList, IsVisible c := fun c hc =>
    isVisible_of_mem_chars (written_root h) hweb (by
      rw [chars_root h]
      exact List.mem_append_left _ hc)
  have hread := ofUrl_ofList hchars (ofList_origin h hweb) hscheme (written_root h).hasHost
  rwa [String.ofList_toList] at hread

end Written

/-- One server is addressed, perhaps by different users and for different things. -/
structure SameServer (u v : Url) : Prop where
  host : u.authority.map Authority.host = v.authority.map Authority.host
  port : u.effectivePort? = v.effectivePort?

/-- **Every call of a dashboard goes to the server of its push endpoint.** -/
theorem sameServer_of_callOf {c : Config} {a : Authority} (h : Written c.baseUrl a)
    (hscheme : c.baseUrl.scheme = "http" ∨ c.baseUrl.scheme = "https") {u : Url}
    (hu : c.socketUrl = .ok u) {q : Request} {call : Rest.Call}
    (hcall : ({ base := c.origin } : Rest.Client).callOf q = .ok call) :
    SameServer call.url u := by
  rw [socketUrl_eq h hscheme] at hu
  cases hu
  have haddress := Rest.addresses_of_callOf hscheme h.authority h.proper hcall
    String.toList_ofList.symm
  have hauthority : call.url.authority = some a.withoutUser := by
    rw [haddress.authority, h.authority]
    rfl
  refine ⟨by rw [hauthority]; rfl, ?_⟩
  rw [effectivePort?_endpoint h hscheme]
  simp only [effectivePort?, hauthority, haddress.scheme, h.authority, Authority.withoutUser]

/-- **Base address and origin are read as what they were written for.**  The text of the base
address gives the same configuration.  The origin has nothing but scheme, host and port; the
configuration that it gives has the root of the same server as its base address, the same origin,
and the same push endpoint but for the user; and a dashboard talks to one server only. -/
theorem ofUrl_baseUrl_origin {raw : String} {c : Config} (h : ofUrl raw = .ok c) :
    ofUrl c.baseUrl.text = .ok c ∧
    ∃ a u c', c.baseUrl.authority = some a ∧ c.socketUrl = .ok u ∧
      c.origin.toList = c.baseUrl.scheme.toList ++ "://".toList ++ a.hostText ∧
      (∀ ch ∈ a.hostText, ch ∉ ['/', '\\', '?', '#', '@']) ∧
      c.origin.toList.getLast? ≠ some '/' ∧
      ofUrl c.origin = .ok c' ∧
      c'.baseUrl.scheme = c.baseUrl.scheme ∧ SameServer c'.baseUrl c.baseUrl ∧
      c'.baseUrl.text = c.origin ++ "/" ∧ c'.origin = c.origin ∧
      c'.socketUrl = .ok u.withoutUser ∧
      ∀ subscribers, ∃ d, Dashboard.start c subscribers = .ok d ∧ d.endpoint = u ∧
        ∀ q call, d.client.callOf q = .ok call → SameServer call.url d.endpoint := by
  obtain ⟨hbase, hreconnect⟩ := ofUrl_eq_ok_iff.mp h
  obtain ⟨hscheme, a, hwritten⟩ := written_of_readBaseUrl hbase
  have hself : ({ baseUrl := c.baseUrl } : Config) = c := by rw [← hreconnect]
  have hsocket := socketUrl_eq hwritten hscheme
  have hmarks := not_mark_of_mem_hostText hwritten.proper.host
  have horigin : c.origin.toList = c.baseUrl.scheme.toList ++ "://".toList ++ a.hostText := by
    rw [Config.origin, origin_eq hwritten, String.toList_ofList, List.append_assoc]
    rfl
  refine ⟨?_, a, _, { baseUrl := c.baseUrl.root }, hwritten.authority, hsocket, horigin, hmarks, ?_,
    ofUrl_origin hwritten hscheme, rfl, ⟨?_, effectivePort?_root _⟩, text_root hwritten,
    origin_root hwritten, socketUrl_eq (written_root hwritten) hscheme, fun subscribers => ?_⟩
  · rw [← hself]
    exact ofUrl_text hwritten hscheme
  · rw [horigin, List.getLast?_append_of_ne_nil _ (hostText_ne_nil hwritten.proper.host)]
    exact fun hlast => hmarks '/' (List.mem_of_getLast? hlast) List.mem_cons_self
  · rw [root, hwritten.authority]
    rfl
  · refine ⟨⟨c, _, .start {} subscribers, { policy := c.reconnect }⟩, ?_, rfl,
      fun q call hcall => sameServer_of_callOf hwritten hscheme hsocket hcall⟩
    rw [Dashboard.start, hsocket]
    rfl

/-- One slash in front of a user, zeros in the host and the port, and a path that goes up. -/
theorem ofUrl_baseUrl_origin_ipv6 :
    ∃ c c', ofUrl "http:/Me@[0:0::1]:08080//x/%2E%2e/y?q" = .ok c ∧
      ofUrl "http://Me@[::1]:8080//y?q" = .ok c ∧
      ofUrl "http://[::1]:8080" = .ok c' ∧ c'.baseUrl.text = "http://[::1]:8080/" ∧
      c'.origin = "http://[::1]:8080" := by
  let host : Host := .ipv6 ⟨[0, 0, 0, 0, 0, 0, 0, 1], rfl⟩
  let c : Config :=
    { baseUrl :=
        { scheme := "http", authority := some { username := "Me", host, port := some 8080 },
          path := .segments ["", "y"], query := some "q" } }
  have hread : ofUrl "http:/Me@[0:0::1]:08080//x/%2E%2e/y?q" = .ok c := by decide +kernel
  obtain ⟨htext, a, u, c', -, -, -, -, -, hread', -, -, hroot, horigin, -⟩ :=
    ofUrl_baseUrl_origin hread
  have hwritten : c.baseUrl.text = "http://Me@[::1]:8080//y?q" ∧
      c.origin = "http://[::1]:8080" := by decide +kernel
  rw [hwritten.1] at htext
  rw [hwritten.2] at hread' hroot horigin
  exact ⟨c, c', hread, htext, hread', hroot, horigin⟩

end Config

end StreamBoard

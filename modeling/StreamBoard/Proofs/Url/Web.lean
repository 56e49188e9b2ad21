import StreamBoard.Proofs.Url.Authority

/-!
# Web — addresses of known schemes

Behind scheme and authority a path is read (`ofList_text`), and every address of a known scheme that
was read is one of which that holds (`proper_of_ofList`).
-/

namespace StreamBoard.Url

/-! ## 1. Text -/

theorem clean_eq_self {s : List Char} (h : ∀ c ∈ s, 0x20 < c.toNat) : clean s = s := by
  have hedge : ∀ c ∈ s, decide (c ≤ ' ') = false := by
    refine fun c hc => decide_eq_false fun hle => ?_
    have hle : c.toNat ≤ 0x20 := hle
    have := h c hc
    omega
  rw [clean, Text.dropEndWhile_dropWhile_eq_self hedge, List.filter_eq_self]
  intro c hc
  have hmark : ∀ d : Char, d.toNat ≤ 0x20 → (c == d) = false := by
    intro d hd
    refine beq_false_of_ne ?_
    rintro rfl
    have := h c hc
    omega
  simp [hmark '\t' (by decide), hmark '\n' (by decide), hmark '\r' (by decide)]

/-- A character that is not dropped from an address and does not end its path. -/
def isInPath (c : Char) : Bool := 0x20 < c.toNat && !startsTail c

theorem isInPath_iff {c : Char} :
    isInPath c = true ↔ 0x20 < c.toNat ∧ startsTail c = false := by
  rw [isInPath, Bool.and_eq_true, decide_eq_true_eq, Bool.not_eq_true']

theorem scheme_of_web {scheme : String} (h : Kind.ofScheme scheme = .web) :
    scheme = "http" ∨ scheme = "https" ∨ scheme = "ws" ∨ scheme = "wss" ∨ scheme = "ftp" := by
  unfold Kind.ofScheme at h
  split at h
  next hknown => simpa using hknown
  next =>
    split at h
    next => cases h
    next => cases h

theorem isSome_defaultPort? {scheme : String} (h : Kind.ofScheme scheme = .web) :
    (defaultPort? scheme).isSome = true := by
  rcases scheme_of_web h with rfl | rfl | rfl | rfl | rfl <;> rfl

theorem splitScheme?_web {scheme : String} (h : Kind.ofScheme scheme = .web) (rest : List Char) :
    splitScheme? (scheme.toList ++ ':' :: rest) = some (scheme, rest) := by
  rcases scheme_of_web h with rfl | rfl | rfl | rfl | rfl <;> rfl

theorem isVisible_of_mem_scheme {scheme : String} (h : Kind.ofScheme scheme = .web) {c : Char}
    (hc : c ∈ scheme.toList) : IsVisible c := by
  have hletters : scheme.toList.all (fun c => decide (IsVisible c)) = true := by
    rcases scheme_of_web h with rfl | rfl | rfl | rfl | rfl <;> decide
  exact of_decide_eq_true (List.all_eq_true.mp hletters c hc)

/-! ## 2. Reading -/

section Reading

variable {scheme : String} {a : Authority} (hweb : Kind.ofScheme scheme = .web)
  (ha : a.Proper scheme)

include hweb ha

/-- **Behind scheme and authority a path is read.** -/
theorem ofList_text (huser : a.UserProper) {tail : List Char} (hchars : ∀ c ∈ tail, 0x20 < c.toNat)
    (htail : ∀ c ∈ tail.head?, (isSlash true c || startsTail c) = true) :
    ofList (scheme.toList ++ ':' :: '/' :: '/' :: (a.text ++ tail)) =
      .ok (assemble scheme .web (some a) (readPath .web) tail) := by
  have hclean : clean (scheme.toList ++ ':' :: '/' :: '/' :: (a.text ++ tail)) =
      scheme.toList ++ ':' :: '/' :: '/' :: (a.text ++ tail) := by
    apply clean_eq_self
    simp only [List.mem_append, List.mem_cons]
    rintro c (hc | rfl | rfl | rfl | hc | hc)
    · exact (isVisible_of_mem_scheme hweb hc).1
    · decide
    · decide
    · decide
    · exact (mem_text ha.host huser hc).1.1
    · exact hchars c hc
  -- No authority begins with a slash, so those in front of it are all dropped.
  have hslashes : ('/' :: '/' :: (a.text ++ tail)).dropWhile (isSlash true) = a.text ++ tail := by
    have hne : a.text ≠ [] := List.append_ne_nil_of_right_ne_nil _ (hostText_ne_nil ha.host)
    obtain ⟨c, s, hs⟩ := List.exists_cons_of_ne_nil hne
    have hc := (mem_text ha.host huser (hs ▸ List.mem_cons_self)).2.1
    rw [List.dropWhile_cons_of_pos rfl, List.dropWhile_cons_of_pos rfl, hs, List.cons_append,
      List.dropWhile_cons_of_neg]
    rw [hc]
    exact Bool.false_ne_true
  rw [ofList, hclean, splitScheme?_web hweb]
  simp only [hweb, hslashes]
  exact readWithAuthority_text ha huser htail

/-- **Behind scheme, host and port a path is read,** and there is no user. -/
theorem ofList_web {behind : List Char} (hbehind : behind.all isInPath = true) :
    ofList (scheme.toList ++ ':' :: '/' :: '/' :: (a.hostText ++ '/' :: behind)) =
      .ok { scheme, authority := some a.withoutUser,
            path := .segments ((readSegments .web behind).map .ofList) } := by
  have hinPath : ∀ c ∈ '/' :: behind, 0x20 < c.toNat ∧ startsTail c = false := by
    intro c hc
    rcases List.mem_cons.mp hc with rfl | hc
    · decide
    · exact isInPath_iff.mp (List.all_eq_true.mp hbehind c hc)
  have hpath : ∀ c ∈ '/' :: behind, (!startsTail c) = true := fun c hc => by
    rw [(hinPath c hc).2]
    rfl
  have hproper : a.withoutUser.Proper scheme := ⟨ha.host, ha.port⟩
  have hread := ofList_text hweb hproper a.userProper_withoutUser
    (fun c hc => (hinPath c hc).1) (by rintro c ⟨⟩; rfl)
  rw [a.text_withoutUser] at hread
  rw [hread, assemble, List.takeWhile_eq_self_iff.mpr hpath, List.dropWhile_eq_nil_iff.mpr hpath]
  rfl

end Reading

/-! ## 3. Addresses that were read -/

theorem scheme_of_readFile {scheme : String} {s : List Char} {u : Url}
    (h : readFile scheme s = .ok u) : u.scheme = scheme := by
  simp only [readFile] at h
  -- In each case a drive may take the place of the host; the scheme is that of the text.
  split at h
  next =>
    split at h
    next =>
      split at h
      next =>
        cases h
        split <;> first | rfl | (split <;> rfl)
      next =>
        obtain ⟨host, -, h⟩ := Json.bind_eq_ok_iff.mp h
        cases h
        split <;> first | rfl | (split <;> rfl)
    next =>
      cases h
      split <;> first | rfl | (split <;> rfl)
  next =>
    cases h
    split <;> first | rfl | (split <;> rfl)

/-- **An address of a known scheme comes back from its text as far as its path,** if it has a
host. -/
theorem proper_of_ofList {s : List Char} {u : Url} (h : ofList s = .ok u)
    (hweb : Kind.ofScheme u.scheme = .web) (hhost : u.hasHost = true) :
    ∃ a tail, u = assemble u.scheme .web (some a) (readPath .web) tail ∧ a.Proper u.scheme ∧
      a.UserProper := by
  unfold ofList at h
  split at h
  next => cases h
  next scheme rest hsplit =>
    split at h
    next hkind =>
      obtain ⟨a, tail, rfl, ha, huser⟩ :=
        proper_of_readWithAuthority (isSome_defaultPort? hkind) h hhost
      exact ⟨a, tail, rfl, ha, huser⟩
    -- The scheme of the text is that of the address, so no other kind of text gives one.
    next hkind =>
      rw [scheme_of_readFile h] at hweb
      rw [hweb] at hkind
      cases hkind
    next hkind =>
      have hother : u.scheme = scheme := by
        split at h
        next =>
          obtain ⟨_, _, _, _, _, -, -, rfl⟩ := readWithAuthority_eq_ok h
          rfl
        next =>
          cases h
          rfl
      rw [hother] at hweb
      rw [hweb] at hkind
      cases hkind

end StreamBoard.Url

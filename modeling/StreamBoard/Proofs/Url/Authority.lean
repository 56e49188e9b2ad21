import StreamBoard.Proofs.Json.Ordering
import StreamBoard.Proofs.Url.Host
import StreamBoard.Proofs.Url.Plain

/-!
# Authority — user, host and port in front of a path

An authority is read from its text, with what stands behind it left for the path
(`readWithAuthority_text`), and every authority of a known scheme that was read is one of which that
holds (`proper_of_readWithAuthority`).
-/

namespace StreamBoard.Url

/-! ## 1. User information -/

/-- User information as it is kept: all in it stands for itself. -/
structure Authority.UserProper (a : Authority) : Prop where
  username : ∀ c ∈ a.username.toList, isKept userInfoMarks c = true
  password : ∀ p ∈ a.password, p ≠ "" ∧ ∀ c ∈ p.toList, isKept userInfoMarks c = true

/-- What stands in front of the sign that ends user information. -/
def Authority.userPart (a : Authority) : List Char :=
  a.username.toList ++ a.password.elim [] fun password => ':' :: password.toList

theorem Authority.userText_eq (a : Authority) :
    a.userText = if a.userPart.isEmpty then [] else a.userPart ++ ['@'] := by
  obtain ⟨username, password, _, _⟩ := a
  cases password with
  | none =>
    simp only [userText, userPart, Option.elim_none, List.append_nil, String.isEmpty_iff,
      List.isEmpty_iff, String.toList_eq_nil_iff]
  | some password =>
    simp [userText, userPart]

theorem Authority.text_withoutUser (a : Authority) : a.withoutUser.text = a.hostText := rfl

theorem Authority.userProper_withoutUser (a : Authority) : a.withoutUser.UserProper :=
  ⟨fun _ hc => absurd hc List.not_mem_nil, fun _ hp => nomatch hp⟩

/-- **User name and password are read from their text.** -/
theorem readUser_userPart {a : Authority} (h : a.UserProper) :
    readUser a.userPart = (a.username, a.password) := by
  obtain ⟨username, password, host, port⟩ := a
  obtain ⟨husername, hpassword⟩ := h
  have hcolon : ∀ c ∈ username.toList, (c != ':') = true := fun c hc =>
    bne_iff_ne.mpr (ne_of_isKept (husername c hc) (by decide))
  have hname : String.ofList (encode userInfoMarks username.toList) = username := by
    rw [encode_eq_self husername, String.ofList_toList]
  cases password with
  | none =>
    have htake := List.takeWhile_eq_self_iff.mpr hcolon
    have hdrop := List.dropWhile_eq_nil_iff.mpr hcolon
    simp only [readUser, Authority.userPart, Option.elim_none, List.append_nil, htake, hdrop, hname]
  | some password =>
    obtain ⟨hne, hkept⟩ := hpassword password rfl
    -- The first colon ends the name, and a password is not empty.
    have htake : (username.toList ++ ':' :: password.toList).takeWhile (· != ':') =
        username.toList := by
      rw [List.takeWhile_append_of_pos hcolon, List.takeWhile_cons_of_neg (by decide),
        List.append_nil]
    have hdrop : (username.toList ++ ':' :: password.toList).dropWhile (· != ':') =
        ':' :: password.toList := by
      rw [List.dropWhile_append_of_pos hcolon, List.dropWhile_cons_of_neg (by decide)]
    obtain ⟨c, s, hs⟩ := List.exists_cons_of_ne_nil (mt String.toList_eq_nil_iff.mp hne)
    have hword : String.ofList (encode userInfoMarks (c :: s)) = password := by
      rw [← hs, encode_eq_self hkept, String.ofList_toList]
    simp only [readUser, Authority.userPart, Option.elim_some, htake, hdrop, hname]
    rw [hs]
    exact congrArg (fun word => (username, some word)) hword

/-- What was read is user information as it is kept. -/
theorem userProper_of_readUser {s : List Char} {a : Authority}
    (h : readUser s = (a.username, a.password)) : a.UserProper := by
  have hkept : ∀ t : List Char, ∀ c ∈ (String.ofList (encode userInfoMarks t)).toList,
      isKept userInfoMarks c = true := by
    intro t c hc
    rw [String.toList_ofList] at hc
    exact isKept_of_mem (by decide) hc
  unfold readUser at h
  simp only at h
  split at h
  next c password _ =>
    obtain ⟨husername, hpassword⟩ := Prod.mk.inj h
    refine ⟨husername ▸ hkept _, fun p hp => ?_⟩
    rw [← hpassword] at hp
    cases hp
    have hne : encode userInfoMarks (c :: password) ≠ [] := encode_ne_nil (List.cons_ne_nil _ _)
    exact ⟨fun hempty => hne (String.ofList_eq_empty_iff.mp hempty), hkept _⟩
  next =>
    obtain ⟨husername, hpassword⟩ := Prod.mk.inj h
    refine ⟨husername ▸ hkept _, fun p hp => ?_⟩
    rw [← hpassword] at hp
    cases hp

/-! ## 2. Text -/

/-- Nothing in a host and its port ends an authority, or ends user information in front of it. -/
theorem mem_hostText {a : Authority} (h : a.host.Proper) {c : Char} (hc : c ∈ a.hostText) :
    IsVisible c ∧ isSlash true c = false ∧ startsTail c = false ∧ c ≠ '@' := by
  have hplain : ∀ {c}, Host.isPlain c = true → IsVisible c ∧ isSlash true c = false ∧
      startsTail c = false ∧ c ≠ '@' := fun hc =>
    have hspec := (Host.isPlain_spec hc).1
    ⟨⟨hspec.1, Host.lt_of_isPlain hc⟩, hspec.2⟩
  rw [a.hostText_eq, List.mem_append] at hc
  rcases hc with hc | hc
  · rcases Host.mem_text h with hchars | ⟨s, htext, hchars⟩
    · exact hplain (hchars c hc)
    · rw [htext] at hc
      simp only [List.cons_append, List.mem_cons, List.mem_append, List.not_mem_nil,
        or_false] at hc
      rcases hc with rfl | hc | rfl
      · decide
      · rcases hchars c hc with hc | rfl
        · exact hplain hc
        · decide
      · decide
  · cases hport : a.port with
    | none =>
      rw [hport] at hc
      cases hc
    | some port =>
      rw [hport] at hc
      rcases List.mem_cons.mp hc with rfl | hc
      · decide
      · obtain ⟨d, hd, rfl⟩ := exists_digitChar (by decide) hc
        exact hplain (Host.isPlain_digitChar d (by omega))

theorem hostText_ne_nil {a : Authority} (h : a.host.Proper) : a.hostText ≠ [] := by
  rw [a.hostText_eq]
  exact List.append_ne_nil_of_left_ne_nil (Host.text_ne_nil h) _

/-- Nothing in an authority ends it. -/
theorem mem_text {a : Authority} (hhost : a.host.Proper) (huser : a.UserProper) {c : Char}
    (hc : c ∈ a.text) :
    IsVisible c ∧ isSlash true c = false ∧ startsTail c = false := by
  have hkept : ∀ {c}, isKept userInfoMarks c = true →
      IsVisible c ∧ isSlash true c = false ∧ startsTail c = false := by
    intro c hc
    have hvisible := isVisible_of_isKept hc (by decide)
    refine ⟨hvisible, Text.forall_ascii (P := fun c => isKept userInfoMarks c = true →
      isSlash true c = false ∧ startsTail c = false) ?_ hvisible.2 hc⟩
    decide +kernel
  rw [Authority.text, List.mem_append, a.userText_eq] at hc
  rcases hc with hc | hc
  · split at hc
    next => cases hc
    next =>
      rcases List.mem_append.mp hc with hc | hc
      · rcases List.mem_append.mp hc with hc | hc
        · exact hkept (huser.username c hc)
        · cases hpassword : a.password with
          | none =>
            rw [hpassword] at hc
            cases hc
          | some password =>
            rw [hpassword] at hc
            rcases List.mem_cons.mp hc with rfl | hc
            · decide
            · exact hkept ((huser.password password hpassword).2 c hc)
      · rw [List.mem_singleton.mp hc]
        decide
  · have hspec := mem_hostText hhost hc
    exact ⟨hspec.1, hspec.2.1, hspec.2.2.1⟩

/-! ## 3. Reading -/

theorem splitUser?_eq_none {s : List Char} (h : ∀ c ∈ s, c ≠ '@') : splitUser? s = none := by
  induction s with
  | nil => rfl
  | cons c s ih =>
    rw [splitUser?, ih fun d hd => h d (List.mem_cons_of_mem _ hd)]
    exact if_neg (h c List.mem_cons_self)

/-- The last sign counts. -/
theorem splitUser?_append {t : List Char} (h : ∀ c ∈ t, c ≠ '@') (s : List Char) :
    splitUser? (s ++ '@' :: t) = some (s, t) := by
  induction s with
  | nil =>
    rw [List.nil_append, splitUser?, splitUser?_eq_none h]
    rfl
  | cons c s ih => rw [List.cons_append, splitUser?, ih]

/-- The text of an authority is taken apart where it was put together. -/
theorem splitUser?_text {a : Authority} (h : a.host.Proper) :
    (splitUser? a.text).getD ([], a.text) = (a.userPart, a.hostText) := by
  have hsign : ∀ c ∈ a.hostText, c ≠ '@' := fun c hc => (mem_hostText h hc).2.2.2
  -- Without a user there is no sign, and with one it is the last, for a host has none.
  rw [Authority.text, a.userText_eq]
  split
  next hempty =>
    rw [List.nil_append, splitUser?_eq_none hsign, List.isEmpty_iff.mp hempty]
    rfl
  next =>
    rw [List.append_assoc, List.singleton_append, splitUser?_append hsign]
    rfl

/-- **An authority is read from its text,** up to the slash or the mark behind it. -/
theorem readWithAuthority_text {scheme : String} {a : Authority} (ha : a.Proper scheme)
    (huser : a.UserProper) {tail : List Char}
    (htail : ∀ c ∈ tail.head?, (isSlash true c || startsTail c) = true) :
    readWithAuthority .web scheme (a.text ++ tail) =
      .ok (assemble scheme .web (some a) (readPath .web) tail) := by
  -- No character of the authority ends it, and the first one behind it does.
  have hplace : ∀ c ∈ a.text, (!(isSlash true c || startsTail c)) = true := by
    intro c hc
    obtain ⟨-, hslash, htail⟩ := mem_text ha.host huser hc
    rw [hslash, htail]
    rfl
  have hend : tail.takeWhile (fun c => !(isSlash true c || startsTail c)) = [] ∧
      tail.dropWhile (fun c => !(isSlash true c || startsTail c)) = tail := by
    cases tail with
    | nil => exact ⟨rfl, rfl⟩
    | cons c rest =>
      have hc : ¬ (!(isSlash true c || startsTail c)) = true := by
        rw [htail c rfl]
        exact Bool.false_ne_true
      exact ⟨List.takeWhile_cons_of_neg hc, List.dropWhile_cons_of_neg hc⟩
  have htake : (a.text ++ tail).takeWhile (fun c => !(isSlash true c || startsTail c)) =
      a.text := by
    rw [List.takeWhile_append_of_pos hplace, hend.1, List.append_nil]
  have hdrop : (a.text ++ tail).dropWhile (fun c => !(isSlash true c || startsTail c)) = tail := by
    rw [List.dropWhile_append_of_pos hplace, hend.2]
  have hhost : a.hostText.isEmpty = false :=
    List.isEmpty_eq_false_iff.mpr (hostText_ne_nil ha.host)
  have hsomebody : (a.host.isEmpty && (!a.username.isEmpty || a.password.isSome)) = false := by
    rw [Host.isEmpty_of_proper ha.host]
    rfl
  simp only [readWithAuthority, Kind.isKnown, htake, hdrop, splitUser?_text ha.host, hhost,
    readUser_userPart huser, Bool.and_false, Bool.false_and, Bool.false_eq_true, if_false]
  change (readHost .web scheme a.hostText >>= _) = _
  rw [readHost_hostText ha]
  change (if (a.host.isEmpty && (!a.username.isEmpty || a.password.isSome)) = true then _
    else _) = _
  rw [hsomebody, if_neg Bool.false_ne_true]
  rfl

/-! ## 4. Authorities that were read -/

theorem readPort_proper {scheme : String} {s rest : List Char} {port : Option UInt16}
    (hdefault : (defaultPort? scheme).isSome = true) (h : readPort scheme s = .ok (port, rest)) :
    port ≠ defaultPort? scheme := by
  have hnone : none ≠ defaultPort? scheme := by
    intro hnone
    rw [← hnone] at hdefault
    cases hdefault
  unfold readPort at h
  split at h
  next =>
    simp only at h
    split at h
    next => cases h
    next =>
      split at h
      next => cases h
      next =>
        simp only [Except.ok.injEq, Prod.mk.injEq] at h
        rw [← h.1]
        split
        next => exact hnone
        next hport => exact fun heq => hport (.inr heq.symm)
  next =>
    cases h
    exact hnone

theorem proper_of_readHost {scheme : String} {s rest : List Char} {host : Host}
    {port : Option UInt16} (hdefault : (defaultPort? scheme).isSome = true)
    (h : readHost .web scheme s = .ok (host, port, rest)) :
    (host.isEmpty = false → host.Proper) ∧ port ≠ defaultPort? scheme := by
  simp only [readHost] at h
  split at h
  next => cases h
  next =>
    obtain ⟨host', hhost, h⟩ := Json.bind_eq_ok_iff.mp h
    obtain ⟨⟨port', rest'⟩, hport, h⟩ := Json.bind_eq_ok_iff.mp h
    cases h
    exact ⟨Host.proper_of_read hhost, readPort_proper hdefault hport⟩

/-- User, host and port of an address, and where its path, query and fragment are read. -/
theorem readWithAuthority_eq_ok {kind : Kind} {scheme : String} {s : List Char} {u : Url}
    (h : readWithAuthority kind scheme s = .ok u) :
    ∃ user place a rest tail, readUser user = (a.username, a.password) ∧
      readHost kind scheme place = .ok (a.host, a.port, rest) ∧
      u = assemble scheme kind (some a) (readPath kind) (rest ++ tail) := by
  simp only [readWithAuthority] at h
  split at h
  next => cases h
  next =>
    obtain ⟨⟨host, port, rest⟩, hhost, h⟩ := Json.bind_eq_ok_iff.mp h
    simp only at h
    split at h
    next => cases h
    next =>
      cases h
      exact ⟨_, _, { username := _, password := _, host, port }, rest, _, rfl, hhost, rfl⟩

/-- **An authority that was read comes back from its text,** if it has a host. -/
theorem proper_of_readWithAuthority {scheme : String} {s : List Char} {u : Url}
    (hdefault : (defaultPort? scheme).isSome = true)
    (h : readWithAuthority .web scheme s = .ok u) (hhost : u.hasHost = true) :
    ∃ a tail, u = assemble scheme .web (some a) (readPath .web) tail ∧ a.Proper scheme ∧
      a.UserProper := by
  obtain ⟨user, place, a, rest, tail, huser, hplace, rfl⟩ := readWithAuthority_eq_ok h
  have hproper := proper_of_readHost hdefault hplace
  have hsomebody : a.host.isEmpty = false := by simpa [hasHost, assemble] using hhost
  exact ⟨a, rest ++ tail, rfl, ⟨hproper.1 hsomebody, hproper.2⟩, userProper_of_readUser huser⟩

end StreamBoard.Url

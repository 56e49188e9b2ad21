import StreamBoard.Proofs.Url.Address
import StreamBoard.Url.Reader

/-!
# Host — who is addressed comes back from the text

A host that was read is written in the form in which it is kept, and is read from there as itself
(`Host.read_text`), alone and with the port behind it (`readHost_hostText`).
-/

namespace StreamBoard.Url

namespace Host

/-! ## 1. Hosts that were read -/

/-- What a name is made of: no byte that is forbidden, and no upper case. -/
def isNameChar (c : Char) : Bool :=
  c.toNat < 128 && !isForbiddenInName (.ofNat c.toNat) && !c.isUpper

/-- The host is one that a known scheme may have, in the form in which it is kept. -/
def Proper : Host → Prop
  | .name s => s ≠ "" ∧ (∀ c ∈ s.toList, isNameChar c = true) ∧
      Ipv4.endsInNumber s.toList = false
  | .ipv4 _ => True
  | .ipv6 _ => True

theorem isNameChar_toLower {b : UInt8} (h : isForbiddenInName b = false) :
    isNameChar (Char.ofNat b.toNat).toLower = true := by
  refine Text.forall_byte (P := fun b => isForbiddenInName b = false →
    isNameChar (Char.ofNat b.toNat).toLower = true) ?_ b h
  decide +kernel

theorem proper_of_readName {s : List Char} {h : Host} (hread : readName s = .ok h)
    (hne : h.isEmpty = false) : h.Proper := by
  unfold readName at hread
  simp only at hread
  split at hread
  next => cases hread
  next hplain =>
    split at hread
    next =>
      -- A name that ends in a number is an address or an error, so it is never kept as a name.
      split at hread
      next => cases hread; trivial
      next => cases hread
    next hnumber =>
      cases hread
      refine ⟨fun h => ?_, fun c hc => ?_, ?_⟩
      · rw [h] at hne
        cases hne
      · rw [String.toList_ofList] at hc
        obtain ⟨b, hb, rfl⟩ := List.mem_map.mp hc
        rw [List.any_eq_true, not_exists] at hplain
        exact isNameChar_toLower (Bool.eq_false_iff.mpr fun h => hplain b ⟨hb, h⟩)
      · rw [String.toList_ofList]
        exact Bool.eq_false_iff.mpr hnumber

/-- **What was read is in the form in which it is kept.** -/
theorem proper_of_read {s : List Char} {h : Host} (hread : read s = .ok h)
    (hne : h.isEmpty = false) : h.Proper := by
  unfold read at hread
  split at hread
  next =>
    unfold readBracketed at hread
    split at hread
    next =>
      split at hread
      next => cases hread; trivial
      next => cases hread
    next => cases hread
  next => exact proper_of_readName hread hne

/-! ## 2. Hosts in text -/

/-- A character that no host has outside brackets and that ends none. -/
def isPlain (c : Char) : Bool :=
  c.toNat < 128 && 0x20 < c.toNat &&
    !(['/', '\\', '?', '#', '@', ':', '[', ']'].contains c)

theorem isNameChar_spec {c : Char} (h : isNameChar c = true) :
    isPlain c = true ∧ c ≠ '%' ∧ c.toLower = c ∧ isForbiddenInName (.ofNat c.toNat) = false := by
  have hascii : c.toNat < 128 := by
    simp only [isNameChar, Bool.and_eq_true, decide_eq_true_eq] at h
    exact h.1.1
  refine Text.forall_ascii (P := fun c => isNameChar c = true → isPlain c = true ∧ c ≠ '%' ∧
    c.toLower = c ∧ isForbiddenInName (.ofNat c.toNat) = false) ?_ hascii h
  decide +kernel

theorem lt_of_isPlain {c : Char} (h : isPlain c = true) : c.toNat < 128 := by
  simp only [isPlain, Bool.and_eq_true, decide_eq_true_eq] at h
  exact h.1.1

/-- Nothing plain ends a host, or is a mark in an authority. -/
theorem isPlain_spec {c : Char} (h : isPlain c = true) :
    (0x20 < c.toNat ∧ isSlash true c = false ∧ startsTail c = false ∧ c ≠ '@') ∧
      c ≠ ':' ∧ c ≠ '[' ∧ c ≠ ']' := by
  refine Text.forall_ascii (P := fun c => isPlain c = true →
    (0x20 < c.toNat ∧ isSlash true c = false ∧ startsTail c = false ∧ c ≠ '@') ∧
      c ≠ ':' ∧ c ≠ '[' ∧ c ≠ ']') ?_ (lt_of_isPlain h) h
  decide +kernel

theorem isPlain_digitChar : ∀ d < 16, isPlain (Nat.digitChar d) = true := by decide +kernel

/-- A host is written in plain characters, or between brackets in such and colons. -/
theorem mem_text {h : Host} (hh : h.Proper) :
    (∀ c ∈ h.text, isPlain c = true) ∨
      ∃ s, h.text = '[' :: s ++ [']'] ∧ ∀ c ∈ s, isPlain c = true ∨ c = ':' := by
  cases h with
  | name s => exact .inl fun c hc => (isNameChar_spec (hh.2.1 c hc)).1
  | ipv4 a =>
    refine .inl fun c hc => ?_
    rcases Ipv4.mem_text hc with rfl | ⟨d, hd, rfl⟩
    · decide
    · exact isPlain_digitChar d (by omega)
  | ipv6 a =>
    refine .inr ⟨a.text, rfl, fun c hc => ?_⟩
    rcases Ipv6.mem_text hc with rfl | ⟨d, hd, rfl⟩
    · exact .inr rfl
    · exact .inl (isPlain_digitChar d hd)

/-- A text in the form of a name is kept as it is. -/
theorem readName_of_isNameChar {s : List Char} (h : ∀ c ∈ s, isNameChar c = true) :
    readName s =
      if Ipv4.endsInNumber s then
        match Ipv4.read? s with
        | some a => .ok (.ipv4 a)
        | none => .error .invalidIpv4
      else .ok (.name (.ofList s)) := by
  have hascii : ∀ c ∈ s, c.toNat < 128 ∧ c ≠ '%' := fun c hc =>
    ⟨lt_of_isPlain (isNameChar_spec (h c hc)).1, (isNameChar_spec (h c hc)).2.1⟩
  have hbytes := Text.percentDecode_ascii hascii
  have hallowed : (Text.percentDecode s).any isForbiddenInName = false := by
    rw [hbytes, List.any_eq_false]
    intro b hb
    obtain ⟨c, hc, rfl⟩ := List.mem_map.mp hb
    exact Bool.eq_false_iff.mp (isNameChar_spec (h c hc)).2.2.2
  have hname : (Text.percentDecode s).map (fun b => (Char.ofNat b.toNat).toLower) = s := by
    rw [hbytes, List.map_map]
    refine (List.map_congr_left fun c hc => ?_).trans (List.map_id s)
    change (Char.ofNat (UInt8.ofNat c.toNat).toNat).toLower = c
    rw [Text.toNat_ofNat_of_lt (by have := (hascii c hc).1; omega), Char.ofNat_toNat]
    exact (isNameChar_spec (h c hc)).2.2.1
  unfold readName
  simp only [hallowed, hname]
  rfl

theorem read_of_plain {s : List Char} (h : ∀ c ∈ s, isPlain c = true) : read s = readName s := by
  unfold read
  split
  next rest => exact absurd (h '[' List.mem_cons_self) (by decide)
  next => rfl

/-- **A host that was read is read from its text.** -/
theorem read_text {h : Host} (hh : h.Proper) : read h.text = .ok h := by
  cases h with
  | name s =>
    obtain ⟨-, hchars, hnumber⟩ := hh
    rw [text, read_of_plain fun c hc => (isNameChar_spec (hchars c hc)).1,
      readName_of_isNameChar hchars, hnumber, if_neg Bool.false_ne_true, String.ofList_toList]
  | ipv4 a =>
    have hchars : ∀ c ∈ a.text, isNameChar c = true := by
      have hdigit : ∀ d < 10, isNameChar (Nat.digitChar d) = true := by decide +kernel
      intro c hc
      rcases Ipv4.mem_text hc with rfl | ⟨d, hd, rfl⟩
      · decide
      · exact hdigit d hd
    rw [text, read_of_plain fun c hc => (isNameChar_spec (hchars c hc)).1,
      readName_of_isNameChar hchars, a.endsInNumber_text, if_pos rfl, a.read?_text]
  | ipv6 a =>
    change readBracketed (a.text ++ [']']) = _
    rw [readBracketed, List.getLast?_concat, if_pos rfl, List.dropLast_concat, a.read?_text]

theorem isEmpty_of_proper {h : Host} (hh : h.Proper) : h.isEmpty = false := by
  cases h with
  | name s => exact String.isEmpty_eq_false_iff.mpr hh.1
  | ipv4 a => rfl
  | ipv6 a => rfl

theorem text_ne_nil {h : Host} (hh : h.Proper) : h.text ≠ [] := by
  cases h with
  | name s => exact fun h => hh.1 (String.toList_eq_nil_iff.mp h)
  | ipv4 a =>
    intro h
    have hread := a.read?_text
    rw [show a.text = [] from h] at hread
    cases hread
  | ipv6 a => exact List.cons_ne_nil _ _

end Host

/-! ## 3. Authorities -/

/-- An authority that a known scheme may have. -/
structure Authority.Proper (scheme : String) (a : Authority) : Prop where
  host : a.host.Proper
  port : a.port ≠ defaultPort? scheme

/-- Outside brackets the first colon is in front of the port. -/
theorem splitPort_append {inside : Bool} {s : List Char}
    (h : ∀ c ∈ s, (c = ':' → inside = true) ∧ c ≠ '[' ∧ c ≠ ']') (tail : List Char) :
    splitPort inside (s ++ tail) =
      (s ++ (splitPort inside tail).1, (splitPort inside tail).2) := by
  induction s with
  | nil => rfl
  | cons c s ih =>
    obtain ⟨hcolon, hopen, hclose⟩ := h c List.mem_cons_self
    have hmark : ¬ (c = ':' ∧ (!inside) = true) := by
      rintro ⟨hc, hinside⟩
      rw [hcolon hc] at hinside
      cases hinside
    simp only [List.cons_append, splitPort, if_neg hmark, if_neg hopen, if_neg hclose,
      ih fun d hd => h d (List.mem_cons_of_mem _ hd)]

/-- The port as it is written behind a host. -/
def portText : Option UInt16 → List Char
  | some port => ':' :: Nat.toDigits 10 port.toNat
  | none => []

theorem Authority.hostText_eq (a : Authority) : a.hostText = a.host.text ++ portText a.port := by
  obtain ⟨_, _, host, port⟩ := a
  cases port <;> rfl

theorem splitPort_portText (port : Option UInt16) :
    splitPort false (portText port) = ([], portText port) := by
  cases port <;> rfl

theorem splitPort_hostText {a : Authority} (h : a.host.Proper) :
    splitPort false a.hostText = (a.host.text, portText a.port) := by
  have hplain : ∀ c, Host.isPlain c = true → c ≠ ':' ∧ c ≠ '[' ∧ c ≠ ']' := fun c hc =>
    (Host.isPlain_spec hc).2
  rw [a.hostText_eq]
  rcases Host.mem_text h with hchars | ⟨s, htext, hchars⟩
  · rw [splitPort_append fun c hc =>
      ⟨fun hcolon => absurd hcolon (hplain c (hchars c hc)).1, (hplain c (hchars c hc)).2⟩,
      splitPort_portText, List.append_nil]
  · -- Between the brackets a colon does not count.
    have hinside : ∀ c ∈ s, (c = ':' → true = true) ∧ c ≠ '[' ∧ c ≠ ']' := by
      intro c hc
      refine ⟨fun _ => rfl, ?_⟩
      rcases hchars c hc with hc | rfl
      · exact (hplain c hc).2
      · decide
    have hopen : splitPort false ('[' :: (s ++ (']' :: portText a.port))) =
        ('[' :: (s ++ [']']), portText a.port) := by
      simp [splitPort, splitPort_append hinside, splitPort_portText]
    rw [htext]
    simpa using hopen

/-- **A port is read from its text,** but for the one that the scheme implies. -/
theorem readPort_portText {scheme : String} {port : Option UInt16} (h : port ≠ defaultPort? scheme) :
    readPort scheme (portText port) = .ok (port, []) := by
  cases port with
  | none => rfl
  | some p =>
    have hlt : p.toNat < 65536 := p.toNat_lt
    have hdigits : ∀ c ∈ Nat.toDigits 10 p.toNat, c.isDigit = true := fun c hc =>
      Nat.isDigit_of_mem_toDigits (by decide) (by decide) hc
    have htake : (Nat.toDigits 10 p.toNat).takeWhile Char.isDigit = Nat.toDigits 10 p.toNat :=
      List.takeWhile_eq_self_iff.mpr hdigits
    have hdrop : (Nat.toDigits 10 p.toNat).dropWhile Char.isDigit = [] :=
      List.dropWhile_eq_nil_iff.mpr hdigits
    -- There is at least one digit; a colon with none would be no port.
    have hne : (Nat.toDigits 10 p.toNat).isEmpty = false :=
      List.isEmpty_eq_false_iff.mpr Nat.toDigits_ne_nil
    have hnumber : (numberIn? 10 (Nat.toDigits 10 p.toNat)).getD 0 = p.toNat := by
      rw [numberIn?_decimal]
      rfl
    simp only [portText, readPort, htake, hdrop, hnumber, hne, UInt16.ofNat_toNat]
    rw [if_neg (by omega), if_neg (by decide), if_neg]
    rintro (hempty | hdefault)
    · cases hempty
    · exact h hdefault.symm

/-- **Host and port are read from their text.** -/
theorem readHost_hostText {scheme : String} {a : Authority} (h : a.Proper scheme) :
    readHost .web scheme a.hostText = .ok (a.host, a.port, []) := by
  have hne : a.host.text.isEmpty = false :=
    List.isEmpty_eq_false_iff.mpr (Host.text_ne_nil h.host)
  rw [readHost, splitPort_hostText h.host]
  simp only [hne, Bool.false_and, Bool.false_eq_true, if_false]
  change (Host.read a.host.text >>= _) = _
  rw [Host.read_text h.host]
  change (readPort scheme (portText a.port) >>= _) = _
  rw [readPort_portText h.port]
  rfl

end StreamBoard.Url

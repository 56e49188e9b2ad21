import StreamBoard.Proofs.Json.Grammar
import StreamBoard.Proofs.Json.Ordering

/-!
# Strings — what is read between quotes

Reading a string takes the longest stretch of characters up to the closing quote, and it succeeds on
just the texts that the grammar has for strings.  A leading surrogate waits for its mate: what may
follow it is said by `Continues`, for whatever digits wrote it.
-/

namespace StreamBoard.Json

open Grammar

/-! ## 1. Escapes -/

instance (c : Char) (n : Nat) : Decidable (HexDigit c n) := inferInstanceAs (Decidable (_ ∨ _))

theorem hexValue?_eq_some_iff {c : Char} {n : Nat} : hexValue? c = some n ↔ HexDigit c n := by
  constructor
  · intro h
    have hdigit : ∀ k, k < 58 → 48 ≤ k → HexDigit (.ofNat k) (k - 48) := by decide +kernel
    have hlower : ∀ k, k < 103 → 97 ≤ k → HexDigit (.ofNat k) (k - 87) := by decide +kernel
    have hupper : ∀ k, k < 71 → 65 ≤ k → HexDigit (.ofNat k) (k - 55) := by decide +kernel
    unfold hexValue? at h
    rw [← Char.ofNat_toNat c]
    -- Each range of the codes is one stretch of a table.
    split at h
    next hrange =>
      cases h
      exact hdigit _ (Nat.lt_succ_of_le hrange.2) hrange.1
    next =>
      split at h
      next hrange =>
        cases h
        exact hlower _ (Nat.lt_succ_of_le hrange.2) hrange.1
      next =>
        split at h
        next hrange =>
          cases h
          exact hupper _ (Nat.lt_succ_of_le hrange.2) hrange.1
        next => cases h
  · have hlower : ∀ k (h : k < 16), hexValue? ("0123456789abcdef".toList[k]) = some k := by
      decide +kernel
    have hupper : ∀ k (h : k < 16), hexValue? ("0123456789ABCDEF".toList[k]) = some k := by
      decide +kernel
    rintro (h | h)
    · obtain ⟨hn, rfl⟩ := List.getElem?_eq_some_iff.mp h
      exact hlower n hn
    · obtain ⟨hn, rfl⟩ := List.getElem?_eq_some_iff.mp h
      exact hupper n hn

theorem hexFour?_eq_some_iff {a b c d : Char} {unit : Nat} :
    hexFour? a b c d = some unit ↔ HexUnit a b c d unit := by
  simp only [hexFour?, HexUnit, ← hexValue?_eq_some_iff, Option.bind_eq_bind,
    Option.bind_eq_some_iff, Option.pure_def, Option.some.injEq]
  constructor
  · rintro ⟨w, hw, x, hx, y, hy, z, hz, rfl⟩
    exact ⟨w, x, y, z, hw, hx, hy, hz, by omega⟩
  · rintro ⟨w, x, y, z, hw, hx, hy, hz, rfl⟩
    exact ⟨w, hw, x, hx, y, hy, z, hz, by omega⟩

theorem escapeLetter?_eq_some_iff {e c : Char} : escapeLetter? e = some c ↔ (e, c) ∈ escapes := by
  constructor
  · intro h
    unfold escapeLetter? at h
    split at h
    all_goals
      cases h
      try decide
  · intro h
    simp only [escapes, List.mem_cons, Prod.mk.injEq, List.not_mem_nil, or_false] at h
    rcases h with ⟨rfl, rfl⟩ | ⟨rfl, rfl⟩ | ⟨rfl, rfl⟩ | ⟨rfl, rfl⟩ | ⟨rfl, rfl⟩ | ⟨rfl, rfl⟩ |
      ⟨rfl, rfl⟩ | ⟨rfl, rfl⟩ <;> rfl

theorem escapes_ne_unit {e c : Char} (h : (e, c) ∈ escapes) : e ≠ 'u' := by
  rintro rfl
  rw [← escapeLetter?_eq_some_iff] at h
  cases h

theorem Grammar.HexUnit.lt {a b c d : Char} {unit : Nat} (h : HexUnit a b c d unit) :
    unit < 65536 := by
  have hdigit : ∀ {c n}, HexDigit c n → n < 16 := by
    rintro c n (h | h)
    · exact (List.getElem?_eq_some_iff.mp h).1
    · exact (List.getElem?_eq_some_iff.mp h).1
  obtain ⟨w, x, y, z, hw, hx, hy, hz, rfl⟩ := h
  have hw := hdigit hw
  have hx := hdigit hx
  have hy := hdigit hy
  have hz := hdigit hz
  omega

/-! ## 2. Surrogates -/

theorem ofNat_eq_iff {n : Nat} (h : n.isValidChar) {x : Char} :
    Char.ofNat n = x ↔ x.toNat = n := by
  have hcode : (Char.ofNat n).toNat = n := by
    rw [Char.ofNat, dif_pos h]
    rfl
  constructor
  · rintro rfl
    exact hcode
  · rintro rfl
    exact x.ofNat_toNat

theorem Unit16.of_none_eq_char {unit : Nat} (hlt : unit < 65536) {x : Char} :
    Unit16.of none unit = .char x ↔ x.toNat = unit := by
  -- A character has no surrogate for its code.
  have hvalid : x.toNat < 0xd800 ∨ 0xdfff < x.toNat ∧ x.toNat < 0x110000 := x.valid
  simp only [Unit16.of]
  split
  next htrail => exact iff_of_false nofun (by omega)
  next htrail =>
    split
    next hlead => exact iff_of_false nofun (by omega)
    next hlead =>
      rw [Unit16.char.injEq]
      exact ofNat_eq_iff (show unit < 0xd800 ∨ 0xdfff < unit ∧ unit < 0x110000 by omega)

/-- The code of a pair of surrogates. -/
def pairCode (high low : Nat) : Nat := 0x10000 + 0x400 * (high - 0xd800) + (low - 0xdc00)

theorem Unit16.of_some_eq_char {high low : Nat} (hhigh : 0xd800 ≤ high ∧ high ≤ 0xdbff) {x : Char} :
    Unit16.of (some high) low = .char x ↔
      (0xdc00 ≤ low ∧ low ≤ 0xdfff) ∧ x.toNat = pairCode high low := by
  simp only [Unit16.of]
  split
  next htrail =>
    have hcode : (high - 0xd800) * 0x400 + (low - 0xdc00) + 0x10000 = pairCode high low := by
      unfold pairCode
      omega
    have hvalid : (pairCode high low).isValidChar := by
      apply Or.inr
      unfold pairCode
      omega
    rw [Unit16.char.injEq, hcode, ofNat_eq_iff hvalid, and_iff_right htrail]
  next htrail => exact iff_of_false nofun fun h => htrail h.1

theorem Unit16.of_eq_lead {lead : Option Nat} {unit u : Nat} :
    Unit16.of lead unit = .lead u ↔ lead = none ∧ u = unit ∧ 0xd800 ≤ unit ∧ unit ≤ 0xdbff := by
  cases lead with
  | none =>
    simp only [Unit16.of]
    split
    next htrail => exact iff_of_false nofun (by omega)
    next htrail =>
      split
      next hlead => simp [hlead, eq_comm]
      next hlead => exact iff_of_false nofun (by omega)
  | some high =>
    simp only [Unit16.of]
    split
    · exact iff_of_false nofun nofun
    · exact iff_of_false nofun nofun

/-- What may follow on a leading surrogate, if there is one, and the characters of both. -/
def Continues (lead : Option Nat) (t s : List Char) : Prop :=
  match lead with
  | none => Chars t s
  | some high => ∀ a b c d, HexUnit a b c d high → Chars ('\\' :: 'u' :: a :: b :: c :: d :: t) s

theorem Continues.unit {lead : Option Nat} {a b c d x : Char} {unit : Nat} {t s : List Char}
    (hlead : ∀ high, lead = some high → 0xd800 ≤ high ∧ high ≤ 0xdbff)
    (hunit : HexUnit a b c d unit) (hx : Unit16.of lead unit = .char x) (h : Chars t s) :
    Continues lead ('\\' :: 'u' :: a :: b :: c :: d :: t) (x :: s) := by
  cases lead with
  | none =>
    rw [Unit16.of_none_eq_char hunit.lt] at hx
    rw [← hx] at hunit
    exact Chars.unit hunit h
  | some high =>
    have hhigh := hlead high rfl
    obtain ⟨hlow, hx⟩ := (Unit16.of_some_eq_char hhigh).mp hx
    intro e f g k hlead
    exact Chars.pair hlead hhigh hunit hlow hx h

/-! ## 3. Skipping and reading one character -/

theorem pushChar_eq_ok_iff {c : Char} {r : Except Fault (List Char × List Char)}
    {s rest : List Char} :
    pushChar c r = .ok (s, rest) ↔ ∃ s', r = .ok (s', rest) ∧ s = c :: s' := by
  cases r with
  | error fault => simp [pushChar, Except.map]
  | ok pair =>
    obtain ⟨s', rest'⟩ := pair
    constructor
    · intro h
      cases h
      exact ⟨s', rfl, rfl⟩
    · rintro ⟨_, h, rfl⟩
      cases h
      rfl

section Steps

variable {a b c d e x : Char} {t : List Char}

theorem skipString_unit {unit : Nat} (h : HexUnit a b c d unit) :
    skipString ('\\' :: 'u' :: a :: b :: c :: d :: t) = skipString t := by
  have hfour := hexFour?_eq_some_iff.mpr h
  rw [skipString, hfour]
  rfl

theorem skipString_escape (h : (e, c) ∈ escapes) :
    skipString ('\\' :: e :: t) = skipString t := by
  have hletter := escapeLetter?_eq_some_iff.mpr h
  rw [skipString, hletter]
  · rfl
  · intro _ _ _ _ _ he
    exact absurd he (escapes_ne_unit h)
  · exact escapes_ne_unit h

theorem skipString_plain (hquote : c ≠ '"') (hslash : c ≠ '\\') (hcode : 0x20 ≤ c.toNat) :
    skipString (c :: t) = skipString t := by
  rw [skipString, if_neg hquote, if_neg (Nat.not_lt.mpr hcode)]
  all_goals
    intros
    contradiction

end Steps

/-! ## 4. Whole strings -/

/-- What is read is a string of the grammar, and it can be skipped as well. -/
theorem readString_sound {lead : Option Nat} {s : List Char} :
    ∀ {cs r : List Char}, (∀ high, lead = some high → 0xd800 ≤ high ∧ high ≤ 0xdbff) →
    readString lead s = .ok (cs, r) →
    skipString s = .ok r ∧ ∃ t, s = t ++ '"' :: r ∧ Continues lead t cs := by
  -- Five of the cases go on or end; all others are faults.
  fun_induction readString lead s
  case case4 lead a b c d rest unit hfour x hx ih =>
    intro cs r hlead h
    obtain ⟨cs, hread, rfl⟩ := pushChar_eq_ok_iff.mp h
    obtain ⟨hskip, t, rfl, hchars⟩ := ih nofun hread
    have hunit := hexFour?_eq_some_iff.mp hfour
    rw [skipString_unit hunit]
    exact ⟨hskip, _, rfl, Continues.unit hlead hunit hx hchars⟩
  case case5 lead a b c d rest unit hfour u hu ih =>
    intro cs r hlead h
    obtain ⟨rfl, rfl, hrange⟩ := Unit16.of_eq_lead.mp hu
    -- What follows on the surrogate also follows on the digits that wrote it.
    obtain ⟨hskip, t, rfl, hchars⟩ := ih (fun high hhigh => by cases hhigh; exact hrange) h
    have hunit := hexFour?_eq_some_iff.mp hfour
    rw [skipString_unit hunit]
    exact ⟨hskip, _, rfl, hchars a b c d hunit⟩
  case case10 lead e rest hfour hunit hlead c hletter ih =>
    intro cs r _ h
    obtain ⟨cs, hread, rfl⟩ := pushChar_eq_ok_iff.mp h
    obtain ⟨hskip, t, rfl, hchars⟩ := ih nofun hread
    have hescape := escapeLetter?_eq_some_iff.mp hletter
    rw [skipString_escape hescape]
    have hnone : lead = none := by simpa using hlead
    rw [hnone]
    exact ⟨hskip, _, rfl, Chars.escape hescape hchars⟩
  case case12 lead rest hlead _ _ _ _ =>
    intro cs r _ h
    cases h
    have hnone : lead = none := by simpa using hlead
    rw [hnone]
    exact ⟨rfl, [], rfl, .nil⟩
  case case14 lead c rest hend _ _ hmore hlead hquote hcode ih =>
    intro cs r _ h
    obtain ⟨cs, hread, rfl⟩ := pushChar_eq_ok_iff.mp h
    obtain ⟨hskip, t, rfl, hchars⟩ := ih nofun hread
    have hslash : c ≠ '\\' := by
      intro hc
      cases t with
      | nil => exact hmore _ _ hc rfl
      | cons e t => exact hmore _ _ hc rfl
    have hnone : lead = none := by simpa using hlead
    rw [skipString_plain hquote hslash (Nat.not_lt.mp hcode), hnone]
    exact ⟨hskip, _, rfl, Chars.plain (Nat.not_lt.mp hcode) hquote hslash hchars⟩
  all_goals
    intro cs r _ h
    cases h

/-- Every string of the grammar is read, whatever stands behind its closing quote. -/
theorem readString_complete {t cs : List Char} (h : Chars t cs) (r : List Char) :
    readString none (t ++ '"' :: r) = .ok (cs, r) := by
  induction h with
  | nil => rfl
  | plain hcode hquote hslash _ ih =>
    rw [List.cons_append, readString, ih]
    · simp [hquote, Nat.not_lt.mpr hcode, pushChar, Except.map]
    all_goals
      intros
      contradiction
  | escape hescape _ ih =>
    have hletter := escapeLetter?_eq_some_iff.mpr hescape
    have hne := escapes_ne_unit hescape
    rw [List.cons_append, List.cons_append, readString, hletter, ih]
    · rfl
    · intro _ _ _ _ _ he
      exact absurd he hne
    · exact hne
  | unit hunit _ ih =>
    have hchar := (Unit16.of_none_eq_char hunit.lt).mpr rfl
    simp only [List.cons_append]
    rw [readString, hexFour?_eq_some_iff.mpr hunit]
    simp only [hchar, ih]
    rfl
  | pair hhigh hrange hlow htrail hcode _ ih =>
    have hlead : Unit16.of none _ = .lead _ := Unit16.of_eq_lead.mpr ⟨rfl, rfl, hrange⟩
    have hchar := (Unit16.of_some_eq_char hrange).mpr ⟨htrail, hcode⟩
    simp only [List.cons_append]
    rw [readString, hexFour?_eq_some_iff.mpr hhigh]
    simp only [hlead]
    rw [readString, hexFour?_eq_some_iff.mpr hlow]
    simp only [hchar, ih]
    rfl

/-- The lexeme has this value, and it can be skipped up to here. -/
structure Lexeme.Takes {α : Type} (l : Lexeme α) (x : α) (r : List Char) : Prop where
  value : l.value = .ok x
  rest : l.rest? = some r

theorem Lexeme.Takes.map {α β : Type} {l : Lexeme α} {x : α} {r : List Char} (h : l.Takes x r)
    (f : α → β) : (l.map f).Takes (f x) r where
  value := by
    rw [Lexeme.map, h.value]
    rfl
  rest := h.rest

/-- **What is read behind an opening quote is a string of the grammar and its closing quote.** -/
theorem ofString_sound {start s : List Char} {x : String}
    (h : (Lexeme.ofString start s).value = .ok x) :
    ∃ t cs r, s = t ++ '"' :: r ∧ Chars t cs ∧ x = String.ofList cs ∧
      (Lexeme.ofString start s).Takes x r := by
  have hvalue : (readString none s).map (fun r => String.ofList r.1) = .ok x := by
    unfold Lexeme.ofString at h
    split at h <;> exact h
  obtain ⟨⟨cs, r⟩, hread, rfl⟩ := map_eq_ok_iff.mp hvalue
  obtain ⟨hskip, t, hs, hchars⟩ := readString_sound (fun _ hlead => by cases hlead) hread
  refine ⟨t, cs, r, hs, hchars, rfl, h, ?_⟩
  rw [Lexeme.ofString, hskip]
  rfl

theorem ofString_complete {t cs : List Char} (h : Chars t cs) (start r : List Char) :
    (Lexeme.ofString start (t ++ '"' :: r)).Takes (String.ofList cs) r := by
  have hread := readString_complete h r
  have hskip := (readString_sound (fun _ hlead => by cases hlead) hread).1
  rw [Lexeme.ofString, hskip, hread]
  exact ⟨rfl, rfl⟩

end StreamBoard.Json

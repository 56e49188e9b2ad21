import StreamBoard.Text.Utf8
import StreamBoard.Text.Percent

/-!
# Utf8 — text comes back from its bytes

The reader of bytes takes broken ones as well; here it meets the bytes of a text, which are never
broken.  It reads them character by character (`utf8DecodeFrom_utf8EncodeChar`), so different texts
have different bytes, and a text is what is read from its bytes, with a byte order mark in front of
them or, if the text does not itself begin with one, without.  Bytes are in the order of the texts.
-/

namespace StreamBoard.Text

/-! ## 1. First bytes -/

namespace Unfinished

/-- The character has a part `y` of six bits behind its first byte, and is no surrogate and no
character that fewer bytes write. -/
structure Begins (p : Unfinished) (value missing y : Nat) : Prop where
  value : p.value = value
  missing : p.missing = missing
  low : p.low ≤ y + 128
  high : y + 128 ≤ p.high

theorem ofLead?_two {x y : Nat} (hx : 2 ≤ x ∧ x < 32) (hy : y < 64) :
    ∃ p, ofLead? (x + 192) = some p ∧ p.Begins x 0 y := by
  refine ⟨⟨x, 0, 0x80, 0xbf⟩, ?_, rfl, rfl, by simp, by simp; omega⟩
  rw [ofLead?, if_pos (by omega), Nat.add_sub_cancel]

theorem ofLead?_three {x y : Nat} (hx : x < 16) (hy : y < 64) (hshort : x = 0 → 32 ≤ y)
    (hsurrogate : x = 13 → y < 32) :
    ∃ p, ofLead? (x + 224) = some p ∧ p.Begins x 1 y := by
  by_cases hzero : x = 0
  · subst hzero
    have hlow := hshort rfl
    exact ⟨_, rfl, rfl, rfl, by simp; omega, by simp; omega⟩
  · by_cases hlead : x = 13
    · subst hlead
      have hhigh := hsurrogate rfl
      exact ⟨_, rfl, rfl, rfl, by simp, by simp; omega⟩
    · refine ⟨⟨x, 1, 0x80, 0xbf⟩, ?_, rfl, rfl, by simp, by simp; omega⟩
      rw [ofLead?, if_neg (by omega), if_neg (by omega), if_neg (by omega), if_pos (by omega),
        Nat.add_sub_cancel]

theorem ofLead?_four {x y : Nat} (hx : x < 5) (hy : y < 64) (hshort : x = 0 → 16 ≤ y)
    (hlast : x = 4 → y < 16) :
    ∃ p, ofLead? (x + 240) = some p ∧ p.Begins x 2 y := by
  by_cases hzero : x = 0
  · subst hzero
    have hlow := hshort rfl
    exact ⟨_, rfl, rfl, rfl, by simp; omega, by simp; omega⟩
  · by_cases hfour : x = 4
    · subst hfour
      have hhigh := hlast rfl
      exact ⟨_, rfl, rfl, rfl, by simp, by simp; omega⟩
    · refine ⟨⟨x, 2, 0x80, 0xbf⟩, ?_, rfl, rfl, by simp, by simp; omega⟩
      rw [ofLead?, if_neg (by omega), if_neg (by omega), if_neg (by omega), if_neg (by omega),
        if_neg (by omega), if_neg (by omega), if_pos (by omega), Nat.add_sub_cancel]

end Unfinished

/-! ## 2. Bytes of a character -/

open Unfinished

theorem toNat_ofNat_of_lt {b : Nat} (h : b < 256) : (UInt8.ofNat b).toNat = b :=
  Nat.mod_eq_of_lt h

theorem utf8DecodeFrom_lead {b : Nat} {p : Unfinished} (hb : 128 ≤ b ∧ b < 256)
    (h : ofLead? b = some p) (rest : List UInt8) :
    utf8DecodeFrom none (.ofNat b :: rest) = utf8DecodeFrom (some p) rest := by
  rw [utf8DecodeFrom, toNat_ofNat_of_lt hb.2, startChar, if_neg (by omega), h]
  rfl

/-- The first of several bytes that a character has behind its first one. -/
theorem utf8DecodeFrom_more {p : Unfinished} {value n y : Nat} (h : p.Begins value (n + 1) y)
    (hy : y < 64) (rest : List UInt8) :
    utf8DecodeFrom (some p) (.ofNat (y + 128) :: rest) =
      utf8DecodeFrom (some ⟨value * 64 + y, n, 0x80, 0xbf⟩) rest := by
  obtain ⟨value', missing, low, high⟩ := p
  obtain ⟨rfl, rfl, hlow, hhigh⟩ := h
  simp only [utf8DecodeFrom, toNat_ofNat_of_lt (show y + 128 < 256 by omega)]
  rw [if_pos ⟨hlow, hhigh⟩, Nat.add_sub_cancel]

theorem utf8DecodeFrom_last {p : Unfinished} {value y : Nat} (h : p.Begins value 0 y)
    (hy : y < 64) (rest : List UInt8) :
    utf8DecodeFrom (some p) (.ofNat (y + 128) :: rest) =
      Char.ofNat (value * 64 + y) :: utf8DecodeFrom none rest := by
  obtain ⟨value', missing, low, high⟩ := p
  obtain ⟨rfl, rfl, hlow, hhigh⟩ := h
  simp only [utf8DecodeFrom, toNat_ofNat_of_lt (show y + 128 < 256 by omega)]
  rw [if_pos ⟨hlow, hhigh⟩, Nat.add_sub_cancel]

/-- Behind the second byte any part may come. -/
theorem begins_any (value missing : Nat) {y : Nat} (hy : y < 64) :
    (⟨value, missing, 0x80, 0xbf⟩ : Unfinished).Begins value missing y :=
  ⟨rfl, rfl, by simp, by simp; omega⟩

/-- **The bytes of a character are read as that character.** -/
theorem utf8DecodeFrom_utf8EncodeChar (c : Char) (rest : List UInt8) :
    utf8DecodeFrom none (String.utf8EncodeChar c ++ rest) = c :: utf8DecodeFrom none rest := by
  have hvalid : c.val.toNat < 0xd800 ∨ 0xdfff < c.val.toNat ∧ c.val.toNat < 0x110000 := c.valid
  have hchar : Char.ofNat c.val.toNat = c := c.ofNat_toNat
  -- From here on only the code counts; it is cut into parts of six bits.
  rw [String.utf8EncodeChar.eq_1]
  generalize c.val.toNat = v at hvalid hchar ⊢
  by_cases hone : v ≤ 127
  · rw [if_pos hone, List.singleton_append, utf8DecodeFrom, toNat_ofNat_of_lt (by omega), startChar,
      if_pos (by omega), hchar]
    rfl
  rw [if_neg hone]
  by_cases htwo : v ≤ 2047
  · obtain ⟨p, hp, hbegins⟩ : ∃ p, ofLead? (v / 64 + 192) = some p ∧ p.Begins (v / 64) 0 (v % 64) :=
      ofLead?_two (by omega) (by omega)
    have hvalue : v / 64 * 64 + v % 64 = v := by omega
    rw [if_pos htwo, Nat.mod_eq_of_lt (show v / 64 < 32 by omega)]
    change utf8DecodeFrom none (_ :: _ :: rest) = _
    rw [utf8DecodeFrom_lead (by omega) hp, utf8DecodeFrom_last hbegins (by omega), hvalue, hchar]
  rw [if_neg htwo]
  by_cases hthree : v ≤ 65535
  · obtain ⟨p, hp, hbegins⟩ : ∃ p, ofLead? (v / 4096 + 224) = some p ∧
        p.Begins (v / 4096) (0 + 1) (v / 64 % 64) :=
      ofLead?_three (by omega) (by omega) (by omega) (by omega)
    have hvalue : (v / 4096 * 64 + v / 64 % 64) * 64 + v % 64 = v := by omega
    rw [if_pos hthree, Nat.mod_eq_of_lt (show v / 4096 < 16 by omega)]
    change utf8DecodeFrom none (_ :: _ :: _ :: rest) = _
    rw [utf8DecodeFrom_lead (by omega) hp, utf8DecodeFrom_more hbegins (by omega),
      utf8DecodeFrom_last (begins_any _ _ (by omega)) (by omega), hvalue, hchar]
  · obtain ⟨p, hp, hbegins⟩ : ∃ p, ofLead? (v / 262144 + 240) = some p ∧
        p.Begins (v / 262144) (1 + 1) (v / 4096 % 64) :=
      ofLead?_four (by omega) (by omega) (by omega) (by omega)
    have hvalue : ((v / 262144 * 64 + v / 4096 % 64) * 64 + v / 64 % 64) * 64 + v % 64 = v := by
      omega
    rw [if_neg hthree, Nat.mod_eq_of_lt (show v / 262144 < 8 by omega)]
    change utf8DecodeFrom none (_ :: _ :: _ :: _ :: rest) = _
    rw [utf8DecodeFrom_lead (by omega) hp, utf8DecodeFrom_more hbegins (by omega),
      utf8DecodeFrom_more (begins_any _ (0 + 1) (by omega)) (by omega),
      utf8DecodeFrom_last (begins_any _ _ (by omega)) (by omega), hvalue, hchar]

/-! ## 3. Bytes of a text -/

theorem utf8DecodeFrom_utf8 (s : List Char) : utf8DecodeFrom none (utf8 s) = s := by
  induction s with
  | nil => rfl
  | cons c rest ih =>
    rw [utf8, List.flatMap_cons, ← utf8, utf8DecodeFrom_utf8EncodeChar, ih]

/-- **Different texts have different bytes.** -/
theorem utf8_injective {s t : List Char} (h : utf8 s = utf8 t) : s = t := by
  rw [← utf8DecodeFrom_utf8 s, h, utf8DecodeFrom_utf8]

/-- The bytes of a text are those by which it is stored. -/
theorem utf8_toList (s : String) : utf8 s.toList = s.toUTF8.data.toList := by
  have hstored : s.toUTF8 = s.toList.utf8Encode := String.utf8Encode_toList.symm
  rw [hstored, List.utf8Encode, List.toList_data_toByteArray, utf8]

/-- The bytes in front of a text that say how it is written, and are no part of it. -/
def byteOrderMark : List UInt8 := [0xef, 0xbb, 0xbf]

theorem utf8Decode_byteOrderMark (s : List Char) : utf8Decode (byteOrderMark ++ utf8 s) = s :=
  utf8DecodeFrom_utf8 s

/-- The bytes of the mark are those of a character, with which a text may begin as well. -/
theorem utf8Decode_utf8 {s : List Char} (h : s.head? ≠ some '\ufeff') : utf8Decode (utf8 s) = s := by
  unfold utf8Decode
  split
  next rest hrest =>
    have hmark := utf8DecodeFrom_utf8 s
    rw [hrest] at hmark
    have hread : utf8DecodeFrom none (0xef :: 0xbb :: 0xbf :: rest) =
        '\ufeff' :: utf8DecodeFrom none rest := utf8DecodeFrom_utf8EncodeChar '\ufeff' rest
    rw [hread] at hmark
    rw [← hmark] at h
    exact absurd rfl h
  next => exact utf8DecodeFrom_utf8 s

/-! ## 4. Order of texts -/

theorem cons_lt_cons_of_le {a b : Nat} {x y : List UInt8} (h : a ≤ b) (hb : b < 256)
    (hrest : a = b → x < y) : UInt8.ofNat a :: x < UInt8.ofNat b :: y := by
  rw [List.cons_lt_cons_iff]
  rcases Nat.lt_or_eq_of_le h with hlt | heq
  · exact .inl ((UInt8.ofNat_lt_iff_lt (Nat.lt_of_le_of_lt h hb) hb).mpr hlt)
  · exact .inr ⟨congrArg UInt8.ofNat heq, hrest heq⟩

/-- The bytes of a lesser character come first, whatever stands behind them. -/
theorem utf8EncodeChar_append_lt {c d : Char} (h : c < d) (x y : List UInt8) :
    String.utf8EncodeChar c ++ x < String.utf8EncodeChar d ++ y := by
  have hvalid : d.val.toNat < 0xd800 ∨ 0xdfff < d.val.toNat ∧ d.val.toNat < 0x110000 := d.valid
  have hlt : c.val.toNat < d.val.toNat := h
  rw [String.utf8EncodeChar.eq_1, String.utf8EncodeChar.eq_1]
  generalize c.val.toNat = v at hlt
  generalize d.val.toNat = w at hvalid hlt
  -- More bytes have a greater first one; of as many, the first that differs decides.
  repeat' split
  all_goals simp only [List.cons_append, List.nil_append]
  all_goals
    repeat apply cons_lt_cons_of_le (by omega) (by omega) fun _ => ?_
    omega

/-- **The bytes of texts are in the order of the texts.** -/
theorem utf8_lt {s t : List Char} (h : s < t) : utf8 s < utf8 t := by
  induction h with
  | @nil c rest =>
    cases hbytes : utf8 (c :: rest) with
    | nil => exact absurd (utf8_injective (t := []) hbytes) (List.cons_ne_nil c rest)
    | cons b bytes => exact List.nil_lt_cons b bytes
  | rel hlt => exact utf8EncodeChar_append_lt hlt _ _
  | cons _ ih => exact List.append_left_lt ih

end StreamBoard.Text

import StreamBoard.Proofs.Text.Utf8

/-!
# Percent — bytes come back from text with percent signs

A percent sign is read with the two digits behind it as the byte that it was written for, and plain
bytes as themselves (`percentDecode_percentEncode`); so what is written without plain percent signs
is different for different texts.  Text that has nothing but plain characters is written as it is.
Where only letters, digits and `-._~` are plain, bytes have one escaped form (`escaped_iff`).
-/

namespace StreamBoard.Text

/-! ## 1. Bytes and their characters -/

/-- A statement about bytes can be checked for each of them. -/
theorem forall_byte {P : UInt8 → Prop} (h : ∀ n < 256, P (.ofNat n)) (b : UInt8) : P b := by
  have hb := h b.toNat b.toNat_lt
  rwa [UInt8.ofNat_toNat] at hb

/-- The same for the characters of one byte. -/
theorem forall_ascii {P : Char → Prop} (h : ∀ n < 128, P (Char.ofNat n)) {c : Char}
    (hc : c.toNat < 128) : P c := by
  rw [← Char.ofNat_toNat c]
  exact h _ hc

theorem utf8EncodeChar_ascii {c : Char} (h : c.toNat < 128) :
    String.utf8EncodeChar c = [.ofNat c.toNat] := by
  have hvalue : c.val.toNat ≤ 127 := Nat.le_of_lt_succ h
  rw [String.utf8EncodeChar.eq_1, if_pos hvalue]
  rfl

/-- The bytes of a character beyond ASCII are all beyond it. -/
theorem utf8EncodeChar_beyond {c : Char} (h : 128 ≤ c.toNat) :
    String.utf8EncodeChar c ≠ [] ∧ ∀ b ∈ String.utf8EncodeChar c, 128 ≤ b.toNat := by
  have hone : ¬ c.val.toNat ≤ 127 := Nat.not_le.mpr h
  have hbyte (n : Nat) {m k : Nat} (hm : 0 < m ∧ 128 ≤ k ∧ m + k ≤ 256) :
      128 ≤ (UInt8.ofNat (n % m + k)).toNat := by
    have hlt := Nat.mod_lt n hm.1
    rw [toNat_ofNat_of_lt (by omega)]
    omega
  rw [String.utf8EncodeChar.eq_1, if_neg hone]
  -- Two, three or four bytes, each with a remainder behind its leading bits.
  split
  · refine ⟨List.cons_ne_nil _ _, fun b hb => ?_⟩
    simp only [List.mem_cons, List.not_mem_nil, or_false] at hb
    rcases hb with rfl | rfl
    · exact hbyte _ (by decide)
    · exact hbyte _ (by decide)
  · split
    · refine ⟨List.cons_ne_nil _ _, fun b hb => ?_⟩
      simp only [List.mem_cons, List.not_mem_nil, or_false] at hb
      rcases hb with rfl | rfl | rfl
      · exact hbyte _ (by decide)
      · exact hbyte _ (by decide)
      · exact hbyte _ (by decide)
    · refine ⟨List.cons_ne_nil _ _, fun b hb => ?_⟩
      simp only [List.mem_cons, List.not_mem_nil, or_false] at hb
      rcases hb with rfl | rfl | rfl | rfl
      · exact hbyte _ (by decide)
      · exact hbyte _ (by decide)
      · exact hbyte _ (by decide)
      · exact hbyte _ (by decide)

theorem toNat_ofNat_ascii : ∀ n < 128, (Char.ofNat n).toNat = n := by decide

theorem ofNat_ne_percent {b : UInt8} (h : b < 0x80 ∧ b ≠ 0x25) : Char.ofNat b.toNat ≠ '%' := by
  intro hsign
  have htoNat := toNat_ofNat_ascii b.toNat h.1
  rw [hsign] at htoNat
  exact h.2 (UInt8.toNat_inj.mp htoNat.symm)

/-! ## 2. Reading -/

theorem percentDecode_cons {c : Char} (h : c ≠ '%') (rest : List Char) :
    percentDecode (c :: rest) = String.utf8EncodeChar c ++ percentDecode rest := by
  rw [percentDecode]
  intro a b s hc
  exact absurd hc h

theorem percentDecode_ascii {s : List Char} (h : ∀ c ∈ s, c.toNat < 128 ∧ c ≠ '%') :
    percentDecode s = s.map fun c => .ofNat c.toNat := by
  induction s with
  | nil => rfl
  | cons c rest ih =>
    obtain ⟨hascii, hne⟩ := h c List.mem_cons_self
    rw [percentDecode_cons hne, utf8EncodeChar_ascii hascii,
      ih fun d hd => h d (List.mem_cons_of_mem _ hd)]
    rfl

theorem hexDigitValue?_upperHex : ∀ n < 16, hexDigitValue? (upperHex n) = some n := by decide

/-- **A byte behind a percent sign is read as that byte.** -/
theorem percentDecode_percentByte (b : UInt8) (rest : List Char) :
    percentDecode (percentByte b ++ rest) = b :: percentDecode rest := by
  have hb : b.toNat < 256 := b.toNat_lt
  have hvalue : b.toNat / 16 * 16 + b.toNat % 16 = b.toNat := by omega
  change percentDecode ('%' :: upperHex (b.toNat / 16) :: upperHex (b.toNat % 16) :: rest) = _
  rw [percentDecode, hexDigitValue?_upperHex _ (by omega), hexDigitValue?_upperHex _ (by omega)]
  simp only [hvalue, UInt8.ofNat_toNat]

section Encode

variable {plain : UInt8 → Bool}

theorem percentEncodeBytes_cons (b : UInt8) (bytes : List UInt8) :
    percentEncodeBytes plain (b :: bytes) =
      (if plain b then [Char.ofNat b.toNat] else percentByte b) ++
        percentEncodeBytes plain bytes :=
  List.flatMap_cons

/-- Plain bytes are ASCII, and none of them is a percent sign. -/
theorem percentDecode_percentEncodeBytes (hplain : ∀ b, plain b = true → b < 0x80 ∧ b ≠ 0x25)
    (bytes : List UInt8) : percentDecode (percentEncodeBytes plain bytes) = bytes := by
  -- Byte by byte: each is written as one character or as three, and read from these alone.
  induction bytes with
  | nil => rfl
  | cons b bytes ih =>
    rw [percentEncodeBytes_cons]
    cases hb : plain b with
    | true =>
      have hascii : b.toNat < 128 := (hplain b hb).1
      have htoNat := toNat_ofNat_ascii b.toNat hascii
      rw [if_pos rfl, List.singleton_append, percentDecode_cons (ofNat_ne_percent (hplain b hb)),
        utf8EncodeChar_ascii (by omega), htoNat, ih, UInt8.ofNat_toNat]
      rfl
    | false =>
      rw [if_neg Bool.false_ne_true, percentDecode_percentByte, ih]

/-- **What is written with percent signs is read as the bytes of the text.** -/
theorem percentDecode_percentEncode (hplain : ∀ b, plain b = true → b < 0x80 ∧ b ≠ 0x25)
    (s : List Char) : percentDecode (percentEncode plain s) = utf8 s :=
  percentDecode_percentEncodeBytes hplain (utf8 s)

/-- **Different texts are written differently.** -/
theorem percentEncode_injective (hplain : ∀ b, plain b = true → b < 0x80 ∧ b ≠ 0x25)
    {s t : List Char} (h : percentEncode plain s = percentEncode plain t) : s = t := by
  apply utf8_injective
  rw [← percentDecode_percentEncode hplain s, h, percentDecode_percentEncode hplain]

/-! ## 3. Writing -/

/-- What is written holds plain characters, percent signs and hexadecimal digits. -/
theorem mem_percentEncodeBytes {bytes : List UInt8} {c : Char}
    (h : c ∈ percentEncodeBytes plain bytes) :
    (∃ b, plain b = true ∧ c = Char.ofNat b.toNat) ∨ c = '%' ∨ ∃ n < 16, c = upperHex n := by
  obtain ⟨b, -, hc⟩ := List.mem_flatMap.mp h
  have hb : b.toNat < 256 := b.toNat_lt
  cases hplain : plain b with
  | true =>
    rw [hplain, if_pos rfl, List.mem_singleton] at hc
    exact .inl ⟨b, hplain, hc⟩
  | false =>
    rw [hplain, if_neg Bool.false_ne_true] at hc
    simp only [percentByte, List.mem_cons, List.not_mem_nil, or_false] at hc
    rcases hc with hc | hc | hc
    · exact .inr (.inl hc)
    · exact .inr (.inr ⟨_, by omega, hc⟩)
    · exact .inr (.inr ⟨_, by omega, hc⟩)

/-- **Plain text is written as it is.** -/
theorem percentEncode_eq_self {s : List Char}
    (h : ∀ c ∈ s, c.toNat < 128 ∧ plain (.ofNat c.toNat) = true) : percentEncode plain s = s := by
  induction s with
  | nil => rfl
  | cons c rest ih =>
    obtain ⟨hascii, hplain⟩ := h c List.mem_cons_self
    have hrest := ih fun d hd => h d (List.mem_cons_of_mem _ hd)
    have htoNat : (UInt8.ofNat c.toNat).toNat = c.toNat := toNat_ofNat_of_lt (by omega)
    rw [percentEncode] at hrest ⊢
    rw [utf8, List.flatMap_cons, utf8EncodeChar_ascii hascii, List.singleton_append, ← utf8,
      percentEncodeBytes_cons, hplain, if_pos rfl, htoNat, Char.ofNat_toNat, hrest]
    rfl

end Encode

/-! ## 4. Unreserved characters -/

theorem isUnreserved_spec {b : UInt8} (h : isUnreserved b = true) : b < 0x80 ∧ b ≠ 0x25 := by
  refine forall_byte (P := fun b => isUnreserved b = true → b < 0x80 ∧ b ≠ 0x25) ?_ b h
  decide +kernel

/-- The characters of a text of which only letters, digits and `-._~` are plain. -/
def isEncodedChar (c : Char) : Bool :=
  c.toNat < 128 && (isUnreserved (.ofNat c.toNat) || c == '%')

theorem isEncodedChar_of_mem {s : List Char} {c : Char} (h : c ∈ percentEncode isUnreserved s) :
    isEncodedChar c = true := by
  rcases mem_percentEncodeBytes h with ⟨b, hb, rfl⟩ | rfl | ⟨n, hn, rfl⟩
  · have hascii := (isUnreserved_spec hb).1
    have hlt : b.toNat < 128 := hascii
    simp [isEncodedChar, toNat_ofNat_ascii b.toNat hascii, hb, hlt]
  · rfl
  · have hall : ∀ n < 16, isEncodedChar (upperHex n) = true := by decide
    exact hall n hn

/-! ## 5. The escaped form of bytes -/

/-- `unreserved = ALPHA / DIGIT / "-" / "." / "_" / "~"` -/
def IsUnreservedChar (c : Char) : Prop :=
  'A' ≤ c ∧ c ≤ 'Z' ∨ 'a' ≤ c ∧ c ≤ 'z' ∨ '0' ≤ c ∧ c ≤ '9' ∨
    c = '-' ∨ c = '.' ∨ c = '_' ∨ c = '~'

instance (c : Char) : Decidable (IsUnreservedChar c) := inferInstanceAs (Decidable (_ ∨ _))

/-- A hexadecimal digit in upper case, and its value. -/
def UpperHexDigit (c : Char) (n : Nat) : Prop := "0123456789ABCDEF".toList[n]? = some c

/-- Text of unreserved characters and percent signs, and the bytes that it stands for. -/
inductive Escaped : List Char → List UInt8 → Prop
  | nil : Escaped [] []
  | plain {c : Char} {t : List Char} {bytes : List UInt8} :
      IsUnreservedChar c → Escaped t bytes → Escaped (c :: t) (.ofNat c.toNat :: bytes)
  /-- `pct-encoded = "%" HEXDIG HEXDIG`, for a byte that no unreserved character has. -/
  | escape {a b : Char} {high low : Nat} {t : List Char} {bytes : List UInt8} :
      UpperHexDigit a high → UpperHexDigit b low →
      (∀ c, IsUnreservedChar c → c.toNat ≠ 16 * high + low) → Escaped t bytes →
      Escaped ('%' :: a :: b :: t) (.ofNat (16 * high + low) :: bytes)

theorem upperHexDigit_iff {c : Char} {n : Nat} :
    UpperHexDigit c n ↔ n < 16 ∧ c = upperHex n := by
  by_cases h : n < 16
  · have hdigits : ∀ n < 16, "0123456789ABCDEF".toList[n]? = some (upperHex n) := by decide
    rw [UpperHexDigit, hdigits n h, Option.some_inj]
    exact ⟨fun heq => ⟨h, heq.symm⟩, fun heq => heq.2.symm⟩
  · have hlength : "0123456789ABCDEF".toList.length = 16 := by decide
    rw [UpperHexDigit, List.getElem?_eq_none (by omega)]
    simp [h]

theorem IsUnreservedChar.lt {c : Char} (h : IsUnreservedChar c) : c.toNat < 128 := by
  have hbelow : ∀ {last : Char}, last.toNat < 128 → c ≤ last → c.toNat < 128 :=
    fun hlast hle => Nat.lt_of_le_of_lt hle hlast
  rcases h with h | h | h | rfl | rfl | rfl | rfl
  · exact hbelow (by decide) h.2
  · exact hbelow (by decide) h.2
  · exact hbelow (by decide) h.2
  · decide
  · decide
  · decide
  · decide

theorem isUnreserved_iff (b : UInt8) :
    isUnreserved b = true ↔ b.toNat < 128 ∧ IsUnreservedChar (Char.ofNat b.toNat) := by
  refine forall_byte (P := fun b => isUnreserved b = true ↔
    b.toNat < 128 ∧ IsUnreservedChar (Char.ofNat b.toNat)) ?_ b
  decide +kernel

theorem isUnreserved_ofNat {c : Char} (h : IsUnreservedChar c) :
    isUnreserved (.ofNat c.toNat) = true := by
  have hascii := h.lt
  rw [isUnreserved_iff, toNat_ofNat_of_lt (by omega), Char.ofNat_toNat]
  exact ⟨hascii, h⟩

theorem escaped_percentEncodeBytes (bytes : List UInt8) :
    Escaped (percentEncodeBytes isUnreserved bytes) bytes := by
  induction bytes with
  | nil => exact .nil
  | cons b bytes ih =>
    have hb : b.toNat < 256 := b.toNat_lt
    rw [percentEncodeBytes_cons]
    cases hplain : isUnreserved b with
    | true =>
      obtain ⟨hascii, hc⟩ := (isUnreserved_iff b).mp hplain
      have hescaped := Escaped.plain hc ih
      rw [toNat_ofNat_ascii _ hascii, UInt8.ofNat_toNat] at hescaped
      rwa [if_pos rfl, List.singleton_append]
    | false =>
      -- The digits behind the sign give the byte back, and no unreserved character has it.
      have hother : ∀ c, IsUnreservedChar c → c.toNat ≠ 16 * (b.toNat / 16) + b.toNat % 16 := by
        intro c hc heq
        rw [Nat.div_add_mod] at heq
        have hunreserved := isUnreserved_ofNat hc
        rw [heq, UInt8.ofNat_toNat, hplain] at hunreserved
        cases hunreserved
      have hescaped := Escaped.escape (upperHexDigit_iff.mpr ⟨by omega, rfl⟩)
        (upperHexDigit_iff.mpr ⟨by omega, rfl⟩) hother ih
      rw [Nat.div_add_mod, UInt8.ofNat_toNat] at hescaped
      rwa [if_neg Bool.false_ne_true]

/-- **Bytes have one escaped form,** the one in which they are written. -/
theorem escaped_iff {t : List Char} {bytes : List UInt8} :
    Escaped t bytes ↔ t = percentEncodeBytes isUnreserved bytes := by
  constructor
  · intro h
    induction h with
    | nil => rfl
    | @plain c t bytes hc _ ih =>
      have hascii := hc.lt
      rw [percentEncodeBytes_cons, if_pos (isUnreserved_ofNat hc), toNat_ofNat_of_lt (by omega),
        Char.ofNat_toNat, ← ih]
      rfl
    | @escape a b high low t bytes ha hb hother _ ih =>
      obtain ⟨hhigh, rfl⟩ := upperHexDigit_iff.mp ha
      obtain ⟨hlow, rfl⟩ := upperHexDigit_iff.mp hb
      have hbyte : (UInt8.ofNat (16 * high + low)).toNat = 16 * high + low :=
        toNat_ofNat_of_lt (by omega)
      -- The encoder has no choice: it leaves a byte plain exactly if a character may stand for it.
      have hreserved : ¬ isUnreserved (.ofNat (16 * high + low)) = true := by
        rw [isUnreserved_iff, hbyte]
        exact fun h => hother _ h.2 (toNat_ofNat_ascii _ h.1)
      have hdigits : (16 * high + low) / 16 = high ∧ (16 * high + low) % 16 = low := by omega
      rw [percentEncodeBytes_cons, if_neg hreserved, percentByte, hbyte, hdigits.1, hdigits.2, ← ih]
      rfl
  · rintro rfl
    exact escaped_percentEncodeBytes bytes

end StreamBoard.Text

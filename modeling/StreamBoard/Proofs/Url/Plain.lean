import StreamBoard.Proofs.Text.Percent
import StreamBoard.Url.Reader

/-!
# Plain — what was encoded is not encoded again

All that stands in an encoded part of an address stands for itself there, percent signs included
(`isKept_of_mem`).  So the parts of an address that was read are written and read as they are.  In a
path that is not all: a segment may be a place in it with its dots behind percent signs, and it has
to be seen that no other segment becomes one when it is encoded (`isSegment_encode`).
-/

namespace StreamBoard.Url

/-! ## 1. Characters -/

/-- The character stands for itself in a part with these marks. -/
def isKept (marks : List Char) (c : Char) : Bool :=
  c.toNat < 128 && isPrintableBut marks (.ofNat c.toNat)

theorem isKept_iff {marks : List Char} {c : Char} :
    isKept marks c = true ↔ 0x20 ≤ c.toNat ∧ c.toNat ≤ 0x7e ∧ c ∉ marks := by
  by_cases hascii : c.toNat < 128
  · have htoNat : (UInt8.ofNat c.toNat).toNat = c.toNat := Text.toNat_ofNat_of_lt (by omega)
    simp [isKept, isPrintableBut, UInt8.le_iff_toNat_le, htoNat, Char.ofNat_toNat, hascii,
      and_assoc]
  · simp only [isKept, hascii, decide_false, Bool.false_and, Bool.false_eq_true, false_iff]
    omega

theorem ne_of_isKept {marks : List Char} {c d : Char} (h : isKept marks c = true)
    (hd : d ∈ marks) : c ≠ d := fun heq => (isKept_iff.mp h).2.2 (heq ▸ hd)

/-- ASCII that is no control and no space. -/
def IsVisible (c : Char) : Prop := 0x20 < c.toNat ∧ c.toNat < 128

instance (c : Char) : Decidable (IsVisible c) := inferInstanceAs (Decidable (_ ∧ _))

theorem isVisible_of_isKept {marks : List Char} {c : Char} (h : isKept marks c = true)
    (hblank : ' ' ∈ marks) : IsVisible c := by
  obtain ⟨hlow, hhigh, -⟩ := isKept_iff.mp h
  have hne : c.toNat ≠ 0x20 := fun heq => ne_of_isKept h hblank (Char.toNat_inj.mp heq)
  constructor
  · omega
  · omega

/-- A percent sign and the digits behind it stand for themselves. -/
def Escapes (marks : List Char) : Prop :=
  isKept marks '%' = true ∧ ∀ n < 16, isKept marks (Text.upperHex n) = true

instance (marks : List Char) : Decidable (Escapes marks) :=
  inferInstanceAs (Decidable (_ ∧ _))

/-! ## 2. Encoded text -/

section Encode

variable {marks : List Char}

theorem encode_eq_self {s : List Char} (h : ∀ c ∈ s, isKept marks c = true) :
    encode marks s = s := by
  refine Text.percentEncode_eq_self fun c hc => ?_
  have hkept := h c hc
  simp only [isKept, Bool.and_eq_true, decide_eq_true_eq] at hkept
  exact hkept

theorem encode_cons (c : Char) (s : List Char) :
    encode marks (c :: s) =
      (if isKept marks c then [c] else (String.utf8EncodeChar c).flatMap Text.percentByte) ++
        encode marks s := by
  have hsplit : encode marks (c :: s) = encode marks [c] ++ encode marks s := by
    simp only [encode, Text.percentEncode, Text.percentEncodeBytes, Text.utf8, List.flatMap_cons,
      List.flatMap_append, List.flatMap_nil, List.append_nil]
  rw [hsplit]
  refine congrArg (· ++ encode marks s) ?_
  by_cases hkept : isKept marks c = true
  · rw [if_pos hkept]
    exact encode_eq_self fun d hd => by rwa [List.mem_singleton.mp hd]
  · rw [if_neg hkept]
    have hmarked : ∀ b ∈ String.utf8EncodeChar c, isPrintableBut marks b = false := by
      intro b hb
      by_cases hascii : c.toNat < 128
      · rw [Text.utf8EncodeChar_ascii hascii, List.mem_singleton] at hb
        simpa [isKept, hascii, ← hb] using hkept
      · have hbeyond := (Text.utf8EncodeChar_beyond (Nat.not_lt.mp hascii)).2 b hb
        have hlong : ¬ b ≤ 0x7e := by
          rw [UInt8.le_iff_toNat_le]
          exact fun hle => absurd (Nat.le_trans hbeyond hle) (by decide)
        simp [isPrintableBut, hlong]
    have hutf8 : Text.utf8 [c] = String.utf8EncodeChar c := List.flatMap_singleton ..
    rw [encode, Text.percentEncode, hutf8, Text.percentEncodeBytes, List.flatMap_def,
      List.flatMap_def]
    refine congrArg List.flatten (List.map_congr_left fun b hb => ?_)
    rw [hmarked b hb]
    rfl

/-- A marked character is written with a percent sign in front, and no other than a full stop has
the code of one. -/
theorem encode_cons_of_marked {c : Char} (hmarked : isKept marks c = false) (s : List Char) :
    ∃ b rest, encode marks (c :: s) = Text.percentByte b ++ rest ∧ (b = 0x2e → c = '.') := by
  rw [encode_cons, hmarked, if_neg Bool.false_ne_true]
  by_cases hascii : c.toNat < 128
  · rw [Text.utf8EncodeChar_ascii hascii]
    refine ⟨_, _, by rw [List.flatMap_singleton], fun hb => ?_⟩
    have hcode := congrArg UInt8.toNat hb
    rw [Text.toNat_ofNat_of_lt (by omega)] at hcode
    exact Char.toNat_inj.mp hcode
  · obtain ⟨hne, hbeyond⟩ := Text.utf8EncodeChar_beyond (Nat.not_lt.mp hascii)
    obtain ⟨b, bytes, hbytes⟩ := List.exists_cons_of_ne_nil hne
    rw [hbytes, List.flatMap_cons, List.append_assoc]
    refine ⟨b, _, rfl, fun hb => ?_⟩
    have hlarge := hbeyond b (hbytes ▸ List.mem_cons_self)
    rw [hb] at hlarge
    exact absurd hlarge (by decide)

theorem encode_ne_nil {s : List Char} (h : s ≠ []) : encode marks s ≠ [] := by
  cases s with
  | nil => exact absurd rfl h
  | cons c s =>
    cases hkept : isKept marks c with
    | true =>
      rw [encode_cons, if_pos hkept]
      exact List.cons_ne_nil _ _
    | false =>
      obtain ⟨b, rest, hencode, -⟩ := encode_cons_of_marked hkept s
      rw [hencode]
      exact List.cons_ne_nil _ _

/-- What is written was there and stands for itself, or it belongs to an escaped byte. -/
theorem mem_encode {s : List Char} {c : Char} (h : c ∈ encode marks s) :
    c ∈ s ∧ isKept marks c = true ∨ c = '%' ∨ ∃ n < 16, c = Text.upperHex n := by
  induction s with
  | nil => cases h
  | cons d s ih =>
    rw [encode_cons, List.mem_append] at h
    cases h with
    | inr h => exact (ih h).imp_left fun hc => ⟨List.mem_cons_of_mem _ hc.1, hc.2⟩
    | inl h =>
      split at h
      next hkept =>
        rw [List.mem_singleton.mp h]
        exact .inl ⟨List.mem_cons_self, hkept⟩
      next =>
        obtain ⟨b, -, hc⟩ := List.mem_flatMap.mp h
        have hb : b.toNat < 256 := b.toNat_lt
        simp only [Text.percentByte, List.mem_cons, List.not_mem_nil, or_false] at hc
        rcases hc with hc | hc | hc
        · exact .inr (.inl hc)
        · exact .inr (.inr ⟨_, by omega, hc⟩)
        · exact .inr (.inr ⟨_, by omega, hc⟩)

/-- **All that is written stands for itself.** -/
theorem isKept_of_mem (hescapes : Escapes marks) {s : List Char} {c : Char}
    (h : c ∈ encode marks s) : isKept marks c = true := by
  rcases mem_encode h with ⟨-, hkept⟩ | rfl | ⟨n, hn, rfl⟩
  · exact hkept
  · exact hescapes.1
  · exact hescapes.2 n hn

end Encode

/-! ## 3. Segments -/

theorem plainDots_cons {c : Char} (h : c ≠ '%') (rest : List Char) :
    plainDots (c :: rest) = c :: plainDots rest := by
  rw [plainDots]
  intro e s hc
  exact absurd hc h

theorem plainDots_escape {x y : Char} (hx : x ≠ '%') (hy : y ≠ '%')
    (hdot : ¬ (x = '2' ∧ (y = 'e' ∨ y = 'E'))) (rest : List Char) :
    plainDots ('%' :: x :: y :: rest) = '%' :: x :: y :: plainDots rest := by
  by_cases htwo : x = '2'
  · subst htwo
    rw [plainDots, if_neg fun h => hdot ⟨rfl, h⟩]
  · rw [plainDots, plainDots_cons hx, plainDots_cons hy]
    rintro e s - h
    exact htwo (List.cons.inj h).1

/-- A byte behind a percent sign is no dot, unless it is written for one. -/
theorem plainDots_percentByte {b : UInt8} (h : b ≠ 0x2e) (rest : List Char) :
    plainDots (Text.percentByte b ++ rest) = Text.percentByte b ++ plainDots rest := by
  have hdigits : Text.upperHex (b.toNat / 16) ≠ '%' ∧ Text.upperHex (b.toNat % 16) ≠ '%' ∧
      ¬ (Text.upperHex (b.toNat / 16) = '2' ∧
        (Text.upperHex (b.toNat % 16) = 'e' ∨ Text.upperHex (b.toNat % 16) = 'E')) := by
    refine Text.forall_byte (P := fun b => b ≠ 0x2e →
      Text.upperHex (b.toNat / 16) ≠ '%' ∧ Text.upperHex (b.toNat % 16) ≠ '%' ∧
        ¬ (Text.upperHex (b.toNat / 16) = '2' ∧
          (Text.upperHex (b.toNat % 16) = 'e' ∨ Text.upperHex (b.toNat % 16) = 'E'))) ?_ b h
    decide +kernel
  exact plainDots_escape hdigits.1 hdigits.2.1 hdigits.2.2 rest

/-- A text whose first character is kept has been written with it. -/
theorem exists_of_encode_eq_cons {marks s t : List Char} {c : Char} (hc : c ≠ '%')
    (h : encode marks s = c :: t) :
    isKept marks c = true ∧ ∃ r, s = c :: r ∧ encode marks r = t := by
  cases s with
  | nil => cases h
  | cons d r =>
    cases hkept : isKept marks d with
    | true =>
      rw [encode_cons, if_pos hkept, List.singleton_append] at h
      obtain ⟨rfl, ht⟩ := List.cons.inj h
      exact ⟨hkept, r, rfl, ht⟩
    | false =>
      obtain ⟨b, rest, hencode, -⟩ := encode_cons_of_marked hkept r
      rw [hencode] at h
      exact absurd (List.cons.inj h).1.symm hc

/-- A text that is written as dots only is written as it is. -/
theorem encode_eq_self_of_dots {s : List Char}
    (h : ∀ c ∈ plainDots (encode pathMarks s), c = '.') : encode pathMarks s = s := by
  -- By the length: an escaped dot takes three characters off.
  induction hn : s.length using Nat.strongRecOn generalizing s with
  | _ n ih =>
    subst hn
    cases s with
    | nil => rfl
    | cons c r =>
      cases hkept : isKept pathMarks c with
      | false =>
        -- No escape of the encoder is one of a dot.
        obtain ⟨b, rest, hencode, hdot⟩ := encode_cons_of_marked hkept r
        have hne : b ≠ 0x2e := by
          intro hb
          rw [hdot hb] at hkept
          exact absurd hkept (by decide)
        rw [hencode, plainDots_percentByte hne] at h
        exact absurd (h '%' List.mem_cons_self) (by decide)
      | true =>
        have hcons : encode pathMarks (c :: r) = c :: encode pathMarks r := by
          rw [encode_cons, if_pos hkept, List.singleton_append]
        rw [hcons] at h ⊢
        by_cases hsign : c = '%'
        · subst hsign
          have hescape : ∃ e t, encode pathMarks r = '2' :: e :: t ∧ (e = 'e' ∨ e = 'E') := by
            rw [plainDots.eq_def] at h
            split at h
            next e t heq =>
              obtain ⟨-, heq⟩ := List.cons.inj heq
              split at h
              next he => exact ⟨e, t, heq, he⟩
              next => exact absurd (h '%' List.mem_cons_self) (by decide)
            next heq =>
              rw [← (List.cons.inj heq).1] at h
              exact absurd (h '%' List.mem_cons_self) (by decide)
            next heq => cases heq
          obtain ⟨e, t, ht, he⟩ := hescape
          have hesign : e ≠ '%' := by
            rcases he with rfl | rfl
            · decide
            · decide
          obtain ⟨-, r₁, rfl, hr₁⟩ := exists_of_encode_eq_cons (by decide) ht
          obtain ⟨-, r₂, rfl, hr₂⟩ := exists_of_encode_eq_cons hesign hr₁
          rw [ht, plainDots, if_pos he, ← hr₂] at h
          have htail := ih r₂.length (by simp only [List.length_cons]; omega)
            (fun c hc => h c (List.mem_cons_of_mem _ hc)) rfl
          rw [ht, ← hr₂, htail]
        · rw [plainDots_cons hsign] at h
          rw [ih r.length (Nat.lt_succ_self _) (fun c hc => h c (List.mem_cons_of_mem _ hc)) rfl]

/-- A segment as it stands in a path. -/
structure IsSegment (s : List Char) : Prop where
  kept : ∀ c ∈ s, isKept pathMarks c = true ∧ isSlash true c = false
  notDot : isDot s = false
  notDoubleDot : isDoubleDot s = false

theorem isSegment_nil : IsSegment [] := ⟨nofun, rfl, rfl⟩

/-- **A segment that is no place in a path is one as it is written.** -/
theorem isSegment_encode {s : List Char} (hslash : ∀ c ∈ s, isSlash true c = false)
    (hdot : isDot s = false) (hdoubleDot : isDoubleDot s = false) :
    IsSegment (encode pathMarks s) := by
  refine ⟨fun c hc => ⟨isKept_of_mem (by decide) hc, ?_⟩, ?_, ?_⟩
  · rcases mem_encode hc with ⟨hc, -⟩ | rfl | ⟨n, hn, rfl⟩
    · exact hslash c hc
    · rfl
    · have hall : ∀ n < 16, isSlash true (Text.upperHex n) = false := by decide
      exact hall n hn
  · refine Bool.eq_false_iff.mpr fun hencoded => ?_
    have hdots := beq_iff_eq.mp hencoded
    have hself := encode_eq_self_of_dots (s := s) (by rw [hdots]; simp)
    rw [hself, hdot] at hencoded
    cases hencoded
  · refine Bool.eq_false_iff.mpr fun hencoded => ?_
    have hdots := beq_iff_eq.mp hencoded
    have hself := encode_eq_self_of_dots (s := s) (by rw [hdots]; simp)
    rw [hself, hdoubleDot] at hencoded
    cases hencoded

end StreamBoard.Url

import StreamBoard.Proofs.Ledger
import StreamBoard.Proofs.Json.Strings

/-!
# Numerals — how numbers are read, and what they are worth

A number is read part by part: the sign, the whole digits, a fraction, an exponent.  Each part is
the longest one that stands there, so the text behind must not go on like a number (`Ends`).  What a
numeral is worth depends on whether it writes an integer of 64 bits; the reader finds that out by
taking digits as long as they fit, which comes to the same (`value_eq_ok_iff`).
-/

namespace StreamBoard.Json

open Grammar

/-! ## 1. Digits that fit -/

/-- The number with one more digit behind it. -/
def shifted (acc : Nat) (c : Char) : Nat := 10 * acc + (c.toNat - '0'.toNat)

/-- The number that digits stand for behind others. -/
def decimalFrom (acc : Nat) (ds : List Char) : Nat := ds.foldl shifted acc

theorem le_decimalFrom (acc : Nat) (ds : List Char) : acc ≤ decimalFrom acc ds := by
  refine foldl_keeps (fun n => acc ≤ n) (fun n c _ h => ?_) (Nat.le_refl acc)
  unfold shifted
  omega

theorem shifted_eq (acc : Nat) (c : Char) : acc * 10 + digitValue c = shifted acc c := by
  show acc * 10 + (c.toNat - 48) = 10 * acc + (c.toNat - 48)
  omega

theorem takeDigits_cons (acc : Nat) (c : Char) (ds : List Char) :
    takeDigits acc (c :: ds) =
      if shifted acc c < 18446744073709551616 then takeDigits (shifted acc c) ds
      else (acc, c :: ds) := by
  rw [takeDigits, shifted_eq]

theorem takeExponent_cons (acc : Nat) (c : Char) (ds : List Char) :
    takeExponent acc (c :: ds) =
      if shifted acc c < 2147483648 then takeExponent (shifted acc c) ds else .error ds := by
  rw [takeExponent, shifted_eq]

/-- Digits are taken to the end if their number fits. -/
theorem takeDigits_of_lt {acc : Nat} {ds : List Char}
    (h : decimalFrom acc ds < 18446744073709551616) :
    takeDigits acc ds = (decimalFrom acc ds, []) := by
  induction ds generalizing acc with
  | nil => rfl
  | cons c ds ih =>
    have hnext : decimalFrom (shifted acc c) ds < 18446744073709551616 := h
    have hle := le_decimalFrom (shifted acc c) ds
    rw [takeDigits_cons, if_pos (Nat.lt_of_le_of_lt hle hnext)]
    exact ih hnext

theorem takeDigits_of_le {acc : Nat} {ds : List Char} (hacc : acc < 18446744073709551616)
    (h : 18446744073709551616 ≤ decimalFrom acc ds) : (takeDigits acc ds).2 ≠ [] := by
  induction ds generalizing acc with
  | nil => exact absurd hacc (Nat.not_lt.mpr h)
  | cons c ds ih =>
    rw [takeDigits_cons]
    split
    next hfits => exact ih hfits h
    next => exact List.cons_ne_nil c ds

theorem takeExponent_of_lt {acc : Nat} {ds : List Char} (h : decimalFrom acc ds < 2147483648) :
    takeExponent acc ds = .ok (decimalFrom acc ds) := by
  induction ds generalizing acc with
  | nil => rfl
  | cons c ds ih =>
    have hnext : decimalFrom (shifted acc c) ds < 2147483648 := h
    have hle := le_decimalFrom (shifted acc c) ds
    rw [takeExponent_cons, if_pos (Nat.lt_of_le_of_lt hle hnext)]
    exact ih hnext

theorem takeExponent_of_le {acc : Nat} {ds : List Char} (hacc : acc < 2147483648)
    (h : 2147483648 ≤ decimalFrom acc ds) : ∃ tail, takeExponent acc ds = .error tail := by
  induction ds generalizing acc with
  | nil => exact absurd hacc (Nat.not_lt.mpr h)
  | cons c ds ih =>
    rw [takeExponent_cons]
    split
    next hfits => exact ih hfits h
    next => exact ⟨ds, rfl⟩

/-! ## 2. What a numeral is worth -/

theorem numberOfMagnitude_eq_ok_iff {negative : Bool} {rest : List Char} {m : Binary.Magnitude}
    {x : Number} :
    numberOfMagnitude negative rest m = .ok x ↔
      ∃ units, m = .finite units ∧ x = .double ⟨negative, units⟩ := by
  unfold numberOfMagnitude
  split
  next units => simp [eq_comm]
  next hinfinite =>
    refine iff_of_false nofun ?_
    rintro ⟨units, rfl, -⟩
    exact hinfinite units rfl

theorem ofInt?_eq_some_iff {k : Int} {i : Integer} : Integer.ofInt? k = some i ↔ i.val = k := by
  unfold Integer.ofInt?
  split
  next hrange =>
    rw [Option.some.injEq]
    cases i
    simp only [Integer.mk.injEq, eq_comm]
  next hrange =>
    refine iff_of_false nofun ?_
    rintro rfl
    exact hrange ⟨i.lower, i.upper⟩

theorem map_ofInt?_eq_some_iff {k : Int} {x : Number} :
    (Integer.ofInt? k).map Number.integer = some x ↔
      ∃ i : Integer, i.val = k ∧ Number.integer i = x := by
  simp only [Option.map_eq_some_iff, ofInt?_eq_some_iff]

/-- The number of digits without a point: an integer exactly where they write one. -/
theorem ofDigits?_eq_some_iff {negative : Bool} {digits : Nat} {x : Number} :
    Number.ofDigits? negative digits = some x ↔
      ∃ i : Integer, i.val = (if negative then -(digits : Int) else digits) ∧
        (negative = true → digits ≠ 0) ∧ Number.integer i = x := by
  unfold Number.ofDigits?
  cases negative with
  | false => simp only [Bool.false_eq_true, if_false, map_ofInt?_eq_some_iff, false_imp_iff,
      true_and]
  | true =>
    simp only [if_true]
    by_cases hzero : digits = 0
    · rw [if_pos hzero]
      exact iff_of_false nofun fun ⟨_, _, hsigned, _⟩ => hsigned trivial hzero
    · rw [if_neg hzero, map_ofInt?_eq_some_iff]
      simp only [ne_eq, hzero, not_false_eq_true, implies_true, true_and]

theorem isInteger_iff {n : Numeral} {i : Integer} :
    IsInteger n i ↔ n.fraction = none ∧ n.exponent = none ∧
      Number.ofDigits? n.negative (decimal n.whole) = some (.integer i) := by
  rw [ofDigits?_eq_some_iff]
  constructor
  · intro h
    exact ⟨h.fraction, h.exponent, i, h.value, h.signed, rfl⟩
  · rintro ⟨hfraction, hexponent, _, hvalue, hsigned, hi⟩
    cases hi
    exact ⟨hfraction, hexponent, hvalue, hsigned⟩

theorem denotes_of_not_isInteger {n : Numeral} (h : ∀ i, ¬ IsInteger n i) {x : Number} :
    Denotes n x ↔ ∃ units, magnitude n = .finite units ∧ x = .double ⟨n.negative, units⟩ := by
  constructor
  · intro hx
    cases hx with
    | integer hi => exact absurd hi (h _)
    | double _ hunits => exact ⟨_, hunits, rfl⟩
  · rintro ⟨units, hunits, rfl⟩
    exact .double h hunits

/-- With an exponent the value is the magnitude. -/
theorem value_of_exponent {n : Numeral} {negative : Bool} {ds : List Char}
    (h : n.exponent = some (negative, ds)) (rest : List Char) {x : Number} :
    n.value rest = .ok x ↔
      ∃ units, magnitude n = .finite units ∧ x = .double ⟨n.negative, units⟩ := by
  have hdecimal : decimal ds = decimalFrom 0 ds := rfl
  unfold Numeral.value magnitude significand
  simp only [h, hdecimal]
  -- The reader takes the exponent as long as it fits, the grammar compares its number.
  by_cases hfits : decimalFrom 0 ds < 2147483648
  · rw [takeExponent_of_lt hfits]
    simp only [if_pos hfits]
    exact numberOfMagnitude_eq_ok_iff
  · obtain ⟨tail, htail⟩ := takeExponent_of_le (by decide) (Nat.not_lt.mp hfits)
    rw [htail]
    simp only [if_neg hfits]
    split
    · simp [eq_comm]
    · exact iff_of_false nofun nofun

/-- A numeral without an exponent that writes no integer of 64 bits. -/
theorem value_of_plain {n : Numeral} (h : n.exponent = none) (hnot : ∀ i, ¬ IsInteger n i)
    (rest : List Char) {x : Number} :
    n.value rest = .ok x ↔
      ∃ units, magnitude n = .finite units ∧ x = .double ⟨n.negative, units⟩ := by
  unfold Numeral.value magnitude significand
  simp only [h]
  split
  next value hfraction hleft hdigits =>
    -- All digits were taken, so what was taken would be an integer of the grammar.
    have hfits : decimalFrom 0 n.whole < 18446744073709551616 := by
      by_cases hfits : decimalFrom 0 n.whole < 18446744073709551616
      · exact hfits
      · exact absurd hleft (takeDigits_of_le (by decide) (Nat.not_lt.mp hfits))
    rw [takeDigits_of_lt hfits, hfraction] at hdigits
    obtain ⟨i, -, -, rfl⟩ := ofDigits?_eq_some_iff.mp hdigits
    exact absurd (isInteger_iff.mpr ⟨hfraction, h, hdigits⟩) (hnot i)
  next => exact numberOfMagnitude_eq_ok_iff

theorem value_of_isInteger {n : Numeral} {i : Integer} (h : IsInteger n i) (rest : List Char) :
    n.value rest = .ok (.integer i) := by
  have hfits : decimalFrom 0 n.whole < 18446744073709551616 := by
    have hvalue : i.val = if n.negative then -(decimalFrom 0 n.whole : Int)
      else decimalFrom 0 n.whole := h.value
    have hlower := i.lower
    have hupper := i.upper
    split at hvalue <;> omega
  obtain ⟨hfraction, hexponent, hdigits⟩ := isInteger_iff.mp h
  have htaken : Number.ofDigits? n.negative (takeDigits (decimalFrom 0 n.whole) []).1 =
      some (.integer i) := hdigits
  unfold Numeral.value
  simp only [hexponent, hfraction, takeDigits_of_lt hfits, Option.getD_none, htaken]

/-- **A numeral is read as the number that it denotes.** -/
theorem value_eq_ok_iff {n : Numeral} {rest : List Char} {x : Number} :
    n.value rest = .ok x ↔ Denotes n x := by
  by_cases hinteger : ∃ i, IsInteger n i
  · obtain ⟨i, hi⟩ := hinteger
    rw [value_of_isInteger hi]
    constructor
    · intro h
      cases h
      exact .integer hi
    · intro h
      cases h with
      | integer hj =>
        have hvalue := (value_of_isInteger hi rest).symm.trans (value_of_isInteger hj rest)
        exact hvalue
      | double hnot => exact absurd hi (hnot i)
  · have hnot : ∀ i, ¬ IsInteger n i := fun i hi => hinteger ⟨i, hi⟩
    rw [denotes_of_not_isInteger hnot]
    cases hexponent : n.exponent with
    | none => exact value_of_plain hexponent hnot rest
    | some exponent => exact value_of_exponent hexponent rest

/-! ## 3. Reading the parts -/

/-- The text does not begin with a digit. -/
def NoDigit (r : List Char) : Prop := ∀ c ∈ r.head?, c.isDigit = false

/-- The text does not go on like a number. -/
def Ends (r : List Char) : Prop :=
  ∀ c ∈ r.head?, c.isDigit = false ∧ c ≠ '.' ∧ c ≠ 'e' ∧ c ≠ 'E'

theorem span_digits {ds r : List Char} (hds : ∀ c ∈ ds, c.isDigit = true) (hr : NoDigit r) :
    (ds ++ r).takeWhile Char.isDigit = ds ∧ (ds ++ r).dropWhile Char.isDigit = r := by
  have hnone : r.takeWhile Char.isDigit = [] ∧ r.dropWhile Char.isDigit = r := by
    cases r with
    | nil => exact ⟨rfl, rfl⟩
    | cons c r =>
      have hc : c.isDigit = false := hr c rfl
      simp [hc]
  rw [List.takeWhile_append_of_pos hds, List.dropWhile_append_of_pos hds, hnone.1, hnone.2]
  exact ⟨List.append_nil _, rfl⟩

/-- The longest stretch of digits, if there is one at all. -/
theorem digits_takeWhile {s : List Char} (h : (s.takeWhile Char.isDigit).isEmpty = false) :
    Digits (s.takeWhile Char.isDigit) ∧
      s = s.takeWhile Char.isDigit ++ s.dropWhile Char.isDigit := by
  refine ⟨⟨?_, fun c hc => ?_⟩, List.takeWhile_append_dropWhile.symm⟩
  · simpa using h
  · exact List.all_eq_true.mp List.all_takeWhile c hc

section Parts

variable {start s r : List Char} {n : Numeral} {x : Number}

theorem noDigit_value (start s : List Char) : (Lexeme.noDigit start s).value ≠ .ok x := by
  unfold Lexeme.noDigit
  split
  · exact nofun
  · exact nofun

/-- Reads the digits of an exponent from behind its sign. -/
def exponentDigits (start : List Char) (n : Numeral) (negative : Bool) (r : List Char) :
    Lexeme Number :=
  if (r.takeWhile Char.isDigit).isEmpty then .noDigit start r
  else
    .ofNumeral start { n with exponent := some (negative, r.takeWhile Char.isDigit) }
      (r.dropWhile Char.isDigit)

theorem readExponent_bare (hminus : ∀ r, s ≠ '-' :: r) (hplus : ∀ r, s ≠ '+' :: r) :
    readExponent start n s = exponentDigits start n false s := by
  unfold readExponent
  split
  next negative r hsign =>
    split at hsign
    next r => exact absurd rfl (hminus r)
    next r => exact absurd rfl (hplus r)
    next =>
      cases hsign
      rfl

/-- What stands behind the mark of an exponent is a sign, or none, and what follows on it. -/
theorem readExponent_cases (start s : List Char) (n : Numeral) :
    ∃ negative sign r, s = sign ++ r ∧
      (∀ {e : Char} {ds : List Char}, e = 'e' ∨ e = 'E' → Digits ds →
        Exponent (e :: (sign ++ ds)) (some (negative, ds))) ∧
      readExponent start n s = exponentDigits start n negative r := by
  by_cases hminus : ∃ r, s = '-' :: r
  · obtain ⟨r, rfl⟩ := hminus
    exact ⟨true, ['-'], r, rfl, .minus, rfl⟩
  · by_cases hplus : ∃ r, s = '+' :: r
    · obtain ⟨r, rfl⟩ := hplus
      exact ⟨false, ['+'], r, rfl, .plus, rfl⟩
    · refine ⟨false, [], s, rfl, .bare, readExponent_bare (fun r hr => ?_) (fun r hr => ?_)⟩
      · exact hminus ⟨r, hr⟩
      · exact hplus ⟨r, hr⟩

theorem readExponent_sound (h : (readExponent start n s).value = .ok x) {e : Char}
    (he : e = 'e' ∨ e = 'E') :
    ∃ t r exponent, e :: s = t ++ r ∧ Exponent t exponent ∧
      readExponent start n s = .ofNumeral start { n with exponent } r := by
  obtain ⟨negative, sign, r, rfl, hexponent, hread⟩ := readExponent_cases start s n
  unfold exponentDigits at hread
  cases hempty : (r.takeWhile Char.isDigit).isEmpty with
  | true =>
    rw [hread, hempty] at h
    exact absurd h (noDigit_value _ _)
  | false =>
    obtain ⟨hdigits, hsplit⟩ := digits_takeWhile hempty
    rw [hempty] at hread
    refine ⟨_, _, _, ?_, hexponent he hdigits, hread⟩
    rw [List.cons_append, List.append_assoc, ← hsplit]

theorem readScale_sound (h : (readScale start n s).value = .ok x) (hexponent : n.exponent = none) :
    ∃ t r exponent, s = t ++ r ∧ Exponent t exponent ∧
      readScale start n s = .ofNumeral start { n with exponent } r := by
  have hsame : n = { n with exponent := none } := by
    rw [← hexponent]
  unfold readScale at h ⊢
  split at h
  next r => exact readExponent_sound h (.inl rfl)
  next r => exact readExponent_sound h (.inr rfl)
  next => exact ⟨[], s, none, rfl, .none, congrArg (Lexeme.ofNumeral start · s) hsame⟩

theorem readFraction_sound (h : (readFraction start n s).value = .ok x)
    (hfraction : n.fraction = none) (hexponent : n.exponent = none) :
    ∃ f t r fraction exponent, s = f ++ (t ++ r) ∧ Fraction f fraction ∧ Exponent t exponent ∧
      readFraction start n s = .ofNumeral start { n with fraction, exponent } r := by
  unfold readFraction at h ⊢
  split at h
  next r =>
    cases hempty : (r.takeWhile Char.isDigit).isEmpty with
    | true =>
      simp only [hempty, if_true] at h
      exact absurd h (noDigit_value _ _)
    | false =>
      obtain ⟨hdigits, hsplit⟩ := digits_takeWhile hempty
      simp only [hempty, Bool.false_eq_true, if_false] at h ⊢
      obtain ⟨t, r', exponent, hr, ht, hread⟩ := readScale_sound h hexponent
      refine ⟨_, t, r', _, exponent, ?_, .digits hdigits, ht, hread⟩
      rw [← hr, List.cons_append, ← hsplit]
  next =>
    obtain ⟨t, r, exponent, hs, ht, hread⟩ := readScale_sound h hexponent
    refine ⟨[], t, r, none, exponent, hs, .none, ht, ?_⟩
    rw [hread, ← hfraction]

/-- What is read as a number is a numeral of the grammar. -/
theorem readNumber_sound {negative : Bool} (h : (readNumber start negative s).value = .ok x) :
    ∃ n f t r, n.negative = negative ∧ s = n.whole ++ (f ++ (t ++ r)) ∧ Whole n.whole ∧
      Fraction f n.fraction ∧ Exponent t n.exponent ∧
      readNumber start negative s = .ofNumeral start n r := by
  -- Whatever the whole part is, a fraction and an exponent follow on it.
  have hparts {whole r : List Char} (hwhole : Whole whole)
      (h : (readFraction start ⟨negative, whole, none, none⟩ r).value = .ok x) :
      ∃ n f t r', n.negative = negative ∧ whole ++ r = n.whole ++ (f ++ (t ++ r')) ∧
        Whole n.whole ∧ Fraction f n.fraction ∧ Exponent t n.exponent ∧
        readFraction start ⟨negative, whole, none, none⟩ r = .ofNumeral start n r' := by
    obtain ⟨f, t, r', fraction, exponent, hr, hf, ht, hread⟩ := readFraction_sound h rfl rfl
    exact ⟨⟨negative, whole, fraction, exponent⟩, f, t, r', rfl, congrArg (whole ++ ·) hr, hwhole,
      hf, ht, hread⟩
  unfold readNumber at h ⊢
  split at h
  next r =>
    split at h
    next c r' =>
      cases hc : c.isDigit with
      | true =>
        simp only [hc, if_true] at h
        cases h
      | false =>
        simp only [hc, Bool.false_eq_true, if_false] at h ⊢
        exact hparts (.inl rfl) h
    next => exact hparts (.inl rfl) h
  next hzero =>
    cases hempty : (s.takeWhile Char.isDigit).isEmpty with
    | true =>
      simp only [hempty, if_true] at h
      exact absurd h (noDigit_value _ _)
    | false =>
      obtain ⟨hdigits, hsplit⟩ := digits_takeWhile hempty
      simp only [hempty, Bool.false_eq_true, if_false] at h ⊢
      have hhead : (s.takeWhile Char.isDigit).head? ≠ some '0' := by
        intro hhead
        obtain ⟨ds, hds⟩ := List.head?_eq_some_iff.mp hhead
        rw [hds] at hsplit
        exact hzero _ hsplit
      obtain ⟨n, f, t, r, hnegative, hs, hrest⟩ := hparts (.inr ⟨hdigits, hhead⟩) h
      exact ⟨n, f, t, r, hnegative, hsplit.trans hs, hrest⟩

/-! ## 4. Reading whole numerals -/

theorem Grammar.Exponent.noDigit {t : List Char} {exponent : Option (Bool × List Char)}
    (h : Exponent t exponent) (hr : Ends r) : NoDigit (t ++ r) := by
  cases h with
  | none => exact fun c hc => (hr c hc).1
  | bare he _ | plus he _ | minus he _ =>
    intro c hc
    cases hc
    rcases he with rfl | rfl <;> rfl

theorem Grammar.Fraction.noDigit {f t : List Char} {fraction : Option (List Char)}
    (h : Fraction f fraction) (ht : NoDigit t) : NoDigit (f ++ t) := by
  cases h with
  | none => exact ht
  | digits _ =>
    intro c hc
    cases hc
    rfl

theorem Grammar.Digits.ne_cons {ds : List Char} (h : Digits ds) (r : List Char) {c : Char}
    (hc : c.isDigit = false) (t : List Char) : ds ++ r ≠ c :: t := by
  intro heq
  cases ds with
  | nil => exact h.1 rfl
  | cons d ds =>
    have hd : d.isDigit = true := h.2 d List.mem_cons_self
    rw [(List.cons.inj heq).1, hc] at hd
    cases hd

theorem Grammar.Digits.isEmpty {ds : List Char} (h : Digits ds) : ds.isEmpty = false := by
  simpa using h.1

theorem exponentDigits_complete {ds : List Char} (hds : Digits ds) (hr : NoDigit r)
    (negative : Bool) :
    exponentDigits start n negative (ds ++ r) =
      .ofNumeral start { n with exponent := some (negative, ds) } r := by
  obtain ⟨htake, hdrop⟩ := span_digits hds.2 hr
  unfold exponentDigits
  rw [htake, hdrop, hds.isEmpty]
  rfl

theorem readScale_complete {t : List Char} {exponent : Option (Bool × List Char)}
    (h : Exponent t exponent) (hr : Ends r) (hn : n.exponent = none) :
    readScale start n (t ++ r) = .ofNumeral start { n with exponent } r := by
  have hdigit : NoDigit r := fun c hc => (hr c hc).1
  have hsame : n = { n with exponent := none } := by
    rw [← hn]
  cases h with
  | none =>
    rw [List.nil_append]
    unfold readScale
    split
    next => exact absurd rfl (hr 'e' rfl).2.2.1
    next => exact absurd rfl (hr 'E' rfl).2.2.2
    next => exact congrArg (Lexeme.ofNumeral start · r) hsame
  | bare he hds =>
    have hbare : readExponent start n (_ ++ r) = _ :=
      (readExponent_bare (hds.ne_cons r (by decide)) (hds.ne_cons r (by decide))).trans
        (exponentDigits_complete hds hdigit false)
    rcases he with rfl | rfl
    · exact hbare
    · exact hbare
  | plus he hds =>
    rcases he with rfl | rfl
    · exact exponentDigits_complete hds hdigit false
    · exact exponentDigits_complete hds hdigit false
  | minus he hds =>
    rcases he with rfl | rfl
    · exact exponentDigits_complete hds hdigit true
    · exact exponentDigits_complete hds hdigit true

/-- Behind the fraction, if there is one, the exponent is next. -/
theorem readFraction_fraction {f s : List Char} {fraction : Option (List Char)}
    (hf : Fraction f fraction) (hs : NoDigit s) (hpoint : ∀ r, s ≠ '.' :: r)
    (hn : n.fraction = none) :
    readFraction start n (f ++ s) = readScale start { n with fraction } s := by
  cases hf with
  | none =>
    rw [List.nil_append, ← hn]
    unfold readFraction
    split
    next r => exact absurd rfl (hpoint r)
    next => rfl
  | digits hds =>
    obtain ⟨htake, hdrop⟩ := span_digits hds.2 hs
    rw [List.cons_append, readFraction]
    simp only [htake, hdrop, hds.isEmpty, Bool.false_eq_true, if_false]

/-- Behind the whole digits the fraction is next. -/
theorem readNumber_whole {whole s : List Char} (hwhole : Whole whole) (hs : NoDigit s)
    (negative : Bool) :
    readNumber start negative (whole ++ s) =
      readFraction start ⟨negative, whole, none, none⟩ s := by
  rcases hwhole with rfl | ⟨hds, hhead⟩
  · show readNumber start negative ('0' :: s) = _
    unfold readNumber
    cases s with
    | nil => rfl
    | cons c s =>
      have hc : c.isDigit = false := hs c rfl
      simp only [hc, Bool.false_eq_true, if_false]
  · obtain ⟨htake, hdrop⟩ := span_digits hds.2 hs
    unfold readNumber
    split
    next r heq =>
      -- The first digit is not zero, unless there is no other.
      cases whole with
      | nil => exact absurd rfl hds.1
      | cons c ds =>
        rw [(List.cons.inj heq).1] at hhead
        exact absurd rfl hhead
    next => simp only [htake, hdrop, hds.isEmpty, Bool.false_eq_true, if_false]

theorem Grammar.Exponent.ne_point {t : List Char} {exponent : Option (Bool × List Char)}
    (h : Exponent t exponent) (hr : Ends r) (r' : List Char) : t ++ r ≠ '.' :: r' := by
  intro heq
  cases h with
  | none =>
    rw [List.nil_append] at heq
    exact absurd rfl (hr '.' (by rw [heq]; rfl)).2.1
  | bare he _ | plus he _ | minus he _ =>
    rw [(List.cons.inj heq).1] at he
    rcases he with he | he <;> cases he

theorem readNumber_complete {n : Numeral} {f t : List Char} (hwhole : Whole n.whole)
    (hf : Fraction f n.fraction) (ht : Exponent t n.exponent) (hr : Ends r) :
    readNumber start n.negative (n.whole ++ (f ++ (t ++ r))) = .ofNumeral start n r := by
  have hnext : NoDigit (t ++ r) := ht.noDigit hr
  rw [readNumber_whole hwhole (hf.noDigit hnext), readFraction_fraction hf hnext (ht.ne_point hr) rfl,
    readScale_complete ht hr rfl]

end Parts

end StreamBoard.Json

import StreamBoard.Proofs.Binary.Decimals
import StreamBoard.Proofs.Json.Printing

/-!
# Decimals — numbers as they are printed, and what a cut leaves of them

A double is printed in one of four layouts, and each of them is a numeral of the grammar with few
digits in front of the point (`brief_text`).  A text that ends within a numeral leaves a numeral, or
something that lacks a digit (`readNumber_cut`).  What is left can be greater than the whole, for a
negative exponent may be missing; but with few digits in front of the point it is in range
(`Numeral.Shortens.exists_denotes`).
-/

namespace StreamBoard.Json

open Grammar Binary

/-! ## 1. Printed numbers -/

theorem isDigit_of_mem_zeros {n : Nat} {c : Char} (h : c ∈ List.replicate n '0') :
    c.isDigit = true := by
  rw [List.eq_of_mem_replicate h]
  rfl

theorem digits_zero : Digits ['0'] :=
  ⟨List.cons_ne_nil _ _, fun c hc => by rw [List.mem_singleton.mp hc]; rfl⟩

theorem whole_cons {c : Char} {ds : List Char} (hne : c ≠ '0')
    (hds : ∀ d ∈ c :: ds, d.isDigit = true) : Whole (c :: ds) := by
  refine .inr ⟨⟨List.cons_ne_nil c ds, hds⟩, ?_⟩
  rw [List.head?_cons, ne_eq, Option.some.injEq]
  exact hne

/-- A positive number does not begin with a zero. -/
theorem exists_toDigits {n : Nat} (h : 0 < n) : ∃ c ds, Nat.toDigits 10 n = c :: ds ∧ c ≠ '0' ∧
    ∀ d ∈ c :: ds, d.isDigit = true := by
  obtain ⟨c, ds, hc⟩ := List.exists_cons_of_ne_nil (Nat.toDigits_ne_nil (b := 10) (n := n))
  have hdigits := digits_toDigits n
  rcases whole_toDigits n with hzero | ⟨-, hhead⟩
  · have hvalue := decimal_toDigits n
    rw [hzero] at hvalue
    exact absurd hvalue.symm h.ne'
  · rw [hc] at hdigits hhead
    exact ⟨c, ds, hc, fun heq => hhead (congrArg some heq), hdigits.2⟩

/-- What a numeral without a sign is written of, with no more than twenty digits in front of the
point. -/
def Unsigned (t : List Char) : Prop :=
  ∃ whole f x fraction exponent, t = whole ++ (f ++ x) ∧ Whole whole ∧ Fraction f fraction ∧
    Exponent x exponent ∧ whole.length ≤ 20

theorem unsigned_point {whole ds : List Char} (hwhole : Whole whole) (hds : Digits ds)
    (hlength : whole.length ≤ 20) : Unsigned (whole ++ '.' :: ds) :=
  ⟨whole, '.' :: ds, [], _, _, by rw [List.append_nil], hwhole, .digits hds, .none, hlength⟩

/-- An exponent is printed with its sign, whichever it is. -/
theorem exists_exponent (i : Int) : ∃ negative,
    Exponent ('e' :: (if i < 0 then '-' else '+') :: Nat.toDigits 10 i.natAbs)
      (some (negative, Nat.toDigits 10 i.natAbs)) := by
  split
  · exact ⟨true, .minus (.inl rfl) (digits_toDigits _)⟩
  · exact ⟨false, .plus (.inl rfl) (digits_toDigits _)⟩

/-- Every layout of a decimal is a numeral. -/
theorem unsigned_decimalText {d : Decimal} (h : 0 < d.digits) :
    Unsigned (Double.decimalText d) := by
  obtain ⟨c, ds, hdigits, hne, hall⟩ := exists_toDigits h
  unfold Double.decimalText
  rw [hdigits]
  extract_lets digits point lead rest exponent
  split
  next hplain =>
    split
    next hwhole =>
      -- Digits and zeros in front of the point, one zero behind it.
      have hzeros : Whole (digits ++ List.replicate d.exponent.toNat '0') := whole_cons hne
        fun e he => (List.mem_append.mp he).elim (hall e) isDigit_of_mem_zeros
      apply unsigned_point hzeros digits_zero
      rw [List.length_append, List.length_replicate]
      omega
    next hfraction =>
      split
      next hpoint =>
        -- The point stands between the digits.
        obtain ⟨k, hk⟩ : ∃ k, point.toNat = k + 1 := ⟨point.toNat - 1, by omega⟩
        have hfront : Whole (digits.take (k + 1)) :=
          whole_cons hne fun e he => hall e (List.mem_of_mem_take (i := k + 1) he)
        rw [hk]
        refine unsigned_point hfront ⟨?_, fun e he => hall e (List.mem_of_mem_drop he)⟩ ?_
        · rw [ne_eq, List.drop_eq_nil_iff]
          omega
        · rw [List.length_take]
          omega
      next hpoint =>
        -- Zeros behind the point, in front of the digits.
        have hdigits : Digits (List.replicate point.natAbs '0' ++ digits) :=
          ⟨List.append_ne_nil_of_right_ne_nil _ (List.cons_ne_nil c ds),
            fun e he => (List.mem_append.mp he).elim isDigit_of_mem_zeros (hall e)⟩
        exact unsigned_point (.inl rfl) hdigits (by decide)
  next hscientific =>
    have hlead : Whole [c] := whole_cons hne fun e he => hall e (by simp_all)
    obtain ⟨negative, hexponent⟩ := exists_exponent exponent
    cases ds with
    | nil => exact ⟨[c], [], _, _, _, rfl, hlead, .none, hexponent, by simp⟩
    | cons e ds =>
      have hrest : Digits (e :: ds) := ⟨List.cons_ne_nil e ds, fun d hd => hall d (by simp_all)⟩
      exact ⟨[c], '.' :: e :: ds, _, _, _, rfl, hlead, .digits hrest, hexponent, by simp⟩

theorem unsigned_magnitude (units : Nat) :
    Unsigned (if units = 0 then ['0', '.', '0']
      else Double.decimalText (Format.double.shortest units)) := by
  split
  next =>
    have hwhole : Whole ['0'] := .inl rfl
    exact unsigned_point hwhole digits_zero (by decide)
  next hunits =>
    have hpos : 0 < units := by omega
    exact unsigned_decimalText (Format.shortest_pos (by decide) hpos)

/-- The text is a numeral with no more than twenty digits in front of the point. -/
def Brief (t : List Char) : Prop := ∃ n, Numerals t n ∧ n.whole.length ≤ 20

theorem brief_of_unsigned {t : List Char} (h : Unsigned t) (negative : Bool) :
    Brief ((if negative then ['-'] else []) ++ t) := by
  obtain ⟨whole, f, x, fraction, exponent, rfl, hwhole, hf, hx, hlength⟩ := h
  have hparts := Numerals.parts (n := ⟨negative, whole, fraction, exponent⟩) hwhole hf hx
  exact ⟨_, hparts, hlength⟩

/-- **Every number is printed as a numeral,** with few digits in front of the point. -/
theorem brief_text (x : Number) : Brief x.text := by
  cases x with
  | integer i =>
    refine ⟨_, numerals_integer i, ?_⟩
    apply (Nat.length_toDigits_le_iff (by decide) (by decide)).mpr
    have hlower := i.lower
    have hupper := i.upper
    omega
  | double x =>
    have hbrief := brief_of_unsigned (unsigned_magnitude x.units) x.negative
    have htext : x.text = (if x.negative then ['-'] else []) ++ (if x.units = 0
        then ['0', '.', '0'] else Double.decimalText (Format.double.shortest x.units)) := by
      unfold Double.text
      dsimp only
      split <;> rfl
    show Brief x.text
    rwa [htext]

/-! ## 2. Decimals in range -/

namespace Double

open Format

variable {x : Magnitude} {places : Nat}

theorem divideBy_bounded (h : places ≤ 308) (hx : double.Bounded x) :
    double.Bounded (scaleDown.divideBy places x) := by
  obtain ⟨units, hten, hunits⟩ := double_wide.exists_ofNat_ten h
  rw [scaleDown.divideBy, hten]
  exact hx.divBy hunits

theorem scaleDown_bounded {steps : Nat} (h : places ≤ 308) (hx : double.Bounded x) :
    double.Bounded (scaleDown places steps x) := by
  induction steps generalizing x with
  | zero => exact divideBy_bounded h hx
  | succ steps ih =>
    rw [scaleDown]
    split
    · exact hx
    · exact ih (divideBy_bounded (Nat.le_refl _) hx)

/-- Digits that fit in 64 bits make a finite number, up to a place that is not too high. -/
theorem ofDecimal_of_le {digits : Nat} {exponent : Int} (hdigits : digits < 18446744073709551616)
    (hexponent : exponent ≤ 20) : ∃ units, ofDecimal digits exponent = .finite units := by
  unfold ofDecimal
  dsimp only
  rw [if_neg (by omega : ¬ 308 < exponent)]
  split
  · exact ⟨0, rfl⟩
  split
  next hpos => exact (double_wide.mul_bounded hdigits (by omega)).exists_finite
  next hneg =>
    have hx := double_wide.ofNat_bounded hdigits
    exact (scaleDown_bounded (by omega) hx).exists_finite

/-- A number in range is still in range at a lower place, if no digit comes behind the point. -/
theorem ofDecimal_mono {digits units : Nat} {low high : Int}
    (h : ofDecimal digits high = .finite units) (hlow : 0 ≤ low) (hle : low ≤ high) :
    ∃ units, ofDecimal digits low = .finite units := by
  unfold ofDecimal at h ⊢
  dsimp only at h ⊢
  by_cases hzero : digits = 0
  · rw [if_pos hzero]
    exact ⟨0, rfl⟩
  by_cases hhigh : 308 < high
  · rw [if_neg hzero, if_pos hhigh] at h
    cases h
  rw [if_neg hzero, if_neg hhigh, if_pos (by omega : 0 ≤ high)] at h
  rw [if_neg hzero, if_neg (by omega : ¬ 308 < low), if_pos hlow]
  have hten : (double.ofNat (Nat.pow 10 low.toNat)).Le (double.ofNat (Nat.pow 10 high.toNat)) :=
    round_mono double_wide.precision_pos Nat.one_pos
      (Nat.mul_le_mul_right _ (Nat.pow_le_pow_right (by decide) (by omega)))
  obtain ⟨least, hleast, -⟩ :=
    mul_mono double_wide.precision_pos (Magnitude.Le.refl _) hten units h
  exact ⟨least, hleast⟩

end Double

/-! ## 3. Numerals cut short -/

/-- The numeral is what is left of another one when its end is missing: there is no exponent left, or
only the first digits of it. -/
inductive Numeral.Shortens : Numeral → Numeral → Prop
  | digits {n n' : Numeral} :
      n'.whole.length ≤ n.whole.length → n'.exponent = none → Shortens n' n
  | exponent {n : Numeral} {negative : Bool} {ds es : List Char} :
      Shortens { n with exponent := some (negative, ds) }
        { n with exponent := some (negative, ds ++ es) }

/-- A number was cut short: either a digit is missing at the end of the text, or what is left is a
numeral again. -/
def Lexeme.Shortened (l : Lexeme Number) (start : List Char) (n : Numeral) : Prop :=
  l = .noDigit start [] ∨ ∃ n', n'.Shortens n ∧ l = .ofNumeral start n' []

section Shortened

variable {start p q x f : List Char} {n : Numeral} {fraction : Option (List Char)}
  {exponent : Option (Bool × List Char)}

theorem Grammar.Digits.of_append {ds es : List Char} (h : Digits (ds ++ es)) (hne : ds ≠ []) :
    Digits ds :=
  ⟨hne, fun c hc => h.2 c (List.mem_append_left es hc)⟩

/-- A whole part that is cut short is a whole part, as long as anything is left of it. -/
theorem Grammar.Whole.of_append {ds es : List Char} (h : Whole (ds ++ es)) (hne : ds ≠ []) :
    Whole ds := by
  obtain ⟨c, ds, rfl⟩ := List.exists_cons_of_ne_nil hne
  rcases h with hzero | ⟨hdigits, hhead⟩
  · have hnil := (List.cons.inj hzero).2
    rw [(List.cons.inj hzero).1, (List.append_eq_nil_iff.mp hnil).1]
    exact .inl rfl
  · exact .inr ⟨hdigits.of_append hne, hhead⟩

theorem exponentDigits_cut {negative : Bool} {ds : List Char} (hds : Digits ds)
    (h : ds = p ++ q) :
    (exponentDigits start n negative p).Shortened start
      { n with exponent := some (negative, ds) } := by
  subst h
  by_cases hp : p = []
  · subst hp
    exact .inl rfl
  · have hend : NoDigit [] := nofun
    have hread : exponentDigits start n negative (p ++ []) = _ :=
      exponentDigits_complete (hds.of_append hp) hend negative
    rw [List.append_nil] at hread
    exact .inr ⟨_, .exponent, hread⟩

theorem readScale_mark {e : Char} (he : e = 'e' ∨ e = 'E') (r : List Char) :
    readScale start n (e :: r) = readExponent start n r := by
  rcases he with rfl | rfl <;> rfl

theorem readScale_cut (hx : Exponent x exponent) (h : x = p ++ q) (hn : n.exponent = none) :
    (readScale start n p).Shortened start { n with exponent } := by
  cases p with
  | nil => exact .inr ⟨n, .digits (Nat.le_refl _) hn, rfl⟩
  | cons c p =>
    cases hx with
    | none => cases h
    | bare he hds =>
      obtain ⟨rfl, hsplit⟩ := List.cons.inj h
      have hsign : ∀ {d : Char} (r : List Char), d.isDigit = false → p ≠ d :: r := by
        rintro d r hd rfl
        have hdigit := hds.2 d (by rw [hsplit]; exact List.mem_cons_self)
        rw [hd] at hdigit
        cases hdigit
      rw [readScale_mark he, readExponent_bare (fun r => hsign r rfl) (fun r => hsign r rfl)]
      exact exponentDigits_cut hds hsplit
    | plus he hds | minus he hds =>
      obtain ⟨rfl, hrest⟩ := List.cons.inj h
      rw [readScale_mark he]
      -- The sign is missing as well, or it is still there.
      cases p with
      | nil => exact .inl rfl
      | cons sign p =>
        obtain ⟨rfl, hsplit⟩ := List.cons.inj hrest
        exact exponentDigits_cut (p := p) hds hsplit

theorem Grammar.Exponent.head_of_append (hx : Exponent x exponent) (h : x = p ++ q) :
    NoDigit p ∧ ∀ r, p ≠ '.' :: r := by
  cases p with
  | nil => exact ⟨nofun, nofun⟩
  | cons c p =>
    have hmark : c = 'e' ∨ c = 'E' := by
      cases hx with
      | none => cases h
      | bare he _ | plus he _ | minus he _ =>
        rw [← (List.cons.inj h).1]
        exact he
    rcases hmark with rfl | rfl
    · exact ⟨by rintro _ ⟨⟩; rfl, nofun⟩
    · exact ⟨by rintro _ ⟨⟩; rfl, nofun⟩

theorem Grammar.Fraction.noDigit_of_append (hf : Fraction f fraction) (hx : Exponent x exponent)
    (h : f ++ x = p ++ q) : NoDigit p := by
  cases hf with
  | none => exact (hx.head_of_append h).1
  | digits _ =>
    cases p with
    | nil => exact nofun
    | cons c p =>
      rw [← (List.cons.inj h).1]
      rintro _ ⟨⟩
      rfl

theorem readFraction_cut {whole : List Char} {negative : Bool} (hf : Fraction f fraction)
    (hx : Exponent x exponent) (h : f ++ x = p ++ q) :
    (readFraction start ⟨negative, whole, none, none⟩ p).Shortened start
      ⟨negative, whole, fraction, exponent⟩ := by
  rcases List.append_eq_append_iff.mp h with ⟨p, rfl, hsplit⟩ | ⟨q, hsplit, rfl⟩
  · -- The fraction is still there.
    obtain ⟨hdigit, hpoint⟩ := hx.head_of_append hsplit
    rw [readFraction_fraction hf hdigit hpoint rfl]
    exact readScale_cut (n := ⟨negative, whole, fraction, none⟩) hx hsplit rfl
  · cases p with
    | nil => exact .inr ⟨⟨negative, whole, none, none⟩, .digits (Nat.le_refl _) rfl, rfl⟩
    | cons c p =>
      cases hf with
      | none => cases hsplit
      | digits hds =>
        obtain ⟨rfl, hrest⟩ := List.cons.inj hsplit
        by_cases hp : p = []
        · subst hp
          exact .inl rfl
        · rw [hrest] at hds
          have hread : readFraction start ⟨negative, whole, none, none⟩ ('.' :: p ++ []) = _ :=
            readFraction_fraction (.digits (hds.of_append hp)) nofun nofun rfl
          rw [List.append_nil] at hread
          exact .inr ⟨⟨negative, whole, some p, none⟩, .digits (Nat.le_refl _) rfl, hread⟩

/-- Every cut through a numeral leaves a numeral, or a text that lacks a digit at its end. -/
theorem readNumber_cut (hwhole : Whole n.whole) (hf : Fraction f n.fraction)
    (hx : Exponent x n.exponent) (h : n.whole ++ (f ++ x) = p ++ q) :
    (readNumber start n.negative p).Shortened start n := by
  rcases List.append_eq_append_iff.mp h with ⟨p, rfl, hsplit⟩ | ⟨q, hsplit, rfl⟩
  · rw [readNumber_whole hwhole (hf.noDigit_of_append hx hsplit)]
    exact readFraction_cut hf hx hsplit
  · by_cases hp : p = []
    · subst hp
      exact .inl rfl
    · rw [hsplit] at hwhole
      have hend : NoDigit [] := nofun
      have hread : readNumber start n.negative (p ++ []) = _ :=
        readNumber_whole (hwhole.of_append hp) hend n.negative
      rw [List.append_nil] at hread
      refine .inr ⟨_, .digits ?_ rfl, hread⟩
      rw [hsplit, List.length_append]
      exact Nat.le_add_right _ _

end Shortened

/-! ## 4. What is left is in range -/

theorem takeDigits_fst_lt {acc : Nat} (h : acc < 18446744073709551616) (ds : List Char) :
    (takeDigits acc ds).1 < 18446744073709551616 := by
  induction ds generalizing acc with
  | nil => exact h
  | cons c ds ih =>
    rw [takeDigits_cons]
    split
    next hfits => exact ih hfits
    next => exact h

theorem takeDigits_snd_length_le (acc : Nat) (ds : List Char) :
    (takeDigits acc ds).2.length ≤ ds.length := by
  induction ds generalizing acc with
  | nil => exact Nat.le_refl _
  | cons c ds ih =>
    rw [takeDigits_cons]
    split
    · exact (ih _).trans (Nat.le_succ _)
    · exact Nat.le_refl _

theorem significand_bounds (n : Numeral) :
    (significand n).1 < 18446744073709551616 ∧ (significand n).2 ≤ n.whole.length := by
  have hwhole := takeDigits_fst_lt (by decide : 0 < 18446744073709551616) n.whole
  have hleft := takeDigits_snd_length_le 0 n.whole
  unfold significand
  exact ⟨takeDigits_fst_lt hwhole _, by dsimp only; omega⟩

theorem decimal_le_append (ds es : List Char) : decimal ds ≤ decimal (ds ++ es) := by
  have happend : decimal (ds ++ es) = decimalFrom (decimal ds) es := List.foldl_append
  rw [happend]
  exact le_decimalFrom _ _

theorem exists_denotes {n : Numeral} (h : ∃ units, magnitude n = .finite units) :
    ∃ x, Denotes n x := by
  by_cases hinteger : ∃ i, IsInteger n i
  · obtain ⟨i, hi⟩ := hinteger
    exact ⟨_, .integer hi⟩
  · obtain ⟨units, hunits⟩ := h
    exact ⟨_, .double (fun i hi => hinteger ⟨i, hi⟩) hunits⟩

/-- With an exponent a number is what its magnitude says. -/
theorem magnitude_of_denotes {n : Numeral} {x : Number} {e : Bool × List Char}
    (h : Denotes n x) (he : n.exponent = some e) : ∃ units, magnitude n = .finite units := by
  have hnot : ∀ i, ¬ IsInteger n i := by
    intro i hi
    rw [hi.exponent] at he
    cases he
  obtain ⟨units, hunits, -⟩ := (denotes_of_not_isInteger hnot).mp h
  exact ⟨units, hunits⟩

theorem magnitude_exponent (n : Numeral) (negative : Bool) (ds : List Char) :
    magnitude { n with exponent := some (negative, ds) } =
      if decimal ds < 2147483648 then
        Double.ofDecimal (significand n).1
          (if negative then (significand n).2 - decimal ds else (significand n).2 + decimal ds)
      else if (significand n).1 = 0 ∨ negative = true then .finite 0 else .infinite :=
  rfl

/-- A number whose exponent is cut short is still in range: a negative exponent is not needed for
it, and a positive one gets smaller. -/
theorem exists_magnitude_of_exponent {n : Numeral} {negative : Bool} {ds es : List Char}
    (hlength : n.whole.length ≤ 20)
    (h : ∃ units, magnitude { n with exponent := some (negative, ds ++ es) } = .finite units) :
    ∃ units, magnitude { n with exponent := some (negative, ds) } = .finite units := by
  obtain ⟨hdigits, hscale⟩ := significand_bounds n
  have hle := decimal_le_append ds es
  rw [magnitude_exponent] at h ⊢
  generalize (significand n).1 = digits at hdigits h ⊢
  generalize (significand n).2 = scale at hscale h ⊢
  -- Nothing but zeros stays zero, whatever the exponent.
  by_cases hzero : digits = 0
  · subst hzero
    exact ⟨0, by split <;> rfl⟩
  cases negative with
  | true =>
    simp only [if_true, or_true]
    split
    · exact Double.ofDecimal_of_le hdigits (by omega)
    · exact ⟨0, rfl⟩
  | false =>
    simp only [Bool.false_eq_true, if_false, or_false, hzero] at h ⊢
    by_cases hfits : decimal (ds ++ es) < 2147483648
    · rw [if_pos hfits] at h
      rw [if_pos (Nat.lt_of_le_of_lt hle hfits)]
      obtain ⟨units, hunits⟩ := h
      by_cases hpos : 0 ≤ scale + decimal ds
      · exact Double.ofDecimal_mono hunits hpos (by omega)
      · exact Double.ofDecimal_of_le hdigits (by omega)
    · rw [if_neg hfits] at h
      obtain ⟨units, hunits⟩ := h
      cases hunits

/-- **A number cut short is still in range,** if it does not have many digits in front of the
point. -/
theorem Numeral.Shortens.exists_denotes {n n' : Numeral} {x : Number} (h : n'.Shortens n)
    (hlength : n.whole.length ≤ 20) (hx : Denotes n x) : ∃ y, Denotes n' y := by
  apply Json.exists_denotes
  cases h with
  | digits hle hexponent =>
    obtain ⟨hdigits, hscale⟩ := significand_bounds n'
    unfold magnitude
    simp only [hexponent]
    exact Double.ofDecimal_of_le hdigits (by omega)
  | exponent =>
    exact exists_magnitude_of_exponent hlength (magnitude_of_denotes hx rfl)

end StreamBoard.Json

import Mathlib.Data.List.TakeWhile
import StreamBoard.Proofs.Json.Numerals

/-!
# Scalars — words, strings and numbers behind blanks

A scalar is read from its first character on, and it ends where its text does.  Words and strings
end by themselves; a number ends where the text does not go on like one.
-/

namespace StreamBoard.Json

open Grammar

/-! ## 1. Blanks -/

theorem isBlank_iff {c : Char} : isBlank c = true ↔ c = ' ' ∨ c = '\t' ∨ c = '\n' ∨ c = '\r' := by
  simp only [isBlank, Bool.or_eq_true, beq_iff_eq]
  constructor
  · rintro (((h | h) | h) | h) <;> simp [h]
  · rintro (h | h | h | h) <;> simp [h]

theorem Grammar.Blanks.nil : Blanks [] := nofun

theorem Grammar.Blanks.append {w u : List Char} (hw : Blanks w) (hu : Blanks u) :
    Blanks (w ++ u) := by
  intro c hc
  rcases List.mem_append.mp hc with hc | hc
  · exact hw c hc
  · exact hu c hc

/-- All blanks in front are skipped. -/
theorem exists_blanks (s : List Char) : ∃ w, Blanks w ∧ s = w ++ skipBlanks s := by
  refine ⟨s.takeWhile isBlank, fun c hc => ?_, List.takeWhile_append_dropWhile.symm⟩
  exact isBlank_iff.mp (List.all_eq_true.mp List.all_takeWhile c hc)

theorem skipBlanks_append {w : List Char} (hw : Blanks w) {c : Char} (hc : isBlank c = false)
    (s : List Char) : skipBlanks (w ++ c :: s) = c :: s := by
  have hall : ∀ d ∈ w, isBlank d = true := fun d hd => isBlank_iff.mpr (hw d hd)
  rw [skipBlanks, List.dropWhile_append_of_pos hall, List.dropWhile_cons_of_neg (by simp [hc])]

theorem skipBlanks_blanks {w : List Char} (hw : Blanks w) : skipBlanks w = [] := by
  have hall : ∀ d ∈ w, isBlank d = true := fun d hd => isBlank_iff.mpr (hw d hd)
  exact List.dropWhile_eq_nil_iff.mpr hall

theorem ends_nil : Ends [] := nofun

theorem ends_cons {c : Char} (h : c.isDigit = false ∧ c ≠ '.' ∧ c ≠ 'e' ∧ c ≠ 'E')
    (r : List Char) : Ends (c :: r) := by
  intro d hd
  cases hd
  exact h

/-- Where a value ends, the text does not go on like a number. -/
theorem ends_append {u : List Char} (hu : Blanks u) {r : List Char} (hr : Ends r) :
    Ends (u ++ r) := by
  cases u with
  | nil => exact hr
  | cons c u =>
    refine ends_cons ?_ _
    rcases hu c List.mem_cons_self with rfl | rfl | rfl | rfl <;> decide

/-! ## 2. Scalars -/

theorem readWord_eq_ok_iff {word s r : List Char} : readWord word s = .ok r ↔ s = word ++ r := by
  induction word generalizing s with
  | nil =>
    rw [readWord, Except.ok.injEq]
    rfl
  | cons w word ih =>
    cases s with
    | nil => exact iff_of_false nofun nofun
    | cons c s =>
      rw [readWord]
      split
      next heq => rw [ih, heq, List.cons_append, List.cons.injEq, and_iff_right rfl]
      next hne =>
        refine iff_of_false nofun fun heq => ?_
        exact hne (List.cons.inj heq).1.symm

theorem ofWord_sound {start word s : List Char} {x y : Scalar}
    (h : (Lexeme.ofWord start x word s).value = .ok y) :
    ∃ r, s = word ++ r ∧ y = x ∧ (Lexeme.ofWord start x word s).Takes y r := by
  have hvalue := h
  unfold Lexeme.ofWord at h
  split at h
  next r hr =>
    cases h
    refine ⟨r, readWord_eq_ok_iff.mp hr, rfl, hvalue, ?_⟩
    rw [Lexeme.ofWord, hr]
    rfl
  next => cases h

theorem ofWord_complete (start word r : List Char) (x : Scalar) :
    (Lexeme.ofWord start x word (word ++ r)).Takes x r := by
  rw [Lexeme.ofWord, readWord_eq_ok_iff.mpr rfl]
  exact ⟨rfl, rfl⟩

theorem ofNumeral_takes {start r : List Char} {n : Numeral} {x : Number} (h : Denotes n x) :
    (Lexeme.ofNumeral start n r).Takes x r :=
  ⟨value_eq_ok_iff.mpr h, rfl⟩

/-- A number that is read is one of the grammar. -/
theorem number_sound {start s : List Char} {negative : Bool} {x : Number}
    (h : (readNumber start negative s).value = .ok x) :
    ∃ t r, (if negative then ['-'] else []) ++ s = t ++ r ∧ Plain t (.number x) ∧
      (readNumber start negative s).Takes x r := by
  obtain ⟨n, f, t, r, rfl, rfl, hwhole, hf, ht, hread⟩ := readNumber_sound h
  rw [hread] at h ⊢
  have hx : Denotes n x := value_eq_ok_iff.mp h
  exact ⟨_, r, by simp, .number (.parts hwhole hf ht) hx, ofNumeral_takes hx⟩

theorem scalar_sound {s : List Char} {x : Scalar} (h : (Lexeme.scalar s).value = .ok x) :
    ∃ t r, s = t ++ r ∧ Plain t x ∧ (Lexeme.scalar s).Takes x r := by
  -- The first character tells which reader it is.
  unfold Lexeme.scalar at h ⊢
  split at h
  next => cases h
  next =>
    obtain ⟨r, hs, rfl, htakes⟩ := ofWord_sound h
    exact ⟨_, r, congrArg ('n' :: ·) hs, .null, htakes⟩
  next =>
    obtain ⟨r, hs, rfl, htakes⟩ := ofWord_sound h
    exact ⟨_, r, congrArg ('t' :: ·) hs, .true, htakes⟩
  next =>
    obtain ⟨r, hs, rfl, htakes⟩ := ofWord_sound h
    exact ⟨_, r, congrArg ('f' :: ·) hs, .false, htakes⟩
  next s =>
    obtain ⟨y, hy, rfl⟩ := map_eq_ok_iff.mp h
    obtain ⟨t, cs, r, hs, hchars, rfl, htakes⟩ := ofString_sound hy
    refine ⟨'"' :: (t ++ ['"']), r, ?_, .string hchars, htakes.map Scalar.string⟩
    rw [hs]
    simp
  next s =>
    obtain ⟨y, hy, rfl⟩ := map_eq_ok_iff.mp h
    obtain ⟨t, r, hs, hplain, htakes⟩ := number_sound hy
    exact ⟨t, r, hs, hplain, htakes.map Scalar.number⟩
  next c s _ _ _ _ _ =>
    cases hc : c.isDigit with
    | true =>
      simp only [hc, if_true] at h ⊢
      obtain ⟨y, hy, rfl⟩ := map_eq_ok_iff.mp h
      obtain ⟨t, r, hs, hplain, htakes⟩ := number_sound hy
      exact ⟨t, r, hs, hplain, htakes.map Scalar.number⟩
    | false =>
      simp only [hc, Bool.false_eq_true, if_false] at h
      cases h

theorem ne_of_isDigit {c d : Char} (hc : c.isDigit = true) (hd : d.isDigit = false) : c ≠ d := by
  rintro rfl
  rw [hc] at hd
  cases hd

theorem scalar_of_digit {c : Char} (hc : c.isDigit = true) (s : List Char) :
    Lexeme.scalar (c :: s) = (readNumber (c :: s) false (c :: s)).map .number := by
  rw [Lexeme.scalar, if_pos hc]
  all_goals exact ne_of_isDigit hc (by decide)

theorem Grammar.Whole.head {ds : List Char} (h : Whole ds) :
    ∃ c rest, ds = c :: rest ∧ c.isDigit = true := by
  rcases h with rfl | ⟨hds, -⟩
  · exact ⟨'0', [], rfl, by decide⟩
  · cases ds with
    | nil => exact absurd rfl hds.1
    | cons c rest => exact ⟨c, rest, rfl, hds.2 c List.mem_cons_self⟩

theorem Grammar.Numerals.head {t : List Char} {n : Numeral} (h : Numerals t n) :
    ∃ c rest, t = c :: rest ∧ (c = '-' ∨ c.isDigit = true) := by
  cases h with
  | parts hwhole _ _ =>
    cases n.negative with
    | true => exact ⟨'-', _, rfl, .inl rfl⟩
    | false =>
      obtain ⟨c, rest, hc, hdigit⟩ := hwhole.head
      rw [hc]
      exact ⟨c, _, rfl, .inr hdigit⟩

/-- A numeral is read as a whole, and for what it is worth. -/
theorem scalar_numeral {t r : List Char} {n : Numeral} (h : Numerals t n) (hr : Ends r) :
    ∃ start, Lexeme.scalar (t ++ r) = (Lexeme.ofNumeral start n r).map .number := by
  cases h with
  | parts hwhole hf ht =>
    rename_i f t
    have hread : ∀ start, readNumber start n.negative (n.whole ++ (f ++ (t ++ r))) =
        .ofNumeral start n r := fun _ => readNumber_complete hwhole hf ht hr
    cases hsign : n.negative with
    | true =>
      rw [hsign] at hread
      simp only [if_true, List.append_assoc]
      exact ⟨_, congrArg (Lexeme.map Scalar.number) (hread _)⟩
    | false =>
      obtain ⟨c, rest, hc, hdigit⟩ := hwhole.head
      rw [hsign] at hread
      simp only [Bool.false_eq_true, if_false, List.nil_append, List.append_assoc]
      rw [hc, List.cons_append] at hread ⊢
      rw [scalar_of_digit hdigit]
      exact ⟨_, congrArg (Lexeme.map Scalar.number) (hread _)⟩

theorem number_complete {t r : List Char} {n : Numeral} {x : Number} (h : Numerals t n)
    (hx : Denotes n x) (hr : Ends r) : (Lexeme.scalar (t ++ r)).Takes (.number x) r := by
  obtain ⟨start, hread⟩ := scalar_numeral h hr
  rw [hread]
  exact (ofNumeral_takes hx).map Scalar.number

theorem scalar_complete {t r : List Char} {x : Scalar} (h : Plain t x) (hr : Ends r) :
    (Lexeme.scalar (t ++ r)).Takes x r := by
  cases h with
  | null => exact ofWord_complete _ ['u', 'l', 'l'] r .null
  | true => exact ofWord_complete _ ['r', 'u', 'e'] r (.bool Bool.true)
  | false => exact ofWord_complete _ ['a', 'l', 's', 'e'] r (.bool Bool.false)
  | string hchars =>
    have htakes := fun start => (ofString_complete hchars start r).map Scalar.string
    rw [List.cons_append, List.append_assoc]
    exact htakes _
  | number hnumeral hx => exact number_complete hnumeral hx hr

end StreamBoard.Json

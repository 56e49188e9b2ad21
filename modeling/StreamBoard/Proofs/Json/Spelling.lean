import StreamBoard.Proofs.Json.Decimals

/-!
# Spelling — where a printed value ends

What reads within a text was written by the grammar, but not for that where one would expect it: the
grammar only says that some stretch of the text was read.  For printed values it is the expected
one.  Where the text of a value is read, it is read to its end, whatever stands behind it
(`spelled`), so the text of each of its parts is one of the grammar as well (`Written.items`,
`Written.members`).
-/

namespace StreamBoard.Json

open Grammar

/-! ## 1. Heads of printed values -/

theorem scalar_text_head (x : Scalar) : ∃ c rest, x.toJson.text = c :: rest ∧ OpensScalar c := by
  cases x with
  | number x =>
    obtain ⟨n, hn, -⟩ := brief_text x
    exact numeral_head hn
  | null => exact scalar_head (plain_text .null trivial)
  | bool b => exact scalar_head (plain_text (.bool b) trivial)
  | string s => exact scalar_head (plain_text (.string s) trivial)

/-- The text of a value begins with a character that is no blank and closes no array. -/
theorem head_text (v : Json) : ∃ c rest, v.text = c :: rest ∧ isBlank c = false ∧ c ≠ ']' := by
  have hscalar : ∀ x : Scalar, ∃ c rest, x.toJson.text = c :: rest ∧ isBlank c = false ∧ c ≠ ']' :=
    fun x => by
      obtain ⟨c, rest, hc, hblank, hne, -⟩ := scalar_text_head x
      exact ⟨c, rest, hc, hblank, hne⟩
  cases v with
  | null => exact hscalar .null
  | bool b => exact hscalar (.bool b)
  | number n => exact hscalar (.number n)
  | string s => exact hscalar (.string s)
  | array l => cases l <;> exact ⟨'[', _, rfl, by decide⟩
  | object l => cases l <;> exact ⟨'\x7b', _, rfl, by decide⟩

/-! ## 2. Ends of printed values -/

/-- Where the text of a value is read, it is read to its end. -/
def Spelled (v : Json) : Prop :=
  ∀ bound depth r u, Ends r → (v.text ++ r).length ≤ bound →
    (outline bound depth (v.text ++ r)).value = .ok u →
      (outline bound depth (v.text ++ r)).rest? = some r

def SpelledItems (l : List Json) : Prop :=
  ∀ bound depth r vs, (textItems l ++ r).length ≤ bound →
    (moreItems bound depth (textItems l ++ r)).values = .ok vs →
      (moreItems bound depth (textItems l ++ r)).ending.rest? = some r

def SpelledMembers (l : List (String × Json)) : Prop :=
  ∀ bound depth r vs, (textMembers l ++ r).length ≤ bound →
    (moreMembers bound depth (textMembers l ++ r)).values = .ok vs →
      (moreMembers bound depth (textMembers l ++ r)).ending.rest? = some r

section Parts

variable {bound depth : Nat} {r : List Char} {x : Json}

theorem length_of_append {s t : List Char} (h : (s ++ t).length ≤ bound) : t.length ≤ bound := by
  rw [List.length_append] at h
  omega

theorem openItems_text (x : Json) (s : List Char) :
    openItems bound depth (x.text ++ s) =
      itemThen (outline bound depth (x.text ++ s)) (moreItems bound depth) := by
  obtain ⟨c, rest, hc, hblank, hne⟩ := head_text x
  have hskip : skipBlanks (x.text ++ s) = c :: (rest ++ s) := by
    rw [hc]
    exact skipBlanks_append .nil hblank _
  rw [openItems_of_cons hskip hne, hc]
  rfl

theorem moreItems_text (x : Json) (xs : List Json) (r : List Char) :
    moreItems (bound + 1) depth (',' :: (x.text ++ (textItems xs ++ r))) =
      openItems bound depth (x.text ++ (textItems xs ++ r)) := by
  obtain ⟨c, rest, hc, hblank, hne⟩ := head_text x
  have hskip : skipBlanks (x.text ++ (textItems xs ++ r)) = c :: (rest ++ (textItems xs ++ r)) := by
    rw [hc]
    exact skipBlanks_append .nil hblank _
  exact moreItems_comma .nil hskip hne

theorem moreMembers_text (k : String) (s : List Char) :
    moreMembers (bound + 1) depth (',' :: (quote k.toList ++ s)) =
      openMembers bound depth (quote k.toList ++ s) :=
  moreMembers_comma .nil rfl

/-- Items that are read: the first one is, and those behind it are. -/
theorem openItems_parts {xs l : List Json} (hx : x.Spelled)
    (hbound : (x.text ++ (textItems xs ++ r)).length ≤ bound)
    (h : (openItems bound depth (x.text ++ (textItems xs ++ r))).values = .ok l) :
    (∃ u, (outline bound depth (x.text ++ (textItems xs ++ r))).value = .ok u) ∧
      (∃ vs, (moreItems bound depth (textItems xs ++ r)).values = .ok vs) ∧
      (openItems bound depth (x.text ++ (textItems xs ++ r))).ending =
        (moreItems bound depth (textItems xs ++ r)).ending := by
  rw [openItems_text] at h ⊢
  obtain ⟨u, hu, hmore⟩ := itemThen_values h
  obtain ⟨vs, -, hvs, hending⟩ := hmore _ (hx bound depth _ u (ends_textItems xs) hbound hu)
  exact ⟨⟨u, hu⟩, ⟨vs, hvs⟩, hending⟩

theorem openMembers_parts {k : String} {xs l : List (String × Json)} (hx : x.Spelled)
    (hbound : (x.text ++ (textMembers xs ++ r)).length ≤ bound)
    (h : (openMembers bound depth
      (quote k.toList ++ ':' :: (x.text ++ (textMembers xs ++ r)))).values = .ok l) :
    (∃ u, (outline bound depth (x.text ++ (textMembers xs ++ r))).value = .ok u) ∧
      (∃ vs, (moreMembers bound depth (textMembers xs ++ r)).values = .ok vs) ∧
      (openMembers bound depth
        (quote k.toList ++ ':' :: (x.text ++ (textMembers xs ++ r)))).ending =
          (moreMembers bound depth (textMembers xs ++ r)).ending := by
  obtain ⟨key, hkey, hopen⟩ := openMembers_key bound depth k
    (':' :: (x.text ++ (textMembers xs ++ r)))
  rw [hopen] at h ⊢
  have hbehind : valueBehind key (outline bound depth) =
      outline bound depth (x.text ++ (textMembers xs ++ r)) :=
    valueBehind_of_colon (by rw [Lexeme.next_of_rest? hkey.rest]; rfl)
  obtain ⟨k', -, hmore⟩ := memberThen_values h
  obtain ⟨u, hu, hmore⟩ := hmore _ hkey.rest
  rw [hbehind] at hu hmore
  obtain ⟨vs, -, hvs, hending⟩ := hmore _ (hx bound depth _ u (ends_textMembers xs) hbound hu)
  exact ⟨⟨u, hu⟩, ⟨vs, hvs⟩, hending⟩

theorem outline_text_scalar (x : Scalar) (s : List Char) :
    outline (bound + 1) depth (x.toJson.text ++ s) = .scalar (.scalar (x.toJson.text ++ s)) := by
  obtain ⟨c, rest, hc, hblank, -, harray, hobject⟩ := scalar_text_head x
  rw [hc]
  exact outline_scalar (skipBlanks_append .nil hblank _) harray hobject

theorem spelled_scalar (x : Scalar) : x.toJson.Spelled := by
  intro bound depth r u hr hbound _
  obtain ⟨c, rest, hc, -⟩ := scalar_text_head x
  have hlength : (c :: (rest ++ r)).length ≤ bound := by
    rw [hc] at hbound
    exact hbound
  obtain ⟨bound, rfl, -⟩ := bound_of_nonempty hlength
  rw [outline_text_scalar]
  show (Lexeme.scalar (x.toJson.text ++ r)).rest? = some r
  cases x with
  | number x =>
    -- Whether the number is in range or not, the numeral is read as a whole.
    obtain ⟨n, hn, -⟩ := brief_text x
    obtain ⟨start, hread⟩ := scalar_numeral hn hr
    show (Lexeme.scalar (x.text ++ r)).rest? = some r
    rw [hread]
    rfl
  | null => exact (scalar_complete (plain_text .null trivial) hr).rest
  | bool b => exact (scalar_complete (plain_text (.bool b) trivial) hr).rest
  | string s => exact (scalar_complete (plain_text (.string s) trivial) hr).rest

end Parts

/-- What has a value is not too deep. -/
theorem depth_of_value {bound depth : Nat} {s r : List Char} {u : Json}
    (hs : skipBlanks s = '[' :: r ∨ skipBlanks s = '\x7b' :: r)
    (h : (outline (bound + 1) depth s).value = .ok u) : ∃ inner, depth = inner + 1 := by
  cases depth with
  | zero => exact absurd h (outline_value_of_zero hs)
  | succ inner => exact ⟨inner, rfl⟩

mutual

/-- **Where the text of a value is read, it is read to its end.** -/
theorem spelled : (v : Json) → v.Spelled
  | .null => spelled_scalar .null
  | .bool b => spelled_scalar (.bool b)
  | .number x => spelled_scalar (.number x)
  | .string s => spelled_scalar (.string s)
  | .array [] => fun bound depth r u _ hbound hu => by
    obtain ⟨bound, rfl, -⟩ := bound_of_nonempty hbound
    obtain ⟨depth, rfl⟩ := depth_of_value (.inl rfl) hu
    rfl
  | .object [] => fun bound depth r u _ hbound hu => by
    obtain ⟨bound, rfl, -⟩ := bound_of_nonempty hbound
    obtain ⟨depth, rfl⟩ := depth_of_value (.inr rfl) hu
    rfl
  | .array (x :: xs) => fun bound depth r u _ hbound hu => by
    rw [text_array] at hbound hu ⊢
    obtain ⟨bound, rfl, hrest⟩ := bound_of_nonempty hbound
    obtain ⟨depth, rfl⟩ := depth_of_value (.inl rfl) hu
    rw [outline_array rfl] at hu ⊢
    obtain ⟨l, hl, -⟩ := map_eq_ok_iff.mp hu
    obtain ⟨-, ⟨vs, hvs⟩, hending⟩ := openItems_parts (spelled x) hrest hl
    show (openItems bound depth _).ending.rest? = some r
    rw [hending]
    exact spelledItems xs bound depth r vs (length_of_append hrest) hvs
  | .object ((k, x) :: xs) => fun bound depth r u _ hbound hu => by
    rw [text_object] at hbound hu ⊢
    obtain ⟨bound, rfl, hrest⟩ := bound_of_nonempty hbound
    obtain ⟨depth, rfl⟩ := depth_of_value (.inr rfl) hu
    rw [outline_object rfl] at hu ⊢
    obtain ⟨l, hl, -⟩ := map_eq_ok_iff.mp hu
    have hlength := Nat.le_of_succ_le (length_of_append hrest)
    obtain ⟨-, ⟨vs, hvs⟩, hending⟩ := openMembers_parts (spelled x) hlength hl
    show (openMembers bound depth _).ending.rest? = some r
    rw [hending]
    exact spelledMembers xs bound depth r vs (length_of_append hlength) hvs

theorem spelledItems : (l : List Json) → SpelledItems l
  | [] => fun bound depth r _ hbound _ => by
    obtain ⟨bound, rfl, -⟩ := bound_of_nonempty hbound
    rfl
  | x :: xs => fun bound depth r vs hbound hvs => by
    rw [textItems_cons] at hbound hvs ⊢
    obtain ⟨bound, rfl, hrest⟩ := bound_of_nonempty hbound
    rw [moreItems_text] at hvs ⊢
    obtain ⟨-, ⟨vs, hvs⟩, hending⟩ := openItems_parts (spelled x) hrest hvs
    rw [hending]
    exact spelledItems xs bound depth r vs (length_of_append hrest) hvs

theorem spelledMembers : (l : List (String × Json)) → SpelledMembers l
  | [] => fun bound depth r _ hbound _ => by
    obtain ⟨bound, rfl, -⟩ := bound_of_nonempty hbound
    rfl
  | (k, x) :: xs => fun bound depth r vs hbound hvs => by
    rw [textMembers_cons] at hbound hvs ⊢
    obtain ⟨bound, rfl, hrest⟩ := bound_of_nonempty hbound
    rw [moreMembers_text] at hvs ⊢
    have hlength := Nat.le_of_succ_le (length_of_append hrest)
    obtain ⟨-, ⟨vs, hvs⟩, hending⟩ := openMembers_parts (spelled x) hlength hvs
    rw [hending]
    exact spelledMembers xs bound depth r vs (length_of_append hlength) hvs

end

/-! ## 3. Parts of what is written -/

/-- The text of a value is one of the grammar. -/
def Written (depth : Nat) (v : Json) : Prop := ∃ u, Writes depth v.text (.value u)

theorem written_of_value {bound depth : Nat} {v u : Json} {r : List Char} (hr : Ends r)
    (hbound : (v.text ++ r).length ≤ bound)
    (hu : (outline bound depth (v.text ++ r)).value = .ok u) : v.Written depth := by
  obtain ⟨w, t, r', hs, hw, ht, hrest⟩ := (sound bound).value _ _ _ hu
  rw [spelled v bound depth r u hr hbound hu, Option.some.injEq] at hrest
  subst hrest
  rw [← List.append_assoc, List.append_cancel_right_eq] at hs
  -- The text does not begin with a blank.
  obtain ⟨c, rest, hc, hblank, -⟩ := head_text v
  cases w with
  | nil =>
    rw [List.nil_append] at hs
    rw [← hs] at ht
    exact ⟨u, ht⟩
  | cons d w =>
    rw [hc] at hs
    have hd := isBlank_iff.mpr (hw d List.mem_cons_self)
    rw [← (List.cons.inj hs).1, hblank] at hd
    cases hd

/-- Written in a text, a value is read up to its end. -/
theorem Written.takes {bound depth : Nat} {v : Json} {r : List Char} (h : v.Written depth)
    (hr : Ends r) (hbound : (v.text ++ r).length ≤ bound) :
    ∃ u, (outline bound depth (v.text ++ r)).Takes u r := by
  obtain ⟨u, hu⟩ := h
  exact ⟨u, hu.isRead [] r bound .nil hr hbound⟩

/-- The text of the items behind one of them is read somewhere. -/
def WrittenItems (depth : Nat) (l : List Json) : Prop :=
  ∃ bound r vs, (textItems l ++ r).length ≤ bound ∧
    (moreItems bound depth (textItems l ++ r)).values = .ok vs

def WrittenMembers (depth : Nat) (l : List (String × Json)) : Prop :=
  ∃ bound r vs, (textMembers l ++ r).length ≤ bound ∧
    (moreMembers bound depth (textMembers l ++ r)).values = .ok vs

section Written

variable {bound depth : Nat} {r : List Char} {x : Json}

theorem written_of_openItems {xs l : List Json}
    (hbound : (x.text ++ (textItems xs ++ r)).length ≤ bound)
    (h : (openItems bound depth (x.text ++ (textItems xs ++ r))).values = .ok l) :
    x.Written depth ∧ WrittenItems depth xs := by
  obtain ⟨⟨u, hu⟩, ⟨vs, hvs⟩, -⟩ := openItems_parts (spelled x) hbound h
  exact ⟨written_of_value (ends_textItems xs) hbound hu, bound, r, vs, length_of_append hbound, hvs⟩

theorem written_of_openMembers {k : String} {xs l : List (String × Json)}
    (hbound : (quote k.toList ++ ':' :: (x.text ++ (textMembers xs ++ r))).length ≤ bound)
    (h : (openMembers bound depth
      (quote k.toList ++ ':' :: (x.text ++ (textMembers xs ++ r)))).values = .ok l) :
    x.Written depth ∧ WrittenMembers depth xs := by
  have hlength := Nat.le_of_succ_le (length_of_append hbound)
  obtain ⟨⟨u, hu⟩, ⟨vs, hvs⟩, -⟩ := openMembers_parts (spelled x) hlength h
  have hx := written_of_value (ends_textMembers xs) hlength hu
  exact ⟨hx, bound, r, vs, length_of_append hlength, hvs⟩

theorem Written.items {xs : List Json} (h : (Json.array (x :: xs)).Written depth) :
    ∃ inner, depth = inner + 1 ∧ x.Written inner ∧ WrittenItems inner xs := by
  obtain ⟨u, htakes⟩ := h.takes ends_nil (Nat.le_refl _)
  have hu := htakes.value
  rw [text_array] at hu
  obtain ⟨inner, rfl⟩ := depth_of_value (.inl rfl) hu
  rw [List.length_cons, outline_array rfl] at hu
  obtain ⟨l, hl, -⟩ := map_eq_ok_iff.mp hu
  exact ⟨inner, rfl, written_of_openItems (Nat.le_refl _) hl⟩

theorem Written.members {k : String} {xs : List (String × Json)}
    (h : (Json.object ((k, x) :: xs)).Written depth) :
    ∃ inner, depth = inner + 1 ∧ x.Written inner ∧ WrittenMembers inner xs := by
  obtain ⟨u, htakes⟩ := h.takes ends_nil (Nat.le_refl _)
  have hu := htakes.value
  rw [text_object] at hu
  obtain ⟨inner, rfl⟩ := depth_of_value (.inr rfl) hu
  rw [List.length_cons, outline_object rfl] at hu
  obtain ⟨l, hl, -⟩ := map_eq_ok_iff.mp hu
  exact ⟨inner, rfl, written_of_openMembers (Nat.le_refl _) hl⟩

theorem WrittenItems.cons {xs : List Json} (h : WrittenItems depth (x :: xs)) :
    x.Written depth ∧ WrittenItems depth xs := by
  obtain ⟨bound, r, vs, hbound, hvs⟩ := h
  rw [textItems_cons] at hbound hvs
  obtain ⟨bound, rfl, hrest⟩ := bound_of_nonempty hbound
  rw [moreItems_text] at hvs
  exact written_of_openItems hrest hvs

theorem WrittenMembers.cons {k : String} {xs : List (String × Json)}
    (h : WrittenMembers depth ((k, x) :: xs)) : x.Written depth ∧ WrittenMembers depth xs := by
  obtain ⟨bound, r, vs, hbound, hvs⟩ := h
  rw [textMembers_cons] at hbound hvs
  obtain ⟨bound, rfl, hrest⟩ := bound_of_nonempty hbound
  rw [moreMembers_text] at hvs
  exact written_of_openMembers hrest hvs

/-- A value between brackets stands within one level of brackets at least. -/
theorem Written.exists_inner {v : Json} {c : Char} (h : v.Written depth) (htext : v.text = c :: r)
    (hc : c = '[' ∨ c = '\x7b') : ∃ inner, depth = inner + 1 := by
  obtain ⟨u, htakes⟩ := h.takes ends_nil (Nat.le_refl _)
  have hu := htakes.value
  rw [htext] at hu
  rcases hc with rfl | rfl
  · exact depth_of_value (.inl rfl) hu
  · exact depth_of_value (.inr rfl) hu

end Written

end StreamBoard.Json

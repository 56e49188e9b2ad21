import StreamBoard.Json.Reader
import StreamBoard.Proofs.Table
import StreamBoard.Proofs.Json.Scalars

/-!
# Reading — the reader accepts the texts of the grammar

Soundness goes by the bound of the outline: what has a value was written by the grammar, and it can
be skipped up to where its text ends (`Sound`).  Completeness goes by the rules of the grammar:
whatever they write is read, as long as the text behind does not go on like a number (`IsRead`).
-/

namespace StreamBoard.Json

open Grammar

/-! ## 1. Lists and their ends -/

/-- What stands behind an item of a list up to the closing bracket: the bracket, or a comma and the
items to come. -/
inductive Behind {α : Type} (close : Char) (Body : List Char → List α → Prop) :
    List Char → List α → List Char → Prop
  | close {u r : List Char} : Blanks u → Behind close Body (u ++ close :: r) [] r
  | more {u t r : List Char} {l : List α} :
      Blanks u → Body t l → Behind close Body (u ++ ',' :: (t ++ close :: r)) l r

/-- A list of items that is not empty, up to the closing bracket. -/
def Enclosed {α : Type} (close : Char) (Body : List Char → List α → Prop) (s : List Char)
    (l : List α) (r : List Char) : Prop :=
  ∃ t, s = t ++ close :: r ∧ Body t l

section Lists

variable {depth : Nat} {s r : List Char}

theorem enclosed_item {w t : List Char} {v : Json} {l : List Json} (hw : Blanks w)
    (ht : Writes depth t (.value v))
    (h : Behind ']' (fun t l => Writes depth t (.items l)) s l r) :
    Enclosed ']' (fun t l => Writes depth t (.items l)) (w ++ (t ++ s)) (v :: l) r := by
  cases h with
  | close hu => exact ⟨_, by simp, .item hw ht hu⟩
  | more hu hl => exact ⟨_, by simp, .items hw ht hu hl⟩

theorem enclosed_member {k cs x y t : List Char} {v : Json} {l : List (String × Json)}
    (hk : Chars k cs) (hx : Blanks x) (hy : Blanks y) (ht : Writes depth t (.value v))
    (h : Behind '\x7d' (fun t l => Writes depth t (.members l)) s l r) :
    Enclosed '\x7d' (fun t l => Writes depth t (.members l))
      ('"' :: (k ++ '"' :: (x ++ ':' :: (y ++ (t ++ s))))) ((String.ofList cs, v) :: l) r := by
  cases h with
  | close hu => exact ⟨_, by simp, .member .nil hk hx hy ht hu⟩
  | more hu hl => exact ⟨_, by simp, .members .nil hk hx hy ht hu hl⟩

/-- Blanks in front of a list belong to its first item. -/
theorem writes_blanks_items {w t : List Char} {l : List Json} (hw : Blanks w)
    (h : Writes depth t (.items l)) : Writes depth (w ++ t) (.items l) := by
  cases h with
  | item hw' ht hu =>
    rw [← List.append_assoc]
    exact .item (hw.append hw') ht hu
  | items hw' ht hu hl =>
    rw [← List.append_assoc]
    exact .items (hw.append hw') ht hu hl

theorem writes_blanks_members {w t : List Char} {l : List (String × Json)} (hw : Blanks w)
    (h : Writes depth t (.members l)) : Writes depth (w ++ t) (.members l) := by
  cases h with
  | member hw' hk hx hy ht hu =>
    rw [← List.append_assoc]
    exact .member (hw.append hw') hk hx hy ht hu
  | members hw' hk hx hy ht hu hl =>
    rw [← List.append_assoc]
    exact .members (hw.append hw') hk hx hy ht hu hl

end Lists

/-! ## 2. Outlines that take their text -/

/-- The outline has this value, and it can be skipped up to here. -/
structure Outline.Takes (o : Outline) (v : Json) (r : List Char) : Prop where
  value : o.value = .ok v
  rest : o.rest? = some r

structure Items.Takes (i : Items) (l : List Json) (r : List Char) : Prop where
  values : i.values = .ok l
  rest : i.ending.rest? = some r

structure Members.Takes (m : Members) (l : List (String × Json)) (r : List Char) : Prop where
  values : m.values = .ok l
  rest : m.ending.rest? = some r

theorem itemThen_takes {o : Outline} {more : List Char → Items} {v : Json} {l : List Json}
    {r r' : List Char} (ho : o.Takes v r) (hmore : (more r).Takes l r') :
    (itemThen o more).Takes (v :: l) r' := by
  unfold itemThen
  rw [ho.rest]
  exact ⟨Items.values_item_iff.mpr ⟨v, l, ho.value, hmore.values, rfl⟩, hmore.rest⟩

theorem Lexeme.next_of_rest? {α : Type} {l : Lexeme α} {r : List Char} (h : l.rest? = some r) :
    l.next = r := by
  unfold Lexeme.rest? at h
  split at h
  · cases h
  · exact Option.some.inj h

theorem valueBehind_of_colon {key : Lexeme String} {value : List Char → Outline}
    {s : List Char} (h : skipBlanks key.next = ':' :: s) : valueBehind key value = value s := by
  rw [valueBehind, h]
  rfl

theorem memberThen_takes {key : Lexeme String} {value : List Char → Outline}
    {more : List Char → Members} {k : String} {v : Json} {l : List (String × Json)}
    {s r r' r'' : List Char} (hkey : key.Takes k r) (hcolon : skipBlanks r = ':' :: s)
    (ho : (value s).Takes v r') (hmore : (more r').Takes l r'') :
    (memberThen key value more).Takes ((k, v) :: l) r'' := by
  have hbehind : valueBehind key value = value s :=
    valueBehind_of_colon (by rw [Lexeme.next_of_rest? hkey.rest, hcolon])
  unfold memberThen
  simp only [hkey.rest, hbehind, ho.rest]
  have hvalues := Members.values_member_iff.mpr ⟨k, v, l, hkey.value, ho.value, hmore.values, rfl⟩
  exact ⟨hvalues, hmore.rest⟩

/-- An item in front of others has a value, and so have they. -/
theorem itemThen_values {o : Outline} {more : List Char → Items} {l : List Json}
    (h : (itemThen o more).values = .ok l) :
    ∃ v, o.value = .ok v ∧ ∀ r, o.rest? = some r → ∃ vs, l = v :: vs ∧
      (more r).values = .ok vs ∧ (itemThen o more).ending = (more r).ending := by
  unfold itemThen at h ⊢
  -- Behind an item that cannot be skipped there are no others, but its value comes first.
  cases hrest : o.rest? with
  | none =>
    rw [hrest] at h
    obtain ⟨v, -, hv, -⟩ := Items.values_item_iff.mp h
    exact ⟨v, hv, nofun⟩
  | some r =>
    rw [hrest] at h
    obtain ⟨v, vs, hv, hvs, rfl⟩ := Items.values_item_iff.mp h
    refine ⟨v, hv, fun r' hr => ?_⟩
    cases hr
    exact ⟨vs, rfl, hvs, rfl⟩

theorem valueBehind_value {key : Lexeme String} {value : List Char → Outline} {v : Json}
    (h : (valueBehind key value).value = .ok v) :
    ∃ s, skipBlanks key.next = ':' :: s ∧ valueBehind key value = value s := by
  unfold valueBehind at h ⊢
  split at h
  next s hs =>
    rw [hs]
    exact ⟨s, rfl, rfl⟩
  next => cases h
  next => cases h

theorem memberThen_values {key : Lexeme String} {value : List Char → Outline}
    {more : List Char → Members} {l : List (String × Json)}
    (h : (memberThen key value more).values = .ok l) :
    ∃ k, key.value = .ok k ∧ ∀ r, key.rest? = some r →
      ∃ v, (valueBehind key value).value = .ok v ∧
        ∀ r', (valueBehind key value).rest? = some r' → ∃ vs, l = (k, v) :: vs ∧
          (more r').values = .ok vs ∧ (memberThen key value more).ending = (more r').ending := by
  unfold memberThen at h ⊢
  cases hkey : key.rest? with
  | none =>
    rw [hkey] at h
    obtain ⟨k, -, -, hk, -⟩ := Members.values_member_iff.mp h
    exact ⟨k, hk, nofun⟩
  | some r =>
    simp only [hkey] at h ⊢
    cases hrest : (valueBehind key value).rest? with
    | none =>
      rw [hrest] at h
      obtain ⟨k, v, -, hk, hv, -⟩ := Members.values_member_iff.mp h
      exact ⟨k, hk, fun _ _ => ⟨v, hv, nofun⟩⟩
    | some r' =>
      rw [hrest] at h
      obtain ⟨k, v, vs, hk, hv, hvs, rfl⟩ := Members.values_member_iff.mp h
      refine ⟨k, hk, fun _ _ => ⟨v, hv, fun r'' hr => ?_⟩⟩
      cases hr
      exact ⟨vs, rfl, hvs, rfl⟩

/-! ## 3. Brackets -/

/-- What stands behind an opening bracket. -/
def openItems (bound depth : Nat) (r : List Char) : Items :=
  match skipBlanks r with
  | ']' :: next => .finish (.closed next)
  | [] => .finish .cut
  | s => itemThen (outline bound depth s) (moreItems bound depth)

def openMembers (bound depth : Nat) (r : List Char) : Members :=
  match skipBlanks r with
  | '\x7d' :: next => .finish (.closed next)
  | [] => .finish .cut
  | '"' :: s =>
    memberThen (.ofString ('"' :: s) s) (outline bound depth) (moreMembers bound depth)
  | s => .finish (.noKey s)

section Brackets

variable {bound depth : Nat} {s r : List Char}

theorem outline_array (hs : skipBlanks s = '[' :: r) :
    outline (bound + 1) (depth + 1) s = .array ('[' :: r) (openItems bound depth r) := by
  rw [outline, hs]
  rfl

theorem outline_object (hs : skipBlanks s = '\x7b' :: r) :
    outline (bound + 1) (depth + 1) s = .object ('\x7b' :: r) (openMembers bound depth r) := by
  rw [outline, hs]
  rfl

/-- A bracket too deep has no value. -/
theorem outline_value_of_zero {v : Json}
    (hs : skipBlanks s = '[' :: r ∨ skipBlanks s = '\x7b' :: r) :
    (outline (bound + 1) 0 s).value ≠ .ok v := by
  rcases hs with hs | hs
  · rw [outline, hs]
    exact nofun
  · rw [outline, hs]
    exact nofun

theorem outline_scalar {c : Char} (hs : skipBlanks s = c :: r) (harray : c ≠ '[')
    (hobject : c ≠ '\x7b') : outline (bound + 1) depth s = .scalar (.scalar (c :: r)) := by
  rw [outline, hs]
  split
  next heq => exact absurd (List.cons.inj heq).1 harray
  next heq => exact absurd (List.cons.inj heq).1 hobject
  next => rfl

end Brackets

/-! ## 4. What is read is in the grammar -/

/-- What reads within a bound was written by the grammar. -/
structure Sound (bound : Nat) : Prop where
  value : ∀ depth s v, (outline bound depth s).value = .ok v →
    ∃ w t r, s = w ++ (t ++ r) ∧ Blanks w ∧ Writes depth t (.value v) ∧
      (outline bound depth s).rest? = some r
  items : ∀ depth s l, (moreItems bound depth s).values = .ok l →
    ∃ r, Behind ']' (fun t l => Writes depth t (.items l)) s l r ∧
      (moreItems bound depth s).ending.rest? = some r
  members : ∀ depth s l, (moreMembers bound depth s).values = .ok l →
    ∃ r, Behind '\x7d' (fun t l => Writes depth t (.members l)) s l r ∧
      (moreMembers bound depth s).ending.rest? = some r

section Sound

variable {bound depth : Nat} {s : List Char}

theorem Sound.itemThen (h : Sound bound) {l : List Json}
    (hl : (itemThen (outline bound depth s) (moreItems bound depth)).values = .ok l) :
    ∃ r, Enclosed ']' (fun t l => Writes depth t (.items l)) s l r ∧
      (itemThen (outline bound depth s) (moreItems bound depth)).ending.rest? = some r := by
  obtain ⟨v, hv, hmore⟩ := itemThen_values hl
  obtain ⟨w, t, r, hs, hw, ht, hrest⟩ := h.value depth s v hv
  obtain ⟨vs, rfl, hvs, hending⟩ := hmore r hrest
  obtain ⟨r', hbehind, hrest'⟩ := h.items depth r vs hvs
  rw [hending]
  refine ⟨r', ?_, hrest'⟩
  rw [hs]
  exact enclosed_item hw ht hbehind

theorem Sound.memberThen (h : Sound bound) {l : List (String × Json)}
    (hl : (memberThen (.ofString ('"' :: s) s) (outline bound depth)
      (moreMembers bound depth)).values = .ok l) :
    ∃ r, Enclosed '\x7d' (fun t l => Writes depth t (.members l)) ('"' :: s) l r ∧
      (memberThen (.ofString ('"' :: s) s) (outline bound depth)
        (moreMembers bound depth)).ending.rest? = some r := by
  -- Key, colon, value and what is behind them, in the order in which they are read.
  obtain ⟨k, hk, hmore⟩ := memberThen_values hl
  obtain ⟨t, cs, r, hs, hchars, rfl, hkey⟩ := ofString_sound hk
  obtain ⟨v, hv, hmore⟩ := hmore r hkey.rest
  obtain ⟨s', hcolon, hbehind⟩ := valueBehind_value hv
  rw [hbehind] at hv hmore
  obtain ⟨y, u, r', hs', hy, hu, hrest⟩ := h.value depth s' v hv
  obtain ⟨vs, rfl, hvs, hending⟩ := hmore r' hrest
  obtain ⟨r'', hmembers, hrest'⟩ := h.members depth r' vs hvs
  rw [Lexeme.next_of_rest? hkey.rest] at hcolon
  obtain ⟨x, hx, hr⟩ := exists_blanks r
  rw [hcolon] at hr
  rw [hending]
  refine ⟨r'', ?_, hrest'⟩
  rw [hs, hr, hs']
  exact enclosed_member hchars hx hy hu hmembers

theorem Sound.openItems (h : Sound bound) {l : List Json}
    (hl : (openItems bound depth s).values = .ok l) :
    ∃ t r, s = t ++ ']' :: r ∧ (Blanks t ∧ l = [] ∨ Writes depth t (.items l)) ∧
      (openItems bound depth s).ending.rest? = some r := by
  obtain ⟨w, hw, hs⟩ := exists_blanks s
  unfold Json.openItems at hl ⊢
  split at hl
  next next hnext =>
    cases hl
    rw [hnext] at hs
    exact ⟨w, next, hs, .inl ⟨hw, rfl⟩, rfl⟩
  next => cases hl
  next =>
    obtain ⟨r, ⟨t, ht, hitems⟩, hrest⟩ := h.itemThen hl
    rw [ht, ← List.append_assoc] at hs
    exact ⟨w ++ t, r, hs, .inr (writes_blanks_items hw hitems), hrest⟩

theorem Sound.openMembers (h : Sound bound) {l : List (String × Json)}
    (hl : (openMembers bound depth s).values = .ok l) :
    ∃ t r, s = t ++ '\x7d' :: r ∧ (Blanks t ∧ l = [] ∨ Writes depth t (.members l)) ∧
      (openMembers bound depth s).ending.rest? = some r := by
  obtain ⟨w, hw, hs⟩ := exists_blanks s
  unfold Json.openMembers at hl ⊢
  split at hl
  next next hnext =>
    cases hl
    rw [hnext] at hs
    exact ⟨w, next, hs, .inl ⟨hw, rfl⟩, rfl⟩
  next => cases hl
  next s' hquote =>
    obtain ⟨r, ⟨t, ht, hmembers⟩, hrest⟩ := h.memberThen hl
    rw [hquote, ht, ← List.append_assoc] at hs
    exact ⟨w ++ t, r, hs, .inr (writes_blanks_members hw hmembers), hrest⟩
  next => cases hl

theorem Sound.moreItems (h : Sound bound) {l : List Json}
    (hl : (moreItems (bound + 1) depth s).values = .ok l) :
    ∃ r, Behind ']' (fun t l => Writes depth t (.items l)) s l r ∧
      (moreItems (bound + 1) depth s).ending.rest? = some r := by
  obtain ⟨w, hw, hs⟩ := exists_blanks s
  rw [Json.moreItems] at hl ⊢
  split at hl
  next => cases hl
  next next hnext =>
    cases hl
    rw [hnext] at hs
    rw [hs]
    exact ⟨next, .close hw, rfl⟩
  next r hcomma =>
    obtain ⟨y, hy, hr⟩ := exists_blanks r
    split at hl
    next => cases hl
    next => cases hl
    next =>
      obtain ⟨r', ⟨t, ht, hitems⟩, hrest⟩ := h.itemThen hl
      rw [ht, ← List.append_assoc] at hr
      rw [hcomma, hr] at hs
      rw [hs]
      exact ⟨r', .more hw (writes_blanks_items hy hitems), hrest⟩
  next => cases hl

theorem Sound.moreMembers (h : Sound bound) {l : List (String × Json)}
    (hl : (moreMembers (bound + 1) depth s).values = .ok l) :
    ∃ r, Behind '\x7d' (fun t l => Writes depth t (.members l)) s l r ∧
      (moreMembers (bound + 1) depth s).ending.rest? = some r := by
  obtain ⟨w, hw, hs⟩ := exists_blanks s
  rw [Json.moreMembers] at hl ⊢
  split at hl
  next => cases hl
  next next hnext =>
    cases hl
    rw [hnext] at hs
    rw [hs]
    exact ⟨next, .close hw, rfl⟩
  next r hcomma =>
    obtain ⟨y, hy, hr⟩ := exists_blanks r
    split at hl
    next => cases hl
    next => cases hl
    next s' hquote =>
      obtain ⟨r', ⟨t, ht, hmembers⟩, hrest⟩ := h.memberThen hl
      rw [hquote, ht, ← List.append_assoc] at hr
      rw [hcomma, hr] at hs
      rw [hs]
      exact ⟨r', .more hw (writes_blanks_members hy hmembers), hrest⟩
    next => cases hl
  next => cases hl

theorem Sound.outline (h : Sound bound) {v : Json}
    (hv : (outline (bound + 1) depth s).value = .ok v) :
    ∃ w t r, s = w ++ (t ++ r) ∧ Blanks w ∧ Writes depth t (.value v) ∧
      (outline (bound + 1) depth s).rest? = some r := by
  obtain ⟨w, hw, hs⟩ := exists_blanks s
  cases hhead : skipBlanks s with
  | nil =>
    rw [Json.outline, hhead] at hv
    cases hv
  | cons c r =>
    -- A value that opens no bracket is a scalar.
    by_cases harray : c = '['
    · subst harray
      cases depth with
      | zero => exact absurd hv (outline_value_of_zero (.inl hhead))
      | succ depth =>
        rw [outline_array hhead] at hv ⊢
        obtain ⟨l, hl, rfl⟩ := map_eq_ok_iff.mp hv
        obtain ⟨t, r', hr, hitems, hrest⟩ := h.openItems hl
        refine ⟨w, '[' :: (t ++ [']']), r', ?_, hw, ?_, hrest⟩
        · rw [hs, hhead, hr]
          simp
        · rcases hitems with ⟨ht, rfl⟩ | hitems
          · exact .emptyArray ht
          · exact .array hitems
    · by_cases hobject : c = '\x7b'
      · subst hobject
        cases depth with
        | zero => exact absurd hv (outline_value_of_zero (.inr hhead))
        | succ depth =>
          rw [outline_object hhead] at hv ⊢
          obtain ⟨l, hl, rfl⟩ := map_eq_ok_iff.mp hv
          obtain ⟨t, r', hr, hmembers, hrest⟩ := h.openMembers hl
          refine ⟨w, '\x7b' :: (t ++ ['\x7d']), r', ?_, hw, ?_, hrest⟩
          · rw [hs, hhead, hr]
            simp
          · rcases hmembers with ⟨ht, rfl⟩ | hmembers
            · exact .emptyObject ht
            · exact .object hmembers (Table.find?_ofList l)
      · rw [outline_scalar hhead harray hobject] at hv ⊢
        obtain ⟨x, hx, rfl⟩ := map_eq_ok_iff.mp hv
        obtain ⟨t, r', hr, hplain, htakes⟩ := scalar_sound hx
        refine ⟨w, t, r', ?_, hw, .scalar hplain, htakes.rest⟩
        rw [hs, hhead, hr]

/-- **What has a value was written by the grammar.** -/
theorem sound (bound : Nat) : Sound bound := by
  -- All three readers go down by one in the bound when they call each other.
  induction bound with
  | zero => exact ⟨nofun, nofun, nofun⟩
  | succ bound ih =>
    exact ⟨fun _ _ _ => ih.outline, fun _ _ _ => ih.moreItems, fun _ _ _ => ih.moreMembers⟩

end Sound

/-! ## 5. What is in the grammar is read -/

/-- The first character of a scalar: no blank and no bracket. -/
def OpensScalar (c : Char) : Prop := isBlank c = false ∧ c ≠ ']' ∧ c ≠ '[' ∧ c ≠ '\x7b'

instance (c : Char) : Decidable (OpensScalar c) := inferInstanceAs (Decidable (_ ∧ _))

theorem numeral_head {t : List Char} {n : Numeral} (h : Numerals t n) :
    ∃ c rest, t = c :: rest ∧ OpensScalar c := by
  obtain ⟨c, rest, rfl, hc⟩ := h.head
  rcases hc with rfl | hdigit
  · exact ⟨'-', rest, rfl, by decide⟩
  · have hne : ∀ {d : Char}, d.isDigit = false → c ≠ d := ne_of_isDigit hdigit
    refine ⟨c, rest, rfl, ?_, hne (by decide), hne (by decide), hne (by decide)⟩
    rw [← Bool.not_eq_true, isBlank_iff]
    rintro (rfl | rfl | rfl | rfl) <;> cases hdigit

theorem scalar_head {t : List Char} {x : Scalar} (h : Plain t x) :
    ∃ c rest, t = c :: rest ∧ OpensScalar c := by
  cases h with
  | null => exact ⟨'n', _, rfl, by decide⟩
  | true => exact ⟨'t', _, rfl, by decide⟩
  | false => exact ⟨'f', _, rfl, by decide⟩
  | string _ => exact ⟨'"', _, rfl, by decide⟩
  | number hnumeral _ => exact numeral_head hnumeral

/-- A value begins with a character that is no blank and closes no array. -/
theorem writes_head {depth : Nat} {t : List Char} {v : Json} (h : Writes depth t (.value v)) :
    ∃ c rest, t = c :: rest ∧ isBlank c = false ∧ c ≠ ']' := by
  cases h with
  | emptyArray _ | array _ => exact ⟨'[', _, rfl, by decide⟩
  | emptyObject _ | object _ _ => exact ⟨'\x7b', _, rfl, by decide⟩
  | scalar hplain =>
    obtain ⟨c, rest, hc, hblank, hne, -⟩ := scalar_head hplain
    exact ⟨c, rest, hc, hblank, hne⟩

section Complete

variable {bound depth : Nat} {s r : List Char}

theorem openItems_of_cons {c : Char} (hs : skipBlanks s = c :: r) (hc : c ≠ ']') :
    openItems bound depth s = itemThen (outline bound depth (c :: r)) (moreItems bound depth) := by
  rw [openItems, hs]
  split
  next heq => exact absurd (List.cons.inj heq).1 hc
  next heq => cases heq
  next => rfl

theorem openMembers_of_quote (hs : skipBlanks s = '"' :: r) :
    openMembers bound depth s =
      memberThen (.ofString ('"' :: r) r) (outline bound depth) (moreMembers bound depth) := by
  rw [openMembers, hs]
  rfl

/-- Behind a comma an item is read like the first one. -/
theorem moreItems_comma {u : List Char} (hu : Blanks u) {c : Char} (hs : skipBlanks s = c :: r)
    (hc : c ≠ ']') :
    moreItems (bound + 1) depth (u ++ ',' :: s) = openItems bound depth s := by
  rw [moreItems, skipBlanks_append hu (by decide), openItems_of_cons hs hc]
  simp only [hs]
  split
  next heq => cases heq
  next heq => exact absurd (List.cons.inj heq).1 hc
  next => rfl

theorem moreMembers_comma {u : List Char} (hu : Blanks u) (hs : skipBlanks s = '"' :: r) :
    moreMembers (bound + 1) depth (u ++ ',' :: s) = openMembers bound depth s := by
  rw [moreMembers, skipBlanks_append hu (by decide), openMembers_of_quote hs]
  simp only [hs]

/-- A phrase is read, whatever stands behind it. -/
def IsRead (depth : Nat) (t : List Char) : Phrase → Prop
  | .value v => ∀ w r bound, Blanks w → Ends r → (w ++ (t ++ r)).length ≤ bound →
    (outline bound depth (w ++ (t ++ r))).Takes v r
  | .items l => ∀ r bound, (t ++ ']' :: r).length ≤ bound →
    (∃ c s, skipBlanks (t ++ ']' :: r) = c :: s ∧ c ≠ ']') ∧
      (openItems bound depth (t ++ ']' :: r)).Takes l r
  | .members l => ∀ r bound, (t ++ '\x7d' :: r).length ≤ bound →
    (∃ s, skipBlanks (t ++ '\x7d' :: r) = '"' :: s) ∧
      (openMembers bound depth (t ++ '\x7d' :: r)).Takes l r

/-- A text that is not empty leaves something of its bound for what stands behind its head. -/
theorem bound_of_cons {w : List Char} {c : Char} (h : (w ++ c :: s).length ≤ bound) :
    ∃ rest, bound = rest + 1 ∧ w.length + s.length ≤ rest := by
  rw [List.length_append, List.length_cons] at h
  exact ⟨bound - 1, by omega, by omega⟩

theorem Behind.ends {α : Type} {close : Char} {Body : List Char → List α → Prop} {l : List α}
    (h : Behind close Body s l r) (hclose : ∀ r, Ends (close :: r)) : Ends s := by
  cases h with
  | close hu => exact ends_append hu (hclose r)
  | more hu _ => exact ends_append hu (ends_cons (by decide) _)

theorem moreItems_takes {l : List Json}
    (h : Behind ']' (fun t l => IsRead depth t (.items l)) s l r) (hbound : s.length ≤ bound) :
    (moreItems bound depth s).Takes l r := by
  cases h with
  | close hu =>
    obtain ⟨bound, rfl, hrest⟩ := bound_of_cons hbound
    rw [moreItems, skipBlanks_append hu (by decide)]
    exact ⟨rfl, rfl⟩
  | more hu hl =>
    obtain ⟨bound, rfl, hrest⟩ := bound_of_cons hbound
    obtain ⟨⟨c, s, hs, hc⟩, htakes⟩ := hl r bound (by omega)
    rw [moreItems_comma hu hs hc]
    exact htakes

theorem moreMembers_takes {l : List (String × Json)}
    (h : Behind '\x7d' (fun t l => IsRead depth t (.members l)) s l r)
    (hbound : s.length ≤ bound) : (moreMembers bound depth s).Takes l r := by
  cases h with
  | close hu =>
    obtain ⟨bound, rfl, hrest⟩ := bound_of_cons hbound
    rw [moreMembers, skipBlanks_append hu (by decide)]
    exact ⟨rfl, rfl⟩
  | more hu hl =>
    obtain ⟨bound, rfl, hrest⟩ := bound_of_cons hbound
    obtain ⟨⟨s, hs⟩, htakes⟩ := hl r bound (by omega)
    rw [moreMembers_comma hu hs]
    exact htakes

/-- The first item of a list is read, and then the others. -/
theorem openItems_takes {w t : List Char} {v : Json} {l : List Json} (hw : Blanks w)
    (ht : Writes depth t (.value v)) (hread : IsRead depth t (.value v))
    (hmore : Behind ']' (fun t l => IsRead depth t (.items l)) s l r)
    (hbound : (w ++ (t ++ s)).length ≤ bound) :
    (∃ c s', skipBlanks (w ++ (t ++ s)) = c :: s' ∧ c ≠ ']') ∧
      (openItems bound depth (w ++ (t ++ s))).Takes (v :: l) r := by
  obtain ⟨c, rest, hc, hblank, hne⟩ := writes_head ht
  have hskip : skipBlanks (w ++ (t ++ s)) = c :: (rest ++ s) := by
    rw [hc, List.cons_append, skipBlanks_append hw hblank]
  simp only [List.length_append] at hbound
  -- The blanks are skipped before the item is outlined, so it is read without them.
  have hhead := hread [] s bound .nil (hmore.ends (ends_cons (by decide)))
    (by simp only [List.nil_append, List.length_append]; omega)
  rw [List.nil_append, hc, List.cons_append] at hhead
  refine ⟨⟨c, _, hskip, hne⟩, ?_⟩
  rw [openItems_of_cons hskip hne]
  exact itemThen_takes hhead (moreItems_takes hmore (by omega))

theorem openMembers_takes {w k cs x y t : List Char} {v : Json} {l : List (String × Json)}
    (hw : Blanks w) (hk : Chars k cs) (hx : Blanks x) (hy : Blanks y)
    (hread : IsRead depth t (.value v))
    (hmore : Behind '\x7d' (fun t l => IsRead depth t (.members l)) s l r)
    (hbound : (w ++ '"' :: (k ++ '"' :: (x ++ ':' :: (y ++ (t ++ s))))).length ≤ bound) :
    (∃ s', skipBlanks (w ++ '"' :: (k ++ '"' :: (x ++ ':' :: (y ++ (t ++ s))))) = '"' :: s') ∧
      (openMembers bound depth (w ++ '"' :: (k ++ '"' :: (x ++ ':' :: (y ++ (t ++ s)))))).Takes
        ((String.ofList cs, v) :: l) r := by
  have hskip := skipBlanks_append hw (c := '"') (by decide)
    (k ++ '"' :: (x ++ ':' :: (y ++ (t ++ s))))
  simp only [List.length_append, List.length_cons] at hbound
  have hvalue := hread y s bound hy (hmore.ends (ends_cons (by decide)))
    (by simp only [List.length_append]; omega)
  refine ⟨⟨_, hskip⟩, ?_⟩
  rw [openMembers_of_quote hskip]
  exact memberThen_takes (ofString_complete hk _ _) (skipBlanks_append hx (by decide) _) hvalue
    (moreMembers_takes hmore (by omega))

/-- A scalar is outlined as one lexeme. -/
theorem outline_plain {w t : List Char} {x : Scalar} (h : Plain t x) (hw : Blanks w)
    (hr : Ends r) (hbound : (w ++ (t ++ r)).length ≤ bound) :
    ∃ l, outline bound depth (w ++ (t ++ r)) = .scalar l ∧ l.Takes x r := by
  obtain ⟨c, rest, hc, hblank, -, harray, hobject⟩ := scalar_head h
  have htakes := scalar_complete h hr
  rw [hc, List.cons_append] at htakes hbound ⊢
  obtain ⟨bound, rfl, -⟩ := bound_of_cons hbound
  rw [outline_scalar (skipBlanks_append hw hblank _) harray hobject]
  exact ⟨_, rfl, htakes⟩

theorem isRead_scalar {t : List Char} {x : Scalar} (h : Plain t x) :
    IsRead depth t (.value x.toJson) := by
  intro w r bound hw hr hbound
  obtain ⟨l, hl, htakes⟩ := outline_plain h hw hr hbound
  rw [hl]
  exact ⟨map_eq_ok_iff.mpr ⟨x, htakes.value, rfl⟩, htakes.rest⟩

/-- What an array takes between its brackets, it takes with them. -/
theorem isRead_array {t : List Char} {l : List Json}
    (h : ∀ r bound, (t ++ ']' :: r).length ≤ bound →
      (openItems bound depth (t ++ ']' :: r)).Takes l r) :
    IsRead (depth + 1) ('[' :: (t ++ [']'])) (.value (.array l)) := by
  intro w r bound hw _ hbound
  simp only [List.cons_append, List.append_assoc, List.nil_append] at hbound ⊢
  obtain ⟨bound, rfl, hrest⟩ := bound_of_cons hbound
  have htakes := h r bound (by omega)
  rw [outline_array (skipBlanks_append hw (by decide) _)]
  refine ⟨?_, htakes.rest⟩
  show (openItems bound depth (t ++ ']' :: r)).values.map Json.array = _
  rw [htakes.values]
  rfl

/-- An object is read to its brace, whatever stands behind it. -/
theorem object_takes {t w : List Char} {l : List (String × Json)} {table : Table Json}
    (htable : ∀ key, table.find? key = l.reverse.lookup key)
    (h : ∀ r bound, (t ++ '\x7d' :: r).length ≤ bound →
      (openMembers bound depth (t ++ '\x7d' :: r)).Takes l r) (hw : Blanks w)
    (hbound : (w ++ ('\x7b' :: (t ++ ['\x7d']) ++ r)).length ≤ bound) :
    (outline bound (depth + 1) (w ++ ('\x7b' :: (t ++ ['\x7d']) ++ r))).Takes
      (.object table.entries) r := by
  simp only [List.cons_append, List.append_assoc, List.nil_append] at hbound ⊢
  obtain ⟨bound, rfl, hrest⟩ := bound_of_cons hbound
  have htakes := h r bound (by omega)
  -- The table of the grammar and the one of the reader have the same look-ups.
  have hlast : Table.ofList l = table := by
    refine Table.ext_find? fun key => ?_
    rw [Table.find?_ofList, htable]
  rw [outline_object (skipBlanks_append hw (by decide) _)]
  refine ⟨?_, htakes.rest⟩
  show (openMembers bound depth (t ++ '\x7d' :: r)).values.map
    (fun l => Json.object (Table.ofList l).entries) = _
  rw [htakes.values, ← hlast]
  rfl

theorem isRead_object {t : List Char} {l : List (String × Json)} {table : Table Json}
    (htable : ∀ key, table.find? key = l.reverse.lookup key)
    (h : ∀ r bound, (t ++ '\x7d' :: r).length ≤ bound →
      (openMembers bound depth (t ++ '\x7d' :: r)).Takes l r) :
    IsRead (depth + 1) ('\x7b' :: (t ++ ['\x7d'])) (.value (.object table.entries)) :=
  fun _ _ _ hw _ hbound => object_takes htable h hw hbound

theorem openItems_close {w : List Char} (hw : Blanks w) :
    (openItems bound depth (w ++ ']' :: r)).Takes [] r := by
  rw [openItems, skipBlanks_append hw (by decide)]
  exact ⟨rfl, rfl⟩

theorem openMembers_close {w : List Char} (hw : Blanks w) :
    (openMembers bound depth (w ++ '\x7d' :: r)).Takes [] r := by
  rw [openMembers, skipBlanks_append hw (by decide)]
  exact ⟨rfl, rfl⟩

end Complete

/-- **What the grammar writes is read.** -/
theorem Grammar.Writes.isRead {depth : Nat} {t : List Char} {p : Phrase} (h : Writes depth t p) :
    IsRead depth t p := by
  -- One case for each rule; the texts of the rules only have to be bracketed to the right.
  induction h with
  | scalar hplain => exact isRead_scalar hplain
  | emptyArray hw => exact isRead_array fun _ _ _ => openItems_close hw
  | array _ ih => exact isRead_array fun r bound hbound => (ih r bound hbound).2
  | emptyObject hw =>
    have hempty : ∀ key, (Table.empty : Table Json).find? key = [].reverse.lookup key :=
      fun _ => rfl
    exact isRead_object hempty fun _ _ _ => openMembers_close hw
  | object _ htable ih =>
    exact isRead_object htable fun r bound hbound => (ih r bound hbound).2
  | item hw ht hu ih =>
    intro r bound hbound
    simp only [List.append_assoc] at hbound ⊢
    exact openItems_takes hw ht ih (.close hu) hbound
  | items hw ht hu _ ih ihl =>
    intro r bound hbound
    simp only [List.append_assoc, List.cons_append] at hbound ⊢
    exact openItems_takes hw ht ih (.more hu ihl) hbound
  | member hw hk hx hy _ hu ih =>
    intro r bound hbound
    simp only [List.append_assoc, List.cons_append] at hbound ⊢
    exact openMembers_takes hw hk hx hy ih (.close hu) hbound
  | members hw hk hx hy _ hu _ ih ihl =>
    intro r bound hbound
    simp only [List.append_assoc, List.cons_append] at hbound ⊢
    exact openMembers_takes hw hk hx hy ih (.more hu ihl) hbound

end StreamBoard.Json

import StreamBoard.Json.Printer
import StreamBoard.Proofs.Json.Reading

/-!
# Printing — reading undoes printing

The compact text of a value whose numbers are integers, and which nests no deeper than a text may,
reads as that value with its members sorted (`parse_print`).  More is known of such a text: its
outline lists the members in the order of the value (`outlined`), so a reader that depends on that
order can be run on it as well.
-/

namespace StreamBoard.Json

open Grammar

/-! ## 1. Scalars -/

mutual

/-- All numbers of a value are integers. -/
def Integral : Json → Prop
  | .number (.double _) => False
  | .array items => IntegralItems items
  | .object members => IntegralMembers members
  | _ => True

def IntegralItems : List Json → Prop
  | [] => True
  | x :: xs => x.Integral ∧ IntegralItems xs

def IntegralMembers : List (String × Json) → Prop
  | [] => True
  | (_, x) :: xs => x.Integral ∧ IntegralMembers xs

end

theorem hexDigit_hexDigit {n : Nat} (h : n < 16) : HexDigit (hexDigit n) n := by
  have hall : ∀ n, n < 16 → HexDigit (hexDigit n) n := by decide +kernel
  exact hall n h

/-- What is printed for a character is read as that character. -/
theorem chars_escape (c : Char) {t s : List Char} (h : Chars t s) :
    Chars (escape c ++ t) (c :: s) := by
  unfold escape
  split
  · exact .escape (by decide) h
  · exact .escape (by decide) h
  · exact .escape (by decide) h
  · exact .escape (by decide) h
  · exact .escape (by decide) h
  · exact .escape (by decide) h
  · exact .escape (by decide) h
  next hquote hslash _ _ _ _ _ =>
    split
    next hcontrol =>
      -- A control character is printed as its code of four digits, the first two of them zero.
      have hunit : HexUnit '0' '0' (hexDigit (c.toNat / 16)) (hexDigit (c.toNat % 16)) c.toNat := by
        refine ⟨0, 0, c.toNat / 16, c.toNat % 16, hexDigit_hexDigit (by decide),
          hexDigit_hexDigit (by decide), hexDigit_hexDigit (by omega),
          hexDigit_hexDigit (by omega), by omega⟩
      exact .unit hunit h
    next hcontrol => exact .plain (Nat.not_lt.mp hcontrol) hquote hslash h

theorem chars_flatMap_escape (s : List Char) : Chars (s.flatMap escape) s := by
  -- By the characters of the string, the escape of each in front of those behind it.
  induction s with
  | nil => exact .nil
  | cons c s ih =>
    rw [List.flatMap_cons]
    exact chars_escape c ih

theorem digits_toDigits (n : Nat) : Digits (Nat.toDigits 10 n) :=
  ⟨Nat.toDigits_ne_nil, fun _ hc => Nat.isDigit_of_mem_toDigits (by decide) (by decide) hc⟩

/-- Only zero begins with a zero. -/
theorem whole_toDigits (n : Nat) : Whole (Nat.toDigits 10 n) := by
  induction n using Nat.strongRecOn with
  | _ n ih =>
    rw [Nat.toDigits_eq_if (by decide)]
    split
    next hlt =>
      have hall : ∀ n, n < 10 → n ≠ 0 → Nat.digitChar n ≠ '0' := by decide
      by_cases hzero : n = 0
      · subst hzero
        exact .inl rfl
      · refine .inr ⟨?_, ?_⟩
        · rw [← Nat.toDigits_of_lt_base hlt]
          exact digits_toDigits n
        · simpa using hall n hlt hzero
    next hge =>
      have hdigits := digits_toDigits n
      rw [Nat.toDigits_of_base_le (by decide) (Nat.not_lt.mp hge)] at hdigits
      refine .inr ⟨hdigits, ?_⟩
      -- The digits in front are those of a smaller number, and that is not zero.
      rcases ih (n / 10) (Nat.div_lt_self (by omega) (by decide)) with hzero | ⟨hds, hhead⟩
      · have hvalue := Nat.ofDigitChars_toDigits (b := 10) (n := n / 10) (by decide) (by decide)
        rw [hzero] at hvalue
        have : n / 10 = 0 := hvalue.symm
        omega
      · obtain ⟨c, ds, hc⟩ := List.exists_cons_of_ne_nil hds.1
        rw [hc] at hhead ⊢
        exact hhead

theorem decimal_toDigits (n : Nat) : decimal (Nat.toDigits 10 n) = n :=
  Nat.ofDigitChars_toDigits (by decide) (by decide)

theorem numerals_integer (i : Integer) :
    Numerals i.text ⟨decide (i.val < 0), Nat.toDigits 10 i.val.natAbs, none, none⟩ := by
  -- A numeral of the grammar has four stretches; of an integer the last two are empty.
  have htext : i.text = (if i.val < 0 then ['-'] else []) ++
      (Nat.toDigits 10 i.val.natAbs ++ ([] ++ [])) := by
    unfold Integer.text
    split <;> simp
  have hparts := Numerals.parts (n := ⟨decide (i.val < 0), Nat.toDigits 10 i.val.natAbs, none, none⟩)
    (whole_toDigits i.val.natAbs) .none .none
  simp only [decide_eq_true_eq] at hparts
  rwa [htext]

/-- An integer is printed as a numeral that denotes it. -/
theorem plain_integer (i : Integer) : Plain i.text (.number (.integer i)) := by
  refine .number (numerals_integer i) (.integer ⟨rfl, rfl, ?_, fun hnegative => ?_⟩)
  · simp only [decimal_toDigits, decide_eq_true_eq]
    split <;> omega
  · simp only [decide_eq_true_eq] at hnegative
    rw [decimal_toDigits]
    omega

theorem plain_text (x : Scalar) (h : x.toJson.Integral) : Plain x.toJson.text x := by
  cases x with
  | null => exact .null
  | bool b =>
    cases b
    · exact .false
    · exact .true
  | number n =>
    cases n with
    | integer i => exact plain_integer i
    | double _ => exact absurd h id
  | string s =>
    have hstring := Plain.string (chars_flatMap_escape s.toList)
    rw [String.ofList_toList] at hstring
    exact hstring

/-! ## 2. Values as a text lists them -/

mutual

/-- The value of an outline with its members in the order of the text, equal keys and all. -/
def Outline.listed : Outline → Except Fault Json
  | .scalar l => l.value.map Scalar.toJson
  | .array _ items => items.listed.map .array
  | .object _ members => members.listed.map .object

def Items.listed : Items → Except Fault (List Json)
  | .finish how =>
    match how.itemsFault with
    | some fault => .error fault
    | none => .ok []
  | .item o rest => do
    let v ← o.listed
    let vs ← rest.listed
    return v :: vs

def Members.listed : Members → Except Fault (List (String × Json))
  | .finish how =>
    match how.membersFault with
    | some fault => .error fault
    | none => .ok []
  | .member key o rest => do
    let k ← key.value
    let v ← o.listed
    let vs ← rest.listed
    return (k, v) :: vs

end

theorem Items.listed_finish_iff {how : Finish} {l : List Json} :
    (Items.finish how).listed = .ok l ↔ how.itemsFault = none ∧ l = [] := by
  rw [Items.listed]
  cases how.itemsFault <;> simp [eq_comm]

theorem Items.listed_item_iff {o : Outline} {rest : Items} {l : List Json} :
    (Items.item o rest).listed = .ok l ↔
      ∃ v vs, o.listed = .ok v ∧ rest.listed = .ok vs ∧ l = v :: vs := by
  constructor
  · intro h
    obtain ⟨v, hv, h⟩ := bind_eq_ok_iff.mp h
    obtain ⟨vs, hvs, h⟩ := bind_eq_ok_iff.mp h
    cases h
    exact ⟨v, vs, hv, hvs, rfl⟩
  · rintro ⟨v, vs, hv, hvs, rfl⟩
    rw [Items.listed, hv, hvs]
    rfl

theorem Members.listed_finish_iff {how : Finish} {l : List (String × Json)} :
    (Members.finish how).listed = .ok l ↔ how.membersFault = none ∧ l = [] := by
  rw [Members.listed]
  cases how.membersFault <;> simp [eq_comm]

theorem Members.listed_member_iff {key : Lexeme String} {o : Outline} {rest : Members}
    {l : List (String × Json)} :
    (Members.member key o rest).listed = .ok l ↔
      ∃ k v vs, key.value = .ok k ∧ o.listed = .ok v ∧ rest.listed = .ok vs ∧ l = (k, v) :: vs := by
  constructor
  · intro h
    obtain ⟨k, hk, h⟩ := bind_eq_ok_iff.mp h
    obtain ⟨v, hv, h⟩ := bind_eq_ok_iff.mp h
    obtain ⟨vs, hvs, h⟩ := bind_eq_ok_iff.mp h
    cases h
    exact ⟨k, v, vs, hk, hv, hvs, rfl⟩
  · rintro ⟨k, v, vs, hk, hv, hvs, rfl⟩
    rw [Members.listed, hk, hv, hvs]
    rfl

mutual

/-- Reading a value sorts what the text lists. -/
theorem value_of_listed : (o : Outline) → (v : Json) → o.listed = .ok v → o.value = .ok v.ordered
  | .scalar l, v, h => by
    obtain ⟨x, hx, rfl⟩ := map_eq_ok_iff.mp h
    refine map_eq_ok_iff.mpr ⟨x, hx, ?_⟩
    cases x <;> rfl
  | .array _ items, v, h => by
    obtain ⟨l, hl, rfl⟩ := map_eq_ok_iff.mp h
    exact map_eq_ok_iff.mpr ⟨_, values_of_listed items l hl, rfl⟩
  | .object _ members, v, h => by
    obtain ⟨l, hl, rfl⟩ := map_eq_ok_iff.mp h
    exact map_eq_ok_iff.mpr ⟨_, memberValues_of_listed members l hl, rfl⟩

theorem values_of_listed :
    (i : Items) → (l : List Json) → i.listed = .ok l → i.values = .ok (orderedItems l)
  | .finish how, l, h => by
    obtain ⟨hhow, rfl⟩ := Items.listed_finish_iff.mp h
    exact Items.values_finish_iff.mpr ⟨hhow, rfl⟩
  | .item o rest, l, h => by
    obtain ⟨v, vs, hv, hvs, rfl⟩ := Items.listed_item_iff.mp h
    exact Items.values_item_iff.mpr
      ⟨_, _, value_of_listed o v hv, values_of_listed rest vs hvs, rfl⟩

theorem memberValues_of_listed :
    (m : Members) → (l : List (String × Json)) → m.listed = .ok l →
      m.values = .ok (orderedMembers l)
  | .finish how, l, h => by
    obtain ⟨hhow, rfl⟩ := Members.listed_finish_iff.mp h
    exact Members.values_finish_iff.mpr ⟨hhow, rfl⟩
  | .member key o rest, l, h => by
    obtain ⟨k, v, vs, hk, hv, hvs, rfl⟩ := Members.listed_member_iff.mp h
    exact Members.values_member_iff.mpr
      ⟨k, _, _, hk, value_of_listed o v hv, memberValues_of_listed rest vs hvs, rfl⟩

end

/-- The outline lists this value, and it can be skipped up to here. -/
structure Outline.Lists (o : Outline) (v : Json) (r : List Char) : Prop where
  listed : o.listed = .ok v
  rest : o.rest? = some r

structure Items.Lists (i : Items) (l : List Json) (r : List Char) : Prop where
  listed : i.listed = .ok l
  rest : i.ending.rest? = some r

structure Members.Lists (m : Members) (l : List (String × Json)) (r : List Char) : Prop where
  listed : m.listed = .ok l
  rest : m.ending.rest? = some r

theorem itemThen_lists {o : Outline} {more : List Char → Items} {v : Json} {l : List Json}
    {r r' : List Char} (ho : o.Lists v r) (hmore : (more r).Lists l r') :
    (itemThen o more).Lists (v :: l) r' := by
  unfold itemThen
  rw [ho.rest]
  exact ⟨Items.listed_item_iff.mpr ⟨v, l, ho.listed, hmore.listed, rfl⟩, hmore.rest⟩

theorem memberThen_lists {key : Lexeme String} {value : List Char → Outline}
    {more : List Char → Members} {k : String} {v : Json} {l : List (String × Json)}
    {s r' r'' : List Char} (hkey : key.Takes k (':' :: s))
    (ho : (value s).Lists v r') (hmore : (more r').Lists l r'') :
    (memberThen key value more).Lists ((k, v) :: l) r'' := by
  have hbehind : valueBehind key value = value s :=
    valueBehind_of_colon (by rw [Lexeme.next_of_rest? hkey.rest]; rfl)
  unfold memberThen
  simp only [hkey.rest, hbehind, ho.rest]
  have hlisted :=
    Members.listed_member_iff.mpr ⟨k, v, l, hkey.value, ho.listed, hmore.listed, rfl⟩
  exact ⟨hlisted, hmore.rest⟩

/-! ## 3. Compact text -/

section Compact

variable {bound depth : Nat} {r : List Char}

theorem bound_of_nonempty {c : Char} {s : List Char} (h : (c :: s).length ≤ bound) :
    ∃ rest, bound = rest + 1 ∧ s.length ≤ rest :=
  ⟨bound - 1, by rw [List.length_cons] at h; omega, by rw [List.length_cons] at h; omega⟩

theorem depth_of_bracket {n : Nat} (h : n + 1 ≤ depth) : ∃ rest, depth = rest + 1 ∧ n ≤ rest :=
  ⟨depth - 1, by omega, by omega⟩

theorem text_array (x : Json) (xs : List Json) (r : List Char) :
    (Json.array (x :: xs)).text ++ r = '[' :: (x.text ++ (textItems xs ++ r)) := by
  simp [text]

theorem text_object (k : String) (x : Json) (xs : List (String × Json)) (r : List Char) :
    (Json.object ((k, x) :: xs)).text ++ r =
      '\x7b' :: (quote k.toList ++ ':' :: (x.text ++ (textMembers xs ++ r))) := by
  simp [text]

theorem textItems_cons (x : Json) (xs : List Json) (r : List Char) :
    textItems (x :: xs) ++ r = ',' :: (x.text ++ (textItems xs ++ r)) := by
  simp [textItems]

theorem textMembers_cons (k : String) (x : Json) (xs : List (String × Json)) (r : List Char) :
    textMembers ((k, x) :: xs) ++ r =
      ',' :: (quote k.toList ++ ':' :: (x.text ++ (textMembers xs ++ r))) := by
  simp [textMembers]

theorem ends_textItems (l : List Json) : Ends (textItems l ++ r) := by
  cases l <;> exact ends_cons (by decide) _

theorem ends_textMembers (l : List (String × Json)) : Ends (textMembers l ++ r) := by
  cases l <;> exact ends_cons (by decide) _

/-- The text of a value begins with a character that is no blank and closes no array. -/
theorem text_head (v : Json) (h : v.Integral) :
    ∃ c rest, v.text = c :: rest ∧ isBlank c = false ∧ c ≠ ']' := by
  have hscalar : ∀ x : Scalar, x.toJson.Integral →
      ∃ c rest, x.toJson.text = c :: rest ∧ isBlank c = false ∧ c ≠ ']' := by
    intro x hx
    obtain ⟨c, rest, hc, hblank, hne, -⟩ := scalar_head (plain_text x hx)
    exact ⟨c, rest, hc, hblank, hne⟩
  cases v with
  | null => exact hscalar .null h
  | bool b => exact hscalar (.bool b) h
  | number n => exact hscalar (.number n) h
  | string s => exact hscalar (.string s) h
  | array l => cases l <;> exact ⟨'[', _, rfl, by decide⟩
  | object l => cases l <;> exact ⟨'\x7b', _, rfl, by decide⟩

/-- The compact text of a value lists that value, whatever stands behind it. -/
def Outlined (v : Json) : Prop :=
  ∀ bound depth r, v.depth ≤ depth → Ends r → (v.text ++ r).length ≤ bound →
    (outline bound depth (v.text ++ r)).Lists v r

def OutlinedItems (l : List Json) : Prop :=
  ∀ bound depth r, depthItems l ≤ depth → (textItems l ++ r).length ≤ bound →
    (moreItems bound depth (textItems l ++ r)).Lists l r

def OutlinedMembers (l : List (String × Json)) : Prop :=
  ∀ bound depth r, depthMembers l ≤ depth → (textMembers l ++ r).length ≤ bound →
    (moreMembers bound depth (textMembers l ++ r)).Lists l r

theorem scalar_outlined (x : Scalar) (h : x.toJson.Integral) : x.toJson.Outlined := by
  intro bound depth r _ hr hbound
  obtain ⟨l, hl, htakes⟩ := outline_plain (plain_text x h) .nil hr hbound
  rw [List.nil_append] at hl
  rw [hl]
  exact ⟨map_eq_ok_iff.mpr ⟨x, htakes.value, rfl⟩, htakes.rest⟩

/-- The items of an array from the first one on. -/
theorem openItems_lists {x : Json} {xs : List Json} (hx : x.Integral) (ho : x.Outlined)
    (hmore : OutlinedItems xs) (hdepth : depthItems (x :: xs) ≤ depth)
    (hbound : (x.text ++ (textItems xs ++ r)).length ≤ bound) :
    (∃ c s, skipBlanks (x.text ++ (textItems xs ++ r)) = c :: s ∧ c ≠ ']') ∧
      (openItems bound depth (x.text ++ (textItems xs ++ r))).Lists (x :: xs) r := by
  obtain ⟨hdx, hdxs⟩ := Nat.max_le.mp hdepth
  have htail : (textItems xs ++ r).length ≤ bound := by
    rw [List.length_append] at hbound
    omega
  -- The first item is no closing bracket, so the list is not taken for an empty one.
  have hhead := ho bound depth _ hdx (ends_textItems xs) hbound
  obtain ⟨c, rest, hc, hblank, hne⟩ := text_head x hx
  have hskip : skipBlanks (x.text ++ (textItems xs ++ r)) = c :: (rest ++ (textItems xs ++ r)) := by
    rw [hc]
    exact skipBlanks_append .nil hblank _
  refine ⟨⟨c, _, hskip, hne⟩, ?_⟩
  rw [openItems_of_cons hskip hne]
  rw [hc, List.cons_append] at hhead
  exact itemThen_lists hhead (hmore bound depth r hdxs htail)

/-- The text of a key is read as that key, whatever stands behind it. -/
theorem openMembers_key (bound depth : Nat) (k : String) (s : List Char) :
    ∃ key : Lexeme String, key.Takes k s ∧
      openMembers bound depth (quote k.toList ++ s) =
        memberThen key (outline bound depth) (moreMembers bound depth) := by
  have hquote : quote k.toList ++ s = '"' :: (k.toList.flatMap escape ++ '"' :: s) := by
    simp [quote]
  have hkey := fun start => ofString_complete (chars_flatMap_escape k.toList) start s
  rw [String.ofList_toList] at hkey
  rw [hquote, openMembers_of_quote rfl]
  exact ⟨_, hkey _, rfl⟩

/-- The members of an object from the first one on. -/
theorem openMembers_lists {k : String} {x : Json} {xs : List (String × Json)} (ho : x.Outlined)
    (hmore : OutlinedMembers xs) (hdepth : depthMembers ((k, x) :: xs) ≤ depth)
    (hbound : (quote k.toList ++ ':' :: (x.text ++ (textMembers xs ++ r))).length ≤ bound) :
    (openMembers bound depth
      (quote k.toList ++ ':' :: (x.text ++ (textMembers xs ++ r)))).Lists ((k, x) :: xs) r := by
  obtain ⟨hdx, hdxs⟩ := Nat.max_le.mp hdepth
  simp only [List.length_append, List.length_cons] at hbound
  have hvalue : (x.text ++ (textMembers xs ++ r)).length ≤ bound := by
    simp only [List.length_append]
    omega
  have htail : (textMembers xs ++ r).length ≤ bound := by
    simp only [List.length_append]
    omega
  obtain ⟨key, hkey, hopen⟩ := openMembers_key bound depth k
    (':' :: (x.text ++ (textMembers xs ++ r)))
  rw [hopen]
  exact memberThen_lists hkey (ho bound depth _ hdx (ends_textMembers xs) hvalue)
    (hmore bound depth r hdxs htail)

end Compact

-- By the parts of the value.  Every bracket and every comma takes one off the bound, which is no
-- less than what is left of the text; every bracket takes one off the depth as well.
mutual

/-- **The compact text of a value lists that value,** if its numbers are integers. -/
theorem outlined : (v : Json) → v.Integral → v.Outlined
  | .null, h => scalar_outlined .null h
  | .bool b, h => scalar_outlined (.bool b) h
  | .number n, h => scalar_outlined (.number n) h
  | .string s, h => scalar_outlined (.string s) h
  | .array [], _ => fun bound depth r hdepth _ hbound => by
    obtain ⟨bound, rfl, -⟩ := bound_of_nonempty hbound
    obtain ⟨depth, rfl, -⟩ := depth_of_bracket hdepth
    exact ⟨rfl, rfl⟩
  | .object [], _ => fun bound depth r hdepth _ hbound => by
    obtain ⟨bound, rfl, -⟩ := bound_of_nonempty hbound
    obtain ⟨depth, rfl, -⟩ := depth_of_bracket hdepth
    exact ⟨rfl, rfl⟩
  | .array (x :: xs), h => fun bound depth r hdepth _ hbound => by
    rw [text_array] at hbound ⊢
    obtain ⟨bound, rfl, hrest⟩ := bound_of_nonempty hbound
    obtain ⟨depth, rfl, hle⟩ := depth_of_bracket hdepth
    have hitems := openItems_lists h.1 (outlined x h.1) (outlinedItems xs h.2) hle hrest
    rw [outline_array rfl]
    exact ⟨map_eq_ok_iff.mpr ⟨_, hitems.2.listed, rfl⟩, hitems.2.rest⟩
  | .object ((k, x) :: xs), h => fun bound depth r hdepth _ hbound => by
    rw [text_object] at hbound ⊢
    obtain ⟨bound, rfl, hrest⟩ := bound_of_nonempty hbound
    obtain ⟨depth, rfl, hle⟩ := depth_of_bracket hdepth
    have hmembers := openMembers_lists (outlined x h.1) (outlinedMembers xs h.2) hle hrest
    rw [outline_object rfl]
    exact ⟨map_eq_ok_iff.mpr ⟨_, hmembers.listed, rfl⟩, hmembers.rest⟩

theorem outlinedItems : (l : List Json) → IntegralItems l → OutlinedItems l
  | [], _ => fun bound depth r _ hbound => by
    obtain ⟨bound, rfl, -⟩ := bound_of_nonempty hbound
    exact ⟨rfl, rfl⟩
  | x :: xs, h => fun bound depth r hdepth hbound => by
    rw [textItems_cons] at hbound ⊢
    obtain ⟨bound, rfl, hrest⟩ := bound_of_nonempty hbound
    obtain ⟨⟨c, s, hskip, hne⟩, hitems⟩ :=
      openItems_lists h.1 (outlined x h.1) (outlinedItems xs h.2) hdepth hrest
    rw [← List.nil_append (',' :: _), moreItems_comma .nil hskip hne]
    exact hitems

theorem outlinedMembers : (l : List (String × Json)) → IntegralMembers l → OutlinedMembers l
  | [], _ => fun bound depth r _ hbound => by
    obtain ⟨bound, rfl, -⟩ := bound_of_nonempty hbound
    exact ⟨rfl, rfl⟩
  | (k, x) :: xs, h => fun bound depth r hdepth hbound => by
    rw [textMembers_cons] at hbound ⊢
    obtain ⟨bound, rfl, hrest⟩ := bound_of_nonempty hbound
    have hmembers := openMembers_lists (outlined x h.1) (outlinedMembers xs h.2) hdepth hrest
    rw [← List.nil_append (',' :: _), moreMembers_comma .nil rfl]
    exact hmembers

end

/-! ## 4. Whole texts -/

theorem Outline.Lists.next {o : Outline} {v : Json} {r : List Char} (h : o.Lists v r) :
    o.next = r := by
  rw [Outline.next, h.rest]
  rfl

theorem ofText_text {v : Json} (hintegral : v.Integral) (hdepth : v.depth ≤ depthLimit) :
    (Outline.ofText v.text).Lists v [] := by
  have hlists := outlined v hintegral v.text.length depthLimit [] hdepth ends_nil
    (by rw [List.append_nil])
  rwa [List.append_nil] at hlists

/-- Blanks in front of a text make no difference to its outline. -/
theorem outline_blanks {bound depth : Nat} {w : List Char} (hw : Blanks w) (s : List Char) :
    outline (bound + 1) depth (w ++ s) = outline (bound + 1) depth s := by
  have hall : ∀ c ∈ w, isBlank c = true := fun c hc => isBlank_iff.mpr (hw c hc)
  have hskip : skipBlanks (w ++ s) = skipBlanks s := List.dropWhile_append_of_pos hall
  rw [outline, outline, hskip]

theorem ofText_between {v : Json} (hintegral : v.Integral) (hdepth : v.depth ≤ depthLimit)
    {w u : List Char} (hw : Blanks w) (hu : Blanks u) :
    (Outline.ofText (w ++ (v.text ++ u))).Lists v u := by
  have hends : Ends u := by
    have hends := ends_append hu ends_nil
    rwa [List.append_nil] at hends
  obtain ⟨c, rest, hc, -⟩ := text_head v hintegral
  -- The text is not empty, so the bound has something left for it behind the blanks.
  obtain ⟨bound, hbound⟩ : ∃ bound, (w ++ (v.text ++ u)).length = bound + 1 := by
    apply Nat.exists_eq_add_one_of_ne_zero
    rw [hc, List.length_append, List.cons_append, List.length_cons]
    omega
  have hlength : (v.text ++ u).length ≤ bound + 1 := by
    have hsum : (w ++ (v.text ++ u)).length = w.length + (v.text ++ u).length :=
      List.length_append
    omega
  rw [Outline.ofText, hbound, outline_blanks hw]
  exact outlined v hintegral (bound + 1) depthLimit u hdepth hends hlength

/-- **Reading undoes printing,** but for the order of members. -/
theorem parse_print {v : Json} (hintegral : v.Integral) (hdepth : v.depth ≤ depthLimit) :
    parse v.print = .ok v.ordered := by
  have hlists := ofText_text hintegral hdepth
  rw [parse, print, String.toList_ofList, readText_eq_ok_iff, hlists.next]
  exact ⟨value_of_listed _ v hlists.listed, rfl⟩

end StreamBoard.Json

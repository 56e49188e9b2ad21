import StreamBoard.Proofs.Json.Spelling

/-!
# Truncation — texts that break off

Wherever the text of a value is cut, the reader says that the text ends too soon, and says so of its
end (`tears`).  A number is the exception, for what is left of one may be a number: then nothing is
unread behind it, so the list that it stands in is found to be cut.
-/

namespace StreamBoard.Json

open Grammar

/-! ## 1. Faults at the end of a text -/

/-- What a text may lack at its end. -/
def unfinished : List Cause := [.cutValue, .cutList, .cutObject, .cutString]

/-- Nothing is read because the text ends too soon, and this is found at its end. -/
def BreaksOff {α : Type} (r : Except Fault α) : Prop :=
  ∃ cause ∈ unfinished, r = .error (.at cause [])

theorem BreaksOff.bind {α β : Type} {r : Except Fault α} (h : BreaksOff r)
    (f : α → Except Fault β) : BreaksOff (r >>= f) := by
  obtain ⟨cause, hcause, rfl⟩ := h
  exact ⟨cause, hcause, rfl⟩

theorem BreaksOff.map {α β : Type} {r : Except Fault α} (h : BreaksOff r) (f : α → β) :
    BreaksOff (r.map f) := by
  obtain ⟨cause, hcause, rfl⟩ := h
  exact ⟨cause, hcause, rfl⟩

/-! ## 2. Cuts through words and strings -/

/-- A cut either goes through what stands in front, or leaves all of it. -/
theorem append_cut {a b p q : List Char} (h : a ++ b = p ++ q) :
    (∃ p', p = a ++ p' ∧ b = p' ++ q) ∨ ∃ q', q' ≠ [] ∧ a = p ++ q' := by
  rcases List.append_eq_append_iff.mp h with ⟨p', hp, hb⟩ | ⟨q', ha, hq⟩
  · exact .inl ⟨p', hp, hb⟩
  · by_cases hempty : q' = []
    · subst hempty
      rw [List.append_nil] at ha
      exact .inl ⟨[], by rw [ha, List.append_nil], hq.symm⟩
    · exact .inr ⟨q', hempty, ha⟩

/-- A cut leaves nothing of a single character. -/
theorem nil_of_singleton {c : Char} {p q : List Char} (h : [c] = p ++ q) (hq : q ≠ []) : p = [] := by
  cases p with
  | nil => rfl
  | cons d p =>
    obtain ⟨-, hnil⟩ := List.cons.inj h
    exact absurd (List.append_eq_nil_iff.mp hnil.symm).2 hq

theorem readWord_cut {word p q : List Char} (h : word = p ++ q) (hq : q ≠ []) :
    readWord word p = .error (.at .cutValue []) := by
  induction p generalizing word with
  | nil =>
    obtain ⟨c, q, rfl⟩ := List.exists_cons_of_ne_nil hq
    rw [h]
    rfl
  | cons c p ih =>
    rw [h, List.cons_append, readWord, if_pos rfl]
    exact ih rfl

theorem Grammar.HexDigit.utf8Size {c : Char} {n : Nat} (h : HexDigit c n) : c.utf8Size = 1 := by
  have hlower : ∀ k (hk : k < 16), ("0123456789abcdef".toList[k]).utf8Size = 1 := by
    decide +kernel
  have hupper : ∀ k (hk : k < 16), ("0123456789ABCDEF".toList[k]).utf8Size = 1 := by
    decide +kernel
  rcases h with h | h
  · obtain ⟨hn, rfl⟩ := List.getElem?_eq_some_iff.mp h
    exact hlower n hn
  · obtain ⟨hn, rfl⟩ := List.getElem?_eq_some_iff.mp h
    exact hupper n hn

theorem byteLength_of_hexDigits {ds : List Char} (h : ∀ c ∈ ds, ∃ n, HexDigit c n) :
    byteLength ds = ds.length := by
  induction ds with
  | nil => rfl
  | cons c ds ih =>
    obtain ⟨n, hn⟩ := h c List.mem_cons_self
    rw [byteLength, hn.utf8Size, ih fun d hd => h d (List.mem_cons_of_mem c hd), List.length_cons,
      Nat.add_comm]

theorem Grammar.HexUnit.digits {a b c d : Char} {unit : Nat} (h : HexUnit a b c d unit) :
    ∀ e ∈ [a, b, c, d], ∃ n, HexDigit e n := by
  obtain ⟨w, x, y, z, hw, hx, hy, hz, -⟩ := h
  simp only [List.mem_cons, List.not_mem_nil, or_false]
  rintro e (rfl | rfl | rfl | rfl)
  · exact ⟨w, hw⟩
  · exact ⟨x, hx⟩
  · exact ⟨y, hy⟩
  · exact ⟨z, hz⟩

section Strings

variable {lead : Option Nat} {a b c d : Char} {unit : Nat} {t s p q : List Char}

/-- Fewer than four digits are looked for beyond the end of the text. -/
theorem readString_hexDigits (h : ∀ c ∈ s, ∃ n, HexDigit c n) (hlength : s.length < 4) :
    readString lead ('\\' :: 'u' :: s) = .error (.at .cutString []) := by
  have hfault : hexFault s = .at .cutString [] := by
    rw [hexFault, if_pos]
    rw [byteLength_of_hexDigits h]
    exact hlength
  rw [← hfault]
  match s, hlength with
  | [], _ => rfl
  | [_], _ => rfl
  | [_, _], _ => rfl
  | [_, _, _], _ => rfl

/-- A code of four digits that is cut: something of it is missing, or it is still there. -/
theorem readString_unit_cut (h : HexUnit a b c d unit)
    (hsplit : '\\' :: 'u' :: a :: b :: c :: d :: t = p ++ q) :
    readString lead p = .error (.at .cutString []) ∨
      ∃ p', p = '\\' :: 'u' :: a :: b :: c :: d :: p' ∧ t = p' ++ q := by
  match p, hsplit with
  | [], _ => exact .inl rfl
  | [_], hsplit =>
    rw [← (List.cons.inj hsplit).1]
    exact .inl rfl
  | _ :: _ :: p, hsplit =>
    obtain ⟨rfl, hrest⟩ := List.cons.inj hsplit
    obtain ⟨rfl, htail⟩ := List.cons.inj hrest
    have hfour : [a, b, c, d] ++ t = p ++ q := htail
    rcases append_cut hfour with ⟨p', rfl, ht⟩ | ⟨q', hq, hp⟩
    · exact .inr ⟨p', rfl, ht⟩
    · have hdigits : ∀ e ∈ p, ∃ n, HexDigit e n := fun e he =>
        h.digits e (hp ▸ List.mem_append_left q' he)
      have hlength : 4 = p.length + q'.length := by
        rw [← List.length_append, ← hp]
        rfl
      have hpos := List.length_pos_iff.mpr hq
      exact .inl (readString_hexDigits hdigits (by omega))

/-- **A string that is cut breaks off,** wherever it is cut. -/
theorem readString_cut (h : Chars t s) (hsplit : t ++ ['"'] = p ++ q) (hq : q ≠ []) :
    readString none p = .error (.at .cutString []) := by
  induction h generalizing p with
  | nil =>
    rw [nil_of_singleton hsplit hq]
    rfl
  | plain hcode hquote hslash _ ih =>
    cases p with
    | nil => rfl
    | cons c p =>
      obtain ⟨rfl, hrest⟩ := List.cons.inj hsplit
      rw [readString, ih hrest]
      · simp [hquote, Nat.not_lt.mpr hcode, pushChar, Except.map]
      all_goals
        intros
        contradiction
  | escape hescape _ ih =>
    cases p with
    | nil => rfl
    | cons c p =>
      obtain ⟨rfl, hrest⟩ := List.cons.inj hsplit
      cases p with
      | nil => rfl
      | cons d p =>
        obtain ⟨rfl, htail⟩ := List.cons.inj hrest
        have hne := escapes_ne_unit hescape
        rw [readString, escapeLetter?_eq_some_iff.mpr hescape, ih htail]
        · rfl
        · intro _ _ _ _ _ he
          exact absurd he hne
        · exact hne
  | unit hunit _ ih =>
    rcases readString_unit_cut hunit hsplit with hcut | ⟨p, rfl, hrest⟩
    · exact hcut
    · have hchar := (Unit16.of_none_eq_char hunit.lt).mpr rfl
      rw [readString, hexFour?_eq_some_iff.mpr hunit]
      simp only [hchar, ih hrest]
      rfl
  | pair hhigh hrange hlow htrail hcode _ ih =>
    rcases readString_unit_cut hhigh hsplit with hcut | ⟨p, rfl, hrest⟩
    · exact hcut
    · -- The leading surrogate is read, and waits for its mate.
      have hlead : Unit16.of none _ = .lead _ := Unit16.of_eq_lead.mpr ⟨rfl, rfl, hrange⟩
      have hchar := (Unit16.of_some_eq_char hrange).mpr ⟨htrail, hcode⟩
      rw [readString, hexFour?_eq_some_iff.mpr hhigh]
      simp only [hlead]
      rcases readString_unit_cut hlow hrest with hcut | ⟨p, rfl, htail⟩
      · exact hcut
      · rw [readString, hexFour?_eq_some_iff.mpr hlow]
        simp only [hchar, ih htail]
        rfl

theorem ofString_cut (h : Chars t s) (hsplit : t ++ ['"'] = p ++ q) (hq : q ≠ [])
    (start : List Char) : BreaksOff (Lexeme.ofString start p).value := by
  have hvalue : (Lexeme.ofString start p).value =
      (readString none p).map fun r => String.ofList r.1 := by
    unfold Lexeme.ofString
    split <;> rfl
  rw [hvalue, readString_cut h hsplit hq]
  exact ⟨.cutString, by decide, rfl⟩

end Strings

/-! ## 3. Cuts through scalars -/

/-- What the outline of a value is where its text is cut: it breaks off, or it is a number, which
the end of the text may have cut short. -/
inductive Torn : Json → Outline → Prop
  | fault {v : Json} {o : Outline} : BreaksOff o.value → Torn v o
  | number {x : Number} {o : Outline} {y : Json} : o.Takes y [] → Torn (.number x) o

/-- The text of a value is torn wherever it is cut. -/
def Tears (v : Json) : Prop :=
  ∀ bound depth p q, v.Written depth → v.text = p ++ q → q ≠ [] → p.length ≤ bound →
    Torn v (outline bound depth p)

section Scalars

variable {bound depth : Nat} {p q : List Char}

theorem outline_nil : BreaksOff (outline bound depth []).value := by
  cases bound <;> exact ⟨.cutValue, by decide, rfl⟩

theorem ofWord_cut {word : List Char} (h : word = p ++ q) (hq : q ≠ []) (start : List Char)
    (x : Scalar) : BreaksOff (Lexeme.ofWord start x word p).value := by
  rw [Lexeme.ofWord, readWord_cut h hq]
  exact ⟨.cutValue, by decide, rfl⟩

/-- What is left of a number lacks a digit, or it is a number in range. -/
theorem Lexeme.Shortened.torn {l : Lexeme Number} {start : List Char} {n : Numeral} {x : Number}
    (h : l.Shortened start n) (hlength : n.whole.length ≤ 20) (hx : Denotes n x) :
    BreaksOff l.value ∨ ∃ y, l.Takes y [] := by
  rcases h with rfl | ⟨n', hshort, rfl⟩
  · exact .inl ⟨.cutValue, by decide, rfl⟩
  · obtain ⟨y, hy⟩ := hshort.exists_denotes hlength hx
    exact .inr ⟨y, ofNumeral_takes hy⟩

/-- What is written of a number is worth a number. -/
theorem exists_denotes_of_written {x : Number} {n : Numeral} (h : (Json.number x).Written depth)
    (hn : Numerals x.text n) : ∃ y, Denotes n y := by
  obtain ⟨u, htakes⟩ := h.takes ends_nil (Nat.le_succ _)
  obtain ⟨start, hread⟩ := scalar_numeral hn ends_nil
  have houtline : outline ((x.text ++ []).length + 1) depth (x.text ++ []) =
      .scalar (.scalar (x.text ++ [])) := outline_text_scalar (.number x) []
  have hvalue : (Outline.scalar (.scalar (x.text ++ []))).value = .ok u := by
    rw [← houtline]
    exact htakes.value
  rw [hread] at hvalue
  obtain ⟨y, hy, -⟩ := map_eq_ok_iff.mp hvalue
  obtain ⟨y, hy, -⟩ := map_eq_ok_iff.mp hy
  exact ⟨y, value_eq_ok_iff.mp hy⟩

theorem number_cut {x : Number} {c : Char} (h : (Json.number x).Written depth)
    (hsplit : x.text = c :: p ++ q) :
    BreaksOff (Lexeme.scalar (c :: p)).value ∨
      ∃ y, (Lexeme.scalar (c :: p)).Takes (.number y) [] := by
  obtain ⟨n, hn, hlength⟩ := brief_text x
  obtain ⟨y, hy⟩ := exists_denotes_of_written h hn
  have htorn : ∀ {l : Lexeme Number} {start : List Char}, l.Shortened start n →
      BreaksOff (l.map Scalar.number).value ∨ ∃ y, (l.map Scalar.number).Takes (.number y) [] := by
    intro l start hshort
    rcases hshort.torn hlength hy with hbreak | ⟨y, htakes⟩
    · exact .inl (hbreak.map _)
    · exact .inr ⟨y, htakes.map _⟩
  generalize x.text = t at hn hsplit
  cases hn with
  | parts hwhole hf hx =>
    cases hsign : n.negative with
    | true =>
      rw [hsign] at hsplit
      obtain ⟨rfl, hrest⟩ := List.cons.inj hsplit
      have hshort : (readNumber ('-' :: p) n.negative p).Shortened ('-' :: p) n :=
        readNumber_cut hwhole hf hx hrest
      rw [hsign] at hshort
      exact htorn hshort
    | false =>
      rw [hsign] at hsplit
      have hshort : (readNumber (c :: p) n.negative (c :: p)).Shortened (c :: p) n :=
        readNumber_cut hwhole hf hx hsplit
      rw [hsign] at hshort
      obtain ⟨d, rest, hd, hdigit⟩ := hwhole.head
      have hhead : d = c := by
        rw [hd] at hsplit
        exact (List.cons.inj hsplit).1
      rw [scalar_of_digit (hhead ▸ hdigit)]
      exact htorn hshort

theorem scalar_cut (x : Scalar) : x.toJson.Tears := by
  intro bound depth p q h hsplit hq hbound
  cases p with
  | nil => exact .fault outline_nil
  | cons c p =>
    obtain ⟨bound, rfl, -⟩ := bound_of_nonempty hbound
    obtain ⟨d, rest, hd, hblank, -, harray, hobject⟩ := scalar_text_head x
    have hhead : d = c := by
      rw [hd] at hsplit
      exact (List.cons.inj hsplit).1
    rw [hhead] at hblank harray hobject
    have hskip : skipBlanks (c :: p) = c :: p := skipBlanks_append .nil hblank p
    rw [outline_scalar hskip harray hobject]
    cases x with
    | number x =>
      rcases number_cut h hsplit with hbreak | ⟨y, htakes⟩
      · exact .fault (hbreak.map _)
      · exact .number ⟨by rw [Outline.value, htakes.value]; rfl, htakes.rest⟩
    | null =>
      obtain ⟨rfl, hrest⟩ := List.cons.inj hsplit
      exact .fault ((ofWord_cut hrest hq _ .null).map _)
    | bool b =>
      cases b with
      | false =>
        obtain ⟨rfl, hrest⟩ := List.cons.inj hsplit
        exact .fault ((ofWord_cut hrest hq _ (.bool false)).map _)
      | true =>
        obtain ⟨rfl, hrest⟩ := List.cons.inj hsplit
        exact .fault ((ofWord_cut hrest hq _ (.bool true)).map _)
    | string s =>
      obtain ⟨rfl, hrest⟩ := List.cons.inj hsplit
      have hbreak := ofString_cut (chars_flatMap_escape s.toList) hrest hq ('"' :: p)
      exact .fault ((hbreak.map Scalar.string).map _)

end Scalars

/-! ## 4. Cuts through lists -/

section Lists

variable {bound depth : Nat} {o : Outline} {s : List Char}

theorem openItems_nil : BreaksOff (openItems bound depth []).values := ⟨.cutList, by decide, rfl⟩

theorem openMembers_nil : BreaksOff (openMembers bound depth []).values :=
  ⟨.cutObject, by decide, rfl⟩

theorem moreItems_nil : BreaksOff (moreItems bound depth []).values := by
  cases bound <;> exact ⟨.cutList, by decide, rfl⟩

theorem moreMembers_nil : BreaksOff (moreMembers bound depth []).values := by
  cases bound <;> exact ⟨.cutObject, by decide, rfl⟩

theorem itemThen_breaksOff {more : List Char → Items} {u : Json} (ho : o.Takes u s)
    (hmore : BreaksOff (more s).values) : BreaksOff (itemThen o more).values := by
  unfold itemThen
  rw [ho.rest]
  show BreaksOff (o.value >>= fun v => (more s).values >>= fun vs => pure (v :: vs))
  rw [ho.value]
  exact hmore.bind _

theorem itemThen_torn {v : Json} (h : Torn v o) :
    BreaksOff (itemThen o (moreItems bound depth)).values := by
  cases h with
  | fault hfault =>
    unfold itemThen
    split
    · exact hfault.bind _
    · exact hfault.bind _
  | number htakes =>
    exact itemThen_breaksOff htakes moreItems_nil

section Members

variable {key : Lexeme String} {k : String} {value : List Char → Outline}

theorem memberThen_key {more : List Char → Members} (h : BreaksOff key.value) :
    BreaksOff (memberThen key value more).values := by
  unfold memberThen
  split
  · exact h.bind _
  · dsimp only
    split
    · exact h.bind _
    · exact h.bind _

theorem memberThen_value {more : List Char → Members} (hkey : key.Takes k s)
    (h : BreaksOff (valueBehind key value).value) :
    BreaksOff (memberThen key value more).values := by
  unfold memberThen
  simp only [hkey.rest]
  split
  all_goals
    show BreaksOff (key.value >>= fun _ => (valueBehind key value).value >>= fun _ => _)
    rw [hkey.value]
    exact h.bind _

theorem memberThen_breaksOff {more : List Char → Members} {u : Json} {r : List Char}
    (hkey : key.Takes k r) (ho : (valueBehind key value).Takes u s)
    (hmore : BreaksOff (more s).values) : BreaksOff (memberThen key value more).values := by
  unfold memberThen
  simp only [hkey.rest, ho.rest]
  show BreaksOff (key.value >>= fun _ => (valueBehind key value).value >>= fun _ =>
    (more s).values >>= fun _ => _)
  rw [hkey.value, ho.value]
  exact hmore.bind _

theorem memberThen_torn {v : Json} (hkey : key.Takes k s)
    (h : Torn v (valueBehind key value)) :
    BreaksOff (memberThen key value (moreMembers bound depth)).values := by
  cases h with
  | fault hfault => exact memberThen_value hkey hfault
  | number htakes =>
    exact memberThen_breaksOff hkey htakes moreMembers_nil

end Members

end Lists

def TearsItems (l : List Json) : Prop :=
  ∀ bound depth p q, WrittenItems depth l → textItems l = p ++ q → q ≠ [] → p.length ≤ bound →
    BreaksOff (moreItems bound depth p).values

def TearsMembers (l : List (String × Json)) : Prop :=
  ∀ bound depth p q, WrittenMembers depth l → textMembers l = p ++ q → q ≠ [] → p.length ≤ bound →
    BreaksOff (moreMembers bound depth p).values

section Cuts

variable {bound depth : Nat} {p q : List Char} {x : Json}

theorem ends_of_append {c : Char} {s : List Char} (hc : ∀ r, Ends (c :: r)) (h : c :: s = p ++ q) :
    Ends p := by
  cases p with
  | nil => exact ends_nil
  | cons d p =>
    rw [← (List.cons.inj h).1]
    exact hc p

theorem ends_of_textItems {l : List Json} (h : textItems l = p ++ q) : Ends p := by
  cases l with
  | nil => exact ends_of_append (ends_cons (by decide)) h
  | cons x xs => exact ends_of_append (ends_cons (by decide)) h

theorem ends_of_textMembers {l : List (String × Json)} (h : textMembers l = p ++ q) : Ends p := by
  cases l with
  | nil => exact ends_of_append (ends_cons (by decide)) h
  | cons x xs => exact ends_of_append (ends_cons (by decide)) h

theorem head_of_text {c : Char} {s : List Char} (h : x.text ++ s = c :: p ++ q) :
    isBlank c = false ∧ c ≠ ']' := by
  obtain ⟨d, rest, hd, hhead⟩ := head_text x
  rw [hd] at h
  rw [← (List.cons.inj h).1]
  exact hhead

theorem openItems_cut {xs : List Json} (hx : x.Tears) (hxs : TearsItems xs)
    (hwritten : x.Written depth) (hitems : WrittenItems depth xs)
    (h : x.text ++ textItems xs = p ++ q) (hq : q ≠ []) (hbound : p.length ≤ bound) :
    BreaksOff (openItems bound depth p).values := by
  rcases append_cut h with ⟨p', rfl, hsplit⟩ | ⟨q', hq', hsplit⟩
  · -- The item is still there.
    obtain ⟨u, htakes⟩ := hwritten.takes (ends_of_textItems hsplit) hbound
    rw [openItems_text]
    have hlength := length_of_append hbound
    exact itemThen_breaksOff htakes (hxs bound depth p' q hitems hsplit hq hlength)
  · have htorn := hx bound depth p q' hwritten hsplit hq' hbound
    cases p with
    | nil => exact openItems_nil
    | cons c p =>
      obtain ⟨hblank, hne⟩ := head_of_text h
      have hskip : skipBlanks (c :: p) = c :: p := skipBlanks_append .nil hblank p
      rw [openItems_of_cons hskip hne]
      exact itemThen_torn htorn

theorem openMembers_cut {k : String} {xs : List (String × Json)} (hx : x.Tears)
    (hxs : TearsMembers xs) (hwritten : x.Written depth) (hmembers : WrittenMembers depth xs)
    (h : quote k.toList ++ ':' :: (x.text ++ textMembers xs) = p ++ q) (hq : q ≠ [])
    (hbound : p.length ≤ bound) : BreaksOff (openMembers bound depth p).values := by
  rcases append_cut h with ⟨p', rfl, hsplit⟩ | ⟨q', hq', hsplit⟩
  · obtain ⟨key, hkey, hopen⟩ := openMembers_key bound depth k p'
    rw [hopen]
    cases p' with
    | nil =>
      apply memberThen_value hkey
      unfold valueBehind
      rw [Lexeme.next_of_rest? hkey.rest]
      exact ⟨.cutObject, by decide, rfl⟩
    | cons c p' =>
      obtain ⟨rfl, hrest⟩ := List.cons.inj hsplit
      have hbehind : valueBehind key (outline bound depth) = outline bound depth p' :=
        valueBehind_of_colon (by rw [Lexeme.next_of_rest? hkey.rest]; rfl)
      have hlength : p'.length ≤ bound := Nat.le_of_succ_le (length_of_append hbound)
      rcases append_cut hrest with ⟨p, rfl, htail⟩ | ⟨q', hq', htail⟩
      · -- Key and value are still there.
        obtain ⟨u, htakes⟩ := hwritten.takes (ends_of_textMembers htail) hlength
        rw [← hbehind] at htakes
        exact memberThen_breaksOff hkey htakes
          (hxs bound depth p q hmembers htail hq (length_of_append hlength))
      · apply memberThen_torn (v := x) hkey
        rw [hbehind]
        exact hx bound depth p' q' hwritten htail hq' hlength
  · cases p with
    | nil => exact openMembers_nil
    | cons c p =>
      obtain ⟨rfl, hrest⟩ := List.cons.inj hsplit
      rw [openMembers_of_quote rfl]
      exact memberThen_key (ofString_cut (chars_flatMap_escape k.toList) hrest hq' _)

theorem moreItems_cut (hhead : ∀ c r, p = c :: r → isBlank c = false ∧ c ≠ ']')
    (h : BreaksOff (openItems bound depth p).values) :
    BreaksOff (moreItems (bound + 1) depth (',' :: p)).values := by
  cases p with
  | nil => exact ⟨.cutValue, by decide, rfl⟩
  | cons c p =>
    obtain ⟨hblank, hne⟩ := hhead c p rfl
    have hskip : skipBlanks (c :: p) = c :: p := skipBlanks_append .nil hblank p
    rw [← List.nil_append (',' :: _), moreItems_comma .nil hskip hne]
    exact h

theorem moreMembers_cut (hhead : ∀ c r, p = c :: r → c = '"')
    (h : BreaksOff (openMembers bound depth p).values) :
    BreaksOff (moreMembers (bound + 1) depth (',' :: p)).values := by
  cases p with
  | nil => exact ⟨.cutValue, by decide, rfl⟩
  | cons c p =>
    rw [hhead c p rfl] at h ⊢
    rw [← List.nil_append (',' :: _), moreMembers_comma .nil rfl]
    exact h

theorem array_torn {v : Json} (h : BreaksOff (openItems bound depth p).values) :
    Torn v (outline (bound + 1) (depth + 1) ('[' :: p)) := by
  rw [outline_array rfl]
  exact .fault (h.map _)

theorem object_torn {v : Json} (h : BreaksOff (openMembers bound depth p).values) :
    Torn v (outline (bound + 1) (depth + 1) ('\x7b' :: p)) := by
  rw [outline_object rfl]
  exact .fault (h.map _)

/-- An empty list is cut between its brackets. -/
theorem nil_of_bracket {open' close c : Char} (h : [open', close] = c :: p ++ q) (hq : q ≠ []) :
    c = open' ∧ p = [] := by
  obtain ⟨hopen, hrest⟩ := List.cons.inj h
  exact ⟨hopen.symm, nil_of_singleton hrest hq⟩

end Cuts

mutual

/-- **The text of a value breaks off wherever it is cut,** if it is read at all. -/
theorem tears : (v : Json) → v.Tears
  | .null => scalar_cut .null
  | .bool b => scalar_cut (.bool b)
  | .number x => scalar_cut (.number x)
  | .string s => scalar_cut (.string s)
  | .array [] => fun bound depth p q h hsplit hq hbound => by
    obtain ⟨inner, rfl⟩ := h.exists_inner rfl (.inl rfl)
    cases p with
    | nil => exact .fault outline_nil
    | cons c p =>
      obtain ⟨rfl, rfl⟩ := nil_of_bracket hsplit hq
      obtain ⟨bound, rfl, -⟩ := bound_of_nonempty hbound
      exact array_torn openItems_nil
  | .object [] => fun bound depth p q h hsplit hq hbound => by
    obtain ⟨inner, rfl⟩ := h.exists_inner rfl (.inr rfl)
    cases p with
    | nil => exact .fault outline_nil
    | cons c p =>
      obtain ⟨rfl, rfl⟩ := nil_of_bracket hsplit hq
      obtain ⟨bound, rfl, -⟩ := bound_of_nonempty hbound
      exact object_torn openMembers_nil
  | .array (x :: xs) => fun bound depth p q h hsplit hq hbound => by
    obtain ⟨inner, rfl, hx, hxs⟩ := h.items
    cases p with
    | nil => exact .fault outline_nil
    | cons c p =>
      obtain ⟨rfl, hrest⟩ := List.cons.inj hsplit
      obtain ⟨bound, rfl, hle⟩ := bound_of_nonempty hbound
      exact array_torn (openItems_cut (tears x) (tearsItems xs) hx hxs hrest hq hle)
  | .object ((k, x) :: xs) => fun bound depth p q h hsplit hq hbound => by
    obtain ⟨inner, rfl, hx, hxs⟩ := h.members
    cases p with
    | nil => exact .fault outline_nil
    | cons c p =>
      rw [← List.append_nil (text _), text_object, List.append_nil] at hsplit
      obtain ⟨rfl, hrest⟩ := List.cons.inj hsplit
      obtain ⟨bound, rfl, hle⟩ := bound_of_nonempty hbound
      exact object_torn (openMembers_cut (tears x) (tearsMembers xs) hx hxs hrest hq hle)

theorem tearsItems : (l : List Json) → TearsItems l
  | [] => fun bound depth p q _ hsplit hq _ => by
    rw [nil_of_singleton hsplit hq]
    exact moreItems_nil
  | x :: xs => fun bound depth p q h hsplit hq hbound => by
    obtain ⟨hx, hxs⟩ := h.cons
    cases p with
    | nil => exact moreItems_nil
    | cons c p =>
      obtain ⟨rfl, hrest⟩ := List.cons.inj hsplit
      obtain ⟨bound, rfl, hle⟩ := bound_of_nonempty hbound
      apply moreItems_cut
      · rintro c r rfl
        exact head_of_text hrest
      · exact openItems_cut (tears x) (tearsItems xs) hx hxs hrest hq hle

theorem tearsMembers : (l : List (String × Json)) → TearsMembers l
  | [] => fun bound depth p q _ hsplit hq _ => by
    rw [nil_of_singleton hsplit hq]
    exact moreMembers_nil
  | (k, x) :: xs => fun bound depth p q h hsplit hq hbound => by
    obtain ⟨hx, hxs⟩ := h.cons
    cases p with
    | nil => exact moreMembers_nil
    | cons c p =>
      rw [← List.append_nil (textMembers _), textMembers_cons, List.append_nil] at hsplit
      obtain ⟨rfl, hrest⟩ := List.cons.inj hsplit
      obtain ⟨bound, rfl, hle⟩ := bound_of_nonempty hbound
      apply moreMembers_cut
      · rintro c r rfl
        exact (List.cons.inj hrest).1.symm
      · exact openMembers_cut (tears x) (tearsMembers xs) hx hxs hrest hq hle

end

end StreamBoard.Json

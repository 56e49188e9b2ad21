import StreamBoard.Fragment
import StreamBoard.Proofs.Json.Reading

/-!
# Fragment — which frames are fragments, and of what

A frame is a text of the grammar or it is none, and it has one value at most.  A text of an object
gives a fragment, which is the object without its member `type`; a text of any other value is
refused by its kind, and what is no text at all is malformed.
-/

namespace StreamBoard

open Json.Grammar

/-! ## 1. Whole texts -/

namespace Json

theorem Outline.Takes.next {o : Outline} {v : Json} {r : List Char} (h : o.Takes v r) :
    o.next = r := by
  rw [Outline.next, h.rest]
  rfl

/-- **A text reads as a value if and only if the grammar writes that value so.** -/
theorem parse_eq_ok_iff {raw : String} {v : Json} : parse raw = .ok v ↔ Text raw.toList v := by
  rw [parse, readText_eq_ok_iff]
  constructor
  · rintro ⟨hvalue, hnext⟩
    obtain ⟨w, t, r, hraw, hw, ht, hrest⟩ := (sound _).value _ _ _ hvalue
    have htakes : (Outline.ofText raw.toList).Takes v r := ⟨hvalue, hrest⟩
    rw [htakes.next] at hnext
    obtain ⟨u, hu, hr⟩ := exists_blanks r
    rw [hnext, List.append_nil] at hr
    exact ⟨w, t, r, hraw, hw, ht, hr ▸ hu⟩
  · rintro ⟨w, t, u, hraw, hw, ht, hu⟩
    have hends : Ends u := by
      have hends := ends_append hu ends_nil
      rwa [List.append_nil] at hends
    -- The reader takes the length of the text for its bound.
    have htakes := ht.isRead w u raw.toList.length hw hends (by rw [hraw])
    rw [← hraw] at htakes
    refine ⟨htakes.value, ?_⟩
    rw [Outline.ofText, depthLimit, htakes.next, skipBlanks_blanks hu]

/-- A text has one value. -/
theorem Grammar.Text.unique {raw : String} {v v' : Json} (h : Text raw.toList v)
    (h' : Text raw.toList v') : v = v' := by
  have hparse := parse_eq_ok_iff.mpr h
  rw [parse_eq_ok_iff.mpr h'] at hparse
  cases hparse
  rfl

/-- The members of an object that is read are those of a table. -/
theorem Grammar.Text.exists_table {raw : List Char} {l : List (String × Json)}
    (h : Text raw (.object l)) : ∃ t : Table Json, t.entries = l := by
  obtain ⟨w, t, u, -, -, ht, -⟩ := h
  -- The value has to be a variable for the rules to be taken apart.
  generalize hv : Json.object l = v at ht
  cases ht with
  | emptyObject _ =>
    cases hv
    exact ⟨.empty, rfl⟩
  | object _ _ =>
    cases hv
    exact ⟨_, rfl⟩
  | scalar hplain => cases hplain <;> cases hv
  | emptyArray _ | array _ => cases hv

end Json

/-! ## 2. Frames -/

namespace Fragment

variable {frame : String}

theorem kind_iff {v : Json} {name : String} :
    Kind v name ↔ kind v = name ∧ ∀ l, v ≠ .object l := by
  constructor
  · intro h
    cases h <;> exact ⟨rfl, nofun⟩
  · rintro ⟨rfl, hobject⟩
    cases v with
    | null => exact .null
    | bool _ => exact .boolean
    | number _ => exact .number
    | string _ => exact .string
    | array _ => exact .array
    | object l => exact absurd rfl (hobject l)

theorem decode_eq_ok_iff {f : Fragment} :
    decode frame = .ok f ↔
      ∃ l, Json.parse frame = .ok (.object l) ∧ (Table.ofList l).erase typeKey = f := by
  unfold decode
  split
  next hparse => simp [hparse]
  next l hparse => simp [hparse]
  next v hobject hparse =>
    have hne : ∀ l, v ≠ .object l := hobject
    simp [hparse, hne]

theorem decode_eq_notAnObject_iff {name : String} :
    decode frame = .error (.notAnObject name) ↔ ∃ v, Json.parse frame = .ok v ∧ Kind v name := by
  unfold decode
  split
  next hparse => simp [hparse]
  next l hparse => simp [hparse, kind_iff]
  next v hobject hparse =>
    have hne : ∀ l, v ≠ .object l := hobject
    simp [hparse, kind_iff, hne]

theorem decode_eq_malformed_iff {fault : Json.Fault} :
    decode frame = .error (.malformed fault) ↔ Json.parse frame = .error fault := by
  unfold decode
  split
  next hparse => simp [hparse]
  next hparse => simp [hparse]
  next hparse => simp [hparse]

theorem decode?_eq_some_iff {f : Fragment} : decode? frame = some f ↔ decode frame = .ok f :=
  Json.toOption_eq_some_iff

/-- **A frame is a fragment if and only if it is the text of an object, and then the fragment is
that object without its member `type`.**  A frame is refused by its kind if and only if it is a text
of another value, and it is malformed if and only if it is no text at all.  What is refused either
way is dropped, and nothing else is. -/
theorem decode_iff_text (frame : String) :
    (∀ f, decode frame = .ok f ↔ ∃ t : Table Json, Text frame.toList (.object t.entries) ∧
      ∀ key, f.find? key = if key = typeKey then none else t.find? key) ∧
    (∀ name, decode frame = .error (.notAnObject name) ↔
      ∃ v, Text frame.toList v ∧ Kind v name) ∧
    ((∃ fault, decode frame = .error (.malformed fault)) ↔ ∀ v, ¬ Text frame.toList v) ∧
    (∀ f, decode? frame = some f ↔ decode frame = .ok f) := by
  refine ⟨fun f => ?_, fun name => ?_, ?_, fun f => decode?_eq_some_iff⟩
  · rw [decode_eq_ok_iff]
    constructor
    · rintro ⟨l, hparse, rfl⟩
      have htext := Json.parse_eq_ok_iff.mp hparse
      obtain ⟨t, rfl⟩ := htext.exists_table
      rw [Table.ofList_entries]
      exact ⟨t, htext, fun key => Table.find?_erase t typeKey key⟩
    · rintro ⟨t, htext, hfind⟩
      refine ⟨t.entries, Json.parse_eq_ok_iff.mpr htext, ?_⟩
      rw [Table.ofList_entries]
      refine Table.ext_find? fun key => ?_
      rw [Table.find?_erase, hfind]
  · rw [decode_eq_notAnObject_iff]
    simp only [Json.parse_eq_ok_iff]
  · -- A text that is no value is refused with some fault, whichever it is.
    simp only [decode_eq_malformed_iff, ← Json.parse_eq_ok_iff]
    cases Json.parse frame with
    | ok v => simp
    | error fault => simp

end Fragment

end StreamBoard

import StreamBoard.Board.Action
import StreamBoard.Proofs.Ledger
import StreamBoard.Proofs.Table

/-!
# Field — what each operation does to the fields of a board

A field has up to three homes: a view, the pushed value that the view was made from, and the table
of fields without a view.  The lemmas here say of every operation which fields it writes and that it
leaves the others alone; what follows from them need not ask where a field lives.
-/

namespace StreamBoard

/-! ## 1. Keys -/

theorem isKnownKey_name (k : MapKey) : isKnownKey k.name = true := by
  simp [isKnownKey, MapKey.ofName?_name]

theorem isKnownKey_iff {key : String} : isKnownKey key = true ↔ ∃ k : MapKey, key = k.name := by
  simp [isKnownKey, Option.isSome_iff_exists, MapKey.ofName?_eq_some_iff]

@[simp] theorem ofName?_connectedKey : MapKey.ofName? connectedKey = none := by decide

@[simp] theorem ofName?_typeKey : MapKey.ofName? Fragment.typeKey = none := by decide

theorem name_ne_connectedKey (k : MapKey) : k.name ≠ connectedKey := by
  cases k <;> decide

theorem name_ne_typeKey (k : MapKey) : k.name ≠ Fragment.typeKey := by
  cases k <;> decide

namespace Board

/-! ## 2. Views -/

@[simp] theorem view_pushed (b : Board) (k : MapKey) (value : Json) :
    (b.view k value).pushed = b.pushed := by
  cases k <;> rfl

@[simp] theorem view_extra (b : Board) (k : MapKey) (value : Json) :
    (b.view k value).extra = b.extra := by
  cases k <;> rfl

@[simp] theorem view_connected (b : Board) (k : MapKey) (value : Json) :
    (b.view k value).connected = b.connected := by
  cases k <;> rfl

theorem viewDocument_view_of_ne (b : Board) {k l : MapKey} (value : Json) (h : l ≠ k) :
    (b.view k value).viewDocument l = b.viewDocument l := by
  cases k <;> cases l <;> first | rfl | exact absurd rfl h

/-! ## 3. Writing one field -/

/-- Writing a field is one of three things: a new view beside the pushed value, nothing at all, or a
field without a view. -/
theorem put_cases (b : Board) (key : String) (value : Json) :
    (∃ k : MapKey, key = k.name ∧
      b.put key value = { b.view k value with pushed := b.pushed.insert key value }) ∨
    (key = connectedKey ∧ b.put key value = b) ∨
    (MapKey.ofName? key = none ∧ key ≠ connectedKey ∧
      b.put key value = { b with extra := b.extra.insert key value }) := by
  unfold put replaceField
  cases hk : MapKey.ofName? key with
  | some k => exact .inl ⟨k, MapKey.ofName?_eq_some_iff.mp hk, rfl⟩
  | none =>
    by_cases hc : key = connectedKey
    · exact .inr (.inl ⟨hc, by simp [hc, Except.toOption]⟩)
    · exact .inr (.inr ⟨rfl, hc, by simp [hc, Except.toOption]⟩)

theorem put_name (b : Board) (k : MapKey) (value : Json) :
    b.put k.name value = { b.view k value with pushed := b.pushed.insert k.name value } := by
  rw [put, replaceField, MapKey.ofName?_name]
  rfl

theorem put_connectedKey (b : Board) (value : Json) : b.put connectedKey value = b := by
  rw [put, replaceField, ofName?_connectedKey]
  rfl

theorem put_extra (b : Board) {key : String} (hkey : MapKey.ofName? key = none)
    (hflag : key ≠ connectedKey) (value : Json) :
    b.put key value = { b with extra := b.extra.insert key value } := by
  simp only [put, replaceField, hkey, if_neg hflag]
  rfl

/-- A key names a view, the connection flag or a field without a view. -/
theorem key_cases (key : String) :
    (∃ k : MapKey, key = k.name) ∨ key = connectedKey ∨
      MapKey.ofName? key = none ∧ key ≠ connectedKey := by
  cases hk : MapKey.ofName? key with
  | some k => exact .inl ⟨k, MapKey.ofName?_eq_some_iff.mp hk⟩
  | none =>
    by_cases hflag : key = connectedKey
    · exact .inr (.inl hflag)
    · exact .inr (.inr ⟨rfl, hflag⟩)

/-- A write leaves every other field alone. -/
theorem field_put_of_ne (b : Board) {key l : String} (value : Json) (h : l ≠ key) :
    (b.put key value).field l = b.field l := by
  obtain ⟨k, rfl, hput⟩ | ⟨-, hput⟩ | ⟨-, -, hput⟩ := b.put_cases key value
  · simp only [hput, field, Table.find?_insert_of_ne _ _ h]
    cases b.pushed.find? l with
    | some v => rfl
    | none =>
      cases hl : MapKey.ofName? l with
      | none => simp
      | some k' =>
        have hne : k' ≠ k := by
          rintro rfl
          exact h (MapKey.ofName?_eq_some_iff.mp hl)
        -- The new view shows in the document of its own key only.
        have hdoc := b.viewDocument_view_of_ne value hne
        have : viewDocument { b.view k value with pushed := b.pushed.insert k.name value } k' =
            (b.view k value).viewDocument k' := by
          cases k' <;> rfl
        simp only [this, hdoc]
  · rw [hput]
  · have hdoc (k : MapKey) : viewDocument { b with extra := b.extra.insert key value } k =
        b.viewDocument k := by
      cases k <;> rfl
    simp only [hput, field, Table.find?_insert_of_ne _ _ h, hdoc]

theorem find?_pushed_put_of_ne (b : Board) {key l : String} (value : Json) (h : l ≠ key) :
    (b.put key value).pushed.find? l = b.pushed.find? l := by
  rcases key_cases key with ⟨k, rfl⟩ | rfl | ⟨hkey, hflag⟩
  · rw [put_name, Table.find?_insert_of_ne _ _ h]
  · rw [put_connectedKey]
  · rw [put_extra b hkey hflag]

/-! ## 4. Homes of fields -/

/-- Every field has one home: pushed values belong to views, and no field without a view bears the
name of a view or of the connection flag. -/
structure Separated (b : Board) : Prop where
  pushed : ∀ key, MapKey.ofName? key = none → b.pushed.find? key = none
  extra : ∀ key, isKnownKey key = true ∨ key = connectedKey → b.extra.find? key = none

theorem separated_blank : Separated {} :=
  ⟨fun _ _ => rfl, fun _ _ => rfl⟩

theorem Separated.put {b : Board} (h : b.Separated) (key : String) (value : Json) :
    (b.put key value).Separated := by
  obtain ⟨k, rfl, hput⟩ | ⟨-, hput⟩ | ⟨hkey, hne, hput⟩ := b.put_cases key value
  · refine ⟨fun l hl => ?_, fun l hl => ?_⟩
    · have hlk : l ≠ k.name := by
        rintro rfl
        simp [MapKey.ofName?_name] at hl
      simpa [hput, Table.find?_insert_of_ne _ _ hlk] using h.pushed l hl
    · simpa [hput] using h.extra l hl
  · rwa [hput]
  · refine ⟨fun l hl => ?_, fun l hl => ?_⟩
    · simpa [hput] using h.pushed l hl
    · -- The new name is neither a view's nor the flag's, so no such name gains a field.
      have hlk : l ≠ key := by
        rintro rfl
        rcases hl with hl | hl
        · simp [isKnownKey, hkey] at hl
        · exact hne hl
      simpa [hput, Table.find?_insert_of_ne _ _ hlk] using h.extra l hl

theorem Separated.putAll {b : Board} (h : b.Separated) (members : List (String × Json)) :
    (b.putAll members).Separated :=
  foldl_keeps Separated (fun _ m _ hb => hb.put m.1 m.2) h

theorem Separated.setSettings {b : Board} (h : b.Separated) (settings : Table StreamSettings) :
    (b.setSettings settings).Separated := by
  refine ⟨fun l hl => ?_, h.extra⟩
  rw [Board.setSettings, Table.find?_erase]
  split
  · rfl
  · exact h.pushed l hl

/-- A written field has the value written, whatever it was before; only the connection flag does
not take one. -/
theorem Separated.field_put {b : Board} (h : b.Separated) {key : String} (value : Json)
    (hkey : key ≠ connectedKey) : (b.put key value).field key = some value := by
  obtain ⟨k, rfl, hput⟩ | ⟨hc, -⟩ | ⟨hk, -, hput⟩ := b.put_cases key value
  · simp [hput, field]
  · exact absurd hc hkey
  · simp [hput, field, h.pushed key hk, hk, hkey]

/-- **Of several values for one field the last one counts.** -/
theorem Separated.field_putAll {b : Board} (h : b.Separated) (members : List (String × Json))
    {key : String} (hkey : key ≠ connectedKey) :
    (b.putAll members).field key = (members.reverse.lookup key).or (b.field key) := by
  rw [List.lookup_eq_findSome?]
  refine foldl_view Separated (fun s => s.field key) _ (fun s m hs => hs.put m.1 m.2)
    (fun s m hs => ?_) members h
  by_cases hm : key = m.1
  · subst hm
    simp [hs.field_put m.2 hkey]
  · simp [field_put_of_ne s m.2 hm, hm]

end Board

end StreamBoard

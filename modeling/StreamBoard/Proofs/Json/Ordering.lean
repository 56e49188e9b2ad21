import StreamBoard.Json.Reader
import StreamBoard.Proofs.Table

/-!
# Ordering — the one order of an object's members

`Json.ordered` sorts the members of every object; it changes nothing in a value that is sorted
already (`ordered_of_ordered`).  Reading a value out of an outline sorts it: from the outline of a
value `v` one reads `v.ordered` (`value_ofValue`), and nothing that any outline reads as is
unsorted (`ordered_of_value`).
-/

namespace StreamBoard

namespace Json

/-! ## 1. Sorting -/

theorem orderedMembers_eq_map (members : List (String × Json)) :
    orderedMembers members = members.map fun m => (m.1, m.2.ordered) := by
  induction members with
  | nil => rfl
  | cons m rest ih =>
    obtain ⟨k, v⟩ := m
    rw [orderedMembers, ih, List.map_cons]

theorem orderedMembers_iff {members : List (String × Json)} :
    OrderedMembers members ↔ ∀ m ∈ members, m.2.Ordered := by
  induction members with
  | nil => simp [OrderedMembers]
  | cons m rest ih => simp [OrderedMembers, ih]

theorem ordered_object (members : List (String × Json)) :
    (object members).ordered = ofTable (.ofList (members.map fun m => (m.1, m.2.ordered))) := by
  rw [ordered, orderedMembers_eq_map, ofTable]

theorem ordered_ofTable (t : Table Json) : (ofTable t).ordered = ofTable (t.map ordered) := by
  rw [ofTable, ordered_object, ← Table.map_ofList, Table.ofList_entries]

/-- An object is sorted if it is made from a table of sorted values. -/
theorem ordered_ofTable_iff {t : Table Json} :
    (ofTable t).Ordered ↔ ∀ key v, t.find? key = some v → v.Ordered := by
  simp only [ofTable, Ordered, orderedMembers_iff, Prod.forall, ← Table.mem_entries_iff]
  exact ⟨fun h => h.2, fun h => ⟨t.ascending, h⟩⟩

mutual

/-- **Sorting a sorted value changes nothing.** -/
theorem ordered_of_ordered : (v : Json) → v.Ordered → v.ordered = v
  | .null, _ | .bool _, _ | .number _, _ | .string _, _ => rfl
  | .array items, h => by rw [ordered, orderedItems_of_ordered items h]
  | .object members, h => by
    rw [ordered, orderedMembers_of_ordered members h.2, Table.entries_ofList h.1]

theorem orderedItems_of_ordered : (l : List Json) → OrderedItems l → orderedItems l = l
  | [], _ => rfl
  | v :: rest, h => by
    rw [orderedItems, ordered_of_ordered v h.1, orderedItems_of_ordered rest h.2]

theorem orderedMembers_of_ordered :
    (l : List (String × Json)) → OrderedMembers l → orderedMembers l = l
  | [], _ => rfl
  | (k, v) :: rest, h => by
    rw [orderedMembers, ordered_of_ordered v h.1, orderedMembers_of_ordered rest h.2]

end

/-- The values of a table made from a list are values of the list. -/
theorem mem_of_find?_ofList {α : Type} {l : List (String × α)} {key : String} {a : α}
    (h : (Table.ofList l).find? key = some a) : (key, a) ∈ l := by
  rw [Table.find?_ofList] at h
  obtain ⟨before, after, hl, -⟩ := List.lookup_eq_some_iff.mp h
  exact List.mem_reverse.mp (hl ▸ by simp)

theorem ordered_ofTable_ofList {l : List (String × Json)} (h : OrderedMembers l) :
    (ofTable (.ofList l)).Ordered := by
  refine ordered_ofTable_iff.mpr fun key v hv => ?_
  exact orderedMembers_iff.mp h (key, v) (mem_of_find?_ofList hv)

mutual

theorem ordered_ordered : (v : Json) → v.ordered.Ordered
  | .null | .bool _ | .number _ | .string _ => trivial
  | .array items => orderedItems_orderedItems items
  | .object members => ordered_ofTable_ofList (orderedMembers_orderedMembers members)

theorem orderedItems_orderedItems : (l : List Json) → OrderedItems (orderedItems l)
  | [] => trivial
  | v :: rest => ⟨ordered_ordered v, orderedItems_orderedItems rest⟩

theorem orderedMembers_orderedMembers :
    (l : List (String × Json)) → OrderedMembers (orderedMembers l)
  | [] => trivial
  | (_, v) :: rest => ⟨ordered_ordered v, orderedMembers_orderedMembers rest⟩

end

/-! ## 2. Reading -/

theorem bind_eq_ok_iff {ε α β : Type} {x : Except ε α} {f : α → Except ε β} {b : β} :
    x >>= f = .ok b ↔ ∃ a, x = .ok a ∧ f a = .ok b := by
  cases x with
  | error e => exact ⟨fun h => (nomatch h), fun ⟨_, h, _⟩ => (nomatch h)⟩
  | ok a => exact ⟨fun h => ⟨a, rfl, h⟩, fun ⟨_, h, hb⟩ => by cases h; exact hb⟩

theorem map_eq_ok_iff {ε α β : Type} {x : Except ε α} {f : α → β} {b : β} :
    x.map f = .ok b ↔ ∃ a, x = .ok a ∧ f a = b := by
  cases x with
  | error e => exact ⟨fun h => (nomatch h), fun ⟨_, h, _⟩ => (nomatch h)⟩
  | ok a => simp [Except.map]

theorem toOption_eq_some_iff {ε α : Type} {x : Except ε α} {a : α} :
    x.toOption = some a ↔ x = .ok a := by
  cases x <;> simp [Except.toOption]

theorem readText_eq_ok_iff {α : Type} {r : Reader α} {s : List Char} {a : α} :
    readText r s = .ok a ↔
      r (Outline.ofText s) = .ok a ∧ skipBlanks (Outline.ofText s).next = [] := by
  simp only [readText]
  cases r (Outline.ofText s) with
  | error fault => exact iff_of_false nofun fun h => by cases h.1
  | ok b =>
    cases skipBlanks (Outline.ofText s).next with
    | nil => exact (and_iff_left rfl).symm
    | cons c rest => exact iff_of_false nofun fun h => by cases h.2

-- A list reads if it ends well and everything in it reads.
theorem Items.values_finish_iff {how : Finish} {l : List Json} :
    (Items.finish how).values = .ok l ↔ how.itemsFault = none ∧ l = [] := by
  rw [Items.values]
  cases how.itemsFault <;> simp [eq_comm]

theorem Items.values_item_iff {o : Outline} {rest : Items} {l : List Json} :
    (Items.item o rest).values = .ok l ↔
      ∃ v vs, o.value = .ok v ∧ rest.values = .ok vs ∧ l = v :: vs := by
  constructor
  · intro h
    obtain ⟨v, hv, h⟩ := bind_eq_ok_iff.mp h
    obtain ⟨vs, hvs, h⟩ := bind_eq_ok_iff.mp h
    cases h
    exact ⟨v, vs, hv, hvs, rfl⟩
  · rintro ⟨v, vs, hv, hvs, rfl⟩
    rw [Items.values, hv, hvs]
    rfl

theorem Members.values_finish_iff {how : Finish} {l : List (String × Json)} :
    (Members.finish how).values = .ok l ↔ how.membersFault = none ∧ l = [] := by
  rw [Members.values]
  cases how.membersFault <;> simp [eq_comm]

theorem Members.values_member_iff {key : Lexeme String} {o : Outline} {rest : Members}
    {l : List (String × Json)} :
    (Members.member key o rest).values = .ok l ↔
      ∃ k v vs, key.value = .ok k ∧ o.value = .ok v ∧ rest.values = .ok vs ∧ l = (k, v) :: vs := by
  constructor
  · intro h
    obtain ⟨k, hk, h⟩ := bind_eq_ok_iff.mp h
    obtain ⟨v, hv, h⟩ := bind_eq_ok_iff.mp h
    obtain ⟨vs, hvs, h⟩ := bind_eq_ok_iff.mp h
    cases h
    exact ⟨k, v, vs, hk, hv, hvs, rfl⟩
  · rintro ⟨k, v, vs, hk, hv, hvs, rfl⟩
    rw [Members.values, hk, hv, hvs]
    rfl

mutual

/-- **Reading a value sorts it.** -/
theorem value_ofValue : (v : Json) → (Outline.ofValue v).value = .ok v.ordered
  | .null | .bool _ | .number _ | .string _ => rfl
  | .array items => by
    rw [Outline.ofValue, Outline.value, values_ofValues items, ordered]
    rfl
  | .object members => by
    rw [Outline.ofValue, Outline.value, values_ofMembers members, ordered]
    rfl

theorem values_ofValues : (l : List Json) → (Items.ofValues l).values = .ok (orderedItems l)
  | [] => rfl
  | v :: rest => by
    rw [Items.ofValues, Items.values, value_ofValue v, values_ofValues rest]
    rfl

theorem values_ofMembers :
    (l : List (String × Json)) → (Members.ofValues l).values = .ok (orderedMembers l)
  | [] => rfl
  | (k, v) :: rest => by
    rw [Members.ofValues, Members.values, value_ofValue v, values_ofMembers rest]
    rfl

end

mutual

theorem ordered_of_value : (o : Outline) → (v : Json) → o.value = .ok v → v.Ordered
  | .scalar l, v, h => by
    obtain ⟨s, -, rfl⟩ := map_eq_ok_iff.mp h
    cases s <;> trivial
  | .array _ items, v, h => by
    obtain ⟨l, hl, rfl⟩ := map_eq_ok_iff.mp h
    exact ordered_of_values items l hl
  | .object _ members, v, h => by
    obtain ⟨l, hl, rfl⟩ := map_eq_ok_iff.mp h
    exact ordered_ofTable_ofList (ordered_of_memberValues members l hl)

theorem ordered_of_values : (o : Items) → (l : List Json) → o.values = .ok l → OrderedItems l
  | .finish how, l, h => by
    obtain ⟨-, rfl⟩ := Items.values_finish_iff.mp h
    trivial
  | .item o rest, l, h => by
    obtain ⟨v, vs, hv, hvs, rfl⟩ := Items.values_item_iff.mp h
    exact ⟨ordered_of_value o v hv, ordered_of_values rest vs hvs⟩

theorem ordered_of_memberValues :
    (o : Members) → (l : List (String × Json)) → o.values = .ok l → OrderedMembers l
  | .finish how, l, h => by
    obtain ⟨-, rfl⟩ := Members.values_finish_iff.mp h
    trivial
  | .member key o rest, l, h => by
    obtain ⟨k, v, vs, -, hv, hvs, rfl⟩ := Members.values_member_iff.mp h
    exact ⟨ordered_of_value o v hv, ordered_of_memberValues rest vs hvs⟩

end

end Json

end StreamBoard

import StreamBoard.Table

/-!
# Table — tables made from lists, and lists made from tables

A table made from a list holds the last value that the list has under each key; the list of a
table's own entries makes the same table again.
-/

namespace StreamBoard

namespace Table

variable {α β : Type}

/-! ## 1. Entries -/

theorem mem_entries_iff {t : Table α} {key : String} {value : α} :
    (key, value) ∈ t.entries ↔ t.find? key = some value := by
  obtain ⟨l, hl⟩ := t
  simp only [find?]
  induction l with
  | nil => simp
  | cons head rest ih =>
    obtain ⟨k, v⟩ := head
    obtain ⟨hk, hrest⟩ := List.pairwise_cons.mp hl
    rw [lookup_cons_eq_ite, List.mem_cons, ih hrest]
    by_cases h : key = k
    · -- All keys behind the head are greater, so the head is the only entry under its key.
      subst h
      have hnone := lookup_eq_none_of_forall_lt hk
      simp [hnone, eq_comm]
    · simp [h]

theorem nodup_keys (t : Table α) : t.keys.Nodup := by
  refine List.pairwise_map.mpr (t.ascending.imp fun {a b} h heq => ?_)
  exact String.lt_irrefl _ (heq ▸ h)

theorem mem_keys_iff {t : Table α} {key : String} : key ∈ t.keys ↔ t.contains key = true := by
  simp only [keys, List.mem_map, Prod.exists, exists_and_right, exists_eq_right, contains,
    Option.isSome_iff_exists, mem_entries_iff]

theorem entries_ne_nil_iff {t : Table α} : t.entries ≠ [] ↔ ∃ key, t.contains key = true := by
  simp only [contains, Option.isSome_iff_exists, ← mem_entries_iff]
  constructor
  · intro h
    obtain ⟨e, he⟩ := List.exists_mem_of_ne_nil _ h
    exact ⟨e.1, e.2, he⟩
  · rintro ⟨key, value, he⟩
    exact List.ne_nil_of_mem he

theorem lookup_eq_none_of_not_mem {l : List (String × α)} {key : String}
    (h : key ∉ l.map Prod.fst) : l.lookup key = none := by
  rw [List.lookup_eq_none_iff]
  intro e he
  have hne : e.1 ≠ key := fun heq => h (List.mem_map.mpr ⟨e, he, heq⟩)
  simp [Ne.symm hne]

/-- In a list without equal keys it makes no difference from which end a key is searched. -/
theorem lookup_reverse_of_nodup {l : List (String × α)} (h : (l.map Prod.fst).Nodup)
    (key : String) : l.reverse.lookup key = l.lookup key := by
  induction l with
  | nil => rfl
  | cons head rest ih =>
    obtain ⟨k, v⟩ := head
    obtain ⟨hk, hrest⟩ := List.nodup_cons.mp h
    rw [List.reverse_cons, List.lookup_append, ih hrest, lookup_cons_eq_ite, lookup_cons_eq_ite]
    by_cases hkey : key = k
    · subst hkey
      simp [lookup_eq_none_of_not_mem hk]
    · cases rest.lookup key <;> simp [hkey]

/-! ## 2. Tables of lists -/

theorem find?_foldl_insert (l : List (String × α)) (t : Table α) (key : String) :
    (l.foldl (fun t e => t.insert e.1 e.2) t).find? key =
      (l.reverse.lookup key).or (t.find? key) := by
  induction l generalizing t with
  | nil => simp
  | cons head rest ih =>
    obtain ⟨k, v⟩ := head
    rw [List.foldl_cons, ih, find?_insert, List.reverse_cons, List.lookup_append,
      lookup_cons_eq_ite]
    by_cases h : key = k <;> simp [h]

/-- **Of equal keys the last one counts.** -/
theorem find?_ofList (l : List (String × α)) (key : String) :
    (ofList l).find? key = l.reverse.lookup key := by
  simp [ofList, find?_foldl_insert]

theorem find?_ofList_cons (k : String) (value : α) (l : List (String × α)) (key : String) :
    (ofList ((k, value) :: l)).find? key =
      ((ofList l).find? key).or (if key = k then some value else none) := by
  rw [find?_ofList, find?_ofList, List.reverse_cons, List.lookup_append, lookup_cons_eq_ite]
  rfl

theorem find?_ofList_eq_none {l : List (String × α)} {key : String} (h : key ∉ l.map Prod.fst) :
    (ofList l).find? key = none := by
  rw [find?_ofList]
  refine lookup_eq_none_of_not_mem ?_
  rwa [List.map_reverse, List.mem_reverse]

theorem find?_ofList_of_nodup {l : List (String × α)} (h : (l.map Prod.fst).Nodup)
    (key : String) : (ofList l).find? key = l.lookup key := by
  rw [find?_ofList, lookup_reverse_of_nodup h]

@[simp] theorem ofList_entries (t : Table α) : ofList t.entries = t :=
  ext_find? fun key => find?_ofList_of_nodup t.nodup_keys key

theorem lookup_map_snd (f : α → β) (l : List (String × α)) (key : String) :
    (l.map fun e => (e.1, f e.2)).lookup key = (l.lookup key).map f := by
  induction l with
  | nil => rfl
  | cons head rest ih =>
    obtain ⟨k, v⟩ := head
    rw [List.map_cons, lookup_cons_eq_ite, lookup_cons_eq_ite, ih]
    by_cases h : key = k <;> simp [h]

theorem map_ofList (f : α → β) (l : List (String × α)) :
    (ofList l).map f = ofList (l.map fun e => (e.1, f e.2)) := by
  refine ext_find? fun key => ?_
  rw [find?_map, find?_ofList, find?_ofList, ← List.map_reverse, lookup_map_snd]

theorem entries_ofList {l : List (String × α)} (h : l.Pairwise (fun a b => a.1 < b.1)) :
    (ofList l).entries = l :=
  congrArg entries (ofList_entries ⟨l, h⟩)

/-! ## 3. Writing more than once -/

theorem insert_insert_self (t : Table α) (key : String) (v w : α) :
    (t.insert key v).insert key w = t.insert key w := by
  refine ext_find? fun k => ?_
  simp only [find?_insert]
  by_cases h : k = key <;> simp [h]

theorem insert_comm (t : Table α) {key key' : String} (h : key ≠ key') (v w : α) :
    (t.insert key v).insert key' w = (t.insert key' w).insert key v := by
  refine ext_find? fun k => ?_
  simp only [find?_insert]
  by_cases hk : k = key
  · rw [if_neg (hk ▸ h), if_pos hk, if_pos hk]
  · rw [if_neg hk, if_neg hk]

theorem erase_eq_self {t : Table α} {key : String} (h : t.find? key = none) : t.erase key = t := by
  refine ext_find? fun k => ?_
  rw [find?_erase]
  split
  next hk => rw [hk, h]
  next => rfl

theorem insert_erase {t : Table α} {key : String} {value : α} (h : t.find? key = some value) :
    (t.erase key).insert key value = t := by
  refine ext_find? fun k => ?_
  rw [find?_insert, find?_erase]
  by_cases hk : k = key <;> simp [hk, h]

theorem insert_eq_self {t : Table α} {key : String} {value : α} (h : t.find? key = some value) :
    t.insert key value = t := by
  rw [← insert_erase h, insert_insert_self]

theorem insert_eq_self_iff {t : Table α} {key : String} {value : α} :
    t.insert key value = t ↔ t.find? key = some value := by
  refine ⟨fun h => ?_, insert_eq_self⟩
  rw [← h, find?_insert_self]

theorem erase_eq_self_iff {t : Table α} {key : String} :
    t.erase key = t ↔ t.find? key = none := by
  refine ⟨fun h => ?_, erase_eq_self⟩
  rw [← h, find?_erase, if_pos rfl]

theorem erase_overlay (s t : Table α) (key : String) :
    (s.overlay t).erase key = (s.erase key).overlay (t.erase key) := by
  refine ext_find? fun k => ?_
  simp only [find?_erase, find?_overlay]
  by_cases hk : k = key <;> simp [hk]

theorem overlay_self (t : Table α) : t.overlay t = t := by
  refine ext_find? fun k => ?_
  rw [find?_overlay]
  cases t.find? k <;> rfl

theorem overlay_comm {s t : Table α} (h : ∀ key, s.contains key = true → t.contains key = false) :
    s.overlay t = t.overlay s := by
  refine ext_find? fun k => ?_
  rw [find?_overlay, find?_overlay]
  cases hs : s.find? k with
  | none => cases t.find? k <;> rfl
  | some value =>
    have ht := h k (by rw [contains, hs]; rfl)
    rw [contains, Option.isSome_eq_false_iff, Option.isNone_iff_eq_none] at ht
    rw [ht]
    rfl

end Table

end StreamBoard

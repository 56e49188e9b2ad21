/-!
# Table — values under string keys, in ascending key order

A `Table` is the one map type of this library: the maps of a board, the members of a fragment and
the undeclared members of an entity are tables.  The entries are a list, and the type carries the
proof that their keys ascend strictly, so a table is determined by its look-ups (`ext_find?`).
Strings compare by code point, which is the order of their UTF-8 bytes.
-/

namespace StreamBoard

/-- A map from strings, as the list of its entries in strictly ascending key order. -/
structure Table (α : Type) where
  entries : List (String × α)
  ascending : entries.Pairwise (fun a b => a.1 < b.1)
deriving DecidableEq

namespace Table

variable {α β : Type}

/-! ## 1. Entry lists -/

/-- Puts a value under a key: before the first greater key, or in place of an equal one. -/
def put (key : String) (value : α) : List (String × α) → List (String × α)
  | [] => [(key, value)]
  | (k, v) :: rest =>
    if key < k then (key, value) :: (k, v) :: rest
    else if key = k then (key, value) :: rest
    else (k, v) :: put key value rest

theorem mem_put {key : String} {value : α} {l : List (String × α)} {e : String × α}
    (h : e ∈ put key value l) : e = (key, value) ∨ e ∈ l := by
  induction l with
  | nil => exact .inl (List.mem_singleton.mp h)
  | cons head rest ih =>
    obtain ⟨k, v⟩ := head
    simp only [put] at h
    split at h
    · simpa using h
    · split at h
      · rcases List.mem_cons.mp h with h | h
        · exact .inl h
        · exact .inr (List.mem_cons_of_mem _ h)
      · rcases List.mem_cons.mp h with h | h
        · exact .inr (h ▸ List.mem_cons_self)
        · exact (ih h).imp_right (List.mem_cons_of_mem _)

theorem lt_of_not_lt_of_ne {a b : String} (h : ¬ a < b) (hne : a ≠ b) : b < a :=
  Classical.byContradiction fun h' =>
    hne (String.le_antisymm (String.not_lt.mp h') (String.not_lt.mp h))

theorem pairwise_put (key : String) (value : α) {l : List (String × α)}
    (h : l.Pairwise (fun a b => a.1 < b.1)) :
    (put key value l).Pairwise (fun a b => a.1 < b.1) := by
  induction l with
  | nil => simp [put]
  | cons head rest ih =>
    obtain ⟨k, v⟩ := head
    obtain ⟨hk, hrest⟩ := List.pairwise_cons.mp h
    simp only [put]
    split
    next hlt =>
      refine List.pairwise_cons.mpr ⟨fun e he => ?_, h⟩
      rcases List.mem_cons.mp he with rfl | he
      · exact hlt
      · exact String.lt_trans hlt (hk e he)
    next hlt =>
      split
      next heq => exact List.pairwise_cons.mpr ⟨fun e he => heq ▸ hk e he, hrest⟩
      next hne =>
        refine List.pairwise_cons.mpr ⟨fun e he => ?_, ih hrest⟩
        rcases mem_put he with rfl | he
        · exact lt_of_not_lt_of_ne hlt hne
        · exact hk e he

theorem lookup_cons_eq_ite (k key : String) (value : α) (rest : List (String × α)) :
    ((key, value) :: rest).lookup k = if k = key then some value else rest.lookup k := by
  by_cases h : k = key
  · simp [h]
  · simp [List.lookup_cons, h, beq_eq_false_iff_ne.mpr h]

theorem lookup_put (key k : String) (value : α) (l : List (String × α)) :
    (put key value l).lookup k = if k = key then some value else l.lookup k := by
  induction l with
  | nil => rw [put, lookup_cons_eq_ite]
  | cons head rest ih =>
    obtain ⟨k', v⟩ := head
    simp only [put]
    split
    · rw [lookup_cons_eq_ite]
    · split
      next heq =>
        subst heq
        simp only [lookup_cons_eq_ite]
        by_cases h : k = key <;> simp [h]
      next hne =>
        simp only [lookup_cons_eq_ite, ih]
        by_cases h : k = k'
        · subst h
          simp [Ne.symm hne]
        · simp [h]

theorem lookup_eq_none_of_forall_lt {k : String} {l : List (String × α)}
    (h : ∀ e ∈ l, k < e.1) : l.lookup k = none := by
  induction l with
  | nil => rfl
  | cons head rest ih =>
    obtain ⟨k', v⟩ := head
    have hne : k ≠ k' := by
      rintro rfl
      exact String.lt_irrefl _ (h (k, v) List.mem_cons_self)
    rw [lookup_cons_eq_ite, if_neg hne]
    exact ih fun e he => h e (List.mem_cons_of_mem _ he)

/-! ## 2. Tables -/

def empty : Table α := ⟨[], List.Pairwise.nil⟩

instance : Inhabited (Table α) := ⟨empty⟩

def isEmpty (t : Table α) : Bool := t.entries.isEmpty

def size (t : Table α) : Nat := t.entries.length

def keys (t : Table α) : List String := t.entries.map Prod.fst

def values (t : Table α) : List α := t.entries.map Prod.snd

def find? (t : Table α) (key : String) : Option α := t.entries.lookup key

def contains (t : Table α) (key : String) : Bool := (t.find? key).isSome

/-- Puts a value under a key, in place of the value that is there. -/
def insert (t : Table α) (key : String) (value : α) : Table α :=
  ⟨put key value t.entries, pairwise_put key value t.ascending⟩

def erase (t : Table α) (key : String) : Table α :=
  ⟨t.entries.filter (fun e => e.1 != key), t.ascending.filter _⟩

/-- The table of a list of entries; of equal keys the last one counts. -/
def ofList (l : List (String × α)) : Table α :=
  l.foldl (fun t e => t.insert e.1 e.2) empty

/-- Keeps the entries whose value has an image, and maps them. -/
def filterMap (f : α → Option β) (t : Table α) : Table β :=
  ⟨t.entries.filterMap (fun e => (f e.2).map (e.1, ·)), by
    refine List.Pairwise.filterMap _ ?_ t.ascending
    intro a b h a' ha b' hb
    obtain ⟨_, _, rfl⟩ := Option.map_eq_some_iff.mp ha
    obtain ⟨_, _, rfl⟩ := Option.map_eq_some_iff.mp hb
    exact h⟩

def map (f : α → β) (t : Table α) : Table β :=
  ⟨t.entries.map (fun e => (e.1, f e.2)), List.pairwise_map.mpr t.ascending⟩

/-- Lays the entries of `upper` over those of `lower`. -/
def overlay (lower upper : Table α) : Table α :=
  upper.entries.foldl (fun t e => t.insert e.1 e.2) lower

/-! ## 3. Look-ups after each operation -/

@[simp] theorem find?_empty (k : String) : (empty : Table α).find? k = none := rfl

theorem find?_insert (t : Table α) (key k : String) (value : α) :
    (t.insert key value).find? k = if k = key then some value else t.find? k :=
  lookup_put key k value t.entries

@[simp] theorem find?_insert_self (t : Table α) (key : String) (value : α) :
    (t.insert key value).find? key = some value := by
  simp [find?_insert]

theorem find?_insert_of_ne (t : Table α) {key k : String} (value : α) (h : k ≠ key) :
    (t.insert key value).find? k = t.find? k := by
  simp [find?_insert, h]

theorem find?_erase (t : Table α) (key k : String) :
    (t.erase key).find? k = if k = key then none else t.find? k := by
  obtain ⟨l, hl⟩ := t
  simp only [erase, find?]
  clear hl
  induction l with
  | nil => simp
  | cons head rest ih =>
    obtain ⟨k', v⟩ := head
    by_cases hk' : k' = key
    · subst hk'
      simp only [List.filter_cons, bne_self_eq_false, Bool.false_eq_true, ↓reduceIte, ih,
        lookup_cons_eq_ite]
      by_cases h : k = k' <;> simp [h]
    · simp only [List.filter_cons, bne_iff_ne, ne_eq, hk', not_false_eq_true, ↓reduceIte,
        lookup_cons_eq_ite, ih]
      by_cases h : k = k'
      · subst h
        simp [hk']
      · simp [h]

theorem find?_map (f : α → β) (t : Table α) (k : String) :
    (t.map f).find? k = (t.find? k).map f := by
  obtain ⟨l, hl⟩ := t
  simp only [map, find?]
  clear hl
  induction l with
  | nil => rfl
  | cons head rest ih =>
    obtain ⟨k', v⟩ := head
    simp only [List.map_cons, lookup_cons_eq_ite, ih]
    by_cases h : k = k' <;> simp [h]

theorem find?_filterMap (f : α → Option β) (t : Table α) (k : String) :
    (t.filterMap f).find? k = (t.find? k).bind f := by
  obtain ⟨l, hl⟩ := t
  simp only [filterMap, find?]
  induction l with
  | nil => rfl
  | cons head rest ih =>
    obtain ⟨k', v⟩ := head
    obtain ⟨hk, hrest⟩ := List.pairwise_cons.mp hl
    have ih := ih hrest
    have hnone : k = k' → rest.lookup k = none := fun h =>
      lookup_eq_none_of_forall_lt (h ▸ hk)
    cases hf : f v with
    | none =>
      simp only [List.filterMap_cons, hf, Option.map_none, lookup_cons_eq_ite, ih]
      by_cases h : k = k'
      · simp [h, hf, h ▸ hnone h]
      · simp [h]
    | some w =>
      simp only [List.filterMap_cons, hf, Option.map_some, lookup_cons_eq_ite, ih]
      by_cases h : k = k' <;> simp [h, hf]

theorem find?_overlay (lower upper : Table α) (k : String) :
    (overlay lower upper).find? k = (upper.find? k).or (lower.find? k) := by
  obtain ⟨l, hl⟩ := upper
  simp only [overlay, find?]
  induction l generalizing lower with
  | nil => simp
  | cons head rest ih =>
    obtain ⟨k', v⟩ := head
    obtain ⟨hk, hrest⟩ := List.pairwise_cons.mp hl
    rw [List.foldl_cons, ih _ hrest, show (lower.insert k' v).entries.lookup k = _ from
      lookup_put k' k v lower.entries, lookup_cons_eq_ite]
    by_cases h : k = k'
    · subst h
      simp [lookup_eq_none_of_forall_lt hk]
    · simp [h]

/-- **A table is its look-ups.** -/
theorem ext_find? {s t : Table α} (h : ∀ k, s.find? k = t.find? k) : s = t := by
  obtain ⟨l, hl⟩ := s
  obtain ⟨m, hm⟩ := t
  simp only [find?] at h
  congr
  induction l generalizing m with
  | nil =>
    cases m with
    | nil => rfl
    | cons head rest =>
      have := h head.1
      rw [lookup_cons_eq_ite head.1 head.1 head.2 rest] at this
      simp at this
  | cons head rest ih =>
    obtain ⟨k, v⟩ := head
    obtain ⟨hk, hrest⟩ := List.pairwise_cons.mp hl
    cases m with
    | nil =>
      have := h k
      rw [lookup_cons_eq_ite] at this
      simp at this
    | cons head' rest' =>
      obtain ⟨k', v'⟩ := head'
      obtain ⟨hk', hrest'⟩ := List.pairwise_cons.mp hm
      have hkk : k = k' := by
        apply Classical.byContradiction
        intro hne
        by_cases hlt : k < k'
        · have := h k
          rw [lookup_cons_eq_ite, lookup_cons_eq_ite, if_pos rfl, if_neg hne,
            lookup_eq_none_of_forall_lt fun e he => String.lt_trans hlt (hk' e he)] at this
          simp at this
        · have := h k'
          have hgt : k' < k := lt_of_not_lt_of_ne hlt hne
          rw [lookup_cons_eq_ite, lookup_cons_eq_ite, if_pos rfl, if_neg (Ne.symm hne),
            lookup_eq_none_of_forall_lt fun e he => String.lt_trans hgt (hk e he)] at this
          simp at this
      subst hkk
      have hv := h k
      rw [lookup_cons_eq_ite, lookup_cons_eq_ite, if_pos rfl, if_pos rfl] at hv
      cases hv
      congr 1
      refine ih hrest rest' hrest' fun j => ?_
      by_cases hj : j = k
      · subst hj
        rw [lookup_eq_none_of_forall_lt hk, lookup_eq_none_of_forall_lt hk']
      · have := h j
        rwa [lookup_cons_eq_ite, lookup_cons_eq_ite, if_neg hj, if_neg hj] at this

end Table

end StreamBoard

import StreamBoard.Entity.Schema
import StreamBoard.Proofs.Json.Ordering

/-!
# Reading — what a schema reads from an object

An object that repeats no declared name (`Schema.Single`) is read member by member, each declared
member by its own reader.  `readMembers_ok_iff` says when that succeeds.  What comes out is told
apart by looking at it: a part of the entity that one field writes (`Schema.Sees`) is what that
member reads as, and the table of undeclared members (`Schema.Collects`) holds exactly those, of
equal names the last.  Neither depends on the order of the members.
-/

namespace StreamBoard

open Json

variable {α β : Type}

/-! ## 1. One member -/

/-- What an undeclared member does to an entity. -/
def Undeclared.apply : Undeclared α → String → Json → α → α
  | .keep add => add
  | .passOver => fun _ _ entity => entity

mutual

theorem skipFault_ofValue : (v : Json) → (Outline.ofValue v).skipFault = none
  | .null | .bool _ | .number _ | .string _ => rfl
  | .array items => skipFault_ofValues items
  | .object members => skipFault_ofMembers members

theorem skipFault_ofValues : (l : List Json) → (Items.ofValues l).skipFault = none
  | [] => rfl
  | v :: rest => by
    rw [Items.ofValues, Items.skipFault, skipFault_ofValue v, skipFault_ofValues rest]
    rfl

theorem skipFault_ofMembers : (l : List (String × Json)) → (Members.ofValues l).skipFault = none
  | [] => rfl
  | (k, v) :: rest => by
    rw [Members.ofValues, Members.skipFault, skipFault_ofValue v, skipFault_ofMembers rest]
    rfl

end

namespace Schema

variable {σ : Schema α} {seen : List String} {entity e : α} {k : String} {v : Json}
  {rest : List (String × Json)}

theorem readMembers_nil_ok_iff :
    σ.readMembers seen entity (Members.ofValues []) = .ok e ↔
      entity = e ∧ ∀ name ∈ σ.required, name ∈ seen := by
  simp only [Members.ofValues, readMembers, Finish.membersFault]
  cases hfind : σ.required.find? fun name => !seen.contains name with
  | none =>
    have hall : ∀ name ∈ σ.required, name ∈ seen := by simpa using hfind
    exact ⟨fun h => ⟨Except.ok.inj h, hall⟩, fun h => congrArg Except.ok h.1⟩
  | some name =>
    have hname := List.find?_some hfind
    have hmem := List.mem_of_find?_eq_some hfind
    simp only [Bool.not_eq_true', List.contains_eq_mem, decide_eq_false_iff_not] at hname
    simp only [reduceCtorEq, false_iff, not_and]
    exact fun _ h => hname (h name hmem)

theorem readMembers_member_of_declared {key : Lexeme String} {o : Outline} {more : Members}
    {f : Field α} (hkey : key.value = .ok k) (hf : σ.field? k = some f) :
    σ.readMembers seen entity (.member key o more) = .ok e ↔
      k ∉ seen ∧ ∃ u, f.read o = .ok u ∧ σ.readMembers (k :: seen) (u entity) more = .ok e := by
  simp only [readMembers, hkey, hf]
  by_cases hk : k ∈ seen
  · simp [hk]
  · cases f.read o <;> simp [hk]

theorem readMembers_cons_of_declared {f : Field α} (hf : σ.field? k = some f) :
    σ.readMembers seen entity (Members.ofValues ((k, v) :: rest)) = .ok e ↔
      k ∉ seen ∧ ∃ u, f.read (Outline.ofValue v) = .ok u ∧
        σ.readMembers (k :: seen) (u entity) (Members.ofValues rest) = .ok e :=
  readMembers_member_of_declared rfl hf

theorem readMembers_member_of_kept {key : Lexeme String} {o : Outline} {more : Members}
    {add : String → Json → α → α} (hkey : key.value = .ok k) (hf : σ.field? k = none)
    (hadd : σ.undeclared = .keep add) :
    σ.readMembers seen entity (.member key o more) = .ok e ↔
      ∃ v, o.value = .ok v ∧ σ.readMembers seen (add k v entity) more = .ok e := by
  simp only [readMembers, hkey, hf, hadd]
  cases o.value <;> simp

theorem readMembers_cons_of_undeclared (hf : σ.field? k = none) :
    σ.readMembers seen entity (Members.ofValues ((k, v) :: rest)) =
      σ.readMembers seen (σ.undeclared.apply k v.ordered entity) (Members.ofValues rest) := by
  simp only [Members.ofValues, readMembers, hf]
  cases σ.undeclared with
  | keep add => simp [value_ofValue, Undeclared.apply]
  | passOver => simp [skipFault_ofValue, Undeclared.apply]

theorem mem_of_field? {f : Field α} (h : σ.field? k = some f) : f ∈ σ.fields ∧ f.name = k :=
  ⟨List.mem_of_find?_eq_some h, by simpa using List.find?_some h⟩

/-! ## 2. Success -/

/-- No declared name occurs twice. -/
def Single (σ : Schema α) (names : List String) : Prop :=
  (names.filter fun name => (σ.field? name).isSome).Nodup

instance (σ : Schema α) (names : List String) : Decidable (σ.Single names) :=
  inferInstanceAs (Decidable (List.Nodup _))

theorem single_of_nodup {names : List String} (h : names.Nodup) : σ.Single names := h.filter _

theorem single_cons_of_declared {name : String} {names : List String}
    (hname : (σ.field? name).isSome) :
    σ.Single (name :: names) ↔ name ∉ names ∧ σ.Single names := by
  simp [Single, hname]

theorem single_cons_of_undeclared {name : String} {names : List String}
    (hname : σ.field? name = none) : σ.Single (name :: names) ↔ σ.Single names := by
  simp [Single, hname]

/-- Every declared member of an object reads, and the required ones are there. -/
structure Readable (σ : Schema α) (seen : List String) (t : Table Json) : Prop where
  reads : ∀ name f v, σ.field? name = some f → t.find? name = some v →
    ∃ u, f.read (Outline.ofValue v) = .ok u
  complete : ∀ name ∈ σ.required, name ∈ seen ∨ t.contains name = true

theorem Readable.of_find?_eq (hreq : ∀ name ∈ σ.required, (σ.field? name).isSome)
    {s t : Table Json} (hs : σ.Readable seen s)
    (h : ∀ name, (σ.field? name).isSome → t.find? name = s.find? name) : σ.Readable seen t := by
  refine ⟨fun name f v hf hv => ?_, fun name hname => ?_⟩
  · rw [h name (by rw [hf]; rfl)] at hv
    exact hs.reads name f v hf hv
  · rw [Table.contains, h name (hreq name hname)]
    exact hs.complete name hname

theorem readable_cons_of_undeclared (hreq : ∀ name ∈ σ.required, (σ.field? name).isSome)
    (hf : σ.field? k = none) :
    σ.Readable seen (.ofList ((k, v) :: rest)) ↔ σ.Readable seen (.ofList rest) := by
  have hfind : ∀ name, (σ.field? name).isSome →
      (Table.ofList ((k, v) :: rest)).find? name = (Table.ofList rest).find? name := by
    intro name hname
    have hne : name ≠ k := by
      rintro rfl
      simp [hf] at hname
    rw [Table.find?_ofList_cons, if_neg hne, Option.or_none]
  constructor
  · exact fun h => h.of_find?_eq hreq fun name hname => (hfind name hname).symm
  · exact fun h => h.of_find?_eq hreq hfind

theorem readable_cons_of_declared {f : Field α} (hf : σ.field? k = some f)
    (hk : k ∉ rest.map Prod.fst) :
    σ.Readable seen (.ofList ((k, v) :: rest)) ↔
      (∃ u, f.read (Outline.ofValue v) = .ok u) ∧ σ.Readable (k :: seen) (.ofList rest) := by
  -- No member behind has the name, so the first one is what the table holds under it.
  have hfirst : (Table.ofList ((k, v) :: rest)).find? k = some v := by
    rw [Table.find?_ofList_cons, Table.find?_ofList_eq_none hk, if_pos rfl, Option.none_or]
  have hothers : ∀ name, name ≠ k →
      (Table.ofList ((k, v) :: rest)).find? name = (Table.ofList rest).find? name := by
    intro name hne
    rw [Table.find?_ofList_cons, if_neg hne, Option.or_none]
  constructor
  · intro h
    refine ⟨h.reads k f v hf hfirst, fun name g w hg hw => ?_, fun name hname => ?_⟩
    · have hne : name ≠ k := by
        rintro rfl
        rw [Table.find?_ofList_eq_none hk] at hw
        cases hw
      exact h.reads name g w hg ((hothers name hne).trans hw)
    · by_cases hne : name = k
      · exact .inl (hne ▸ List.mem_cons_self)
      · have hcomplete := h.complete name hname
        rw [Table.contains, hothers name hne] at hcomplete
        exact hcomplete.imp_left (List.mem_cons_of_mem _)
  · rintro ⟨hu, h⟩
    refine ⟨fun name g w hg hw => ?_, fun name hname => ?_⟩
    · by_cases hne : name = k
      · subst hne
        cases hf.symm.trans hg
        cases hfirst.symm.trans hw
        exact hu
      · exact h.reads name g w hg ((hothers name hne).symm.trans hw)
    · by_cases hne : name = k
      · subst hne
        exact .inr (congrArg Option.isSome hfirst)
      · rw [Table.contains, hothers name hne]
        exact (h.complete name hname).imp_left fun hmem =>
          (List.mem_cons.mp hmem).resolve_left hne

/-- **An object reads if its declared members do and the required ones are there.** -/
theorem readMembers_ok_iff (hreq : ∀ name ∈ σ.required, (σ.field? name).isSome)
    {l : List (String × Json)} (hsingle : σ.Single (l.map Prod.fst))
    (hseen : ∀ m ∈ l, m.1 ∉ seen) :
    (∃ e, σ.readMembers seen entity (Members.ofValues l) = .ok e) ↔
      σ.Readable seen (.ofList l) := by
  induction l generalizing seen entity with
  | nil =>
    simp only [readMembers_nil_ok_iff, exists_and_right, exists_eq', true_and]
    constructor
    · exact fun h => ⟨nofun, fun name hname => .inl (h name hname)⟩
    · exact fun h name hname => (h.complete name hname).resolve_right nofun
  | cons m rest ih =>
    obtain ⟨k, v⟩ := m
    cases hf : σ.field? k with
    | none =>
      have hsingle := (single_cons_of_undeclared hf).mp hsingle
      rw [readMembers_cons_of_undeclared hf, readable_cons_of_undeclared hreq hf]
      exact ih hsingle fun m hm => hseen m (List.mem_cons_of_mem _ hm)
    | some f =>
      have hdeclared : (σ.field? k).isSome := by rw [hf]; rfl
      obtain ⟨hk, hsingle⟩ := (single_cons_of_declared hdeclared).mp hsingle
      have hrest : ∀ m ∈ rest, m.1 ∉ k :: seen := by
        intro m hm hmem
        rcases List.mem_cons.mp hmem with h | h
        · exact hk (List.mem_map.mpr ⟨m, hm, h⟩)
        · exact hseen m (List.mem_cons_of_mem _ hm) h
      simp only [readMembers_cons_of_declared hf, readable_cons_of_declared hf hk]
      constructor
      · rintro ⟨e, -, u, hu, he⟩
        exact ⟨⟨u, hu⟩, (ih hsingle hrest).mp ⟨e, he⟩⟩
      · rintro ⟨⟨u, hu⟩, h⟩
        obtain ⟨e, he⟩ := (ih hsingle hrest).mpr h
        exact ⟨e, hseen (k, v) List.mem_cons_self, u, hu, he⟩

/-! ## 3. Parts of what is read -/

/-- `get` sees what the field with this name writes, as `r` reads it, and nothing else. -/
structure Sees (σ : Schema α) (name : String) (r : Reader β) (get : α → β) : Prop where
  declared : ∀ f ∈ σ.fields, ∀ o u, f.read o = .ok u →
    (f.name = name → ∀ e, r o = .ok (get (u e))) ∧ (f.name ≠ name → ∀ e, get (u e) = get e)
  undeclared : ∀ k v e, get (σ.undeclared.apply k v e) = get e

/-- `get` is the table of the undeclared members. -/
structure Collects (σ : Schema α) (get : α → Table Json) : Prop where
  declared : ∀ f ∈ σ.fields, ∀ o u e, f.read o = .ok u → get (u e) = get e
  undeclared : ∀ k v e, get (σ.undeclared.apply k v e) = (get e).insert k v

/-- What a member reads as, where there is one, and a default where there is none. -/
def ReadsAs (r : Reader β) (default : β) : Option Json → β → Prop
  | some v, b => readValue r v = .ok b
  | none, b => b = default

theorem ReadsAs.unique {r : Reader β} {default b c : β} {member : Option Json}
    (hb : ReadsAs r default member b) (hc : ReadsAs r default member c) : b = c := by
  cases member with
  | none => exact Eq.trans hb (Eq.symm hc)
  | some v => exact Except.ok.inj (Eq.trans (Eq.symm hb) hc)

theorem ReadsAs.field_reads {name : String} {r : Reader β} {set : β → α → α} {default b : β}
    {member : Option Json} (h : ReadsAs r default member b) (hv : member = some v) :
    ∃ u, (Field.of name r set).read (Outline.ofValue v) = .ok u := by
  subst hv
  exact ⟨set b, map_eq_ok_iff.mpr ⟨b, h, rfl⟩⟩

/-- **A part of the entity is what its member reads as,** or what it was before. -/
theorem Sees.readsAs_of_ok {name : String} {r : Reader β} {get : α → β} (hs : σ.Sees name r get)
    (hname : (σ.field? name).isSome) {l : List (String × Json)}
    (hsingle : σ.Single (l.map Prod.fst))
    (h : σ.readMembers seen entity (Members.ofValues l) = .ok e) :
    ReadsAs r (get entity) ((Table.ofList l).find? name) (get e) := by
  induction l generalizing seen entity with
  | nil =>
    obtain ⟨rfl, -⟩ := readMembers_nil_ok_iff.mp h
    rfl
  | cons m rest ih =>
    obtain ⟨k, v⟩ := m
    rw [Table.find?_ofList_cons]
    cases hf : σ.field? k with
    | none =>
      have hne : name ≠ k := by
        rintro rfl
        simp [hf] at hname
      rw [readMembers_cons_of_undeclared hf] at h
      have hget := ih ((single_cons_of_undeclared hf).mp hsingle) h
      rw [hs.undeclared] at hget
      rwa [if_neg hne, Option.or_none]
    | some f =>
      have hdeclared : (σ.field? k).isSome := by rw [hf]; rfl
      obtain ⟨hk, hsingle⟩ := (single_cons_of_declared hdeclared).mp hsingle
      obtain ⟨-, u, hu, h⟩ := (readMembers_cons_of_declared hf).mp h
      obtain ⟨hmem, hfk⟩ := mem_of_field? hf
      obtain ⟨heq, hne⟩ := hs.declared f hmem _ u hu
      have hget := ih hsingle h
      by_cases hkn : name = k
      · subst hkn
        -- No later member has the name, so what this one wrote is still there.
        rw [Table.find?_ofList_eq_none hk] at hget ⊢
        rw [if_pos rfl, hget]
        exact heq hfk entity
      · rw [if_neg hkn, Option.or_none]
        simpa only [hne (hfk ▸ Ne.symm hkn)] using hget

/-- **The undeclared members are kept, and no others.** -/
theorem Collects.find?_of_ok {get : α → Table Json} (hc : σ.Collects get)
    {l : List (String × Json)} (h : σ.readMembers seen entity (Members.ofValues l) = .ok e)
    (key : String) :
    (get e).find? key =
      if σ.field? key = none then
        (((Table.ofList l).find? key).map Json.ordered).or ((get entity).find? key)
      else (get entity).find? key := by
  induction l generalizing seen entity with
  | nil =>
    obtain ⟨rfl, -⟩ := readMembers_nil_ok_iff.mp h
    simp [Table.ofList]
  | cons m rest ih =>
    obtain ⟨k, v⟩ := m
    rw [Table.find?_ofList_cons]
    cases hf : σ.field? k with
    | none =>
      rw [readMembers_cons_of_undeclared hf] at h
      rw [ih h, hc.undeclared, Table.find?_insert]
      by_cases hkey : key = k
      · subst hkey
        cases (Table.ofList rest).find? key <;> simp [hf]
      · simp [hkey]
    | some f =>
      obtain ⟨-, u, hu, h⟩ := (readMembers_cons_of_declared hf).mp h
      rw [ih h, hc.declared f (mem_of_field? hf).1 _ u entity hu]
      by_cases hkey : key = k
      · simp [hkey, hf]
      · simp [hkey]

/-! ## 4. Undeclared members -/

/-- What may stand for undeclared members: no name is declared, and all objects are sorted. -/
structure Admits (σ : Schema α) (extra : Table Json) : Prop where
  undeclared : ∀ key, (σ.field? key).isSome → extra.find? key = none
  ordered : ∀ key v, extra.find? key = some v → v.Ordered

theorem admits_empty : σ.Admits .empty :=
  ⟨fun _ _ => rfl, fun _ _ h => by simp at h⟩

theorem Admits.insert {extra : Table Json} (ha : σ.Admits extra) (hk : σ.field? k = none)
    (hv : v.Ordered) : σ.Admits (extra.insert k v) := by
  refine ⟨fun key hkey => ?_, fun key w hw => ?_⟩
  · have hne : key ≠ k := by
      rintro rfl
      simp [hk] at hkey
    rw [Table.find?_insert_of_ne _ _ hne]
    exact ha.undeclared key hkey
  · rw [Table.find?_insert] at hw
    split at hw
    · exact Option.some.inj hw ▸ hv
    · exact ha.ordered key w hw

/-- **What a schema collects from a text or a value, it admits.** -/
theorem Collects.admits_of_ok {get : α → Table Json} (hc : σ.Collects get) {members : Members}
    (ha : σ.Admits (get entity)) (h : σ.readMembers seen entity members = .ok e) :
    σ.Admits (get e) := by
  fun_induction σ.readMembers seen entity members with
  | case3 => cases h; exact ha
  | case7 seen entity key value rest name hkey f hf hseen u hu ih =>
    refine ih ?_ h
    rwa [hc.declared f (mem_of_field? hf).1 _ u entity hu]
  | case9 seen entity key value rest name hkey hf add hadd v hv ih =>
    refine ih ?_ h
    have happly := hc.undeclared name v entity
    rw [hadd] at happly
    exact happly ▸ ha.insert hf (ordered_of_value value v hv)
  | case11 seen entity key value rest name hkey hf hpass hskip ih => exact ih ha h
  | _ => cases h

end Schema

end StreamBoard

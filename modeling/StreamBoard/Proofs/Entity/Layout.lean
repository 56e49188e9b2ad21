import StreamBoard.Proofs.Entity.Reading

/-!
# Layout — an entity as its parts

An entity is the values of a few parts, each held by a declared member of its own, and the table of
its undeclared members.  A `Layout` says how a schema and a document agree on that.  From it follows
what holds of all entities alike: what is read does not depend on the order of the members
(`readMembers_congr`), and an entity comes back from its document as it was (`readValue_document`),
as long as no undeclared member bears a declared name; all entities that were read have that
property (`admits_of_read`).
-/

namespace StreamBoard

open Json

variable {α : Type}

/-! ## 1. Parts -/

/-- The members that a value is written as: one or none. -/
def membersOf (name : String) (v : Option Json) : List (String × Json) := v.toList.map (name, ·)

theorem membersOf_some (name : String) (v : Json) : membersOf name (some v) = [(name, v)] := rfl

theorem lookup_membersOf (name : String) (v : Option Json) (key : String) :
    (membersOf name v).lookup key = if key = name then v else none := by
  cases v with
  | none => simp [membersOf]
  | some v => simp [membersOf, Table.lookup_cons_eq_ite]

theorem member?_eq_membersOf (name : String) (write : α → Json) (value : Option α) :
    member? name write value = membersOf name (value.map write) := by
  cases value <;> rfl

theorem textMember?_eq_membersOf (name s : String) :
    textMember? name s = membersOf name (if s.isEmpty then none else some (.string s)) := by
  unfold textMember?
  split <;> rfl

/-- A part of an entity: the member that holds it, and how it is read, changed and written. -/
structure Part (α : Type) where
  name : String
  Value : Type
  read : Reader Value
  get : α → Value
  set : Value → α → α
  /-- The value of the member; nothing, where the member is left out. -/
  write? : Value → Option Json

namespace Part

def field (p : Part α) : Field α := .of p.name p.read p.set

/-- What the member of an entity's part is written as, if it is. -/
def member? (p : Part α) (e : α) : Option Json := p.write? (p.get e)

/-- The members that the parts of an entity are written as. -/
def written (parts : List (Part α)) (e : α) : List (String × Json) :=
  parts.flatMap fun p => membersOf p.name (p.member? e)

theorem keys_written (parts : List (Part α)) (e : α) :
    ((written parts e).map Prod.fst).Sublist (parts.map Part.name) := by
  induction parts with
  | nil => exact .slnil
  | cons p rest ih =>
    rw [written, List.flatMap_cons]
    cases p.member? e with
    | none => exact ih.cons p.name
    | some v => exact ih.cons_cons p.name

theorem lookup_written {parts : List (Part α)} (hnames : (parts.map Part.name).Nodup)
    {p : Part α} (hp : p ∈ parts) (e : α) : (written parts e).lookup p.name = p.member? e := by
  induction parts with
  | nil => cases hp
  | cons q rest ih =>
    obtain ⟨hq, hrest⟩ := List.nodup_cons.mp hnames
    rw [written, List.flatMap_cons, List.lookup_append, lookup_membersOf, ← written]
    rcases List.mem_cons.mp hp with rfl | hp
    · -- No part behind has the name of the first one.
      have hlater : (written rest e).lookup p.name = none :=
        Table.lookup_eq_none_of_not_mem fun hmem => hq ((keys_written rest e).mem hmem)
      rw [if_pos rfl, hlater, Option.or_none]
    · have hne : p.name ≠ q.name := by
        intro heq
        exact hq (heq ▸ List.mem_map.mpr ⟨p, hp, rfl⟩)
      rw [if_neg hne, Option.none_or, ih hrest hp]

theorem find?_name {parts : List (Part α)} (hnames : (parts.map Part.name).Nodup)
    {p : Part α} (hp : p ∈ parts) : parts.find? (fun q => q.name == p.name) = some p := by
  induction parts with
  | nil => cases hp
  | cons q rest ih =>
    obtain ⟨hq, hrest⟩ := List.nodup_cons.mp hnames
    rw [List.find?_cons]
    rcases List.mem_cons.mp hp with rfl | hp
    · rw [beq_self_eq_true]
    · have hne : q.name ≠ p.name := by
        intro heq
        exact hq (heq ▸ List.mem_map.mpr ⟨p, hp, rfl⟩)
      rw [beq_eq_false_iff_ne.mpr hne]
      exact ih hrest hp

section Kinds

variable {β : Type} (name : String) (r : Reader β) (write : β → Json) (get : α → β)
  (set : β → α → α)

/-- A part that is always written. -/
def always : Part α := ⟨name, β, r, get, set, fun b => some (write b)⟩

/-- A part that is written where it is there. -/
def optional (get : α → Option β) (set : Option β → α → α) : Part α :=
  ⟨name, Option β, .option r, get, set, Option.map write⟩

/-- A text that is written where it is not empty. -/
def text (get : α → String) (set : String → α → α) : Part α :=
  ⟨name, String, .string, get, set, fun s => if s.isEmpty then none else some (.string s)⟩

end Kinds

end Part

/-! ## 2. What is written is read -/

/-- `r` reads what `write` writes, and that is never `null`. -/
structure Undoes {β : Type} (r : Reader β) (write : β → Json) : Prop where
  reads : ∀ b, readValue r (write b).ordered = .ok b
  not_null : ∀ b, (write b).ordered ≠ .null

theorem readValue_option {β : Type} {r : Reader β} {v : Json} (h : v ≠ .null) :
    readValue (.option r) v = (readValue r v).map some := by
  cases v with
  | null => exact absurd rfl h
  | _ => rfl

theorem readsAs_optional {β : Type} {r : Reader β} {write : β → Json} (h : Undoes r write)
    (b : Option β) : Schema.ReadsAs (.option r) none ((b.map write).map ordered) b := by
  cases b with
  | none => rfl
  | some b => exact (readValue_option (h.not_null b)).trans (congrArg (Except.map some) (h.reads b))

theorem readsAs_text (s : String) :
    Schema.ReadsAs .string "" ((if s.isEmpty then none else some (.string s)).map ordered) s := by
  by_cases hs : s = ""
  · subst hs
    rfl
  · rw [if_neg (by simpa using hs)]
    rfl

theorem undoes_string : Undoes .string .string := ⟨fun _ => rfl, fun _ => nofun⟩

theorem undoes_bool : Undoes .bool .bool := ⟨fun _ => rfl, fun _ => nofun⟩

/-! ## 3. Layouts -/

/-- How the entities of a schema are laid out: their parts, and how these are read and written. -/
structure Layout (σ : Schema α) (blank : α) (document : α → Json) where
  parts : List (Part α)
  extra : α → Table Json
  fields : σ.fields = parts.map Part.field
  names : (parts.map Part.name).Nodup
  get_set : ∀ p ∈ parts, ∀ b e, p.get (p.set b e) = b
  get_set_of_ne : ∀ p ∈ parts, ∀ q ∈ parts, q.name ≠ p.name → ∀ c e, p.get (q.set c e) = p.get e
  get_apply : ∀ p ∈ parts, ∀ k v e, p.get (σ.undeclared.apply k v e) = p.get e
  extra_set : ∀ p ∈ parts, ∀ b e, extra (p.set b e) = extra e
  extra_apply : ∀ k v e, extra (σ.undeclared.apply k v e) = (extra e).insert k v
  /-- There is nothing to an entity but its parts and its undeclared members. -/
  ext : ∀ e e', (∀ p ∈ parts, p.get e = p.get e') → extra e = extra e' → e = e'
  extra_blank : extra blank = .empty
  /-- A part that is left out is the one of the blank entity; any other is read as it was. -/
  readsAs : ∀ p ∈ parts, ∀ b, Schema.ReadsAs p.read (p.get blank) ((p.write? b).map ordered) b
  required : ∀ name ∈ σ.required, ∃ p ∈ parts, p.name = name ∧ ∀ b, (p.write? b).isSome
  document_eq : ∀ e, document e = .object (Part.written parts e ++ (extra e).entries)

namespace Layout

variable {σ : Schema α} {blank : α} {document : α → Json} (L : Layout σ blank document)
  {e : α} {p : Part α}

theorem eq_of_name {q : Part α} (hq : q ∈ L.parts) (hp : p ∈ L.parts) (h : q.name = p.name) :
    q = p := by
  have hfind := Part.find?_name L.names hq
  rw [h, Part.find?_name L.names hp] at hfind
  exact (Option.some.inj hfind).symm

theorem sees (hp : p ∈ L.parts) : σ.Sees p.name p.read p.get where
  declared := by
    intro f hf o u hu
    rw [L.fields] at hf
    obtain ⟨q, hq, rfl⟩ := List.mem_map.mp hf
    obtain ⟨c, hc, rfl⟩ := map_eq_ok_iff.mp hu
    refine ⟨fun hname e => ?_, fun hne e => L.get_set_of_ne p hp q hq hne c e⟩
    -- Names are different, so the field of this name is that of the part.
    obtain rfl := L.eq_of_name hq hp hname
    rw [L.get_set q hq]
    exact hc
  undeclared := L.get_apply p hp

theorem collects : σ.Collects L.extra where
  declared := by
    intro f hf o u e hu
    rw [L.fields] at hf
    obtain ⟨q, hq, rfl⟩ := List.mem_map.mp hf
    obtain ⟨c, -, rfl⟩ := map_eq_ok_iff.mp hu
    exact L.extra_set q hq c e
  undeclared := L.extra_apply

theorem field?_name (hp : p ∈ L.parts) : σ.field? p.name = some p.field := by
  rw [Schema.field?, L.fields, List.find?_map]
  exact congrArg (Option.map Part.field) (Part.find?_name L.names hp)

/-- A declared member holds a part. -/
theorem exists_part {name : String} {f : Field α} (hf : σ.field? name = some f) :
    ∃ p ∈ L.parts, p.name = name ∧ f = p.field := by
  obtain ⟨hmem, hname⟩ := Schema.mem_of_field? hf
  rw [L.fields] at hmem
  obtain ⟨p, hp, rfl⟩ := List.mem_map.mp hmem
  exact ⟨p, hp, hname, rfl⟩

theorem name_isSome (hp : p ∈ L.parts) : (σ.field? p.name).isSome := by
  rw [L.field?_name hp]
  rfl

include L in
theorem required_isSome : ∀ name ∈ σ.required, (σ.field? name).isSome := by
  intro name hname
  obtain ⟨p, hp, rfl, -⟩ := L.required name hname
  exact L.name_isSome hp

/-! ## 4. Order of members -/

include L in
/-- **What is read of an entity depends on the table of its members only.** -/
theorem readMembers_congr {l m : List (String × Json)} (hl : σ.Single (l.map Prod.fst))
    (hm : σ.Single (m.map Prod.fst)) (htable : Table.ofList l = Table.ofList m) :
    σ.readMembers [] blank (Members.ofValues l) = .ok e ↔
      σ.readMembers [] blank (Members.ofValues m) = .ok e := by
  have hread : (∃ e, σ.readMembers [] blank (Members.ofValues l) = .ok e) ↔
      ∃ e, σ.readMembers [] blank (Members.ofValues m) = .ok e := by
    rw [Schema.readMembers_ok_iff L.required_isSome hl (by simp),
      Schema.readMembers_ok_iff L.required_isSome hm (by simp), htable]
  -- Both lists give every part, and every undeclared member, the same value.
  have hsame : ∀ e e', σ.readMembers [] blank (Members.ofValues l) = .ok e →
      σ.readMembers [] blank (Members.ofValues m) = .ok e' → e = e' := by
    intro e e' he he'
    refine L.ext e e' (fun p hp => ?_) (Table.ext_find? fun key => ?_)
    · have hpart := (L.sees hp).readsAs_of_ok (L.name_isSome hp) hl he
      rw [htable] at hpart
      exact hpart.unique ((L.sees hp).readsAs_of_ok (L.name_isSome hp) hm he')
    · rw [L.collects.find?_of_ok he key, L.collects.find?_of_ok he' key, htable]
  constructor
  · intro he
    obtain ⟨e', he'⟩ := hread.mp ⟨e, he⟩
    rw [hsame e e' he he']
    exact he'
  · intro he
    obtain ⟨e', he'⟩ := hread.mpr ⟨e, he⟩
    rw [← hsame e' e he' he]
    exact he'

/-! ## 5. Reading undoes writing -/

def members (e : α) : List (String × Json) := Part.written L.parts e ++ (L.extra e).entries

theorem find?_members (e : α) (key : String) :
    (Table.ofList (L.members e)).find? key =
      ((L.extra e).find? key).or ((Part.written L.parts e).lookup key) := by
  have hnodup : ((Part.written L.parts e).map Prod.fst).Nodup :=
    L.names.sublist (Part.keys_written L.parts e)
  rw [Table.find?_ofList, members, List.reverse_append, List.lookup_append,
    Table.lookup_reverse_of_nodup (L.extra e).nodup_keys, Table.lookup_reverse_of_nodup hnodup]
  rfl

/-- Under a declared name stands what the part is written as. -/
theorem find?_members_part (ha : σ.Admits (L.extra e)) (hp : p ∈ L.parts) :
    (Table.ofList (L.members e)).find? p.name = p.member? e := by
  rw [L.find?_members, ha.undeclared _ (L.name_isSome hp), Option.none_or,
    Part.lookup_written L.names hp]

theorem find?_members_undeclared {key : String} (hkey : σ.field? key = none) :
    (Table.ofList (L.members e)).find? key = (L.extra e).find? key := by
  have hnone : (Part.written L.parts e).lookup key = none := by
    refine Table.lookup_eq_none_of_not_mem fun hmem => ?_
    obtain ⟨p, hp, rfl⟩ := List.mem_map.mp ((Part.keys_written L.parts e).mem hmem)
    simp [L.field?_name hp] at hkey
  rw [L.find?_members, hnone, Option.or_none]

/-- The members of the document as a value that was read keeps them. -/
def table (e : α) : Table Json := (Table.ofList (L.members e)).map ordered

theorem document_ordered (e : α) : (document e).ordered = ofTable (L.table e) := by
  rw [L.document_eq, ordered_object, table, Table.map_ofList, members]

theorem readsAs_member? (ha : σ.Admits (L.extra e)) (hp : p ∈ L.parts) :
    Schema.ReadsAs p.read (p.get blank) ((L.table e).find? p.name) (p.get e) := by
  rw [table, Table.find?_map, L.find?_members_part ha hp]
  exact L.readsAs p hp (p.get e)

theorem readValue_ofTable (t : Table Json) :
    readValue (σ.read blank) (ofTable t) = σ.readMembers [] blank (Members.ofValues t.entries) :=
  rfl

/-- **An entity comes back from its document as it was.** -/
theorem readValue_document (ha : σ.Admits (L.extra e)) :
    readValue (σ.read blank) (document e).ordered = .ok e := by
  rw [L.document_ordered, readValue_ofTable]
  have hsingle : σ.Single ((L.table e).entries.map Prod.fst) :=
    Schema.single_of_nodup (L.table e).nodup_keys
  have hreads : ∃ e', σ.readMembers [] blank (Members.ofValues (L.table e).entries) = .ok e' := by
    rw [Schema.readMembers_ok_iff L.required_isSome hsingle (by simp), Table.ofList_entries]
    refine ⟨fun name f v hf hv => ?_, fun name hname => .inr ?_⟩
    · obtain ⟨p, hp, rfl, rfl⟩ := L.exists_part hf
      exact (L.readsAs_member? ha hp).field_reads hv
    · obtain ⟨p, hp, rfl, hwrite⟩ := L.required name hname
      rw [Table.contains, table, Table.find?_map, L.find?_members_part ha hp, Option.isSome_map]
      exact hwrite (p.get e)
  obtain ⟨e', he'⟩ := hreads
  rw [he']
  -- What was read has the same parts and the same undeclared members, and there is nothing else.
  refine congrArg Except.ok (L.ext e' e (fun p hp => ?_) (Table.ext_find? fun key => ?_))
  · have hpart := (L.sees hp).readsAs_of_ok (L.name_isSome hp) hsingle he'
    rw [Table.ofList_entries] at hpart
    exact hpart.unique (L.readsAs_member? ha hp)
  · rw [L.collects.find?_of_ok he' key, Table.ofList_entries, L.extra_blank, Table.find?_empty,
      Option.or_none]
    split
    next hkey =>
      -- Undeclared members are sorted already, so reading them again changes nothing.
      rw [table, Table.find?_map, L.find?_members_undeclared hkey]
      cases hv : (L.extra e).find? key with
      | none => rfl
      | some v =>
        have hordered := ordered_of_ordered v (ha.ordered key v hv)
        simp [hordered]
    next hkey => exact (ha.undeclared key (Option.isSome_iff_ne_none.mpr hkey)).symm

/-- **What was read, from a text or a value, has no declared name among its undeclared members.** -/
theorem admits_of_read {o : Outline} (h : σ.read blank o = .ok e) : σ.Admits (L.extra e) := by
  have hblank : σ.Admits (L.extra blank) := by
    rw [L.extra_blank]
    exact Schema.admits_empty
  unfold Schema.read at h
  split at h
  next => exact L.collects.admits_of_ok hblank h
  next => cases h

end Layout

end StreamBoard

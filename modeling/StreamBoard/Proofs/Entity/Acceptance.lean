import Mathlib.Data.List.Forall2
import StreamBoard.Proofs.Entity.Preservation

/-!
# Acceptance — the values that an entity is read from

An entity declares members, each with a type (`Declared`).  A value is read as the entity exactly if
it is an object whose declared members, as far as they are there, have their types, and that has the
required ones; the entity holds what these members stand for, the default where one is absent, and
all other members as they are (`entities_readExactly`).  A member of the type `OrNull` may be
`null`; any other may not, for `null` is not the same as absent.
-/

namespace StreamBoard

open Json

variable {α β : Type}

/-! ## 1. Types of members -/

namespace Json

def IsText (v : Json) (s : String) : Prop := v = .string s

def IsFlag (v : Json) (b : Bool) : Prop := v = .bool b

/-- The value is this integer, so it is in the range of 64 bits with sign. -/
def IsInt64 (v : Json) (n : Int64) : Prop :=
  ∃ i : Integer, v = .number (.integer i) ∧ i.val = n.toInt

/-- The value is a count below two to the 64, or a list of texts and of nothing else. -/
def IsAssignment (v : Json) : Assignment → Prop
  | .count n => ∃ i : Integer, v = .number (.integer i) ∧ i.val = n.toNat
  | .slugs names => v = .array (names.map .string)

/-- The value is an object of which `passthrough`, if it is there, is a flag; or an array of one
flag, or of nothing. -/
def IsOptions : Json → StreamOptions → Prop
  | .object l, o =>
    (∀ w, (Json.object l).at? "passthrough" = some w → IsFlag w o.passthrough) ∧
      ((Json.object l).at? "passthrough" = none → o.passthrough = false)
  | .array [w], o => IsFlag w o.passthrough
  | .array [], o => o.passthrough = false
  | _, _ => False

/-- The value is `null`, or stands for something. -/
def OrNull (stands : Json → β → Prop) (v : Json) : Option β → Prop
  | none => v = .null
  | some b => stands v b

end Json

/-- A reader reads from sorted values what they stand for, and no others. -/
def ReadsWhat (r : Reader β) (stands : Json → β → Prop) : Prop :=
  ∀ v, v.Ordered → ∀ b, readValue r v = .ok b ↔ stands v b

/-- What is read is written as the value, and reads back from there. -/
theorem readsWhat_of_undoes {r : Reader β} {write : β → Json} {stands : Json → β → Prop}
    (hu : Undoes r write) (hk : ∀ v, v.Ordered → Keeps r write v)
    (h : ∀ v b, stands v b ↔ write b = v) : ReadsWhat r stands := by
  intro v hv b
  rw [h]
  constructor
  · exact hk v hv b
  · intro hwrite
    have hread := hu.reads b
    rwa [hwrite, ordered_of_ordered v hv] at hread

theorem readsWhat_text : ReadsWhat .string IsText :=
  readsWhat_of_undoes undoes_string (fun v _ => keeps_string v) fun _ _ => eq_comm

theorem readsWhat_flag : ReadsWhat .bool IsFlag :=
  readsWhat_of_undoes undoes_bool (fun v _ => keeps_bool v) fun _ _ => eq_comm

theorem readsWhat_int64 : ReadsWhat .int64 IsInt64 := by
  apply readsWhat_of_undoes undoes_int64 (fun v _ => keeps_int64 v)
  intro v n
  constructor
  · rintro ⟨i, rfl, hi⟩
    rw [Integer.eq_of_val_eq (show (Integer.ofInt64 n).val = i.val from hi.symm)]
  · rintro rfl
    exact ⟨.ofInt64 n, rfl, rfl⟩

theorem readsWhat_assignment : ReadsWhat Assignment.read IsAssignment := by
  apply readsWhat_of_undoes Assignment.undoes_document (fun _ => keeps_assignment)
  intro v a
  cases a with
  | count n =>
    constructor
    · rintro ⟨i, rfl, hi⟩
      change Json.number (.integer (.ofUInt64 n)) = _
      rw [Integer.eq_of_val_eq (show (Integer.ofUInt64 n).val = i.val from hi.symm)]
    · rintro rfl
      exact ⟨.ofUInt64 n, rfl, rfl⟩
  | slugs names => exact eq_comm

theorem ReadsWhat.option {r : Reader β} {stands : Json → β → Prop} (h : ReadsWhat r stands)
    (hnull : ∀ b, ¬stands .null b) : ReadsWhat (.option r) (OrNull stands) := by
  intro v hv o
  by_cases hv' : v = .null
  · subst hv'
    cases o with
    | none => exact iff_of_true rfl rfl
    | some b => exact iff_of_false nofun (hnull b)
  · rw [readValue_option hv', map_eq_ok_iff]
    cases o with
    | none => exact iff_of_false (fun ⟨_, _, hsome⟩ => nomatch hsome) hv'
    | some b =>
      rw [OrNull, ← h v hv b]
      constructor
      · rintro ⟨c, hc, hsome⟩
        cases hsome
        exact hc
      · intro hb
        exact ⟨b, hb, rfl⟩

theorem ReadsWhat.readsAs_iff {r : Reader β} {stands : Json → β → Prop} (h : ReadsWhat r stands)
    {member : Option Json} (hordered : ∀ v, member = some v → v.Ordered) (default b : β) :
    Schema.ReadsAs r default member b ↔
      (∀ v, member = some v → stands v b) ∧ (member = none → b = default) := by
  cases member with
  | none => exact ⟨fun hb => ⟨nofun, fun _ => hb⟩, fun hb => hb.2 rfl⟩
  | some v =>
    change readValue r v = .ok b ↔ _
    rw [h v (hordered v rfl) b]
    constructor
    · intro hb
      refine ⟨?_, nofun⟩
      rintro w ⟨⟩
      exact hb
    · intro hb
      exact hb.1 v rfl

/-! ## 2. Options -/

namespace StreamOptions

theorem readMembers_iff {t : Table Json} {o : StreamOptions} :
    schema.readMembers [] {} (Members.ofValues t.entries) = .ok o ↔
      Schema.ReadsAs .bool false (t.find? "passthrough") o.passthrough := by
  have hsingle : schema.Single (t.entries.map Prod.fst) := Schema.single_of_nodup t.nodup_keys
  have hpart : ∀ e, schema.readMembers [] {} (Members.ofValues t.entries) = .ok e →
      Schema.ReadsAs .bool false (t.find? "passthrough") e.passthrough := by
    intro e he
    have hreads := sees_passthrough.readsAs_of_ok rfl hsingle he
    rwa [Table.ofList_entries] at hreads
  constructor
  · exact hpart o
  · intro h
    have hreadable : schema.Readable [] t := by
      constructor
      · intro name f v hf hv
        obtain ⟨hmem, rfl⟩ := Schema.mem_of_field? hf
        obtain rfl := List.mem_singleton.mp hmem
        exact h.field_reads hv
      · exact List.forall_mem_nil _
    have hexists : ∃ e, schema.readMembers [] {} (Members.ofValues t.entries) = .ok e := by
      rw [Schema.readMembers_ok_iff (List.forall_mem_nil _) hsingle (by simp), Table.ofList_entries]
      exact hreadable
    -- The options are nothing but the flag, so they are the ones that were read.
    obtain ⟨e, he⟩ := hexists
    have hflag : e.passthrough = o.passthrough := (hpart e he).unique h
    rw [he]
    cases e
    cases o
    cases hflag
    rfl

theorem readValue_array_nil {o : StreamOptions} :
    readValue read (.array []) = .ok o ↔ o.passthrough = false := by
  change Except.ok {} = Except.ok o ↔ _
  cases o
  simp only [Except.ok.injEq, mk.injEq, eq_comm]

theorem readValue_array_cons {w : Json} {rest : List Json} (hw : w.Ordered) {o : StreamOptions} :
    readValue read (.array (w :: rest)) = .ok o ↔ IsFlag w o.passthrough ∧ rest = [] := by
  have hrest : (Items.ofValues rest).values = .ok [] ↔ rest = [] := by
    rw [values_ofValues]
    cases rest with
    | nil => exact iff_of_true rfl rfl
    | cons => exact iff_of_false nofun nofun
  change readItems (.item (Outline.ofValue w) (Items.ofValues rest)) = .ok o ↔ _
  rw [readItems_item_iff, hrest]
  exact and_congr_left fun _ => readsWhat_flag w hw o.passthrough

theorem readsWhat : ReadsWhat read IsOptions := by
  intro v hv o
  cases v with
  | object l =>
    let t : Table Json := ⟨l, hv.1⟩
    have hat : (Json.object l).at? "passthrough" = t.find? "passthrough" := at?_ofTable t _
    have hordered : ∀ w, t.find? "passthrough" = some w → w.Ordered :=
      fun w hw => ordered_of_at? hv (hat.trans hw)
    change schema.readMembers [] {} (Members.ofValues t.entries) = .ok o ↔ _
    rw [readMembers_iff, readsWhat_flag.readsAs_iff hordered, IsOptions, hat]
  | array items =>
    cases items with
    | nil => exact readValue_array_nil
    | cons w rest =>
      rw [readValue_array_cons hv.1]
      cases rest with
      | nil => exact and_iff_left rfl
      | cons => exact iff_of_false (fun h => nomatch h.2) id
  | _ => exact iff_of_false nofun id

end StreamOptions

/-! ## 3. Entities -/

/-- A member that an entity declares: its name, the values that it may have, and what the entity
holds where it is there and where it is not. -/
structure Declared (α : Type) where
  name : String
  admits : Json → Prop
  holds : Json → α → Prop
  blank : α → Prop

/-- A member of a type, with a default, that the entity holds in one of its parts. -/
def Declared.of (name : String) (stands : Json → β → Prop) (default : β) (get : α → β) :
    Declared α where
  name := name
  admits v := ∃ b, stands v b
  holds v e := stands v (get e)
  blank e := get e = default

/-- The value is an object whose members have their types where they are declared, and the required
ones are there. -/
structure Accepts (ds : List (Declared α)) (required : List String) (v : Json) : Prop where
  object : ∃ l, v = .object l
  admits : ∀ d ∈ ds, ∀ w, v.at? d.name = some w → d.admits w
  complete : ∀ name ∈ required, ∃ w, v.at? name = some w

/-- An entity holds what the declared members of a value stand for, defaults for those that are
absent, and all other members as they are. -/
structure Reflects (ds : List (Declared α)) (extra : α → Table Json) (v : Json) (e : α) :
    Prop where
  holds : ∀ d ∈ ds, ∀ w, v.at? d.name = some w → d.holds w e
  blank : ∀ d ∈ ds, v.at? d.name = none → d.blank e
  extra : ∀ key, (extra e).find? key = if key ∈ ds.map Declared.name then none else v.at? key

/-- A reader reads an entity from the values that its declared members accept, and from no other;
and none of the names in `plain` may stand for `null`. -/
structure ReadsExactly (r : Reader α) (ds : List (Declared α)) (required plain : List String)
    (extra : α → Table Json) : Prop where
  accepts : ∀ v, v.Ordered → ((∃ e, readValue r v = .ok e) ↔ Accepts ds required v)
  reflects : ∀ v e, v.Ordered → readValue r v = .ok e → Reflects ds extra v e
  plain : ∀ v, v.Ordered → ∀ name ∈ plain, v.at? name = some .null → ∀ e, readValue r v ≠ .ok e

/-- The part of an entity is read as the member is declared. -/
structure Part.Matches (blank : α) (p : Part α) (d : Declared α) : Prop where
  name : d.name = p.name
  admits : ∀ v, v.Ordered → (d.admits v ↔ ∃ b, readValue p.read v = .ok b)
  holds : ∀ v e, v.Ordered → readValue p.read v = .ok (p.get e) → d.holds v e
  blank : ∀ e, p.get e = p.get blank → d.blank e

theorem matches_of {name : String} {r : Reader β} {stands : Json → β → Prop}
    (h : ReadsWhat r stands) {blank : α} {get : α → β} {set : β → α → α}
    {write? : β → Option Json} :
    Part.Matches blank ⟨name, β, r, get, set, write?⟩ (.of name stands (get blank) get) where
  name := rfl
  admits v hv := exists_congr fun b => (h v hv b).symm
  holds v e hv hread := (h v hv (get e)).mp hread
  blank _ h := h

theorem exists_related_of_mem {γ δ : Type*} {R : γ → δ → Prop} {as : List γ} {bs : List δ}
    (h : List.Forall₂ R as bs) {a : γ} (ha : a ∈ as) : ∃ b ∈ bs, R a b := by
  induction h with
  | nil => cases ha
  | cons hhead _ ih =>
    cases ha with
    | head => exact ⟨_, List.mem_cons_self, hhead⟩
    | tail _ ha =>
      obtain ⟨b, hb, hab⟩ := ih ha
      exact ⟨b, List.mem_cons_of_mem _ hb, hab⟩

namespace Layout

variable {σ : Schema α} {blank : α} {document : α → Json} (L : Layout σ blank document)
  {ds : List (Declared α)} (hds : List.Forall₂ (Part.Matches blank) L.parts ds) {t : Table Json}
  {e : α}

include hds

theorem exists_part_of_declared {d : Declared α} (hd : d ∈ ds) :
    ∃ p ∈ L.parts, p.Matches blank d :=
  exists_related_of_mem (R := fun d p => Part.Matches blank p d) hds.flip hd

theorem mem_declared_iff (key : String) :
    key ∈ ds.map Declared.name ↔ (σ.field? key).isSome := by
  constructor
  · intro hkey
    obtain ⟨d, hd, rfl⟩ := List.mem_map.mp hkey
    obtain ⟨p, hp, hmatches⟩ := L.exists_part_of_declared hds hd
    rw [hmatches.name]
    exact L.name_isSome hp
  · intro hkey
    obtain ⟨f, hf⟩ := Option.isSome_iff_exists.mp hkey
    obtain ⟨p, hp, rfl, -⟩ := L.exists_part hf
    obtain ⟨d, hd, hmatches⟩ := exists_related_of_mem hds hp
    exact List.mem_map.mpr ⟨d, hd, hmatches.name⟩

theorem readable_iff (ht : (ofTable t).Ordered) :
    σ.Readable [] t ↔ Accepts ds σ.required (ofTable t) := by
  have hvalues := ordered_ofTable_iff.mp ht
  constructor
  · intro h
    refine ⟨⟨t.entries, rfl⟩, ?_, ?_⟩
    · intro d hd v hv
      obtain ⟨p, hp, hmatches⟩ := L.exists_part_of_declared hds hd
      rw [at?_ofTable, hmatches.name] at hv
      obtain ⟨u, hu⟩ := h.reads p.name p.field v (L.field?_name hp) hv
      obtain ⟨b, hb, -⟩ := map_eq_ok_iff.mp hu
      exact (hmatches.admits v (hvalues _ v hv)).mpr ⟨b, hb⟩
    · intro name hname
      rw [at?_ofTable]
      exact Option.isSome_iff_exists.mp ((h.complete name hname).resolve_left (by simp))
  · intro h
    constructor
    · intro name f v hf hv
      obtain ⟨p, hp, rfl, rfl⟩ := L.exists_part hf
      obtain ⟨d, hd, hmatches⟩ := exists_related_of_mem hds hp
      have hadmits : d.admits v := by
        apply h.admits d hd
        rw [at?_ofTable, hmatches.name]
        exact hv
      obtain ⟨b, hb⟩ := (hmatches.admits v (hvalues _ v hv)).mp hadmits
      exact ⟨p.set b, map_eq_ok_iff.mpr ⟨b, hb, rfl⟩⟩
    · intro name hname
      have hcomplete := h.complete name hname
      rw [at?_ofTable] at hcomplete
      exact .inr (Option.isSome_iff_exists.mpr hcomplete)

theorem reflects_of_readMembers (ht : (ofTable t).Ordered)
    (h : σ.readMembers [] blank (Members.ofValues t.entries) = .ok e) :
    Reflects ds L.extra (ofTable t) e := by
  have hvalues := ordered_ofTable_iff.mp ht
  have hpart : ∀ p ∈ L.parts, Schema.ReadsAs p.read (p.get blank) (t.find? p.name) (p.get e) := by
    intro p hp
    have hreads := (L.sees hp).readsAs_of_ok (L.name_isSome hp)
      (Schema.single_of_nodup t.nodup_keys) h
    rwa [Table.ofList_entries] at hreads
  constructor
  · intro d hd v hv
    rw [at?_ofTable] at hv
    obtain ⟨p, hp, hmatches⟩ := L.exists_part_of_declared hds hd
    have hread := hpart p hp
    rw [← hmatches.name, hv] at hread
    exact hmatches.holds v e (hvalues _ v hv) hread
  · intro d hd hnone
    rw [at?_ofTable] at hnone
    obtain ⟨p, hp, hmatches⟩ := L.exists_part_of_declared hds hd
    have hread := hpart p hp
    rw [← hmatches.name, hnone] at hread
    exact hmatches.blank e hread
  · intro key
    rw [L.collects.find?_of_ok h key, Table.ofList_entries, L.extra_blank, Table.find?_empty,
      Option.or_none, at?_ofTable]
    by_cases hkey : key ∈ ds.map Declared.name
    · have hsome := (L.mem_declared_iff hds key).mp hkey
      rw [if_pos hkey, if_neg (Option.isSome_iff_ne_none.mp hsome)]
    · have hnone : σ.field? key = none := by
        rw [L.mem_declared_iff hds, Option.not_isSome_iff_eq_none] at hkey
        exact hkey
      rw [if_neg hkey, if_pos hnone]
      -- Values that were read are sorted, so sorting them once more changes nothing.
      cases hv : t.find? key with
      | none => rfl
      | some v => exact congrArg some (ordered_of_ordered v (hvalues key v hv))

/-- **An entity is read exactly from what its declared members accept.** -/
theorem readsExactly {plain : List String}
    (hplain : ∀ name ∈ plain, ∃ d ∈ ds, d.name = name ∧ ¬d.admits .null) :
    ReadsExactly (σ.read blank) ds σ.required plain L.extra := by
  have haccepts : ∀ v, v.Ordered →
      ((∃ e, readValue (σ.read blank) v = .ok e) ↔ Accepts ds σ.required v) := by
    have htable : ∀ t, (ofTable t).Ordered →
        ((∃ e, readValue (σ.read blank) (ofTable t) = .ok e) ↔
          Accepts ds σ.required (ofTable t)) := by
      intro t ht
      have hsingle : σ.Single (t.entries.map Prod.fst) := Schema.single_of_nodup t.nodup_keys
      simp only [readValue_ofTable]
      rw [Schema.readMembers_ok_iff L.required_isSome hsingle (by simp), Table.ofList_entries]
      exact L.readable_iff hds ht
    intro v hv
    cases v with
    | object l => exact htable ⟨l, hv.1⟩ hv
    | _ => exact iff_of_false nofun fun h => nomatch h.object
  constructor
  · exact haccepts
  · intro v e hv he
    obtain ⟨t, rfl, hread⟩ := Schema.exists_table_of_read hv he
    exact L.reflects_of_readMembers hds hv hread
  · intro v hv name hname hnull e he
    obtain ⟨d, hd, rfl, hadmits⟩ := hplain name hname
    exact hadmits (((haccepts v hv).mp ⟨e, he⟩).admits d hd .null hnull)

end Layout

/-! ## 4. The declarations -/

def Stream.declared : List (Declared Stream) := [
  .of "slug" IsText "" slug,
  .of "format" IsText "" format,
  .of "source" IsText "" source,
  .of "publishedAt" (OrNull IsInt64) none publishedAt]

def Transcoder.declared : List (Declared Transcoder) := [
  .of "name" IsText "" name,
  .of "capacity" IsInt64 0 capacity,
  .of "streams" IsAssignment (.slugs []) streams]

def Fanout.declared : List (Declared Fanout) := [
  .of "name" IsText "" name,
  .of "sink" IsText "" sink]

def StreamSettings.declared : List (Declared StreamSettings) := [
  .of "slug" IsText "" slug,
  .of "ingestType" (OrNull IsText) none ingestType,
  .of "secret" (OrNull IsText) none secret,
  .of "notes" (OrNull IsText) none notes,
  .of "public" (OrNull IsFlag) none isPublic,
  .of "options" (OrNull IsOptions) none options]

theorem not_isText_null (s : String) : ¬IsText .null s := nofun

theorem not_isInt64_null (n : Int64) : ¬IsInt64 .null n := by
  rintro ⟨i, hi, -⟩
  cases hi

theorem not_isAssignment_null (a : Assignment) : ¬IsAssignment .null a := by
  cases a with
  | count n =>
    rintro ⟨i, hi, -⟩
    cases hi
  | slugs names => exact nofun

theorem not_isFlag_null (b : Bool) : ¬IsFlag .null b := nofun

theorem not_isOptions_null (o : StreamOptions) : ¬IsOptions .null o := id

theorem Stream.readsExactly :
    ReadsExactly read declared [] ["slug", "format", "source"] extra := by
  apply layout.readsExactly
  · exact .cons (matches_of readsWhat_text) (.cons (matches_of readsWhat_text)
      (.cons (matches_of readsWhat_text)
        (.cons (matches_of (readsWhat_int64.option not_isInt64_null)) .nil)))
  · have hnull := not_exists.mpr not_isText_null
    simp only [List.forall_mem_cons]
    exact ⟨⟨_, .head _, rfl, hnull⟩, ⟨_, .tail _ (.head _), rfl, hnull⟩,
      ⟨_, .tail _ (.tail _ (.head _)), rfl, hnull⟩, List.forall_mem_nil _⟩

theorem Transcoder.readsExactly :
    ReadsExactly read declared [] ["name", "capacity", "streams"] extra := by
  apply layout.readsExactly
  · exact .cons (matches_of readsWhat_text) (.cons (matches_of readsWhat_int64)
      (.cons (matches_of readsWhat_assignment) .nil))
  · simp only [List.forall_mem_cons]
    exact ⟨⟨_, .head _, rfl, not_exists.mpr not_isText_null⟩,
      ⟨_, .tail _ (.head _), rfl, not_exists.mpr not_isInt64_null⟩,
      ⟨_, .tail _ (.tail _ (.head _)), rfl, not_exists.mpr not_isAssignment_null⟩,
      List.forall_mem_nil _⟩

theorem Fanout.readsExactly : ReadsExactly read declared [] ["name", "sink"] extra := by
  apply layout.readsExactly
  · exact .cons (matches_of readsWhat_text) (.cons (matches_of readsWhat_text) .nil)
  · have hnull := not_exists.mpr not_isText_null
    simp only [List.forall_mem_cons]
    exact ⟨⟨_, .head _, rfl, hnull⟩, ⟨_, .tail _ (.head _), rfl, hnull⟩, List.forall_mem_nil _⟩

theorem StreamSettings.readsExactly : ReadsExactly read declared ["slug"] ["slug"] extra := by
  have htext := readsWhat_text.option not_isText_null
  apply layout.readsExactly
  · exact .cons (matches_of readsWhat_text) (.cons (matches_of htext) (.cons (matches_of htext)
      (.cons (matches_of htext) (.cons (matches_of (readsWhat_flag.option not_isFlag_null))
        (.cons (matches_of (StreamOptions.readsWhat.option not_isOptions_null)) .nil)))))
  · simp only [List.forall_mem_cons]
    exact ⟨⟨_, .head _, rfl, not_exists.mpr not_isText_null⟩, List.forall_mem_nil _⟩

/-- **Entities are read from the values of their types, and from no others;** what is read is what
the members stand for. -/
theorem entities_readExactly :
    ReadsExactly Stream.read Stream.declared [] ["slug", "format", "source"] Stream.extra ∧
    ReadsExactly Transcoder.read Transcoder.declared [] ["name", "capacity", "streams"]
      Transcoder.extra ∧
    ReadsExactly Fanout.read Fanout.declared [] ["name", "sink"] Fanout.extra ∧
    ReadsExactly StreamSettings.read StreamSettings.declared ["slug"] ["slug"]
      StreamSettings.extra ∧
    ReadsWhat StreamOptions.read IsOptions :=
  ⟨Stream.readsExactly, Transcoder.readsExactly, Fanout.readsExactly, StreamSettings.readsExactly,
    StreamOptions.readsWhat⟩

/-- An object without members, a slug that is `null`, and options in an array. -/
theorem entities_readExactly_bare :
    (∃ s, readValue Stream.read (.object []) = .ok s ∧ s.slug = "" ∧ s.publishedAt = none) ∧
    (∀ s, readValue StreamSettings.read (.object [("slug", .null)]) ≠ .ok s) ∧
    readValue StreamOptions.read (.array [.bool true]) = .ok ⟨true⟩ := by
  obtain ⟨stream, -, -, settings, options⟩ := entities_readExactly
  have hempty : (Json.object []).Ordered := ⟨.nil, trivial⟩
  have habsent : ∀ key, (Json.object []).at? key = none := fun _ => rfl
  have hslug : (Json.object [("slug", .null)]).Ordered := ⟨by decide, trivial, trivial⟩
  refine ⟨?_, settings.plain _ hslug "slug" List.mem_cons_self rfl, ?_⟩
  · obtain ⟨s, hs⟩ := (stream.accepts _ hempty).mpr ⟨⟨[], rfl⟩, fun _ _ _ => nofun, nofun⟩
    have hblank : ∀ d ∈ Stream.declared, d.blank s :=
      fun d hd => (stream.reflects _ s hempty hs).blank d hd (habsent _)
    exact ⟨s, hs, hblank _ (.head _), hblank _ (.tail _ (.tail _ (.tail _ (.head _))))⟩
  · exact (options (.array [.bool true]) ⟨trivial, trivial⟩ ⟨true⟩).mpr rfl

end StreamBoard

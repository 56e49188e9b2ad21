import StreamBoard.Proofs.Entity.Pipeline
import StreamBoard.Proofs.Entity.Settings

/-!
# Agreement — reading a text, and reading the value of a text

An entity may be read straight from a text, or from the value that was read from it.  The one walks
the text once and stops at the first fault; the other sees members sorted, and of equal names the
last.  Both find the same entity in the same texts (`readText_iff_parse`), as long as no declared
name is repeated and no member is passed over.
-/

namespace StreamBoard

namespace Json

variable {α β : Type}

/-! ## 1. Readers of scalars -/

/-- A reader finds in an outline what it finds in the value of the outline. -/
def Reader.Agrees (r : Reader α) (o : Outline) : Prop :=
  ∀ a, r o = .ok a ↔ ∃ v, o.value = .ok v ∧ readValue r v = .ok a

theorem readText_iff_of_agrees {r : Reader α} {s : List Char} (h : r.Agrees (.ofText s)) (a : α) :
    readText r s = .ok a ↔ ∃ v, readText Outline.value s = .ok v ∧ readValue r v = .ok a := by
  simp only [readText_eq_ok_iff, h a]
  constructor
  · rintro ⟨⟨v, hv, ha⟩, hend⟩
    exact ⟨v, ⟨hv, hend⟩, ha⟩
  · rintro ⟨v, ⟨hv, hend⟩, ha⟩
    exact ⟨⟨v, hv, ha⟩, hend⟩

namespace Scalar

def string? : Scalar → Option String
  | .string s => some s
  | _ => none

def bool? : Scalar → Option Bool
  | .bool b => some b
  | _ => none

def int64? : Scalar → Option Int64
  | .number (.integer i) => if i.val < 9223372036854775808 then some (.ofInt i.val) else none
  | _ => none

theorem ofValue_toJson (x : Scalar) : Outline.ofValue x.toJson = .ofScalar x := by
  cases x <;> rfl

theorem value_eq_toJson_iff {o : Outline} {x : Scalar} :
    o.value = .ok x.toJson ↔ ∃ l, o = .scalar l ∧ l.value = .ok x := by
  constructor
  · intro h
    cases o with
    | scalar l =>
      obtain ⟨y, hy, hxy⟩ := map_eq_ok_iff.mp h
      have heq : y = x := by
        cases y <;> cases x <;> cases hxy <;> rfl
      exact ⟨l, rfl, heq ▸ hy⟩
    | array start items =>
      obtain ⟨l, -, hl⟩ := map_eq_ok_iff.mp h
      cases x <;> cases hl
    | object start members =>
      obtain ⟨l, -, hl⟩ := map_eq_ok_iff.mp h
      cases x <;> cases hl
  · rintro ⟨l, rfl, hl⟩
    exact map_eq_ok_iff.mpr ⟨x, hl, rfl⟩

end Scalar

namespace Reader

/-- A reader takes the scalars for which `f` has a value, and nothing else. -/
def ReadsBy (r : Reader α) (f : Scalar → Option α) : Prop :=
  ∀ o a, r o = .ok a ↔ ∃ l x, o = .scalar l ∧ l.value = .ok x ∧ f x = some a

theorem string_readsBy : string.ReadsBy Scalar.string? := by
  intro o a
  constructor
  · intro h
    unfold string at h
    split at h
    next start s fault next =>
      cases h
      exact ⟨_, _, rfl, rfl, rfl⟩
    next => cases h
  · rintro ⟨⟨start, value, fault, next⟩, x, rfl, rfl, hx⟩
    cases x with
    | string s =>
      cases hx
      rfl
    | _ => cases hx

theorem bool_readsBy : bool.ReadsBy Scalar.bool? := by
  intro o a
  constructor
  · intro h
    unfold bool at h
    split at h
    next start b fault next =>
      cases h
      exact ⟨_, _, rfl, rfl, rfl⟩
    next => cases h
  · rintro ⟨⟨start, value, fault, next⟩, x, rfl, rfl, hx⟩
    cases x with
    | bool b =>
      cases hx
      rfl
    | _ => cases hx

theorem int64_readsBy : int64.ReadsBy Scalar.int64? := by
  intro o a
  constructor
  · intro h
    unfold int64 at h
    split at h
    next start i fault next =>
      split at h
      next hlt =>
        cases h
        exact ⟨_, _, rfl, rfl, if_pos hlt⟩
      next => cases h
    next => cases h
  · rintro ⟨⟨start, value, fault, next⟩, x, rfl, rfl, hx⟩
    unfold Scalar.int64? at hx
    split at hx
    next i =>
      obtain ⟨hlt, hx⟩ := Option.ite_none_right_eq_some.mp hx
      cases hx
      exact if_pos hlt
    next => cases hx

theorem ReadsBy.readValue_iff {r : Reader α} {f : Scalar → Option α} (h : r.ReadsBy f) {v : Json}
    {a : α} : readValue r v = .ok a ↔ ∃ x, v = x.toJson ∧ f x = some a := by
  rw [readValue, h]
  constructor
  · rintro ⟨l, x, hl, hx, hf⟩
    -- An outline of one lexeme is the outline of a scalar.
    have hv : v = x.toJson := by
      cases v <;> cases hl <;> cases hx <;> rfl
    exact ⟨x, hv, hf⟩
  · rintro ⟨x, rfl, hf⟩
    exact ⟨_, x, x.ofValue_toJson, rfl, hf⟩

theorem ReadsBy.agrees {r : Reader α} {f : Scalar → Option α} (h : r.ReadsBy f) (o : Outline) :
    r.Agrees o := by
  intro a
  rw [h]
  simp only [h.readValue_iff]
  constructor
  · rintro ⟨l, x, rfl, hl, hf⟩
    exact ⟨x.toJson, Scalar.value_eq_toJson_iff.mpr ⟨l, rfl, hl⟩, x, rfl, hf⟩
  · rintro ⟨v, hv, x, rfl, hf⟩
    obtain ⟨l, ho, hl⟩ := Scalar.value_eq_toJson_iff.mp hv
    exact ⟨l, x, ho, hl, hf⟩

theorem option_of_ne_null {r : Reader α} {o : Outline} (h : o.value ≠ .ok .null) :
    option r o = (r o).map some := by
  unfold option
  split
  next => exact absurd rfl h
  next => rfl

theorem Agrees.option {r : Reader α} {o : Outline} (h : r.Agrees o) : (Reader.option r).Agrees o := by
  intro a
  by_cases hnull : o.value = .ok .null
  · obtain ⟨⟨start, value, fault, next⟩, rfl, rfl⟩ :=
      Scalar.value_eq_toJson_iff (x := .null).mp hnull
    constructor
    · exact fun ha => ⟨.null, rfl, ha⟩
    · rintro ⟨v, hv, ha⟩
      cases hv
      exact ha
  · have hsome : ∀ v, o.value = .ok v → readValue (Reader.option r) v = (readValue r v).map some := by
      rintro v hv
      refine readValue_option ?_
      rintro rfl
      exact hnull hv
    rw [option_of_ne_null hnull, map_eq_ok_iff]
    constructor
    · rintro ⟨b, hb, rfl⟩
      obtain ⟨v, hv, hb⟩ := (h b).mp hb
      exact ⟨v, hv, (hsome v hv).trans (congrArg (Except.map some) hb)⟩
    · rintro ⟨v, hv, ha⟩
      rw [hsome v hv] at ha
      obtain ⟨b, hb, rfl⟩ := map_eq_ok_iff.mp ha
      exact ⟨b, (h b).mpr ⟨v, hv, hb⟩, rfl⟩

theorem Agrees.map {r : Reader α} {o : Outline} (f : α → β) (h : r.Agrees o) :
    Reader.Agrees (fun o => (r o).map f) o := by
  intro b
  constructor
  · intro hb
    obtain ⟨a, ha, rfl⟩ := map_eq_ok_iff.mp hb
    obtain ⟨v, hv, ha⟩ := (h a).mp ha
    exact ⟨v, hv, map_eq_ok_iff.mpr ⟨a, ha, rfl⟩⟩
  · rintro ⟨v, hv, hb⟩
    obtain ⟨a, ha, rfl⟩ := map_eq_ok_iff.mp hb
    exact map_eq_ok_iff.mpr ⟨a, (h a).mpr ⟨v, hv, ha⟩, rfl⟩

end Reader

/-! ## 2. Members -/

/-- The members of an object whose names read. -/
def Members.outlines : Members → List (String × Outline)
  | .finish _ => []
  | .member key o rest =>
    match key.value with
    | .ok name => (name, o) :: rest.outlines
    | .error _ => rest.outlines

def Outline.members : Outline → List (String × Outline)
  | .object _ m => m.outlines
  | _ => []

/-- The names of an object's members in the order of the text. -/
def Outline.names (o : Outline) : List String := o.members.map Prod.fst

theorem names_of_values {m : Members} {l : List (String × Json)} (h : m.values = .ok l) :
    m.outlines.map Prod.fst = l.map Prod.fst := by
  fun_induction Members.outlines m generalizing l with
  | case1 how =>
    obtain ⟨-, rfl⟩ := Members.values_finish_iff.mp h
    rfl
  | case2 key o rest name hkey ih =>
    obtain ⟨k, v, vs, hk, -, hvs, rfl⟩ := Members.values_member_iff.mp h
    cases hkey.symm.trans hk
    exact congrArg (name :: ·) (ih hvs)
  | case3 key o rest fault hkey ih =>
    obtain ⟨k, v, vs, hk, -⟩ := Members.values_member_iff.mp h
    cases hkey.symm.trans hk

end Json

namespace Schema

open Json

variable {α : Type} {σ : Schema α}

/-- The members of a text are read as the list of their values is. -/
def ByValues (σ : Schema α) (m : Members) : Prop :=
  ∀ seen entity e, σ.readMembers seen entity m = .ok e ↔
    ∃ l, m.values = .ok l ∧ σ.readMembers seen entity (Members.ofValues l) = .ok e

-- How an object ends decides whether it reads, and where the fault is put, but not what is read.
theorem byValues_finish (how : Finish) : σ.ByValues (.finish how) := by
  intro seen entity e
  rw [readMembers, Members.values]
  cases how.membersFault with
  | some fault => simp
  | none =>
    simp only [Except.ok.injEq, exists_eq_left', Members.ofValues, readMembers, Finish.membersFault]
    cases σ.required.find? fun name => !seen.contains name <;> simp

variable {key : Lexeme String} {o : Outline} {rest : Members} {name : String}

-- A key that does not read ends both.
theorem byValues_of_broken {fault : Fault} (hkey : key.value = .error fault) :
    σ.ByValues (.member key o rest) := by
  intro seen entity e
  simp [readMembers, Members.values, hkey, bind, Except.bind]

theorem ByValues.declared {f : Field α} (ih : σ.ByValues rest) (hkey : key.value = .ok name)
    (hf : σ.field? name = some f) (hread : f.read.Agrees o) : σ.ByValues (.member key o rest) := by
  intro seen entity e
  rw [readMembers_member_of_declared hkey hf]
  constructor
  · rintro ⟨hseen, u, hu, he⟩
    obtain ⟨v, hv, hu⟩ := (hread u).mp hu
    obtain ⟨vs, hvs, he⟩ := (ih _ _ _).mp he
    refine ⟨_, Members.values_member_iff.mpr ⟨name, v, vs, hkey, hv, hvs, rfl⟩, ?_⟩
    exact (readMembers_cons_of_declared hf).mpr ⟨hseen, u, hu, he⟩
  · rintro ⟨l, hl, he⟩
    obtain ⟨_, v, vs, hk, hv, hvs, rfl⟩ := Members.values_member_iff.mp hl
    cases hkey.symm.trans hk
    obtain ⟨hseen, u, hu, he⟩ := (readMembers_cons_of_declared hf).mp he
    exact ⟨hseen, u, (hread u).mpr ⟨v, hv, hu⟩, (ih _ _ _).mpr ⟨vs, hvs, he⟩⟩

theorem ByValues.kept {add : String → Json → α → α} (ih : σ.ByValues rest)
    (hkey : key.value = .ok name) (hf : σ.field? name = none) (hadd : σ.undeclared = .keep add) :
    σ.ByValues (.member key o rest) := by
  intro seen entity e
  have hcons : ∀ v vs, o.value = .ok v →
      (σ.readMembers seen entity (Members.ofValues ((name, v) :: vs)) = .ok e ↔
        σ.readMembers seen (add name v entity) (Members.ofValues vs) = .ok e) := by
    intro v vs hv
    -- A value that was read is sorted, so reading it once more changes nothing.
    rw [readMembers_cons_of_undeclared hf, hadd, ordered_of_ordered v (ordered_of_value o v hv)]
    rfl
  rw [readMembers_member_of_kept hkey hf hadd]
  constructor
  · rintro ⟨v, hv, he⟩
    obtain ⟨vs, hvs, he⟩ := (ih _ _ _).mp he
    refine ⟨_, Members.values_member_iff.mpr ⟨name, v, vs, hkey, hv, hvs, rfl⟩, ?_⟩
    exact (hcons v vs hv).mpr he
  · rintro ⟨l, hl, he⟩
    obtain ⟨_, v, vs, hk, hv, hvs, rfl⟩ := Members.values_member_iff.mp hl
    cases hkey.symm.trans hk
    exact ⟨v, hv, (ih _ _ _).mpr ⟨vs, hvs, (hcons v vs hv).mp he⟩⟩

/-- **An object is read from a text as the list of its values is,** if no member is passed over. -/
theorem byValues {m : Members}
    (hfields : ∀ name o f, (name, o) ∈ m.outlines → σ.field? name = some f → f.read.Agrees o)
    (hlooks : (∃ add, σ.undeclared = .keep add) ∨
      ∀ name ∈ m.outlines.map Prod.fst, (σ.field? name).isSome) : σ.ByValues m := by
  fun_induction Members.outlines m with
  | case1 how => exact byValues_finish how
  | case2 key o rest name hkey ih =>
    have ih := ih (fun name o f h => hfields name o f (List.mem_cons_of_mem _ h))
      (hlooks.imp_right fun h name hname => h name (List.mem_cons_of_mem _ hname))
    cases hf : σ.field? name with
    | some f => exact ih.declared hkey hf (hfields name o f List.mem_cons_self hf)
    | none =>
      obtain ⟨add, hadd⟩ := hlooks.resolve_right fun h => by
        simpa [hf] using h name List.mem_cons_self
      exact ih.kept hkey hf hadd
  | case3 key o rest fault hkey ih => exact byValues_of_broken hkey

/-- An object reads alike from a text if it does not matter that its value is sorted. -/
theorem read_agrees_of_congr {blank : α} {o : Outline}
    (hby : ∀ start m, o = .object start m → σ.ByValues m)
    (hcongr : ∀ start m l, o = .object start m → m.values = .ok l → ∀ e,
      (σ.readMembers [] blank (Members.ofValues l) = .ok e ↔
        σ.readMembers [] blank (Members.ofValues (Table.ofList l).entries) = .ok e)) :
    Reader.Agrees (σ.read blank) o := by
  intro e
  cases o with
  | scalar l =>
    refine iff_of_false nofun ?_
    rintro ⟨v, hv, he⟩
    obtain ⟨x, -, rfl⟩ := map_eq_ok_iff.mp hv
    rw [readValue, Scalar.ofValue_toJson] at he
    cases he
  | array start items =>
    refine iff_of_false nofun ?_
    rintro ⟨v, hv, he⟩
    obtain ⟨l, -, rfl⟩ := map_eq_ok_iff.mp hv
    cases he
  | object start m =>
    refine (hby start m rfl [] blank e).trans ?_
    constructor
    · rintro ⟨l, hl, he⟩
      exact ⟨_, map_eq_ok_iff.mpr ⟨l, hl, rfl⟩, (hcongr start m l rfl hl e).mp he⟩
    · rintro ⟨v, hv, he⟩
      obtain ⟨l, hl, rfl⟩ := map_eq_ok_iff.mp hv
      exact ⟨l, hl, (hcongr start m l rfl hl e).mpr he⟩

end Schema

/-! ## 3. Entities -/

open Json

namespace Layout

variable {α : Type} {σ : Schema α} {blank : α} {document : α → Json}
  (L : Layout σ blank document)

include L in
theorem exists_keep : ∃ add, σ.undeclared = .keep add := by
  cases hundeclared : σ.undeclared with
  | keep add => exact ⟨add, rfl⟩
  | passOver =>
    -- An undeclared member has to show in the table of the undeclared ones.
    have happly := L.extra_apply "" .null blank
    rw [hundeclared, L.extra_blank] at happly
    have hfind := congrArg (fun t => Table.find? t "") (happly.symm.trans L.extra_blank)
    rw [Table.find?_insert_self] at hfind
    cases hfind

/-- **An entity is read from a text as it is from the value of the text.** -/
theorem read_agrees {o : Outline} (hsingle : σ.Single o.names)
    (hparts : ∀ p ∈ L.parts, ∀ member, (p.name, member) ∈ o.members → p.read.Agrees member) :
    Reader.Agrees (σ.read blank) o := by
  refine Schema.read_agrees_of_congr ?_ ?_
  · rintro start m rfl
    refine Schema.byValues (fun name member f hmem hf => ?_) (.inl L.exists_keep)
    obtain ⟨p, hp, rfl, rfl⟩ := L.exists_part hf
    exact (hparts p hp member hmem).map p.set
  · rintro start m l rfl hl e
    -- Repeated names are undeclared ones, and of these the table has the last either way.
    have hnames : σ.Single (l.map Prod.fst) := names_of_values hl ▸ hsingle
    exact L.readMembers_congr hnames (Schema.single_of_nodup (Table.nodup_keys _))
      (Table.ofList_entries _).symm

end Layout

theorem Assignment.read_agrees (o : Outline) : Assignment.read.Agrees o := by
  intro a
  rw [read_eq_ok_iff]
  refine exists_congr fun v => and_congr_right fun hv => ?_
  -- The value is read once more, which changes nothing as it is sorted.
  rw [readValue, read_eq_ok_iff, value_ofValue, ordered_of_ordered v (ordered_of_value o v hv)]
  simp

namespace StreamOptions

/-- The options have no members but declared ones, and none of them twice. -/
def OnlyDeclared (o : Outline) : Prop :=
  schema.Single o.names ∧ ∀ name ∈ o.names, (schema.field? name).isSome

instance (o : Outline) : Decidable (OnlyDeclared o) := inferInstanceAs (Decidable (_ ∧ _))

theorem endFault_eq_none_iff {items : Items} : endFault items = none ↔ items.values = .ok [] := by
  cases items with
  | finish how =>
    rw [Items.values_finish_iff]
    cases how <;> simp [endFault, Finish.itemsFault]
  | item o rest =>
    refine iff_of_false ?_ ?_
    · rw [endFault]
      cases rest.ending <;> exact Option.some_ne_none _
    · intro h
      obtain ⟨_, _, -, -, hl⟩ := Items.values_item_iff.mp h
      cases hl

theorem readItems_item_iff {o : Outline} {rest : Items} {e : StreamOptions} :
    readItems (.item o rest) = .ok e ↔
      Reader.bool o = .ok e.passthrough ∧ rest.values = .ok [] := by
  rw [← endFault_eq_none_iff, readItems]
  cases Reader.bool o with
  | error fault => simp
  | ok b =>
    cases endFault rest with
    | some fault => simp
    | none => cases e; simp

theorem readItems_iff_values (items : Items) (e : StreamOptions) :
    readItems items = .ok e ↔
      ∃ l, items.values = .ok l ∧ readItems (Items.ofValues l) = .ok e := by
  cases items with
  | finish how =>
    rw [readItems, Items.values]
    cases how.itemsFault <;> simp [readItems, Items.ofValues, Finish.itemsFault]
  | item o rest =>
    rw [readItems_item_iff, Reader.bool_readsBy.agrees o]
    constructor
    · rintro ⟨⟨v, hv, hb⟩, hrest⟩
      exact ⟨[v], Items.values_item_iff.mpr ⟨v, [], hv, hrest, rfl⟩,
        readItems_item_iff.mpr ⟨hb, rfl⟩⟩
    · rintro ⟨l, hl, he⟩
      obtain ⟨v, vs, hv, hvs, rfl⟩ := Items.values_item_iff.mp hl
      obtain ⟨hb, hnil⟩ := readItems_item_iff.mp he
      -- Sorting keeps the number of items, so nothing follows in the text either.
      rw [values_ofValues] at hnil
      cases vs with
      | nil => exact ⟨⟨v, hv, hb⟩, hvs⟩
      | cons w ws => cases hnil

theorem field?_isSome_iff {name : String} :
    (schema.field? name).isSome ↔ name = "passthrough" := by
  by_cases h : name = "passthrough"
  · subst h
    exact iff_of_true rfl rfl
  · simp [Schema.field?, schema, Field.of, h, Ne.symm h]

-- There is but one name to declare, so members without repetition are in order as they stand.
theorem entries_of_onlyDeclared {l : List (String × Json)} (hsingle : schema.Single (l.map Prod.fst))
    (hdeclared : ∀ name ∈ l.map Prod.fst, (schema.field? name).isSome) :
    (Table.ofList l).entries = l := by
  match l with
  | [] => rfl
  | [(k, v)] => rfl
  | (k, v) :: (k', v') :: rest =>
    have hk := field?_isSome_iff.mp (hdeclared k (by simp))
    have hk' := field?_isSome_iff.mp (hdeclared k' (by simp))
    have hsome : (schema.field? k).isSome := hdeclared k (by simp)
    have hne := ((Schema.single_cons_of_declared hsome).mp hsingle).1
    exact absurd (by simp [hk, hk']) hne

theorem schema_read_agrees {o : Outline} (h : OnlyDeclared o) :
    Reader.Agrees (schema.read {}) o := by
  obtain ⟨hsingle, hdeclared⟩ := h
  refine Schema.read_agrees_of_congr ?_ ?_
  · rintro start m rfl
    refine Schema.byValues (fun name member f _ hf => ?_) (.inr hdeclared)
    obtain rfl := List.mem_singleton.mp (Schema.mem_of_field? hf).1
    exact (Reader.bool_readsBy.agrees member).map _
  · rintro start m l rfl hl e
    have hnames : (Outline.object start m).names = l.map Prod.fst := names_of_values hl
    rw [hnames] at hsingle hdeclared
    rw [entries_of_onlyDeclared hsingle hdeclared]

theorem read_agrees {o : Outline} (h : OnlyDeclared o) : read.Agrees o := by
  intro e
  cases o with
  | array start items =>
    refine (readItems_iff_values items e).trans ?_
    constructor
    · rintro ⟨l, hl, he⟩
      exact ⟨.array l, map_eq_ok_iff.mpr ⟨l, hl, rfl⟩, he⟩
    · rintro ⟨v, hv, he⟩
      obtain ⟨l, hl, rfl⟩ := map_eq_ok_iff.mp hv
      exact ⟨l, hl, he⟩
  | scalar l =>
    refine (schema_read_agrees h e).trans (exists_congr fun v => and_congr_right fun hv => ?_)
    obtain ⟨x, -, rfl⟩ := map_eq_ok_iff.mp hv
    cases x <;> rfl
  | object start m =>
    refine (schema_read_agrees h e).trans (exists_congr fun v => and_congr_right fun hv => ?_)
    obtain ⟨l, -, rfl⟩ := map_eq_ok_iff.mp hv
    rfl

end StreamOptions

/-- No declared name is repeated, and the options have no others. -/
def StreamSettings.Unambiguous (o : Outline) : Prop :=
  schema.Single o.names ∧
    ∀ m ∈ o.members, m.1 = "options" → StreamOptions.OnlyDeclared m.2

instance (o : Outline) : Decidable (StreamSettings.Unambiguous o) :=
  inferInstanceAs (Decidable (_ ∧ _))

theorem StreamSettings.read_agrees {o : Outline} (h : Unambiguous o) : read.Agrees o := by
  refine layout.read_agrees h.1 ?_
  change ∀ p ∈ parts, _
  simp only [parts, List.forall_mem_cons, Part.always, Part.optional]
  exact ⟨fun _ _ => Reader.string_readsBy.agrees _,
    fun _ _ => (Reader.string_readsBy.agrees _).option,
    fun _ _ => (Reader.string_readsBy.agrees _).option,
    fun _ _ => (Reader.string_readsBy.agrees _).option,
    fun _ _ => (Reader.bool_readsBy.agrees _).option,
    fun _ hoptions => (StreamOptions.read_agrees (h.2 _ hoptions rfl)).option, List.forall_mem_nil _⟩

theorem Stream.read_agrees {o : Outline} (h : schema.Single o.names) : read.Agrees o := by
  refine layout.read_agrees h ?_
  change ∀ p ∈ parts, _
  simp only [parts, List.forall_mem_cons, Part.always, Part.optional, Part.text]
  exact ⟨fun _ _ => Reader.string_readsBy.agrees _, fun _ _ => Reader.string_readsBy.agrees _,
    fun _ _ => Reader.string_readsBy.agrees _, fun _ _ => (Reader.int64_readsBy.agrees _).option,
    List.forall_mem_nil _⟩

theorem Transcoder.read_agrees {o : Outline} (h : schema.Single o.names) : read.Agrees o := by
  refine layout.read_agrees h ?_
  change ∀ p ∈ parts, _
  simp only [parts, List.forall_mem_cons, Part.always]
  exact ⟨fun _ _ => Reader.string_readsBy.agrees _, fun _ _ => Reader.int64_readsBy.agrees _,
    fun _ _ => Assignment.read_agrees _, List.forall_mem_nil _⟩

theorem Fanout.read_agrees {o : Outline} (h : schema.Single o.names) : read.Agrees o := by
  refine layout.read_agrees h ?_
  change ∀ p ∈ parts, _
  simp only [parts, List.forall_mem_cons, Part.always, Part.text]
  exact ⟨fun _ _ => Reader.string_readsBy.agrees _, fun _ _ => Reader.string_readsBy.agrees _,
    List.forall_mem_nil _⟩

/-! ## 4. Texts -/

/-- A reader finds in a text what it finds in the value of the text, and fails where either does. -/
def Json.ReadsAlike {α : Type} (r : Reader α) (text : String) : Prop :=
  ∀ a, readText r text.toList = .ok a ↔ ∃ v, parse text = .ok v ∧ readValue r v = .ok a

/-- **Entities are read alike from a text and from its value.** -/
theorem readText_iff_parse (text : String) :
    (Stream.schema.Single (Outline.ofText text.toList).names → ReadsAlike Stream.read text) ∧
      (Transcoder.schema.Single (Outline.ofText text.toList).names →
        ReadsAlike Transcoder.read text) ∧
      (Fanout.schema.Single (Outline.ofText text.toList).names → ReadsAlike Fanout.read text) ∧
      (StreamSettings.Unambiguous (Outline.ofText text.toList) →
        ReadsAlike StreamSettings.read text) ∧
      (StreamOptions.OnlyDeclared (Outline.ofText text.toList) →
        ReadsAlike StreamOptions.read text) ∧
      ReadsAlike Assignment.read text :=
  ⟨fun h => readText_iff_of_agrees (Stream.read_agrees h),
    fun h => readText_iff_of_agrees (Transcoder.read_agrees h),
    fun h => readText_iff_of_agrees (Fanout.read_agrees h),
    fun h => readText_iff_of_agrees (StreamSettings.read_agrees h),
    fun h => readText_iff_of_agrees (StreamOptions.read_agrees h),
    readText_iff_of_agrees (Assignment.read_agrees _)⟩

/-- Undeclared names may be repeated at any depth. -/
theorem readText_iff_parse_repeated :
    let text :=
      "\x7b\"slug\":\"a\",\"n\":0,\"notes\":null,\"n\":\x7b\"k\":[],\"k\":-9223372036854775808\x7d\x7d"
    let names := (Outline.ofText text.toList).names
    let least : Json := .number (.integer ⟨-9223372036854775808, by decide, by decide⟩)
    let options := "\x7b \"passthrough\" : true\x7d"
    (Stream.schema.Single names ∧ ReadsAlike Stream.read text) ∧
      (Transcoder.schema.Single names ∧ ReadsAlike Transcoder.read text) ∧
      (Fanout.schema.Single names ∧ ReadsAlike Fanout.read text) ∧
      (StreamSettings.Unambiguous (Outline.ofText text.toList) ∧
        ∃ v, parse text = .ok v ∧ readValue StreamSettings.read v =
          .ok { slug := "a", extra := .ofList [("n", .object [("k", least)])] }) ∧
      (StreamOptions.OnlyDeclared (Outline.ofText options.toList) ∧
        ∃ v, parse options = .ok v ∧ readValue StreamOptions.read v = .ok ⟨true⟩) := by
  intro text names least options
  have hstream : Stream.schema.Single names := by decide +kernel
  have htranscoder : Transcoder.schema.Single names := by decide +kernel
  have hfanout : Fanout.schema.Single names := by decide +kernel
  have hsettings : StreamSettings.Unambiguous (Outline.ofText text.toList) := by decide +kernel
  have hoptions : StreamOptions.OnlyDeclared (Outline.ofText options.toList) := by decide +kernel
  obtain ⟨stream, transcoder, fanout, settings, -⟩ := readText_iff_parse text
  obtain ⟨-, -, -, -, readOptions, -⟩ := readText_iff_parse options
  refine ⟨⟨hstream, stream hstream⟩, ⟨htranscoder, transcoder htranscoder⟩,
    ⟨hfanout, fanout hfanout⟩, ⟨hsettings, (settings hsettings _).mp ?_⟩,
    ⟨hoptions, (readOptions hoptions _).mp ?_⟩⟩
  · exact toOption_eq_some_iff.mp (by decide +kernel)
  · exact toOption_eq_some_iff.mp (by decide +kernel)

end StreamBoard

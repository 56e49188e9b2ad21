import StreamBoard.Board.Action
import StreamBoard.Proofs.Board.LastWriter
import StreamBoard.Proofs.Entity.RoundTrip

/-!
# LenientView — a view is what its field reads as

However a board was written, taking a field into its view again changes nothing (`ViewedAt`), so
every view is the lenient reading of its field.  The settings are the exception: after a list of
settings their field is written from the view, and settings with a declared name among their
undeclared members are not read from their document as they were.  Such settings come from no text,
no value and no builder (`StreamSettings.Made.proper`), but a list may hold them.  So for the
settings the reading is told slug by slug, from the list that is in force (`SettingsFrom`).  Fields
without a view keep to themselves, and the written board has every key once.
-/

namespace StreamBoard

open Json

/-- `view` has the entries of an object that read with `r`, under their keys, and is empty for a
field that is no object. -/
def LenientReading {α : Type} (r : Reader α) (field : Option Json) (view : Table α) : Prop :=
  ∀ id entity, view.find? id = some entity ↔
    ∃ members v, field = some (.object members) ∧ (Table.ofList members).find? id = some v ∧
      readValue r v = .ok entity

/-- What `LenientReading` says of one key. -/
def LenientEntry {α : Type} (r : Reader α) (field : Option Json) (view : Table α) (id : String) :
    Prop :=
  ∀ entity, view.find? id = some entity ↔
    ∃ members v, field = some (.object members) ∧ (Table.ofList members).find? id = some v ∧
      readValue r v = .ok entity

/-- What writes to a board: an action, or the replacement of one field. -/
inductive Write
  | action (action : Action)
  | replace (key : String) (value : Json)

/-- The list that a write puts in place of all settings; a value that is pushed for them leaves no
list in force. -/
def Write.list? : Write → Option (List StreamSettings)
  | .action (.updatedStreamSettings list) => some list
  | .action (.updateState fragment) =>
    (fragment.find? MapKey.streamSettings.name).map fun _ => []
  | .replace key _ => if key = MapKey.streamSettings.name then some [] else none
  | .action _ => none

namespace Board

/-- A refused replacement leaves the board as it is. -/
def write (b : Board) : Write → Board
  | .action a => b.step a
  | .replace key value => b.put key value

def writes (b : Board) (l : List Write) : Board := l.foldl write b

/-- The last list of settings; empty, if a value was pushed for the settings since, or none came. -/
def listInForce (writes : List Write) : List StreamSettings :=
  (lastWrite? Write.list? writes).getD []

/-- The settings of a list under a slug, if there are any, are such as reading and building make
them: none of their undeclared members bears a declared name. -/
def ProperUnder (list : List StreamSettings) (slug : String) : Prop :=
  ∀ s, (settingsBySlug list).find? slug = some s → s.Proper

/-! ## 1. Views and fields -/

theorem entities_find? {α : Type} (r : Reader α) (value : Json) (id : String) :
    (entities r value).find? id =
      (value.members?.bind (·.find? id)).bind fun v => (readValue r v).toOption := by
  cases value <;> first | rfl | exact Table.find?_filterMap _ _ id

theorem lenientReading_entities {α : Type} (r : Reader α) (value : Json) :
    LenientReading r (some value) (entities r value) := by
  intro id entity
  rw [entities_find?]
  cases value with
  | object members =>
    simp only [members?, Option.bind_some, Option.bind_eq_some_iff, Option.some.injEq,
      Json.object.injEq]
    constructor
    · rintro ⟨v, hv, hread⟩
      exact ⟨members, v, rfl, hv, toOption_eq_some_iff.mp hread⟩
    · rintro ⟨_, v, rfl, hv, hread⟩
      exact ⟨v, hv, toOption_eq_some_iff.mpr hread⟩
  | _ => simp [members?]

theorem field_name (b : Board) (k : MapKey) :
    b.field k.name = some ((b.pushed.find? k.name).getD (b.viewDocument k).ordered) := by
  simp only [field, MapKey.ofName?_name]
  cases b.pushed.find? k.name <;> rfl

theorem view_view_self (b : Board) (k : MapKey) (v w : Json) :
    (b.view k v).view k w = b.view k w := by
  cases k <;> rfl

theorem view_comm (b : Board) {k l : MapKey} (h : l ≠ k) (v w : Json) :
    (b.view k v).view l w = (b.view l w).view k v := by
  cases k <;> cases l <;> first | rfl | exact absurd rfl h

theorem view_with_pushed (b : Board) (k : MapKey) (v : Json) (pushed : Table Json) :
    view { b with pushed } k v = { b.view k v with pushed } := by
  cases k <;> rfl

theorem view_with_extra (b : Board) (k : MapKey) (v : Json) (extra : Table Json) :
    view { b with extra } k v = { b.view k v with extra } := by
  cases k <;> rfl

theorem view_with_connected (b : Board) (k : MapKey) (v : Json) (connected : Bool) :
    view { b with connected } k v = { b.view k v with connected } := by
  cases k <;> rfl

theorem view_setSettings (b : Board) {k : MapKey} (h : k ≠ .streamSettings) (v : Json)
    (settings : Table StreamSettings) :
    (b.setSettings settings).view k v = (b.view k v).setSettings settings := by
  cases k <;> first | rfl | exact absurd rfl h

theorem view_put_self (b : Board) (k : MapKey) (value : Json) :
    (b.put k.name value).view k value = b.put k.name value := by
  rw [put_name, view_with_pushed, view_view_self]

/-- Writing another field and making a view change places. -/
theorem view_put_of_ne (b : Board) {key : String} {l : MapKey} (h : key ≠ l.name)
    (value w : Json) : (b.put key value).view l w = (b.view l w).put key value := by
  rcases key_cases key with ⟨k, rfl⟩ | rfl | ⟨hkey, hflag⟩
  · have hlk : l ≠ k := fun heq => h (by rw [heq])
    simp only [put_name, view_with_pushed, b.view_comm hlk, view_pushed]
  · simp only [put_connectedKey]
  · simp only [put_extra _ hkey hflag, view_with_extra, view_extra]

/-! ## 2. Taking a field into its view again -/

/-- The field has nothing for its view that is not there already. -/
def ViewedAt (b : Board) (k : MapKey) : Prop :=
  ∀ value, b.field k.name = some value → b.view k value = b

theorem ViewedAt.lenientReading {b : Board} {k : MapKey} (h : b.ViewedAt k) {α : Type}
    {r : Reader α} {view : Board → Table α} (hview : ∀ v, view (b.view k v) = entities r v) :
    LenientReading r (b.field k.name) (view b) := by
  have heq := congrArg view (h _ (b.field_name k))
  rw [hview] at heq
  rw [field_name, ← heq]
  exact lenientReading_entities r _

theorem viewedAt_blank (k : MapKey) : ViewedAt {} k := by
  intro value h
  rw [field_blank, isKnownKey_name, if_pos rfl] at h
  cases h
  cases k <;> rfl

theorem ViewedAt.put {b : Board} {l : MapKey} (h : b.ViewedAt l) (key : String) (value : Json) :
    (b.put key value).ViewedAt l := by
  intro w hw
  by_cases hkey : key = l.name
  · -- The field is the value that the view was just made from.
    subst hkey
    have hfield : (b.put l.name value).field l.name = some value := by
      rw [field_name, put_name]
      simp
    rw [hfield] at hw
    cases hw
    exact b.view_put_self l value
  · rw [b.field_put_of_ne value (Ne.symm hkey)] at hw
    rw [b.view_put_of_ne hkey, h w hw]

theorem ViewedAt.connected {b : Board} {l : MapKey} (h : b.ViewedAt l) (connected : Bool) :
    ViewedAt { b with connected } l := by
  intro w hw
  rw [b.field_connected_of_ne connected (name_ne_connectedKey l)] at hw
  rw [view_with_connected, h w hw]

theorem ViewedAt.setSettings {b : Board} {l : MapKey} (h : b.ViewedAt l) (hl : l ≠ .streamSettings)
    (settings : Table StreamSettings) : (b.setSettings settings).ViewedAt l := by
  intro w hw
  have hne : l.name ≠ MapKey.streamSettings.name := fun heq => hl (MapKey.name_injective heq)
  rw [b.field_setSettings_of_ne settings hne] at hw
  rw [view_setSettings b hl, h w hw]

theorem ViewedAt.updateState {b : Board} {l : MapKey} (h : b.ViewedAt l) (fragment : Fragment) :
    (b.step (.updateState fragment)).ViewedAt l := by
  rw [step_updateState]
  exact foldl_keeps (fun s : Board => s.ViewedAt l) (fun _ m _ hs => hs.put m.1 m.2) h

theorem ViewedAt.step {b : Board} {l : MapKey} (h : b.ViewedAt l) (hl : l ≠ .streamSettings)
    (a : Action) : (b.step a).ViewedAt l := by
  cases a with
  | updateState fragment => exact h.updateState fragment
  | socketConnected => rw [step_of_lifecycle? b rfl]; exact h.connected true
  | socketDisconnected => rw [step_of_lifecycle? b rfl]; exact h.connected false
  | updatedStreamSettings list => exact h.setSettings hl _
  | setStreamSettings _ => exact h
  | fetchError _ => exact h

theorem viewedAt_writes (writes : List Write) {l : MapKey} (hl : l ≠ .streamSettings) :
    (Board.writes {} writes).ViewedAt l := by
  refine foldl_keeps (fun b : Board => b.ViewedAt l) (fun b w _ h => ?_) (viewedAt_blank l)
  cases w with
  | action a => exact h.step hl a
  | replace key value => exact h.put key value

theorem separated_writes (writes : List Write) : (Board.writes {} writes).Separated := by
  refine foldl_keeps Separated (fun b w _ h => ?_) separated_blank
  cases w with
  | action a => exact h.step a
  | replace key value => exact h.put key value

/-! ## 3. Settings of a list -/

theorem find?_entities_mapDocument {α : Type} (r : Reader α) (document : α → Json) (t : Table α)
    (id : String) :
    (entities r (mapDocument document t).ordered).find? id =
      (t.find? id).bind fun e => (readValue r (document e).ordered).toOption := by
  rw [mapDocument, ordered_ofTable, entities_find?]
  simp only [ofTable, members?, Table.ofList_entries, Option.bind_some, Table.find?_map]
  cases t.find? id <;> rfl

/-- Settings come back under their slug if they are proper, and only then. -/
theorem find?_settingsDocument_iff {t : Table StreamSettings} {slug : String} :
    (entities StreamSettings.read (mapDocument StreamSettings.document t).ordered).find? slug =
        t.find? slug ↔
      ∀ s, t.find? slug = some s → s.Proper := by
  rw [find?_entities_mapDocument]
  cases t.find? slug with
  | none => exact iff_of_true rfl nofun
  | some s =>
    rw [Option.bind_some, toOption_eq_some_iff, StreamSettings.readValue_document_iff]
    constructor
    · rintro h _ ⟨⟩
      exact h
    · exact fun h => h s rfl

/-- The settings on the board are those of the list, or what a pushed value reads as; then the list
is empty. -/
inductive SettingsFrom (b : Board) : List StreamSettings → Prop
  | pushed {value : Json} (hpushed : b.pushed.find? MapKey.streamSettings.name = some value)
    (hview : b.streamSettings = entities StreamSettings.read value) : SettingsFrom b []
  | list {list : List StreamSettings}
    (hpushed : b.pushed.find? MapKey.streamSettings.name = none)
    (hview : b.streamSettings = settingsBySlug list) : SettingsFrom b list

theorem streamSettings_put_of_ne (b : Board) {key : String} (value : Json)
    (h : key ≠ MapKey.streamSettings.name) :
    (b.put key value).streamSettings = b.streamSettings := by
  rcases key_cases key with ⟨k, rfl⟩ | rfl | ⟨hkey, hflag⟩
  · rw [put_name]
    cases k <;> first | rfl | exact absurd rfl h
  · rw [put_connectedKey]
  · rw [put_extra b hkey hflag]

/-- A fragment is a replacement of each of its fields. -/
theorem lastWrite?_replace (fragment : Fragment) :
    lastWrite? (fun m => (Write.replace m.1 m.2).list?)
        (fragment.erase Fragment.typeKey).entries =
      (Write.action (.updateState fragment)).list? := by
  have hlookup :
      (fragment.erase Fragment.typeKey).entries.reverse.lookup MapKey.streamSettings.name =
        fragment.find? MapKey.streamSettings.name := by
    rw [Table.lookup_reverse_of_nodup (fragment.erase Fragment.typeKey).nodup_keys]
    exact (Table.find?_erase ..).trans (if_neg (name_ne_typeKey _))
  rw [Write.list?, ← hlookup, List.lookup_eq_findSome?, List.map_findSome?, lastWrite?]
  congr 1
  funext m
  by_cases hm : m.1 = MapKey.streamSettings.name
  · simp [Write.list?, hm]
  · simp [Write.list?, hm, Ne.symm hm]

section SettingsFrom

variable {b c : Board} {list : List StreamSettings}

theorem SettingsFrom.congr (h : b.SettingsFrom list)
    (hpushed : c.pushed.find? MapKey.streamSettings.name =
      b.pushed.find? MapKey.streamSettings.name)
    (hview : c.streamSettings = b.streamSettings) : c.SettingsFrom list := by
  cases h with
  | pushed hp hv => exact .pushed (hpushed.trans hp) (hview.trans hv)
  | list hp hv => exact .list (hpushed.trans hp) (hview.trans hv)

theorem SettingsFrom.put (h : b.SettingsFrom list) (key : String) (value : Json) :
    (b.put key value).SettingsFrom ((Write.replace key value).list?.getD list) := by
  by_cases hkey : key = MapKey.streamSettings.name
  · subst hkey
    rw [put_name]
    exact .pushed (Table.find?_insert_self ..) rfl
  · rw [Write.list?, if_neg hkey]
    exact h.congr (b.find?_pushed_put_of_ne value (Ne.symm hkey))
      (b.streamSettings_put_of_ne value hkey)

theorem SettingsFrom.write (h : b.SettingsFrom list) (w : Write) :
    (b.write w).SettingsFrom (w.list?.getD list) := by
  cases w with
  | replace key value => exact h.put key value
  | action a =>
    rw [Board.write]
    cases a with
    | updateState fragment =>
      rw [step_updateState, ← lastWrite?_replace]
      exact foldl_relates SettingsFrom _ (fun _ _ m hs => hs.put m.1 m.2) _ h
    | socketConnected => rw [step_of_lifecycle? b rfl]; exact h.congr rfl rfl
    | socketDisconnected => rw [step_of_lifecycle? b rfl]; exact h.congr rfl rfl
    | updatedStreamSettings list =>
      have hpushed : (b.step (.updatedStreamSettings list)).pushed.find?
          MapKey.streamSettings.name = none := by
        show (b.pushed.erase _).find? _ = none
        rw [Table.find?_erase, if_pos rfl]
      exact .list hpushed rfl
    | setStreamSettings _ => exact h
    | fetchError _ => exact h

/-- **The settings on a written board are those of the list in force,** unless they were pushed. -/
theorem settingsFrom_writes (writes : List Write) :
    (Board.writes {} writes).SettingsFrom (listInForce writes) :=
  foldl_relates SettingsFrom Write.list? (fun _ _ w h => h.write w) writes (.list rfl rfl)

/-- Settings that were pushed have been taken into their view. -/
theorem SettingsFrom.view_pushed (h : b.SettingsFrom list) {value : Json}
    (hvalue : b.pushed.find? MapKey.streamSettings.name = some value) :
    b.view .streamSettings value = b := by
  cases h with
  | pushed hpushed hview =>
    rw [hpushed] at hvalue
    cases hvalue
    rw [view, ← hview]
  | list hpushed _ =>
    rw [hpushed] at hvalue
    cases hvalue

theorem SettingsFrom.proper_iff (h : b.SettingsFrom list) {slug : String} :
    (∀ s, b.streamSettings.find? slug = some s → s.Proper) ↔ ProperUnder list slug := by
  cases h with
  | pushed _ hview =>
    -- What was read is proper, and under the empty list there is nothing to ask for.
    refine iff_of_true (fun s hs => ?_) nofun
    rw [hview, entities_find?] at hs
    obtain ⟨v, -, hv⟩ := Option.bind_eq_some_iff.mp hs
    exact StreamSettings.proper_of_read (toOption_eq_some_iff.mp hv)
  | list _ hview => rw [hview, ProperUnder]

/-- **Settings are what their field reads as, under each slug that has proper ones.** -/
theorem SettingsFrom.lenientEntry_iff (h : b.SettingsFrom list) {slug : String} :
    LenientEntry StreamSettings.read (b.field MapKey.streamSettings.name) b.streamSettings slug ↔
      ProperUnder list slug := by
  rw [← h.proper_iff]
  constructor
  · intro hentry s hs
    obtain ⟨_, _, -, -, hread⟩ := (hentry s).mp hs
    exact StreamSettings.proper_of_read hread
  · intro hproper
    have hsame : (entities StreamSettings.read
        ((b.pushed.find? MapKey.streamSettings.name).getD
          (b.viewDocument .streamSettings).ordered)).find? slug = b.streamSettings.find? slug := by
      cases h with
      | pushed hpushed hview =>
        rw [hpushed, hview]
        rfl
      | list hpushed _ =>
        rw [hpushed]
        exact find?_settingsDocument_iff.mpr hproper
    rw [field_name]
    intro s
    rw [← hsame]
    exact lenientReading_entities _ _ slug s

end SettingsFrom

/-- Lists of settings that were read or built are proper under each slug. -/
theorem properUnder_of_made {list : List StreamSettings} (h : ∀ s ∈ list, s.Made) (slug : String) :
    ProperUnder list slug := by
  intro s hs
  -- Of equal slugs one counts; whichever it is, it comes from the list.
  obtain ⟨s', hs', heq⟩ := List.mem_map.mp (mem_of_find?_ofList hs)
  cases heq
  exact (h s hs').proper

/-! ## 4. The written board -/

theorem field_of_unmodelled {b : Board} (h : b.Separated) {key : String}
    (hkey : isKnownKey key = false) (hflag : key ≠ connectedKey) :
    b.field key = b.extra.find? key := by
  have hname : MapKey.ofName? key = none := by simpa [isKnownKey] using hkey
  simp [field, h.pushed key hname, hname, hflag]

theorem mem_names_iff {key : String} :
    key ∈ MapKey.all.map MapKey.name ↔ isKnownKey key = true := by
  rw [isKnownKey_iff, List.mem_map]
  constructor
  · rintro ⟨k, -, rfl⟩
    exact ⟨k, rfl⟩
  · rintro ⟨k, rfl⟩
    exact ⟨k, by cases k <;> decide, rfl⟩

/-- The names of the views, the flag and the fields without a view are different from each other. -/
theorem Separated.nodup_names {b : Board} (h : b.Separated) :
    (MapKey.all.map MapKey.name ++ connectedKey :: b.extra.keys).Nodup := by
  have hextra {key : String} (hkey : isKnownKey key = true ∨ key = connectedKey) :
      key ∉ b.extra.keys := by
    simp [Table.mem_keys_iff, Table.contains, h.extra key hkey]
  refine List.nodup_append.mpr
    ⟨by decide, List.nodup_cons.mpr ⟨hextra (.inr rfl), b.extra.nodup_keys⟩, ?_⟩
  rintro name hname key hkey rfl
  have hknown := mem_names_iff.mp hname
  rcases List.mem_cons.mp hkey with rfl | hkey
  · simp [isKnownKey] at hknown
  · exact hextra (.inl hknown) hkey

/-- The board is written with every key once, and a field without a view as it is. -/
theorem Separated.document_members {b : Board} (h : b.Separated) :
    ∃ members, b.document = .object members ∧ (members.map Prod.fst).Nodup ∧
      ∀ key, isKnownKey key = false → key ≠ connectedKey →
        members.lookup key = b.field key := by
  refine ⟨_, rfl, ?_, fun key hkey hflag => ?_⟩
  · have hkeys : ((MapKey.all.map fun k => (k.name, b.viewDocument k)) ++
        (connectedKey, Json.bool b.connected) :: b.extra.entries).map Prod.fst =
        MapKey.all.map MapKey.name ++ connectedKey :: b.extra.keys := by
      simp [Function.comp_def, Table.keys]
    rw [hkeys]
    exact h.nodup_names
  · have hviews : (MapKey.all.map fun k => (k.name, b.viewDocument k)).lookup key = none := by
      refine Table.lookup_eq_none_of_not_mem fun hmem => ?_
      rw [List.map_map] at hmem
      simp [mem_names_iff.mp hmem] at hkey
    rw [List.lookup_append, hviews, Option.none_or, Table.lookup_cons_eq_ite, if_neg hflag,
      field_of_unmodelled h hkey hflag]
    rfl

/-- **The views read as the fields say,** and the board is written with every key once.  For the
settings this holds of a slug if and only if those of the list in force under it are proper, as all
settings are that were read or built. -/
theorem view_reads_field (writes : List Write) :
    let b := Board.writes {} writes
    (LenientReading Stream.read (b.field MapKey.streams.name) b.streams ∧
      LenientReading Transcoder.read (b.field MapKey.transcoders.name) b.transcoders ∧
      LenientReading Reader.string (b.field MapKey.streamTranscoders.name) b.streamTranscoders ∧
      LenientReading Fanout.read (b.field MapKey.fanouts.name) b.fanouts) ∧
    (∀ slug, LenientEntry StreamSettings.read (b.field MapKey.streamSettings.name)
      b.streamSettings slug ↔ ProperUnder (listInForce writes) slug) ∧
    ((∀ s ∈ listInForce writes, s.Made) →
      LenientReading StreamSettings.read (b.field MapKey.streamSettings.name) b.streamSettings) ∧
    (∀ key, isKnownKey key = true ∨ key = connectedKey → b.extra.find? key = none) ∧
    ∃ members, b.document = .object members ∧ (members.map Prod.fst).Nodup ∧
      ∀ key, isKnownKey key = false → key ≠ connectedKey →
        members.lookup key = b.field key := by
  intro b
  have hview (k : MapKey) (hk : k ≠ .streamSettings) : b.ViewedAt k := viewedAt_writes writes hk
  have hfrom : b.SettingsFrom (listInForce writes) := settingsFrom_writes writes
  have hseparated : b.Separated := separated_writes writes
  refine ⟨⟨?_, ?_, ?_, ?_⟩, fun slug => hfrom.lenientEntry_iff, fun hmade slug => ?_,
    hseparated.extra, hseparated.document_members⟩
  · exact (hview .streams nofun).lenientReading fun _ => rfl
  · exact (hview .transcoders nofun).lenientReading fun _ => rfl
  · exact (hview .streamTranscoders nofun).lenientReading fun _ => rfl
  · exact (hview .fanouts nofun).lenientReading fun _ => rfl
  · exact hfrom.lenientEntry_iff.mpr (properUnder_of_made hmade slug)

/-- A pushed entry that does not read, a refused replacement, and two lists: the settings of the
first one are not what their document reads as, those of the second one replace them. -/
theorem view_reads_field_settings :
    ∃ members v,
      (Board.writes {}
        [.action (.updateState (.ofList [("streamSettings", .object [("a", .null)])])),
          .replace connectedKey (.bool true),
          .action (.updatedStreamSettings [{ slug := "a", extra := .ofList [("slug", .null)] }]),
          .action (.updatedStreamSettings [{ slug := "a", notes := some "n" }])]).field
        MapKey.streamSettings.name = some (.object members) ∧
      (Table.ofList members).find? "a" = some v ∧
      readValue StreamSettings.read v = .ok { slug := "a", notes := some "n" } := by
  refine ((view_reads_field _).2.2.1 ?_ "a" _).mp (by decide +kernel)
  intro s hs
  rw [List.mem_singleton.mp hs]
  exact .withNotes (.new "a") "n"

/-- Settings whose undeclared member is written over the slug: the board shows them, and what stands
for them in the field does not read. -/
theorem not_lenientReading_of_null_slug :
    let s : StreamSettings := { slug := "a", extra := .ofList [("slug", .null)] }
    let b := Board.writes {} [.action (.updatedStreamSettings [s])]
    b.streamSettings.find? "a" = some s ∧
      b.field MapKey.streamSettings.name = some (.object [("a", .object [("slug", .null)])]) ∧
      ¬ LenientReading StreamSettings.read (b.field MapKey.streamSettings.name)
        b.streamSettings := by
  intro s b
  refine ⟨by decide +kernel, by decide +kernel, fun h => ?_⟩
  have hproper : ProperUnder [s] "a" := (settingsFrom_writes [_]).lenientEntry_iff.mp (h "a")
  have hslug : s.extra.find? "slug" = none := (hproper s rfl).undeclared "slug" rfl
  cases hslug

end Board

end StreamBoard

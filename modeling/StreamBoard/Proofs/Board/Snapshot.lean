import StreamBoard.Proofs.Entity.Pipeline
import StreamBoard.Proofs.Board.LenientView

/-!
# Snapshot — a written board is a fragment that makes the board again

A board is written from its views, so what was pushed and does not read is not in its document.
Nothing that is shown is lost by that: applied as a fragment to a new board, the document gives the
same views and the same other fields, and that board is written as the first one was.  Views come
back because their entities do (`view_viewDocument`); the discriminator and the connection flag do
not, since no fragment writes them.  Settings come back slug by slug: those of a list that have a
declared name among their undeclared members are lost, or become other settings.
-/

namespace StreamBoard

open Json

namespace Board

/-! ## 1. Documents of views -/

/-- Entities that come back from their documents come back from the document of a view. -/
theorem entities_mapDocument {α : Type} {r : Reader α} {document : α → Json} {t : Table α}
    (h : ∀ key e, t.find? key = some e → readValue r (document e).ordered = .ok e) :
    entities r (mapDocument document t).ordered = t := by
  refine Table.ext_find? fun id => ?_
  rw [find?_entities_mapDocument]
  cases he : t.find? id with
  | none => rfl
  | some e =>
    rw [Option.bind_some, h id e he]
    rfl

/-- Entities that were read are read from the document of their view as they were. -/
theorem entities_of_layout {α : Type} {σ : Schema α} {blank : α} {document : α → Json}
    (L : Layout σ blank document) {field : Option Json} {t : Table α}
    (h : LenientReading (σ.read blank) field t) :
    entities (σ.read blank) (mapDocument document t).ordered = t := by
  refine entities_mapDocument fun id e he => ?_
  obtain ⟨-, v, -, -, hv⟩ := (h id e).mp he
  exact L.readValue_document (L.admits_of_read hv)

/-- **A view is what its own document reads as.** -/
theorem view_viewDocument {b : Board} {k : MapKey} (hviewed : b.ViewedAt k)
    (hk : k ≠ .streamSettings) : b.view k (b.viewDocument k).ordered = b := by
  cases k with
  | streams =>
    have hview : entities Stream.read (b.viewDocument .streams).ordered = b.streams :=
      entities_of_layout Stream.layout (hviewed.lenientReading fun _ => rfl)
    rw [view, hview]
  | transcoders =>
    have hview : entities Transcoder.read (b.viewDocument .transcoders).ordered = b.transcoders :=
      entities_of_layout Transcoder.layout (hviewed.lenientReading fun _ => rfl)
    rw [view, hview]
  | streamTranscoders =>
    have hview : entities Reader.string (b.viewDocument .streamTranscoders).ordered =
        b.streamTranscoders := entities_mapDocument fun _ _ _ => rfl
    rw [view, hview]
  | fanouts =>
    have hview : entities Fanout.read (b.viewDocument .fanouts).ordered = b.fanouts :=
      entities_of_layout Fanout.layout (hviewed.lenientReading fun _ => rfl)
    rw [view, hview]
  | streamSettings => exact absurd rfl hk

/-- What a view is made from says what its document is, whatever the board. -/
theorem viewDocument_view (b c : Board) (k : MapKey) (value : Json) :
    (b.view k value).viewDocument k = (c.view k value).viewDocument k := by
  cases k <;> rfl

/-! ## 2. The board as a fragment -/

/-- The members of the document as a value has them: each view in order, the flag, and the other
fields, which are values already. -/
def members (b : Board) : List (String × Json) :=
  MapKey.all.map (fun k => (k.name, (b.viewDocument k).ordered)) ++
    (connectedKey, .bool b.connected) :: b.extra.entries

/-- The board as it is written, taken as a fragment. -/
def asFragment (b : Board) : Fragment := .ofList b.members

/-- **The fragment is the document.**  The two differ in the order of members only, and so they are
the same value. -/
theorem ordered_asFragment (b : Board) : (ofTable b.asFragment).ordered = b.document.ordered := by
  have hviews : (MapKey.all.map fun k => (k.name, (b.viewDocument k).ordered)).map
      (fun m => (m.1, m.2.ordered)) =
        (MapKey.all.map fun k => (k.name, b.viewDocument k)).map fun m => (m.1, m.2.ordered) := by
    rw [List.map_map, List.map_map]
    refine List.map_congr_left fun k _ => ?_
    exact congrArg (Prod.mk k.name) (ordered_of_ordered _ (ordered_ordered _))
  rw [ordered_ofTable, asFragment, Table.map_ofList, document, ordered_object, members,
    List.map_append, List.map_append, hviews]

theorem lookup_map_name (f : MapKey → Json) (keys : List MapKey) (key : String) :
    (keys.map fun k => (k.name, f k)).lookup key = (keys.find? fun k => k.name == key).map f := by
  induction keys with
  | nil => rfl
  | cons k rest ih =>
    rw [List.map_cons, Table.lookup_cons_eq_ite, ih, List.find?_cons]
    by_cases h : key = k.name
    · simp [h]
    · simp [h, beq_eq_false_iff_ne.mpr (Ne.symm h)]

/-- The fragment has the document of every view, the flag, and the fields without a view. -/
theorem Separated.find?_asFragment {b : Board} (h : b.Separated) (key : String) :
    b.asFragment.find? key = ((MapKey.ofName? key).map fun k => (b.viewDocument k).ordered).or
      (if key = connectedKey then some (.bool b.connected) else b.extra.find? key) := by
  have hnodup : (b.members.map Prod.fst).Nodup := by
    have hkeys : b.members.map Prod.fst =
        MapKey.all.map MapKey.name ++ connectedKey :: b.extra.keys := by
      simp [members, Function.comp_def, Table.keys]
    rw [hkeys]
    exact h.nodup_names
  rw [asFragment, Table.find?_ofList_of_nodup hnodup, members, List.lookup_append,
    lookup_map_name, Table.lookup_cons_eq_ite]
  rfl

/-! ## 3. The board that the fragment makes -/

/-- The new board with everything that the fragment of another one writes. -/
def restored (b : Board) : Board := ({} : Board).step (.updateState b.asFragment)

section Restored

variable {b : Board}

theorem separated_restored (b : Board) : b.restored.Separated :=
  separated_blank.step _

theorem Separated.field_restored (h : b.Separated) {key : String} (htype : key ≠ Fragment.typeKey)
    (hflag : key ≠ connectedKey) :
    b.restored.field key =
      ((MapKey.ofName? key).map fun k => (b.viewDocument k).ordered).or (b.extra.find? key) := by
  have hfield := separated_blank.field_updateState b.asFragment htype hflag
  rw [h.find?_asFragment, if_neg hflag, field_blank, if_neg hflag] at hfield
  rw [restored, hfield, isKnownKey]
  cases MapKey.ofName? key with
  | some k => rfl
  | none => cases b.extra.find? key <;> rfl

/-- Every view of the new board is what the document of that view reads as. -/
theorem Separated.view_restored (h : b.Separated) (k : MapKey) :
    b.restored.view k (b.viewDocument k).ordered = b.restored := by
  have hfield := h.field_restored (name_ne_typeKey k) (name_ne_connectedKey k)
  rw [MapKey.ofName?_name] at hfield
  exact (viewedAt_blank k).updateState b.asFragment _ hfield

/-- What a board has of a view comes back, if the view is what its own document reads as. -/
theorem Separated.part_restored (h : b.Separated) {k : MapKey}
    (hview : b.view k (b.viewDocument k).ordered = b) {α : Type} (part : Board → α)
    (hpart : ∀ c value, part (Board.view c k value) = part (b.view k value)) :
    part b.restored = part b := by
  calc part b.restored
      = part (b.restored.view k (b.viewDocument k).ordered) := by rw [h.view_restored k]
    _ = part (b.view k (b.viewDocument k).ordered) := hpart _ _
    _ = part b := by rw [hview]

/-- The settings that come back are those that the document of the settings reads as. -/
theorem Separated.streamSettings_restored (h : b.Separated) :
    b.restored.streamSettings =
      entities StreamSettings.read (b.viewDocument .streamSettings).ordered :=
  (congrArg streamSettings (h.view_restored .streamSettings)).symm

theorem Separated.extra_restored (h : b.Separated) :
    b.restored.extra = b.extra.erase Fragment.typeKey := by
  refine Table.ext_find? fun key => ?_
  rw [Table.find?_erase]
  by_cases hmodelled : isKnownKey key = true ∨ key = connectedKey
  · rw [(separated_restored b).extra key hmodelled, h.extra key hmodelled, ite_self]
  · obtain ⟨hkey, hflag⟩ := not_or.mp hmodelled
    have hname : MapKey.ofName? key = none := by simpa [isKnownKey] using hkey
    rw [← field_of_unmodelled (separated_restored b) (by simpa using hkey) hflag]
    by_cases htype : key = Fragment.typeKey
    · rw [if_pos htype, htype]
      exact field_run_type [.updateState b.asFragment]
    · rw [if_neg htype, h.field_restored htype hflag, hname]
      rfl

theorem connected_restored (b : Board) : b.restored.connected = false := by
  have hfield : b.restored.field connectedKey = some (.bool b.restored.connected) := by
    simp [field, (separated_restored b).pushed connectedKey ofName?_connectedKey]
  have hblank : b.restored.field connectedKey = ({} : Board).field connectedKey :=
    field_step_of_not_named _ (by simp [Action.names])
  have heq : some (Json.bool b.restored.connected) = some (.bool false) := hfield.symm.trans hblank
  simpa using heq

/-- A field is written as it was, but for the flag and the discriminator, if its view comes back. -/
theorem Separated.find?_asFragment_restored (h : b.Separated) {key : String}
    (hview : ∀ k : MapKey, key = k.name → b.restored.viewDocument k = b.viewDocument k) :
    b.restored.asFragment.find? key =
      ((b.asFragment.erase Fragment.typeKey).insert connectedKey (.bool false)).find? key := by
  have hviews : ((MapKey.ofName? key).map fun k => (b.restored.viewDocument k).ordered) =
      (MapKey.ofName? key).map fun k => (b.viewDocument k).ordered := by
    cases hk : MapKey.ofName? key with
    | none => rfl
    | some k =>
      have hdocument := hview k (MapKey.ofName?_eq_some_iff.mp hk)
      exact congrArg (fun v => some v.ordered) hdocument
  rw [(separated_restored b).find?_asFragment, hviews, Table.find?_insert, Table.find?_erase,
    h.find?_asFragment, connected_restored, h.extra_restored, Table.find?_erase]
  by_cases hflag : key = connectedKey
  · subst hflag
    rfl
  · simp only [if_neg hflag]
    by_cases htype : key = Fragment.typeKey
    · subst htype
      rfl
    · simp only [if_neg htype]

end Restored

/-- **A written board is a complete snapshot.**  The fragment of a board is its document.  Applied
to a new board it gives all views but the settings, and all fields without a view but the
discriminator, and the connection is down; written again, that board has the same fields but for
these three.  The settings under a slug come back if and only if those of the list in force under it
are proper; if that holds of every slug, the settings are written as they were, too. -/
theorem restored_writes (writes : List Write) :
    let b := Board.writes {} writes
    (∀ c : Board, (ofTable c.asFragment).ordered = c.document.ordered) ∧
      (b.restored.streams = b.streams ∧ b.restored.transcoders = b.transcoders ∧
        b.restored.streamTranscoders = b.streamTranscoders ∧ b.restored.fanouts = b.fanouts) ∧
      b.restored.extra = b.extra.erase Fragment.typeKey ∧ b.restored.connected = false ∧
      b.restored.streamSettings =
        entities StreamSettings.read (b.viewDocument .streamSettings).ordered ∧
      (∀ slug, b.restored.streamSettings.find? slug = b.streamSettings.find? slug ↔
        ProperUnder (listInForce writes) slug) ∧
      (∀ key, key ≠ MapKey.streamSettings.name →
        b.restored.asFragment.find? key =
          ((b.asFragment.erase Fragment.typeKey).insert connectedKey (.bool false)).find? key) ∧
      ((∀ slug, ProperUnder (listInForce writes) slug) →
        b.restored.streamSettings = b.streamSettings ∧
        b.restored.asFragment =
          (b.asFragment.erase Fragment.typeKey).insert connectedKey (.bool false)) := by
  intro b
  have hseparated : b.Separated := separated_writes writes
  have hview (k : MapKey) (hk : k ≠ .streamSettings) : b.view k (b.viewDocument k).ordered = b :=
    view_viewDocument (viewedAt_writes writes hk) hk
  have hsettings (slug : String) :
      b.restored.streamSettings.find? slug = b.streamSettings.find? slug ↔
        ProperUnder (listInForce writes) slug := by
    rw [hseparated.streamSettings_restored, ← (settingsFrom_writes writes).proper_iff]
    exact find?_settingsDocument_iff
  have hdocument (k : MapKey) (hk : k ≠ .streamSettings) :
      b.restored.viewDocument k = b.viewDocument k :=
    hseparated.part_restored (hview k hk) (viewDocument · k) fun c v => viewDocument_view c b k v
  refine ⟨ordered_asFragment, ⟨?_, ?_, ?_, ?_⟩, hseparated.extra_restored, connected_restored b,
    hseparated.streamSettings_restored, hsettings, fun key hkey => ?_, fun hproper => ?_⟩
  · exact hseparated.part_restored (hview .streams nofun) streams fun _ _ => rfl
  · exact hseparated.part_restored (hview .transcoders nofun) transcoders fun _ _ => rfl
  · exact hseparated.part_restored (hview .streamTranscoders nofun) streamTranscoders fun _ _ => rfl
  · exact hseparated.part_restored (hview .fanouts nofun) fanouts fun _ _ => rfl
  · refine hseparated.find?_asFragment_restored fun k hk => hdocument k ?_
    rintro rfl
    exact hkey hk
  · have hsame : b.restored.streamSettings = b.streamSettings :=
      Table.ext_find? fun slug => (hsettings slug).mpr (hproper slug)
    refine ⟨hsame, Table.ext_find? fun key => hseparated.find?_asFragment_restored fun k _ => ?_⟩
    by_cases hk : k = .streamSettings
    · subst hk
      exact congrArg (mapDocument StreamSettings.document) hsame
    · exact hdocument k hk

/-- An entry that does not read, a field that is no map, a discriminator and a connection; of two
lists of settings the second one counts. -/
theorem restored_writes_unread :
    let b := Board.writes {}
      [.replace "streams" (.object [("cam1", .object [("slug", .string "cam1")]), ("cam2", .null)]),
        .replace "fanouts" (.string "none"), .replace "type" .null, .replace "relays" (.array []),
        .action (.updatedStreamSettings [{ slug := "a", extra := .ofList [("slug", .null)] }]),
        .action (.updatedStreamSettings [{ slug := "a", notes := some "n" }]),
        .action .socketConnected]
    b.restored.streamSettings = .ofList [("a", { slug := "a", notes := some "n" })] ∧
      b.restored.streams.keys = ["cam1"] ∧
      b.restored.asFragment.find? "streams" =
        some (.object [("cam1", .object [("slug", .string "cam1")])]) ∧
      b.restored.asFragment.find? "streamSettings" =
        some (.object [("a", .object [("notes", .string "n"), ("slug", .string "a")])]) ∧
      b.restored.extra = .ofList [("relays", .array [])] := by
  intro b
  obtain ⟨-, ⟨hstreams, -⟩, hextra, -, -, -, hfield, hproper⟩ := restored_writes
      [.replace "streams" (.object [("cam1", .object [("slug", .string "cam1")]), ("cam2", .null)]),
        .replace "fanouts" (.string "none"), .replace "type" .null, .replace "relays" (.array []),
        .action (.updatedStreamSettings [{ slug := "a", extra := .ofList [("slug", .null)] }]),
        .action (.updatedStreamSettings [{ slug := "a", notes := some "n" }]),
        .action .socketConnected]
  obtain ⟨hsettings, hfragment⟩ := hproper (properUnder_of_made fun s hs => by
    rw [List.mem_singleton.mp hs]
    exact .withNotes (.new "a") "n")
  refine ⟨hsettings.trans (by decide +kernel), ?_, ?_, ?_, hextra.trans (by decide +kernel)⟩
  · exact (congrArg Table.keys hstreams).trans (by decide +kernel)
  · exact (hfield "streams" (by decide)).trans (by decide +kernel)
  · exact (congrArg (Table.find? · "streamSettings") hfragment).trans (by decide +kernel)

/-- Settings whose undeclared member is written over the slug: the board shows them, and neither the
restored board nor its document has them. -/
theorem restored_ne_of_null_slug :
    let s : StreamSettings := { slug := "a", extra := .ofList [("slug", .null)] }
    let b := Board.writes {} [.action (.updatedStreamSettings [s])]
    b.streamSettings.find? "a" = some s ∧ b.restored.streamSettings ≠ b.streamSettings ∧
      b.asFragment.find? "streamSettings" =
        some (.object [("a", .object [("slug", .null)])]) ∧
      b.restored.asFragment.find? "streamSettings" = some (.object []) := by
  decide +kernel

end Board

end StreamBoard

import StreamBoard.Proofs.Board.Field
import StreamBoard.Proofs.Json.Ordering

/-!
# LastWriter — a field holds what was last written to it

Three kinds of actions write fields: fragments, lists of settings, and the two actions of the
connection.  `field_run` gives every field after every run of actions as the last write to it, found
by searching the actions from the end; fragments count for all fields but the discriminator and the
connection flag, lists for the settings only, and the connection for its flag only.
-/

namespace StreamBoard

/-! ## 1. What an action writes -/

namespace Action

/-- The value that a fragment carries under a key. -/
def pushed? (key : String) : Action → Option Json
  | .updateState fragment => fragment.find? key
  | _ => none

/-- The object of a list of settings: each slug with the settings that have it, of several the last
ones. -/
def settingsObject (list : List StreamSettings) : Json :=
  .ofTable (.ofList (list.map fun s => (s.slug, s.document.ordered)))

/-- The value that an action puts in place of all settings. -/
def settings? : Action → Option Json
  | .updateState fragment => fragment.find? MapKey.streamSettings.name
  | .updatedStreamSettings list => some (settingsObject list)
  | _ => none

/-- The flag that the connection sets. -/
def lifecycle? : Action → Option Bool
  | .socketConnected => some true
  | .socketDisconnected => some false
  | _ => none

/-- The fields that an action writes. -/
def names : Action → String → Bool
  | .updateState fragment, key =>
    fragment.contains key && key != Fragment.typeKey && key != connectedKey
  | .socketConnected, key | .socketDisconnected, key => key == connectedKey
  | .updatedStreamSettings _, key => key == MapKey.streamSettings.name
  | .setStreamSettings _, _ | .fetchError _, _ => false

theorem settingsObject_find? (list : List StreamSettings) (slug : String) :
    (settingsObject list).members?.bind (·.find? slug) =
      (list.reverse.find? fun s => s.slug == slug).map fun s => s.document.ordered := by
  simp only [settingsObject, Json.ofTable, Json.members?, Table.ofList_entries, Option.bind_some,
    Table.find?_ofList, ← List.map_reverse]
  induction list.reverse with
  | nil => rfl
  | cons s rest ih =>
    rw [List.map_cons, Table.lookup_cons_eq_ite, ih, List.find?_cons]
    by_cases h : slug = s.slug
    · simp [h]
    · simp [h, beq_eq_false_iff_ne.mpr (Ne.symm h)]

end Action

namespace Board

/-! ## 2. Fields after one action -/

theorem field_blank (key : String) :
    ({} : Board).field key =
      if isKnownKey key then some (.object [])
      else if key = connectedKey then some (.bool false) else none := by
  cases hk : MapKey.ofName? key with
  | none => simp [field, isKnownKey, hk]
  | some k =>
    have hdoc : (viewDocument {} k).ordered = .object [] := by
      cases k <;> rfl
    simp [field, isKnownKey, hk, hdoc]

theorem step_updateState (b : Board) (fragment : Fragment) :
    b.step (.updateState fragment) = b.putAll (fragment.erase Fragment.typeKey).entries := by
  simp only [step, step?, applyFragment?]
  split
  next h => simp [List.isEmpty_iff.mp h, putAll]
  next => rfl

theorem setConnected?_getD (b : Board) (connected : Bool) :
    (b.setConnected? connected).getD b = { b with connected } := by
  unfold setConnected?
  split
  next h => subst h; rfl
  next => rfl

theorem step_of_lifecycle? (b : Board) {a : Action} {connected : Bool}
    (h : a.lifecycle? = some connected) : b.step a = { b with connected } := by
  cases a with
  | socketConnected =>
    cases h
    exact b.setConnected?_getD true
  | socketDisconnected =>
    cases h
    exact b.setConnected?_getD false
  | _ => cases h

theorem Separated.step {b : Board} (h : b.Separated) (a : Action) : (b.step a).Separated := by
  cases a with
  | updateState fragment => rw [step_updateState]; exact h.putAll _
  | socketConnected => rw [step_of_lifecycle? b rfl]; exact ⟨h.pushed, h.extra⟩
  | socketDisconnected => rw [step_of_lifecycle? b rfl]; exact ⟨h.pushed, h.extra⟩
  | updatedStreamSettings list => exact h.setSettings _
  | setStreamSettings _ => exact h
  | fetchError _ => exact h

theorem viewDocument_connected (b : Board) (connected : Bool) (k : MapKey) :
    viewDocument { b with connected } k = b.viewDocument k := by
  cases k <;> rfl

/-- A fragment writes all its fields but the discriminator and the connection flag. -/
theorem Separated.field_updateState {b : Board} (h : b.Separated) (fragment : Fragment)
    {key : String} (htype : key ≠ Fragment.typeKey) (hflag : key ≠ connectedKey) :
    (b.step (.updateState fragment)).field key = (fragment.find? key).or (b.field key) := by
  have hnodup := (fragment.erase Fragment.typeKey).nodup_keys
  rw [step_updateState, h.field_putAll _ hflag, Table.lookup_reverse_of_nodup hnodup]
  show ((fragment.erase Fragment.typeKey).find? key).or _ = _
  rw [Table.find?_erase, if_neg htype]

theorem field_updatedStreamSettings (b : Board) (list : List StreamSettings) :
    (b.step (.updatedStreamSettings list)).field MapKey.streamSettings.name =
      some (Action.settingsObject list) := by
  have hpushed : (b.step (.updatedStreamSettings list)).pushed.find? MapKey.streamSettings.name =
      none := by
    show (b.pushed.erase _).find? _ = none
    simp [Table.find?_erase]
  simp only [field, hpushed, MapKey.ofName?_name]
  -- The views are written from settings, the object from documents: the same table twice mapped.
  show some (Json.ofTable ((settingsBySlug list).map StreamSettings.document)).ordered = _
  rw [Json.ordered_ofTable, settingsBySlug, Table.map_ofList, Table.map_ofList, List.map_map,
    List.map_map, Action.settingsObject]
  rfl

/-! ## 3. Fields that an action leaves alone -/

theorem field_put_connectedKey (b : Board) (key : String) (value : Json) :
    (b.put key value).field connectedKey = b.field connectedKey := by
  by_cases h : connectedKey = key
  · obtain ⟨k, hk, -⟩ | ⟨-, hput⟩ | ⟨-, hne, -⟩ := b.put_cases key value
    · exact absurd (h.trans hk).symm (name_ne_connectedKey k)
    · rw [hput]
    · exact absurd h.symm hne
  · exact b.field_put_of_ne value h

theorem field_connected_of_ne (b : Board) (connected : Bool) {key : String}
    (h : key ≠ connectedKey) : field { b with connected } key = b.field key := by
  simp only [field, viewDocument_connected, if_neg h]

theorem field_setSettings_of_ne (b : Board) (settings : Table StreamSettings) {key : String}
    (h : key ≠ MapKey.streamSettings.name) : (b.setSettings settings).field key = b.field key := by
  simp only [field, setSettings, Table.find?_erase, if_neg h]
  cases b.pushed.find? key with
  | some v => rfl
  | none =>
    cases hk : MapKey.ofName? key with
    | none => rfl
    | some k =>
      have hne : k ≠ .streamSettings := by
        rintro rfl
        exact h (MapKey.ofName?_eq_some_iff.mp hk)
      cases k <;> first | rfl | exact absurd rfl hne

/-- **No action changes a field that it does not name.** -/
theorem field_step_of_not_named (b : Board) {a : Action} {key : String}
    (h : a.names key = false) : (b.step a).field key = b.field key := by
  cases a with
  | updateState fragment =>
    rw [step_updateState]
    refine foldl_keeps (fun s : Board => s.field key = b.field key) (fun s m hm hs => ?_) rfl
    rw [← hs]
    by_cases hkey : key = m.1
    · -- A member of the fragment that it does not name can only be the flag, which is refused.
      subst hkey
      have hfind := Table.mem_entries_iff.mp hm
      rw [Table.find?_erase] at hfind
      have hflag : m.1 = connectedKey := by
        split at hfind
        next => cases hfind
        next htype => simpa [Action.names, Table.contains, hfind, htype] using h
      rw [hflag]
      exact s.field_put_connectedKey _ _
    · exact s.field_put_of_ne _ hkey
  | socketConnected =>
    rw [step_of_lifecycle? b rfl]
    exact b.field_connected_of_ne true (by simpa [Action.names] using h)
  | socketDisconnected =>
    rw [step_of_lifecycle? b rfl]
    exact b.field_connected_of_ne false (by simpa [Action.names] using h)
  | updatedStreamSettings list =>
    exact b.field_setSettings_of_ne _ (by simpa [Action.names] using h)
  | setStreamSettings _ => rfl
  | fetchError _ => rfl

/-! ## 4. Fields after a run -/

theorem field_run_of_pushed (actions : List Action) {key : String}
    (htype : key ≠ Fragment.typeKey) (hsettings : key ≠ MapKey.streamSettings.name)
    (hflag : key ≠ connectedKey) :
    (run {} actions).field key =
      (lastWrite? (Action.pushed? key) actions).or (({} : Board).field key) := by
  refine foldl_view Separated (fun b => b.field key) _ (fun _ a h => h.step a)
    (fun b a h => ?_) actions separated_blank
  cases a with
  | updateState fragment => exact h.field_updateState fragment htype hflag
  | _ => exact b.field_step_of_not_named (by simp [Action.names, hsettings, hflag])

theorem field_run_settings (actions : List Action) :
    (run {} actions).field MapKey.streamSettings.name =
      (lastWrite? Action.settings? actions).or
        (({} : Board).field MapKey.streamSettings.name) := by
  refine foldl_view Separated (fun b => b.field MapKey.streamSettings.name) _
    (fun _ a h => h.step a) (fun b a h => ?_) actions separated_blank
  cases a with
  | updateState fragment =>
    exact h.field_updateState fragment (name_ne_typeKey _) (name_ne_connectedKey _)
  | updatedStreamSettings list => exact b.field_updatedStreamSettings list
  | socketConnected | socketDisconnected => exact b.field_step_of_not_named (by decide)
  | setStreamSettings _ | fetchError _ => rfl

theorem field_run_connected (actions : List Action) :
    (run {} actions).field connectedKey =
      ((lastWrite? Action.lifecycle? actions).map .bool).or
        (({} : Board).field connectedKey) := by
  have hmap : (lastWrite? Action.lifecycle? actions).map Json.bool =
      lastWrite? (fun a => a.lifecycle?.map .bool) actions := by
    simp [lastWrite?, List.map_findSome?, Function.comp_def]
  rw [hmap]
  -- A fragment may carry the flag's name, but that member is refused.
  refine foldl_view Separated (fun b => b.field connectedKey) _ (fun _ a h => h.step a)
    (fun b a h => ?_) actions separated_blank
  cases hl : a.lifecycle? with
  | some connected =>
    rw [step_of_lifecycle? b hl]
    simp [field, h.pushed connectedKey ofName?_connectedKey]
  | none =>
    refine b.field_step_of_not_named ?_
    cases a with
    | socketConnected | socketDisconnected => cases hl
    | updatedStreamSettings _ => exact beq_eq_false_iff_ne.mpr (name_ne_connectedKey _).symm
    | _ => simp [Action.names]

theorem field_run_type (actions : List Action) :
    (run {} actions).field Fragment.typeKey = none := by
  refine foldl_keeps (fun b : Board => b.field Fragment.typeKey = none) (fun b a _ h => ?_) rfl
  rw [b.field_step_of_not_named, h]
  cases a with
  | updateState _ => simp [Action.names]
  | socketConnected | socketDisconnected => decide
  | updatedStreamSettings _ => exact beq_eq_false_iff_ne.mpr (name_ne_typeKey _).symm
  | setStreamSettings _ | fetchError _ => rfl

/-- **Every field holds the last write to it.**  In turn: the fields that only fragments write; the
settings, which fragments and lists write, and what a list writes; the connection flag, which no
fragment writes; the discriminator, which nothing writes; and the fields that one more action does
not name, which it leaves as they are. -/
theorem field_run (actions : List Action) :
    (∀ key, key ≠ Fragment.typeKey → key ≠ MapKey.streamSettings.name → key ≠ connectedKey →
      (run {} actions).field key = (lastWrite? (Action.pushed? key) actions).or
        (if isKnownKey key then some (.object []) else none)) ∧
    (run {} actions).field MapKey.streamSettings.name =
      some ((lastWrite? Action.settings? actions).getD (.object [])) ∧
    (∀ list slug, (Action.settingsObject list).members?.bind (·.find? slug) =
      (list.reverse.find? fun s => s.slug == slug).map fun s => s.document.ordered) ∧
    (run {} actions).field connectedKey =
      some (.bool (lastWrite? Action.lifecycle? actions == some true)) ∧
    (run {} actions).field Fragment.typeKey = none ∧
    (∀ (a : Action) key, a.names key = false →
      (run {} (actions ++ [a])).field key = (run {} actions).field key) := by
  refine ⟨fun key htype hsettings hflag => ?_, ?_, Action.settingsObject_find?, ?_,
    field_run_type actions, fun a key h => ?_⟩
  · rw [field_run_of_pushed actions htype hsettings hflag, field_blank, if_neg hflag]
  · rw [field_run_settings actions, field_blank, isKnownKey_name, if_pos rfl]
    cases lastWrite? Action.settings? actions <;> rfl
  · rw [field_run_connected actions]
    rcases lastWrite? Action.lifecycle? actions with _ | _ | _ <;> rfl
  · rw [run, List.foldl_append]
    exact field_step_of_not_named _ h

/-- A later fragment without the key, settings of one stream and a failure change nothing. -/
theorem field_run_fanouts :
    (run {} [.updateState (.ofList [("type", .null), ("fanouts", .object [("f1", .null)])]),
        .updateState (.ofList [("streams", .null), ("socketConnected", .bool true)]),
        .setStreamSettings { slug := "a" }, .fetchError (.network "refused")]).field "fanouts" =
      some (.object [("f1", .null)]) ∧
    (run {} ([.socketConnected] ++ [.updatedStreamSettings []])).field "socketConnected" =
      (run {} [.socketConnected]).field "socketConnected" :=
  ⟨((field_run _).1 "fanouts" (by decide) (by decide) (by decide)).trans (by decide +kernel),
    (field_run [.socketConnected]).2.2.2.2.2 (.updatedStreamSettings []) "socketConnected"
      (by decide)⟩

end Board

end StreamBoard

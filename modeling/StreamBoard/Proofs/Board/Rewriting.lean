import StreamBoard.Proofs.Board.Composition
import StreamBoard.Proofs.Board.Watching

/-!
# Rewriting — a board replaced by its like

An action may put a board in place that is equal to the one before.  The board is another one all
the same, and those who wait for a change are woken (`Action.Rewrites`).  Two kinds of actions do
this: a fragment whose fields are all refused or hold the values that they bring, and a list of the
settings that are there.  Every other action that changes nothing leaves the very same board
(`step?_writes`).
-/

namespace StreamBoard

variable {b : Board} {key : String} {value : Json}

namespace Board

/-! ## 1. Views of pushed values -/

/-- Every pushed value has been taken into its view. -/
def Viewed (b : Board) : Prop := ∀ k : MapKey, ∀ value,
  b.pushed.find? k.name = some value → b.view k value = b

theorem viewed_writes (writes : List Write) : (Board.writes {} writes).Viewed := by
  intro k value hpushed
  by_cases hk : k = .streamSettings
  · subst hk
    exact (settingsFrom_writes writes).view_pushed hpushed
  · have hfield : (Board.writes {} writes).field k.name = some value := by
      rw [field_name, hpushed, Option.getD_some]
    exact viewedAt_writes writes hk value hfield

/-! ## 2. Writes that change nothing -/

/-- The value of a field as it was sent, where the board has kept that. -/
def kept? (b : Board) (key : String) : Option Json := (b.pushed.find? key).or (b.extra.find? key)

/-- A write changes nothing if it is refused or if the field holds the value already. -/
theorem put_eq_self_iff (hv : b.Viewed) (hs : b.Separated) :
    b.put key value = b ↔ key = connectedKey ∨ b.kept? key = some value := by
  rcases key_cases key with ⟨k, rfl⟩ | rfl | ⟨hkey, hflag⟩
  · have hkept : b.kept? k.name = b.pushed.find? k.name := by
      rw [kept?, hs.extra _ (.inl (isKnownKey_name k)), Option.or_none]
    rw [or_iff_right (name_ne_connectedKey k), hkept, ← Table.insert_eq_self_iff, put_name]
    constructor
    · intro h
      exact congrArg pushed h
    · intro h
      rw [hv k value (Table.insert_eq_self_iff.mp h), h]
  · exact iff_of_true (b.put_connectedKey value) (.inl rfl)
  · have hkept : b.kept? key = b.extra.find? key := by
      rw [kept?, hs.pushed key hkey, Option.none_or]
    rw [or_iff_right hflag, hkept, ← Table.insert_eq_self_iff, put_extra b hkey hflag]
    constructor
    · intro h
      exact congrArg extra h
    · intro h
      rw [h]

/-- Members that change nothing together change nothing one by one: what has been written may be
written once more. -/
theorem putAll_eq_self_iff (t : Table Json) :
    b.putAll t.entries = b ↔ ∀ key value, t.find? key = some value → b.put key value = b := by
  constructor
  · intro h key value hfind
    have hput := b.putAll_put_self hfind
    rw [h] at hput
    exact hput
  · intro h
    refine foldl_keeps (fun c : Board => c = b) (fun c m hm hc => ?_) rfl
    rw [hc]
    exact h m.1 m.2 (Table.mem_entries_iff.mp hm)

theorem setSettings_eq_self_iff (settings : Table StreamSettings) :
    b.setSettings settings = b ↔
      b.streamSettings = settings ∧ b.pushed.find? MapKey.streamSettings.name = none := by
  rw [← Table.erase_eq_self_iff]
  constructor
  · intro h
    exact ⟨(congrArg streamSettings h).symm, congrArg pushed h⟩
  · rintro ⟨hsettings, hpushed⟩
    rw [setSettings, ← hsettings, hpushed]

end Board

/-! ## 3. Actions -/

/-- The action puts a board in place that is equal to the one before: a fragment does if it names a
field, and of the fields that it names the board refuses all or has kept just these values; a list
does if the settings are those of the list and no others were pushed since. -/
def Action.Rewrites (b : Board) : Action → Prop
  | .updateState fragment =>
    (∃ key, key ≠ Fragment.typeKey ∧ fragment.contains key = true) ∧
      ∀ key value, fragment.find? key = some value →
        key = Fragment.typeKey ∨ key = connectedKey ∨ b.kept? key = some value
  | .updatedStreamSettings list =>
    b.streamSettings = Board.settingsBySlug list ∧
      b.pushed.find? MapKey.streamSettings.name = none
  | _ => False

namespace Board

theorem step?_eq_some_iff {c : Board} {a : Action} :
    b.step? a = some c ↔ a.Replaces b ∧ b.step a = c := by
  rw [← step?_isSome_iff, step]
  cases b.step? a with
  | none => simp
  | some d => simp

theorem step_updateState_eq_self_iff (hv : b.Viewed) (hs : b.Separated) (fragment : Fragment) :
    b.step (.updateState fragment) = b ↔ ∀ key value, fragment.find? key = some value →
      key = Fragment.typeKey ∨ key = connectedKey ∨ b.kept? key = some value := by
  rw [step_updateState, putAll_eq_self_iff]
  refine forall_congr' fun key => forall_congr' fun value => ?_
  rw [put_eq_self_iff hv hs, Table.find?_erase]
  by_cases htype : key = Fragment.typeKey
  · simp [htype]
  · simp [htype]

/-- **Which actions put an equal board in place.** -/
theorem step?_eq_some_self_iff (hv : b.Viewed) (hs : b.Separated) (a : Action) :
    b.step? a = some b ↔ a.Rewrites b := by
  rw [step?_eq_some_iff]
  cases a with
  | updateState fragment =>
    exact and_congr_right fun _ => step_updateState_eq_self_iff hv hs fragment
  | socketConnected | socketDisconnected =>
    -- The flag was another one, so the board is.
    refine iff_of_false ?_ id
    rintro ⟨hflag, hstep⟩
    rw [step_of_lifecycle? b rfl] at hstep
    have hsame := congrArg Board.connected hstep
    change b.connected = _ at hflag
    rw [hflag] at hsame
    cases hsame
  | updatedStreamSettings list =>
    rw [show b.step (.updatedStreamSettings list) = b.setSettings (settingsBySlug list) from rfl,
      setSettings_eq_self_iff]
    exact and_iff_right trivial
  | setStreamSettings _ | fetchError _ => exact iff_of_false (fun h => h.1) id

/-- **An action that changes nothing leaves the very same board, unless it rewrites it.**  In turn:
for an action that rewrites nothing, an equal board is the very same one, and no watcher is woken;
the actions that rewrite the board are those that put an equal one in place, and they wake all
watchers; neither a fragment with the discriminator alone nor one without a member does; and a board
that is put in place by neither a fragment nor a list has another connection flag. -/
theorem step?_writes (writes : List Write) (a : Action) :
    let b := Board.writes {} writes
    (¬ a.Rewrites b → (b.step a = b ↔ b.step? a = none)) ∧
    (a.Rewrites b ↔ b.step? a = some b) ∧
    (∀ s : Store, s.board = b →
      (b.step? a = none → (Watcher.of s).changed (s.dispatch a) true = .pending) ∧
      (a.Rewrites b →
        (Watcher.of s).changed (s.dispatch a) true = .ready b (.of (s.dispatch a)))) ∧
    (∀ fragment : Fragment, (∀ key, fragment.contains key = true → key = Fragment.typeKey) →
      b.step? (.updateState fragment) = none) ∧
    (∀ c, b.step? a = some c → (∃ fragment, a = .updateState fragment) ∨
      (∃ list, a = .updatedStreamSettings list) ∨ c.connected = !b.connected) := by
  intro b
  have hself := step?_eq_some_self_iff (viewed_writes writes) (separated_writes writes) a
  refine ⟨fun hrewrites => ?_, hself.symm, fun s hboard => ⟨fun hnone => ?_, fun hrewrites => ?_⟩,
    fun fragment hfragment => ?_, fun c hc => ?_⟩
  · rw [← hself] at hrewrites
    rw [step]
    cases hstep : b.step? a with
    | none => exact iff_of_true rfl rfl
    | some c =>
      refine iff_of_false (fun h => hrewrites ?_) (Option.some_ne_none c)
      rw [hstep]
      exact congrArg some h
  · rw [Store.dispatch, hboard, hnone]
    exact if_neg (Nat.lt_irrefl _)
  · rw [Store.dispatch, hboard, hself.mpr hrewrites]
    exact if_pos (Nat.lt_succ_self _)
  · refine step?_eq_none fun hreplaces => ?_
    obtain ⟨key, htype, hkey⟩ := hreplaces
    exact htype (hfragment key hkey)
  · obtain ⟨hreplaces, hstep⟩ := step?_eq_some_iff.mp hc
    cases a with
    | updateState fragment => exact .inl ⟨fragment, rfl⟩
    | updatedStreamSettings list => exact .inr (.inl ⟨list, rfl⟩)
    | socketConnected | socketDisconnected =>
      change b.connected = _ at hreplaces
      rw [step_of_lifecycle? b rfl] at hstep
      rw [← hstep, hreplaces]
      exact .inr (.inr rfl)
    | setStreamSettings _ | fetchError _ => exact hreplaces.elim

/-- A flag that is set already, and a value that is pushed once more. -/
theorem step?_writes_again :
    let push : Action := .updateState (.ofList [("relays", .null), ("type", .null)])
    let b := Board.writes {} [.action .socketConnected, .action push]
    b.step? .socketConnected = none ∧
      (Watcher.of (.withBoard b)).changed ((Store.withBoard b).dispatch push) true =
        .ready b (.of ((Store.withBoard b).dispatch push)) := by
  intro push b
  obtain ⟨hsame, -⟩ := step?_writes [.action .socketConnected, .action push] .socketConnected
  obtain ⟨-, hrewrites, hwatchers, -⟩ :=
    step?_writes [.action .socketConnected, .action push] push
  refine ⟨(hsame id).mp (by decide +kernel), ?_⟩
  exact (hwatchers (.withBoard b) rfl).2 (hrewrites.mpr (by decide +kernel))

/-- A fragment whose only field is refused changes nothing, but it puts another board in place. -/
theorem exists_rewritten :
    ¬ ∀ (writes : List Write) (a : Action),
      (Board.writes {} writes).step a = Board.writes {} writes →
        (Board.writes {} writes).step? a = none := by
  intro h
  have hnone := h [] (.updateState (.ofList [(connectedKey, .bool true)])) (by decide +kernel)
  have hsome : ((Board.writes {} []).step?
      (.updateState (.ofList [(connectedKey, .bool true)]))).isSome = true := by decide +kernel
  rw [hnone] at hsome
  cases hsome

end Board

end StreamBoard

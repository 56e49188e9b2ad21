import Mathlib.Data.List.Forall2
import StreamBoard.Board.View
import StreamBoard.Proofs.Board.LenientView
import StreamBoard.Proofs.Text.Utf8

/-!
# Assignment — the rows join the last pushed maps

A row joins a stream with the transcoder that it is assigned to, over two maps that are pushed
independently of each other.  Both views read as their fields say, so what a row shows can be told
from the fields alone (`Joined`), and a field holds what was pushed last: nothing of what was pushed
before is left in a row.
-/

namespace StreamBoard

open Json

/-! ## 1. What the fields say -/

/-- A pushed value maps the key of a stream to the name of a transcoder. -/
def Assigns (pushed : Json) (key name : String) : Prop :=
  ∃ members, pushed = .object members ∧ (Table.ofList members).find? key = some (.string name)

/-- A pushed value has something under the name that reads as the transcoder. -/
def Describes (pushed : Json) (name : String) (t : Transcoder) : Prop :=
  ∃ members value, pushed = .object members ∧ (Table.ofList members).find? name = some value ∧
    readValue Transcoder.read value = .ok t

/-- The first field assigns the key to a name, and the second one describes the transcoder of that
name. -/
def Joined (assignments transcoders : Option Json) (key : String) (t : Transcoder) : Prop :=
  ∃ pushed pushed' name, assignments = some pushed ∧ transcoders = some pushed' ∧
    Assigns pushed key name ∧ Describes pushed' name t

namespace Board

theorem readValue_string_iff {v : Json} {s : String} :
    readValue Reader.string v = .ok s ↔ v = .string s := by
  constructor
  · intro h
    cases v with
    | string s' => exact congrArg Json.string (Except.ok.inj h)
    | null | bool _ | number _ | array _ | object _ => cases h
  · rintro rfl
    rfl

section Viewed

variable {b c : Board}

theorem ViewedAt.assigns_iff (h : b.ViewedAt .streamTranscoders) {key name : String} :
    b.streamTranscoders.find? key = some name ↔
      ∃ pushed, b.field MapKey.streamTranscoders.name = some pushed ∧ Assigns pushed key name := by
  have hread : LenientReading Reader.string (b.field MapKey.streamTranscoders.name)
      b.streamTranscoders := h.lenientReading fun _ => rfl
  rw [hread key name]
  constructor
  · rintro ⟨members, v, hfield, hv, hname⟩
    rw [readValue_string_iff.mp hname] at hv
    exact ⟨_, hfield, members, rfl, hv⟩
  · rintro ⟨_, hfield, members, rfl, hv⟩
    exact ⟨members, _, hfield, hv, readValue_string_iff.mpr rfl⟩

theorem ViewedAt.describes_iff (h : b.ViewedAt .transcoders) {name : String} {t : Transcoder} :
    b.transcoders.find? name = some t ↔
      ∃ pushed, b.field MapKey.transcoders.name = some pushed ∧ Describes pushed name t := by
  have hread : LenientReading Transcoder.read (b.field MapKey.transcoders.name) b.transcoders :=
    h.lenientReading fun _ => rfl
  rw [hread name t]
  constructor
  · rintro ⟨members, v, hfield, hv, ht⟩
    exact ⟨_, hfield, members, v, rfl, hv, ht⟩
  · rintro ⟨_, hfield, members, v, rfl, hv, ht⟩
    exact ⟨members, v, hfield, hv, ht⟩

/-- **The transcoder of a stream is the one that the fields join it to.** -/
theorem transcoderFor_eq_some_iff (hnames : b.ViewedAt .streamTranscoders)
    (htranscoders : b.ViewedAt .transcoders) {key : String} {t : Transcoder} :
    b.transcoderFor key = some t ↔
      Joined (b.field MapKey.streamTranscoders.name) (b.field MapKey.transcoders.name) key t := by
  rw [transcoderFor, Option.bind_eq_some_iff]
  constructor
  · rintro ⟨name, hname, ht⟩
    obtain ⟨pushed, hfield, hassigns⟩ := hnames.assigns_iff.mp hname
    obtain ⟨pushed', hfield', hdescribes⟩ := htranscoders.describes_iff.mp ht
    exact ⟨pushed, pushed', name, hfield, hfield', hassigns, hdescribes⟩
  · rintro ⟨pushed, pushed', name, hfield, hfield', hassigns, hdescribes⟩
    exact ⟨name, hnames.assigns_iff.mpr ⟨pushed, hfield, hassigns⟩,
      htranscoders.describes_iff.mpr ⟨pushed', hfield', hdescribes⟩⟩

theorem streams_congr (hb : b.ViewedAt .streams) (hc : c.ViewedAt .streams)
    (h : c.field MapKey.streams.name = b.field MapKey.streams.name) : c.streams = b.streams := by
  have hread : LenientReading Stream.read (b.field MapKey.streams.name) b.streams :=
    hb.lenientReading fun _ => rfl
  have hread' : LenientReading Stream.read (c.field MapKey.streams.name) c.streams :=
    hc.lenientReading fun _ => rfl
  refine Table.ext_find? fun key => Option.ext fun s => ?_
  rw [hread key s, hread' key s, h]

end Viewed

/-! ## 2. Rows of a board -/

/-- One row for each key of the streams, in the order of the bytes of the keys. -/
theorem exists_keys_rows (b : Board) :
    ∃ keys : List String,
      keys.Pairwise (fun j k => Text.utf8 j.toList < Text.utf8 k.toList) ∧
      (∀ key, key ∈ keys ↔ b.streams.contains key = true) ∧
      List.Forall₂ (fun key row => b.streams.find? key = some row.stream ∧
        row.transcoder = b.transcoderFor key) keys b.rows := by
  refine ⟨b.streams.keys, ?_, fun key => Table.mem_keys_iff, ?_⟩
  · refine List.pairwise_map.mpr (b.streams.ascending.imp fun {e e'} h => ?_)
    exact Text.utf8_lt (String.lt_iff.mp h)
  · unfold Table.keys rows
    rw [List.forall₂_map_left_iff, List.forall₂_map_right_iff, List.forall₂_same]
    exact fun e he => ⟨Table.mem_entries_iff.mp he, rfl⟩

theorem rows_congr {b c : Board} (hstreams : c.streams = b.streams)
    (htranscoders : ∀ key, c.transcoderFor key = b.transcoderFor key) : c.rows = b.rows := by
  rw [rows, rows, hstreams]
  exact List.map_congr_left fun e _ => by rw [htranscoders]

/-! ## 3. Rows after a run -/

/-- Only settings can be such that their view is not what its field reads as. -/
theorem viewedAt_run (actions : List Action) {k : MapKey} (hk : k ≠ .streamSettings) :
    (run {} actions).ViewedAt k :=
  foldl_keeps (fun b : Board => b.ViewedAt k) (fun _ a _ h => h.step hk a) (viewedAt_blank k)

theorem separated_run (actions : List Action) : (run {} actions).Separated :=
  foldl_keeps Separated (fun _ a _ h => h.step a) separated_blank

theorem run_concat (actions : List Action) (a : Action) :
    run {} (actions ++ [a]) = (run {} actions).step a := by
  rw [run, List.foldl_append]
  rfl

theorem transcoderFor_run_iff (actions : List Action) {key : String} {t : Transcoder} :
    (run {} actions).transcoderFor key = some t ↔
      Joined ((run {} actions).field MapKey.streamTranscoders.name)
        ((run {} actions).field MapKey.transcoders.name) key t :=
  transcoderFor_eq_some_iff (viewedAt_run actions nofun) (viewedAt_run actions nofun)

/-- What the actions pushed last for a map; an empty map, if they pushed nothing for it. -/
def lastPush (actions : List Action) (k : MapKey) : Json :=
  (lastWrite? (Action.pushed? k.name) actions).getD (.object [])

theorem field_run_name (actions : List Action) {k : MapKey} (hk : k ≠ .streamSettings) :
    (run {} actions).field k.name = some (lastPush actions k) := by
  have hne : k.name ≠ MapKey.streamSettings.name := fun heq => hk (MapKey.name_injective heq)
  rw [field_run_of_pushed actions (name_ne_typeKey k) hne (name_ne_connectedKey k), field_blank,
    isKnownKey_name, if_pos rfl, lastPush]
  cases lastWrite? (Action.pushed? k.name) actions <;> rfl

theorem transcoderFor_run_congr {actions actions' : List Action}
    (hnames : (run {} actions').field MapKey.streamTranscoders.name =
      (run {} actions).field MapKey.streamTranscoders.name)
    (htranscoders : (run {} actions').field MapKey.transcoders.name =
      (run {} actions).field MapKey.transcoders.name) (key : String) :
    (run {} actions').transcoderFor key = (run {} actions).transcoderFor key := by
  refine Option.ext fun t => ?_
  rw [transcoderFor_run_iff, transcoderFor_run_iff, hnames, htranscoders]

theorem transcoderFor_run_of_lastPush {actions actions' : List Action}
    (hnames : lastPush actions' .streamTranscoders = lastPush actions .streamTranscoders)
    (htranscoders : lastPush actions' .transcoders = lastPush actions .transcoders)
    (key : String) :
    (run {} actions').transcoderFor key = (run {} actions).transcoderFor key := by
  apply transcoderFor_run_congr
  · have hne : MapKey.streamTranscoders ≠ .streamSettings := nofun
    rw [field_run_name actions hne, field_run_name actions' hne, hnames]
  · have hne : MapKey.transcoders ≠ .streamSettings := nofun
    rw [field_run_name actions hne, field_run_name actions' hne, htranscoders]

section Later

variable {actions : List Action} {f : Fragment}

theorem field_run_updateState (actions : List Action) (f : Fragment) (k : MapKey) :
    (run {} (actions ++ [.updateState f])).field k.name =
      (f.find? k.name).or ((run {} actions).field k.name) := by
  rw [run_concat]
  exact (separated_run actions).field_updateState f (name_ne_typeKey k) (name_ne_connectedKey k)

theorem transcoderFor_run_of_dropped {pushed : Json} {key : String}
    (hf : f.find? MapKey.streamTranscoders.name = some pushed)
    (h : ∀ name, ¬ Assigns pushed key name) :
    (run {} (actions ++ [.updateState f])).transcoderFor key = none := by
  rw [Option.eq_none_iff_forall_ne_some]
  intro t ht
  obtain ⟨pushed', -, name, hfield, -, hassigns, -⟩ := (transcoderFor_run_iff _).mp ht
  rw [field_run_updateState, hf, Option.some_or, Option.some.injEq] at hfield
  exact h name (hfield ▸ hassigns)

theorem transcoderFor_run_of_broken {pushed : Json} {key : String}
    (hf : f.find? MapKey.transcoders.name = some pushed)
    (h : ∀ name, (run {} (actions ++ [.updateState f])).streamTranscoders.find? key = some name →
      ∀ t, ¬ Describes pushed name t) :
    (run {} (actions ++ [.updateState f])).transcoderFor key = none := by
  rw [Option.eq_none_iff_forall_ne_some]
  intro t ht
  obtain ⟨pushed', pushed'', name, hfield, hfield', hassigns, hdescribes⟩ :=
    (transcoderFor_run_iff _).mp ht
  rw [field_run_updateState, hf, Option.some_or, Option.some.injEq] at hfield'
  have hview : (run {} (actions ++ [.updateState f])).ViewedAt .streamTranscoders :=
    viewedAt_run _ nofun
  have hname := hview.assigns_iff.mpr ⟨pushed', hfield, hassigns⟩
  exact h name hname t (hfield' ▸ hdescribes)

theorem transcoderFor_run_of_not_named {a : Action}
    (hnames : a.names MapKey.streamTranscoders.name = false)
    (htranscoders : a.names MapKey.transcoders.name = false) (key : String) :
    (run {} (actions ++ [a])).transcoderFor key = (run {} actions).transcoderFor key := by
  apply transcoderFor_run_congr
  · rw [run_concat, field_step_of_not_named _ hnames]
  · rw [run_concat, field_step_of_not_named _ htranscoders]

theorem streams_run_of_not_named {a : Action} (h : a.names MapKey.streams.name = false) :
    (run {} (actions ++ [a])).streams = (run {} actions).streams := by
  apply streams_congr (viewedAt_run actions nofun) (viewedAt_run _ nofun)
  rw [run_concat, field_step_of_not_named _ h]

end Later

/-- **The rows are the join of the last pushed maps.**  There is one row for each stream, in the
order of the keys, with the stream and its transcoder.  Any key, of a stream or not, has the
transcoder that the fields join it to, and the fields hold what was pushed last.  So a push that
drops or breaks an entry leaves the key without a transcoder, actions after which the same maps were
pushed last bring all assignments back, and no action that names neither map changes any. -/
theorem rows_run (actions : List Action) :
    let b := run {} actions
    (∃ keys : List String,
      keys.Pairwise (fun j k => Text.utf8 j.toList < Text.utf8 k.toList) ∧
      (∀ key, key ∈ keys ↔ b.streams.contains key = true) ∧
      List.Forall₂ (fun key row => b.streams.find? key = some row.stream ∧
        row.transcoder = b.transcoderFor key) keys b.rows) ∧
    LenientReading Stream.read (b.field MapKey.streams.name) b.streams ∧
    (∀ key t, b.transcoderFor key = some t ↔
      Joined (b.field MapKey.streamTranscoders.name) (b.field MapKey.transcoders.name) key t) ∧
    (∀ k, k ≠ .streamSettings → b.field k.name = some (lastPush actions k)) ∧
    (∀ f key pushed, let after := run {} (actions ++ [.updateState f])
      (f.find? MapKey.streamTranscoders.name = some pushed ∧ (∀ name, ¬ Assigns pushed key name)) ∨
        (f.find? MapKey.transcoders.name = some pushed ∧
          ∀ name, after.streamTranscoders.find? key = some name →
            ∀ t, ¬ Describes pushed name t) →
      after.transcoderFor key = none) ∧
    (∀ actions', lastPush actions' .streamTranscoders = lastPush actions .streamTranscoders →
      lastPush actions' .transcoders = lastPush actions .transcoders →
        ∀ key, (run {} actions').transcoderFor key = b.transcoderFor key) ∧
    (∀ a : Action, a.names MapKey.streamTranscoders.name = false →
      a.names MapKey.transcoders.name = false →
        (∀ key, (run {} (actions ++ [a])).transcoderFor key = b.transcoderFor key) ∧
        (a.names MapKey.streams.name = false → (run {} (actions ++ [a])).rows = b.rows)) := by
  intro b
  have hstreams : b.ViewedAt .streams := viewedAt_run actions nofun
  refine ⟨exists_keys_rows b, hstreams.lenientReading fun _ => rfl,
    fun key t => transcoderFor_run_iff actions, fun k => field_run_name actions,
    fun f key pushed => ?_, fun actions' => transcoderFor_run_of_lastPush,
    fun a hnames htranscoders => ?_⟩
  · rintro after (⟨hf, hdropped⟩ | ⟨hf, hbroken⟩)
    · exact transcoderFor_run_of_dropped hf hdropped
    · exact transcoderFor_run_of_broken hf hbroken
  · have hsame : ∀ key, (run {} (actions ++ [a])).transcoderFor key = b.transcoderFor key :=
      transcoderFor_run_of_not_named hnames htranscoders
    exact ⟨hsame, fun hstreams => rows_congr (streams_run_of_not_named hstreams) hsame⟩

/-- A stream whose transcoder is dropped with all others, and comes back. -/
theorem rows_run_dropped :
    let streams := Json.object [("cam1", .object [("slug", .string "cam1")])]
    let transcoders := Json.object [("t1", .object [("name", .string "t1")])]
    let push : Fragment := .ofList [("streams", streams),
      ("streamTranscoders", .object [("cam1", .string "t1")]), ("transcoders", transcoders)]
    let drop : Fragment := .ofList [("transcoders", .array [])]
    let again : Fragment := .ofList [("transcoders", transcoders)]
    let actions := [Action.updateState push]
    (run {} actions).field "transcoders" = some transcoders ∧
    (run {} actions).rows = [⟨{ slug := "cam1" }, some { name := "t1" }⟩] ∧
    (run {} (actions ++ [.updateState drop])).transcoderFor "cam1" = none ∧
    (run {} (actions ++ [.updateState drop, .updateState again])).transcoderFor "cam1" =
      (run {} actions).transcoderFor "cam1" ∧
    (run {} (actions ++ [.socketConnected])).rows = (run {} actions).rows := by
  intro streams transcoders push drop again actions
  obtain ⟨-, -, -, hfield, hdropped, hrestored, hother⟩ := rows_run actions
  refine ⟨(hfield .transcoders nofun).trans (by decide +kernel), by decide +kernel, ?_, ?_,
    (hother .socketConnected (by decide) (by decide)).2 (by decide)⟩
  · refine hdropped drop "cam1" (.array []) (.inr ⟨by decide +kernel, ?_⟩)
    rintro name - t ⟨members, value, hmembers, -⟩
    cases hmembers
  · apply hrestored
    · decide +kernel
    · decide +kernel

end Board

end StreamBoard

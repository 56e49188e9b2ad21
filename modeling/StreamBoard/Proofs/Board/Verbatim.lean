import StreamBoard.Dispatch
import StreamBoard.Proofs.Fragment
import StreamBoard.Proofs.Board.LenientView
import StreamBoard.Proofs.Json.Printing

/-!
# Verbatim — what is pushed is shown as it was sent

The text of a fragment decodes to the fragment, and each of its fields, once it is on the board, is
written again as the very text that was sent.  It makes no difference what the board held before,
nor whether the value fits the view of its field.
-/

namespace StreamBoard

namespace Fragment

/-- The text of a fragment decodes to the fragment, but for the discriminator. -/
theorem decode_text {f : Fragment} (hordered : (Json.ofTable f).Ordered)
    (hintegral : (Json.ofTable f).Integral) (hdepth : (Json.ofTable f).depth ≤ Json.depthLimit) :
    decode f.text = .ok (f.erase typeKey) := by
  have hparse := Json.parse_print hintegral hdepth
  rw [Json.ordered_of_ordered _ hordered] at hparse
  refine decode_eq_ok_iff.mpr ⟨f.entries, hparse, ?_⟩
  rw [Table.ofList_entries]

end Fragment

theorem Dispatcher.handleEvent_message (d : Dispatcher) {frame : String} {f : Fragment}
    (h : Fragment.decode frame = .ok f) :
    d.handleEvent (.message frame) = d.dispatch (.updateState f) := by
  have haction : Action.ofEvent? (.message frame) = some (.updateState f) := by
    rw [Action.ofEvent?, Fragment.decode?_eq_some_iff.mpr h, Option.map_some]
  rw [handleEvent, haction]

namespace Board

/-- **What is pushed is shown as it was sent.**  This is said of fragments as they are read, with
the members of every object in order. -/
theorem field_of_message (f : Fragment) (hordered : (Json.ofTable f).Ordered)
    (hintegral : (Json.ofTable f).Integral) (hdepth : (Json.ofTable f).depth ≤ Json.depthLimit) :
    Fragment.decode f.text = .ok (f.erase Fragment.typeKey) ∧
      (∀ d : Dispatcher, d.handleEvent (.message f.text) =
        d.dispatch (.updateState (f.erase Fragment.typeKey))) ∧
      ∀ writes key v, f.find? key = some v → key ≠ Fragment.typeKey → key ≠ connectedKey →
        let b := (Board.writes {} writes).step (.updateState (f.erase Fragment.typeKey))
        b.field key = some v ∧ (b.field key).map Json.print = some v.print := by
  have hdecode := Fragment.decode_text hordered hintegral hdepth
  refine ⟨hdecode, fun d => d.handleEvent_message hdecode, fun writes key v hv htype hflag => ?_⟩
  -- The fragment writes its fields last, whatever wrote to the board before.
  have hfield := (separated_writes writes).field_updateState (f.erase Fragment.typeKey) htype hflag
  rw [Table.find?_erase, if_neg htype, hv, Option.some_or] at hfield
  exact ⟨hfield, congrArg (Option.map Json.print) hfield⟩

/-- A value that fits no view: a fanout should be an object, and its name a text. -/
theorem field_of_message_fanouts :
    let largest : Json := .number (.integer ⟨18446744073709551615, by decide, by decide⟩)
    let v : Json := .array [.object [("\"\n", largest), ("name", .array [])], .string "\\\x1f"]
    let f : Fragment :=
      ⟨[("fanouts", v), ("socketConnected", .null), ("type", .string "t")], by decide⟩
    Fragment.decode f.text = .ok (.ofList [("fanouts", v), ("socketConnected", .null)]) ∧
      (((Board.writes {} [.replace "fanouts" .null, .action .socketConnected]).step
        (.updateState (f.erase Fragment.typeKey))).field "fanouts").map Json.print =
          some "[\x7b\"\\\"\\n\":18446744073709551615,\"name\":[]\x7d,\"\\\\\\u001f\"]" := by
  intro largest v f
  have hordered : (Json.ofTable f).Ordered :=
    ⟨f.ascending, ⟨⟨by decide, trivial, trivial, trivial⟩, trivial, trivial⟩, trivial, trivial,
      trivial⟩
  have hintegral : (Json.ofTable f).Integral :=
    ⟨⟨⟨trivial, trivial, trivial⟩, trivial, trivial⟩, trivial, trivial, trivial⟩
  have hdepth : (Json.ofTable f).depth ≤ Json.depthLimit := by decide +kernel
  obtain ⟨hdecode, -, hfield⟩ := field_of_message f hordered hintegral hdepth
  refine ⟨hdecode.trans (congrArg Except.ok (by decide +kernel)), ?_⟩
  refine (hfield [.replace "fanouts" .null, .action .socketConnected] "fanouts" v
    (by decide +kernel) (by decide) (by decide)).2.trans ?_
  decide +kernel

end Board

end StreamBoard

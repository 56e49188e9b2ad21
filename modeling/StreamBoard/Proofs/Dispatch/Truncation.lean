import StreamBoard.Session
import StreamBoard.Proofs.Fragment
import StreamBoard.Proofs.Json.Truncation

/-!
# Truncation — a frame that is cut is no smaller update

An object is read up to its brace, whatever stands behind it.  So of a frame that ends in a brace no
part is a fragment, for then the whole frame would have something unread behind that part.  Where
the frame is a printed object, it is known as well what is said of the part: that it ends too soon,
and where it ends.
-/

namespace StreamBoard

open Json.Grammar

namespace Json

/-! ## 1. Objects in front of a text -/

theorem Grammar.Writes.object_takes {depth bound : Nat} {w t r : List Char}
    {l : List (String × Json)} (h : Writes depth t (.value (.object l))) (hw : Blanks w)
    (hbound : (w ++ (t ++ r)).length ≤ bound) :
    (outline bound depth (w ++ (t ++ r))).Takes (.object l) r := by
  -- The value has to be a variable for the rules to be taken apart.
  generalize hv : Json.object l = v at h
  cases h with
  | emptyObject hu =>
    cases hv
    have hempty : ∀ key, (Table.empty : Table Json).find? key = [].reverse.lookup key :=
      fun _ => rfl
    exact Json.object_takes hempty (fun _ _ _ => openMembers_close hu) hw hbound
  | object hmembers htable =>
    cases hv
    exact Json.object_takes htable (fun r bound h => (hmembers.isRead r bound h).2) hw hbound
  | scalar hplain => cases hplain <;> cases hv
  | emptyArray _ | array _ => cases hv

/-- Behind the text of an object there are only blanks in a text. -/
theorem Grammar.Text.blanks {p q : List Char} {l : List (String × Json)} {v : Json}
    (h : Text p (.object l)) (hv : Text (p ++ q) v) : Blanks q := by
  obtain ⟨w, t, u, rfl, hw, ht, hu⟩ := h
  have hraw : w ++ (t ++ u) ++ q = w ++ (t ++ (u ++ q)) := by
    simp only [List.append_assoc]
  rw [hraw] at hv
  have htakes := ht.object_takes (r := u ++ q) hw (Nat.le_refl _)
  have hparse : parse (.ofList (w ++ (t ++ (u ++ q)))) = .ok v :=
    parse_eq_ok_iff.mpr (by rwa [String.toList_ofList])
  rw [parse, String.toList_ofList, readText_eq_ok_iff] at hparse
  obtain ⟨-, hnext⟩ := hparse
  -- The reader goes on where the object ends.
  rw [Outline.ofText, depthLimit, htakes.next] at hnext
  intro c hc
  have hdrop := List.dropWhile_eq_nil_iff.mp hnext c (List.mem_append_right u hc)
  exact isBlank_iff.mp hdrop

/-! ## 2. The end of a text -/

/-- What stands behind the last line feed of a text. -/
def lastLine : List Char → List Char
  | [] => []
  | c :: rest => if '\n' ∈ c :: rest then lastLine rest else c :: rest

theorem lastLine_of_not_mem {s : List Char} (h : '\n' ∉ s) : lastLine s = s := by
  cases s with
  | nil => rfl
  | cons c rest => rw [lastLine, if_neg h]

/-- Line and column behind a text are those of its last line. -/
theorem locate_byteLength (line column : Nat) (s : List Char) :
    locate line column (byteLength s) s =
      (line + s.count '\n',
        if '\n' ∈ s then byteLength (lastLine s) else column + byteLength s) := by
  induction s generalizing line column with
  | nil => simp [locate, byteLength]
  | cons c rest ih =>
    have hle : ¬ c.utf8Size + byteLength rest < c.utf8Size := Nat.not_lt.mpr (Nat.le_add_right _ _)
    rw [byteLength, locate, if_neg hle]
    by_cases hc : c = '\n'
    · subst hc
      have hsize : '\n'.utf8Size = 1 := rfl
      rw [if_pos rfl, hsize, Nat.add_sub_cancel_left, ih, List.count_cons_self, lastLine,
        if_pos List.mem_cons_self, if_pos List.mem_cons_self]
      by_cases hrest : '\n' ∈ rest
      · rw [if_pos hrest, Nat.add_right_comm, Nat.add_assoc]
      · rw [if_neg hrest, lastLine_of_not_mem hrest, Nat.zero_add, Nat.add_right_comm,
          Nat.add_assoc]
    · have hmem : '\n' ∈ c :: rest ↔ '\n' ∈ rest := by simp [Ne.symm hc]
      rw [if_neg hc, Nat.add_sub_cancel_left, ih, List.count_cons_of_ne hc]
      by_cases hrest : '\n' ∈ rest
      · rw [if_pos hrest, if_pos (hmem.mpr hrest), lastLine, if_pos (hmem.mpr hrest)]
      · rw [if_neg hrest, if_neg (mt hmem.mp hrest), Nat.add_assoc]

theorem describe_unfinished :
    ∀ cause ∈ unfinished, ∃ what ∈ ["a value", "a list", "an object", "a string"],
      cause.describe = "EOF while parsing " ++ what := by
  decide

/-- A fault found at the end of a text is described as one there. -/
theorem describe_at_nil (cause : Cause) (s : List Char) :
    (Fault.at cause []).describe s = cause.describe ++ " at line " ++
      toString (1 + s.count '\n') ++ " column " ++ toString (byteLength (lastLine s)) := by
  have hcolumn : (if '\n' ∈ s then byteLength (lastLine s) else 0 + byteLength s) =
      byteLength (lastLine s) := by
    by_cases h : '\n' ∈ s
    · rw [if_pos h]
    · rw [if_neg h, lastLine_of_not_mem h, Nat.zero_add]
  show cause.describe ++ " at line " ++
      toString (locate 1 0 (byteLength s - 0 + 0) s).1 ++ " column " ++
      toString (locate 1 0 (byteLength s - 0 + 0) s).2 = _
  rw [Nat.add_zero, Nat.sub_zero, locate_byteLength, hcolumn]

/-! ## 3. Printed objects that are cut -/

/-- **A printed object that is cut is refused at the end of what is left of it.** -/
theorem parse_cut {l : List (String × Json)} {v : Json} {p q : List Char}
    (hparse : parse (Json.object l).print = .ok v) (hsplit : (Json.object l).text = p ++ q)
    (hq : q ≠ []) : ∃ cause ∈ unfinished, parse (.ofList p) = .error (.at cause []) := by
  rw [parse, print, String.toList_ofList, readText_eq_ok_iff] at hparse
  obtain ⟨hvalue, -⟩ := hparse
  have hwritten : (Json.object l).Written depthLimit := by
    rw [Outline.ofText, ← List.append_nil (text _)] at hvalue
    exact written_of_value ends_nil (Nat.le_refl _) hvalue
  have htorn := tears (.object l) p.length depthLimit p q hwritten hsplit hq (Nat.le_refl _)
  cases htorn with
  | fault hfault =>
    obtain ⟨cause, hcause, hvalue⟩ := hfault
    refine ⟨cause, hcause, ?_⟩
    rw [parse, String.toList_ofList, readText, Outline.ofText, hvalue]

end Json

/-! ## 4. Frames that are cut -/

namespace Fragment

theorem decode?_eq_none_of_cut {f : Fragment} {p q : List Char}
    (h : decode (.ofList (p ++ q)) = .ok f) (hlast : '\x7d' ∈ q) :
    decode? (.ofList p) = none := by
  obtain ⟨l, hparse, -⟩ := decode_eq_ok_iff.mp h
  have htext := Json.parse_eq_ok_iff.mp hparse
  rw [String.toList_ofList] at htext
  by_contra hne
  obtain ⟨f', hf'⟩ := Option.ne_none_iff_exists'.mp hne
  obtain ⟨l', hparse', -⟩ := decode_eq_ok_iff.mp (decode?_eq_some_iff.mp hf')
  have htext' := Json.parse_eq_ok_iff.mp hparse'
  rw [String.toList_ofList] at htext'
  -- The brace stands behind what is left, and it is no blank.
  have hblank := htext'.blanks htext '\x7d' hlast
  revert hblank
  decide

theorem message_at_nil {cause : Json.Cause} {what : String}
    (h : cause.describe = "EOF while parsing " ++ what) (p : List Char) :
    (Refusal.malformed (.at cause [])).message (.ofList p) =
      "malformed json: EOF while parsing " ++ what ++ " at line " ++
        toString (1 + p.count '\n') ++ " column " ++
        toString (Json.byteLength (Json.lastLine p)) := by
  have hjoin : "malformed json: EOF while parsing " = "malformed json: " ++ "EOF while parsing " :=
    by decide
  show "malformed json: " ++ (Json.Fault.at cause []).describe (String.ofList p).toList = _
  rw [String.toList_ofList, Json.describe_at_nil, h, hjoin]
  simp only [String.append_assoc]

/-- **A frame that is cut is never taken for a smaller update.**  No part of a frame that ends in a
brace is a fragment, so a session that receives one stays as it is.  Where the frame is a printed
object, the fault is that the part ends too soon, and it is located at the end of the part. -/
theorem decode_cut {frame : String} {f : Fragment} (h : decode frame = .ok f)
    (hlast : frame.toList.getLast? = some '\x7d') {p q : List Char} (hsplit : frame.toList = p ++ q)
    (hq : q ≠ []) :
    decode? (.ofList p) = none ∧
    (∀ s : Session, (s.command (.event (.message (.ofList p)))).1 = s) ∧
    (∀ l, frame = (Json.object l).print →
      ∃ what ∈ ["a value", "a list", "an object", "a string"], ∃ refusal,
        decode (.ofList p) = .error refusal ∧
        refusal.message (.ofList p) = "malformed json: EOF while parsing " ++ what ++ " at line " ++
          toString (1 + p.count '\n') ++ " column " ++
          toString (Json.byteLength (Json.lastLine p))) := by
  have hmem : '\x7d' ∈ q := by
    rw [hsplit, List.getLast?_append, List.getLast?_eq_some_getLast hq] at hlast
    rw [← Option.some.inj hlast]
    exact List.getLast_mem hq
  have hframe : frame = .ofList (p ++ q) := by rw [← hsplit, String.ofList_toList]
  rw [hframe] at h
  have hnone := decode?_eq_none_of_cut h hmem
  refine ⟨hnone, fun s => ?_, fun l hprint => ?_⟩
  · have hevent : s.dispatcher.handleEvent (.message (.ofList p)) = s.dispatcher := by
      rw [Dispatcher.handleEvent, Action.ofEvent?, hnone]
      rfl
    rw [Session.command, hevent]
  · obtain ⟨l', hparse, -⟩ := decode_eq_ok_iff.mp h
    rw [← hframe, hprint] at hparse
    have htext : (Json.object l).text = p ++ q := by
      rw [← hsplit, hprint, Json.print, String.toList_ofList]
    obtain ⟨cause, hcause, hfault⟩ := Json.parse_cut hparse htext hq
    obtain ⟨what, hwhat, hdescribe⟩ := Json.describe_unfinished cause hcause
    have hdecode := decode_eq_malformed_iff.mpr hfault
    exact ⟨what, hwhat, _, hdecode, message_at_nil hdescribe p⟩

/-- What is left of the number is a number, but its object does not close. -/
theorem decode_cut_number :
    let frame := "\x7b\"a\":12\x7d"
    let cut := "\x7b\"a\":1"
    decode frame = .ok (.ofList [("a", .number (.integer (.ofUInt64 12)))]) ∧
    decode? cut = none ∧
    ∃ what refusal, decode cut = .error refusal ∧
      refusal.message cut = "malformed json: EOF while parsing " ++ what ++ " at line 1 column 6" := by
  intro frame cut
  have hdecode : decode frame = .ok (.ofList [("a", .number (.integer (.ofUInt64 12)))]) := by
    decide +kernel
  obtain ⟨hnone, -, hprinted⟩ := decode_cut (p := cut.toList) (q := ['2', '\x7d']) hdecode
    (by decide) (by decide) (by decide)
  rw [String.ofList_toList] at hnone hprinted
  obtain ⟨what, -, refusal, hrefused, hmessage⟩ :=
    hprinted [("a", .number (.integer (.ofUInt64 12)))] (by decide +kernel)
  have hend : " at line 1 column 6" = " at line " ++ (toString (1 + cut.toList.count '\n') ++
      (" column " ++ toString (Json.byteLength (Json.lastLine cut.toList)))) := by
    decide +kernel
  refine ⟨hdecode, hnone, what, refusal, hrefused, ?_⟩
  rw [hmessage, hend]
  simp only [String.append_assoc]

end Fragment

end StreamBoard

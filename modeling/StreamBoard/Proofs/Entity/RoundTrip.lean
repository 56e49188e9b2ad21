import StreamBoard.Proofs.Json.Printing
import StreamBoard.Proofs.Entity.Agreement

/-!
# RoundTrip — reading undoes writing

An entity that was built or read comes back from its document as it was, and so it does from the
compact text of the document (`comesBack_of_made`), if the numbers in it are integers and the text
nests no deeper than texts may.  The text lists declared members first and the others behind them,
so it is not the text of the value that the document reads as; but no name occurs in it twice, and
so the order makes no difference.
-/

namespace StreamBoard

open Json

/-! ## 1. Names in the text of a document -/

namespace Json

theorem outlines_of_listed {m : Members} {l : List (String × Json)} (h : m.listed = .ok l) :
    m.outlines.map (fun m => (m.1, m.2.listed)) = l.map fun e => (e.1, .ok e.2) := by
  fun_induction Members.outlines m generalizing l with
  | case1 how =>
    obtain ⟨-, rfl⟩ := Members.listed_finish_iff.mp h
    rfl
  | case2 key o rest name hkey ih =>
    obtain ⟨k, v, vs, hk, hv, hvs, rfl⟩ := Members.listed_member_iff.mp h
    cases hkey.symm.trans hk
    rw [List.map_cons, List.map_cons, ih hvs, hv]
  | case3 key o rest fault hkey ih =>
    obtain ⟨k, v, vs, hk, -⟩ := Members.listed_member_iff.mp h
    cases hkey.symm.trans hk

variable {o : Outline} {l : List (String × Json)}

theorem members_of_listed (h : o.listed = .ok (.object l)) :
    o.members.map (fun m => (m.1, m.2.listed)) = l.map fun e => (e.1, .ok e.2) := by
  cases o with
  | scalar lexeme =>
    obtain ⟨x, -, hx⟩ := map_eq_ok_iff.mp h
    cases x <;> cases hx
  | array start items =>
    obtain ⟨_, -, hl⟩ := map_eq_ok_iff.mp h
    cases hl
  | object start members =>
    obtain ⟨_, hmembers, hl⟩ := map_eq_ok_iff.mp h
    cases hl
    exact outlines_of_listed hmembers

theorem names_of_listed (h : o.listed = .ok (.object l)) : o.names = l.map Prod.fst := by
  have hnames := congrArg (List.map Prod.fst) (members_of_listed h)
  rw [List.map_map, List.map_map] at hnames
  exact hnames

theorem listed_of_mem_members (h : o.listed = .ok (.object l)) {m : String × Outline}
    (hm : m ∈ o.members) : ∃ v, m.2.listed = .ok v ∧ (m.1, v) ∈ l := by
  have hmem : (m.1, m.2.listed) ∈ l.map fun e => (e.1, Except.ok e.2) := by
    rw [← members_of_listed h]
    exact List.mem_map.mpr ⟨m, hm, rfl⟩
  obtain ⟨⟨k, v⟩, hv, heq⟩ := List.mem_map.mp hmem
  obtain ⟨rfl, heq⟩ := Prod.mk.inj heq
  exact ⟨v, heq.symm, hv⟩

end Json

namespace Layout

variable {α : Type} {σ : Schema α} {blank : α} {document : α → Json}
  (L : Layout σ blank document) {e : α}

theorem names_nodup (ha : σ.Admits (L.extra e)) :
    ((L.members e).map Prod.fst).Nodup := by
  rw [members, List.map_append, List.nodup_append]
  refine ⟨L.names.sublist (Part.keys_written L.parts e), (L.extra e).nodup_keys, ?_⟩
  rintro name hname _ hextra rfl
  obtain ⟨p, hp, rfl⟩ := List.mem_map.mp ((Part.keys_written L.parts e).mem hname)
  -- A part's name is declared, and no undeclared member bears such a name.
  have hcontains := Table.mem_keys_iff.mp hextra
  rw [Table.contains, ha.undeclared _ (L.name_isSome hp)] at hcontains
  cases hcontains

theorem single_of_listed (ha : σ.Admits (L.extra e)) {o : Outline}
    (h : o.listed = .ok (document e)) : σ.Single o.names := by
  rw [L.document_eq] at h
  rw [names_of_listed h]
  exact Schema.single_of_nodup (L.names_nodup ha)

end Layout

theorem StreamOptions.onlyDeclared_of_listed {o : Outline} {options : StreamOptions}
    (h : o.listed = .ok options.document) : OnlyDeclared o := by
  have hnames : o.names = ["passthrough"] := names_of_listed h
  rw [OnlyDeclared, hnames]
  decide

theorem StreamSettings.unambiguous_of_listed {s : StreamSettings} (hs : s.Proper) {o : Outline}
    (h : o.listed = .ok s.document) : Unambiguous o := by
  refine ⟨layout.single_of_listed hs h, ?_⟩
  rintro ⟨name, member⟩ hm rfl
  obtain ⟨v, hv, hmem⟩ := listed_of_mem_members h hm
  -- The member is one of those that are declared, so it is the document of the options.
  have hextra : ("options", v) ∉ s.extra.entries := by
    rw [Table.mem_entries_iff, hs.undeclared "options" rfl]
    exact nofun
  have hoptions : ∃ options, s.options = some options ∧ options.document = v := by
    simpa [members, hextra, member?_eq_membersOf, membersOf, eq_comm] using hmem
  obtain ⟨options, -, rfl⟩ := hoptions
  exact StreamOptions.onlyDeclared_of_listed hv

/-! ## 2. Built and read entities -/

/-- Streams that were built or read. -/
inductive Stream.Made : Stream → Prop
  | new (slug format source : String) : Made { slug, format, source }
  | read {o : Outline} {s : Stream} (h : Stream.read o = .ok s) : Made s

inductive Transcoder.Made : Transcoder → Prop
  | new (name : String) (capacity : Int64) (names : List String) :
    Made { name, capacity, streams := .slugs names }
  | read {o : Outline} {t : Transcoder} (h : Transcoder.read o = .ok t) : Made t

inductive Fanout.Made : Fanout → Prop
  | new (name sink : String) : Made { name, sink }
  | read {o : Outline} {f : Fanout} (h : Fanout.read o = .ok f) : Made f

/-- Settings that were built or read; those that were read may be built upon. -/
inductive StreamSettings.Made : StreamSettings → Prop
  | new (slug : String) : Made { slug }
  | withIngestType {s : StreamSettings} (h : Made s) (v : String) :
    Made { s with ingestType := some v }
  | withSecret {s : StreamSettings} (h : Made s) (v : String) : Made { s with secret := some v }
  | withNotes {s : StreamSettings} (h : Made s) (v : String) : Made { s with notes := some v }
  | read {o : Outline} {s : StreamSettings} (h : StreamSettings.read o = .ok s) : Made s

theorem Stream.Made.admits {s : Stream} (h : s.Made) : schema.Admits s.extra := by
  cases h with
  | new => exact Schema.admits_empty
  | read h => exact layout.admits_of_read h

theorem Transcoder.Made.admits {t : Transcoder} (h : t.Made) : schema.Admits t.extra := by
  cases h with
  | new => exact Schema.admits_empty
  | read h => exact layout.admits_of_read h

theorem Fanout.Made.admits {f : Fanout} (h : f.Made) : schema.Admits f.extra := by
  cases h with
  | new => exact Schema.admits_empty
  | read h => exact layout.admits_of_read h

theorem StreamSettings.Made.proper {s : StreamSettings} (h : s.Made) : s.Proper := by
  induction h with
  | new => exact Schema.admits_empty
  | withIngestType _ _ ih | withSecret _ _ ih | withNotes _ _ ih => exact ih
  | read h => exact proper_of_read h

/-! ## 3. Reading back -/

variable {α : Type} {r : Reader α} {document : α → Json} {e : α}

/-- An entity comes back from its document: from the value of it, and from the text. -/
structure ComesBack (r : Reader α) (document : α → Json) (e : α) : Prop where
  fromValue : readValue r (document e).ordered = .ok e
  fromText : (document e).Integral → (document e).depth ≤ depthLimit →
    readText r (document e).print.toList = .ok e

/-- An entity is read from the text of its document, whatever blanks stand around it. -/
theorem readText_of_agrees (hvalue : readValue r (document e).ordered = .ok e)
    (hagrees : ∀ o, o.listed = .ok (document e) → r.Agrees o) (hintegral : (document e).Integral)
    (hdepth : (document e).depth ≤ depthLimit) {w u : List Char} (hw : Grammar.Blanks w)
    (hu : Grammar.Blanks u) : readText r (w ++ ((document e).text ++ u)) = .ok e := by
  have hlists := ofText_between hintegral hdepth hw hu
  -- The text has the members in another order than the value that is read from it.
  have hsorted := value_of_listed _ _ hlists.listed
  rw [readText_eq_ok_iff, hlists.next, skipBlanks_blanks hu]
  exact ⟨(hagrees _ hlists.listed e).mpr ⟨_, hsorted, hvalue⟩, rfl⟩

theorem comesBack_of_agrees (hvalue : readValue r (document e).ordered = .ok e)
    (hagrees : ∀ o, o.listed = .ok (document e) → r.Agrees o) : ComesBack r document e := by
  refine ⟨hvalue, fun hintegral hdepth => ?_⟩
  have hread := readText_of_agrees hvalue hagrees hintegral hdepth .nil .nil
  rw [List.nil_append, List.append_nil] at hread
  rw [print, String.toList_ofList]
  exact hread

/-- **Entities come back from their documents as they were.** -/
theorem comesBack_of_made :
    (∀ s, Stream.Made s → ComesBack Stream.read Stream.document s) ∧
      (∀ t, Transcoder.Made t → ComesBack Transcoder.read Transcoder.document t) ∧
      (∀ a, ComesBack Assignment.read Assignment.document a) ∧
      (∀ f, Fanout.Made f → ComesBack Fanout.read Fanout.document f) ∧
      (∀ s, StreamSettings.Made s → ComesBack StreamSettings.read StreamSettings.document s) ∧
      ∀ o, ComesBack StreamOptions.read StreamOptions.document o := by
  refine ⟨fun s hs => ?_, fun t ht => ?_, fun a => ?_, fun f hf => ?_, fun s hs => ?_, fun o => ?_⟩
  · exact comesBack_of_agrees (Stream.layout.readValue_document hs.admits) fun _ h =>
      Stream.read_agrees (Stream.layout.single_of_listed hs.admits h)
  · exact comesBack_of_agrees (Transcoder.layout.readValue_document ht.admits) fun _ h =>
      Transcoder.read_agrees (Transcoder.layout.single_of_listed ht.admits h)
  · exact comesBack_of_agrees a.readValue_document fun o _ => Assignment.read_agrees o
  · exact comesBack_of_agrees (Fanout.layout.readValue_document hf.admits) fun _ h =>
      Fanout.read_agrees (Fanout.layout.single_of_listed hf.admits h)
  · exact comesBack_of_agrees (StreamSettings.readValue_document hs.proper) fun _ h =>
      StreamSettings.read_agrees (StreamSettings.unambiguous_of_listed hs.proper h)
  · exact comesBack_of_agrees o.readValue_document fun _ h =>
      StreamOptions.read_agrees (StreamOptions.onlyDeclared_of_listed h)

/-- Settings with an undeclared member that is sorted in front of the declared ones. -/
theorem comesBack_of_made_extra :
    let s : StreamSettings :=
      { slug := "a\n\"", notes := some "\x1f"
        extra := .ofList [("n", .array [.number (.integer ⟨-9, by decide, by decide⟩), .null])] }
    s.Made ∧ s.document.Integral ∧ s.document.depth ≤ depthLimit ∧
      readText StreamSettings.read s.document.print.toList = .ok s ∧
      ComesBack Stream.read Stream.document { slug := "a", source := "b" } ∧
      ComesBack Transcoder.read Transcoder.document { capacity := -1, streams := .slugs ["a"] } ∧
      ComesBack Fanout.read Fanout.document { name := "a" } := by
  intro s
  have hmade : s.Made := .read (o := .ofValue s.document.ordered)
    (toOption_eq_some_iff.mp (by decide +kernel))
  have hintegral : s.document.Integral := ⟨trivial, trivial, ⟨trivial, trivial, trivial⟩, trivial⟩
  have hdepth : s.document.depth ≤ depthLimit := by decide +kernel
  obtain ⟨stream, transcoder, -, fanout, settings, -⟩ := comesBack_of_made
  exact ⟨hmade, hintegral, hdepth, (settings s hmade).fromText hintegral hdepth,
    stream _ (.new "a" "" "b"), transcoder _ (.new "" (-1) ["a"]), fanout _ (.new "a" "")⟩

end StreamBoard

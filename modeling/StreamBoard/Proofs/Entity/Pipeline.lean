import StreamBoard.Entity.Stream
import StreamBoard.Entity.Transcoder
import StreamBoard.Entity.Fanout
import StreamBoard.Proofs.Entity.Layout

/-!
# Pipeline — streams, transcoders and fanouts as their parts

The layouts of the entities of the pipeline.  None of their members is required; a text that is
empty is left out, and so is the time of a stream that was never published.
-/

namespace StreamBoard

open Json

/-! ## 1. Scalars and assignments -/

theorem undoes_int64 : Undoes .int64 fun i => .number (.integer (.ofInt64 i)) where
  reads i := by
    change (if i.toInt < 9223372036854775808 then Except.ok (Int64.ofInt i.toInt)
      else Except.error _) = Except.ok i
    have hlt : i.toInt < 9223372036854775808 := Int64.toInt_lt i
    rw [if_pos hlt, Int64.ofInt_toInt]
  not_null _ := nofun

namespace Assignment

theorem texts?_map_string (names : List String) : texts? (names.map .string) = some names := by
  induction names with
  | nil => rfl
  | cons s rest ih => rw [List.map_cons, texts?, ih, Option.map_some]

theorem texts?_eq_some_iff {items : List Json} {names : List String} :
    texts? items = some names ↔ items = names.map .string := by
  constructor
  · intro h
    -- By cases of the reader: it gets past a text only.
    fun_induction texts? items generalizing names with
    | case1 =>
      cases h
      rfl
    | case2 s rest ih =>
      obtain ⟨more, hmore, rfl⟩ := Option.map_eq_some_iff.mp h
      rw [ih hmore, List.map_cons]
    | case3 => cases h
  · rintro rfl
    exact texts?_map_string names

theorem orderedItems_map_string (names : List String) :
    orderedItems (names.map .string) = names.map .string := by
  induction names with
  | nil => rfl
  | cons s rest ih =>
    rw [List.map_cons, orderedItems, ih]
    rfl

theorem document_ordered (a : Assignment) : a.document.ordered = a.document := by
  cases a with
  | count n => rfl
  | slugs names => rw [document, Json.ordered, orderedItems_map_string]

theorem ofJson?_document (a : Assignment) : ofJson? a.document = some a := by
  cases a with
  | count n =>
    change (if (0 : Int) ≤ n.toNat then some (count (.ofNat (n.toNat : Int).toNat)) else none) = _
    rw [if_pos (Int.natCast_nonneg _), Int.toNat_natCast, UInt64.ofNat_toNat]
  | slugs names => rw [document, ofJson?, texts?_map_string, Option.map_some]

theorem read_eq_ok_iff {o : Outline} {a : Assignment} :
    read o = .ok a ↔ ∃ v, o.value = .ok v ∧ ofJson? v = some a := by
  unfold read
  cases o.value with
  | error fault => simp
  | ok v => cases h : ofJson? v <;> simp [h]

theorem readValue_document (a : Assignment) : readValue read a.document.ordered = .ok a := by
  have hvalue := value_ofValue a.document
  rw [document_ordered] at hvalue ⊢
  exact read_eq_ok_iff.mpr ⟨a.document, hvalue, a.ofJson?_document⟩

theorem undoes_document : Undoes read document :=
  ⟨readValue_document, fun a => by rw [document_ordered]; cases a <;> nofun⟩

end Assignment

/-! ## 2. Layouts -/

namespace Stream

def parts : List (Part Stream) := [
  .always "slug" .string .string slug fun v s => { s with slug := v },
  .text "format" format fun v s => { s with format := v },
  .text "source" source fun v s => { s with source := v },
  .optional "publishedAt" .int64 (fun t => .number (.integer (.ofInt64 t))) publishedAt
    fun v s => { s with publishedAt := v }]

theorem document_eq (s : Stream) :
    s.document = .object (Part.written parts s ++ s.extra.entries) := by
  simp [document, members, parts, Part.written, Part.member?, Part.always, Part.optional, Part.text,
    member?_eq_membersOf, textMember?_eq_membersOf, membersOf_some]

def layout : Layout schema {} document where
  parts := parts
  extra := extra
  fields := rfl
  names := by decide
  get_set := by simp [parts, Part.always, Part.optional, Part.text]
  get_set_of_ne := by simp [parts, Part.always, Part.optional, Part.text]
  get_apply := by simp [parts, Part.always, Part.optional, Part.text, schema, Undeclared.apply]
  extra_set := by simp [parts, Part.always, Part.optional, Part.text]
  extra_apply _ _ _ := rfl
  ext e e' := by
    cases e
    cases e'
    simp +contextual [parts, Part.always, Part.optional, Part.text]
  extra_blank := rfl
  readsAs := by
    simp only [parts, List.forall_mem_cons]
    exact ⟨fun _ => rfl, readsAs_text, readsAs_text, readsAs_optional undoes_int64, List.forall_mem_nil _⟩
  required := List.forall_mem_nil _
  document_eq := document_eq

end Stream

namespace Transcoder

def parts : List (Part Transcoder) := [
  .always "name" .string .string name fun v t => { t with name := v },
  .always "capacity" .int64 (fun i => .number (.integer (.ofInt64 i))) capacity
    fun v t => { t with capacity := v },
  .always "streams" Assignment.read Assignment.document streams fun v t => { t with streams := v }]

theorem document_eq (t : Transcoder) :
    t.document = .object (Part.written parts t ++ t.extra.entries) := by
  simp [document, members, parts, Part.written, Part.member?, Part.always, membersOf_some]

def layout : Layout schema {} document where
  parts := parts
  extra := extra
  fields := rfl
  names := by decide
  get_set := by simp [parts, Part.always]
  get_set_of_ne := by simp [parts, Part.always]
  get_apply := by simp [parts, Part.always, schema, Undeclared.apply]
  extra_set := by simp [parts, Part.always]
  extra_apply _ _ _ := rfl
  ext e e' := by
    cases e
    cases e'
    simp +contextual [parts, Part.always]
  extra_blank := rfl
  readsAs := by
    simp only [parts, List.forall_mem_cons]
    exact ⟨fun _ => rfl, undoes_int64.reads, Assignment.readValue_document, List.forall_mem_nil _⟩
  required := List.forall_mem_nil _
  document_eq := document_eq

end Transcoder

namespace Fanout

def parts : List (Part Fanout) := [
  .always "name" .string .string name fun v f => { f with name := v },
  .text "sink" sink fun v f => { f with sink := v }]

theorem document_eq (f : Fanout) :
    f.document = .object (Part.written parts f ++ f.extra.entries) := by
  simp [document, members, parts, Part.written, Part.member?, Part.always, Part.text,
    textMember?_eq_membersOf, membersOf_some]

def layout : Layout schema {} document where
  parts := parts
  extra := extra
  fields := rfl
  names := by decide
  get_set := by simp [parts, Part.always, Part.text]
  get_set_of_ne := by simp [parts, Part.always, Part.text]
  get_apply := by simp [parts, Part.always, Part.text, schema, Undeclared.apply]
  extra_set := by simp [parts, Part.always, Part.text]
  extra_apply _ _ _ := rfl
  ext e e' := by
    cases e
    cases e'
    simp +contextual [parts, Part.always, Part.text]
  extra_blank := rfl
  readsAs := by
    simp only [parts, List.forall_mem_cons]
    exact ⟨fun _ => rfl, readsAs_text, List.forall_mem_nil _⟩
  required := List.forall_mem_nil _
  document_eq := document_eq

end Fanout

end StreamBoard

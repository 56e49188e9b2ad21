import StreamBoard.Entity.Settings
import StreamBoard.Proofs.Entity.Layout

/-!
# Settings — reading undoes writing

The document of some settings leaves out what is absent, and reading makes absent what is left out.
So settings come back from their document as they were (`readValue_document`), as long as no
undeclared member bears a declared name; all settings that were read have that property
(`proper_of_read`).
-/

namespace StreamBoard

open Json

/-! ## 1. Options -/

theorem StreamOptions.readValue_document (o : StreamOptions) :
    readValue StreamOptions.read o.document.ordered = .ok o := by
  obtain ⟨passthrough⟩ := o
  rfl

theorem StreamOptions.undoes_document : Undoes StreamOptions.read StreamOptions.document :=
  ⟨StreamOptions.readValue_document, fun _ => nofun⟩

/-! ## 2. Settings -/

namespace StreamSettings

def parts : List (Part StreamSettings) := [
  .always "slug" .string .string slug fun v s => { s with slug := v },
  .optional "ingestType" .string .string ingestType fun v s => { s with ingestType := v },
  .optional "secret" .string .string secret fun v s => { s with secret := v },
  .optional "notes" .string .string notes fun v s => { s with notes := v },
  .optional "public" .bool .bool isPublic fun v s => { s with isPublic := v },
  .optional "options" StreamOptions.read StreamOptions.document options
    fun v s => { s with options := v }]

theorem document_eq (s : StreamSettings) :
    s.document = .object (Part.written parts s ++ s.extra.entries) := by
  simp [document, members, parts, Part.written, Part.member?, Part.always, Part.optional,
    member?_eq_membersOf, membersOf_some]

def layout : Layout schema { slug := "" } document where
  parts := parts
  extra := extra
  fields := rfl
  names := by decide
  get_set := by simp [parts, Part.always, Part.optional]
  get_set_of_ne := by simp [parts, Part.always, Part.optional]
  get_apply := by simp [parts, Part.always, Part.optional, schema, Undeclared.apply]
  extra_set := by simp [parts, Part.always, Part.optional]
  extra_apply _ _ _ := rfl
  ext e e' := by
    cases e
    cases e'
    simp +contextual [parts, Part.always, Part.optional]
  extra_blank := rfl
  readsAs := by
    simp only [parts, List.forall_mem_cons]
    exact ⟨fun _ => rfl, readsAs_optional undoes_string, readsAs_optional undoes_string,
      readsAs_optional undoes_string, readsAs_optional undoes_bool,
      readsAs_optional StreamOptions.undoes_document, List.forall_mem_nil _⟩
  required := by simp [parts, Part.always, Part.optional, schema]
  document_eq := document_eq

/-- Undeclared members that settings from a text, a value or a builder have. -/
abbrev Proper (s : StreamSettings) : Prop := schema.Admits s.extra

/-- **All settings that were read are proper.** -/
theorem proper_of_read {o : Outline} {s : StreamSettings} (h : read o = .ok s) : s.Proper :=
  layout.admits_of_read h

/-- **Settings come back from their document as they were.** -/
theorem readValue_document {s : StreamSettings} (h : s.Proper) :
    readValue read s.document.ordered = .ok s :=
  layout.readValue_document h

/-- No other settings come back. -/
theorem readValue_document_iff {s : StreamSettings} :
    readValue read s.document.ordered = .ok s ↔ s.Proper :=
  ⟨proper_of_read, readValue_document⟩

end StreamSettings

end StreamBoard

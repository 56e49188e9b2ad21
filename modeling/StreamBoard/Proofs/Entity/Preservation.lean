import StreamBoard.Proofs.Entity.Agreement

/-!
# Preservation — what of an object is written back

An entity that was read from an object is written with every member of the object, declared or not,
in its place and with its value; only members that are `null` are left out, and texts that are empty
where an entity leaves those out (`at?_document_of_read`).  The one exception are the options of
some settings: they have no table of undeclared members, so of an object of options `passthrough`
alone is written, and it is written always.  Options as a whole come back if they are an object with
`passthrough` and nothing else; `{}` and an array are not written as they were.
-/

namespace StreamBoard

open Json

namespace Json

/-- The value under a name, if this is an object that has it. -/
def at? (v : Json) (key : String) : Option Json := v.members?.bind (·.find? key)

/-- The value at a place: behind the names on the way to it. -/
def under : List String → Json → Option Json
  | [], v => some v
  | key :: rest, v => (v.at? key).bind (under rest)

theorem at?_ofTable (t : Table Json) (key : String) : (ofTable t).at? key = t.find? key := by
  change (Table.ofList t.entries).find? key = t.find? key
  rw [Table.ofList_entries]

theorem ordered_of_at? {J v : Json} {key : String} (hJ : J.Ordered) (hv : J.at? key = some v) :
    v.Ordered := by
  cases J with
  | object l =>
    let t : Table Json := ⟨l, hJ.1⟩
    have hfind : t.find? key = some v := (at?_ofTable t key).symm.trans hv
    exact (ordered_ofTable_iff (t := t)).mp hJ key v hfind
  | _ => cases hv

theorem Integer.eq_of_val_eq {i j : Integer} (h : i.val = j.val) : i = j := by
  cases i
  cases j
  cases h
  rfl

end Json

/-! ## 1. Parts -/

section Keeps

variable {α β : Type} {v : Json}

/-- What `r` reads from the value is written as that value. -/
def Keeps (r : Reader β) (write : β → Json) (v : Json) : Prop :=
  ∀ b, readValue r v = .ok b → write b = v

theorem keeps_string (v : Json) : Keeps .string .string v := by
  intro s h
  obtain ⟨x, rfl, hx⟩ := Reader.string_readsBy.readValue_iff.mp h
  cases x <;> cases hx
  rfl

theorem keeps_bool (v : Json) : Keeps .bool .bool v := by
  intro b h
  obtain ⟨x, rfl, hx⟩ := Reader.bool_readsBy.readValue_iff.mp h
  cases x <;> cases hx
  rfl

theorem keeps_int64 (v : Json) : Keeps .int64 (fun i => .number (.integer (.ofInt64 i))) v := by
  intro b h
  obtain ⟨x, rfl, hx⟩ := Reader.int64_readsBy.readValue_iff.mp h
  unfold Scalar.int64? at hx
  split at hx
  next i =>
    obtain ⟨hlt, hx⟩ := Option.ite_none_right_eq_some.mp hx
    cases hx
    -- The integer is in range, so it is not wrapped.
    have hval : (Int64.ofInt i.val).toInt = i.val := Int64.toInt_ofInt_of_le i.lower hlt
    have hinteger : Integer.ofInt64 (.ofInt i.val) = i := Integer.eq_of_val_eq hval
    exact congrArg (fun i => Json.number (.integer i)) hinteger
  next => cases hx

theorem Assignment.document_of_ofJson? {a : Assignment} (h : ofJson? v = some a) :
    a.document = v := by
  unfold ofJson? at h
  split at h
  next i =>
    obtain ⟨hnonneg, h⟩ := Option.ite_none_right_eq_some.mp h
    cases h
    have hval : ((UInt64.ofNat i.val.toNat).toNat : Int) = i.val := by
      have hlt : i.val.toNat < UInt64.size := by
        have hupper := i.upper
        change i.val.toNat < 18446744073709551616
        omega
      rw [UInt64.toNat_ofNat_of_lt' hlt, Int.toNat_of_nonneg hnonneg]
    have hinteger : Integer.ofUInt64 (.ofNat i.val.toNat) = i := Integer.eq_of_val_eq hval
    rw [document, hinteger]
  next items =>
    obtain ⟨names, hnames, rfl⟩ := Option.map_eq_some_iff.mp h
    rw [document, texts?_eq_some_iff.mp hnames]
  next => cases h

theorem keeps_assignment (hv : v.Ordered) : Keeps Assignment.read Assignment.document v := by
  intro a h
  obtain ⟨w, hw, ha⟩ := Assignment.read_eq_ok_iff.mp h
  rw [value_ofValue, ordered_of_ordered v hv] at hw
  cases hw
  exact Assignment.document_of_ofJson? ha

/-- The part of an entity that was read from this value is written as that value. -/
def Part.Keeps (p : Part α) (v : Json) : Prop :=
  ∀ b, readValue p.read v = .ok b → p.write? b = some v

variable {name : String} {r : Reader β} {write : β → Json}

theorem keeps_always {get : α → β} {set : β → α → α} (h : Keeps r write v) :
    (Part.always name r write get set).Keeps v :=
  fun b hb => congrArg some (h b hb)

theorem keeps_optional {get : α → Option β} {set : Option β → α → α} (hv : v ≠ .null)
    (h : Keeps r write v) : (Part.optional name r write get set).Keeps v := by
  intro b hb
  obtain ⟨c, hc, rfl⟩ := map_eq_ok_iff.mp ((readValue_option hv).symm.trans hb)
  exact congrArg some (h c hc)

theorem keeps_text {get : α → String} {set : String → α → α} (hv : v ≠ .string "") :
    (Part.text name get set).Keeps v := by
  intro s hs
  have heq := keeps_string v s hs
  have hne : ¬ s.isEmpty := by
    intro hempty
    rw [String.isEmpty_iff.mp hempty] at heq
    exact hv heq.symm
  exact (if_neg hne).trans (congrArg some heq)

end Keeps

/-! ## 2. Members -/

variable {α : Type} {σ : Schema α} {blank : α} {document : α → Json}

/-- What reads as an entity is an object. -/
theorem Schema.exists_table_of_read {e : α} {J : Json} (hJ : J.Ordered)
    (h : readValue (σ.read blank) J = .ok e) :
    ∃ t : Table Json, J = ofTable t ∧
      σ.readMembers [] blank (Members.ofValues t.entries) = .ok e := by
  cases J with
  | object l => exact ⟨⟨l, hJ.1⟩, rfl, h⟩
  | _ => cases h

namespace Layout

variable (L : Layout σ blank document) {e : α} {J v : Json} {key : String} {p : Part α}

theorem at?_document (e : α) (key : String) :
    (document e).at? key = (Table.ofList (L.members e)).find? key := by
  rw [L.document_eq]
  rfl

theorem readValue_part (hJ : J.Ordered) (h : readValue (σ.read blank) J = .ok e) (hp : p ∈ L.parts)
    (hv : J.at? p.name = some v) : readValue p.read v = .ok (p.get e) := by
  obtain ⟨t, rfl, hread⟩ := Schema.exists_table_of_read hJ h
  have hpart := (L.sees hp).readsAs_of_ok (L.name_isSome hp)
    (Schema.single_of_nodup t.nodup_keys) hread
  rw [at?_ofTable] at hv
  rw [Table.ofList_entries, hv] at hpart
  exact hpart

/-- **A member is written back with its value,** if it is no part or its part keeps it. -/
theorem at?_document_of_read (hJ : J.Ordered) (h : readValue (σ.read blank) J = .ok e)
    (hv : J.at? key = some v) (hkeeps : v.Ordered → ∀ p ∈ L.parts, p.name = key → p.Keeps v) :
    (document e).at? key = some v := by
  obtain ⟨t, rfl, hread⟩ := Schema.exists_table_of_read hJ h
  have hordered := ordered_of_at? hJ hv
  cases hf : σ.field? key with
  | some f =>
    obtain ⟨p, hp, rfl, -⟩ := L.exists_part hf
    rw [L.at?_document, L.find?_members_part (L.admits_of_read h) hp]
    exact hkeeps hordered p hp rfl _ (L.readValue_part hJ h hp hv)
  | none =>
    have hextra := L.collects.find?_of_ok hread key
    rw [at?_ofTable] at hv
    rw [if_pos hf, Table.ofList_entries, hv, Option.map_some, ordered_of_ordered v hordered,
      Option.some_or] at hextra
    rw [L.at?_document, L.find?_members_undeclared hf, hextra]

end Layout

/-! ## 3. Places -/

/-- What stands at a place of `J` stands there in `D`; `null` need not, nor an empty text that is
the member of one of these names. -/
def Kept (texts : List String) (J D : Json) (path : List String) : Prop :=
  ∀ v, J.under path = some v → v ≠ .null → (∀ name ∈ texts, path = [name] → v ≠ .string "") →
    D.under path = some v

theorem kept_of_at? {texts : List String} {J D : Json} {key : String} {rest : List String}
    (h : ∀ v, J.at? key = some v → v ≠ .null → (key ∈ texts → v ≠ .string "") →
      D.at? key = some v) : Kept texts J D (key :: rest) := by
  intro v hv hnull htext
  obtain ⟨w, hw, hrest⟩ := Option.bind_eq_some_iff.mp hv
  -- What stands on the way to a place has members, so it is neither `null` nor a text.
  refine Option.bind_eq_some_iff.mpr ⟨w, h w hw ?_ ?_, hrest⟩
  · rintro rfl
    cases rest with
    | nil => exact hnull (Option.some.inj hrest).symm
    | cons => cases hrest
  · rintro hkey rfl
    cases rest with
    | nil => exact htext key hkey rfl (Option.some.inj hrest).symm
    | cons => cases hrest

section Entities

variable {J : Json} {key : String} {rest : List String}

theorem Stream.kept {s : Stream} (hJ : J.Ordered) (hs : readValue read J = .ok s) :
    Kept ["format", "source"] J s.document (key :: rest) := by
  refine kept_of_at? fun v hv hnull htext => layout.at?_document_of_read hJ hs hv fun _ => ?_
  -- One case for each part; the two texts are kept where they are not empty.
  change ∀ p ∈ parts, _
  simp only [parts, List.forall_mem_cons]
  refine ⟨fun _ => keeps_always (keeps_string v), ?_, ?_,
    fun _ => keeps_optional hnull (keeps_int64 v), List.forall_mem_nil _⟩
  · rintro rfl
    exact keeps_text (htext (by decide))
  · rintro rfl
    exact keeps_text (htext (by decide))

theorem Transcoder.kept {t : Transcoder} (hJ : J.Ordered) (ht : readValue read J = .ok t) :
    Kept [] J t.document (key :: rest) := by
  refine kept_of_at? fun v hv _ _ => layout.at?_document_of_read hJ ht hv fun hordered => ?_
  change ∀ p ∈ parts, _
  simp only [parts, List.forall_mem_cons]
  exact ⟨fun _ => keeps_always (keeps_string v), fun _ => keeps_always (keeps_int64 v),
    fun _ => keeps_always (keeps_assignment hordered), List.forall_mem_nil _⟩

theorem Fanout.kept {f : Fanout} (hJ : J.Ordered) (hf : readValue read J = .ok f) :
    Kept ["sink"] J f.document (key :: rest) := by
  refine kept_of_at? fun v hv _ htext => layout.at?_document_of_read hJ hf hv fun _ => ?_
  change ∀ p ∈ parts, _
  simp only [parts, List.forall_mem_cons]
  refine ⟨fun _ => keeps_always (keeps_string v), ?_, List.forall_mem_nil _⟩
  rintro rfl
  exact keeps_text (htext (by decide))

theorem StreamSettings.kept {s : StreamSettings} (hJ : J.Ordered) (hs : readValue read J = .ok s)
    (hkey : key ≠ "options") : Kept [] J s.document (key :: rest) := by
  refine kept_of_at? fun v hv hnull _ => layout.at?_document_of_read hJ hs hv fun _ => ?_
  change ∀ p ∈ parts, _
  simp only [parts, List.forall_mem_cons]
  exact ⟨fun _ => keeps_always (keeps_string v), fun _ => keeps_optional hnull (keeps_string v),
    fun _ => keeps_optional hnull (keeps_string v), fun _ => keeps_optional hnull (keeps_string v),
    fun _ => keeps_optional hnull (keeps_bool v), fun h => absurd h.symm hkey,
    List.forall_mem_nil _⟩

end Entities

/-! ## 4. Options -/

namespace StreamOptions

theorem sees_passthrough : schema.Sees "passthrough" .bool passthrough where
  declared := by
    intro f hf o u hu
    obtain rfl := List.mem_singleton.mp hf
    obtain ⟨b, hb, rfl⟩ := map_eq_ok_iff.mp hu
    exact ⟨fun _ _ => hb, fun hne => absurd rfl hne⟩
  undeclared _ _ _ := rfl

theorem passthrough_of_read {J v : Json} {o : StreamOptions} (hJ : J.Ordered)
    (h : readValue read J = .ok o) (hv : J.at? "passthrough" = some v) :
    v = .bool o.passthrough := by
  cases J with
  | object l =>
    obtain ⟨t, ht, hread⟩ := Schema.exists_table_of_read (σ := schema) hJ h
    rw [ht, at?_ofTable] at hv
    have hpart := sees_passthrough.readsAs_of_ok rfl (Schema.single_of_nodup t.nodup_keys) hread
    rw [Table.ofList_entries, hv] at hpart
    exact (keeps_bool v _ hpart).symm
  | _ => cases hv

end StreamOptions

namespace StreamSettings

variable {s : StreamSettings} {J : Json}

/-- The part that holds the options. -/
def optionsPart : Part StreamSettings :=
  .optional "options" StreamOptions.read StreamOptions.document options
    fun v s => { s with options := v }

theorem optionsPart_mem : optionsPart ∈ layout.parts := by
  simp [layout, parts, optionsPart]

theorem at?_options (hs : s.Proper) :
    s.document.at? "options" = s.options.map StreamOptions.document :=
  (layout.at?_document s _).trans (layout.find?_members_part hs optionsPart_mem)

theorem kept_passthrough (hJ : J.Ordered) (hs : readValue read J = .ok s) :
    Kept [] J s.document ["options", "passthrough"] := by
  intro v hv _ _
  obtain ⟨w, hw, hrest⟩ := Option.bind_eq_some_iff.mp hv
  obtain ⟨b, hb, hsome⟩ := Option.bind_eq_some_iff.mp hrest
  cases hsome
  -- The options are there and have a member, so they were read as an object.
  have hnull : w ≠ .null := by
    rintro rfl
    cases hb
  have hread : readValue (Reader.option StreamOptions.read) w = .ok s.options :=
    layout.readValue_part hJ hs optionsPart_mem hw
  rw [readValue_option hnull] at hread
  obtain ⟨o, ho, hoptions⟩ := map_eq_ok_iff.mp hread
  have hbool := StreamOptions.passthrough_of_read (ordered_of_at? hJ hw) ho hb
  rw [under, at?_options (proper_of_read hs), ← hoptions, hbool]
  rfl

theorem under_options_eq_none (hs : s.Proper) {key : String} (hkey : key ≠ "passthrough")
    (rest : List String) : s.document.under ("options" :: key :: rest) = none := by
  rw [under, at?_options hs]
  cases s.options with
  | none => rfl
  | some o =>
    have hnone : o.document.at? key = none :=
      Table.find?_ofList_eq_none (by simpa [StreamOptions.members] using hkey)
    change (o.document.at? key).bind (under rest) = none
    rw [hnone]
    rfl

/-- **Options come back as a whole if they are an object with `passthrough` alone.** -/
theorem at?_options_of_read_iff {v : Json} (hJ : J.Ordered) (hs : readValue read J = .ok s)
    (hv : J.at? "options" = some v) :
    s.document.at? "options" = some v ↔
      ∃ passthrough, v = .object [("passthrough", .bool passthrough)] := by
  rw [at?_options (proper_of_read hs), Option.map_eq_some_iff]
  constructor
  · rintro ⟨o, -, rfl⟩
    exact ⟨o.passthrough, rfl⟩
  · rintro ⟨passthrough, rfl⟩
    have hread : readValue (Reader.option StreamOptions.read)
        (.object [("passthrough", .bool passthrough)]) = .ok s.options :=
      layout.readValue_part hJ hs optionsPart_mem hv
    exact ⟨⟨passthrough⟩, (Except.ok.inj hread).symm, rfl⟩

end StreamSettings

/-! ## 5. Reading and writing -/

/-- **What was read is written back in its place,** except for the options of settings: of their
members `passthrough` is, and no others, and so they come back as a whole if they are an object with
`passthrough` alone.  Options that are `{}` or an array are not written as they were, but as an
object with `passthrough`, which is false where they do not say.  `J` was read itself, so it is
sorted. -/
theorem kept_of_read (J : Json) (hJ : J.Ordered) :
    (∀ s, readValue Stream.read J = .ok s →
      ∀ key rest, Kept ["format", "source"] J s.document (key :: rest)) ∧
    (∀ t, readValue Transcoder.read J = .ok t → ∀ key rest, Kept [] J t.document (key :: rest)) ∧
    (∀ f, readValue Fanout.read J = .ok f →
      ∀ key rest, Kept ["sink"] J f.document (key :: rest)) ∧
    (∀ s, readValue StreamSettings.read J = .ok s →
      (∀ key rest, key ≠ "options" → Kept [] J s.document (key :: rest)) ∧
      Kept [] J s.document ["options", "passthrough"] ∧
      (∀ key rest, key ≠ "passthrough" → s.document.under ("options" :: key :: rest) = none) ∧
      ∀ v, J.at? "options" = some v →
        (s.document.at? "options" = some v ↔
          ∃ passthrough, v = .object [("passthrough", .bool passthrough)])) := by
  refine ⟨fun s hs _ _ => Stream.kept hJ hs, fun t ht _ _ => Transcoder.kept hJ ht,
    fun f hf _ _ => Fanout.kept hJ hf, fun s hs => ⟨?_, ?_, ?_, ?_⟩⟩
  · exact fun key rest hkey => StreamSettings.kept hJ hs hkey
  · exact StreamSettings.kept_passthrough hJ hs
  · exact fun key rest hkey =>
      StreamSettings.under_options_eq_none (StreamSettings.proper_of_read hs) hkey rest
  · exact fun v hv => StreamSettings.at?_options_of_read_iff hJ hs hv

/-- Only settings have options of their own: for any other entity they are undeclared members. -/
theorem kept_of_read_bitrate :
    let rate : Json := .number (.integer ⟨5, by decide, by decide⟩)
    let J : Json := .object [("bitrate", rate),
      ("options", .object [("bitrate", rate), ("passthrough", .bool true)]), ("slug", .string "a")]
    J.Ordered ∧
      (∃ s, readValue Stream.read J = .ok s ∧
        s.document.under ["options", "bitrate"] = some rate) ∧
      (∃ t, readValue Transcoder.read J = .ok t ∧
        t.document.under ["options", "bitrate"] = some rate) ∧
      (∃ f, readValue Fanout.read J = .ok f ∧
        f.document.under ["options", "bitrate"] = some rate) ∧
      ∃ s, readValue StreamSettings.read J = .ok s ∧
        s.document.under ["bitrate"] = some rate ∧
        s.document.under ["options", "passthrough"] = some (.bool true) ∧
        s.document.under ["options", "bitrate"] = none := by
  intro rate J
  have hJ : J.Ordered :=
    ⟨by decide, trivial, ⟨by decide, trivial, trivial, trivial⟩, trivial, trivial⟩
  have hrate : J.under ["options", "bitrate"] = some rate := by decide +kernel
  let options : Json := .object [("bitrate", rate), ("passthrough", .bool true)]
  have hstream : readValue Stream.read J = .ok
      { slug := "a", extra := .ofList [("bitrate", rate), ("options", options)] } :=
    toOption_eq_some_iff.mp (by decide +kernel)
  have htranscoder : readValue Transcoder.read J = .ok
      { extra := .ofList [("bitrate", rate), ("options", options), ("slug", .string "a")] } :=
    toOption_eq_some_iff.mp (by decide +kernel)
  have hfanout : readValue Fanout.read J = .ok
      { extra := .ofList [("bitrate", rate), ("options", options), ("slug", .string "a")] } :=
    toOption_eq_some_iff.mp (by decide +kernel)
  have hsettings : readValue StreamSettings.read J = .ok
      { slug := "a", options := some ⟨true⟩, extra := .ofList [("bitrate", rate)] } :=
    toOption_eq_some_iff.mp (by decide +kernel)
  obtain ⟨stream, transcoder, fanout, settings⟩ := kept_of_read J hJ
  obtain ⟨hkept, hpassthrough, hlost, -⟩ := settings _ hsettings
  refine ⟨hJ, ⟨_, hstream, stream _ hstream "options" ["bitrate"] rate hrate nofun nofun⟩,
    ⟨_, htranscoder, transcoder _ htranscoder "options" ["bitrate"] rate hrate nofun nofun⟩,
    ⟨_, hfanout, fanout _ hfanout "options" ["bitrate"] rate hrate nofun nofun⟩,
    ⟨_, hsettings, ?_, ?_, hlost "bitrate" [] (by decide)⟩⟩
  · exact hkept "bitrate" [] (by decide) rate (by decide +kernel) nofun nofun
  · exact hpassthrough (.bool true) (by decide +kernel) nofun nofun

/-- An option that is not declared does not come back. -/
theorem exists_not_kept :
    ¬ ∀ J : Json, J.Ordered → ∀ s, readValue StreamSettings.read J = .ok s →
      ∀ key rest, Kept [] J s.document (key :: rest) := by
  intro h
  let rate : Json := .number (.integer ⟨5, by decide, by decide⟩)
  let J : Json := .object [
    ("options", .object [("bitrate", rate), ("passthrough", .bool true)]), ("slug", .string "a")]
  have hJ : J.Ordered := ⟨by decide, ⟨by decide, trivial, trivial, trivial⟩, trivial, trivial⟩
  let s : StreamSettings := { slug := "a", options := some ⟨true⟩ }
  have hread : readValue StreamSettings.read J = .ok s :=
    toOption_eq_some_iff.mp (by decide +kernel)
  have hkept := h J hJ s hread "options" ["bitrate"] rate (by decide +kernel) nofun nofun
  have hlost : s.document.under ["options", "bitrate"] = none := by decide +kernel
  rw [hlost] at hkept
  cases hkept

end StreamBoard

import StreamBoard.Rest.Route
import StreamBoard.Proofs.Url.Plain
import StreamBoard.Proofs.Url.Web

/-!
# Route — a slug is one segment of a path

The slug is percent-encoded, so nothing in it ends its segment, and it comes back from there
(`percentDecode_segment`).  An address keeps the segment as it is, but for the slugs `.` and `..`,
which are places in a path and not names (`readSegments_behindSlash`).  The segment is the one
escaped form that the bytes of the slug have, so a path tells its slug and nothing else.
-/

namespace StreamBoard.Rest

open Url

/-! ## 1. Segments -/

/-- A slug as one segment of a path. -/
def segment (slug : String) : List Char := Text.percentEncode Text.isUnreserved slug.toList

theorem segment_injective {slug slug' : String} (h : segment slug = segment slug') :
    slug = slug' := by
  have hchars : slug.toList = slug'.toList :=
    Text.percentEncode_injective (fun _ => Text.isUnreserved_spec) h
  rw [← String.ofList_toList (s := slug), hchars, String.ofList_toList]

theorem percentDecode_segment (slug : String) :
    Text.percentDecode (segment slug) = Text.utf8 slug.toList :=
  Text.percentDecode_percentEncode (fun _ => Text.isUnreserved_spec) _

/-- Nothing in a segment ends it or the path, and a path keeps it as it is. -/
theorem mem_segment {slug : String} {c : Char} (h : c ∈ segment slug) :
    0x20 < c.toNat ∧ isSlash true c = false ∧ startsTail c = false ∧
      c.toNat < 128 ∧ isPrintableBut pathMarks (.ofNat c.toNat) = true := by
  have hencoded := Text.isEncodedChar_of_mem h
  have hascii : c.toNat < 128 := by
    simp only [Text.isEncodedChar, Bool.and_eq_true, decide_eq_true_eq] at hencoded
    exact hencoded.1
  refine Text.forall_ascii (P := fun c => Text.isEncodedChar c = true → 0x20 < c.toNat ∧
    isSlash true c = false ∧ startsTail c = false ∧ c.toNat < 128 ∧
      isPrintableBut pathMarks (.ofNat c.toNat) = true) ?_ hascii hencoded
  decide +kernel

theorem encode_segment (slug : String) : encode pathMarks (segment slug) = segment slug :=
  Text.percentEncode_eq_self fun _ hc => (mem_segment hc).2.2.2

/-- The encoder leaves dots as they are, so none of them stands behind a percent sign. -/
theorem plainDots_percentEncodeBytes (bytes : List UInt8) :
    plainDots (Text.percentEncodeBytes Text.isUnreserved bytes) =
      Text.percentEncodeBytes Text.isUnreserved bytes := by
  induction bytes with
  | nil => rfl
  | cons b bytes ih =>
    rw [Text.percentEncodeBytes_cons]
    cases hb : Text.isUnreserved b with
    | true =>
      rw [if_pos rfl, List.singleton_append,
        plainDots_cons (Text.ofNat_ne_percent (Text.isUnreserved_spec hb)), ih]
    | false =>
      have hdot : b ≠ 0x2e := by
        rintro rfl
        cases hb
      rw [if_neg Bool.false_ne_true, plainDots_percentByte hdot, ih]

theorem plainDots_segment (slug : String) : plainDots (segment slug) = segment slug :=
  plainDots_percentEncodeBytes _

theorem isDot_segment (slug : String) : isDot (segment slug) = true ↔ slug = "." := by
  rw [isDot, plainDots_segment, beq_iff_eq]
  have hdot : segment "." = ['.'] := rfl
  rw [← hdot]
  exact ⟨segment_injective, congrArg segment⟩

theorem isDoubleDot_segment (slug : String) : isDoubleDot (segment slug) = true ↔ slug = ".." := by
  rw [isDoubleDot, plainDots_segment, beq_iff_eq]
  have hdots : segment ".." = ['.', '.'] := rfl
  rw [← hdots]
  exact ⟨segment_injective, congrArg segment⟩

/-! ## 2. Paths -/

/-- The segments at which a request about a slug arrives. -/
def reached (slug : String) : List String :=
  if slug = "." then ["stream", "settings"]
  else if slug = ".." then ["settings"]
  else ["stream", .ofList (segment slug), "settings"]

/-- The segments around the one of the slug. -/
def streamText : List Char := ['s', 't', 'r', 'e', 'a', 'm']
def settingsText : List Char := ['s', 'e', 't', 't', 'i', 'n', 'g', 's']

/-- What the path of a slug has behind its first slash. -/
def behindSlash (slug : String) : List Char :=
  streamText ++ '/' :: (segment slug ++ '/' :: settingsText)

theorem streamSettingsPath_eq (slug : String) :
    streamSettingsPath slug = .ofList ('/' :: behindSlash slug) := by
  have hfront : "/stream/".toList = '/' :: (streamText ++ ['/']) := by decide
  have hback : "/settings".toList = '/' :: settingsText := by decide
  apply String.toList_injective
  rw [streamSettingsPath, String.toList_append, String.toList_append, hfront, hback,
    String.toList_ofList, String.toList_ofList, behindSlash, ← segment]
  simp only [List.cons_append, List.append_assoc, List.nil_append]

/-- What a slug's path has behind its first slash is kept by an address. -/
theorem all_behindSlash (slug : String) : (behindSlash slug).all isInPath = true := by
  have hsegment : (segment slug).all isInPath = true := List.all_eq_true.mpr fun c hc =>
    isInPath_iff.mpr ⟨(mem_segment hc).1, (mem_segment hc).2.2.1⟩
  have hfixed : streamText.all isInPath = true ∧ settingsText.all isInPath = true ∧
      isInPath '/' = true := by decide
  rw [behindSlash, List.all_append, List.all_cons, List.all_append, List.all_cons, hsegment,
    hfixed.1, hfixed.2.1, hfixed.2.2]
  rfl

theorem pieces_behindSlash (slug : String) :
    Text.pieces (isSlash true) (behindSlash slug) = [streamText, segment slug, settingsText] := by
  have hstream : ∀ c ∈ streamText, isSlash true c = false := by simp [streamText, isSlash]
  have hsettings : ∀ c ∈ settingsText, isSlash true c = false := by simp [settingsText, isSlash]
  rw [behindSlash, Text.pieces_append_cons _ hstream rfl,
    Text.pieces_append_cons _ (fun c hc => (mem_segment hc).2.1) rfl,
    Text.pieces_eq_singleton hsettings]

/-- **A slug is one segment where it arrives,** but for those that are dots. -/
theorem readSegments_behindSlash (slug : String) :
    (readSegments .web (behindSlash slug)).map .ofList = reached slug := by
  have hresolve : readSegments .web (behindSlash slug) =
      resolve .web [] [streamText, segment slug, settingsText] := by
    rw [← pieces_behindSlash]
    rfl
  have hfirst : isDoubleDot streamText = false ∧ isDot streamText = false ∧
      encode pathMarks streamText = streamText := by decide +kernel
  have hlast : isDoubleDot settingsText = false ∧ isDot settingsText = false ∧
      encode pathMarks settingsText = settingsText := by decide +kernel
  have hnames : String.ofList streamText = "stream" ∧ String.ofList settingsText = "settings" := by
    decide
  rw [hresolve, reached]
  -- Only the segment of the slug can be one that goes up or stays.
  simp only [resolve, hfirst, hlast, kept, isDot_segment, isDoubleDot_segment, encode_segment]
  by_cases hdot : slug = "."
  · simp [hdot, hnames]
  · by_cases hdots : slug = ".."
    · simp [hdots, above, hnames]
    · simp [hdot, hdots, hnames]

/-- The path that a slug has where it arrives. -/
def reachedPath (slug : String) : String :=
  if slug = "." then settingsPath else if slug = ".." then "/settings" else streamSettingsPath slug

theorem text_reached (slug : String) :
    (Path.segments (reached slug)).text = (reachedPath slug).toList := by
  unfold reached reachedPath
  split
  next => decide +kernel
  next =>
    split
    next => decide +kernel
    next =>
      have hnames : "stream".toList = streamText ∧ "settings".toList = settingsText := by decide
      rw [Path.text, streamSettingsPath_eq, behindSlash]
      simp only [List.flatMap_cons, List.flatMap_nil, hnames, String.toList_ofList,
        List.append_nil, List.cons_append]

theorem streamSettingsPath_injective {slug slug' : String}
    (h : streamSettingsPath slug = streamSettingsPath slug') : slug = slug' := by
  rw [streamSettingsPath_eq, streamSettingsPath_eq] at h
  have hbehind : behindSlash slug = behindSlash slug' :=
    List.cons_inj_right '/' |>.mp (String.ofList_injective h)
  have hpieces := congrArg (Text.pieces (isSlash true)) hbehind
  rw [pieces_behindSlash, pieces_behindSlash, List.cons.injEq, List.cons.injEq] at hpieces
  exact segment_injective hpieces.2.1

/-- A path that is too short to hold a slug is the path of none. -/
theorem streamSettingsPath_ne {path : String} (h : path.length < 17) (slug : String) :
    streamSettingsPath slug ≠ path := by
  intro heq
  have hlength := congrArg String.length heq
  have hfixed : "/stream/".length = 8 ∧ "/settings".length = 9 := by decide
  rw [streamSettingsPath, String.length_append, String.length_append, hfixed.1, hfixed.2] at hlength
  omega

/-- **Different slugs arrive at different paths.** -/
theorem reachedPath_injective {slug slug' : String} (h : reachedPath slug = reachedPath slug') :
    slug = slug' := by
  have hlist : ∀ slug, streamSettingsPath slug ≠ settingsPath := streamSettingsPath_ne (by decide)
  have hshort : ∀ slug, streamSettingsPath slug ≠ "/settings" := streamSettingsPath_ne (by decide)
  have hne : settingsPath ≠ "/settings" := by decide
  unfold reachedPath at h
  split at h
  next hdot =>
    split at h
    next hdot' => rw [hdot, hdot']
    next =>
      split at h
      next => exact absurd h hne
      next => exact absurd h.symm (hlist slug')
  next =>
    split at h
    next hdots =>
      split at h
      next => exact absurd h.symm hne
      next =>
        split at h
        next hdots' => rw [hdots, hdots']
        next => exact absurd h.symm (hshort slug')
    next =>
      split at h
      next => exact absurd h (hlist slug)
      next =>
        split at h
        next => exact absurd h (hshort slug)
        next => exact streamSettingsPath_injective h

/-! ## 3. The form of a path -/

theorem escaped_segment_iff {t : List Char} {slug : String} :
    Text.Escaped t slug.toUTF8.data.toList ↔ t = segment slug := by
  rw [← Text.utf8_toList]
  exact Text.escaped_iff

/-- **The path of a stream has its slug in it, byte for byte.**  Between the fixed parts stands the
escaped form of the bytes of the slug, and they have no other: letters, digits, `-._~`, and percent
signs with two digits.  The bytes are read back from it, and nothing in it ends the segment or the
path; so different slugs have different paths, and none has the path of the list. -/
theorem streamSettingsPath_escapes :
    (∀ slug, ∃ e, streamSettingsPath slug = "/stream/" ++ .ofList e ++ "/settings" ∧
      (∀ t, Text.Escaped t slug.toUTF8.data.toList ↔ t = e) ∧
      Text.percentDecode e = slug.toUTF8.data.toList ∧
      '/' ∉ e ∧ '?' ∉ e ∧ '#' ∉ e) ∧
    Function.Injective streamSettingsPath ∧
    ∀ slug, streamSettingsPath slug ≠ settingsPath := by
  have hmark : ∀ slug c, Text.isEncodedChar c = false → c ∉ segment slug := by
    intro slug c hc hmem
    rw [Text.isEncodedChar_of_mem hmem] at hc
    cases hc
  refine ⟨fun slug => ⟨segment slug, rfl, fun _ => escaped_segment_iff, ?_, ?_, ?_, ?_⟩,
    fun _ _ => streamSettingsPath_injective, streamSettingsPath_ne (by decide)⟩
  · rw [percentDecode_segment, Text.utf8_toList]
  · exact hmark slug '/' (by decide)
  · exact hmark slug '?' (by decide)
  · exact hmark slug '#' (by decide)

/-- A slug that looks like the segment of another one has a segment of its own. -/
theorem streamSettingsPath_escapes_percent :
    streamSettingsPath "a/b" = "/stream/a%2Fb/settings" ∧
      streamSettingsPath "a%2Fb" = "/stream/a%252Fb/settings" ∧
      streamSettingsPath "a/b" ≠ streamSettingsPath "a%2Fb" := by
  refine ⟨by decide +kernel, by decide +kernel, fun h => ?_⟩
  have hslugs := streamSettingsPath_escapes.2.1 h
  exact absurd hslugs (by decide)

end StreamBoard.Rest

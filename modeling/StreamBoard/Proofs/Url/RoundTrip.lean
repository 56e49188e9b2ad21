import StreamBoard.Proofs.Url.Web

/-!
# Round trip — an address that was read comes back from its text

Every part of an address of a known scheme is kept as it is written (`written_of_ofList`), and an
address whose parts are so is read from its text (`ofList_chars`).  So to read and to write once
leaves nothing to change.
-/

namespace StreamBoard.Url

/-! ## 1. Paths -/

theorem above_web (done : List (List Char)) : above .web done = done.tail := rfl

theorem kept_web (done : List (List Char)) (s : List Char) :
    kept .web done s = encode pathMarks s := rfl

/-- **Dots are resolved to segments that are no dots,** and to one at least. -/
theorem isSegment_resolve {done list : List (List Char)} (hne : list = [] → done ≠ [])
    (hdone : ∀ s ∈ done, IsSegment s) (hlist : ∀ s ∈ list, ∀ c ∈ s, isSlash true c = false) :
    resolve .web done list ≠ [] ∧ ∀ s ∈ resolve .web done list, IsSegment s := by
  -- Over the segments that are left; those that are done are segments as they are kept.
  induction list generalizing done with
  | nil =>
    rw [resolve]
    exact ⟨mt List.reverse_eq_nil_iff.mp (hne rfl), fun s hs => hdone s (List.mem_reverse.mp hs)⟩
  | cons s rest ih =>
    have hrest : ∀ t ∈ rest, ∀ c ∈ t, isSlash true c = false := fun t ht =>
      hlist t (List.mem_cons_of_mem _ ht)
    have hcons : ∀ {t l}, IsSegment t → (∀ s ∈ l, IsSegment s) → ∀ s ∈ t :: l, IsSegment s :=
      fun ht hl => List.forall_mem_cons.mpr ⟨ht, hl⟩
    have htail : ∀ s ∈ done.tail, IsSegment s := fun s hs => hdone s (List.mem_of_mem_tail hs)
    simp only [resolve, above_web, kept_web]
    -- A path that ends in a place has an empty segment there.
    by_cases hdoubleDot : isDoubleDot s = true
    · rw [if_pos hdoubleDot]
      by_cases hlast : rest.isEmpty = true
      · rw [if_pos hlast]
        exact ih (fun _ => List.cons_ne_nil _ _) (hcons isSegment_nil htail) hrest
      · rw [if_neg hlast]
        exact ih (fun hnil => absurd (List.isEmpty_iff.mpr hnil) hlast) htail hrest
    rw [if_neg hdoubleDot]
    by_cases hdot : isDot s = true
    · rw [if_pos hdot]
      by_cases hlast : rest.isEmpty = true
      · rw [if_pos hlast]
        exact ih (fun _ => List.cons_ne_nil _ _) (hcons isSegment_nil hdone) hrest
      · rw [if_neg hlast]
        exact ih (fun hnil => absurd (List.isEmpty_iff.mpr hnil) hlast) hdone hrest
    rw [if_neg hdot]
    have hsegment := isSegment_encode (hlist s List.mem_cons_self) (Bool.eq_false_iff.mpr hdot)
      (Bool.eq_false_iff.mpr hdoubleDot)
    exact ih (fun _ => List.cons_ne_nil _ _) (hcons hsegment hdone) hrest

/-- Segments that are no dots are kept as they are. -/
theorem resolve_of_isSegment (done : List (List Char)) {list : List (List Char)}
    (h : ∀ s ∈ list, IsSegment s) : resolve .web done list = done.reverse ++ list := by
  induction list generalizing done with
  | nil => rw [resolve, List.append_nil]
  | cons s rest ih =>
    obtain ⟨hs, hrest⟩ := List.forall_mem_cons.mp h
    simp only [resolve, kept_web, hs.notDoubleDot, hs.notDot, Bool.false_eq_true, if_false,
      encode_eq_self fun c hc => (hs.kept c hc).1]
    rw [ih _ hrest, List.reverse_cons, List.append_assoc, List.singleton_append]

/-- A path of a known scheme: segments that are no dots, and one at least. -/
def IsPath (p : Path) : Prop := ∃ l, p = .segments l ∧ l ≠ [] ∧ ∀ s ∈ l, IsSegment s.toList

/-- **What was read is a path.** -/
theorem isPath_readPath (s : List Char) : IsPath (readPath .web s) := by
  have hsegments : ∀ t, IsPath (.segments ((readSegments .web t).map .ofList)) := by
    intro t
    have hresolve : readSegments .web t ≠ [] ∧ ∀ s ∈ readSegments .web t, IsSegment s :=
      isSegment_resolve (fun hnil => absurd hnil (Text.pieces_ne_nil _ _)) nofun
        fun p hp => Text.isMark_of_mem_pieces hp
    refine ⟨_, rfl, mt List.map_eq_nil_iff.mp hresolve.1, fun s hs => ?_⟩
    obtain ⟨p, hp, rfl⟩ := List.mem_map.mp hs
    rw [String.toList_ofList]
    exact hresolve.2 p hp
  cases s with
  | nil =>
    refine ⟨[""], rfl, List.cons_ne_nil _ _, fun s hs => ?_⟩
    rw [List.mem_singleton.mp hs]
    exact isSegment_nil
  | cons c rest => exact hsegments _

/-- Behind its first slash the text of a path is its segments with a slash between each two. -/
theorem text_segments {l : List String} (h : l ≠ []) :
    (Path.segments l).text = '/' :: Text.joined '/' (l.map String.toList) := by
  induction l with
  | nil => exact absurd rfl h
  | cons s l ih =>
    cases l with
    | nil => simp [Path.text, Text.joined]
    | cons t l =>
      have hcons : (Path.segments (s :: t :: l)).text =
          '/' :: s.toList ++ (Path.segments (t :: l)).text := List.flatMap_cons
      rw [hcons, ih (List.cons_ne_nil t l)]
      rfl

/-- **A path is read from its text.** -/
theorem readPath_text {p : Path} (h : IsPath p) : readPath .web p.text = p := by
  obtain ⟨l, rfl, hne, hsegment⟩ := h
  have hsegment' : ∀ s ∈ l.map String.toList, IsSegment s := by
    intro s hs
    obtain ⟨t, ht, rfl⟩ := List.mem_map.mp hs
    exact hsegment t ht
  have hpieces : Text.pieces (isSlash true) (Text.joined '/' (l.map String.toList)) =
      l.map String.toList :=
    Text.pieces_joined rfl (mt List.map_eq_nil_iff.mp hne) fun s hs c hc =>
      ((hsegment' s hs).kept c hc).2
  have hread : readSegments .web (Text.joined '/' (l.map String.toList)) =
      l.map String.toList := by
    change resolve .web [] (Text.pieces (isSlash true) _) = _
    rw [hpieces, resolve_of_isSegment [] hsegment', List.reverse_nil, List.nil_append]
  have hstrings : (l.map String.toList).map String.ofList = l := by
    rw [List.map_map]
    exact (List.map_congr_left fun s _ => String.ofList_toList).trans (List.map_id l)
  rw [text_segments hne]
  change Path.segments ((readSegments .web (Text.joined '/' (l.map String.toList))).map
    String.ofList) = _
  rw [hread, hstrings]

theorem mem_text_path {p : Path} (h : IsPath p) {c : Char} (hc : c ∈ p.text) :
    c = '/' ∨ isKept pathMarks c = true := by
  obtain ⟨l, rfl, -, hsegment⟩ := h
  obtain ⟨s, hs, hc⟩ := List.mem_flatMap.mp hc
  exact (List.mem_cons.mp hc).imp_right fun hc => ((hsegment s hs).kept c hc).1

/-! ## 2. Addresses as they are kept -/

/-- An address of a known scheme with a host, of which all parts are kept as they are written. -/
structure Written (u : Url) (a : Authority) : Prop where
  authority : u.authority = some a
  proper : a.Proper u.scheme
  user : a.UserProper
  path : IsPath u.path
  query : ∀ q ∈ u.query, ∀ c ∈ q.toList, isKept (queryMarksOf true) c = true
  fragment : ∀ f ∈ u.fragment, ∀ c ∈ f.toList, isKept fragmentMarks c = true

theorem Written.hasHost {u : Url} {a : Authority} (h : Written u a) : u.hasHost = true := by
  rw [Url.hasHost, h.authority]
  exact congrArg not (Host.isEmpty_of_proper h.proper.host)

theorem readQuery?_kept {s : List Char} {q : String} (h : readQuery? .web s = some q) :
    ∀ c ∈ q.toList, isKept (queryMarksOf true) c = true := by
  unfold readQuery? at h
  split at h
  next =>
    cases h
    intro c hc
    rw [String.toList_ofList] at hc
    exact isKept_of_mem (by decide) hc
  next => cases h

theorem readFragment?_kept {s : List Char} {f : String} (h : readFragment? s = some f) :
    ∀ c ∈ f.toList, isKept fragmentMarks c = true := by
  unfold readFragment? at h
  split at h
  next =>
    cases h
    intro c hc
    rw [String.toList_ofList] at hc
    exact isKept_of_mem (by decide) hc
  next => cases h

/-- **What was read is kept as it is written.** -/
theorem written_of_ofList {s : List Char} {u : Url} (h : ofList s = .ok u)
    (hweb : Kind.ofScheme u.scheme = .web) (hhost : u.hasHost = true) : ∃ a, Written u a := by
  obtain ⟨a, tail, hu, ha, huser⟩ := proper_of_ofList h hweb hhost
  refine ⟨a, ?_, ha, huser, ?_, ?_, ?_⟩
  · rw [hu]
    rfl
  · rw [hu]
    exact isPath_readPath _
  · rw [hu]
    exact fun q hq => readQuery?_kept hq
  · rw [hu]
    exact fun f hf => readFragment?_kept hf

/-! ## 3. Text -/

/-- What goes on up to a mark ends where a part begins with it, and where there is no part. -/
theorem takeWhile_markedText (p : Char → Bool) {mark : Char} (hmark : p mark = false)
    (part : Option String) :
    (markedText mark part).takeWhile p = [] ∧
      (markedText mark part).dropWhile p = markedText mark part := by
  have hend : ¬ p mark = true := Bool.eq_false_iff.mp hmark
  cases part with
  | none => exact ⟨rfl, rfl⟩
  | some s => exact ⟨List.takeWhile_cons_of_neg hend, List.dropWhile_cons_of_neg hend⟩

theorem isVisible_of_mem_markedText {marks : List Char} {mark c : Char} {part : Option String}
    (hmark : IsVisible mark) (hblank : ' ' ∈ marks)
    (h : ∀ s ∈ part, ∀ c ∈ s.toList, isKept marks c = true) (hc : c ∈ markedText mark part) :
    IsVisible c := by
  cases part with
  | none => cases hc
  | some s =>
    rcases List.mem_cons.mp hc with rfl | hc
    · exact hmark
    · exact isVisible_of_isKept (h s rfl c hc) hblank

theorem readFragment?_markedText {fragment : Option String}
    (h : ∀ f ∈ fragment, ∀ c ∈ f.toList, isKept fragmentMarks c = true) :
    readFragment? (markedText '#' fragment) = fragment := by
  cases fragment with
  | none => rfl
  | some f => rw [markedText, readFragment?, encode_eq_self (h f rfl), String.ofList_toList]

/-- The mark of the fragment ends the query, which holds no other. -/
theorem readQuery?_markedText {query : Option String}
    (h : ∀ q ∈ query, ∀ c ∈ q.toList, isKept (queryMarksOf true) c = true)
    (fragment : Option String) :
    readQuery? .web (markedText '?' query ++ markedText '#' fragment) = query ∧
      (markedText '?' query ++ markedText '#' fragment).dropWhile (· != '#') =
        markedText '#' fragment := by
  have hstops : ('#' != '#') = false := rfl
  obtain ⟨htake, hdrop⟩ := takeWhile_markedText (· != '#') hstops fragment
  cases query with
  | none =>
    refine ⟨?_, hdrop⟩
    cases fragment with
    | none => rfl
    | some f => rfl
  | some q =>
    have hmark : ∀ c ∈ q.toList, (c != '#') = true := fun c hc =>
      bne_iff_ne.mpr (ne_of_isKept (h q rfl c hc) (by decide))
    have hquery : (q.toList ++ markedText '#' fragment).takeWhile (· != '#') = q.toList := by
      rw [List.takeWhile_append_of_pos hmark, htake, List.append_nil]
    constructor
    · change some (String.ofList (encode (queryMarksOf true)
        ((q.toList ++ markedText '#' fragment).takeWhile (· != '#')))) = some q
      rw [hquery, encode_eq_self (h q rfl), String.ofList_toList]
    · rw [markedText, List.cons_append, List.dropWhile_cons_of_pos rfl,
        List.dropWhile_append_of_pos hmark, hdrop]

section Text

variable {u : Url} {a : Authority}

/-- Path, query and fragment as they are written. -/
def tailText (u : Url) : List Char :=
  u.path.text ++ (markedText '?' u.query ++ markedText '#' u.fragment)

theorem Written.chars_eq (h : Written u a) :
    u.chars = u.scheme.toList ++ ':' :: '/' :: '/' :: (a.text ++ u.tailText) := by
  simp only [chars, authorityText, h.authority, tailText, List.append_assoc, List.cons_append]

/-- **Path, query and fragment are cut where they were put together.** -/
theorem assemble_tailText (h : Written u a) :
    assemble u.scheme .web (some a) (readPath .web) u.tailText = u := by
  have hpath : ∀ c ∈ u.path.text, (!startsTail c) = true := by
    intro c hc
    rcases mem_text_path h.path hc with rfl | hc
    · rfl
    · have hquestion : c ≠ '?' := ne_of_isKept hc (by decide)
      have hhash : c ≠ '#' := ne_of_isKept hc (by decide)
      simp [startsTail, hquestion, hhash]
  have hend : (markedText '?' u.query ++ markedText '#' u.fragment).takeWhile (!startsTail ·) = [] ∧
      (markedText '?' u.query ++ markedText '#' u.fragment).dropWhile (!startsTail ·) =
        markedText '?' u.query ++ markedText '#' u.fragment := by
    cases u.query with
    | none => exact takeWhile_markedText (!startsTail ·) rfl u.fragment
    | some q => exact ⟨rfl, rfl⟩
  obtain ⟨hquery, hrest⟩ := readQuery?_markedText h.query u.fragment
  rw [assemble, tailText, List.takeWhile_append_of_pos hpath, List.dropWhile_append_of_pos hpath,
    hend.1, hend.2, List.append_nil, readPath_text h.path, hquery, hrest,
    readFragment?_markedText h.fragment, ← h.authority]

/-- All that is written is visible ASCII. -/
theorem isVisible_of_mem_tailText (h : Written u a) {c : Char} (hc : c ∈ u.tailText) :
    IsVisible c := by
  rw [tailText, List.mem_append, List.mem_append] at hc
  rcases hc with hc | hc | hc
  · rcases mem_text_path h.path hc with rfl | hc
    · decide
    · exact isVisible_of_isKept hc (by decide)
  · exact isVisible_of_mem_markedText (by decide) (by decide) h.query hc
  · exact isVisible_of_mem_markedText (by decide) (by decide) h.fragment hc

theorem isVisible_of_mem_chars (h : Written u a) (hweb : Kind.ofScheme u.scheme = .web) {c : Char}
    (hc : c ∈ u.chars) : IsVisible c := by
  rw [h.chars_eq] at hc
  simp only [List.mem_append, List.mem_cons] at hc
  rcases hc with hc | rfl | rfl | rfl | hc | hc
  · exact isVisible_of_mem_scheme hweb hc
  · decide
  · decide
  · decide
  · exact (mem_text h.proper.host h.user hc).1
  · exact isVisible_of_mem_tailText h hc

/-- **An address is read from its text.** -/
theorem ofList_chars (h : Written u a) (hweb : Kind.ofScheme u.scheme = .web) :
    ofList u.chars = .ok u := by
  have hslash : ∀ c ∈ u.tailText.head?, (isSlash true c || startsTail c) = true := by
    obtain ⟨l, hl, hne, -⟩ := h.path
    rw [tailText, hl, text_segments hne]
    rintro c ⟨⟩
    rfl
  have hchars : ∀ c ∈ u.tailText, 0x20 < c.toNat := fun c hc =>
    (isVisible_of_mem_tailText h hc).1
  rw [h.chars_eq, ofList_text hweb h.proper h.user hchars hslash, assemble_tailText h]

end Text

end StreamBoard.Url

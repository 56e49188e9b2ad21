import Mathlib.Data.List.Basic
import Mathlib.Data.List.TakeWhile
import StreamBoard.Url.Address
import StreamBoard.Proofs.Json.Printing
import StreamBoard.Proofs.Text.Percent

/-!
# Address — numeric addresses come back from their text

An IPv4 address is written with four decimal bytes (`Ipv4.read?_text`).  An IPv6 address is written
with its groups in hexadecimal and a gap for a run of zeros; the gap is read as what is missing
between the groups in front of it and those behind (`Ipv6.read?_text`).
-/

namespace StreamBoard.Url

/-! ## 1. Digits -/

theorem exists_digitChar {base n : Nat} (hbase : 1 < base) {c : Char}
    (hc : c ∈ Nat.toDigits base n) : ∃ d < base, c = Nat.digitChar d := by
  -- By the number of digits; the last one is the remainder.
  induction n using Nat.strongRecOn with
  | _ n ih =>
    by_cases hlt : n < base
    · rw [Nat.toDigits_of_lt_base hlt, List.mem_singleton] at hc
      exact ⟨n, hlt, hc⟩
    · have hle := Nat.not_lt.mp hlt
      rw [Nat.toDigits_of_base_le hbase hle, List.mem_append, List.mem_singleton] at hc
      rcases hc with hc | hc
      · exact ih _ (Nat.div_lt_self (by omega) hbase) hc
      · exact ⟨n % base, Nat.mod_lt _ (by omega), hc⟩

theorem ne_mark_of_mem {base n : Nat} (hbase : 1 < base ∧ base ≤ 16) {c : Char}
    (hc : c ∈ Nat.toDigits base n) : c ≠ '.' ∧ c ≠ ':' := by
  have hall : ∀ d < 16, Nat.digitChar d ≠ '.' ∧ Nat.digitChar d ≠ ':' := by decide
  obtain ⟨d, hd, rfl⟩ := exists_digitChar hbase.1 hc
  exact hall d (by omega)

theorem hexDigitValue?_digitChar : ∀ d < 16, Text.hexDigitValue? (Nat.digitChar d) = some d := by
  decide

theorem numberIn?_concat {base d : Nat} (hd : d < base) (hbase : base ≤ 16) (s : List Char) :
    numberIn? base (s ++ [Nat.digitChar d]) = (numberIn? base s).map (· * base + d) := by
  simp only [numberIn?, List.foldlM_append, List.foldlM_cons, List.foldlM_nil,
    hexDigitValue?_digitChar d (by omega), if_pos hd, bind_pure]
  cases List.foldlM (m := Option) _ 0 s <;> rfl

/-- **The digits of a number are read as that number,** in any base up to sixteen. -/
theorem numberIn?_toDigits {base : Nat} (hbase : 1 < base ∧ base ≤ 16) (n : Nat) :
    numberIn? base (Nat.toDigits base n) = some n := by
  induction n using Nat.strongRecOn with
  | _ n ih =>
    by_cases hlt : n < base
    · have hnil := numberIn?_concat hlt hbase.2 []
      rw [List.nil_append] at hnil
      rw [Nat.toDigits_of_lt_base hlt, hnil]
      exact congrArg some (by change 0 * base + n = n; omega)
    · have hle := Nat.not_lt.mp hlt
      rw [Nat.toDigits_of_base_le hbase.1 hle,
        numberIn?_concat (Nat.mod_lt _ (by omega)) hbase.2,
        ih (n / base) (Nat.div_lt_self (by omega) hbase.1), Option.map_some, Nat.div_add_mod']

theorem numberIn?_decimal (n : Nat) : numberIn? 10 (Nat.toDigits 10 n) = some n :=
  numberIn?_toDigits (by decide) n

/-! ## 2. IPv4 -/

namespace Ipv4

/-- Only zero has a zero in front, so no decimal number is taken for an octal one. -/
theorem readPart?_toDigits (n : Nat) : readPart? (Nat.toDigits 10 n) = some n := by
  have hnumber := numberIn?_decimal n
  have hwhole := Json.whole_toDigits n
  generalize Nat.toDigits 10 n = s at hnumber hwhole
  unfold readPart?
  split
  next =>
    rcases hwhole with hzero | ⟨⟨hne, -⟩, -⟩
    · cases hzero
    · exact absurd rfl hne
  next x rest =>
    rcases hwhole with hzero | ⟨-, hhead⟩
    · cases hzero
    · exact absurd rfl hhead
  next => exact hnumber

theorem parts_joined {ns : List Nat} (h : ns ≠ []) :
    parts (Text.joined '.' (ns.map (Nat.toDigits 10))) = ns.map (Nat.toDigits 10) := by
  have hpieces : Text.pieces (· == '.') (Text.joined '.' (ns.map (Nat.toDigits 10))) =
      ns.map (Nat.toDigits 10) := by
    refine Text.pieces_joined (by decide) (by simpa using h) fun p hp c hc => ?_
    obtain ⟨n, -, rfl⟩ := List.mem_map.mp hp
    exact beq_false_of_ne (ne_mark_of_mem (by decide) hc).1
  have hlast : (ns.map (Nat.toDigits 10)).getLast? ≠ some [] := by
    intro hlast
    obtain ⟨n, -, hn⟩ := List.mem_map.mp (List.mem_of_getLast? hlast)
    exact Nat.toDigits_ne_nil hn
  rw [parts, hpieces]
  exact if_neg fun h => hlast h.2

theorem mapM_readPart? (ns : List Nat) : (ns.map (Nat.toDigits 10)).mapM readPart? = some ns := by
  induction ns with
  | nil => rfl
  | cons n ns ih => rw [List.map_cons, List.mapM_cons, readPart?_toDigits, ih]; rfl

theorem assemble?_bytes (a : Ipv4) : assemble? 4 a.bytes = some a.value.toNat := by
  have hlt : a.value.toNat < 4294967296 := a.value.toNat_lt
  simp only [bytes]
  generalize a.value.toNat = n at hlt
  -- The bytes weighed by their places, as the reader adds them up.
  have hsum : n / 16777216 * 16777216 + (n / 65536 % 256 * 65536 +
      (n / 256 % 256 * 256 + n % 256)) = n := by omega
  have hpow : Nat.pow 256 (4 - 1) = 16777216 ∧ Nat.pow 256 (4 - 1 - 1) = 65536 ∧
      Nat.pow 256 (4 - 1 - 1 - 1) = 256 := ⟨rfl, rfl, rfl⟩
  simp only [assemble?, hpow]
  rw [if_pos (by omega), if_pos (by omega), if_pos (by omega), if_pos (by omega)]
  exact congrArg some hsum

theorem parts_text (a : Ipv4) : parts a.text = a.bytes.map (Nat.toDigits 10) :=
  parts_joined (List.cons_ne_nil _ _)

/-- **An IPv4 address is read from its text.** -/
theorem read?_text (a : Ipv4) : read? a.text = some a := by
  rw [read?, a.parts_text, mapM_readPart?]
  change (assemble? 4 a.bytes >>= fun value => some (Ipv4.mk (.ofNat value))) = _
  rw [assemble?_bytes]
  change some (Ipv4.mk (.ofNat a.value.toNat)) = _
  rw [UInt32.ofNat_toNat]

theorem endsInNumber_text (a : Ipv4) : endsInNumber a.text = true := by
  have hlast : (parts a.text).getLast? = some (Nat.toDigits 10 (a.value.toNat % 256)) := by
    rw [a.parts_text]
    rfl
  rw [endsInNumber, hlast]
  simp [readPart?_toDigits]

theorem mem_text {a : Ipv4} {c : Char} (h : c ∈ a.text) :
    c = '.' ∨ ∃ d < 10, c = Nat.digitChar d := by
  rcases Text.mem_joined h with h | ⟨p, hp, hc⟩
  · exact .inl h
  · obtain ⟨n, -, rfl⟩ := List.mem_map.mp hp
    exact .inr (exists_digitChar (by decide) hc)

end Ipv4

/-! ## 3. IPv6 -/

namespace Ipv6

theorem readGroup?_toDigits (g : UInt16) : readGroup? (Nat.toDigits 16 g.toNat) = some g := by
  have hlt : g.toNat < 16 ^ 4 := g.toNat_lt
  have hlength : (Nat.toDigits 16 g.toNat).length ≤ 4 :=
    (Nat.length_toDigits_le_iff (by decide) (by decide)).mpr hlt
  have hpos : 1 ≤ (Nat.toDigits 16 g.toNat).length :=
    List.length_pos_iff.mpr Nat.toDigits_ne_nil
  rw [readGroup?, if_pos ⟨hpos, hlength⟩, numberIn?_toDigits (by decide), Option.map_some,
    UInt16.ofNat_toNat]

/-- The groups as they are written. -/
def groupTexts (gs : List UInt16) : List (List Char) := gs.map fun g => Nat.toDigits 16 g.toNat

theorem groupTexts_cons (g : UInt16) (gs : List UInt16) :
    groupTexts (g :: gs) = Nat.toDigits 16 g.toNat :: groupTexts gs := rfl

theorem mapM_readGroup? (gs : List UInt16) : (groupTexts gs).mapM readGroup? = some gs := by
  induction gs with
  | nil => rfl
  | cons g gs ih => rw [groupTexts_cons, List.mapM_cons, readGroup?_toDigits, ih]; rfl

theorem readFinal?_groupTexts (gs : List UInt16) : readFinal? (groupTexts gs) = some gs := by
  induction gs with
  | nil => rfl
  | cons g gs ih =>
    cases gs with
    | nil =>
      have hdot : (Nat.toDigits 16 g.toNat).contains '.' = false := by
        rw [List.contains_eq_mem, decide_eq_false_iff_not]
        exact fun h => (ne_mark_of_mem (by decide) h).1 rfl
      change readFinal? [Nat.toDigits 16 g.toNat] = _
      rw [readFinal?, hdot, readGroup?_toDigits]
      rfl
    | cons h gs =>
      rw [groupTexts_cons, readFinal?, ih, readGroup?_toDigits]
      · rfl
      · exact List.cons_ne_nil _ _

/-- Groups have at least one character and no colon. -/
theorem groupTexts_spec {gs : List UInt16} {p : List Char} (hp : p ∈ groupTexts gs) :
    p ≠ [] ∧ ∀ c ∈ p, c ≠ ':' := by
  obtain ⟨g, -, rfl⟩ := List.mem_map.mp hp
  exact ⟨Nat.toDigits_ne_nil, fun c hc => (ne_mark_of_mem (by decide) hc).2⟩

theorem head?_groupsText (g : UInt16) (gs : List UInt16) :
    ∃ c, (groupsText (g :: gs)).head? = some c ∧ c ≠ ':' := by
  have hmem : Nat.toDigits 16 g.toNat ∈ groupTexts (g :: gs) := List.mem_cons_self
  obtain ⟨hne, hno⟩ := groupTexts_spec hmem
  obtain ⟨c, p, hp⟩ := List.exists_cons_of_ne_nil hne
  refine ⟨c, ?_, hno c (hp ▸ List.mem_cons_self)⟩
  cases gs with
  | nil => exact congrArg List.head? hp
  | cons h gs => exact congrArg (fun s => (s ++ ':' :: groupsText (h :: gs)).head?) hp

theorem colonPieces_groupsText (gs : List UInt16) : colonPieces (groupsText gs) = groupTexts gs := by
  cases gs with
  | nil => rfl
  | cons g gs =>
    have hpieces : Text.pieces (· == ':') (groupsText (g :: gs)) = groupTexts (g :: gs) :=
      Text.pieces_joined (by decide) (List.cons_ne_nil _ _) fun p hp c hc =>
        beq_false_of_ne ((groupTexts_spec hp).2 c hc)
    have hne : (groupsText (g :: gs)).isEmpty = false := by
      obtain ⟨c, hc, -⟩ := head?_groupsText g gs
      rw [List.isEmpty_eq_false_iff]
      intro hempty
      rw [hempty] at hc
      cases hc
    rw [colonPieces, hne, if_neg Bool.false_ne_true, hpieces]

theorem splitGap_append {p : List Char} (hp : ∀ c ∈ p, c ≠ ':') (tail : List Char) :
    splitGap (p ++ tail) = (p ++ (splitGap tail).1, (splitGap tail).2) := by
  induction p with
  | nil => rfl
  | cons c p ih =>
    rw [List.cons_append, splitGap, ih fun d hd => hp d (List.mem_cons_of_mem _ hd)]
    · rfl
    · rintro rest rfl
      exact absurd rfl (hp _ List.mem_cons_self)

/-- Between groups there is one colon, so there is no gap in front of what is behind them. -/
theorem splitGap_groupsText (gs : List UInt16) (tail : List Char) :
    splitGap (groupsText gs ++ tail) = (groupsText gs ++ (splitGap tail).1, (splitGap tail).2) := by
  induction gs with
  | nil => rfl
  | cons g gs ih =>
    have hmem : Nat.toDigits 16 g.toNat ∈ groupTexts (g :: gs) := List.mem_cons_self
    have hg := (groupTexts_spec hmem).2
    cases gs with
    | nil => exact splitGap_append hg tail
    | cons h gs =>
      have hcolon : splitGap (':' :: (groupsText (h :: gs) ++ tail)) =
          (':' :: (splitGap (groupsText (h :: gs) ++ tail)).1,
            (splitGap (groupsText (h :: gs) ++ tail)).2) := by
        rw [splitGap]
        -- A gap would need a second colon, but a group begins with a digit.
        intro rest _ heq
        obtain ⟨c, hc, hne⟩ := head?_groupsText h gs
        have hhead := congrArg List.head? heq
        rw [List.head?_append, hc] at hhead
        exact hne (Option.some.inj hhead)
      have htext : groupsText (g :: h :: gs) =
          Nat.toDigits 16 g.toNat ++ ':' :: groupsText (h :: gs) := rfl
      rw [htext, List.append_assoc, splitGap_append hg, List.cons_append, hcolon, ih,
        List.append_assoc]
      rfl

/-- The groups around a run of zeros. -/
theorem eq_of_zeroRuns {gs : List UInt16} {k n : Nat} (h : (zeroRuns gs)[k]? = some n) :
    gs.take k ++ List.replicate n 0 ++ gs.drop (k + n) = gs := by
  simp only [zeroRuns, List.getElem?_map, Option.map_eq_some_iff] at h
  obtain ⟨j, hj, hn⟩ := h
  obtain ⟨hk, rfl⟩ := List.getElem?_eq_some_iff.mp hj
  rw [List.getElem_range] at hn
  have hzeros : (gs.drop k).takeWhile (· == 0) = List.replicate n 0 := by
    refine List.eq_replicate_iff.mpr ⟨hn, fun g hg => ?_⟩
    exact eq_of_beq (List.mem_takeWhile_imp (p := (· == 0)) hg)
  have hsplit := List.takeWhile_append_dropWhile (p := (· == 0)) (l := gs.drop k)
  rw [hzeros] at hsplit
  have hrest := congrArg (List.drop n) hsplit
  rw [List.drop_left' List.length_replicate, List.drop_drop] at hrest
  rw [List.append_assoc, ← hrest, hsplit, List.take_append_drop]

theorem longest_mem {runs : List Nat} (h : 0 < runs.foldl max 0) : runs.foldl max 0 ∈ runs := by
  rw [List.foldl_max] at h ⊢
  cases hmax : runs.max? with
  | none =>
    rw [hmax] at h
    exact absurd h (Nat.lt_irrefl 0)
  | some m =>
    rw [Option.getD_some, Nat.max_eq_right (Nat.zero_le m)]
    exact List.max?_mem hmax

theorem read?_groupsText {gs : List UInt16} (h : gs.length = 8) :
    read? (groupsText gs) = some ⟨gs, h⟩ := by
  have hsplit := splitGap_groupsText gs []
  rw [List.append_nil] at hsplit
  rw [read?, hsplit]
  simp only [splitGap, List.append_nil, colonPieces_groupsText, readFinal?_groupTexts]
  exact dif_pos h

/-- A gap is read as the zeros that are missing. -/
theorem read?_gap {left right : List UInt16} {n : Nat} (hn : 0 < n)
    (h : (left ++ List.replicate n 0 ++ right).length = 8) :
    read? (groupsText left ++ ':' :: ':' :: groupsText right) =
      some ⟨left ++ List.replicate n 0 ++ right, h⟩ := by
  have hlength := h
  rw [List.length_append, List.length_append, List.length_replicate] at hlength
  have hmissing : 8 - (left.length + right.length) = n := by omega
  rw [read?, splitGap_groupsText]
  simp only [splitGap, List.append_nil, colonPieces_groupsText, mapM_readGroup?,
    readFinal?_groupTexts]
  change (if h : left.length + right.length < 8 then _ else none) = _
  rw [dif_pos (by omega), Option.some.injEq, mk.injEq, hmissing]

/-- **An IPv6 address is read from its text.** -/
theorem read?_text (a : Ipv6) : read? a.text = some a := by
  obtain ⟨gs, hlength⟩ := a
  rw [text]
  simp only
  split
  next => exact read?_groupsText hlength
  next hlong =>
    have hpos : 0 < (zeroRuns gs).foldl max 0 := by omega
    have hgroups := eq_of_zeroRuns (List.getElem?_idxOf (longest_mem hpos))
    have hsum := (congrArg List.length hgroups).trans hlength
    rw [read?_gap hpos hsum, Option.some.injEq, mk.injEq]
    exact hgroups

theorem mem_text {a : Ipv6} {c : Char} (h : c ∈ a.text) :
    c = ':' ∨ ∃ d < 16, c = Nat.digitChar d := by
  have hgroups : ∀ gs, c ∈ groupsText gs → c = ':' ∨ ∃ d < 16, c = Nat.digitChar d := by
    intro gs hc
    rcases Text.mem_joined hc with hc | ⟨p, hp, hc⟩
    · exact .inl hc
    · obtain ⟨g, -, rfl⟩ := List.mem_map.mp hp
      exact .inr (exists_digitChar (by decide) hc)
  rw [text] at h
  simp only at h
  split at h
  next => exact hgroups _ h
  next =>
    simp only [List.mem_append, List.mem_cons] at h
    rcases h with h | h | h | h
    · exact hgroups _ h
    · exact .inl h
    · exact .inl h
    · exact hgroups _ h

end Ipv6

end StreamBoard.Url

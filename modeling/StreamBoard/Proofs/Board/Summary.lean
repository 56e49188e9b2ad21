import StreamBoard.Board.Action
import StreamBoard.Board.View
import StreamBoard.Proofs.Entity.Slots

/-!
# Summary — when the free slots of all transcoders add up

The free slots of one transcoder are exact at any magnitude (`freeSlots_load`), but the runner adds
them up in integers of 64 bits.  No addition is wrong as long as the total fits, and then the
summary is exact; two transcoders are enough for a total that does not.
-/

namespace StreamBoard

/-! ## 1. Sums in 64 bits -/

theorem foldl_add_int64 (l : List Int64) (a : Int64) :
    l.foldl (· + ·) a = .ofInt (a.toInt + (l.map Int64.toInt).sum) := by
  induction l generalizing a with
  | nil => rw [List.foldl_nil, List.map_nil, List.sum_nil, Int.add_zero, Int64.ofInt_toInt]
  | cons x l ih =>
    rw [List.foldl_cons, ih, Int64.ofInt_add, Int64.ofInt_toInt, List.map_cons, List.sum_cons,
      ← Int.add_assoc, Int64.ofInt_add, Int64.ofInt_add, Int64.ofInt_toInt, Int64.ofInt_toInt]

/-- An integer fits in 64 bits if they give it back. -/
theorem toInt_ofInt_eq_iff {n : Int} (h : 0 ≤ n) : (Int64.ofInt n).toInt = n ↔ n < 2 ^ 63 := by
  constructor
  · intro heq
    have hlt := (Int64.ofInt n).toInt_lt
    omega
  · exact fun hlt => Int64.toInt_ofInt_of_le (by omega) hlt

namespace Board

/-! ## 2. One transcoder -/

theorem transcoderLoad_eq {b : Board} {name : String} {t : Transcoder}
    (h : b.transcoders.find? name = some t) :
    b.transcoderLoad name = some (t.streams.length, t.capacity) := by
  rw [transcoderLoad, h, Option.map_some]

/-- **The free slots of a transcoder are exact at every magnitude.**  They are its capacity less the
streams assigned to it, and none if that is negative, whatever the 64 bits of the capacity and of
the count say; the load has the same two figures.  So they never exceed the capacity, and they
neither grow with the streams nor shrink with the capacity. -/
theorem freeSlots_load (t : Transcoder) :
    t.freeSlots.toInt = max 0 (t.capacity.toInt - t.streams.assigned) ∧
    (∀ (b : Board) (name : String), b.transcoders.find? name = some t →
      ∃ n : Nat, b.transcoderLoad name = some (n, t.capacity) ∧ n = t.streams.assigned) ∧
    t.freeSlots.toInt ≤ max 0 t.capacity.toInt ∧
    (∀ u : Transcoder, u.capacity = t.capacity → t.streams.assigned ≤ u.streams.assigned →
      u.freeSlots ≤ t.freeSlots) ∧
    ∀ u : Transcoder, u.streams.assigned = t.streams.assigned → t.capacity ≤ u.capacity →
      t.freeSlots ≤ u.freeSlots := by
  have hexact := t.toInt_freeSlots
  simp only [← Assignment.length_eq_assigned]
  refine ⟨hexact, fun b name hfound => ⟨_, transcoderLoad_eq hfound, rfl⟩, by omega,
    fun u hcapacity hstreams => ?_, fun u hstreams hcapacity => ?_⟩
  · exact Transcoder.freeSlots_mono (hcapacity ▸ Int64.le_refl _) (by omega)
  · exact Transcoder.freeSlots_mono hcapacity (by omega)

/-- At the ends of both ranges: the greatest capacity with a slug that is repeated, and the least
one with the greatest count. -/
theorem freeSlots_load_extreme :
    let t : Transcoder := { capacity := .maxValue, streams := .slugs ["a", "b", "a"] }
    let full : Transcoder := { capacity := .maxValue, streams := .count 18446744073709551615 }
    let debt : Transcoder := { capacity := .minValue, streams := .count 18446744073709551615 }
    let b : Board := { transcoders := .ofList [("w", t)] }
    t.freeSlots.toInt = 9223372036854775804 ∧
      b.transcoderLoad "w" = some (3, .maxValue) ∧
      debt.freeSlots.toInt = 0 ∧ full.freeSlots ≤ t.freeSlots ∧ debt.freeSlots ≤ full.freeSlots := by
  intro t full debt b
  obtain ⟨hexact, hload, -, hstreams, -⟩ := freeSlots_load t
  obtain ⟨hdebt, -, -, -, hcapacity⟩ := freeSlots_load debt
  obtain ⟨n, hn, hthree⟩ := hload b "w" (by decide +kernel)
  have hcount : n = 3 := Int.ofNat_inj.mp hthree
  rw [hcount] at hn
  exact ⟨hexact.trans (by decide), hn, hdebt.trans (by decide), hstreams full rfl (by decide),
    hcapacity full rfl (by decide)⟩

/-! ## 3. Free slots of transcoders -/

/-- The slots that some transcoders have left, without any bound. -/
def slotsLeft (l : List Transcoder) : Int :=
  (l.map fun t => max 0 (t.capacity.toInt - (t.streams.length : Int))).sum

/-- The same, added up in 64 bits. -/
def slotsAdded (l : List Transcoder) : Int64 := (l.map Transcoder.freeSlots).foldl (· + ·) 0

theorem slotsLeft_cons (t : Transcoder) (l : List Transcoder) :
    slotsLeft (t :: l) = max 0 (t.capacity.toInt - t.streams.length) + slotsLeft l := by
  rw [slotsLeft, List.map_cons, List.sum_cons, ← slotsLeft]

theorem slotsLeft_nonneg (l : List Transcoder) : 0 ≤ slotsLeft l := by
  induction l with
  | nil => exact Int.le_refl 0
  | cons t l ih =>
    rw [slotsLeft_cons]
    omega

theorem slotsLeft_take_le (l : List Transcoder) (n : Nat) : slotsLeft (l.take n) ≤ slotsLeft l := by
  induction l generalizing n with
  | nil => exact Int.le_of_eq (congrArg slotsLeft List.take_nil)
  | cons t l ih =>
    cases n with
    | zero => exact slotsLeft_nonneg (t :: l)
    | succ n =>
      rw [List.take_succ_cons, slotsLeft_cons, slotsLeft_cons]
      have hle := ih n
      omega

theorem slotsAdded_eq (l : List Transcoder) : slotsAdded l = .ofInt (slotsLeft l) := by
  have hterms : (l.map Transcoder.freeSlots).map Int64.toInt =
      l.map fun t => max 0 (t.capacity.toInt - (t.streams.length : Int)) := by
    rw [List.map_map]
    exact List.map_congr_left fun t _ => t.toInt_freeSlots
  have hzero : (0 : Int64).toInt = 0 := rfl
  rw [slotsAdded, foldl_add_int64, hterms, hzero, Int.zero_add, slotsLeft]

theorem toInt_slotsAdded_eq_iff (l : List Transcoder) :
    (slotsAdded l).toInt = slotsLeft l ↔ slotsLeft l < 2 ^ 63 := by
  rw [slotsAdded_eq, toInt_ofInt_eq_iff (slotsLeft_nonneg l)]

/-- No addition overflows if the total does not. -/
theorem forall_toInt_slotsAdded_iff (l : List Transcoder) :
    (∀ n, (slotsAdded (l.take n)).toInt = slotsLeft (l.take n)) ↔ slotsLeft l < 2 ^ 63 := by
  simp only [toInt_slotsAdded_eq_iff]
  constructor
  · intro h
    have hall := h l.length
    rwa [List.take_length] at hall
  · exact fun h n => Int.lt_of_le_of_lt (slotsLeft_take_le l n) h

/-! ## 4. The summary -/

/-- **The summary is exact as long as the total fits in 64 bits.**  The terms are exact at any
magnitude, and none is negative.  The total wraps around, and it is the sum exactly if that is below
2^63, which is also exactly when no addition on the way overflows. -/
theorem summary_freeSlots (actions : List Action) :
    let b := run {} actions
    let total := slotsLeft b.transcoders.values
    (∀ t ∈ b.transcoders.values,
      t.freeSlots.toInt = max 0 (t.capacity.toInt - t.streams.length)) ∧
    0 ≤ total ∧
    b.summary.freeSlots = .ofInt total ∧
    (b.summary.freeSlots.toInt = total ↔ total < 2 ^ 63) ∧
    ((∀ n, (slotsAdded (b.transcoders.values.take n)).toInt =
      slotsLeft (b.transcoders.values.take n)) ↔ total < 2 ^ 63) := by
  intro b total
  exact ⟨fun t _ => t.toInt_freeSlots, slotsLeft_nonneg _, slotsAdded_eq _,
    toInt_slotsAdded_eq_iff _, forall_toInt_slotsAdded_iff _⟩

/-- Two transcoders of the greatest capacity, in one frame: by the summary, less than no slot is left.
-/
theorem exists_summary_negative :
    let frame := "\x7b\"transcoders\":\x7b\"a\":\x7b\"capacity\":9223372036854775807\x7d," ++
      "\"b\":\x7b\"capacity\":9223372036854775807\x7d\x7d\x7d"
    ∃ f, Fragment.decode? frame = some f ∧
      let b := run {} [.updateState f]
      slotsLeft b.transcoders.values = 18446744073709551614 ∧ b.summary.freeSlots.toInt = -2 := by
  let full := Json.object [("capacity", .number (.integer (.ofUInt64 9223372036854775807)))]
  let f : Fragment := .ofList [("transcoders", .object [("a", full), ("b", full)])]
  refine ⟨f, ?_, ?_, ?_⟩
  · decide +kernel
  · decide +kernel
  · decide +kernel

end Board

end StreamBoard

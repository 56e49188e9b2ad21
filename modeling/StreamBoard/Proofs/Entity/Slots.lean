import Mathlib.Algebra.Order.Ring.Int
import StreamBoard.Entity.Transcoder

/-!
# Slots — free slots are exact

Free slots are computed in integers of 64 bits that stop at their ends.  They stop only where the
difference of capacity and assigned streams is negative, or where it would be with the true number
of streams, and there no slot is free either way.
-/

namespace StreamBoard

theorem toInt_saturate (i : Int) : (saturate i).toInt = max (-2 ^ 63) (min i (2 ^ 63 - 1)) := by
  unfold saturate
  rw [Int64.toInt_minValue, Int64.toInt_maxValue]
  split
  next hlow =>
    rw [Int64.toInt_minValue]
    omega
  next hlow =>
    split
    next hhigh =>
      rw [Int64.toInt_maxValue]
      omega
    next hhigh =>
      rw [Int64.toInt_ofInt_of_le (by omega) (by omega)]
      omega

/-- How many streams are assigned, without any bound: as many as were counted, or one for each slug
of the list, also for one that stands there again. -/
def Assignment.assigned : Assignment → Int
  | .count n => n.toNat
  | .slugs names => names.length

theorem Assignment.length_eq_assigned (a : Assignment) : a.length = a.assigned := by
  cases a with
  | count n => rfl
  | slugs names => rfl

/-- **Free slots are the capacity less the assigned streams,** never below zero. -/
theorem Transcoder.toInt_freeSlots (t : Transcoder) :
    t.freeSlots.toInt = max 0 (t.capacity.toInt - t.streams.length) := by
  have hcapacity : t.capacity.toInt < 2 ^ 63 := t.capacity.toInt_lt
  have hused := toInt_saturate t.streams.length
  have hleft := toInt_saturate (t.capacity.toInt - (saturate t.streams.length).toInt)
  have hzero : (0 : Int64).toInt = 0 := rfl
  simp only [freeSlots]
  generalize saturate t.streams.length = used at hused hleft
  generalize saturate (t.capacity.toInt - used.toInt) = left at hleft
  split
  next hneg =>
    have hlt : left.toInt < 0 := Int64.lt_iff_toInt_lt.mp hneg
    omega
  next hneg =>
    have hle : ¬ left.toInt < 0 := fun hlt => hneg (Int64.lt_iff_toInt_lt.mpr hlt)
    omega

/-- More capacity and fewer streams leave no fewer slots. -/
theorem Transcoder.freeSlots_mono {t u : Transcoder} (hcapacity : t.capacity ≤ u.capacity)
    (hstreams : u.streams.length ≤ t.streams.length) : t.freeSlots ≤ u.freeSlots := by
  have hle : t.capacity.toInt ≤ u.capacity.toInt := Int64.le_iff_toInt_le.mp hcapacity
  rw [Int64.le_iff_toInt_le, toInt_freeSlots, toInt_freeSlots]
  omega

end StreamBoard

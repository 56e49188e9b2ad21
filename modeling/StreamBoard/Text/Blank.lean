/-!
# Blank — white space, and text without it at its ends

White space is the Unicode property White_Space, which has characters beyond ASCII.
-/

namespace StreamBoard.Text

/-- The characters with the property White_Space. -/
def isBlank (c : Char) : Bool :=
  let n := c.toNat
  (0x09 ≤ n && n ≤ 0x0d) || n == 0x20 || n == 0x85 || n == 0xa0 || n == 0x1680 ||
    (0x2000 ≤ n && n ≤ 0x200a) || n == 0x2028 || n == 0x2029 || n == 0x202f || n == 0x205f ||
    n == 0x3000

/-- Drops the elements at the end that satisfy `p`. -/
def dropEndWhile {α : Type} (p : α → Bool) (l : List α) : List α :=
  (l.reverse.dropWhile p).reverse

/-- Nothing is dropped where the end does not satisfy `p`. -/
theorem dropEndWhile_append {α : Type} {p : α → Bool} (s : List α) {t : List α} (ht : t ≠ [])
    (h : ∀ c ∈ t, p c = false) : dropEndWhile p (s ++ t) = s ++ t := by
  obtain ⟨c, r, hr⟩ := List.exists_cons_of_ne_nil (mt List.reverse_eq_nil_iff.mp ht)
  have hc : ¬ p c = true := by
    rw [h c (List.mem_reverse.mp (hr ▸ List.mem_cons_self))]
    exact Bool.false_ne_true
  have hrev : (s ++ t).reverse = c :: (r ++ s.reverse) := by
    rw [List.reverse_append, hr, List.cons_append]
  rw [dropEndWhile, hrev, List.dropWhile_cons_of_neg hc, ← hrev, List.reverse_reverse]

/-- Nothing is dropped at either end where nothing satisfies `p`. -/
theorem dropEndWhile_dropWhile_eq_self {α : Type} {p : α → Bool} {s : List α}
    (h : ∀ c ∈ s, p c = false) : dropEndWhile p (s.dropWhile p) = s := by
  cases s with
  | nil => rfl
  | cons c s =>
    have hc : ¬ p c = true := Bool.eq_false_iff.mp (h c List.mem_cons_self)
    rw [List.dropWhile_cons_of_neg hc]
    exact dropEndWhile_append [] (List.cons_ne_nil c s) h

/-- Text without the blanks at its ends. -/
def trim (s : List Char) : List Char := dropEndWhile isBlank (s.dropWhile isBlank)

end StreamBoard.Text

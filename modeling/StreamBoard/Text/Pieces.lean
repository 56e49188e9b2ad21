/-!
# Pieces — text cut at marks, and put together again
-/

namespace StreamBoard.Text

/-- The pieces between the characters that are marks: one more than there are marks, so that no text
has none. -/
def pieces (isMark : Char → Bool) : List Char → List (List Char)
  | [] => [[]]
  | c :: rest =>
    if isMark c then [] :: pieces isMark rest
    else match pieces isMark rest with
      | [] => [[c]]
      | piece :: more => (c :: piece) :: more

/-- Pieces with one mark between each two. -/
def joined (mark : Char) : List (List Char) → List Char
  | [] => []
  | [piece] => piece
  | piece :: more => piece ++ mark :: joined mark more

theorem pieces_ne_nil (isMark : Char → Bool) (s : List Char) : pieces isMark s ≠ [] := by
  cases s with
  | nil => simp [pieces]
  | cons c rest =>
    rw [pieces]
    split
    · simp
    · split <;> simp

theorem pieces_eq_singleton {isMark : Char → Bool} {s : List Char}
    (h : ∀ c ∈ s, isMark c = false) : pieces isMark s = [s] := by
  induction s with
  | nil => rfl
  | cons c rest ih =>
    rw [pieces, ih (fun d hd => h d (List.mem_cons_of_mem _ hd)), h c List.mem_cons_self]
    rfl

theorem pieces_append_cons {isMark : Char → Bool} {s : List Char} {mark : Char} (rest : List Char)
    (h : ∀ c ∈ s, isMark c = false) (hm : isMark mark = true) :
    pieces isMark (s ++ mark :: rest) = s :: pieces isMark rest := by
  induction s with
  | nil => simp [pieces, hm]
  | cons c s ih =>
    rw [List.cons_append, pieces, ih (fun d hd => h d (List.mem_cons_of_mem _ hd)),
      h c List.mem_cons_self]
    rfl

/-- No piece holds a mark. -/
theorem isMark_of_mem_pieces {isMark : Char → Bool} {s p : List Char} (hp : p ∈ pieces isMark s) :
    ∀ c ∈ p, isMark c = false := by
  induction s generalizing p with
  | nil =>
    rw [List.mem_singleton.mp hp]
    exact nofun
  | cons d s ih =>
    obtain ⟨q, more, hq⟩ := List.exists_cons_of_ne_nil (pieces_ne_nil isMark s)
    rw [pieces, hq] at hp
    split at hp
    next =>
      rcases List.mem_cons.mp hp with rfl | hp
      · exact nofun
      · exact ih (hq ▸ hp)
    next hd =>
      rcases List.mem_cons.mp hp with rfl | hp
      · intro c hc
        rcases List.mem_cons.mp hc with rfl | hc
        · exact Bool.eq_false_iff.mpr hd
        · exact ih (hq ▸ List.mem_cons_self) c hc
      · exact ih (hq ▸ List.mem_cons_of_mem _ hp)

theorem mem_joined {mark c : Char} {l : List (List Char)} (h : c ∈ joined mark l) :
    c = mark ∨ ∃ p ∈ l, c ∈ p := by
  induction l with
  | nil => cases h
  | cons p more ih =>
    cases more with
    | nil => exact .inr ⟨p, List.mem_cons_self, h⟩
    | cons q more =>
      change c ∈ p ++ mark :: joined mark (q :: more) at h
      rcases List.mem_append.mp h with h | h
      · exact .inr ⟨p, List.mem_cons_self, h⟩
      rcases List.mem_cons.mp h with h | h
      · exact .inl h
      rcases ih h with h | ⟨r, hr, hc⟩
      · exact .inl h
      · exact .inr ⟨r, List.mem_cons_of_mem _ hr, hc⟩

/-- **Cutting undoes joining,** for one piece or more that hold no mark. -/
theorem pieces_joined {isMark : Char → Bool} {mark : Char} (hm : isMark mark = true)
    {l : List (List Char)} (hl : l ≠ []) (h : ∀ p ∈ l, ∀ c ∈ p, isMark c = false) :
    pieces isMark (joined mark l) = l := by
  induction l with
  | nil => exact absurd rfl hl
  | cons p more ih =>
    cases more with
    | nil => exact pieces_eq_singleton (h p List.mem_cons_self)
    | cons q more =>
      rw [joined, pieces_append_cons _ (h p List.mem_cons_self) hm,
        ih (by simp) (fun r hr => h r (List.mem_cons_of_mem _ hr))]
      simp

end StreamBoard.Text

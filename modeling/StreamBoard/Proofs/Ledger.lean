import StreamBoard.Table

/-!
# Ledger — runs and their steps

A run folds a list of steps over a state.  What one step writes to one part of the state is an
`Option`; the part holds the last of these writes, or what it held before the run.  `lastWrite?`
searches the list from its end and so knows nothing of the state that the run goes through.  Where
it matters what came before a step and what after, the list is split there.
-/

namespace StreamBoard

variable {σ α β : Type}

/-! ## 1. The last write -/

/-- The write of the last element that writes. -/
def lastWrite? (writes : α → Option β) (l : List α) : Option β := l.reverse.findSome? writes

@[simp] theorem lastWrite?_nil (writes : α → Option β) : lastWrite? writes [] = none := rfl

theorem lastWrite?_cons (writes : α → Option β) (a : α) (l : List α) :
    lastWrite? writes (a :: l) = (lastWrite? writes l).or (writes a) := by
  simp [lastWrite?, List.findSome?_append]

theorem lastWrite?_append (writes : α → Option β) (l m : List α) :
    lastWrite? writes (l ++ m) = (lastWrite? writes m).or (lastWrite? writes l) := by
  simp [lastWrite?, List.findSome?_append]

theorem lastWrite?_filterMap {γ : Type} (writes : β → Option γ) (f : α → Option β) (l : List α) :
    lastWrite? writes (l.filterMap f) = lastWrite? (fun a => (f a).bind writes) l := by
  induction l with
  | nil => rfl
  | cons a l ih =>
    rw [lastWrite?_cons, ← ih, List.filterMap_cons]
    cases f a with
    | none => exact (Option.or_none).symm
    | some b => exact lastWrite?_cons writes b _

/-- What every step keeps, a run keeps. -/
theorem foldl_keeps {step : σ → α → σ} (Inv : σ → Prop) {l : List α}
    (keeps : ∀ s a, a ∈ l → Inv s → Inv (step s a)) {s : σ} (h : Inv s) :
    Inv (l.foldl step s) := by
  induction l generalizing s with
  | nil => exact h
  | cons a l ih =>
    rw [List.foldl_cons]
    exact ih (fun s a ha => keeps s a (List.mem_cons_of_mem _ ha))
      (keeps s a List.mem_cons_self h)

/-- **A part of the state holds the last write to it.** -/
theorem foldl_view {step : σ → α → σ} (Inv : σ → Prop) (view : σ → Option β)
    (writes : α → Option β) (keeps : ∀ s a, Inv s → Inv (step s a))
    (view_step : ∀ s a, Inv s → view (step s a) = (writes a).or (view s))
    (l : List α) {s : σ} (h : Inv s) :
    view (l.foldl step s) = (lastWrite? writes l).or (view s) := by
  induction l generalizing s with
  | nil => rfl
  | cons a l ih =>
    -- What `a` writes is the oldest write: it counts only if none of the others writes.
    rw [List.foldl_cons, ih (keeps s a h), view_step s a h, lastWrite?_cons, Option.or_assoc]

/-- **What a state shares with the last write, it shares after every run.** -/
theorem foldl_relates {step : σ → α → σ} (Rel : σ → β → Prop) (writes : α → Option β)
    (relates : ∀ s b a, Rel s b → Rel (step s a) ((writes a).getD b)) (l : List α) {s : σ} {b : β}
    (h : Rel s b) : Rel (l.foldl step s) ((lastWrite? writes l).getD b) := by
  induction l generalizing s b with
  | nil => exact h
  | cons a l ih =>
    have hlast := ih (relates s b a h)
    rwa [← Option.getD_or, ← lastWrite?_cons] at hlast

/-! ## 2. Splitting at a step -/

theorem concat_split {past before since : List α} {s x : α} :
    past ++ [s] = before ++ x :: since ↔
      (past = before ∧ s = x ∧ since = []) ∨
        ∃ since', since = since' ++ [s] ∧ past = before ++ x :: since' := by
  constructor
  · intro h
    rcases List.eq_nil_or_concat since with rfl | ⟨since', y, rfl⟩
    · -- The new step itself is where the run is split.
      obtain ⟨hpast, hs⟩ := List.append_inj' h rfl
      exact .inl ⟨hpast, List.singleton_inj.mp hs, rfl⟩
    · simp only [List.concat_eq_append] at h ⊢
      rw [← List.cons_append, ← List.append_assoc] at h
      obtain ⟨hpast, hs⟩ := List.append_inj' h rfl
      rw [← List.singleton_inj.mp hs]
      exact .inr ⟨since', rfl, hpast⟩
  · rintro (⟨rfl, rfl, rfl⟩ | ⟨since', rfl, rfl⟩)
    · rfl
    · simp

/-- Where no two elements bear one name, the element with a name stands at one place. -/
theorem split_unique {f : α → Option β} {name : β} {x y : α} (hx : f x = some name)
    (hy : f y = some name) {before since before' since' : List α}
    (hdistinct : ((before ++ x :: since).filterMap f).Nodup)
    (h : before ++ x :: since = before' ++ y :: since') :
    before = before' ∧ x = y ∧ since = since' := by
  induction before generalizing before' with
  | nil =>
    cases before' with
    | nil => simpa using h
    | cons z before' =>
      obtain ⟨rfl, rfl⟩ := List.cons.inj h
      rw [List.nil_append, List.filterMap_cons_some hx, List.nodup_cons] at hdistinct
      exact absurd (List.mem_filterMap.mpr ⟨y, by simp, hy⟩) hdistinct.1
  | cons z before ih =>
    cases before' with
    | nil =>
      obtain ⟨rfl, rfl⟩ := List.cons.inj h
      rw [List.cons_append, List.filterMap_cons_some hy, List.nodup_cons] at hdistinct
      exact absurd (List.mem_filterMap.mpr ⟨x, by simp, hx⟩) hdistinct.1
    | cons w before' =>
      obtain ⟨rfl, htail⟩ := List.cons.inj h
      have hsub : ((before ++ x :: since).filterMap f).Sublist
          ((z :: (before ++ x :: since)).filterMap f) :=
        (List.sublist_cons_self z _).filterMap f
      obtain ⟨rfl, hxy, hsince⟩ := ih (hdistinct.sublist hsub) htail
      exact ⟨rfl, hxy, hsince⟩

end StreamBoard

import Mathlib.Data.List.Nodup
import Mathlib.Data.List.Perm.Basic
import StreamBoard.Proofs.Board.LenientView

/-!
# Composition — fragments one after the other

Writes to different fields do not see each other (`put_comm`), and of two writes to one field the
first leaves nothing behind (`put_put_self`).  So the order in which a fragment is applied does not
matter, and two fragments are one, in which the later value counts (`putAll_overlay`).  All this
holds of the whole board: the views, the pushed values and the fields without a view.
-/

namespace StreamBoard

namespace Board

/-! ## 1. Two writes -/

/-- All fields but the connection flag may be written. -/
theorem replaceField_of_ne (b : Board) {key : String} (h : key ≠ connectedKey) (value : Json) :
    b.replaceField key value = .ok (b.put key value) := by
  unfold put replaceField
  cases MapKey.ofName? key with
  | some k => rfl
  | none =>
    rw [if_neg h]
    rfl

/-- **Of two writes to one field the later one counts.** -/
theorem put_put_self (b : Board) (key : String) (v w : Json) :
    (b.put key v).put key w = b.put key w := by
  rcases key_cases key with ⟨k, rfl⟩ | rfl | ⟨hkey, hflag⟩
  · simp only [put_name, view_with_pushed, view_view_self, Table.insert_insert_self]
  · simp only [put_connectedKey]
  · simp only [put_extra _ hkey hflag, Table.insert_insert_self]

/-- **Writes to different fields change places.** -/
theorem put_comm (b : Board) {key key' : String} (h : key ≠ key') (v w : Json) :
    (b.put key v).put key' w = (b.put key' w).put key v := by
  rcases key_cases key with ⟨k, rfl⟩ | rfl | ⟨hkey, hflag⟩
  · rcases key_cases key' with ⟨l, rfl⟩ | rfl | ⟨hkey', hflag'⟩
    · have hlk : l ≠ k := fun heq => h (by rw [heq])
      simp only [put_name, view_with_pushed, b.view_comm hlk, Table.insert_comm _ h]
    · simp only [put_connectedKey]
    · simp only [put_name, put_extra _ hkey' hflag', view_extra, view_with_extra]
  · simp only [put_connectedKey]
  · rcases key_cases key' with ⟨l, rfl⟩ | rfl | ⟨hkey', hflag'⟩
    · simp only [put_name, put_extra _ hkey hflag, view_extra, view_with_extra]
    · simp only [put_connectedKey]
    · simp only [put_extra _ hkey hflag, put_extra _ hkey' hflag', Table.insert_comm _ h]

/-! ## 2. Fragments -/

theorem put_putAll (b : Board) {key : String} {l : List (String × Json)}
    (h : ∀ m ∈ l, m.1 ≠ key) (value : Json) :
    (b.put key value).putAll l = (b.putAll l).put key value := by
  induction l generalizing b with
  | nil => rfl
  | cons m l ih =>
    have hcomm := b.put_comm (h m List.mem_cons_self).symm value m.2
    change ((b.put key value).put m.1 m.2).putAll l = _
    rw [hcomm]
    exact ih _ fun n hn => h n (List.mem_cons_of_mem _ hn)

/-- A member that is put into a table is applied last. -/
theorem putAll_put (b : Board) (key : String) (value : Json) {l : List (String × Json)}
    (h : l.Pairwise fun m n => m.1 < n.1) :
    b.putAll (Table.put key value l) = (b.putAll l).put key value := by
  induction l generalizing b with
  | nil => rfl
  | cons m l ih =>
    obtain ⟨k, v⟩ := m
    obtain ⟨hk, hl⟩ := List.pairwise_cons.mp h
    -- All keys behind the head are greater.
    have hrest : ∀ m ∈ l, m.1 ≠ k := fun m hm heq => String.lt_irrefl _ (heq ▸ hk m hm)
    rw [Table.put]
    split
    next hlt =>
      have hbefore : ∀ m ∈ (k, v) :: l, key < m.1 := by
        intro m hm
        rcases List.mem_cons.mp hm with rfl | hm
        · exact hlt
        · exact String.lt_trans hlt (hk m hm)
      refine b.put_putAll (fun m hm heq => ?_) value
      have hless := hbefore m hm
      rw [heq] at hless
      exact String.lt_irrefl key hless
    next =>
      split
      next heq =>
        subst heq
        change (b.put key value).putAll l = ((b.put key v).putAll l).put key value
        rw [← put_putAll _ hrest, put_put_self]
      next => exact ih (b.put k v) hl

theorem putAll_insert (b : Board) (t : Table Json) (key : String) (value : Json) :
    b.putAll (t.insert key value).entries = (b.putAll t.entries).put key value :=
  b.putAll_put key value t.ascending

/-- A member that has been applied may be written once more. -/
theorem putAll_put_self (b : Board) {t : Table Json} {key : String} {value : Json}
    (h : t.find? key = some value) : (b.putAll t.entries).put key value = b.putAll t.entries := by
  rw [← putAll_insert, Table.insert_eq_self h]

/-- **Two tables of members one after the other are one,** in which the later value counts. -/
theorem putAll_overlay (b : Board) (s t : Table Json) :
    (b.putAll s.entries).putAll t.entries = b.putAll (s.overlay t).entries := by
  rw [Table.overlay]
  generalize t.entries = l
  induction l generalizing s with
  | nil => rfl
  | cons m l ih =>
    change ((b.putAll s.entries).put m.1 m.2).putAll l = _
    rw [← putAll_insert, ih]
    rfl

/-- What may not be written makes no difference to the rest. -/
theorem putAll_erase_connectedKey (b : Board) (t : Table Json) :
    b.putAll (t.erase connectedKey).entries = b.putAll t.entries := by
  cases hflag : t.find? connectedKey with
  | none => rw [Table.erase_eq_self hflag]
  | some value =>
    have hinsert := b.putAll_insert (t.erase connectedKey) connectedKey value
    rw [Table.insert_erase hflag, put_connectedKey] at hinsert
    exact hinsert.symm

/-- **The order of the members does not matter.** -/
theorem putAll_perm (b : Board) {l m : List (String × Json)} (h : l.Perm m)
    (hdistinct : (l.map Prod.fst).Nodup) : b.putAll l = b.putAll m := by
  refine h.foldl_eq' (fun x hx y hy c => ?_) b
  by_cases heq : x.1 = y.1
  · rw [List.inj_on_of_nodup_map hdistinct hx hy heq]
  · exact c.put_comm heq x.2 y.2

theorem step_updateState_overlay (b : Board) (f g : Fragment) :
    (b.step (.updateState f)).step (.updateState g) = b.step (.updateState (f.overlay g)) := by
  rw [step_updateState, step_updateState, step_updateState, putAll_overlay, Table.erase_overlay]

/-- A run of fragments is one fragment. -/
theorem run_updateState (b : Board) (f : Fragment) (l : List Fragment) :
    (b.step (.updateState f)).run (l.map .updateState) =
      b.step (.updateState (l.foldl Table.overlay f)) := by
  induction l generalizing f with
  | nil => rfl
  | cons g l ih =>
    change ((b.step (.updateState f)).step (.updateState g)).run (l.map .updateState) = _
    rw [step_updateState_overlay, ih]
    rfl

/-- **Fragments compose.**  In turn: the board after a fragment is the same in whatever order its
members are applied; the discriminator and the connection flag make no difference to it, the flag
because it is refused, and all other members have been written, so that they may be written once
more, and they are what is read of their fields; a fragment behind another one is laid over it, and
so is every fragment of a run; a fragment that is repeated changes nothing; and fragments without a
common key change places. -/
theorem step_fragments (b : Board) (f g : Fragment) :
    (∀ l : List (String × Json), l.Perm f.entries →
      b.putAll (l.filter fun m => m.1 != Fragment.typeKey) = b.step (.updateState f)) ∧
    b.step (.updateState ((f.erase Fragment.typeKey).erase connectedKey)) =
      b.step (.updateState f) ∧
    (∀ value, b.replaceField connectedKey value = .error .reserved) ∧
    (∀ key value, f.find? key = some value → key ≠ Fragment.typeKey → key ≠ connectedKey →
      (b.step (.updateState f)).replaceField key value = .ok (b.step (.updateState f))) ∧
    (b.Separated → ∀ key, key ≠ Fragment.typeKey → key ≠ connectedKey →
      (b.step (.updateState f)).field key = (f.find? key).or (b.field key)) ∧
    (∀ key, (f.overlay g).find? key = (g.find? key).or (f.find? key)) ∧
    (b.step (.updateState f)).step (.updateState g) = b.step (.updateState (f.overlay g)) ∧
    (∀ l : List Fragment, (b.step (.updateState f)).run (l.map .updateState) =
      b.step (.updateState (l.foldl Table.overlay f))) ∧
    (b.step (.updateState f)).step (.updateState f) = b.step (.updateState f) ∧
    ((∀ key, f.contains key = true → g.contains key = false) →
      (b.step (.updateState f)).step (.updateState g) =
        (b.step (.updateState g)).step (.updateState f)) := by
  refine ⟨fun l hl => ?_, ?_, fun value => ?_, fun key value hkey htype hflag => ?_,
    fun hb key htype hflag => ?_, Table.find?_overlay f g, b.step_updateState_overlay f g,
    b.run_updateState f, ?_, fun hdisjoint => ?_⟩
  · rw [step_updateState]
    refine b.putAll_perm (hl.filter _) ?_
    have hdistinct := (hl.map Prod.fst).nodup_iff.mpr f.nodup_keys
    exact hdistinct.sublist (List.filter_sublist.map Prod.fst)
  · have htype : ((f.erase Fragment.typeKey).erase connectedKey).find? Fragment.typeKey = none := by
      rw [Table.find?_erase, Table.find?_erase, if_pos rfl]
      exact ite_self none
    rw [step_updateState, step_updateState, Table.erase_eq_self htype, putAll_erase_connectedKey]
  · rw [replaceField, ofName?_connectedKey]
    rfl
  · rw [replaceField_of_ne _ hflag, step_updateState]
    refine congrArg Except.ok (b.putAll_put_self ?_)
    rw [Table.find?_erase, if_neg htype, hkey]
  · exact hb.field_updateState f htype hflag
  · rw [step_updateState_overlay, Table.overlay_self]
  · rw [step_updateState_overlay, step_updateState_overlay, Table.overlay_comm hdisjoint]

/-- A refused member in front of another one does not keep that from being written, and a fragment
without a key of this one may come before it or after it. -/
theorem step_fragments_refused :
    let b : Board := {}
    let f : Fragment := .ofList
      [("type", .string "UPDATE_STATE"), ("socketConnected", .bool true), ("fanouts", .null)]
    let g : Fragment := .ofList [("uptime", .bool true)]
    b.putAll [("socketConnected", .bool true), ("fanouts", .null)] = b.step (.updateState f) ∧
    (b.step (.updateState f)).field "fanouts" = some .null ∧
    (b.step (.updateState f)).step (.updateState g) =
      (b.step (.updateState g)).step (.updateState f) := by
  intro b f g
  obtain ⟨horder, -, -, -, hfield, -, -, -, -, hcomm⟩ := step_fragments b f g
  refine ⟨?_, ?_, hcomm fun key hkey => ?_⟩
  · exact horder [("socketConnected", .bool true), ("type", .string "UPDATE_STATE"),
      ("fanouts", .null)] (by decide +kernel)
  · rw [hfield separated_blank "fanouts" (by decide) (by decide)]
    decide +kernel
  · have hkeys : ∀ key ∈ f.keys, g.contains key = false := by decide +kernel
    exact hkeys key (Table.mem_keys_iff.mpr hkey)

end Board

end StreamBoard

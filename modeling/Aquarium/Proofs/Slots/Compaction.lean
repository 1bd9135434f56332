import Aquarium.Proofs.Slots
import Aquarium.Schedule.DaySchedule
import Mathlib.Data.Nat.Basic
import Mathlib.Order.Lattice

/-!
# Sorting a slot table is a stable compaction

A table is sorted cell by cell, with an order that takes values and empty cells together. What comes
out can be told from the values alone: they stand in the first slots, in ascending order of their
keys, and values of one key stand in the order they had. This file fixes

* `StablySorted`: what it is for a list to be sorted by a key, and that a list can be sorted in one
  way only (`StablySorted.unique`);
* that values which an order does not tell apart keep their order (`filter_values_sortBy`), however
  they were scattered among the empty slots;
* that a table whose occupied slots are the first ones takes a new value right behind them
  (`Packed.append_eq`);
* `CompactedBy`: what a sorted table is, and that sorting gives just this table (`sortBy_compacts`);
  the points of a day are sorted so by their times (`DaySchedule.compactedBy_sorted`).
-/

namespace Aquarium

universe u v

/-- The order of values by a key. -/
def byKey {α : Type u} {κ : Type v} [LinearOrder κ] (key : α → κ) (a b : α) : Bool :=
  key a ≤ key b

variable {α : Type u} {κ : Type v} [LinearOrder κ] {key : α → κ}

theorem byKey_trans (key : α → κ) (a b c : α) :
    byKey key a b = true → byKey key b c = true → byKey key a c = true := by
  simp only [byKey, decide_eq_true_eq]
  exact le_trans

theorem byKey_total (key : α → κ) (a b : α) : (byKey key a b || byKey key b a) = true := by
  simp only [byKey, Bool.or_eq_true, decide_eq_true_eq]
  exact le_total _ _

/-! ## 1. Sorted by a key -/

/-- Two lists have the same values of every key, in the same order. -/
def SameTies (key : α → κ) (xs ys : List α) : Prop :=
  ∀ k, (xs.filter fun a => key a = k) = ys.filter fun a => key a = k

/-- A list has the values of another one in ascending order of their keys, and those of one key in
the order that they had. -/
structure StablySorted (key : α → κ) (before after : List α) : Prop where
  perm : after.Perm before
  ascending : after.Pairwise fun a b => key a ≤ key b
  ties : SameTies key after before

namespace SameTies

variable {x y : α} {xs ys : List α}

theorem symm (h : SameTies key xs ys) : SameTies key ys xs := fun k => (h k).symm

theorem trans {zs : List α} (h : SameTies key xs ys) (h' : SameTies key ys zs) :
    SameTies key xs zs := fun k => (h k).trans (h' k)

theorem mem (h : SameTies key xs ys) (hx : x ∈ xs) : x ∈ ys := by
  have hmem : x ∈ xs.filter fun a => key a = key x := List.mem_filter.mpr ⟨hx, by simp⟩
  rw [h] at hmem
  exact (List.mem_filter.mp hmem).1

/-- The first value of an ascending list has the least key of any list with the same values. -/
theorem key_le (h : SameTies key ys (x :: xs))
    (hascending : (x :: xs).Pairwise fun a b => key a ≤ key b) (hy : y ∈ ys) :
    key x ≤ key y := by
  rcases List.mem_cons.mp (h.mem hy) with rfl | hmem
  · exact le_refl _
  · exact (List.pairwise_cons.mp hascending).1 y hmem

theorem of_cons (h : SameTies key (x :: xs) (x :: ys)) : SameTies key xs ys := by
  intro k
  have hk := h k
  rw [List.filter_cons, List.filter_cons] at hk
  split at hk
  · exact (List.cons.inj hk).2
  · exact hk

/-- Two ascending lists that have the same values of every key, in the same order, are equal. -/
theorem eq_of_ascending (h : SameTies key xs ys) (hxs : xs.Pairwise fun a b => key a ≤ key b)
    (hys : ys.Pairwise fun a b => key a ≤ key b) : xs = ys := by
  induction xs generalizing ys with
  | nil =>
      cases ys with
      | nil => rfl
      | cons y ys => cases h.symm.mem (List.mem_cons_self ..)
  | cons x xs ih =>
      cases ys with
      | nil => cases h.mem (List.mem_cons_self ..)
      | cons y ys =>
          have hkey : key x = key y :=
            le_antisymm (h.symm.key_le hxs (List.mem_cons_self ..))
              (h.key_le hys (List.mem_cons_self ..))
          -- so both stand first among the values of this key
          have hfirst := h (key x)
          rw [List.filter_cons_of_pos (by simp), List.filter_cons_of_pos (by simp [hkey])] at hfirst
          obtain ⟨rfl, -⟩ := List.cons.inj hfirst
          rw [ih h.of_cons (List.pairwise_cons.mp hxs).2 (List.pairwise_cons.mp hys).2]

end SameTies

/-- **A list can be sorted by a key in one way only.** -/
theorem StablySorted.unique {before xs ys : List α} (hx : StablySorted key before xs)
    (hy : StablySorted key before ys) : xs = ys :=
  (hx.ties.trans hy.ties.symm).eq_of_ascending hx.ascending hy.ascending

/-- What an order does not tell apart keeps its order. -/
theorem filter_mergeSort {β : Type u} {le : β → β → Bool}
    (trans : ∀ a b c, le a b → le b c → le a c) (total : ∀ a b, (le a b || le b a) = true)
    {p : β → Bool} (tied : ∀ a b, p a → p b → le a b) (l : List β) :
    (l.mergeSort le).filter p = l.filter p := by
  have hascending : (l.filter p).Pairwise fun a b => le a b = true :=
    List.pairwise_of_forall_mem_list fun a ha b hb =>
      tied a b (List.mem_filter.mp ha).2 (List.mem_filter.mp hb).2
  have hsub : (l.filter p).Sublist ((l.mergeSort le).filter p) := by
    have h := (List.sublist_mergeSort trans total hascending List.filter_sublist).filter p
    simpa only [List.filter_filter, Bool.and_self] using h
  have hlength : (l.filter p).length = ((l.mergeSort le).filter p).length :=
    ((List.mergeSort_perm l le).filter p).length_eq.symm
  exact (hsub.eq_of_length hlength).symm

namespace Slots

variable {capacity : Nat} {s t : Slots α capacity}

/-! ## 2. The values among the empty slots -/

theorem filter_filterMap_id (p : α → Bool) (cs : List (Option α)) :
    (cs.filterMap id).filter p = (cs.filter fun c => c.any p).filterMap id := by
  rw [List.filter_filterMap, List.filterMap_filter]
  congr 1
  funext c
  cases c with
  | none => rfl
  | some a => cases h : p a <;> simp [h]

/-- **Values that the order does not tell apart keep their order**, whatever empty slots stand
between them. -/
theorem filter_values_sortBy {le : α → α → Bool} (trans : ∀ a b c, le a b → le b c → le a c)
    (total : ∀ a b, (le a b || le b a) = true) {p : α → Bool}
    (tied : ∀ a b, p a → p b → le a b) (s : Slots α capacity) :
    (s.sortBy le).values.filter p = s.values.filter p := by
  have hcells : ∀ c d : Option α, c.any p → d.any p → cellLE le c d
    | some a, some b, ha, hb => tied a b ha hb
    | some _, none, _, _ => rfl
    | none, _, h, _ => by cases h
  unfold values sortBy
  rw [filter_filterMap_id, filter_mergeSort (cellLE_trans trans) (cellLE_total total) hcells,
    ← filter_filterMap_id]

/-- The values of a table sorted by a key are those of before, sorted. -/
theorem stablySorted_values (key : α → κ) (s : Slots α capacity) :
    StablySorted key s.values (s.sortBy (byKey key)).values where
  perm := values_sortBy_perm _ s
  ascending :=
    (pairwise_values_sortBy (byKey_trans key) (byKey_total key) s).imp fun h => of_decide_eq_true h
  ties k := by
    refine filter_values_sortBy (byKey_trans key) (byKey_total key) (fun a b ha hb => ?_) s
    have hkey : key a = key b := (of_decide_eq_true ha).trans (of_decide_eq_true hb).symm
    exact decide_eq_true (le_of_eq hkey)

/-- Sorting a sorted table changes nothing. -/
theorem sortBy_sortBy {le : α → α → Bool} (trans : ∀ a b c, le a b → le b c → le a c)
    (total : ∀ a b, (le a b || le b a) = true) (s : Slots α capacity) :
    (s.sortBy le).sortBy le = s.sortBy le :=
  ext (List.mergeSort_of_pairwise
    (List.pairwise_mergeSort (cellLE_trans trans) (cellLE_total total) s.cells))

/-! ## 3. Occupied slots in front -/

/-- The values stand in front of the empty slots just if the first slots are occupied, as many as
there are values, and no others. -/
theorem packed_iff : s.Packed ↔ ∀ i, (s.get? i).isSome = true ↔ i < s.count := by
  constructor
  · intro h i
    rw [h.get?_eq, isSome_getElem?, count]
  · intro h
    have hcell : ∀ i (hi : i < s.cells.length), s.cells[i].isSome = true ↔ i < s.count := by
      intro i hi
      rw [← h i, get?, List.getElem?_eq_getElem hi]
      exact Iff.rfl
    refine List.pairwise_iff_getElem.mpr fun i j hi hj hij hsome => ?_
    rw [hcell] at hsome ⊢
    exact Nat.lt_trans hij hsome

/-- The cells of a packed table are its values and as many empty cells as it has room left. -/
theorem Packed.cells_eq (h : s.Packed) :
    s.cells = s.values.map some ++ List.replicate (capacity - s.count) none := by
  have hlength : (s.values.map some ++ List.replicate (capacity - s.count) none).length =
      capacity := by
    have := s.count_le
    simp only [List.length_append, List.length_map, List.length_replicate]
    unfold count at *
    omega
  have heq : s = ⟨_, hlength⟩ := by
    refine ext_get? fun i => ?_
    rw [h.get?_eq, get?, List.getElem?_append, List.length_map]
    split
    · rw [List.getElem?_map]
      cases s.values[i]? <;> rfl
    · rename_i hi
      rw [List.getElem?_eq_none (Nat.le_of_not_lt hi), List.getElem?_replicate]
      split <;> rfl
  exact congrArg cells heq

theorem fillFirst_append (a : α) (xs : List α) (cs : List (Option α)) :
    fillFirst a (xs.map some ++ none :: cs) = xs.map some ++ some a :: cs := by
  induction xs with
  | nil => rfl
  | cons x xs ih => exact congrArg (some x :: ·) ih

/-- **A packed table takes a new value into the slot behind its values**, and refuses it just if it
has no such slot. -/
theorem Packed.append_eq (h : s.Packed) (a : α) :
    s.append a = if s.count = capacity then (false, s) else (true, s.set s.count (some a)) := by
  unfold append
  simp only [isFull_iff]
  split
  · rfl
  · rename_i hroom
    obtain ⟨n, hn⟩ : ∃ n, capacity - s.count = n + 1 :=
      Nat.exists_eq_succ_of_ne_zero (by have := s.count_le; omega)
    have hcells := h.cells_eq
    rw [hn, List.replicate_succ] at hcells
    refine congrArg (true, ·) (ext ?_)
    show fillFirst a s.cells = s.cells.set s.count (some a)
    rw [hcells, fillFirst_append, List.set_append_right _ _ (by rw [List.length_map, count]),
      List.length_map, count, Nat.sub_self, List.set_cons_zero]

/-! ## 4. Sorting -/

/-- What a table sorted by a key is. The first slots are occupied, as many as there were values, and
no others; and the values in them are those of before, sorted. -/
structure CompactedBy (key : α → κ) (s t : Slots α capacity) : Prop where
  occupied : ∀ i, (t.get? i).isSome = true ↔ i < s.count
  sorted : StablySorted key s.values t.values

theorem CompactedBy.packed (h : CompactedBy key s t) : t.Packed :=
  packed_iff.mpr fun i => by
    rw [h.occupied, count, count, h.sorted.perm.length_eq]

theorem compactedBy_sortBy (key : α → κ) (s : Slots α capacity) :
    CompactedBy key s (s.sortBy (byKey key)) where
  occupied i := by
    rw [← count_sortBy (byKey key) s]
    exact packed_iff.mp (packed_sortBy (byKey_trans key) (byKey_total key) s) i
  sorted := stablySorted_values key s

theorem compactedBy_iff : CompactedBy key s t ↔ t = s.sortBy (byKey key) := by
  constructor
  · intro h
    have hsort := compactedBy_sortBy key s
    exact h.packed.ext_values hsort.packed (h.sorted.unique hsort.sorted)
  · rintro rfl
    exact compactedBy_sortBy key s

/-- **Sorting a table by a key is a stable compaction.** For any table and any key:

* the sorted table is the one whose occupied slots are the first ones, as many as there were values,
  and hold these values in ascending order of their keys, those of one key in the order they had;
* it has as many values as before, and sorting it again changes nothing;
* a value that is then appended goes into the slot behind them, and is refused just if every slot
  has a value. -/
theorem sortBy_compacts (key : α → κ) (s : Slots α capacity) :
    (∀ t, CompactedBy key s t ↔ t = s.sortBy (byKey key)) ∧
      (s.sortBy (byKey key)).count = s.count ∧
      (s.sortBy (byKey key)).sortBy (byKey key) = s.sortBy (byKey key) ∧
      ∀ a, (s.sortBy (byKey key)).append a =
        if s.count = capacity then (false, s.sortBy (byKey key))
        else (true, (s.sortBy (byKey key)).set s.count (some a)) := by
  have hcount := count_sortBy (byKey key) s
  refine ⟨fun t => compactedBy_iff, hcount,
    sortBy_sortBy (byKey_trans key) (byKey_total key) s, fun a => ?_⟩
  rw [← hcount]
  exact (compactedBy_sortBy key s).packed.append_eq a

example : ((⟨[some (2, 'a'), none, some (1, 'b'), some (2, 'c'), some (1, 'd')], rfl⟩ :
    Slots (Nat × Char) 5).sortBy (byKey Prod.fst)).cells =
      [some (1, 'b'), some (1, 'd'), some (2, 'a'), some (2, 'c'), none] := by
  cbv

end Slots

/-- The points of a day are sorted by their times. -/
theorem DaySchedule.compactedBy_sorted {V : Type} {C P : Nat} (d : DaySchedule V C P) :
    Slots.CompactedBy TimePoint.time d.points d.sorted.points :=
  Slots.compactedBy_sortBy TimePoint.time d.points

end Aquarium

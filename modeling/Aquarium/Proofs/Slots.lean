import Aquarium.Slots

/-!
# What a slot table holds after each operation

The theory of schedules reads a table as its list of values. This file says, for every operation
that schedules use, what it does to that list:

* sorting puts the values in order (`pairwise_values_sortBy`) and changes nothing else;
* appending adds one value (`values_append_perm`), and a table is full exactly when it has as many
  values as slots (`isFull_iff`);
* a slot that was found by a test splits the cells in two (`exists_split_of_position?`), and what is
  then put into it is put between the two parts (`values_set_split`);
* a table is made up of its values and their slots (`foldl_set_indexed`);
* in a packed table, such as a sorted one, the `i`th value stands in slot `i` (`Packed.get?_eq`), so
  its values tell what the table is (`Packed.ext_values`);
* emptying slots by a test keeps every other value in its slot (`get?_removeIf`, `values_removeIf`).
-/

namespace Aquarium

namespace Slots

variable {α : Type u} {capacity : Nat}

/-! ## 1. Sorting -/

theorem cellLE_trans {le : α → α → Bool} (trans : ∀ a b c, le a b → le b c → le a c) :
    ∀ a b c : Option α, cellLE le a b → cellLE le b c → cellLE le a c
  | some a, some b, some c, hab, hbc => trans a b c hab hbc
  | some _, _, none, _, _ => rfl
  | none, _, none, _, _ => rfl
  | none, none, some _, _, h => h
  | none, some _, some _, h, _ => by cases h
  | some _, none, some _, _, h => by cases h

theorem cellLE_total {le : α → α → Bool} (total : ∀ a b, (le a b || le b a) = true) :
    ∀ a b : Option α, (cellLE le a b || cellLE le b a) = true
  | some a, some b => total a b
  | some _, none => rfl
  | none, some _ => rfl
  | none, none => rfl

/-- **Sorting puts the values in order.** -/
theorem pairwise_values_sortBy {le : α → α → Bool}
    (trans : ∀ a b c, le a b → le b c → le a c) (total : ∀ a b, (le a b || le b a) = true)
    (s : Slots α capacity) : (s.sortBy le).values.Pairwise fun a b => le a b = true := by
  have h := List.pairwise_mergeSort (cellLE_trans trans) (cellLE_total total) s.cells
  refine List.Pairwise.filterMap id ?_ h
  intro a b hab x hx y hy
  have ha : a = some x := hx
  have hb : b = some y := hy
  subst ha hb
  exact hab

/-! ## 2. Adding -/

theorem isFull_iff (s : Slots α capacity) : s.isFull = true ↔ s.count = capacity := by
  have h : (s.cells.filterMap id).length = s.cells.length ↔ ∀ c ∈ s.cells, c.isSome = true :=
    List.filterMap_length_eq_length
  rw [s.length_cells] at h
  unfold isFull
  rw [List.all_eq_true]
  exact h.symm

theorem filterMap_fillFirst (a : α) (cs : List (Option α)) (h : cs.all Option.isSome = false) :
    ((fillFirst a cs).filterMap id).Perm (a :: cs.filterMap id) := by
  induction cs with
  | nil => cases h
  | cons c cs ih =>
      cases c with
      | none => exact List.Perm.refl _
      | some b =>
          have hcs : cs.all Option.isSome = false := by simpa using h
          exact ((ih hcs).cons b).trans (List.Perm.swap a b _)

/-- **Appending to a table that is not full adds the value.** -/
theorem values_append_perm (s : Slots α capacity) (a : α) (h : s.isFull = false) :
    (s.append a).2.values.Perm (a :: s.values) := by
  unfold append
  rw [if_neg (by rw [h]; decide)]
  exact filterMap_fillFirst a s.cells h

/-! ## 3. Finding a slot and changing it -/

theorem position?_eq_none_iff (p : α → Bool) (s : Slots α capacity) :
    s.position? p = none ↔ ∀ a ∈ s.values, p a = false := by
  unfold position? values
  rw [List.findIdx?_eq_none_iff]
  constructor
  · intro h a ha
    obtain ⟨c, hc, hca⟩ := List.mem_filterMap.mp ha
    have e : c = some a := hca
    subst e
    simpa using h _ hc
  · intro h c hc
    cases c with
    | none => rfl
    | some a => simpa using h a (List.mem_filterMap.mpr ⟨some a, hc, rfl⟩)

/-- **A slot found by a test holds a value that passes it, and no value before it does.** -/
theorem exists_split_of_position? {p : α → Bool} {s : Slots α capacity} {i : Nat}
    (h : s.position? p = some i) :
    ∃ front a back, s.cells = front ++ some a :: back ∧ front.length = i ∧ p a = true ∧
      ∀ b ∈ front.filterMap id, p b = false := by
  unfold position? at h
  obtain ⟨hi, hp, hbefore⟩ := List.findIdx?_eq_some_iff_getElem.mp h
  have hsplit : s.cells = s.cells.take i ++ s.cells[i] :: s.cells.drop (i + 1) := by
    rw [List.getElem_cons_drop, List.take_append_drop]
  cases hc : s.cells[i] with
  | none => rw [hc] at hp; cases hp
  | some a =>
      rw [hc] at hp hsplit
      refine ⟨_, a, _, hsplit, List.length_take_of_le (Nat.le_of_lt hi), by simpa using hp, ?_⟩
      intro b hb
      obtain ⟨c, hcmem, hcb⟩ := List.mem_filterMap.mp hb
      have e : c = some b := hcb
      subst e
      obtain ⟨j, hj, hget⟩ := List.mem_iff_getElem.mp hcmem
      have hji : j < i := by
        rw [List.length_take] at hj
        omega
      rw [List.getElem_take] at hget
      have := hbefore j hji
      rw [hget] at this
      simpa using this

theorem get?_split {s : Slots α capacity} {front back : List (Option α)} {c : Option α}
    (h : s.cells = front ++ c :: back) : s.get? front.length = c := by
  unfold get?
  rw [h, List.getElem?_append_right (Nat.le_refl _), Nat.sub_self, List.getElem?_cons_zero]
  rfl

theorem values_set_split {s : Slots α capacity} {front back : List (Option α)} {c : Option α}
    (h : s.cells = front ++ c :: back) (c' : Option α) :
    (s.set front.length c').values = front.filterMap id ++ (c' :: back).filterMap id := by
  unfold values
  rw [cells_set, h, List.set_append_right _ _ (Nat.le_refl _), Nat.sub_self, List.set_cons_zero,
    List.filterMap_append]

/-! ## 4. One slot among the others -/

theorem get?_set_ne (s : Slots α capacity) {i j : Nat} (c : Option α) (h : j ≠ i) :
    (s.set i c).get? j = s.get? j := by
  unfold get?
  rw [cells_set, List.getElem?_set_ne h.symm]

theorem get?_set (s : Slots α capacity) (i j : Nat) (c : Option α) (h : i < capacity) :
    (s.set i c).get? j = if j = i then c else s.get? j := by
  unfold get?
  rw [cells_set, List.getElem?_set]
  by_cases hij : i = j
  · subst hij
    rw [if_pos rfl, if_pos rfl, if_pos (by rw [s.length_cells]; exact h)]
    rfl
  · rw [if_neg hij, if_neg (Ne.symm hij)]

theorem get?_eq_none_of_le (s : Slots α capacity) {i : Nat} (h : capacity ≤ i) :
    s.get? i = none := by
  unfold get?
  rw [List.getElem?_eq_none (by rw [s.length_cells]; exact h)]
  rfl

@[simp] theorem get?_empty (i : Nat) : (empty : Slots α capacity).get? i = none := by
  unfold get? empty
  rw [List.getElem?_replicate]
  split <;> rfl

/-! ## 5. The values with their slots -/

theorem map_snd_indexed (s : Slots α capacity) : s.indexed.map (·.2) = s.values := by
  have h : ∀ (cs : List (Option α)) (i : Nat),
      ((cs.zipIdx i).filterMap fun x => x.1.map fun a => (x.2, a)).map (·.2) =
        cs.filterMap id := by
    intro cs
    induction cs with
    | nil => intro i; rfl
    | cons c cs ih =>
        intro i
        cases c <;> simp [List.zipIdx_cons, ih]
  exact h s.cells 0

theorem lt_of_mem_indexed {s : Slots α capacity} {x : Nat × α} (h : x ∈ s.indexed) :
    x.1 < capacity := by
  obtain ⟨⟨c, i⟩, hmem, hx⟩ := List.mem_filterMap.mp h
  obtain ⟨a, -, rfl⟩ := Option.map_eq_some_iff.mp hx
  have hi := (List.mem_zipIdx hmem).2.1
  rw [s.length_cells] at hi
  omega

theorem mem_indexed_iff {s : Slots α capacity} {i : Nat} {a : α} :
    (i, a) ∈ s.indexed ↔ s.get? i = some a := by
  unfold indexed get?
  rw [List.mem_filterMap, Option.join_eq_some_iff]
  constructor
  · rintro ⟨⟨c, j⟩, hmem, hc⟩
    obtain ⟨b, rfl, hb⟩ := Option.map_eq_some_iff.mp hc
    cases hb
    exact List.mem_zipIdx_iff_getElem?.mp hmem
  · intro h
    exact ⟨(some a, i), List.mem_zipIdx_iff_getElem?.mpr h, rfl⟩

theorem indexed_ascending (s : Slots α capacity) : s.indexed.Pairwise fun x y => x.1 < y.1 := by
  have hnumbers : (s.cells.zipIdx.map (·.2)).Pairwise (· < ·) := by
    rw [List.zipIdx_map_snd]
    exact List.pairwise_lt_range'
  unfold indexed
  refine List.Pairwise.filterMap _ ?_ (List.pairwise_map.mp hnumbers)
  rintro ⟨c, i⟩ ⟨c', j⟩ hij x hx y hy
  obtain ⟨_, _, rfl⟩ := Option.map_eq_some_iff.mp hx
  obtain ⟨_, _, rfl⟩ := Option.map_eq_some_iff.mp hy
  exact hij

theorem foldl_set_zipIdx (front back : List (Option α)) :
    ((back.zipIdx front.length).filterMap fun (c, i) => c.map fun a => (i, a)).foldl
        (fun cs x => cs.set x.1 (some x.2)) (front ++ List.replicate back.length none) =
      front ++ back := by
  induction back generalizing front with
  | nil => simp
  | cons c back ih =>
      have hnext := ih (front ++ [c])
      rw [List.length_append, List.length_singleton, List.append_assoc, List.append_assoc] at hnext
      cases c with
      | none => simpa [List.zipIdx_cons, List.replicate_succ] using hnext
      | some a => simpa [List.zipIdx_cons, List.replicate_succ] using hnext

/-- **A table is the empty one with its values put back into their slots.** -/
theorem foldl_set_indexed (s : Slots α capacity) :
    s.indexed.foldl (fun t x => t.set x.1 (some x.2)) empty = s := by
  have hcells : ∀ (xs : List (Nat × α)) (t : Slots α capacity),
      (xs.foldl (fun t x => t.set x.1 (some x.2)) t).cells =
        xs.foldl (fun cs x => cs.set x.1 (some x.2)) t.cells := by
    intro xs
    induction xs with
    | nil => intro t; rfl
    | cons x xs ih => intro t; exact ih _
  refine ext ?_
  rw [hcells]
  have h := foldl_set_zipIdx [] s.cells
  rw [s.length_cells] at h
  exact h

/-! ## 6. Values in front of the empty slots -/

/-- No value stands behind an empty slot. -/
def Packed (s : Slots α capacity) : Prop :=
  s.cells.Pairwise fun a b => b.isSome = true → a.isSome = true

theorem packed_empty : (empty : Slots α capacity).Packed :=
  List.pairwise_replicate.mpr (Or.inr id)

/-- Sorting puts the values in front. -/
theorem packed_sortBy {le : α → α → Bool} (trans : ∀ a b c, le a b → le b c → le a c)
    (total : ∀ a b, (le a b || le b a) = true) (s : Slots α capacity) : (s.sortBy le).Packed := by
  refine (List.pairwise_mergeSort (cellLE_trans trans) (cellLE_total total) s.cells).imp ?_
  intro a b hab hb
  cases a with
  | some a => rfl
  | none =>
      cases b with
      | none => exact hb
      | some b => cases hab

/-- A value may be replaced in its slot. -/
theorem Packed.set_some {s : Slots α capacity} (h : s.Packed) {i : Nat} {a : α}
    (hi : s.get? i = some a) (b : α) : (s.set i (some b)).Packed := by
  -- which slots are empty is the same before and after
  have hsame : (s.set i (some b)).cells.map Option.isSome = s.cells.map Option.isSome := by
    have hcell : s.cells[i]? = some (some a) := Option.join_eq_some_iff.mp hi
    obtain ⟨hlt, hget⟩ := List.getElem?_eq_some_iff.mp hcell
    rw [cells_set, List.map_set]
    have hself : (s.cells.map Option.isSome).set i (s.cells[i].isSome) =
        s.cells.map Option.isSome := by
      rw [← List.map_set, List.set_getElem_self]
    rw [hget] at hself
    exact hself
  have hbits : (s.cells.map Option.isSome).Pairwise fun a b => b = true → a = true :=
    List.pairwise_map.mpr h
  rw [← hsame] at hbits
  exact List.pairwise_map.mp hbits

theorem getElem?_join_of_pairwise {cs : List (Option α)}
    (h : cs.Pairwise fun a b => b.isSome = true → a.isSome = true) (i : Nat) :
    (cs[i]?).join = (cs.filterMap id)[i]? := by
  induction cs generalizing i with
  | nil => rfl
  | cons c cs ih =>
      obtain ⟨hfirst, hrest⟩ := List.pairwise_cons.mp h
      cases c with
      | some a =>
          cases i with
          | zero => rfl
          | succ i => simpa using ih hrest i
      | none =>
          have hnone : ∀ c ∈ cs, c = none := by
            intro c hc
            cases c with
            | none => rfl
            | some b => cases hfirst (some b) hc rfl
          have hvalues : (none :: cs).filterMap id = [] :=
            List.filterMap_eq_nil_iff.mpr (by simpa using hnone)
          have hempty : ((none :: cs)[i]?).join = none := by
            cases hc : (none :: cs)[i]? with
            | none => rfl
            | some c =>
                rcases List.mem_cons.mp (List.mem_of_getElem? hc) with rfl | hmem
                · rfl
                · exact hnone c hmem
          rw [hvalues, hempty]
          rfl

/-- **The values of a packed table stand in its first slots**, and the other slots are empty. -/
theorem Packed.get?_eq {s : Slots α capacity} (h : s.Packed) (i : Nat) :
    s.get? i = s.values[i]? :=
  getElem?_join_of_pairwise h i

theorem ext_get? {s t : Slots α capacity} (h : ∀ i, s.get? i = t.get? i) : s = t := by
  refine ext (List.ext_getElem (by rw [s.length_cells, t.length_cells]) fun i hs ht => ?_)
  have hi := h i
  unfold get? at hi
  rw [List.getElem?_eq_getElem hs, List.getElem?_eq_getElem ht] at hi
  exact hi

/-- The values of a packed table tell what the table is. -/
theorem Packed.ext_values {s t : Slots α capacity} (hs : s.Packed) (ht : t.Packed)
    (h : s.values = t.values) : s = t :=
  ext_get? fun i => by rw [hs.get?_eq, ht.get?_eq, h]

/-! ## 7. Every slot at once -/

theorem get?_mapCells {β : Type u} {f : Option α → Option β} (hf : f none = none)
    (s : Slots α capacity) (i : Nat) : (s.mapCells f).get? i = f (s.get? i) := by
  unfold get? mapCells
  rw [List.getElem?_map]
  cases s.cells[i]? with
  | none => exact hf.symm
  | some c => rfl

theorem get?_removeIf (p : α → Bool) (s : Slots α capacity) (i : Nat) :
    (s.removeIf p).2.get? i = (s.get? i).filter fun a => !p a := by
  refine (get?_mapCells (by rfl) s i).trans ?_
  cases s.get? i with
  | none => rfl
  | some a => cases h : p a <;> simp [Option.filter_some, h]

/-- **The values that a test does not remove stay, in their order.** -/
theorem values_removeIf (p : α → Bool) (s : Slots α capacity) :
    (s.removeIf p).2.values = s.values.filter fun a => !p a := by
  show (s.cells.map fun c => if c.any p then none else c).filterMap id = _
  unfold values
  rw [List.filterMap_map, List.filter_filterMap]
  congr 1
  funext c
  cases c with
  | none => rfl
  | some a => cases h : p a <;> simp [Option.filter_some, h]

theorem mem_values_iff {s : Slots α capacity} {a : α} :
    a ∈ s.values ↔ ∃ i, s.get? i = some a := by
  rw [← map_snd_indexed, List.mem_map]
  constructor
  · intro h
    obtain ⟨⟨i, b⟩, hmem, rfl⟩ := h
    exact ⟨i, mem_indexed_iff.mp hmem⟩
  · intro h
    obtain ⟨i, hi⟩ := h
    exact ⟨(i, a), mem_indexed_iff.mpr hi, rfl⟩

end Slots

end Aquarium

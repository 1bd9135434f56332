import Aquarium.Proofs.Slots
import Aquarium.Task.Pool

/-!
# What posting and taking out do to a pool

* `TaskPool.post_of_room`, `TaskPool.toList_post_perm`: a task that is posted in a pool with room
  stands in the table under the next number;
* `TaskPool.remove_eq`, `TaskPool.toList_remove`, `TaskPool.get?_remove`: taking out a number
  empties the slots with it, and no others;
* `TaskPool.wakePending_remove`: whoever takes a task out has the worker woken;
* `TaskHandle.cancel_some`: a handle takes out its number as long as it is attached.
-/

namespace Aquarium

namespace TaskPool

variable {κ : Type} {capacity : Nat} {pool : TaskPool κ capacity} {task : PoolTask κ} {id : Nat}

/-! ## 1. Posting -/

theorem nextId_of_lt {n : Nat} (h : n + 1 < word64) : nextId n = n + 1 := by
  unfold nextId
  rw [Nat.mod_eq_of_lt h]
  exact if_neg (Nat.succ_ne_zero n)

theorem post_of_room (h : pool.tasks.isFull = false) (task : PoolTask κ) :
    pool.post task =
      (⟨nextId pool.lastId, true⟩,
        { tasks := (pool.tasks.append ⟨nextId pool.lastId, task⟩).2, lastId := nextId pool.lastId,
          wakePending := true, timing := pool.timing }) := by
  unfold post
  rw [if_neg (by rw [h]; decide)]
  rfl

theorem toList_post_perm (h : pool.tasks.isFull = false) (task : PoolTask κ) :
    (pool.post task).2.toList.Perm (⟨nextId pool.lastId, task⟩ :: pool.toList) := by
  rw [post_of_room h]
  exact Slots.values_append_perm pool.tasks _ h

/-! ## 2. Taking out -/

theorem contains_iff : pool.contains id = true ↔ ∃ p ∈ pool.toList, p.id = id := by
  unfold contains
  rw [List.any_eq_true]
  simp only [beq_iff_eq]

/-- A number is taken out if a task of it is held; then the worker has to be woken. -/
theorem remove_eq (pool : TaskPool κ capacity) (id : Nat) :
    pool.remove id =
      (pool.contains id,
        if pool.contains id then
          { pool with tasks := (pool.tasks.removeIf (·.id == id)).2, wakePending := true }
        else pool) := by
  cases h : pool.contains id with
  | false => exact remove_of_not_contains h
  | true =>
      have hfound : (pool.tasks.removeIf (·.id == id)).1 = true := h
      unfold remove
      split
      · rename_i hresult
        rw [hresult] at hfound
        cases hfound
      · rename_i hresult
        rw [hresult]
        rfl

/-- Whoever takes a task out has the worker woken. -/
theorem wakePending_remove (pool : TaskPool κ capacity) (id : Nat) :
    (pool.remove id).2.wakePending = true ∨ (pool.remove id).2 = pool := by
  rw [remove_eq]
  cases pool.contains id with
  | false => exact Or.inr rfl
  | true => exact Or.inl rfl

/-- **Taking out a number empties the slots with it**, and no others. -/
theorem get?_remove (pool : TaskPool κ capacity) (id i : Nat) :
    (pool.remove id).2.tasks.get? i = (pool.tasks.get? i).filter fun p => p.id != id := by
  rw [remove_eq]
  cases h : pool.contains id with
  | true => exact Slots.get?_removeIf _ _ i
  | false =>
      show pool.tasks.get? i = _
      cases hp : pool.tasks.get? i with
      | none => rfl
      | some p =>
          have hother : p.id ≠ id := by
            intro hid
            have hmem : p ∈ pool.toList := Slots.mem_values_iff.mpr ⟨i, hp⟩
            rw [contains_iff.mpr ⟨p, hmem, hid⟩] at h
            cases h
          simp [Option.filter_some, hother]

theorem toList_remove (pool : TaskPool κ capacity) (id : Nat) :
    (pool.remove id).2.toList = pool.toList.filter fun p => p.id != id := by
  rw [remove_eq]
  cases h : pool.contains id with
  | true => exact Slots.values_removeIf _ _
  | false =>
      show pool.toList = _
      refine (List.filter_eq_self.mpr fun p hp => ?_).symm
      rw [bne_iff_ne]
      intro hid
      rw [contains_iff.mpr ⟨p, hp, hid⟩] at h
      cases h

@[simp] theorem lastId_remove (pool : TaskPool κ capacity) (id : Nat) :
    (pool.remove id).2.lastId = pool.lastId := by
  rw [remove_eq]
  dsimp only
  split <;> rfl

end TaskPool

/-! ## 3. Handles -/

namespace TaskHandle

variable {κ : Type} {capacity : Nat}

theorem cancel_some (h : TaskHandle) (pool : TaskPool κ capacity) :
    h.cancel (some pool) =
      if h.attached then ((pool.remove h.id).1, some (pool.remove h.id).2)
      else (false, some pool) := rfl

theorem cancel_of_attached {h : TaskHandle} (hattached : h.attached = true)
    (pool : TaskPool κ capacity) :
    h.cancel (some pool) = ((pool.remove h.id).1, some (pool.remove h.id).2) := by
  rw [cancel_some, if_pos hattached]

theorem wakePending_cancel (h : TaskHandle) (pool : TaskPool κ capacity) :
    ((h.cancel (some pool)).2.getD pool).wakePending = true ∨
      (h.cancel (some pool)).2.getD pool = pool := by
  cases hattached : h.attached with
  | false => exact Or.inr (by rw [cancel_some, hattached]; rfl)
  | true =>
      rw [cancel_of_attached hattached]
      exact pool.wakePending_remove h.id

theorem cancel_of_not_attached {h : TaskHandle} (hdetached : h.attached = false)
    (pool : TaskPool κ capacity) : h.cancel (some pool) = (false, some pool) := by
  rw [cancel_some, if_neg (by rw [hdetached]; decide)]

end TaskHandle

end Aquarium

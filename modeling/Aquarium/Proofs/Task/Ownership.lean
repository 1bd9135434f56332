import Aquarium.Proofs.Task.History

/-!
# Handles and their tasks

A handle is a number. The task under that number may have left the table by itself, may have been
taken out by its number or by the handle, and its slot may hold another task by now. All the same a
handle means one task for good:

* `PoolHistory.Numbered.keeps_iff`: a number that was given is held exactly if the task that it was
  given for is held;
* `PoolHistory.Numbered.keeps_of_after`: this does not become true again;
* `PoolHistory.handles_own_their_tasks`: a handle takes out its own task, if that is still there,
  and nothing else.
-/

namespace Aquarium

namespace PoolHistory

variable {κ σ : Type} {capacity : Nat} {call : Caller κ σ} {s : PoolHistory κ σ capacity}
  {handle : TaskHandle} {task : PoolTask κ}

/-! ## 1. The task of a handle -/

/-- The task that a handle was given for stands in the table, with nothing changed about it but the
moment at which it ran last. -/
def Keeps (s : PoolHistory κ σ capacity) (handle : TaskHandle) (task : PoolTask κ) : Prop :=
  ∃ p ∈ s.pool.toList, p.id = handle.id ∧ p.task = { task with last := p.task.last }

instance [DecidableEq κ] (s : PoolHistory κ σ capacity) (handle : TaskHandle)
    (task : PoolTask κ) : Decidable (s.Keeps handle task) :=
  inferInstanceAs (Decidable (∃ p ∈ s.pool.toList, _))

theorem Keeps.contains (h : s.Keeps handle task) : s.pool.contains handle.id = true := by
  obtain ⟨p, hp, hid, -⟩ := h
  exact TaskPool.contains_iff.mpr ⟨p, hp, hid⟩

/-- **A number that was given is held exactly if its task is held.** -/
theorem Numbered.keeps_iff (h : s.Numbered) (hgiven : (handle, task) ∈ s.given) :
    s.Keeps handle task ↔ s.pool.contains handle.id = true := by
  constructor
  · exact Keeps.contains
  · intro hcontains
    obtain ⟨p, hp, hid⟩ := TaskPool.contains_iff.mp hcontains
    exact ⟨p, hp, hid, h.task_eq hp hgiven hid⟩

/-- **A handle whose task has left the table stays without one**, whoever is posted then. -/
theorem Numbered.keeps_of_after (h : s.Numbered) {events : List (PoolEvent κ)}
    (hfew : (s.after call events).Few) (hgiven : (handle, task) ∈ s.given)
    (hkeeps : (s.after call events).Keeps handle task) : s.Keeps handle task := by
  have hid := (h.range _ hgiven).2.2
  exact (h.keeps_iff hgiven).mpr (h.contains_of_after hfew hid hkeeps.contains)

/-! ## 2. What a handle does -/

/-- What the handle of a task does to the pool that has given it. -/
structure Owns (s : PoolHistory κ σ capacity) (handle : TaskHandle) (task : PoolTask κ) : Prop where
  valid : handle.isValid = true
  active_iff : handle.isActive (some s.pool) = true ↔ s.Keeps handle task
  /-- A task that is held is taken out. Its slot is empty then, and every other one as it was. -/
  held : s.Keeps handle task → ∃ pool, handle.cancel (some s.pool) = (true, some pool) ∧
    pool.lastId = s.pool.lastId ∧
    ∀ i p, pool.tasks.get? i = some p ↔ s.pool.tasks.get? i = some p ∧ p.id ≠ handle.id
  /-- Nothing happens for a task that is gone. -/
  gone : ¬ s.Keeps handle task → handle.cancel (some s.pool) = (false, some s.pool)

theorem Numbered.owns (h : s.Numbered) (hgiven : (handle, task) ∈ s.given) :
    s.Owns handle task := by
  obtain ⟨hattached, hpos, -⟩ := h.range _ hgiven
  have hkeeps := h.keeps_iff hgiven
  have hcancel := TaskHandle.cancel_of_attached hattached s.pool
  refine ⟨?_, ?_, ?_, ?_⟩
  · exact bne_iff_ne.mpr (Nat.pos_iff_ne_zero.mp hpos)
  · rw [hkeeps]
    unfold TaskHandle.isActive
    rw [hattached, Bool.true_and, Option.any_some]
  · intro hheld
    refine ⟨(s.pool.remove handle.id).2, ?_, s.pool.lastId_remove handle.id, ?_⟩
    · rw [hcancel, TaskPool.remove_eq, hkeeps.mp hheld]
    · intro i p
      rw [TaskPool.get?_remove, Option.filter_eq_some_iff, bne_iff_ne]
  · intro hgone
    have habsent : s.pool.contains handle.id = false :=
      Bool.eq_false_iff.mpr fun hcontains => hgone (hkeeps.mpr hcontains)
    rw [hcancel, TaskPool.remove_of_not_contains habsent]

/-- A pool with room gives a number that it has never given before. -/
theorem Numbered.post_of_room (h : s.Numbered) (hfew : s.Few) (hroom : s.pool.tasks.isFull = false)
    (task : PoolTask κ) : ∃ handle pool, s.pool.post task = (handle, pool) ∧
      handle.isValid = true ∧ ⟨handle.id, task⟩ ∈ pool.toList ∧
      (s.meet call (.post task)).given = (handle, task) :: s.given ∧
      ∀ g ∈ s.given, g.1.id ≠ handle.id := by
  have hnext := h.nextId_eq hfew
  have hpost := TaskPool.post_of_room hroom task
  have hvalid : TaskHandle.isValid ⟨TaskPool.nextId s.pool.lastId, true⟩ = true :=
    bne_iff_ne.mpr (Nat.pos_iff_ne_zero.mp (TaskPool.nextId_pos _))
  refine ⟨_, _, hpost, hvalid, ?_, ?_, ?_⟩
  · have htable := TaskPool.toList_post_perm hroom task
    rw [hpost] at htable
    exact htable.mem_iff.mpr List.mem_cons_self
  · rw [meet, hpost]
    dsimp only
    rw [if_pos hvalid]
    rfl
  · intro g hg hid
    have hle := (h.range g hg).2.2
    rw [hid] at hle
    dsimp only at hle
    omega

/-- All that is promised about the handles of a pool with this history. -/
structure Ownership (call : Caller κ σ) (s : PoolHistory κ σ capacity) : Prop where
  /-- The tasks in the table have different numbers, and none has the number zero. -/
  numbers : (s.pool.toList.map Posted.id).Nodup ∧ ∀ p ∈ s.pool.toList, p.id ≠ 0
  /-- Each of them was posted, and its number was given for it. -/
  posted : ∀ p ∈ s.pool.toList, ∃ g ∈ s.given, g.1.id = p.id ∧
    p.task = { g.2 with last := p.task.last }
  /-- No number was given twice. -/
  once : (s.given.map (·.1.id)).Nodup
  owns : ∀ g ∈ s.given, s.Owns g.1 g.2
  /-- A task that has left the table does not come back. -/
  gone : ∀ events, (s.after call events).Few → ∀ g ∈ s.given,
    (s.after call events).Keeps g.1 g.2 → s.Keeps g.1 g.2
  /-- A pool with room gives a number that it has never given before. -/
  room : ∀ task, s.pool.size < capacity → ∃ handle pool,
    s.pool.post task = (handle, pool) ∧ handle.isValid = true ∧ ⟨handle.id, task⟩ ∈ pool.toList ∧
    (s.meet call (.post task)).given = (handle, task) :: s.given ∧
    ∀ g ∈ s.given, g.1.id ≠ handle.id
  /-- A full pool stays as it is, down to the last number and the wake-up. -/
  full : ∀ task, s.pool.size = capacity → s.pool.post task = (.invalid, s.pool)
  /-- The handle that a full pool gives takes out nothing, and neither does a detached one. -/
  detached : TaskHandle.invalid.cancel (some s.pool) = (false, some s.pool) ∧
    ∀ handle : TaskHandle, handle.detach.cancel (some s.pool) = (false, some s.pool)

/-- **A handle owns its own task and no other**, whatever was posted, taken out or run before, as
long as the numbers last. -/
theorem handles_own_their_tasks (timing : PoolTiming) (call : Caller κ σ) (world : σ)
    (events : List (PoolEvent κ)) {s : PoolHistory κ σ capacity}
    (hs : s = (start timing world).after call events) (hfew : s.Few) : s.Ownership call := by
  have h : s.Numbered := by
    rw [hs] at hfew ⊢
    exact numbered_after timing world hfew
  refine ⟨⟨h.distinct, ?_⟩, h.posted, h.once, ?_, ?_, ?_, ?_, ?_⟩
  · intro p hp
    exact Nat.pos_iff_ne_zero.mp (h.id_le hp).1
  · intro g hg
    exact h.owns hg
  · intro later hlater g hg hkeeps
    exact h.keeps_of_after hlater hg hkeeps
  · intro task hsize
    have hroom : s.pool.tasks.isFull = false :=
      Bool.eq_false_iff.mpr fun hfull => Nat.ne_of_lt hsize (s.pool.tasks.isFull_iff.mp hfull)
    exact h.post_of_room hfew hroom task
  · intro task hsize
    exact TaskPool.post_of_isFull (s.pool.tasks.isFull_iff.mpr hsize) task
  · exact ⟨TaskHandle.cancel_of_not_attached rfl s.pool,
      fun handle => TaskHandle.cancel_of_not_attached rfl s.pool⟩

/-- In a table with one slot: the task of the first handle has run, its slot holds the task of the
second, and a third one was refused. -/
theorem handles_own_a_slot_in_turn :
    let call : Caller Unit Unit := fun _ world => (world, none)
    let s : PoolHistory Unit Unit 1 := (start .standard ()).after call
      [.post (.once "lamp" ()), .pass 0, .post (.periodic "pump" 1 ()), .post (.once "fan" ())]
    s.Few ∧ s.Ownership call ∧
      s.given = [(⟨2, true⟩, .periodic "pump" 1 ()), (⟨1, true⟩, .once "lamp" ())] ∧
      ¬ s.Keeps ⟨1, true⟩ (.once "lamp" ()) ∧ s.Keeps ⟨2, true⟩ (.periodic "pump" 1 ()) := by
  intro call s
  have hfew : s.Few := by decide
  refine ⟨hfew, handles_own_their_tasks .standard call () _ rfl hfew, ?_, ?_, ?_⟩
  · decide
  · decide
  · decide

end PoolHistory

end Aquarium

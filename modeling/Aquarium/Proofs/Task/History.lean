import Aquarium.Proofs.Task.Pass
import Aquarium.Proofs.Task.Table
import Mathlib.Data.List.Nodup

/-!
# A pool in use, with all that was done to it

Tasks are posted, numbers taken out, handles cancelled, dropped or detached, and passes made, in any
order. A handle may be any handle here, so that nothing hangs on who holds it. The history of a pool
notes the handles that were given, the numbers that were taken out and the tasks that were called.

* `PoolHistory.meet`, `PoolHistory.after`: what one event does to a pool and its history, and many;
* `PoolHistory.Step`: all that an event can do;
* `PoolHistory.Numbered`: no number is given twice, the tasks in the table have different numbers,
  and each of them is the one that was posted under its number. This holds as long as the numbers
  last, which is for fewer posts than a word has values (`numbered_after`);
* `Numbered.after_induction`: what every event keeps, a history keeps;
* `Numbered.contains_of_after`: a task that has left the table does not come back.
-/

namespace Aquarium

/-! ## 1. Events -/

/-- What is done to a pool. -/
inductive PoolEvent (κ : Type) where
  /-- A task is posted. -/
  | post (task : PoolTask κ)
  /-- The task of a number is taken out. -/
  | remove (id : Nat)
  /-- A handle is cancelled or dropped. -/
  | release (h : TaskHandle)
  /-- A handle is detached, and dropped then. -/
  | detach (h : TaskHandle)
  /-- What is due is run. -/
  | pass (now : Int)
  deriving DecidableEq

/-- What has been done to a pool. -/
inductive PoolRecord (κ : Type) where
  /-- This handle was given for a task. -/
  | posted (h : TaskHandle) (task : PoolTask κ)
  /-- The task of a number was taken out. -/
  | removed (id : Nat)
  /-- A pass called these tasks, one after another. -/
  | ran (now : Int) (called : List (Posted κ))
  deriving DecidableEq

namespace PoolRecord

variable {κ : Type}

/-- The handle that was given, and the task for which it was. -/
def given? : PoolRecord κ → Option (TaskHandle × PoolTask κ)
  | posted h task => some (h, task)
  | _ => none

end PoolRecord

/-- A pool, the world of its callbacks, and all that was done, the latest first. -/
structure PoolHistory (κ σ : Type) (capacity : Nat) where
  pool : TaskPool κ capacity
  world : σ
  records : List (PoolRecord κ)

namespace PoolHistory

variable {κ σ : Type} {capacity : Nat} {call : Caller κ σ}

/-- Nothing has been done yet. -/
def start (timing : PoolTiming) (world : σ) : PoolHistory κ σ capacity := ⟨.new timing, world, []⟩

/-- The handles that were given, and their tasks, the latest first. -/
def given (s : PoolHistory κ σ capacity) : List (TaskHandle × PoolTask κ) :=
  s.records.filterMap PoolRecord.given?

/-- What was asked to be taken out is noted if it was there. -/
def takenOut (s : PoolHistory κ σ capacity) (id : Nat) :
    Bool × TaskPool κ capacity → PoolHistory κ σ capacity
  | (true, pool) => ⟨pool, s.world, .removed id :: s.records⟩
  | (false, pool) => ⟨pool, s.world, s.records⟩

/-- After a handle was cancelled or dropped. -/
def release (s : PoolHistory κ σ capacity) (h : TaskHandle) : PoolHistory κ σ capacity :=
  let (removed, pool) := h.cancel (some s.pool)
  s.takenOut h.id (removed, pool.getD s.pool)

/-- After an event. -/
def meet (call : Caller κ σ) (s : PoolHistory κ σ capacity) :
    PoolEvent κ → PoolHistory κ σ capacity
  | .post task =>
    let (h, pool) := s.pool.post task
    ⟨pool, s.world, if h.isValid then .posted h task :: s.records else s.records⟩
  | .remove id => s.takenOut id (s.pool.remove id)
  | .release h => s.release h
  | .detach h => s.release h.detach
  | .pass now =>
    let (pool, world, _) := s.pool.pass call now s.world
    ⟨pool, world, .ran now (callAll call (s.pool.due now) s.world).called :: s.records⟩

/-- After one event and another. -/
def after (call : Caller κ σ) (s : PoolHistory κ σ capacity) (events : List (PoolEvent κ)) :
    PoolHistory κ σ capacity :=
  events.foldl (meet call) s

variable {s s' : PoolHistory κ σ capacity}

/-! ## 2. One event -/

/-- All that an event can do. -/
inductive Step (call : Caller κ σ) (s : PoolHistory κ σ capacity) :
    PoolHistory κ σ capacity → Prop where
  /-- A task is put into the table under the next number. -/
  | posted (task : PoolTask κ) (hroom : s.pool.tasks.isFull = false) :
      Step call s ⟨(s.pool.post task).2, s.world,
        .posted ⟨TaskPool.nextId s.pool.lastId, true⟩ task :: s.records⟩
  /-- A number that was held is taken out. -/
  | removed (id : Nat) (hheld : s.pool.contains id = true) :
      Step call s ⟨(s.pool.remove id).2, s.world, .removed id :: s.records⟩
  /-- A pass is made. -/
  | ran (now : Int) :
      Step call s ⟨(s.pool.pass call now s.world).1, (s.pool.pass call now s.world).2.1,
        .ran now (callAll call (s.pool.due now) s.world).called :: s.records⟩
  /-- Nothing comes of it. -/
  | rest : Step call s s

theorem step_takenOut (s : PoolHistory κ σ capacity) (id : Nat) :
    Step call s (s.takenOut id (s.pool.remove id)) := by
  rw [TaskPool.remove_eq]
  cases h : s.pool.contains id with
  | false => exact .rest
  | true =>
      have hstep : Step call s _ := .removed id h
      rw [TaskPool.remove_eq, h] at hstep
      exact hstep

theorem step_release (s : PoolHistory κ σ capacity) (h : TaskHandle) :
    Step call s (s.release h) := by
  unfold release
  cases hattached : h.attached with
  | false =>
      rw [TaskHandle.cancel_of_not_attached hattached]
      exact .rest
  | true =>
      rw [TaskHandle.cancel_of_attached hattached]
      exact s.step_takenOut h.id

theorem step_meet (call : Caller κ σ) (s : PoolHistory κ σ capacity) (event : PoolEvent κ) :
    Step call s (s.meet call event) := by
  cases event with
  | post task =>
      cases hroom : s.pool.tasks.isFull with
      | true =>
          rw [meet, TaskPool.post_of_isFull hroom]
          exact .rest
      | false =>
          have hvalid : TaskPool.nextId s.pool.lastId ≠ 0 :=
            Nat.pos_iff_ne_zero.mp (TaskPool.nextId_pos _)
          have hstep : Step call s _ := .posted task hroom
          rw [TaskPool.post_of_room hroom] at hstep
          simp only [meet, TaskPool.post_of_room hroom, TaskHandle.isValid, bne_iff_ne, ne_eq,
            hvalid, not_false_eq_true, if_true]
          exact hstep
  | remove id => exact s.step_takenOut id
  | release h => exact s.step_release h
  | detach h => exact s.step_release h.detach
  | pass now => exact .ran now

/-- Records are added and never taken away. -/
theorem Step.records_suffix (h : Step call s s') : s.records <:+ s'.records := by
  cases h with
  | posted task hroom => exact List.suffix_cons _ _
  | removed id hheld => exact List.suffix_cons _ _
  | ran now => exact List.suffix_cons _ _
  | rest => exact List.suffix_refl _

theorem records_suffix_after (s : PoolHistory κ σ capacity) (events : List (PoolEvent κ)) :
    s.records <:+ (s.after call events).records := by
  induction events generalizing s with
  | nil => exact List.suffix_refl _
  | cons event events ih => exact (s.step_meet call event).records_suffix.trans (ih _)

/-! ## 3. Numbers -/

/-- Fewer tasks have been posted than there are numbers. -/
def Few (s : PoolHistory κ σ capacity) : Prop := s.given.length < word64 - 1

instance (s : PoolHistory κ σ capacity) : Decidable s.Few :=
  inferInstanceAs (Decidable (_ < _))

theorem Few.of_suffix (h : s'.Few) (hsuffix : s.records <:+ s'.records) : s.Few :=
  Nat.lt_of_le_of_lt ((hsuffix.filterMap PoolRecord.given?).length_le) h

/-- No number was given twice, and every task in the table is the one that was posted under its
number. -/
structure Numbered (s : PoolHistory κ σ capacity) : Prop where
  /-- The number given last tells how many were given. -/
  lastId : s.pool.lastId = s.given.length
  range : ∀ g ∈ s.given, g.1.attached = true ∧ 0 < g.1.id ∧ g.1.id ≤ s.pool.lastId
  once : (s.given.map (·.1.id)).Nodup
  distinct : (s.pool.toList.map Posted.id).Nodup
  posted : ∀ p ∈ s.pool.toList, ∃ g ∈ s.given, g.1.id = p.id ∧
    p.task = { g.2 with last := p.task.last }

theorem numbered_start (timing : PoolTiming) (world : σ) :
    (start timing world : PoolHistory κ σ capacity).Numbered := by
  have hempty : (TaskPool.new timing : TaskPool κ capacity).toList = [] := Slots.values_empty
  refine ⟨rfl, nofun, List.nodup_nil, ?_, ?_⟩
  · show ((TaskPool.new timing).toList.map Posted.id).Nodup
    rw [hempty]
    exact List.nodup_nil
  · show ∀ p ∈ (TaskPool.new timing : TaskPool κ capacity).toList, _
    rw [hempty]
    exact nofun

/-- The number of the next task is greater than all that were given. -/
theorem Numbered.nextId_eq (h : s.Numbered) (hfew : s.Few) :
    TaskPool.nextId s.pool.lastId = s.pool.lastId + 1 := by
  refine TaskPool.nextId_of_lt ?_
  have hlast := h.lastId
  unfold Few at hfew
  omega

theorem Numbered.id_le (h : s.Numbered) {p : Posted κ} (hp : p ∈ s.pool.toList) :
    0 < p.id ∧ p.id ≤ s.pool.lastId := by
  obtain ⟨g, hg, hid, -⟩ := h.posted p hp
  rw [← hid]
  exact (h.range g hg).2

/-- A task in the table is the one that its number was given for. -/
theorem Numbered.task_eq (h : s.Numbered) {p : Posted κ} (hp : p ∈ s.pool.toList)
    {g : TaskHandle × PoolTask κ} (hg : g ∈ s.given) (hid : p.id = g.1.id) :
    p.task = { g.2 with last := p.task.last } := by
  obtain ⟨g', hg', hid', htask⟩ := h.posted p hp
  rwa [List.inj_on_of_nodup_map h.once hg' hg (hid'.trans hid)] at htask

/-- **One event keeps the numbers apart.** -/
theorem Numbered.step (h : s.Numbered) (hfew : s.Few) (hstep : Step call s s') : s'.Numbered := by
  cases hstep with
  | rest => exact h
  | posted task hroom =>
      have hnext := h.nextId_eq hfew
      have htable := TaskPool.toList_post_perm hroom task
      have hlast : (s.pool.post task).2.lastId = s.pool.lastId + 1 := by
        rw [TaskPool.post_of_room hroom]
        exact hnext
      rw [hnext] at htable ⊢
      have hmem : ∀ p, p ∈ (s.pool.post task).2.toList ↔
          p = ⟨s.pool.lastId + 1, task⟩ ∨ p ∈ s.pool.toList := by
        intro p
        rw [htable.mem_iff, List.mem_cons]
      refine ⟨?_, ?_, ?_, ?_, ?_⟩
      · exact hlast.trans (congrArg (· + 1) h.lastId)
      · intro g hg
        show _ ∧ _ ∧ g.1.id ≤ (s.pool.post task).2.lastId
        rw [hlast]
        rcases List.mem_cons.mp hg with rfl | hg
        · exact ⟨rfl, Nat.succ_pos _, Nat.le_refl _⟩
        · obtain ⟨hattached, hpos, hle⟩ := h.range g hg
          exact ⟨hattached, hpos, Nat.le_succ_of_le hle⟩
      · refine List.nodup_cons.mpr ⟨?_, h.once⟩
        intro hin
        obtain ⟨g, hg, hid⟩ := List.mem_map.mp hin
        have hle := (h.range g hg).2.2
        rw [hid] at hle
        exact Nat.not_succ_le_self _ hle
      · refine (htable.map Posted.id).nodup_iff.mpr (List.nodup_cons.mpr ⟨?_, h.distinct⟩)
        intro hin
        obtain ⟨p, hp, hid⟩ := List.mem_map.mp hin
        have hle := (h.id_le hp).2
        rw [hid] at hle
        exact Nat.not_succ_le_self _ hle
      · intro p hp
        rcases (hmem p).mp hp with rfl | hp
        · exact ⟨_, List.mem_cons_self, rfl, rfl⟩
        · obtain ⟨g, hg, hid, htask⟩ := h.posted p hp
          exact ⟨g, List.mem_cons_of_mem _ hg, hid, htask⟩
  | removed id hheld =>
      have htable := s.pool.toList_remove id
      refine ⟨?_, ?_, h.once, ?_, ?_⟩
      · exact (s.pool.lastId_remove id).trans h.lastId
      · intro g hg
        show _ ∧ _ ∧ g.1.id ≤ (s.pool.remove id).2.lastId
        rw [TaskPool.lastId_remove]
        exact h.range g hg
      · show ((s.pool.remove id).2.toList.map Posted.id).Nodup
        rw [htable]
        exact h.distinct.sublist (List.filter_sublist.map _)
      · intro p hp
        have hold : p ∈ s.pool.toList := (List.mem_filter.mp (htable ▸ hp)).1
        exact h.posted p hold
  | ran now =>
      refine ⟨h.lastId, h.range, h.once, ?_, ?_⟩
      · exact h.distinct.sublist (s.pool.ids_pass_sublist call now s.world)
      · intro q hq
        obtain ⟨p, hp, hleft⟩ := TaskPool.exists_of_mem_pass hq
        obtain ⟨g, hg, hid, htask⟩ := h.posted p hp
        refine ⟨g, hg, ?_⟩
        rcases hleft with rfl | hafter
        · exact ⟨hid, htask⟩
        · rw [Posted.eq_of_after hafter, htask]
          exact ⟨hid, rfl⟩

/-- What every event keeps, a history keeps as long as the numbers last. -/
theorem Numbered.after_induction (h : s.Numbered) {motive : PoolHistory κ σ capacity → Prop}
    (hs : motive s)
    (hstep : ∀ t t', t.Numbered → t.Few → Step call t t' → motive t → motive t')
    {events : List (PoolEvent κ)} (hfew : (s.after call events).Few) :
    (s.after call events).Numbered ∧ motive (s.after call events) := by
  induction events generalizing s with
  | nil => exact ⟨h, hs⟩
  | cons event events ih =>
      have hmeet := s.step_meet call event
      have hfew_now : s.Few := hfew.of_suffix (s.records_suffix_after (event :: events))
      exact ih (h.step hfew_now hmeet) (hstep s _ h hfew_now hmeet hs) hfew

/-- **As long as the numbers last, none is given twice**, whatever is done to a pool. -/
theorem numbered_after (timing : PoolTiming) (world : σ) {events : List (PoolEvent κ)}
    (hfew : ((start timing world : PoolHistory κ σ capacity).after call events).Few) :
    ((start timing world : PoolHistory κ σ capacity).after call events).Numbered :=
  ((numbered_start timing world).after_induction (motive := fun _ => True) trivial
    (fun _ _ _ _ _ _ => trivial) hfew).1

/-! ## 4. What has left the table -/

/-- An event brings no number back. -/
theorem Numbered.contains_of_step (h : s.Numbered) (hfew : s.Few) (hstep : Step call s s')
    {id : Nat} (hid : id ≤ s.pool.lastId) (hcontains : s'.pool.contains id = true) :
    s.pool.contains id = true := by
  obtain ⟨q, hq, hqid⟩ := TaskPool.contains_iff.mp hcontains
  refine TaskPool.contains_iff.mpr ?_
  cases hstep with
  | rest => exact ⟨q, hq, hqid⟩
  | posted task hroom =>
      rcases List.mem_cons.mp ((TaskPool.toList_post_perm hroom task).mem_iff.mp hq) with rfl | hq
      · -- the new number is greater
        have hnext := h.nextId_eq hfew
        dsimp only at hqid
        omega
      · exact ⟨q, hq, hqid⟩
  | removed other hheld =>
      have hold := s.pool.toList_remove other ▸ hq
      exact ⟨q, (List.mem_filter.mp hold).1, hqid⟩
  | ran now =>
      obtain ⟨p, hp, hleft⟩ := TaskPool.exists_of_mem_pass hq
      rcases hleft with rfl | hafter
      · exact ⟨q, hp, hqid⟩
      · exact ⟨p, hp, (Posted.id_of_after hafter).symm.trans hqid⟩

theorem Numbered.lastId_le_step (h : s.Numbered) (hfew : s.Few) (hstep : Step call s s') :
    s.pool.lastId ≤ s'.pool.lastId := by
  cases hstep with
  | rest => exact Nat.le_refl _
  | posted task hroom =>
      have hnext := h.nextId_eq hfew
      rw [TaskPool.post_of_room hroom]
      dsimp only
      omega
  | removed id hheld => exact Nat.le_of_eq (s.pool.lastId_remove id).symm
  | ran now => exact Nat.le_refl _

/-- **A task that has left the table does not come back.** -/
theorem Numbered.contains_of_after (h : s.Numbered) {events : List (PoolEvent κ)}
    (hfew : (s.after call events).Few) {id : Nat} (hid : id ≤ s.pool.lastId)
    (hcontains : (s.after call events).pool.contains id = true) : s.pool.contains id = true := by
  -- what was given before stays below the number given last
  have hrun := h.after_induction
    (motive := fun t => s.pool.lastId ≤ t.pool.lastId ∧
      (t.pool.contains id = true → s.pool.contains id = true))
    ⟨Nat.le_refl _, fun hheld => hheld⟩ ?_ hfew
  · exact hrun.2.2 hcontains
  · intro t t' hnum hfew_now hstep hback
    refine ⟨Nat.le_trans hback.1 (hnum.lastId_le_step hfew_now hstep), fun hheld => ?_⟩
    exact hback.2 (hnum.contains_of_step hfew_now hstep (Nat.le_trans hid hback.1) hheld)

end PoolHistory

end Aquarium

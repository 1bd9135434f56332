import Aquarium.Proofs.Slots
import Aquarium.Task.Pool

/-!
# What one pass does to a pool

A pass goes from slot to slot. This file says what it comes to as a whole, so that nothing else has
to look into the loop:

* `callAll`: tasks that are called one after another, until one of them fails;
* `Pass.Course`: all that a pass can come to. Either it called every task that was due, or one of
  those failed, and then all that stands behind that one is as it was;
* `TaskPool.pass_of_returns`: a pass in which every callback returns;
* `TaskPool.exists_of_mem_pass`: a task in the table after a pass was there before it;
* `TaskPool.deadline_pass_le`: no task has to be looked at before the deadline that a pass gives.
-/

namespace Aquarium

variable {κ σ : Type} {capacity : Nat} {call : Caller κ σ} {now known : Int} {world : σ}

/-! ## 1. One task -/

namespace PoolTask

variable {t : PoolTask κ}

/-- A task is due if it has a callback, and never ran or ran its interval ago. -/
theorem isDue_iff : t.isDue now = true ↔
    t.callback.isSome = true ∧ ∀ last, t.last = some last → last + t.interval ≤ now := by
  unfold isDue dueAt
  rw [Bool.and_eq_true, decide_eq_true_eq]
  cases t.last with
  | none => simp
  | some last => simp

/-- What is due stays due until it is called. -/
theorem isDue_of_le {later : Int} (h : t.isDue now = true) (hle : now ≤ later) :
    t.isDue later = true := by
  obtain ⟨hcallback, hlast⟩ := isDue_iff.mp h
  exact isDue_iff.mpr ⟨hcallback, fun last hrun => Int.le_trans (hlast last hrun) hle⟩

end PoolTask

namespace Posted

variable {p q : Posted κ}

/-- What a pass leaves of a task whose callback returns: nothing if it called the task and that one
runs only once, and the task with the moment of the pass if it called another one. -/
def after (now : Int) (p : Posted κ) : Option (Posted κ) :=
  if p.task.isDue now then
    if p.task.singleShot then none else some ⟨p.id, { p.task with last := some now }⟩
  else some p

theorem after_of_not_due (h : p.task.isDue now = false) : p.after now = some p := by
  rw [after, h]
  rfl

/-- What a task is that a pass leaves. -/
theorem cases_of_after (h : p.after now = some q) :
    (p.task.isDue now = false ∧ q = p) ∨
      (p.task.isDue now = true ∧ p.task.singleShot = false ∧
        q = ⟨p.id, { p.task with last := some now }⟩) := by
  unfold after at h
  split at h
  · rename_i hdue
    split at h
    · cases h
    · rename_i hstays
      cases h
      exact Or.inr ⟨hdue, Bool.eq_false_iff.mpr hstays, rfl⟩
  · rename_i hdue
    cases h
    exact Or.inl ⟨Bool.eq_false_iff.mpr hdue, rfl⟩

/-- A pass changes nothing about a task but the moment at which it ran last. -/
theorem eq_of_after (h : p.after now = some q) :
    q = ⟨p.id, { p.task with last := q.task.last }⟩ := by
  rcases cases_of_after h with ⟨-, rfl⟩ | ⟨-, -, rfl⟩
  · rfl
  · rfl

theorem id_of_after (h : p.after now = some q) : q.id = p.id := by rw [eq_of_after h]

/-- Whatever has a callback has run when a pass has looked at it. -/
theorem exists_last_of_after (h : p.after now = some q) (hq : q.task.callback.isSome = true) :
    ∃ last, q.task.last = some last := by
  rcases cases_of_after h with ⟨hdue, rfl⟩ | ⟨-, -, rfl⟩
  · cases hlast : q.task.last with
    | some last => exact ⟨last, rfl⟩
    | none =>
        have hfirst : q.task.isDue now = true :=
          PoolTask.isDue_iff.mpr ⟨hq, fun last hrun => by rw [hlast] at hrun; cases hrun⟩
        rw [hdue] at hfirst
        cases hfirst
  · exact ⟨now, rfl⟩

end Posted

/-! ## 2. Calls -/

namespace Posted

/-- Calls a task; there is nothing to call without a callback. -/
def run (call : Caller κ σ) (p : Posted κ) (world : σ) : σ × Option Fault :=
  match p.task.callback with
  | none => (world, none)
  | some callback => call callback world

end Posted

/-- What calling tasks one after another has come to. -/
structure Calls (κ σ : Type) where
  /-- The tasks that were called. -/
  called : List (Posted κ)
  world : σ
  /-- The fault of the task that was called last. -/
  fault : Option Fault

/-- Calls tasks one after another, until one of them fails. -/
def callAll (call : Caller κ σ) : List (Posted κ) → σ → Calls κ σ
  | [], world => ⟨[], world, none⟩
  | p :: ps, world =>
    match p.run call world with
    | (world, some fault) => ⟨[p], world, some fault⟩
    | (world, none) =>
      let rest := callAll call ps world
      { rest with called := p :: rest.called }

/-- Every callback returns, whatever the world is like. -/
def Returns (call : Caller κ σ) : Prop := ∀ callback world, (call callback world).2 = none

theorem Returns.run (hcall : Returns call) (p : Posted κ) (world : σ) :
    (p.run call world).2 = none := by
  unfold Posted.run
  split
  · rfl
  · exact hcall _ world

/-- The world after tasks that were called one after another and all returned. -/
def worldAfter (call : Caller κ σ) (ps : List (Posted κ)) (world : σ) : σ :=
  ps.foldl (fun world p => (p.run call world).1) world

theorem callAll_cons {p : Posted κ} {world' : σ} (h : p.run call world = (world', none))
    (ps : List (Posted κ)) :
    callAll call (p :: ps) world =
      ⟨p :: (callAll call ps world').called, (callAll call ps world').world,
        (callAll call ps world').fault⟩ := by rw [callAll, h]

theorem callAll_cons_of_fault {p : Posted κ} {world' : σ} {fault : Fault}
    (h : p.run call world = (world', some fault)) (ps : List (Posted κ)) :
    callAll call (p :: ps) world = ⟨[p], world', some fault⟩ := by rw [callAll, h]

theorem callAll_of_returns (hcall : Returns call) (ps : List (Posted κ)) (world : σ) :
    callAll call ps world = ⟨ps, worldAfter call ps world, none⟩ := by
  induction ps generalizing world with
  | nil => rfl
  | cons p ps ih =>
      have hrun : p.run call world = ((p.run call world).1, none) :=
        Prod.ext rfl (hcall.run p world)
      rw [callAll_cons hrun, ih]
      rfl

/-- If all the tasks were called, the first of them returned and the rest were called. -/
theorem exists_of_callAll_cons {p : Posted κ} {ps : List (Posted κ)} {world₁ : σ}
    (h : callAll call (p :: ps) world = ⟨p :: ps, world₁, none⟩) :
    ∃ world', p.run call world = (world', none) ∧
      callAll call ps world' = ⟨ps, world₁, none⟩ := by
  cases hrun : p.run call world with
  | mk world' fault =>
      cases fault with
      | some fault =>
          rw [callAll_cons_of_fault hrun] at h
          cases congrArg Calls.fault h
      | none =>
          rw [callAll_cons hrun] at h
          cases hps : callAll call ps world'
          rw [hps] at h
          cases h
          exact ⟨world', rfl, hps⟩

/-- Tasks that return leave those that follow to be called in the world that they leave. -/
theorem callAll_append {ps : List (Posted κ)} {world₁ : σ}
    (h : callAll call ps world = ⟨ps, world₁, none⟩) (qs : List (Posted κ)) :
    callAll call (ps ++ qs) world =
      ⟨ps ++ (callAll call qs world₁).called, (callAll call qs world₁).world,
        (callAll call qs world₁).fault⟩ := by
  induction ps generalizing world with
  | nil =>
      cases h
      rfl
  | cons p ps ih =>
      obtain ⟨world', hrun, hrest⟩ := exists_of_callAll_cons h
      rw [List.cons_append, callAll_cons hrun, ih hrest]
      rfl

/-! ## 3. The whole pass -/

/-- The moment at which a table has to be looked at again, or an earlier one that is known. -/
def deadlineOver (now known : Int) (cells : List (Option (Posted κ))) : Int :=
  cells.foldl (fun known cell => Posted.deadline now cell known) known

namespace Pass

variable {cells : List (Option (Posted κ))}

/-- The tasks in some cells that are due. -/
def due (now : Int) (cells : List (Option (Posted κ))) : List (Posted κ) :=
  (cells.filterMap id).filter (·.task.isDue now)

theorem due_append (now : Int) (front back : List (Option (Posted κ))) :
    due now (front ++ back) = due now front ++ due now back := by
  rw [due, due, due, List.filterMap_append, List.filter_append]

/-- All that a pass can come to. -/
inductive Course (call : Caller κ σ) (now known : Int) (cells : List (Option (Posted κ)))
    (world : σ) : Pass κ σ → Prop where
  /-- It called every task that was due. -/
  | whole {world' : σ} (h : callAll call (due now cells) world = ⟨due now cells, world', none⟩) :
      Course call now known cells world
        ⟨cells.map (·.bind (Posted.after now)), world',
          .ok (deadlineOver now known (cells.map (·.bind (Posted.after now))))⟩
  /-- A task that was due failed, and what stands behind it was not looked at. -/
  | broken {front back : List (Option (Posted κ))} {p : Posted κ} {world₁ world' : σ}
      {fault : Fault} (hcells : cells = front ++ some p :: back)
      (hfront : callAll call (due now front) world = ⟨due now front, world₁, none⟩)
      (hdue : p.task.isDue now = true) (hfail : p.run call world₁ = (world', some fault)) :
      Course call now known cells world
        ⟨front.map (·.bind (Posted.after now)) ++ some p :: back, world', .error fault⟩

/-- A cell that was seen to, and what the cells behind it come to. -/
theorem Course.cons {cell : Option (Posted κ)} {world₁ : σ} {rest : Pass κ σ}
    (hcell : callAll call (due now [cell]) world = ⟨due now [cell], world₁, none⟩)
    (h : Course call now (Posted.deadline now (cell.bind (Posted.after now)) known) cells world₁
      rest) :
    Course call now known (cell :: cells) world
      { rest with cells := cell.bind (Posted.after now) :: rest.cells } := by
  have happend : ∀ cells, due now (cell :: cells) = due now [cell] ++ due now cells :=
    due_append now [cell]
  cases h with
  | whole hrest =>
      refine .whole ?_
      rw [happend, callAll_append hcell, hrest]
  | broken hcells hfront hdue hfail =>
      rename_i front back p _ _ _
      have hsplit : cell :: cells = (cell :: front) ++ some p :: back :=
        congrArg (cell :: ·) hcells
      refine .broken hsplit ?_ hdue hfail
      rw [happend, callAll_append hcell, hfront]

theorem visit_of_not_due {p : Posted κ} (h : p.task.isDue now = false) (world : σ) :
    p.visit call now world = (world, .ok (p.after now)) := by
  rw [Posted.after_of_not_due h]
  unfold Posted.visit
  split
  · rfl
  · rename_i hcallback
    unfold PoolTask.isDue at h
    rw [hcallback, Option.isSome_some, Bool.true_and] at h
    rw [if_neg (of_decide_eq_false h)]

theorem visit_of_due {p : Posted κ} (h : p.task.isDue now = true) (world : σ) :
    p.visit call now world =
      match p.run call world with
      | (world, some fault) => (world, .error fault)
      | (world, none) => (world, .ok (p.after now)) := by
  rw [Posted.after, if_pos h]
  unfold PoolTask.isDue at h
  rw [Bool.and_eq_true, decide_eq_true_eq] at h
  obtain ⟨callback, hcallback⟩ := Option.isSome_iff_exists.mp h.1
  simp only [Posted.visit, Posted.run, hcallback]
  refine (if_pos h.2).trans ?_
  cases call callback world with
  | mk world fault => cases fault <;> rfl

theorem course_run (call : Caller κ σ) (now known : Int) (cells : List (Option (Posted κ)))
    (world : σ) : Course call now known cells world (run call now known cells world) := by
  induction cells generalizing known world with
  | nil => exact .whole rfl
  | cons cell cells ih =>
      cases cell with
      | none => exact (ih known world).cons rfl
      | some p =>
          cases hdue : p.task.isDue now with
          | false =>
              have hnone : due now [some p] = [] := by simp [due, hdue]
              have hcell : callAll call (due now [some p]) world =
                  ⟨due now [some p], world, none⟩ := by
                rw [hnone]
                rfl
              have hcourse := (ih (Posted.deadline now (p.after now) known) world).cons hcell
              simp only [run, visit_of_not_due hdue]
              exact hcourse
          | true =>
              have hone : due now [some p] = [p] := by simp [due, hdue]
              simp only [run, visit_of_due hdue]
              cases hrun : p.run call world with
              | mk world₁ fault =>
                  cases fault with
                  | some fault => exact .broken (List.nil_append _).symm rfl hdue hrun
                  | none =>
                      have hcell : callAll call (due now [some p]) world =
                          ⟨due now [some p], world₁, none⟩ := by
                        rw [hone, callAll_cons hrun]
                        rfl
                      exact (ih (Posted.deadline now (p.after now) known) world₁).cons hcell

/-- What was called is what was due, up to the first task that failed. -/
theorem callAll_of_broken {front back : List (Option (Posted κ))} {p : Posted κ}
    {world₁ world' : σ} {fault : Fault}
    (hfront : callAll call (due now front) world = ⟨due now front, world₁, none⟩)
    (hdue : p.task.isDue now = true) (hfail : p.run call world₁ = (world', some fault)) :
    callAll call (due now (front ++ some p :: back)) world =
      ⟨due now front ++ [p], world', some fault⟩ := by
  have hsplit : due now (some p :: back) = p :: due now back := by simp [due, hdue]
  rw [due_append, callAll_append hfront, hsplit, callAll_cons_of_fault hfail]

theorem run_of_returns (hcall : Returns call) (now known : Int)
    (cells : List (Option (Posted κ))) (world : σ) :
    run call now known cells world =
      ⟨cells.map (·.bind (Posted.after now)), worldAfter call (due now cells) world,
        .ok (deadlineOver now known (cells.map (·.bind (Posted.after now))))⟩ := by
  have hcourse := course_run call now known cells world
  have hall := callAll_of_returns hcall (due now cells) world
  generalize run call now known cells world = done at hcourse
  cases hcourse with
  | whole h =>
      rw [h] at hall
      cases hall
      rfl
  | broken hcells hfront hdue hfail =>
      rw [hcells, callAll_of_broken hfront hdue hfail] at hall
      cases congrArg Calls.fault hall

/-! ### What becomes of the cells -/

theorem ids_after_sublist (now : Int) (cells : List (Option (Posted κ))) :
    (((cells.map (·.bind (Posted.after now))).filterMap id).map Posted.id).Sublist
      ((cells.filterMap id).map Posted.id) := by
  induction cells with
  | nil => exact List.Sublist.refl _
  | cons cell cells ih =>
      cases cell with
      | none => exact ih
      | some p =>
          cases hafter : p.after now with
          | none => simpa [hafter] using ih.cons p.id
          | some q => simpa [hafter, Posted.id_of_after hafter] using ih

theorem exists_of_mem_after {q : Posted κ}
    (h : some q ∈ cells.map (·.bind (Posted.after now))) :
    ∃ p, some p ∈ cells ∧ p.after now = some q := by
  obtain ⟨cell, hcell, hafter⟩ := List.mem_map.mp h
  obtain ⟨p, rfl, hp⟩ := Option.bind_eq_some_iff.mp hafter
  exact ⟨p, hcell, hp⟩

/-- A pass gives no number to a task, and takes none from one that stays. -/
theorem Course.ids_sublist {done : Pass κ σ} (h : Course call now known cells world done) :
    ((done.cells.filterMap id).map Posted.id).Sublist ((cells.filterMap id).map Posted.id) := by
  cases h with
  | whole _ => exact ids_after_sublist now cells
  | broken hcells _ _ _ =>
      rw [hcells, List.filterMap_append, List.filterMap_append, List.map_append, List.map_append]
      exact (ids_after_sublist now _).append (List.Sublist.refl _)

/-- What stands in a cell after a pass was there before it, or is what the pass left of it. -/
theorem Course.exists_of_mem {done : Pass κ σ} (h : Course call now known cells world done)
    {q : Posted κ} (hq : some q ∈ done.cells) :
    ∃ p, some p ∈ cells ∧ (q = p ∨ p.after now = some q) := by
  cases h with
  | whole _ =>
      obtain ⟨p, hp, hafter⟩ := exists_of_mem_after hq
      exact ⟨p, hp, Or.inr hafter⟩
  | broken hcells _ _ _ =>
      rw [hcells]
      rcases List.mem_append.mp hq with hq | hq
      · obtain ⟨p, hp, hafter⟩ := exists_of_mem_after hq
        exact ⟨p, List.mem_append_left _ hp, Or.inr hafter⟩
      · exact ⟨q, List.mem_append_right _ hq, Or.inl rfl⟩

/-! ### The deadline -/

theorem deadlineOver_le (now known : Int) (cells : List (Option (Posted κ))) :
    deadlineOver now known cells ≤ known := by
  induction cells generalizing known with
  | nil => exact Int.le_refl known
  | cons cell cells ih =>
      refine Int.le_trans (ih _) ?_
      cases cell with
      | none => exact Int.le_refl known
      | some p =>
          simp only [Posted.deadline]
          split
          · exact Int.min_le_left _ _
          · exact Int.le_refl known

theorem deadlineOver_le_dueAt {q : Posted κ} (hq : some q ∈ cells)
    (hcallback : q.task.callback.isSome = true) :
    deadlineOver now known cells ≤ q.task.dueAt now := by
  induction cells generalizing known with
  | nil => cases hq
  | cons cell cells ih =>
      rcases List.mem_cons.mp hq with rfl | hq
      · refine Int.le_trans (deadlineOver_le now _ cells) ?_
        simp only [Posted.deadline]
        rw [if_pos hcallback]
        exact Int.min_le_right _ _
      · exact ih hq

/-- **No task that is left has to be looked at before the deadline**, and each of them has run. -/
theorem Course.deadline_le {done : Pass κ σ} (h : Course call now known cells world done)
    {d : Int} (hd : done.deadline = .ok d) {q : Posted κ} (hq : some q ∈ done.cells)
    (hcallback : q.task.callback.isSome = true) :
    ∃ last, q.task.last = some last ∧ d ≤ last + q.task.interval := by
  cases h with
  | whole _ =>
      cases hd
      obtain ⟨p, -, hafter⟩ := exists_of_mem_after hq
      obtain ⟨last, hlast⟩ := Posted.exists_last_of_after hafter hcallback
      have hle : deadlineOver now known _ ≤ q.task.dueAt now := deadlineOver_le_dueAt hq hcallback
      unfold PoolTask.dueAt at hle
      rw [hlast] at hle
      exact ⟨last, hlast, hle⟩
  | broken _ _ _ _ => cases hd

/-! ### What becomes of the world -/

/-- What every call keeps, calling one after another keeps. -/
theorem world_callAll (inv : σ → Prop)
    (hcall : ∀ callback world, inv world → inv (call callback world).1) (ps : List (Posted κ))
    {world : σ} (h : inv world) : inv (callAll call ps world).world := by
  induction ps generalizing world with
  | nil => exact h
  | cons p ps ih =>
      have hrun : inv (p.run call world).1 := by
        unfold Posted.run
        split
        · exact h
        · exact hcall _ world h
      cases hresult : p.run call world with
      | mk world' fault =>
          rw [hresult] at hrun
          cases fault with
          | some fault => rwa [callAll_cons_of_fault hresult]
          | none =>
              rw [callAll_cons hresult]
              exact ih hrun

/-- A pass leaves the world that the calls of what is due leave. -/
theorem Course.world_eq {done : Pass κ σ} (h : Course call now known cells world done) :
    done.world = (callAll call (due now cells) world).world := by
  cases h with
  | whole hall => rw [hall]
  | broken hcells hfront hdue hfail => rw [hcells, callAll_of_broken hfront hdue hfail]

/-- **What every call keeps, a pass keeps.** -/
theorem world_run (inv : σ → Prop)
    (hcall : ∀ callback world, inv world → inv (call callback world).1) (now known : Int)
    (cells : List (Option (Posted κ))) {world : σ} (h : inv world) :
    inv (run call now known cells world).world := by
  rw [(course_run call now known cells world).world_eq]
  exact world_callAll inv hcall (due now cells) h

end Pass

namespace TaskPool

variable {pool : TaskPool κ capacity} {p q : Posted κ}

/-! ## 4. The table after a pass -/

/-- The tasks that are due, in the order of their slots. -/
def due (now : Int) (pool : TaskPool κ capacity) : List (Posted κ) :=
  pool.toList.filter (·.task.isDue now)

theorem course_pass (call : Caller κ σ) (now : Int) (pool : TaskPool κ capacity) (world : σ) :
    Pass.Course call now (now + pool.timing.idleWait) pool.tasks.cells world
      (Pass.run call now (now + pool.timing.idleWait) pool.tasks.cells world) :=
  Pass.course_run call now _ _ world

/-- **A pass in which every callback returns** calls what is due, slot by slot and once each, and
leaves of every task what it is to leave, in its slot. -/
theorem pass_of_returns (hcall : Returns call) (now : Int) (pool : TaskPool κ capacity)
    (world : σ) :
    pool.pass call now world =
      ({ pool with tasks := pool.tasks.mapCells (·.bind (Posted.after now)) },
        worldAfter call (pool.due now) world,
        .ok (deadlineOver now (now + pool.timing.idleWait)
          (pool.tasks.cells.map (·.bind (Posted.after now))))) := by
  simp only [pass, Pass.run_of_returns hcall]
  rfl

theorem mem_toList_iff : p ∈ pool.toList ↔ some p ∈ pool.tasks.cells := by
  unfold toList Slots.values
  rw [List.mem_filterMap]
  exact ⟨fun ⟨_, hcell, h⟩ => h ▸ hcell, fun h => ⟨_, h, rfl⟩⟩

/-- A pass in which every callback returns has left what is in the table after it. -/
theorem exists_of_mem_pass_of_returns (hcall : Returns call)
    (h : q ∈ (pool.pass call now world).1.toList) : ∃ p ∈ pool.toList, p.after now = some q := by
  rw [pass_of_returns hcall] at h
  obtain ⟨p, hp, hq⟩ := Pass.exists_of_mem_after (mem_toList_iff.mp h)
  exact ⟨p, mem_toList_iff.mpr hp, hq⟩

/-- A task in the table after a pass was there before it, but for the moment at which it ran. -/
theorem exists_of_mem_pass (h : q ∈ (pool.pass call now world).1.toList) :
    ∃ p ∈ pool.toList, q = p ∨ p.after now = some q := by
  obtain ⟨p, hp, hq⟩ := (pool.course_pass call now world).exists_of_mem (mem_toList_iff.mp h)
  exact ⟨p, mem_toList_iff.mpr hp, hq⟩

theorem ids_pass_sublist (call : Caller κ σ) (now : Int) (pool : TaskPool κ capacity) (world : σ) :
    ((pool.pass call now world).1.toList.map Posted.id).Sublist (pool.toList.map Posted.id) :=
  (pool.course_pass call now world).ids_sublist

/-- **No task has to be looked at before the deadline that a pass gives**, as long as nobody adds
another one. -/
theorem deadline_pass_le {d : Int} (hd : (pool.pass call now world).2.2 = .ok d)
    (hq : q ∈ (pool.pass call now world).1.toList) (hcallback : q.task.callback.isSome = true) :
    ∃ last, q.task.last = some last ∧ d ≤ last + q.task.interval :=
  (pool.course_pass call now world).deadline_le hd (mem_toList_iff.mp hq) hcallback

end TaskPool

end Aquarium

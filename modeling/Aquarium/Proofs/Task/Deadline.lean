import Aquarium.Proofs.Task.History
import Mathlib.Order.Bounds.Basic

/-!
# The deadline that a pass gives

A pass works out the moment at which the pool next needs attention while it calls tasks, takes them
out and stamps them. What it gives is read off the table that it leaves.

* `TaskPool.deadlines`: the moments at which a table asks for attention;
* `TaskPool.isLeast_deadlines`: a pass in which every callback returns gives the least of them;
* `TaskPool.RestsUntil`: nothing in a table is due before a moment. Whatever is done to a pool keeps
  it so, as long as nothing is posted (`PoolHistory.RestsUntil.after`);
* `PoolHistory.deadline_exact`: the main statement.
-/

namespace Aquarium

variable {κ σ : Type} {capacity : Nat} {call : Caller κ σ} {now known : Int} {world : σ}

/-! ## 1. The least moment -/

namespace Pass

/-- The deadline over some cells is the one that was known, or a task asks for it. -/
theorem deadlineOver_eq_or (now known : Int) (cells : List (Option (Posted κ))) :
    deadlineOver now known cells = known ∨
      ∃ q, some q ∈ cells ∧ q.task.callback.isSome = true ∧
        deadlineOver now known cells = q.task.dueAt now := by
  induction cells generalizing known with
  | nil => exact Or.inl rfl
  | cons cell cells ih =>
      rcases ih (Posted.deadline now cell known) with heq | ⟨q, hq, hcallback, heq⟩
      · cases cell with
        | none => exact Or.inl heq
        | some p =>
            cases hcallback : p.task.callback.isSome with
            | false =>
                refine Or.inl (heq.trans ?_)
                rw [Posted.deadline, hcallback]
                rfl
            | true =>
                have hmin : deadlineOver now known (some p :: cells) =
                    min known (p.task.dueAt now) := by
                  refine heq.trans ?_
                  rw [Posted.deadline, if_pos hcallback]
                rcases Int.le_total known (p.task.dueAt now) with hle | hle
                · exact Or.inl (hmin.trans (Int.min_eq_left hle))
                · exact Or.inr ⟨p, List.mem_cons_self, hcallback, hmin.trans (Int.min_eq_right hle)⟩
      · exact Or.inr ⟨q, List.mem_cons_of_mem _ hq, hcallback, heq⟩

end Pass

namespace TaskPool

variable {pool : TaskPool κ capacity} {p q : Posted κ}

/-- The moments at which a table asks for attention after a pass: when the worker has slept for as
long as it does with nothing to do, and when the interval of a task with a callback has gone by. -/
def deadlines (now : Int) (pool : TaskPool κ capacity) : Set Int :=
  {moment | moment = now + pool.timing.idleWait ∨
    ∃ q ∈ pool.toList, q.task.callback.isSome = true ∧
      ∃ last, q.task.last = some last ∧ moment = last + q.task.interval}

/-- Nothing in the table is due before a moment: each task with a callback has run, and its interval
has not gone by until then. -/
def RestsUntil (moment : Int) (pool : TaskPool κ capacity) : Prop :=
  ∀ q ∈ pool.toList, q.task.callback.isSome = true →
    ∃ last, q.task.last = some last ∧ moment ≤ last + q.task.interval

/-- **A pass in which every callback returns gives the least moment** at which the table that it
leaves asks for attention, and every task with a callback in that table has run. -/
theorem isLeast_deadlines (hcall : Returns call) (now : Int) (pool : TaskPool κ capacity)
    (world : σ) :
    ∃ d, (pool.pass call now world).2.2 = .ok d ∧
      IsLeast ((pool.pass call now world).1.deadlines now) d ∧
      (pool.pass call now world).1.RestsUntil d := by
  have hpass := pool.pass_of_returns hcall now world
  have hok := congrArg (·.2.2) hpass
  have hrests := fun q hq hcallback => deadline_pass_le (q := q) hok hq hcallback
  refine ⟨_, hok, ⟨?_, ?_⟩, hrests⟩
  · -- it is one of these moments
    rcases Pass.deadlineOver_eq_or now (now + pool.timing.idleWait)
        (pool.tasks.cells.map (·.bind (Posted.after now))) with heq | ⟨q, hq, hcallback, heq⟩
    · exact Or.inl (by rw [hpass]; exact heq)
    · have hmem : q ∈ (pool.pass call now world).1.toList := by
        rw [hpass]
        exact mem_toList_iff.mpr hq
      obtain ⟨last, hlast, -⟩ := hrests q hmem hcallback
      refine Or.inr ⟨q, hmem, hcallback, last, hlast, heq.trans ?_⟩
      rw [PoolTask.dueAt, hlast]
  · -- and none of them is before it
    rintro moment (rfl | ⟨q, hq, hcallback, last, hlast, rfl⟩)
    · rw [hpass]
      exact Pass.deadlineOver_le _ _ _
    · obtain ⟨last', hlast', hle⟩ := hrests q hq hcallback
      rw [hlast] at hlast'
      cases hlast'
      exact hle

/-- A task that a pass leaves was not due, or its interval starts with the pass. -/
theorem le_of_mem_pass (hcall : Returns call) (hq : q ∈ (pool.pass call now world).1.toList)
    (hcallback : q.task.callback.isSome = true) {last : Int} (hlast : q.task.last = some last) :
    now < last + q.task.interval ∨
      q.task.singleShot = false ∧ last + q.task.interval = now + q.task.interval := by
  obtain ⟨p, -, hafter⟩ := exists_of_mem_pass_of_returns hcall hq
  rcases Posted.cases_of_after hafter with ⟨hdue, rfl⟩ | ⟨-, hstays, rfl⟩
  · refine Or.inl (Int.not_le.mp fun hle => ?_)
    have hnow : q.task.isDue now = true :=
      PoolTask.isDue_iff.mpr ⟨hcallback, fun other hother => by
        rw [hlast] at hother
        cases hother
        exact hle⟩
    rw [hdue] at hnow
    cases hnow
  · cases hlast
    exact Or.inr ⟨hstays, rfl⟩

/-! ## 2. Until then -/

namespace RestsUntil

variable {moment later : Int}

theorem due_eq_nil (h : pool.RestsUntil moment) (hlt : later < moment) :
    pool.due later = [] := by
  refine List.filter_eq_nil_iff.mpr fun q hq hdue => ?_
  obtain ⟨hcallback, hrun⟩ := PoolTask.isDue_iff.mp hdue
  obtain ⟨last, hlast, hle⟩ := h q hq hcallback
  have hgone := hrun last hlast
  omega

theorem of_mem {pool' : TaskPool κ capacity} (h : pool.RestsUntil moment)
    (hmem : ∀ q ∈ pool'.toList, q ∈ pool.toList) : pool'.RestsUntil moment :=
  fun q hq => h q (hmem q hq)

/-- **A pass keeps a table at rest**, whenever it is made and whatever becomes of it: what it calls has
been waiting for its interval until then, and goes on to wait for another one. -/
theorem pass (h : pool.RestsUntil moment) (call : Caller κ σ) (now : Int) (world : σ) :
    (pool.pass call now world).1.RestsUntil moment := by
  intro q hq hcallback
  obtain ⟨p, hp, hleft⟩ := exists_of_mem_pass hq
  rcases hleft with rfl | hafter
  · exact h q hp hcallback
  · rcases Posted.cases_of_after hafter with ⟨-, rfl⟩ | ⟨hdue, -, rfl⟩
    · exact h q hp hcallback
    · obtain ⟨last, hlast, hle⟩ := h p hp hcallback
      have hgone := (PoolTask.isDue_iff.mp hdue).2 last hlast
      refine ⟨now, rfl, ?_⟩
      dsimp only
      omega

end RestsUntil

/-- A pass with nothing to call does nothing. -/
theorem pass_of_due_eq_nil (h : pool.due now = []) (call : Caller κ σ) (world : σ) :
    (pool.pass call now world).1 = pool ∧ (pool.pass call now world).2.1 = world := by
  have hcourse := pool.course_pass call now world
  have hnone : ∀ q, some q ∈ pool.tasks.cells → q.task.isDue now = false := fun q hq =>
    Bool.eq_false_iff.mpr (List.filter_eq_nil_iff.mp h q (mem_toList_iff.mpr hq))
  have hworld := hcourse.world_eq
  rw [show Pass.due now pool.tasks.cells = [] from h] at hworld
  refine ⟨?_, hworld⟩
  have hcells : (Pass.run call now (now + pool.timing.idleWait) pool.tasks.cells world).cells =
      pool.tasks.cells := by
    generalize Pass.run call now (now + pool.timing.idleWait) pool.tasks.cells world = done
      at hcourse
    cases hcourse with
    | whole _ =>
        refine (List.map_congr_left fun cell hcell => ?_).trans (List.map_id _)
        cases cell with
        | none => rfl
        | some q => exact Posted.after_of_not_due (hnone q hcell)
    | broken hsplit hfront hdue hfail =>
        rename_i front back p _ _ _
        have hmem : some p ∈ pool.tasks.cells := by
          rw [hsplit]
          exact List.mem_append_right _ List.mem_cons_self
        rw [hnone p hmem] at hdue
        cases hdue
  have htasks : (pool.pass call now world).1.tasks = pool.tasks := Slots.ext hcells
  exact congrArg (fun tasks => { pool with tasks := tasks }) htasks

end TaskPool

namespace PoolHistory

variable {s : PoolHistory κ σ capacity} {moment : Int}

theorem mem_of_mem_takenOut {id : Nat} {q : Posted κ}
    (h : q ∈ (s.takenOut id (s.pool.remove id)).pool.toList) : q ∈ s.pool.toList := by
  have hpool : (s.takenOut id (s.pool.remove id)).pool = (s.pool.remove id).2 := by
    cases hremove : s.pool.remove id with
    | mk removed pool => cases removed <;> rfl
  rw [hpool, TaskPool.toList_remove] at h
  exact (List.mem_filter.mp h).1

theorem mem_of_mem_release {h : TaskHandle} {q : Posted κ}
    (hq : q ∈ (s.release h).pool.toList) : q ∈ s.pool.toList := by
  unfold release at hq
  cases hattached : h.attached with
  | false =>
      rw [TaskHandle.cancel_of_not_attached hattached] at hq
      exact hq
  | true =>
      rw [TaskHandle.cancel_of_attached hattached] at hq
      exact mem_of_mem_takenOut hq

/-- **An event that posts nothing keeps a table at rest.** -/
theorem restsUntil_meet (h : s.pool.RestsUntil moment) {event : PoolEvent κ}
    (hevent : ∀ task, event ≠ .post task) : (s.meet call event).pool.RestsUntil moment := by
  cases event with
  | post task => exact absurd rfl (hevent task)
  | remove id => exact h.of_mem fun _ => mem_of_mem_takenOut
  | release handle => exact h.of_mem fun _ => mem_of_mem_release
  | detach handle => exact h.of_mem fun _ => mem_of_mem_release
  | pass now => exact h.pass call now s.world

theorem restsUntil_after (h : s.pool.RestsUntil moment) {events : List (PoolEvent κ)}
    (hevents : ∀ task, .post task ∉ events) : (s.after call events).pool.RestsUntil moment := by
  induction events generalizing s with
  | nil => exact h
  | cons event events ih =>
      have hfirst : ∀ task, event ≠ .post task := by
        rintro task rfl
        exact hevents task List.mem_cons_self
      exact ih (restsUntil_meet h hfirst) fun task hin => hevents task (List.mem_cons_of_mem _ hin)

/-- **The deadline that a pass gives is exact.** Every callback returns, in a pass at `now` over any
table. The pass gives a deadline `d`, and of the table that it leaves:

* every task with a callback has run, and `d` is the least of the moments at which the interval of one
  of them has gone by, and of the moment at which the idle wait has;
* `d` is not before `now`, and it is after `now` if the idle wait is not zero and neither is the
  interval of any task with a callback that is there and runs again and again;
* whatever is done to the pool then, as long as nothing is posted, a pass before `d` calls nothing and
  leaves everything as it is. -/
theorem deadline_exact (hcall : Returns call) (s : PoolHistory κ σ capacity) (now : Int) :
    ∃ d, (s.pool.pass call now s.world).2.2 = .ok d ∧
      let next := s.meet call (.pass now)
      (∀ q ∈ next.pool.toList, q.task.callback.isSome = true → ∃ last, q.task.last = some last) ∧
      IsLeast (next.pool.deadlines now) d ∧
      now ≤ d ∧
      (0 < s.pool.timing.idleWait →
        (∀ q ∈ next.pool.toList, q.task.callback.isSome = true → q.task.singleShot = false →
          0 < q.task.interval) → now < d) ∧
      ∀ events, (∀ task, .post task ∉ events) → ∀ later < d,
        let quiet := next.after call events
        quiet.meet call (.pass later) = ⟨quiet.pool, quiet.world, .ran later [] :: quiet.records⟩ := by
  obtain ⟨d, hd, hleast, hrests⟩ := s.pool.isLeast_deadlines hcall now s.world
  refine ⟨d, hd, fun q hq hcallback => ?_, hleast, ?_, fun hidle hintervals => ?_,
    fun events hevents later hlater => ?_⟩
  · obtain ⟨last, hlast, -⟩ := hrests q hq hcallback
    exact ⟨last, hlast⟩
  · rcases hleast.1 with rfl | ⟨q, hq, hcallback, last, hlast, rfl⟩
    · exact Int.le_add_of_nonneg_right (Int.natCast_nonneg _)
    · rcases TaskPool.le_of_mem_pass hcall hq hcallback hlast with hlt | ⟨-, heq⟩ <;> omega
  · rcases hleast.1 with rfl | ⟨q, hq, hcallback, last, hlast, rfl⟩
    · exact Int.lt_add_of_pos_right _ (Int.natCast_pos.mpr hidle)
    · rcases TaskPool.le_of_mem_pass hcall hq hcallback hlast with hlt | ⟨hstays, heq⟩
      · exact hlt
      · have hpos := hintervals q hq hcallback hstays
        omega
  · have hquiet : ((s.meet call (.pass now)).after call events).pool.RestsUntil d :=
      restsUntil_after hrests hevents
    intro quiet
    have hnone : quiet.pool.due later = [] := hquiet.due_eq_nil hlater
    obtain ⟨hpool, hworld⟩ := TaskPool.pass_of_due_eq_nil hnone call quiet.world
    simp only [meet, hnone, hpool, hworld, callAll]

/-- At 3 the lamp runs once and is gone, the pump is called and waits until 13, and the alarm waits
until 7, which is the deadline; the spare task has no callback. The alarm is taken out, and a pass at 6
calls nothing. -/
theorem deadline_exact_of_four :
    let call : Caller String (List String) := fun name names => (names ++ [name], none)
    let s : PoolHistory String (List String) 4 := (start .standard []).after call
      [.post (.once "lamp" "lamp"), .post (.periodic "pump" 10 "pump"),
        .post (.delayed "alarm" 5 2 "alarm"), .post (.idle "spare" 1)]
    let next := s.meet call (.pass 3)
    let quiet := next.after call [.release ⟨3, true⟩]
    Returns call ∧ (s.pool.pass call 3 s.world).2.2 = .ok 7 ∧ IsLeast (next.pool.deadlines 3) 7 ∧
      0 < s.pool.timing.idleWait ∧ (3 : Int) < 7 ∧
      next.world = ["lamp", "pump"] ∧ next.pool.toList.map Posted.id = [2, 3, 4] ∧
      quiet.meet call (.pass 6) = ⟨quiet.pool, quiet.world, .ran 6 [] :: quiet.records⟩ := by
  intro call s next quiet
  have hcall : Returns call := fun _ _ => rfl
  have hidle : 0 < s.pool.timing.idleWait := by decide
  have hgiven : (s.pool.pass call 3 s.world).2.2 = .ok 7 := by decide
  obtain ⟨d, hd, -, hleast, -, hlater, hquiet⟩ := deadline_exact hcall s 3
  rw [hgiven] at hd
  cases hd
  refine ⟨hcall, hgiven, hleast, hidle, hlater hidle (by decide), by decide, by decide, ?_⟩
  exact hquiet [.release ⟨3, true⟩] (fun _ => by simp) 6 (by decide)

end PoolHistory

end Aquarium

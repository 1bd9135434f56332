import Aquarium.Proofs.Task.Pass
import Aquarium.Proofs.Task.Table
import Aquarium.Task.Worker

/-!
# A worker among others

While a worker drains its pool, others post tasks, take them out, wake the worker and tell it to
stop. Everything that is done under the lock of the pool is one step here, and the steps come in any
order. What keeps the worker from sleeping through a task is that whoever changes the pool leaves a
mark that only the end of a sleep wipes out.

* `Worker.Went`: all that a step of a worker can be;
* `WorkHistory.Rested`: the worker is about to sleep or sleeps, and nothing was posted since the
  pass that gave it its deadline;
* `WorkHistory.Sound`: without a mark the worker is rested, and once it was told to stop and woken
  there is a mark as long as it sleeps. One step keeps this (`Sound.meet`), and so do many;
* `WorkHistory.no_wake_up_lost`: so it is in every history.
-/

namespace Aquarium

/-! ## 1. The worker -/

/-- The worker has made a pass, and is about to sleep or sleeps. -/
def Phase.rests : Phase → Bool
  | .leaving _ | .waiting _ => true
  | _ => false

namespace Worker

variable {κ σ : Type} {capacity : Nat} {call : Caller κ σ} {stopped : σ → Bool} {now : Int}
  {w w' : Worker κ σ capacity}

/-- All that a step of a worker can be. -/
inductive Went (call : Caller κ σ) (stopped : σ → Bool) (now : Int) (w : Worker κ σ capacity) :
    Worker κ σ capacity → Prop where
  /-- It looks, and is to go on to a pass. -/
  | looked (hphase : w.phase = .checking) (hgo : stopped w.world = false) :
      Went call stopped now w { w with phase := .passing }
  /-- It looks, and is to stop. -/
  | stopped (hstop : stopped w.world = true) :
      Went call stopped now w { w with phase := .ended none }
  /-- It makes a pass. -/
  | passed {d : Int} (hphase : w.phase = .passing)
      (hpass : (w.pool.pass call now w.world).2.2 = .ok d) :
      Went call stopped now w
        ⟨(w.pool.pass call now w.world).1, (w.pool.pass call now w.world).2.1, .leaving d⟩
  /-- It makes a pass, and ends with the task that fails. -/
  | failed {fault : Fault} (hphase : w.phase = .passing)
      (hpass : (w.pool.pass call now w.world).2.2 = .error fault) :
      Went call stopped now w
        ⟨(w.pool.pass call now w.world).1, (w.pool.pass call now w.world).2.1, .ended (some fault)⟩
  /-- It looks, is to go on, and goes to sleep. -/
  | slept {d : Int} (hphase : w.phase = .leaving d) (hgo : stopped w.world = false) :
      Went call stopped now w
        { w with phase := .waiting (sleepLimit w.pool.timing now d) }
  /-- It wakes up, and wipes out the mark. -/
  | woke {limit : Int} (hphase : w.phase = .waiting limit) :
      Went call stopped now w
        { w with pool := { w.pool with wakePending := false }, phase := .checking }

theorem went_of_step (h : w.step call stopped now = some w') : w.Went call stopped now w' := by
  obtain ⟨pool, world, phase⟩ := w
  unfold step at h
  cases phase with
  | checking =>
      cases hstop : stopped world with
      | true =>
          simp only [hstop, if_true] at h
          cases h
          exact .stopped hstop
      | false =>
          simp only [hstop, Bool.false_eq_true, if_false] at h
          cases h
          exact .looked rfl hstop
  | passing =>
      dsimp only at h
      split at h
      · rename_i pool' world' d hpass
        cases h
        have hwent : Went call stopped now ⟨pool, world, .passing⟩ _ :=
          .passed rfl (congrArg (·.2.2) hpass)
        rw [hpass] at hwent
        exact hwent
      · rename_i pool' world' fault hpass
        cases h
        have hwent : Went call stopped now ⟨pool, world, .passing⟩ _ :=
          .failed rfl (congrArg (·.2.2) hpass)
        rw [hpass] at hwent
        exact hwent
  | leaving d =>
      cases hstop : stopped world with
      | true =>
          simp only [hstop, if_true] at h
          cases h
          exact .stopped hstop
      | false =>
          simp only [hstop, Bool.false_eq_true, if_false] at h
          cases h
          exact .slept rfl hstop
  | waiting limit =>
      dsimp only at h
      split at h
      · cases h
        exact .woke rfl
      · cases h
  | ended fault => cases h

/-- A worker that cannot go on has ended or sleeps without a mark. -/
theorem blocked_of_step (h : w.step call stopped now = none) :
    (∃ fault, w.phase = .ended fault) ∨
      ∃ limit, w.phase = .waiting limit ∧ w.pool.wakePending = false := by
  obtain ⟨pool, world, phase⟩ := w
  unfold step at h
  cases phase with
  | checking => cases h
  | passing =>
      dsimp only at h
      split at h
      · cases h
      · cases h
  | leaving d => cases h
  | waiting limit =>
      dsimp only at h
      split at h
      · cases h
      · rename_i hasleep
        exact Or.inr ⟨limit, rfl, Bool.eq_false_iff.mpr fun hmark => hasleep (Or.inl hmark)⟩
  | ended fault => exact Or.inl ⟨fault, rfl⟩

end Worker

/-! ## 2. What the others do -/

/-- One thing that is done, by the worker or by others. -/
inductive WorkEvent (κ : Type) where
  /-- The worker goes on, if it can. -/
  | work (now : Int)
  /-- A task is posted. -/
  | post (task : PoolTask κ)
  /-- The task of a number is taken out. -/
  | remove (id : Nat)
  /-- A handle is cancelled or dropped. -/
  | release (h : TaskHandle)
  /-- The worker is woken. -/
  | wake
  /-- The worker is told to stop. It is woken afterwards, which is an event of its own. -/
  | stop
  deriving DecidableEq

/-- What has been done. -/
inductive WorkDeed where
  /-- A task was put into the table. -/
  | posted (id : Nat)
  | woken
  | told
  /-- The worker has made a pass, with this deadline. -/
  | passed (deadline : Int)
  /-- The worker has gone to sleep. -/
  | slept (now : Int)
  deriving DecidableEq

/-- What the worker has done to get to a phase. -/
def WorkDeed.of? (now : Int) : Phase → Option WorkDeed
  | .leaving d => some (.passed d)
  | .waiting _ => some (.slept now)
  | _ => none

/-- A worker, and all that was done, the latest first. -/
structure WorkHistory (κ σ : Type) (capacity : Nat) where
  worker : Worker κ σ capacity
  deeds : List WorkDeed

namespace WorkHistory

variable {κ σ : Type} {capacity : Nat} {call : Caller κ σ} {stopped : σ → Bool} {tell : σ → σ}
  {s : WorkHistory κ σ capacity}

/-- The worker is about to begin. -/
def start (pool : TaskPool κ capacity) (world : σ) : WorkHistory κ σ capacity :=
  ⟨.start pool world, []⟩

/-- The pool is another one now. -/
def withPool (s : WorkHistory κ σ capacity) (pool : TaskPool κ capacity) (deeds : List WorkDeed) :
    WorkHistory κ σ capacity :=
  ⟨{ s.worker with pool := pool }, deeds⟩

/-- After an event. To tell the worker to stop is to change the world. -/
def meet (call : Caller κ σ) (stopped : σ → Bool) (tell : σ → σ) (s : WorkHistory κ σ capacity) :
    WorkEvent κ → WorkHistory κ σ capacity
  | .work now =>
    match s.worker.step call stopped now with
    | some worker => ⟨worker, (WorkDeed.of? now worker.phase).toList ++ s.deeds⟩
    | none => s
  | .post task =>
    let (h, pool) := s.worker.pool.post task
    s.withPool pool (if h.isValid then .posted h.id :: s.deeds else s.deeds)
  | .remove id => s.withPool (s.worker.pool.remove id).2 s.deeds
  | .release h => s.withPool ((h.cancel (some s.worker.pool)).2.getD s.worker.pool) s.deeds
  | .wake => s.withPool s.worker.pool.wake (.woken :: s.deeds)
  | .stop => ⟨{ s.worker with world := tell s.worker.world }, .told :: s.deeds⟩

/-- After one event and another. -/
def after (call : Caller κ σ) (stopped : σ → Bool) (tell : σ → σ) (s : WorkHistory κ σ capacity)
    (events : List (WorkEvent κ)) : WorkHistory κ σ capacity :=
  events.foldl (meet call stopped tell) s

/-! ## 3. A worker that may sleep -/

/-- The worker is about to sleep or sleeps, for the deadline `d` of its last pass. Since that pass
there was only what is `recent`, and no task was posted. -/
structure Rested (s : WorkHistory κ σ capacity) (d : Int) (recent : List WorkDeed) : Prop where
  deeds : ∃ earlier, s.deeds = recent ++ .passed d :: earlier
  quiet : ∀ deed ∈ recent, (∀ id, deed ≠ .posted id) ∧ ∀ e, deed ≠ .passed e
  phase : s.worker.phase = .leaving d ∨ ∃ now, .slept now ∈ recent ∧
    s.worker.phase = .waiting (Worker.sleepLimit s.worker.pool.timing now d)
  /-- No task that is there has to be looked at before the deadline. -/
  early : ∀ p ∈ s.worker.pool.toList, p.task.callback.isSome = true →
    ∃ last, p.task.last = some last ∧ d ≤ last + p.task.interval

/-- The worker was told to stop, and woken after that. -/
def Dismissed (deeds : List WorkDeed) : Prop :=
  ∃ recent earlier, deeds = recent ++ .woken :: earlier ∧ .told ∈ earlier

/-- What the mark of the pool stands for. -/
structure Sound (stopped : σ → Bool) (s : WorkHistory κ σ capacity) : Prop where
  rested : s.worker.phase.rests = true → s.worker.pool.wakePending = false →
    ∃ d recent, s.Rested d recent
  told : .told ∈ s.deeds → stopped s.worker.world = true
  dismissed : Dismissed s.deeds → ∀ limit, s.worker.phase = .waiting limit →
    s.worker.pool.wakePending = true

theorem told_of_cons (deed : WorkDeed) {deeds : List WorkDeed} (hdeed : .told ≠ deed)
    (h : .told ∈ deed :: deeds) : .told ∈ deeds :=
  List.mem_of_ne_of_mem hdeed h

theorem told_of_dismissed {deeds : List WorkDeed} (h : Dismissed deeds) : .told ∈ deeds := by
  obtain ⟨recent, earlier, rfl, htold⟩ := h
  exact List.mem_append_right _ (List.mem_cons_of_mem _ htold)

theorem dismissed_of_cons (deed : WorkDeed) {deeds : List WorkDeed} (hdeed : deed ≠ .woken)
    (h : Dismissed (deed :: deeds)) : Dismissed deeds := by
  obtain ⟨recent, earlier, hdeeds, htold⟩ := h
  cases recent with
  | nil =>
      cases hdeeds
      exact absurd rfl hdeed
  | cons first recent =>
      cases hdeeds
      exact ⟨recent, earlier, rfl, htold⟩

theorem sound_start (stopped : σ → Bool) (pool : TaskPool κ capacity) (world : σ) :
    (start pool world).Sound stopped where
  rested := nofun
  told := nofun
  dismissed := fun _ _ hphase => by cases hphase

/-- A deed that is no post and no pass leaves the worker rested. -/
theorem Rested.cons {d : Int} {recent : List WorkDeed} (h : s.Rested d recent) (deed : WorkDeed)
    (hpost : ∀ id, deed ≠ .posted id) (hpass : ∀ e, deed ≠ .passed e)
    {worker : Worker κ σ capacity} (hpool : worker.pool = s.worker.pool)
    (hphase : worker.phase = .leaving d ∨ ∃ now, .slept now ∈ deed :: recent ∧
      worker.phase = .waiting (Worker.sleepLimit worker.pool.timing now d)) :
    Rested ⟨worker, deed :: s.deeds⟩ d (deed :: recent) := by
  obtain ⟨earlier, hdeeds⟩ := h.deeds
  refine ⟨⟨earlier, congrArg (deed :: ·) hdeeds⟩, ?_, hphase, ?_⟩
  · exact List.forall_mem_cons.mpr ⟨⟨hpost, hpass⟩, h.quiet⟩
  · show ∀ p ∈ worker.pool.toList, _
    rw [hpool]
    exact h.early

/-- A rested worker that goes to sleep stays rested. -/
theorem Rested.slept {d e : Int} {recent : List WorkDeed} (h : s.Rested e recent)
    (hphase : s.worker.phase = .leaving d) (now : Int) :
    Rested ⟨{ s.worker with phase := .waiting (Worker.sleepLimit s.worker.pool.timing now d) },
      .slept now :: s.deeds⟩ d (.slept now :: recent) := by
  have hsame : e = d := by
    rcases h.phase with hleaving | ⟨_, _, hwaiting⟩
    · rw [hphase] at hleaving
      cases hleaving
      rfl
    · rw [hphase] at hwaiting
      cases hwaiting
  subst hsame
  exact h.cons (.slept now) nofun nofun rfl (Or.inr ⟨now, List.mem_cons_self, rfl⟩)

/-! ## 4. One event -/

/-- A mark makes up for whatever was done to the pool. -/
theorem Sound.withPool (h : s.Sound stopped) {pool : TaskPool κ capacity}
    (hmark : pool.wakePending = true) {deeds : List WorkDeed}
    (htold : .told ∈ deeds → .told ∈ s.deeds) : (s.withPool pool deeds).Sound stopped where
  rested := fun _ hnone => by
    have hsome : (s.withPool pool deeds).worker.pool.wakePending = true := hmark
    rw [hsome] at hnone
    cases hnone
  told := fun hin => h.told (htold hin)
  dismissed := fun _ _ _ => hmark

theorem Sound.takeOut (h : s.Sound stopped) {pool : TaskPool κ capacity}
    (hpool : pool.wakePending = true ∨ pool = s.worker.pool) :
    (s.withPool pool s.deeds).Sound stopped := by
  rcases hpool with hmark | rfl
  · exact h.withPool hmark fun hin => hin
  · exact h

theorem Sound.post (h : s.Sound stopped) (task : PoolTask κ) :
    (s.meet call stopped tell (.post task)).Sound stopped := by
  cases hroom : s.worker.pool.tasks.isFull with
  | true =>
      rw [meet, TaskPool.post_of_isFull hroom]
      exact h
  | false =>
      rw [meet, TaskPool.post_of_room hroom]
      refine h.withPool rfl fun hin => ?_
      split at hin
      · exact told_of_cons (.posted _) nofun hin
      · exact hin

theorem Sound.stop (htell : ∀ world, stopped (tell world) = true) (h : s.Sound stopped) :
    (s.meet call stopped tell .stop).Sound stopped where
  rested := fun hrests hnone => by
    obtain ⟨d, recent, hrested⟩ := h.rested hrests hnone
    refine ⟨d, .told :: recent, hrested.cons .told nofun nofun rfl ?_⟩
    exact hrested.phase.imp_right fun ⟨now, hslept, hphase⟩ =>
      ⟨now, List.mem_cons_of_mem _ hslept, hphase⟩
  told := fun _ => htell _
  dismissed := fun hdismissed => h.dismissed (dismissed_of_cons .told nofun hdismissed)

theorem Sound.work (hkeep : ∀ callback world, stopped world = true →
      stopped (call callback world).1 = true) (h : s.Sound stopped) {now : Int}
    {worker : Worker κ σ capacity} (hwent : s.worker.Went call stopped now worker) :
    Sound stopped ⟨worker, (WorkDeed.of? now worker.phase).toList ++ s.deeds⟩ := by
  -- a pass does not take back that the worker is to stop
  have hpass : .told ∈ s.deeds →
      stopped (s.worker.pool.pass call now s.worker.world).2.1 = true := fun htold =>
    Pass.world_run (stopped · = true) hkeep now _ _ (h.told htold)
  cases hwent with
  | looked hphase hgo => exact ⟨nofun, h.told, fun _ _ hwaits => by cases hwaits⟩
  | stopped hstop => exact ⟨nofun, h.told, fun _ _ hwaits => by cases hwaits⟩
  | failed hphase hresult => exact ⟨nofun, hpass, fun _ _ hwaits => by cases hwaits⟩
  | woke hphase => exact ⟨nofun, h.told, fun _ _ hwaits => by cases hwaits⟩
  | passed hphase hresult =>
      rename_i d
      refine ⟨fun _ _ => ?_, fun hin => ?_, fun _ _ hwaits => by cases hwaits⟩
      · refine ⟨d, [], ⟨s.deeds, rfl⟩, nofun, Or.inl rfl, fun p hp hcallback => ?_⟩
        exact TaskPool.deadline_pass_le hresult hp hcallback
      · exact hpass (told_of_cons (.passed d) nofun hin)
  | slept hphase hgo =>
      rename_i d
      have htold : .told ∈ WorkDeed.slept now :: s.deeds → stopped s.worker.world = true :=
        fun hin => h.told (told_of_cons (.slept now) nofun hin)
      refine ⟨fun _ hnone => ?_, htold, fun hdismissed => ?_⟩
      · obtain ⟨e, recent, hrested⟩ := h.rested (by rw [hphase]; rfl) hnone
        exact ⟨d, .slept now :: recent, hrested.slept hphase now⟩
      · -- it has looked whether to stop
        rw [htold (told_of_dismissed hdismissed)] at hgo
        cases hgo

/-- **One event keeps what the mark stands for.** -/
theorem Sound.meet (htell : ∀ world, stopped (tell world) = true)
    (hkeep : ∀ callback world, stopped world = true → stopped (call callback world).1 = true)
    (h : s.Sound stopped) (event : WorkEvent κ) :
    (s.meet call stopped tell event).Sound stopped := by
  cases event with
  | work now =>
      simp only [WorkHistory.meet]
      split
      · rename_i worker hstep
        exact h.work hkeep (Worker.went_of_step hstep)
      · exact h
  | post task => exact h.post task
  | remove id => exact h.takeOut (s.worker.pool.wakePending_remove id)
  | release handle => exact h.takeOut (handle.wakePending_cancel s.worker.pool)
  | wake => exact h.withPool rfl fun hin => told_of_cons .woken nofun hin
  | stop => exact h.stop htell

/-! ## 5. Whole histories -/

theorem Sound.after (htell : ∀ world, stopped (tell world) = true)
    (hkeep : ∀ callback world, stopped world = true → stopped (call callback world).1 = true)
    (h : s.Sound stopped) (events : List (WorkEvent κ)) :
    (s.after call stopped tell events).Sound stopped := by
  induction events generalizing s with
  | nil => exact h
  | cons event events ih => exact ih (h.meet htell hkeep event)

/-- **No wake-up is lost**, in whatever order the worker and the others take their turns. `tell` is
what tells the worker to stop, and no callback takes it back. -/
theorem no_wake_up_lost (htell : ∀ world, stopped (tell world) = true)
    (hkeep : ∀ callback world, stopped world = true → stopped (call callback world).1 = true)
    (pool : TaskPool κ capacity) (world : σ) (events : List (WorkEvent κ))
    {s : WorkHistory κ σ capacity} (hs : s = (start pool world).after call stopped tell events) :
    (s.worker.phase.rests = true → s.worker.pool.wakePending = false →
      ∃ d recent, s.Rested d recent) ∧
    (Dismissed s.deeds →
      (∀ limit, s.worker.phase = .waiting limit → s.worker.pool.wakePending = true) ∧
      ∀ now, s.worker.step call stopped now = none → ∃ fault, s.worker.phase = .ended fault) := by
  have h : s.Sound stopped := by
    rw [hs]
    exact (sound_start stopped pool world).after htell hkeep events
  refine ⟨h.rested, fun hdismissed => ⟨h.dismissed hdismissed, fun now hstep => ?_⟩⟩
  rcases Worker.blocked_of_step hstep with hended | ⟨limit, hwaits, hnone⟩
  · exact hended
  · rw [h.dismissed hdismissed limit hwaits] at hnone
    cases hnone

/-- A task is posted between a pass and the sleep after it, so that the worker wakes up at once. It
is asleep after its next pass when it is told to stop and woken. -/
theorem no_wake_up_lost_of_lamp :
    let call : Caller Unit Bool := fun _ told => (told, none)
    let s : WorkHistory Unit Bool 2 := (start (.new .standard) false).after call id (fun _ => true)
      [.work 0, .work 1, .post (.periodic "lamp" 10 ()), .work 2, .work 3, .work 4, .work 5,
        .work 6]
    let t := s.after call id (fun _ => true) [.stop, .wake]
    s.deeds = [.slept 6, .passed 15, .slept 2, .posted 1, .passed (1 + 2 * second)] ∧
      (∃ d recent, s.Rested d recent) ∧ t.worker.phase = .waiting 15 ∧
      t.worker.pool.wakePending = true := by
  intro call s t
  have hkeep : ∀ callback told, id told = true → id (call callback told).1 = true :=
    fun _ _ htold => htold
  obtain ⟨hrested, -⟩ := no_wake_up_lost (fun _ => rfl) hkeep (.new .standard) false _
    (show s = _ from rfl)
  obtain ⟨-, hdismissed⟩ := no_wake_up_lost (fun _ => rfl) hkeep (.new .standard) false
    [.work 0, .work 1, .post (.periodic "lamp" 10 ()), .work 2, .work 3, .work 4, .work 5, .work 6,
      .stop, .wake] (show t = _ from rfl)
  have hwaits : t.worker.phase = .waiting 15 := by decide
  refine ⟨by decide, hrested (by decide) (by decide), hwaits, ?_⟩
  exact (hdismissed ⟨[], _, rfl, List.mem_cons_self⟩).1 15 hwaits

end WorkHistory

end Aquarium

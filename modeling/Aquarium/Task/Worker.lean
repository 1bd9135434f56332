import Aquarium.Task.Pool

/-!
# The worker of a pool

A worker drains a pool: it looks whether it is to stop, runs a pass, looks again, and sleeps until
the deadline of the pass, a longest sleep, or a wake-up. It is described step by step, so that
others may change the pool and the world between any two steps.

Main functions: `Worker.step`, one step at a moment, which is nothing while the worker sleeps and
when it has ended; `Worker.run`, the steps on a clock that jumps over every sleep.
-/

namespace Aquarium

/-- Where a worker stands. -/
inductive Phase where
  /-- It is about to look whether to stop, before a pass. -/
  | checking
  /-- It is about to run a pass. -/
  | passing
  /-- It is about to look whether to stop, behind a pass that gave a deadline. -/
  | leaving (deadline : Int)
  /-- It sleeps until a moment unless it is woken. -/
  | waiting (limit : Int)
  /-- It has ended, maybe by a fault. -/
  | ended (fault : Option Fault)
  deriving DecidableEq, Repr

/-- A worker with its pool and the world that the tasks act on. -/
structure Worker (κ σ : Type) (capacity : Nat) where
  pool : TaskPool κ capacity
  world : σ
  phase : Phase

namespace Worker

variable {κ σ : Type} {capacity : Nat}

/-- A worker that is about to begin. -/
def start (pool : TaskPool κ capacity) (world : σ) : Worker κ σ capacity :=
  ⟨pool, world, .checking⟩

/-- How long the worker sleeps if nobody wakes it: until the deadline, but not for longer than the
longest sleep. -/
def sleepLimit (timing : PoolTiming) (now deadline : Int) : Int :=
  now + min (timeSince deadline now) timing.maxWait

/-- One step; `stopped` tells from the world whether the worker is to stop. -/
def step (call : Caller κ σ) (stopped : σ → Bool) (now : Int) (w : Worker κ σ capacity) :
    Option (Worker κ σ capacity) :=
  match w.phase with
  | .checking => some { w with phase := if stopped w.world then .ended none else .passing }
  | .passing =>
    match w.pool.pass call now w.world with
    | (pool, world, .ok deadline) => some ⟨pool, world, .leaving deadline⟩
    | (pool, world, .error fault) => some ⟨pool, world, .ended (some fault)⟩
  | .leaving deadline =>
    some { w with
      phase :=
        if stopped w.world then .ended none
        else .waiting (sleepLimit w.pool.timing now deadline) }
  | .waiting limit =>
    if w.pool.wakePending ∨ limit ≤ now then
      some { w with pool := { w.pool with wakePending := false }, phase := .checking }
    else none
  | .ended _ => none

/-- The time that a step takes on the clock of `run`. -/
def stepTime : Nat := microsecond

/-- The worker alone, for a number of steps; a sleep takes one of them. -/
def run (call : Caller κ σ) (stopped : σ → Bool) :
    Nat → Int → Worker κ σ capacity → Worker κ σ capacity
  | 0, _, w => w
  | steps + 1, now, w =>
    match w.step call stopped now with
    | some w => run call stopped steps (now + stepTime) w
    | none =>
      match w.phase with
      | .waiting limit => run call stopped steps (max now limit) w
      | _ => w

end Worker

end Aquarium

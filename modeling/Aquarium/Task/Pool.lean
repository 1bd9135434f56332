import Aquarium.Fault
import Aquarium.Slots
import Aquarium.Time.Duration

/-!
# The task pool

A pool holds up to `capacity` tasks and runs them in passes. A task is due once its interval has
gone by since it last ran, and at once if it never ran. A pass visits the tasks in the order of
their slots, calls those that are due, takes out the ones that run only once, and gives the moment
at which the pool next needs attention.

What a callback does is not known here: a pass is handed a caller, which takes a callback and the
state of the world to the next state and, if the callback does not return, to a fault. A fault ends
the pass where it stands: what was done stays done, and the task that failed is left as it was.

Posting and removing note that the worker has to be woken (`wakePending`).

Main statements: a pass keeps the number of slots, and each operation's effect on the tasks.
-/

namespace Aquarium

/-- What to run and when. A task without a callback is never due. -/
structure PoolTask (κ : Type) where
  name : String
  /-- It is taken out once it has run. -/
  singleShot : Bool
  callback : Option κ
  interval : Nat
  /-- The moment of the pass that ran it last. -/
  last : Option Int
  deriving DecidableEq, Repr

namespace PoolTask

variable {κ : Type}

/-- A task that runs on the next pass and then in intervals. -/
def periodic (name : String) (interval : Nat) (callback : κ) : PoolTask κ :=
  ⟨name, false, some callback, interval, none⟩

/-- A task that runs once, on the next pass. -/
def once (name : String) (callback : κ) : PoolTask κ := ⟨name, true, some callback, 0, none⟩

/-- A task that runs once, some time from now. -/
def delayed (name : String) (delay : Nat) (now : Int) (callback : κ) : PoolTask κ :=
  ⟨name, true, some callback, delay, some now⟩

/-- A task that never runs. -/
def idle (name : String) (interval : Nat) : PoolTask κ := ⟨name, false, none, interval, none⟩

/-- The moment from which the task is due; a task that never ran is due now. -/
def dueAt (t : PoolTask κ) (now : Int) : Int :=
  match t.last with
  | none => now
  | some last => last + t.interval

/-- A pass at this moment calls the task. -/
def isDue (t : PoolTask κ) (now : Int) : Bool := t.callback.isSome && t.dueAt now ≤ now

end PoolTask

/-- A task in a pool, under its number. -/
structure Posted (κ : Type) where
  id : Nat
  task : PoolTask κ
  deriving DecidableEq, Repr

/-- How long the worker of a pool sleeps. -/
structure PoolTiming where
  /-- The sleep when nothing is due sooner. -/
  idleWait : Nat
  /-- The longest sleep at a stretch. -/
  maxWait : Nat
  deriving DecidableEq, Repr

/-- Two seconds when idle, and five at most. -/
def PoolTiming.standard : PoolTiming := ⟨2 * second, 5 * second⟩

/-- The right to take a task out again. A handle that is not attached gives no such right; the
number zero stands for no task. -/
structure TaskHandle where
  id : Nat
  attached : Bool
  deriving DecidableEq, Repr

/-- Up to `capacity` tasks. -/
structure TaskPool (κ : Type) (capacity : Nat) where
  tasks : Slots (Posted κ) capacity
  /-- The number that was given last. -/
  lastId : Nat
  /-- The worker is to look at the table before it sleeps again. -/
  wakePending : Bool
  timing : PoolTiming
  deriving DecidableEq

/-- How a callback changes the world, and the fault with which it fails. -/
abbrev Caller (κ σ : Type) := κ → σ → σ × Option Fault

/-- What a pass leaves: the cells of the table, the world, and the moment at which the pool next
needs attention or the fault that ended the pass. -/
structure Pass (κ σ : Type) where
  cells : List (Option (Posted κ))
  world : σ
  deadline : Except Fault Int

namespace Posted

variable {κ σ : Type}

/-- Calls a task if it is due. What is left of it is nothing for a task that runs only once. -/
def visit (call : Caller κ σ) (now : Int) (p : Posted κ) (world : σ) :
    σ × Except Fault (Option (Posted κ)) :=
  match p.task.callback with
  | none => (world, .ok (some p))
  | some callback =>
    if p.task.dueAt now ≤ now then
      match call callback world with
      | (world, some fault) => (world, .error fault)
      | (world, none) =>
        (world,
          .ok (if p.task.singleShot then none else some ⟨p.id, { p.task with last := some now }⟩))
    else (world, .ok (some p))

/-- The moment at which a task has to be looked at again, or an earlier one that is known. -/
def deadline (now : Int) (p : Option (Posted κ)) (known : Int) : Int :=
  match p with
  | some p => if p.task.callback.isSome then min known (p.task.dueAt now) else known
  | none => known

end Posted

namespace Pass

variable {κ σ : Type}

/-- Goes through the cells of a table. `known` is the deadline from what came before. -/
def run (call : Caller κ σ) (now known : Int) : List (Option (Posted κ)) → σ → Pass κ σ
  | [], world => ⟨[], world, .ok known⟩
  | none :: cells, world =>
    let rest := run call now known cells world
    { rest with cells := none :: rest.cells }
  | some p :: cells, world =>
    match p.visit call now world with
    | (world, .error fault) => ⟨some p :: cells, world, .error fault⟩
    | (world, .ok left) =>
      let rest := run call now (Posted.deadline now left known) cells world
      { rest with cells := left :: rest.cells }

theorem length_cells_run (call : Caller κ σ) (now known : Int) (cells : List (Option (Posted κ)))
    (world : σ) : (run call now known cells world).cells.length = cells.length := by
  induction cells generalizing known world with
  | nil => rfl
  | cons c cells ih =>
    cases c with
    | none => simp [run, ih]
    | some p =>
      simp only [run]
      split <;> simp [ih]

end Pass

namespace TaskHandle

/-- The handle of no task. -/
def invalid : TaskHandle := ⟨0, false⟩

/-- The handle was given for a task. -/
def isValid (h : TaskHandle) : Bool := h.id != 0

/-- The text of a handle. -/
def text (h : TaskHandle) : String := "#" ++ toString h.id

/-- The full text of a handle. -/
def describe (h : TaskHandle) : String :=
  "TaskHandle \x7b id: TaskId(" ++ toString h.id ++ "), attached: "
    ++ (if h.attached then "true" else "false") ++ " \x7d"

end TaskHandle

namespace TaskPool

variable {κ σ : Type} {capacity : Nat}

/-- No tasks. -/
def new (timing : PoolTiming) : TaskPool κ capacity := ⟨Slots.empty, 0, false, timing⟩

/-- The number of tasks. -/
def size (pool : TaskPool κ capacity) : Nat := pool.tasks.count

/-- No tasks are held. -/
def isEmpty (pool : TaskPool κ capacity) : Bool := pool.tasks.isEmpty

/-- The tasks in the order of their slots. -/
def toList (pool : TaskPool κ capacity) : List (Posted κ) := pool.tasks.values

/-- A task of this number is held. -/
def contains (pool : TaskPool κ capacity) (id : Nat) : Bool := pool.toList.any (·.id == id)

/-- The number that follows; zero is left out when the word overflows. -/
def nextId (lastId : Nat) : Nat :=
  let id := (lastId + 1) % word64
  if id = 0 then 1 else id

/-- Notes that the worker has to be woken. -/
def wake (pool : TaskPool κ capacity) : TaskPool κ capacity := { pool with wakePending := true }

/-- Puts a task into the first empty slot. In a full pool nothing happens and the handle is
invalid. -/
def post (pool : TaskPool κ capacity) (task : PoolTask κ) : TaskHandle × TaskPool κ capacity :=
  if pool.tasks.isFull then (.invalid, pool)
  else
    let id := nextId pool.lastId
    (⟨id, true⟩, wake { pool with tasks := (pool.tasks.append ⟨id, task⟩).2, lastId := id })

/-- Takes out the task of a number, and says whether there was one. -/
def remove (pool : TaskPool κ capacity) (id : Nat) : Bool × TaskPool κ capacity :=
  match pool.tasks.removeIf (·.id == id) with
  | (false, _) => (false, pool)
  | (true, tasks) => (true, wake { pool with tasks := tasks })

/-- Runs every task that is due. -/
def pass (call : Caller κ σ) (now : Int) (pool : TaskPool κ capacity) (world : σ) :
    TaskPool κ capacity × σ × Except Fault Int :=
  let done := Pass.run call now (now + pool.timing.idleWait) pool.tasks.cells world
  ({ pool with
      tasks := ⟨done.cells, (Pass.length_cells_run _ _ _ _ _).trans pool.tasks.length_cells⟩ },
    done.world, done.deadline)

/-- The text of a pool. -/
def describe (pool : TaskPool κ capacity) : String :=
  "TaskPool \x7b capacity: " ++ toString capacity ++ ", len: " ++ toString pool.size
    ++ ", timing: TaskPoolTiming \x7b idle_wait: " ++ durationText pool.timing.idleWait
    ++ ", max_wait: " ++ durationText pool.timing.maxWait ++ " \x7d \x7d"

@[simp] theorem tasks_wake (pool : TaskPool κ capacity) : pool.wake.tasks = pool.tasks := rfl

theorem nextId_pos (n : Nat) : 0 < nextId n := by
  simp only [nextId]
  split <;> omega

theorem post_of_isFull {pool : TaskPool κ capacity} (h : pool.tasks.isFull = true)
    (task : PoolTask κ) : pool.post task = (.invalid, pool) := by simp [post, h]

theorem remove_of_not_contains {pool : TaskPool κ capacity} {id : Nat}
    (h : pool.contains id = false) : pool.remove id = (false, pool) := by
  have h' : (pool.tasks.removeIf (·.id == id)).1 = false := h
  unfold remove
  split
  · rfl
  · rename_i e
    rw [e] at h'
    cases h'

end TaskPool

/-! ## Handles

A handle outlives its pool; a pool that is gone is `none`. -/

namespace TaskHandle

variable {κ : Type} {capacity : Nat}

/-- The task of the handle is still held. -/
def isActive (h : TaskHandle) (pool : Option (TaskPool κ capacity)) : Bool :=
  h.attached && pool.any (·.contains h.id)

/-- Takes the task out, which is also what happens when the handle is dropped, and says whether it
was still held. -/
def cancel (h : TaskHandle) :
    Option (TaskPool κ capacity) → Bool × Option (TaskPool κ capacity)
  | none => (false, none)
  | some pool =>
    if h.attached then
      let (removed, pool) := pool.remove h.id
      (removed, some pool)
    else (false, some pool)

/-- Gives up the right to take the task out. -/
def detach (h : TaskHandle) : TaskHandle := { h with attached := false }

end TaskHandle

end Aquarium

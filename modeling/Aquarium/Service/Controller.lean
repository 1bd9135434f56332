import Aquarium.Device.Basic
import Aquarium.Store
import Aquarium.Task.Pool
import Aquarium.Time.Zone

/-!
# The controller

A controller owns the devices, the task pool that updates them, the time zone and the store. It
starts from what the store holds; whatever cannot be read is taken to be missing.

The first device is the one that schedule requests are about. That is the lights, unless a
controller is started without them.
-/

namespace Aquarium

/-- The tasks that the pool of a controller holds. -/
def taskCapacity : Nat := 16

/-- The devices. -/
abbrev Devices := List (Device Pwm)

/-- The moment of a request: seconds since the start of 1970, and nanoseconds on the clock of the
drivers. -/
structure Moment where
  epoch : Int
  time : Int
  deriving DecidableEq, Repr

/-- The state of a controller. A task's callback is the index of the device it updates. -/
structure Controller where
  devices : Devices
  pool : TaskPool Nat taskCapacity
  zone : Zone
  /-- The moment of the start. -/
  started : Int
  store : Store

/-- How long the pool waits, in nanoseconds. -/
def PoolSettings.timing (s : PoolSettings) : PoolTiming :=
  ⟨s.idleWait * millisecond, s.maxWait * millisecond⟩

namespace Store

/-- The runtime settings to start with. -/
def startSettings (s : Store) : Settings :=
  let found := match s.loadSettings with
    | .ok settings => settings
    | .error _ => .standard
  found.sanitized outputChannels

/-- The schedule to start with; an invalid one counts as empty. -/
def startSchedule (s : Store) : LightSchedule :=
  let entries := match s.loadSchedule with
    | .ok entries => entries
    | .error _ => []
  match WeekSchedule.ofEntries entries with
  | .ok schedule => schedule
  | .error _ => .empty

end Store

namespace Controller

/-! ## Starting -/

/-- The lights as the store has them. -/
def startLights (store : Store) (settings : Settings) : ScheduledOutputs Pwm :=
  let lights := ScheduledOutputs.new store.startSchedule settings.lights.transition Pwm.idle
    settings.lights.channelNames
  match store.loadChannelState with
  | .ok state => lights.restore state.times
  | .error _ => lights

/-- The temperature probe, if it is enabled: a wave of an hour round 25 degrees, of which every 97th
reading is a spike. -/
def startProbe (settings : SensorSettings) (now : Int) : Option (Device Pwm) :=
  if settings.enabled then
    let wave := (Waveform.new (Single.ofInt 25) (Single.ofDouble (Double.ofInt 4 / Double.ofInt 10))
      (3600 * second) now).withSpikes 97 (Single.ofInt 15)
    some (.temperature (.new (.wave wave) settings.filter))
  else none

/-- The load cell, if it is enabled: a wave of ten minutes round 84000 counts. -/
def startCell (settings : SensorSettings) (now : Int) : Option (Device Pwm) :=
  if settings.enabled then
    let wave := Waveform.new (Single.ofInt 84000) (Single.ofInt 40) (600 * second) now
    some (.scale (.new (.wave wave) settings.filter) ⟨8000, Single.ofInt 38⟩)
  else none

/-- A controller, with or without lights. -/
def start (store : Store) (withLights : Bool) (now : Int) : Controller :=
  let settings := store.startSettings
  let lights := if withLights then [Device.lights (startLights store settings)] else []
  { devices :=
      lights ++ (startProbe settings.temperature now).toList
        ++ (startCell settings.scale now).toList
    pool := .new settings.pool.timing
    zone := (Zone.find? settings.timezone).getD .utc
    started := now
    store := store }

/-! ## The outputs -/

/-- The outputs that schedule requests are about. -/
def outputs? (c : Controller) : Option (ScheduledOutputs Pwm) :=
  c.devices.head?.bind Device.outputs?

/-- Replaces the outputs; nothing happens to a controller without any. -/
def setOutputs (c : Controller) (outputs : ScheduledOutputs Pwm) : Controller :=
  match c.devices with
  | .lights _ :: rest => { c with devices := .lights outputs :: rest }
  | _ => c

theorem outputs?_setOutputs {c : Controller} {o : ScheduledOutputs Pwm} (h : c.outputs? = some o)
    (new : ScheduledOutputs Pwm) : (c.setOutputs new).outputs? = some new := by
  unfold outputs? at h
  cases e : c.devices with
  | nil => simp [e] at h
  | cons d rest =>
    cases d with
    | lights _ => simp [setOutputs, outputs?, e, Device.outputs?]
    | temperature _ => simp [e, Device.outputs?] at h
    | scale _ _ => simp [e, Device.outputs?] at h

@[simp] theorem store_setOutputs (c : Controller) (o : ScheduledOutputs Pwm) :
    (c.setOutputs o).store = c.store := by
  unfold setOutputs
  split <;> rfl

/-! ## Updates -/

/-- Updates the device of an index. -/
def updateDevice (tick : Tick) (index : Nat) (devices : Devices) :
    Devices × Option UpdateFailure :=
  match devices[index]? with
  | some device =>
    let (device, failure) := device.update tick
    (devices.set index device, failure)
  | none => (devices, none)

/-- Updates the first device. -/
def tick (tick : Tick) (c : Controller) : Controller × Option UpdateFailure :=
  let (devices, failure) := updateDevice tick 0 c.devices
  ({ c with devices := devices }, failure)

/-- A task updates its device. A failure that the driver reports is passed over, and a fault ends
the pass. -/
def callback (tick : Tick) : Caller Nat Devices := fun index devices =>
  match updateDevice tick index devices with
  | (devices, some (.abandoned fault)) => (devices, some fault)
  | (devices, _) => (devices, none)

/-- The tick of a moment. -/
def tickAt (c : Controller) (now : Moment) : Tick := ⟨now.time, c.zone.weekTime? now.epoch⟩

/-- Runs every task that is due. -/
def runTasks (c : Controller) (now : Moment) : Controller × Except Fault Int :=
  let (pool, devices, deadline) := c.pool.pass (callback (c.tickAt now)) now.time c.devices
  ({ c with pool := pool, devices := devices }, deadline)

/-- A device for which the pool had no slot. -/
structure PoolFull where
  device : String
  deriving DecidableEq, Repr

/-- The text of that error. -/
def PoolFull.message (e : PoolFull) : String :=
  "task pool is full, cannot schedule " ++ e.device

/-- Posts the task that updates a device in intervals, given in nanoseconds. -/
def postTask (c : Controller) (interval index : Nat) (device : Device Pwm) :
    Except PoolFull TaskHandle × Controller :=
  let (handle, pool) := c.pool.post (.periodic ("update " ++ device.name) interval index)
  (if handle.isValid then .ok handle else .error ⟨device.name⟩, { c with pool := pool })

/-- Posts tasks for devices from an index on. -/
def postTasksFrom (interval : Nat) :
    Nat → Devices → Controller → List (Except PoolFull TaskHandle) × Controller
  | _, [], c => ([], c)
  | index, device :: devices, c =>
    let (posted, c) := c.postTask interval index device
    let (others, c) := postTasksFrom interval (index + 1) devices c
    (posted :: others, c)

/-- Posts one task for every device. -/
def postTasks (c : Controller) (interval : Nat) :
    List (Except PoolFull TaskHandle) × Controller :=
  postTasksFrom interval 0 c.devices c

/-- Drops a handle, and thereby takes its task out. -/
def dropHandle (c : Controller) (h : TaskHandle) : Controller :=
  match h.cancel (some c.pool) with
  | (_, some pool) => { c with pool := pool }
  | (_, none) => c

/-! ## Saving the channel times -/

/-- Saves the channel times if they have changed, or in any case if forced. A save that fails is
passed over. -/
def persistChannelState (force : Bool) (c : Controller) : Controller :=
  match c.outputs? with
  | none => c
  | some outputs =>
    let (changed, outputs) := outputs.takeDirty
    let c := c.setOutputs outputs
    match changed.or (if force then some outputs.channelTimes else none) with
    | none => c
    | some times =>
      match c.store.saveChannelState ⟨times⟩ with
      | .ok store => { c with store := store }
      | .error _ => c

end Controller

end Aquarium

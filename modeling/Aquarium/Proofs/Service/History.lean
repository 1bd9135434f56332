import Aquarium.Proofs.Service.Stages
import Aquarium.Proofs.Task.Pass

/-!
# What happens to a controller

A controller does not only answer requests. Its outputs are updated, its pool runs what is due,
tasks are posted and taken out, the channel times are saved, and others write to the data directory.
All this is one kind of event here, and a controller is reachable if it has met any events since a
start with lights on any store. Starting again is such a start.

* `outputs?_updateDevice`: an update concerns the outputs only if it is that of the first device;
* `Reachable.sound`: whatever has happened, there are lights, and edits can build their schedule.
-/

namespace Aquarium

/-! ## 1. Updates leave the schedule as it is -/

namespace ScheduledOutputs

variable {σ : Type} [OutputSink σ] {o o' : ScheduledOutputs σ}

theorem schedule_offer {now : WeekTime} {channel : Nat} {value : Float32}
    (h : o.offer now channel value = .ok o') : o'.schedule = o.schedule := by
  unfold offer at h
  split at h
  · cases h
    rfl
  · obtain ⟨stamped, -, h⟩ := bind_eq_ok h
    cases h
    rfl

theorem schedule_offerAll {now : WeekTime} {channel : Nat} {values : List (Option Float32)}
    (h : offerAll now channel values o = .ok o') : o'.schedule = o.schedule := by
  induction values generalizing channel o with
  | nil =>
      cases h
      rfl
  | cons value values ih =>
      cases value with
      | none => exact ih h
      | some value =>
          obtain ⟨o₁, hoffer, h⟩ := bind_eq_ok h
          exact (ih h).trans (schedule_offer hoffer)

theorem schedule_update {t : Tick} (h : o.update t = .ok o') : o'.schedule = o.schedule := by
  unfold update at h
  split at h
  · cases h
  · split at h
    · rename_i hall
      cases h
      obtain ⟨values, -, hall⟩ := bind_eq_ok hall
      exact schedule_offerAll hall
    · cases h

/-- The outputs after an update that may fail. -/
def updated (t : Tick) (o : ScheduledOutputs σ) : ScheduledOutputs σ :=
  match o.update t with
  | .ok o => o
  | .error _ => o

@[simp] theorem schedule_updated (t : Tick) (o : ScheduledOutputs σ) :
    (o.updated t).schedule = o.schedule := by
  unfold updated
  split
  · rename_i hupdate
    exact schedule_update hupdate
  · rfl

end ScheduledOutputs

theorem Device.outputs?_update {σ : Type} [OutputSink σ] (t : Tick) (d : Device σ) :
    (d.update t).1.outputs? = d.outputs?.map (·.updated t) := by
  cases d with
  | temperature probe => rfl
  | scale cell calibration => rfl
  | lights o =>
      simp only [update, Device.outputs?, Option.map_some, ScheduledOutputs.updated]
      cases o.update t <;> rfl

namespace Controller

/-! ## 2. Events -/

/-- The outputs among devices. -/
def firstOutputs? (devices : Devices) : Option (ScheduledOutputs Pwm) :=
  devices.head?.bind Device.outputs?

/-- An update concerns the outputs only if it is that of the first device. -/
theorem outputs?_updateDevice (t : Tick) (index : Nat) (devices : Devices) :
    firstOutputs? (updateDevice t index devices).1 =
      if index = 0 then (firstOutputs? devices).map (·.updated t) else firstOutputs? devices := by
  cases devices with
  | nil => cases index <;> rfl
  | cons d rest =>
      cases index with
      | zero => exact Device.outputs?_update t d
      | succ index =>
          rw [if_neg (Nat.succ_ne_zero index)]
          unfold updateDevice
          split <;> rfl

/-- What happens to a controller. -/
inductive Event where
  /-- It answers a request. -/
  | request (now : Moment) (r : Request)
  /-- Its first device is updated. -/
  | tick (t : Tick)
  /-- Its pool runs what is due. -/
  | pass (now : Moment)
  /-- Its devices are given tasks. -/
  | post (interval : Nat)
  /-- A task is taken out. -/
  | drop (h : TaskHandle)
  /-- The channel times are saved if they have changed, or in any case. -/
  | persist (force : Bool)
  /-- The data directory is given some other content. -/
  | files (store : Store)

/-- The controller after an event. -/
def meet : Event → Controller → Controller
  | .request now r, c => (c.answer now r).2
  | .tick t, c => (c.tick t).1
  | .pass now, c => (c.runTasks now).1
  | .post interval, c => (c.postTasks interval).2
  | .drop h, c => c.dropHandle h
  | .persist force, c => c.persistChannelState force
  | .files store, c => { c with store := store }

variable {c : Controller}

theorem outputs?_tick (t : Tick) (c : Controller) :
    (c.tick t).1.outputs? = c.outputs?.map (·.updated t) :=
  outputs?_updateDevice t 0 c.devices

/-- Taking the outputs' times for a saving clears their mark, and all else about them stays. -/
theorem outputs?_persistChannelState (force : Bool) (c : Controller) :
    (c.persistChannelState force).outputs? = c.outputs?.map fun o => { o with dirty := false } := by
  unfold persistChannelState
  cases h : c.outputs? with
  | none => exact h
  | some o =>
      have hafter := outputs?_setOutputs h { o with dirty := false }
      simp only [ScheduledOutputs.takeDirty]
      split
      · exact hafter
      · split <;> exact hafter

theorem devices_postTasksFrom (interval index : Nat) (devices : Devices) (c : Controller) :
    (postTasksFrom interval index devices c).2.devices = c.devices := by
  induction devices generalizing index c with
  | nil => rfl
  | cons d devices ih => exact ih (index + 1) (c.postTask interval index d).2

theorem devices_dropHandle (h : TaskHandle) (c : Controller) :
    (c.dropHandle h).devices = c.devices := by
  unfold dropHandle
  split <;> rfl

/-- Outputs whose schedule edits can build are what a pass keeps. -/
theorem Sound.runTasks (h : c.Sound) (now : Moment) : (c.runTasks now).1.Sound := by
  refine Pass.world_run
    (fun devices => ∃ o, firstOutputs? devices = some o ∧ o.schedule.Reachable) ?_ _ _ _ h
  rintro index devices ⟨o, ho, hreachable⟩
  have hdevices : (callback (c.tickAt now) index devices).1 =
      (updateDevice (c.tickAt now) index devices).1 := by
    unfold callback
    split <;> simp only [*]
  rw [hdevices, outputs?_updateDevice, ho]
  split
  · exact ⟨o.updated (c.tickAt now), rfl, by rwa [ScheduledOutputs.schedule_updated]⟩
  · exact ⟨o, rfl, hreachable⟩

/-- One event keeps a controller sound. -/
theorem Sound.meet (h : c.Sound) (event : Event) : (c.meet event).Sound := by
  cases event with
  | request now r => exact h.answer now r
  | tick t =>
      obtain ⟨o, ho, hreachable⟩ := h
      exact ⟨o.updated t, by rw [Controller.meet, outputs?_tick, ho]; rfl,
        by rwa [ScheduledOutputs.schedule_updated]⟩
  | pass now => exact h.runTasks now
  | post interval =>
      exact h.of_outputs? (congrArg firstOutputs? (devices_postTasksFrom interval 0 c.devices c))
  | drop handle => exact h.of_outputs? (congrArg firstOutputs? (devices_dropHandle handle c))
  | persist force =>
      obtain ⟨o, ho, hreachable⟩ := h
      exact ⟨{ o with dirty := false },
        by rw [Controller.meet, outputs?_persistChannelState, ho]; rfl, hreachable⟩
  | files store => exact h.of_outputs? rfl

/-- A controller that was started with lights, on any store, and has met any events since. -/
inductive Reachable : Controller → Prop where
  | start (store : Store) (now : Int) : Reachable (Controller.start store true now)
  | meet {c : Controller} (event : Event) (h : Reachable c) : Reachable (c.meet event)

/-- **Whatever has happened, there are lights, and edits can build their schedule.** -/
theorem Reachable.sound (h : c.Reachable) : c.Sound := by
  induction h with
  | start store now => exact sound_start store now
  | meet event _ ih => exact ih.meet event

end Controller

end Aquarium

import Aquarium.Proofs.Device.Recurrence
import Aquarium.Proofs.Service.ChannelTimes

/-!
# Channel times through a restart

Saved times are taken over through a filter that drops what lies outside of the week. This file says
that nothing is dropped of what outputs have saved themselves, whatever they have gone through.

* `Reachable`: outputs on any sink, with any past;
* `Reachable.withinWeek`: every time of theirs is a second of a week;
* `WithinWeek.channelTimes_restore`: so other outputs take over all of them;
* `Reachable.channelTimes_resumed`: the times go through the file and come back as they were.
-/

namespace Aquarium

namespace ScheduledOutputs

/-! ## 1. Outputs with any past -/

section Past

variable {σ : Type} [OutputSink σ]

/-- Outputs with any past. They were new once, on any sink; since then they were updated, at times
of the week that are valid or without a clock, were given other modes and schedules, took over saved
times, whatever these were, and had their mark taken away. What an edit refuses it leaves as it is. -/
inductive Reachable : ScheduledOutputs σ → Prop where
  | new (schedule : LightSchedule) (mode : TransitionMode) (sink : σ) (names : List String) :
      Reachable (.new schedule mode sink names)
  | update {o : ScheduledOutputs σ} (t : Tick) (hv : ∀ now, t.localTime = some now → now.Valid)
      (h : Reachable o) : Reachable (o.updated t)
  | setMode {o : ScheduledOutputs σ} (mode : TransitionMode) (h : Reachable o) :
      Reachable (o.setMode mode)
  | replaceSchedule {o : ScheduledOutputs σ} (schedule : LightSchedule) (h : Reachable o) :
      Reachable (o.replaceSchedule schedule)
  | insert {o o' : ScheduledOutputs σ} {day : Day} {time : Nat}
      {channels : Channels Float32 outputChannels} (hinsert : o.insert day time channels = .ok o')
      (h : Reachable o) : Reachable o'
  | remove {o o' : ScheduledOutputs σ} {day : Day} {time : Nat}
      (hremove : o.remove day time = .ok o') (h : Reachable o) : Reachable o'
  | restore {o : ScheduledOutputs σ} (times : List (Option Nat)) (h : Reachable o) :
      Reachable (o.restore times)
  | takeDirty {o : ScheduledOutputs σ} (h : Reachable o) : Reachable o.takeDirty.2

/-- **Every time of such outputs is a second of a week.** -/
theorem Reachable.withinWeek {o : ScheduledOutputs σ} (h : o.Reachable) : o.WithinWeek := by
  induction h with
  | new schedule mode sink names =>
      intro channel second hsecond
      rw [show (ScheduledOutputs.new schedule mode sink names).tracker.times = Slots.empty from rfl,
        Slots.get?_empty] at hsecond
      cases hsecond
  | @update o t hv _ ih =>
      obtain ⟨time, localTime⟩ := t
      cases localTime with
      | none => exact ih
      | some now => exact ih.updated (hv now rfl) time
  | setMode mode _ ih => exact ih
  | replaceSchedule schedule _ ih => exact ih
  | insert hinsert _ ih =>
      obtain ⟨schedule, -, rfl⟩ := map_eq_ok hinsert
      exact ih
  | remove hremove _ ih =>
      obtain ⟨schedule, -, rfl⟩ := map_eq_ok hremove
      exact ih
  | restore times _ _ => exact withinWeek_restore _ times
  | takeDirty _ ih => exact ih

end Past

/-! ## 2. Taking over times -/

section TakingOver

variable {σ τ : Type} {o : ScheduledOutputs σ}

/-- **Times within a week are all taken over.** -/
theorem WithinWeek.channelTimes_restore (h : o.WithinWeek) (other : ScheduledOutputs τ) :
    (other.restore o.channelTimes).channelTimes = o.channelTimes := by
  have htimes : (other.restore o.channelTimes).tracker.times = o.tracker.times := by
    refine Slots.ext_get? fun channel => ?_
    rw [get?_times_restore]
    by_cases hc : channel < outputChannels
    · rw [if_pos hc]
      show (o.tracker.times.get? channel).filter _ = _
      cases hsecond : o.tracker.times.get? channel with
      | none => rfl
      | some second => rw [Option.filter_some, if_pos (decide_eq_true (h channel second hsecond))]
    · rw [if_neg hc, Slots.get?_eq_none_of_le _ (Nat.not_lt.mp hc)]
  exact congrArg Slots.cells htimes

end TakingOver

/-! ## 3. The restart -/

/-- The outputs that a controller starts with have the times of the file. -/
theorem channelTimes_startLights {store : Store} {state : ChannelState}
    (hload : store.loadChannelState = .ok state) (settings : Settings) :
    ∃ fresh : ScheduledOutputs Pwm,
      Controller.startLights store settings = fresh.restore state.times := by
  unfold Controller.startLights
  rw [hload]
  exact ⟨_, rfl⟩

/-- **Channel times survive a restart.** Of outputs on any sink, with any past, every time is below
the length of a week. A controller whose lights they are, on a data directory where the file of the
times can be saved and read, leaves in that file just these four times when it is made to save.
Whoever takes them over has the same times, and so has a controller that starts on that data
directory. -/
theorem Reachable.channelTimes_resumed {σ : Type} [OutputSink σ] {o : ScheduledOutputs σ}
    (ho : o.Reachable) :
    (∀ second, some second ∈ o.channelTimes → second < secondsPerWeek) ∧
      ∀ (c : Controller) (pins : Pwm), c.outputs? = some (o.withSink pins) →
        c.store.Takes .channelState →
        ∃ state, (c.persistChannelState true).store.loadChannelState = .ok state ∧
          (∀ (τ : Type) (other : ScheduledOutputs τ),
            (other.restore state.times).channelTimes = o.channelTimes) ∧
          ∀ now, ∃ resumed,
            (Controller.start (c.persistChannelState true).store true now).outputs? =
                some resumed ∧
              resumed.channelTimes = o.channelTimes := by
  have hwithin := ho.withinWeek
  refine ⟨fun second hmem => ?_, fun c pins hc htakes => ?_⟩
  · obtain ⟨channel, hchannel⟩ := List.mem_iff_getElem?.mp hmem
    exact hwithin channel second (Option.join_eq_some_iff.mpr hchannel)
  · have hload : (c.persistChannelState true).store.loadChannelState = .ok ⟨o.channelTimes⟩ :=
      Controller.loads_persist_of_takes hc (.inr rfl) htakes hwithin
    refine ⟨⟨o.channelTimes⟩, hload, fun τ other => hwithin.channelTimes_restore other,
      fun now => ⟨_, rfl, ?_⟩⟩
    obtain ⟨fresh, hfresh⟩ := channelTimes_startLights hload
      (Store.startSettings (c.persistChannelState true).store)
    rw [hfresh]
    exact hwithin.channelTimes_restore fresh

/-- Outputs on a recorder that took over times from elsewhere, one of them past the week and one of a
fifth channel, and were then updated on Monday at eight. -/
def mondayLights : ScheduledOutputs (Recorder Pwm) :=
  ((weekly (Single.ofInt 10)).restore
    [some 604800, some 7, none, some 604799, some 3]).updated ⟨0, some ⟨.monday, 28800⟩⟩

/-- Their times are those of a controller that starts after theirs has saved. -/
theorem channelTimes_resumed_mondayLights :
    mondayLights.Reachable ∧
      ∃ (c : Controller) (resumed : ScheduledOutputs Pwm),
        c.outputs? = some (mondayLights.withSink Pwm.idle) ∧ c.store.Takes .channelState ∧
        (Controller.start (c.persistChannelState true).store true 0).outputs? = some resumed ∧
        resumed.channelTimes = [some 115200, some 7, none, some 604799] := by
  have hreachable : mondayLights.Reachable := by
    refine .update _ (fun now hnow => ?_) (.restore _ (.new _ _ _ _))
    cases hnow
    decide
  have houtputs : ((Controller.start .empty true 0).setOutputs
      (mondayLights.withSink Pwm.idle)).outputs? = some (mondayLights.withSink Pwm.idle) := rfl
  have htakes : ((Controller.start .empty true 0).setOutputs
      (mondayLights.withSink Pwm.idle)).store.Takes .channelState := ⟨⟨rfl, rfl, nofun⟩, rfl⟩
  have htimes : mondayLights.channelTimes = [some 115200, some 7, none, some 604799] := rfl
  obtain ⟨-, -, -, hstart⟩ := hreachable.channelTimes_resumed.2 _ _ houtputs htakes
  obtain ⟨resumed, hresumed, hsame⟩ := hstart 0
  exact ⟨hreachable, _, resumed, houtputs, htakes, hresumed, hsame.trans htimes⟩

end ScheduledOutputs

end Aquarium

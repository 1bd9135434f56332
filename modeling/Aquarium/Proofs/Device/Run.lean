import Aquarium.Proofs.Device.Update

/-!
# Runs of scheduled outputs

Outputs are updated at one moment after another. The moments are seconds counted from the midnight
that began some week; the outputs only ever see them wrapped round the week.

* `Run`: the outputs after some updates, with a record of what was offered at each;
* `Run.times_eq`: the time of a channel is the moment at which it last took a value, wrapped;
* `Run.offered_iff`, `Run.taken`: what a channel is offered, and that it is taken if the sink takes
  everything;
* `exists_tick`, `exists_run`: no tick fails, so there is a run through any moments.
-/

namespace Aquarium

namespace ScheduledOutputs

variable {σ : Type}

/-- What was offered at a tick. -/
structure TickRecord where
  moment : Nat
  offers : List Offer
  deriving DecidableEq

/-- The latest moment at which a channel took a value; the latest tick comes first. -/
def lastTaken (channel : Nat) : List TickRecord → Option Nat
  | [] => none
  | r :: history =>
    if ∃ f ∈ r.offers, f.channel = channel ∧ f.taken then some r.moment
    else lastTaken channel history

theorem lastTaken_mem {channel moment : Nat} {history : List TickRecord}
    (h : lastTaken channel history = some moment) : ∃ r ∈ history, r.moment = moment := by
  induction history with
  | nil => cases h
  | cons r history ih =>
    unfold lastTaken at h
    split at h
    · cases h
      exact ⟨r, List.mem_cons_self, rfl⟩
    · obtain ⟨s, hs, hmoment⟩ := ih h
      exact ⟨s, List.mem_cons_of_mem r hs, hmoment⟩

section Running

variable [OutputSink σ]

/-- The outputs after updates at some moments, with the records of these updates, latest first. -/
inductive Run (start : ScheduledOutputs (Recorder σ)) :
    List TickRecord → ScheduledOutputs (Recorder σ) → Prop where
  | start : Run start [] start
  | tick {history : List TickRecord} {o o' : ScheduledOutputs (Recorder σ)} {offers : List Offer}
      (moment : Nat) (time : Int) (before : Run start history o)
      (updated : o.update ⟨time, some (.ofTimeOfWeek moment)⟩ = .ok o')
      (logged : o'.sink.offers = o.sink.offers ++ offers) :
      Run start (⟨moment, offers⟩ :: history) o'

variable {start o : ScheduledOutputs (Recorder σ)} {history : List TickRecord}

theorem tick_offers {moment : Nat} {time : Int} {o' : ScheduledOutputs (Recorder σ)}
    {offers : List Offer} (updated : o.update ⟨time, some (.ofTimeOfWeek moment)⟩ = .ok o')
    (logged : o'.sink.offers = o.sink.offers ++ offers) :
    ∃ sink, o' = (offers.foldl (note (.ofTimeOfWeek moment)) o).withSink sink ∧
      Answered σ (due (.ofTimeOfWeek moment) o) offers := by
  obtain ⟨sink, offers', hanswered, hupdate, hlog⟩ :=
    update_eq (WeekTime.valid_ofTimeOfWeek moment) time o
  rw [hupdate] at updated
  cases updated
  have hsame : offers = offers' := List.append_cancel_left (logged.symm.trans hlog)
  subst hsame
  exact ⟨sink, rfl, hanswered⟩

/-- What is offered at a tick is the value that the tracker has before it. -/
theorem tick_value {moment : Nat} {time : Int} {o' : ScheduledOutputs (Recorder σ)}
    {offers : List Offer} (updated : o.update ⟨time, some (.ofTimeOfWeek moment)⟩ = .ok o')
    (logged : o'.sink.offers = o.sink.offers ++ offers) {f : Offer} (hf : f ∈ offers) :
    o.tracker.valueAt o.schedule f.channel (.ofTimeOfWeek moment) = some f.value := by
  obtain ⟨-, -, hanswered⟩ := tick_offers updated logged
  exact mem_due_iff.mp (hanswered.exists_iff.mp ⟨f.taken, hf⟩)

theorem tick_frame {moment : Nat} {time : Int} {o' : ScheduledOutputs (Recorder σ)}
    {offers : List Offer} (updated : o.update ⟨time, some (.ofTimeOfWeek moment)⟩ = .ok o')
    (logged : o'.sink.offers = o.sink.offers ++ offers) :
    o'.schedule = o.schedule ∧ o'.mode = o.mode := by
  obtain ⟨sink, rfl, -⟩ := tick_offers updated logged
  exact foldl_note_frame

/-- A tick keeps it so that the time of a channel is the moment at which it last took a value. -/
theorem tick_times {moment : Nat} {time : Int} {o' : ScheduledOutputs (Recorder σ)}
    {offers : List Offer} (updated : o.update ⟨time, some (.ofTimeOfWeek moment)⟩ = .ok o')
    (logged : o'.sink.offers = o.sink.offers ++ offers) {channel : Nat} {first : Option Nat}
    (h : o.tracker.times.get? channel =
      ((lastTaken channel history).map (· % secondsPerWeek)).or first) :
    o'.tracker.times.get? channel =
      ((lastTaken channel (⟨moment, offers⟩ :: history)).map (· % secondsPerWeek)).or first := by
  obtain ⟨sink, rfl, hanswered⟩ := tick_offers updated logged
  have hchannels : ∀ f ∈ offers, f.channel < outputChannels := fun f hf =>
    hanswered.channel_lt hf
  rw [tracker_withSink, times_foldl_note hchannels, WeekTime.position_ofTimeOfWeek, h, lastTaken]
  by_cases htaken : ∃ f ∈ offers, f.channel = channel ∧ f.taken
  · rw [if_pos htaken, if_pos htaken, Option.map_some, Option.some_or]
  · rw [if_neg htaken, if_neg htaken]

/-- Updates change neither the schedule nor the mode. -/
theorem Run.frame (h : Run start history o) : o.schedule = start.schedule ∧ o.mode = start.mode := by
  induction h with
  | start => exact ⟨rfl, rfl⟩
  | tick moment time before updated logged ih =>
      rw [← ih.1, ← ih.2]
      exact tick_frame updated logged

/-- **The time of a channel is the moment at which it last took a value, round the week.** A channel
that took none still has the time it started with. -/
theorem Run.times_eq (h : Run start history o) (channel : Nat) :
    o.tracker.times.get? channel =
      ((lastTaken channel history).map (· % secondsPerWeek)).or
        (start.tracker.times.get? channel) := by
  induction h with
  | start => rfl
  | tick moment time before updated logged ih => exact tick_times updated logged ih

/-- A channel is offered at a tick just the value that the tracker has for it before the tick. -/
theorem Run.offered_iff {moment : Nat} {offers : List Offer}
    (h : Run start (⟨moment, offers⟩ :: history) o) :
    ∃ before, Run start history before ∧ ∀ channel value,
      (∃ taken, ⟨channel, value, taken⟩ ∈ offers) ↔
        before.tracker.valueAt before.schedule channel (.ofTimeOfWeek moment) = some value := by
  cases h with
  | @tick _ before _ _ _ time hbefore updated logged =>
      obtain ⟨sink, -, hanswered⟩ := tick_offers updated logged
      exact ⟨before, hbefore, fun channel value => hanswered.exists_iff.trans mem_due_iff⟩

/-- What a sink that accepts every channel was handed, it took. -/
theorem Run.taken (h : Run start history o)
    (haccepts : ∀ (sink : σ) channel value, channel < outputChannels →
      (OutputSink.apply sink channel value).2 = none)
    {r : TickRecord} (hr : r ∈ history) {f : Offer} (hf : f ∈ r.offers) : f.taken = true := by
  induction h with
  | start => cases hr
  | tick moment time before updated logged ih =>
      rcases List.mem_cons.mp hr with rfl | hr
      · obtain ⟨sink, -, hanswered⟩ := tick_offers updated logged
        obtain ⟨answering, heq⟩ := hanswered.answer f hf
        rw [heq, haccepts _ _ _ (hanswered.channel_lt hf)]
        rfl
      · exact ih hr

/-- A run is a run up to each of its ticks. -/
theorem Run.earlier (later : List TickRecord) (h : Run start (later ++ history) o) :
    ∃ before, Run start history before := by
  induction later generalizing o with
  | nil => exact ⟨o, h⟩
  | cons r later ih =>
      cases h with
      | tick moment time before updated logged => exact ih before

/-- **Outputs can always go on**: no tick fails. -/
theorem exists_tick (o : ScheduledOutputs (Recorder σ)) (moment : Nat) (time : Int) :
    ∃ o' offers, o.update ⟨time, some (.ofTimeOfWeek moment)⟩ = .ok o' ∧
      o'.sink.offers = o.sink.offers ++ offers := by
  obtain ⟨sink, offers, -, hupdate, hlog⟩ := update_eq (WeekTime.valid_ofTimeOfWeek moment) time o
  exact ⟨_, offers, hupdate, hlog⟩

/-- There is a run through any moments. -/
theorem exists_run (start : ScheduledOutputs (Recorder σ)) (moments : List Nat) :
    ∃ history o, Run start history o ∧ history.map (·.moment) = moments := by
  induction moments with
  | nil => exact ⟨[], start, .start, rfl⟩
  | cons moment moments ih =>
      obtain ⟨history, o, hrun, hmoments⟩ := ih
      obtain ⟨o', offers, hupdate, hlog⟩ := exists_tick o moment 0
      exact ⟨_, o', .tick moment 0 hrun hupdate hlog, by rw [List.map_cons, hmoments]⟩

end Running
end ScheduledOutputs

end Aquarium

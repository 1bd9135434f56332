import Aquarium.Device.Basic
import Aquarium.Proofs.Device.Update
import Aquarium.Proofs.Json.Records
import Aquarium.Proofs.Number.Single
import Aquarium.Proofs.Schedule.Entries
import Aquarium.Proofs.Schedule.Maps

/-!
# What a reading tells of the outputs

Of each channel two things are kept: the outputs note the value that their sink has taken, and the
pulse width outputs hold a duty cycle, which is that value within its range. A reading shows the
first one. So the two are records of the same fact, but not the same number: a value that no duty
cycle can have is shown as it was asked for.

* `update_keeps`: what an update keeps, if every single offer keeps it;
* `Happening`, `after`, `handed`: what may be done to outputs, what a run of it leaves, and what the
  sink was handed in the course of it;
* `noted_handed`: along every run the values noted are those that the sink took last;
* `mirrors_after`: and the duty cycles are the values noted, in percent;
* `duty_of_reading`: what a reading tells of the duty cycles, the main statement;
* `not_showsDuty_overdriven`: it is not the duty cycle itself.
-/

namespace Aquarium

/-! ## 1. Percent -/

namespace Pwm

/-- A value within the range of a duty cycle. -/
def percent (value : Float32) : Float32 :=
  Single.clamp value Single.zero (Single.ofInt 100)

/-- A value that a duty cycle can have. -/
def InPercent (value : Float32) : Prop := Single.zero ≤ value ∧ value ≤ Single.ofInt 100

instance (value : Float32) : Decidable (InPercent value) := inferInstanceAs (Decidable (_ ∧ _))

theorem percent_eq_self_iff {value : Float32} :
    percent value = value ↔ value.isNaN = true ∨ InPercent value :=
  Single.clamp_eq_self_iff (by decide) (by decide) (by decide)

theorem inPercent_percent {value : Float32} (h : (percent value).isNaN = false) :
    InPercent (percent value) :=
  Single.clamp_between (by decide) (by decide) (by decide) h

end Pwm

/-- The value that a reading shows for a channel. -/
def Reading.value? : Reading → Nat → Option Float32
  | .outputs _ channels, channel => (channels[channel]?).bind (·.value)
  | _, _ => none

namespace ScheduledOutputs

variable {σ : Type}

theorem value?_read (o : ScheduledOutputs σ) (channel : Nat) :
    o.read.value? channel = o.applied.get? channel := by
  simp only [read, Reading.value?, List.getElem?_map]
  by_cases hc : channel < outputChannels
  · rw [List.getElem?_range hc]
    rfl
  · rw [List.getElem?_eq_none (by simpa using hc), Slots.get?_eq_none_of_le _ (Nat.not_lt.mp hc)]
    rfl

/-! ## 2. What every offer keeps -/

section Keeping

variable [OutputSink σ] {inv : ScheduledOutputs σ → Prop}

/-- An offer is refused, or taken and noted. -/
theorem offer_cases {now : WeekTime} {channel : Nat} {value : Float32} {o o' : ScheduledOutputs σ}
    (h : o.offer now channel value = .ok o') :
    ((OutputSink.apply o.sink channel value).2.isNone = false ∧
      o' = { o with sink := (OutputSink.apply o.sink channel value).1 }) ∨
    ((OutputSink.apply o.sink channel value).2.isNone = true ∧ ∃ tracker, o' = { o with
      sink := (OutputSink.apply o.sink channel value).1
      tracker := tracker
      applied := o.applied.set channel (some value)
      dirty := true }) := by
  unfold offer at h
  generalize OutputSink.apply o.sink channel value = applied at h ⊢
  obtain ⟨sink, answer⟩ := applied
  cases answer with
  | some refusal =>
    cases h
    exact .inl ⟨rfl, rfl⟩
  | none =>
    obtain ⟨⟨stamped, tracker⟩, -, hnoted⟩ := bind_eq_ok h
    cases hnoted
    exact .inr ⟨rfl, tracker, rfl⟩

theorem offerAll_keeps {now : WeekTime}
    (hoffer : ∀ channel value o o', inv o → o.offer now channel value = .ok o' → inv o')
    {channel : Nat} {values : List (Option Float32)} {o o' : ScheduledOutputs σ} (ho : inv o)
    (h : offerAll now channel values o = .ok o') : inv o' := by
  induction values generalizing channel o with
  | nil =>
    cases h
    exact ho
  | cons value values ih =>
    cases value with
    | none => exact ih ho h
    | some value =>
      obtain ⟨o₁, hfirst, hrest⟩ := bind_eq_ok h
      exact ih (hoffer _ _ _ _ ho hfirst) hrest

/-- **What every offer keeps, an update keeps.** -/
theorem update_keeps
    (hoffer : ∀ now channel value o o', inv o → o.offer now channel value = .ok o' → inv o')
    {tick : Tick} {o o' : ScheduledOutputs σ} (ho : inv o) (h : o.update tick = .ok o') :
    inv o' := by
  obtain ⟨time, localTime⟩ := tick
  cases localTime with
  | none => cases h
  | some now =>
    simp only [update] at h
    split at h
    · rename_i after hall
      cases h
      obtain ⟨values, -, hvalues⟩ := bind_eq_ok hall
      exact offerAll_keeps (hoffer now) ho hvalues
    · cases h

end Keeping

/-! ## 3. Whatever happens to outputs -/

/-- What may be done to outputs. -/
inductive Happening where
  | tick (tick : Tick)
  | setMode (mode : TransitionMode)
  | insert (day : Day) (time : Nat) (channels : Channels Float32 outputChannels)
  | remove (day : Day) (time : Nat)
  | replace (schedule : LightSchedule)
  | restore (times : List (Option Nat))
  | takeDirty

/-- The outputs after that, unless it fails. -/
def Happening.apply [OutputSink σ] :
    Happening → ScheduledOutputs σ → Except (UpdateFailure ⊕ ScheduleError) (ScheduledOutputs σ)
  | tick t, o => (o.update t).mapError .inl
  | setMode mode, o => .ok (o.setMode mode)
  | insert day time channels, o => (o.insert day time channels).mapError .inr
  | remove day time, o => (o.remove day time).mapError .inr
  | replace schedule, o => .ok (o.replaceSchedule schedule)
  | restore times, o => .ok (o.restore times)
  | takeDirty, o => .ok o.takeDirty.2

/-- Only an update hands anything to the sink, and only then a value is noted. -/
theorem Happening.apply_cases [OutputSink σ] {h : Happening} {o o' : ScheduledOutputs σ}
    (happly : h.apply o = .ok o') :
    (∃ t, o.update t = .ok o') ∨ (o'.sink = o.sink ∧ o'.applied = o.applied) := by
  cases h with
  | tick t => exact .inl ⟨t, mapError_eq_ok happly⟩
  | insert day time channels =>
    obtain ⟨schedule, -, rfl⟩ := map_eq_ok (mapError_eq_ok happly)
    exact .inr ⟨rfl, rfl⟩
  | remove day time =>
    obtain ⟨schedule, -, rfl⟩ := map_eq_ok (mapError_eq_ok happly)
    exact .inr ⟨rfl, rfl⟩
  | setMode mode | replace schedule | restore times | takeDirty =>
    cases happly
    exact .inr ⟨rfl, rfl⟩

/-- What every offer keeps is kept by whatever happens. -/
theorem attempts_keep_of_offer [OutputSink σ] {inv : ScheduledOutputs σ → Prop}
    (hoffer : ∀ now channel value o o', inv o → o.offer now channel value = .ok o' → inv o')
    (hframe : ∀ o o' : ScheduledOutputs σ, o'.sink = o.sink → o'.applied = o.applied →
      inv o → inv o')
    (happenings : List Happening) {o : ScheduledOutputs σ} (ho : inv o) :
    inv (attempts Happening.apply happenings o).2 := by
  refine attempts_keep (fun h o o' ho happly => ?_) happenings ho
  rcases h.apply_cases happly with ⟨t, hupdate⟩ | ⟨hsink, happlied⟩
  · exact update_keeps hoffer ho hupdate
  · exact hframe o o' hsink happlied ho

/-- A recorder changes nothing but its record, whatever happens. -/
theorem Happening.apply_forget [OutputSink σ] (h : Happening) (o : ScheduledOutputs (Recorder σ)) :
    (h.apply o).map forget = h.apply o.forget := by
  cases h with
  | tick t =>
    simp only [apply, ← update_forget]
    cases o.update t <;> rfl
  | insert day time channels =>
    have hschedule : o.forget.schedule = o.schedule := rfl
    simp only [apply, ScheduledOutputs.insert, hschedule]
    cases o.schedule.insert day time channels <;> rfl
  | remove day time =>
    have hschedule : o.forget.schedule = o.schedule := rfl
    simp only [apply, ScheduledOutputs.remove, hschedule]
    cases o.schedule.remove day time <;> rfl
  | setMode mode | replace schedule | restore times | takeDirty => rfl

section Pulses

variable (schedule : LightSchedule) (mode : TransitionMode) (names : List String)
  (happenings : List Happening)

/-- Pulse width outputs that were never set, after things have happened to them. What fails leaves
them as they are. -/
def after : ScheduledOutputs Pwm :=
  (attempts Happening.apply happenings (new schedule mode .idle names)).2

/-- The same outputs with a recorder before their sink. -/
def afterRecorded : ScheduledOutputs (Recorder Pwm) :=
  (attempts Happening.apply happenings (new schedule mode ⟨.idle, []⟩ names)).2

/-- What the sink was handed in the course of that, and what it took of it. -/
def handed : List Offer := (afterRecorded schedule mode names happenings).sink.offers

theorem forget_afterRecorded :
    (afterRecorded schedule mode names happenings).forget =
      after schedule mode names happenings := by
  have hkeep : ∀ (h : Happening) (o o' : ScheduledOutputs (Recorder Pwm)), True →
      h.apply o = .ok o' → True := fun _ _ _ _ _ => trivial
  have hsame : ∀ (h : Happening) (o : ScheduledOutputs (Recorder Pwm)), True →
      (h.apply o).map forget = h.apply o.forget := fun h o _ => h.apply_forget o
  exact (congrArg Prod.snd (attempts_map hkeep hsame happenings trivial)).symm

end Pulses

/-! ## 4. Two records of one fact -/

/-- The last value that a channel took. -/
def lastValue (channel : Nat) (offers : List Offer) : Option Float32 :=
  ((offers.filter fun f => f.channel = channel ∧ f.taken).getLast?).map (·.value)

theorem lastValue_concat (channel : Nat) (offers : List Offer) (f : Offer) :
    lastValue channel (offers ++ [f]) =
      if f.channel = channel ∧ f.taken then some f.value else lastValue channel offers := by
  unfold lastValue
  by_cases hf : f.channel = channel ∧ f.taken
  · simp [List.filter_append, hf]
  · simp [List.filter_append, hf]

/-- What is noted for every channel is the last value that it took. -/
def Noted [OutputSink σ] (o : ScheduledOutputs (Recorder σ)) : Prop :=
  ∀ channel < outputChannels, o.applied.get? channel = lastValue channel o.sink.offers

theorem Noted.offer [OutputSink σ] {now : WeekTime} {channel : Nat} {value : Float32}
    {o o' : ScheduledOutputs (Recorder σ)} (h : o.Noted)
    (hoffer : o.offer now channel value = .ok o') : o'.Noted := by
  rcases offer_cases hoffer with ⟨hanswer, rfl⟩ | ⟨hanswer, tracker, rfl⟩
  · intro c hc
    have hrefused : (OutputSink.apply o.sink.sink channel value).2.isNone = false := hanswer
    refine Eq.trans (h c hc) (Eq.symm ?_)
    refine (lastValue_concat c o.sink.offers _).trans (if_neg fun hf => ?_)
    rw [hrefused] at hf
    exact Bool.false_ne_true hf.2
  · intro c hc
    have htaken : (OutputSink.apply o.sink.sink channel value).2.isNone = true := hanswer
    refine Eq.trans ?_ (lastValue_concat c o.sink.offers _).symm
    simp only [htaken, and_true]
    by_cases heq : channel = c
    · subst heq
      rw [if_pos rfl, Slots.get?_set _ _ _ _ hc, if_pos rfl]
    · rw [if_neg heq, Slots.get?_set_ne _ _ fun h => heq h.symm]
      exact h c hc

/-- The duty cycle of every channel is the value noted for it, in percent. -/
def Mirrors (o : ScheduledOutputs Pwm) : Prop :=
  ∀ channel, o.sink.duty.get? channel = (o.applied.get? channel).map Pwm.percent

/-- The outputs take every value of a channel that there is, and refuse all others. -/
theorem Mirrors.offer {now : WeekTime} {channel : Nat} {value : Float32}
    {o o' : ScheduledOutputs Pwm} (h : o.Mirrors) (hoffer : o.offer now channel value = .ok o') :
    o'.Mirrors := by
  have happly : OutputSink.apply o.sink channel value = o.sink.apply channel value := rfl
  unfold Pwm.apply at happly
  rcases offer_cases hoffer with ⟨hanswer, rfl⟩ | ⟨hanswer, tracker, rfl⟩ <;> rw [happly] at hanswer ⊢
  · split at hanswer
    · cases hanswer
    · rename_i hc
      intro c
      rw [if_neg hc]
      exact h c
  · split at hanswer
    · rename_i hc
      intro c
      simp only [if_pos hc, Slots.get?_set _ _ _ _ hc]
      split
      · rfl
      · exact h c
    · cases hanswer

section Readings

variable (schedule : LightSchedule) (mode : TransitionMode) (names : List String)
  (happenings : List Happening)

/-- **What is noted is what the sink took last.** -/
theorem noted_handed {channel : Nat} (hc : channel < outputChannels) :
    (after schedule mode names happenings).applied.get? channel =
      lastValue channel (handed schedule mode names happenings) := by
  have hstart : (new schedule mode (⟨.idle, []⟩ : Recorder Pwm) names).Noted := fun channel _ =>
    Slots.get?_empty channel
  rw [← forget_afterRecorded]
  refine attempts_keep_of_offer (fun _ _ _ _ _ hn hoffer => hn.offer hoffer) ?_ happenings hstart
    channel hc
  intro o o' hsink happlied hn channel hc
  rw [hsink, happlied]
  exact hn channel hc

/-- **The duty cycles are what is noted, in percent.** -/
theorem mirrors_after : (after schedule mode names happenings).Mirrors := by
  have hidle : (new schedule mode Pwm.idle names).Mirrors := fun channel => by
    have hnone : (Slots.empty : Slots Float32 outputChannels).get? channel = none :=
      Slots.get?_empty channel
    exact hnone.trans (congrArg (Option.map Pwm.percent) hnone).symm
  refine attempts_keep_of_offer (fun _ _ _ _ _ hm hoffer => hm.offer hoffer) ?_ happenings hidle
  intro o o' hsink happlied hm channel
  rw [hsink, happlied]
  exact hm channel

/-- What the reading of a channel tells of its duty cycle, where `offers` is what the sink was
handed. -/
structure TellsDuty (offers : List Offer) (o : ScheduledOutputs Pwm) (channel : Nat) : Prop where
  last : channel < outputChannels → o.read.value? channel = lastValue channel offers
  duty : o.sink.duty.get? channel = (o.read.value? channel).map Pwm.percent
  inPercent : ∀ duty, o.sink.duty.get? channel = some duty → duty.isNaN = false →
    Pwm.InPercent duty
  same_iff : o.read.value? channel = o.sink.duty.get? channel ↔
    ∀ value, o.read.value? channel = some value → value.isNaN = true ∨ Pwm.InPercent value

/-- **What a reading tells of the outputs.** For each channel it shows the last value that the sink
took, and nothing before the first one; the duty cycle is that value in percent. A duty cycle that is
a number lies between zero and a hundred. So the reading shows the duty cycle itself just if it shows
a value that a duty cycle can have, or what is not a number. -/
theorem duty_of_reading (channel : Nat) :
    TellsDuty (handed schedule mode names happenings) (after schedule mode names happenings)
      channel := by
  have hmirrors := mirrors_after schedule mode names happenings channel
  rw [← value?_read] at hmirrors
  constructor
  case last =>
    intro hc
    rw [value?_read]
    exact noted_handed schedule mode names happenings hc
  case duty => exact hmirrors
  case inPercent =>
    intro duty hduty hnumber
    rw [hmirrors] at hduty
    obtain ⟨value, -, rfl⟩ := Option.map_eq_some_iff.mp hduty
    exact Pwm.inPercent_percent hnumber
  case same_iff =>
    rw [hmirrors]
    cases (after schedule mode names happenings).read.value? channel with
    | none => exact iff_of_true rfl nofun
    | some value =>
      rw [Option.map_some, Option.some.injEq, eq_comm, Pwm.percent_eq_self_iff]
      exact ⟨fun h _ heq => Option.some.inj heq ▸ h, fun h => h value rfl⟩

/-- Outputs whose event of Monday at eight has asked for 140. -/
def overdriven : ScheduledOutputs Pwm :=
  after (mondayMorning (Single.ofInt 140)) .hold [] [.tick ⟨0, some ⟨.monday, 28800⟩⟩]

theorem duty_of_reading_overdriven :
    overdriven.read.value? 0 ≠ overdriven.sink.duty.get? 0 ∧
      Pwm.InPercent (Single.ofInt 100) := by
  have htells : TellsDuty _ overdriven 0 := duty_of_reading (mondayMorning (Single.ofInt 140))
    .hold [] [.tick ⟨0, some ⟨.monday, 28800⟩⟩] 0
  have hvalue : overdriven.read.value? 0 = some (Single.ofInt 140) := rfl
  have hduty : overdriven.sink.duty.get? 0 = some (Single.ofInt 100) := rfl
  refine ⟨fun h => ?_, htells.inPercent _ hduty (by decide)⟩
  rcases htells.same_iff.mp h _ hvalue with hnan | hpercent
  · exact absurd hnan (by decide)
  · exact absurd hpercent (by decide)

end Readings

/-- The reading shows the duty cycle of every channel. -/
def ShowsDuty (o : ScheduledOutputs Pwm) : Prop :=
  ∀ channel, o.read.value? channel = o.sink.duty.get? channel

/-- **A reading does not show the duty cycle.** The event asks for 140: that is what the reading
shows from then on, and the duty cycle is a hundred. -/
theorem not_showsDuty_overdriven :
    ¬ overdriven.ShowsDuty ∧ overdriven.read.value? 0 = some (Single.ofInt 140) ∧
      overdriven.sink.duty.get? 0 = some (Single.ofInt 100) ∧
      (Single.ofInt 140).isNaN = false ∧ ¬ Pwm.InPercent (Single.ofInt 140) := by
  refine ⟨fun h => ?_, rfl, rfl, by decide, by decide⟩
  have hsame : some (Single.ofInt 140) = some (Single.ofInt 100) := h 0
  exact absurd hsame (by decide)

end ScheduledOutputs

end Aquarium

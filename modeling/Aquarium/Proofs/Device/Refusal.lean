import Aquarium.Device.Basic
import Aquarium.Proofs.Device.SingleShot

/-!
# Values that a sink refuses

A sink may refuse what it is handed. For the channel that was refused nothing is noted then, so what
the tracker has for it later does not depend on the refusal, and in single-shot mode the same event
is offered again.

* `Updated`, `exists_updated`: at an update every channel is either offered, taken and noted, or left
  alone;
* `Tracker.valueAt_again`: an event that was due is due later as well, while the time of its channel
  stays and is recent enough;
* `Run.offered_again`: therefore it is offered again after refusals;
* `refused_offered_again`: the main statement.
-/

namespace Aquarium

namespace ScheduledOutputs

variable {σ : Type}

/-! ## 1. An update, channel by channel -/

/-- Values that are offered come in the order of their channels, each channel once. -/
theorem offered_ascending (channel : Nat) (values : List (Option Float32)) :
    (offered channel values).Pairwise fun x y => x.1 < y.1 := by
  induction values generalizing channel with
  | nil => exact .nil
  | cons value values ih =>
    cases value with
    | none => exact ih (channel + 1)
    | some value =>
      refine List.pairwise_cons.mpr ⟨fun x hx => ?_, ih (channel + 1)⟩
      exact (mem_offered_iff.mp hx).1

theorem due_ascending (now : WeekTime) (o : ScheduledOutputs σ) :
    (due now o).Pairwise fun x y => x.1 < y.1 :=
  offered_ascending 0 _

section Noting

variable {now : WeekTime} {offers : List Offer} {o : ScheduledOutputs σ} {channel : Nat}

theorem applied_note {f : Offer} (hf : f.channel < outputChannels) (channel : Nat) :
    (note now o f).applied.get? channel =
      if f.channel = channel ∧ f.taken then some f.value else o.applied.get? channel := by
  unfold note
  by_cases ht : f.taken
  · rw [if_pos ht]
    simp only [ht, and_true]
    rw [Slots.get?_set _ _ _ _ hf]
    simp only [eq_comm]
  · rw [if_neg ht, if_neg fun h => ht h.2]

/-- A channel that took nothing keeps its value. -/
theorem applied_foldl_note_of_refused (hoffers : ∀ f ∈ offers, f.channel < outputChannels)
    (h : ∀ f ∈ offers, f.channel = channel → f.taken = false) :
    (offers.foldl (note now) o).applied.get? channel = o.applied.get? channel := by
  induction offers generalizing o with
  | nil => rfl
  | cons f offers ih =>
    rw [List.foldl_cons, ih (fun g hg => hoffers g (List.mem_cons_of_mem f hg))
      (fun g hg => h g (List.mem_cons_of_mem f hg)), applied_note (hoffers f List.mem_cons_self)]
    refine if_neg fun ⟨hchannel, htaken⟩ => ?_
    rw [h f List.mem_cons_self hchannel] at htaken
    cases htaken

/-- A channel that took a value has it. -/
theorem applied_foldl_note_of_taken (hoffers : ∀ f ∈ offers, f.channel < outputChannels)
    (hascending : offers.Pairwise fun f g => f.channel < g.channel) {f : Offer} (hf : f ∈ offers)
    (htaken : f.taken = true) :
    (offers.foldl (note now) o).applied.get? f.channel = some f.value := by
  induction offers generalizing o with
  | nil => cases hf
  | cons g offers ih =>
    have hlater := List.pairwise_cons.mp hascending
    have hrest : ∀ g ∈ offers, g.channel < outputChannels := fun k hk =>
      hoffers k (List.mem_cons_of_mem g hk)
    rw [List.foldl_cons]
    rcases List.mem_cons.mp hf with rfl | hf
    · rw [applied_foldl_note_of_refused hrest fun k hk hchannel => absurd (hlater.1 k hk) (by omega),
        applied_note (hoffers f List.mem_cons_self), if_pos ⟨rfl, htaken⟩]
    · exact ih hrest hlater.2 hf

theorem names_foldl_note : (offers.foldl (note now) o).names = o.names := by
  induction offers generalizing o with
  | nil => rfl
  | cons f offers ih =>
    have hf : (note now o f).names = o.names := by
      unfold note
      split <;> rfl
    rw [List.foldl_cons, ih, hf]

end Noting

section Updating

variable [OutputSink σ] {now : WeekTime}

/-- The answers come in the order of the channels if the values do. -/
theorem Answered.ascending {asked : List (Nat × Float32)} {offers : List Offer}
    (h : Answered σ asked offers) (hasked : asked.Pairwise fun x y => x.1 < y.1) :
    offers.Pairwise fun f g => f.channel < g.channel := by
  rw [← h.asked_eq, List.pairwise_map] at hasked
  exact hasked

/-- What an update makes of outputs `o` if `offers` are the values handed over. -/
structure Updated (now : WeekTime) (o : ScheduledOutputs σ) (offers : List Offer)
    (o' : ScheduledOutputs σ) : Prop where
  /-- Handed over is what the tracker had for each channel before the update. -/
  offered_iff : ∀ channel value, (∃ taken, ⟨channel, value, taken⟩ ∈ offers) ↔
    o.tracker.value o.schedule channel now = .ok (some value)
  /-- Every channel at most once, in their order. -/
  ascending : offers.Pairwise fun f g => f.channel < g.channel
  /-- The answers are those of the sink. -/
  answered : OutputSink.handOver o.sink (offers.map fun f => (f.channel, f.value)) =
    (o'.sink, offers)
  /-- What was taken is noted, with the second of the week that it is now. -/
  taken : ∀ f ∈ offers, f.taken = true → o'.applied.get? f.channel = some f.value ∧
    o'.tracker.times.get? f.channel = some now.position
  /-- A channel that took nothing is as it was. -/
  kept : ∀ channel, (∀ f ∈ offers, f.channel = channel → f.taken = false) →
    o'.applied.get? channel = o.applied.get? channel ∧
      o'.tracker.times.get? channel = o.tracker.times.get? channel
  /-- There is something to save if anything was taken. -/
  dirty : o'.dirty = (o.dirty || offers.any (·.taken))
  frame : o'.schedule = o.schedule ∧ o'.mode = o.mode ∧ o'.names = o.names

/-- **An update is all or nothing for each channel.** -/
theorem exists_updated (hv : now.Valid) (time : Int) (o : ScheduledOutputs σ) :
    ∃ offers o', o.update ⟨time, some now⟩ = .ok o' ∧ Updated now o offers o' := by
  have hanswered := answered_handOver o.sink (due now o)
  have hchannels : ∀ f ∈ (OutputSink.handOver o.sink (due now o)).2,
      f.channel < outputChannels := fun f hf => hanswered.channel_lt hf
  have hascending := hanswered.ascending (due_ascending now o)
  refine ⟨(OutputSink.handOver o.sink (due now o)).2, _, update_eq_handOver hv time o, ?_⟩
  constructor
  case offered_iff =>
    intro channel value
    rw [hanswered.exists_iff, mem_due_iff, Tracker.value_eq _ _ _ hv, Except.ok.injEq]
  case ascending => exact hascending
  case answered => rw [hanswered.asked_eq]; rfl
  case taken =>
    intro f hf htaken
    refine ⟨applied_foldl_note_of_taken hchannels hascending hf htaken, ?_⟩
    rw [tracker_withSink, times_foldl_note hchannels, if_pos ⟨f, hf, rfl, htaken⟩]
  case kept =>
    intro channel hrefused
    refine ⟨applied_foldl_note_of_refused hchannels hrefused, ?_⟩
    rw [tracker_withSink, times_foldl_note hchannels, if_neg]
    rintro ⟨f, hf, hchannel, htaken⟩
    rw [hrefused f hf hchannel] at htaken
    cases htaken
  case dirty => exact dirty_foldl_note
  case frame => exact ⟨foldl_note_frame.1, foldl_note_frame.2, names_foldl_note⟩

end Updating

end ScheduledOutputs

/-! ## 2. An event that stays due -/

/-- The time of a channel tells at `later` what it told at `now`. Either the channel has none, and it
is still the same week; or it is the time of a moment that is not after `now`, and at `later` that
moment is less than a week ago. -/
def StillTells (time : Option Nat) (now later : Nat) : Prop :=
  (time = none ∧ now / secondsPerWeek = later / secondsPerWeek) ∨
    ∃ c : Int, time = some (c % secondsPerWeek).toNat ∧ c ≤ now ∧ later - c < secondsPerWeek

/-- A later moment has no earlier occurrence of an event as its latest one. -/
theorem WeekEvent.LatestUpTo.mono {V : Type} {e : WeekEvent V} {now later first second : Int}
    (h : e.LatestUpTo now first) (h' : e.LatestUpTo later second) (hle : now ≤ later) :
    first ≤ second :=
  h'.latest first h.occurs (Int.le_trans h.le hle)

theorem ChannelView.once_again {V : Type} {e : WeekEvent V} {next next' : Option (WeekEvent V)}
    {time : Option Nat} {now later : Nat} (he : e.time < secondsPerWeek) (hle : now ≤ later)
    (htells : StillTells time now later)
    (hdue : (ChannelView.mk e next time (now % secondsPerWeek)).once = some e.value) :
    (ChannelView.mk e next' time (later % secondsPerWeek)).once = some e.value := by
  rcases htells with ⟨rfl, hweek⟩ | ⟨c, rfl, hpast, hrecent⟩
  · -- without a time, the event has to have been in this week
    rw [once_iff_of_unreported] at hdue ⊢
    have hevent := hdue.2
    refine ⟨rfl, ?_⟩
    simp only [secondsPerWeek] at *
    omega
  · -- else its latest occurrence has to be later than that time
    obtain ⟨first, hfirst⟩ := WeekEvent.exists_latestUpTo he now
    obtain ⟨second, hsecond⟩ := WeekEvent.exists_latestUpTo he later
    have hmono := hfirst.mono hsecond (by exact_mod_cast hle)
    have hnow : e.value = e.value ∧ c < first :=
      (once_iff_of_reported hfirst hpast (by omega)).mp hdue
    exact (once_iff_of_reported hsecond (by omega) hrecent).mpr ⟨rfl, by omega⟩

namespace Tracker

variable {V : Type} [ChannelValue V] {C P N : Nat} {t t' : Tracker N} {s : WeekSchedule V C P}
  {channel now later : Nat} {e : WeekEvent V}

/-- **An event that was due is due later as well**, if the time of the channel has stayed. -/
theorem valueAt_again (hs : s.Ordered) (hmode : t.mode = .singleShot)
    (hmode' : t'.mode = .singleShot)
    (htimes : t'.times.get? channel = t.times.get? channel) (hle : now ≤ later)
    (htells : StillTells (t.times.get? channel) now later)
    (hnow : s.current? channel (.ofTimeOfWeek now) .allDays = some e)
    (hlater : s.current? channel (.ofTimeOfWeek later) .allDays = some e)
    (hdue : t.valueAt s channel (.ofTimeOfWeek now) = some e.value) :
    t'.valueAt s channel (.ofTimeOfWeek later) = some e.value := by
  have hmem := ((WeekSchedule.current?_eq_some_iff hs (WeekTime.valid_ofTimeOfWeek now) e).mp
    hnow).1
  obtain ⟨hchannel, f, hf, honce⟩ := (valueAt_eq_some_iff hmode).mp hdue
  cases hnow.symm.trans hf
  refine (valueAt_eq_some_iff hmode').mpr ⟨hchannel, e, hlater, ?_⟩
  rw [WeekTime.position_ofTimeOfWeek] at honce ⊢
  rw [htimes]
  exact ChannelView.once_again (hs.event_time_lt hmem) hle htells honce

end Tracker

namespace ScheduledOutputs

variable {σ : Type}

/-! ## 3. Offered until it is taken -/

/-- Nothing was taken by the channel at this tick. -/
def TickRecord.Refused (r : TickRecord) (channel : Nat) : Prop :=
  ∀ f ∈ r.offers, f.channel = channel → f.taken = false

theorem lastTaken_eq_none {channel : Nat} {history : List TickRecord}
    (h : ∀ r ∈ history, r.Refused channel) : lastTaken channel history = none := by
  induction history with
  | nil => rfl
  | cons r history ih =>
    rw [lastTaken, if_neg, ih fun s hs => h s (List.mem_cons_of_mem r hs)]
    rintro ⟨f, hf, hchannel, htaken⟩
    rw [h r List.mem_cons_self f hf hchannel] at htaken
    cases htaken

section Running

variable [OutputSink σ] {start last : ScheduledOutputs (Recorder σ)} {since : List TickRecord}
  {r s : TickRecord} {channel : Nat} {e : WeekEvent Float32}

theorem Answered.nodup_channels {τ : Type} {now : WeekTime} {o : ScheduledOutputs τ}
    {offers : List Offer} (h : Answered σ (due now o) offers) :
    (offers.map (·.channel)).Nodup :=
  List.pairwise_map.mpr ((h.ascending (due_ascending now o)).imp Nat.ne_of_lt)

/-- A channel that refused what it was offered took nothing else at that tick. -/
theorem Run.refused_of_mem (hrun : Run start (r :: since) last) {value : Float32}
    (h : ⟨channel, value, false⟩ ∈ r.offers) : r.Refused channel := by
  intro f hf hchannel
  cases hrun with
  | tick moment time before updated logged =>
    obtain ⟨sink, -, hanswered⟩ := tick_offers updated logged
    rw [List.inj_on_of_nodup_map hanswered.nodup_channels hf h hchannel]

/-- **An event that was refused is offered again.** It was refused at the first tick, the channel has
taken nothing since, and at the last tick, which is not before the first one, it still is the event
in effect. -/
theorem Run.offered_again (hrun : Run start (r :: (since ++ [s])) last)
    (hmode : start.mode = .singleShot) (hschedule : start.schedule.Reachable)
    (hfirst : start.schedule.current? channel (.ofTimeOfWeek s.moment) .allDays = some e)
    (hrefused : ⟨channel, e.value, false⟩ ∈ s.offers)
    (hsince : ∀ t ∈ since, t.Refused channel)
    (hnow : start.schedule.current? channel (.ofTimeOfWeek r.moment) .allDays = some e)
    (hle : s.moment ≤ r.moment)
    (htells : StillTells (start.tracker.times.get? channel) s.moment r.moment) :
    ∃ taken, ⟨channel, e.value, taken⟩ ∈ r.offers := by
  -- at the first tick the event was due
  obtain ⟨o, hone⟩ := hrun.earlier (r :: since)
  obtain ⟨o₀, hstart, hoffered⟩ := hone.offered_iff
  cases hstart
  have hdue := (hoffered channel e.value).mp ⟨false, hrefused⟩
  -- and the time of the channel has stayed
  obtain ⟨b, hbefore, hagain⟩ := hrun.offered_iff
  obtain ⟨hsame, hkept⟩ := hbefore.frame
  have htimes : b.tracker.times.get? channel = start.tracker.times.get? channel := by
    rw [hbefore.times_eq, lastTaken_eq_none, Option.map_none, Option.none_or]
    intro t ht
    rcases List.mem_append.mp ht with ht | ht
    · exact hsince t ht
    · rw [List.mem_singleton.mp ht]
      exact hone.refused_of_mem hrefused
  rw [hagain, hsame]
  exact Tracker.valueAt_again hschedule.ordered hmode (hkept.trans hmode) htimes hle htells hfirst
    hnow hdue

end Running

/-- The outputs with a recorder before their sink. -/
def recorded (o : ScheduledOutputs σ) : ScheduledOutputs (Recorder σ) := o.withSink ⟨o.sink, []⟩

/-- **A tick is all or nothing for each channel, and a refused event is offered again.** The sink may
refuse what it likes.

At a valid time of the week an update does not fail, and `Updated` says what it does. Without a clock
it fails and leaves everything as it was. In single-shot mode, let an event be offered and refused at
the tick `s`, and at `r`, which is not before `s`, still be the event in effect; the schedule is not
edited, and the channel has taken nothing in between. Then the event is offered at `r`, provided that
the time of the channel is less than a week old by then or, if there is none, the week is the same. -/
theorem refused_offered_again [OutputSink σ] (o : ScheduledOutputs σ) :
    (∀ time (now : WeekTime), now.Valid → ∃ offers o',
      o.update ⟨time, some now⟩ = .ok o' ∧ Updated now o offers o') ∧
    (∀ time, (Device.lights o).update ⟨time, none⟩ =
      (.lights o, some (.reported .noClock))) ∧
    ∀ since r s last, Run o.recorded (r :: (since ++ [s])) last →
      o.mode = .singleShot → o.schedule.Reachable → ∀ channel e,
        o.schedule.current? channel (.ofTimeOfWeek s.moment) .allDays = some e →
        ⟨channel, e.value, false⟩ ∈ s.offers → (∀ t ∈ since, t.Refused channel) →
        o.schedule.current? channel (.ofTimeOfWeek r.moment) .allDays = some e →
        s.moment ≤ r.moment →
        StillTells (o.tracker.times.get? channel) s.moment r.moment →
          ∃ taken, ⟨channel, e.value, taken⟩ ∈ r.offers := by
  refine ⟨fun time now hv => exists_updated hv time o, fun time => rfl, ?_⟩
  intro since r s last hrun hmode hschedule channel e hfirst hrefused hsince hnow hle htells
  exact hrun.offered_again hmode hschedule hfirst hrefused hsince hnow hle htells

/-- A sink that refuses so many values before it takes one. -/
structure Reluctant where
  refusals : Nat

instance : OutputSink Reluctant where
  apply
    | ⟨0⟩, _, _ => (⟨0⟩, none)
    | ⟨n + 1⟩, channel, _ => (⟨n⟩, some (.invalidChannel channel))

/-- One event a week, on a sink that refuses so many values. -/
def reluctant (refusals : Nat) : ScheduledOutputs Reluctant :=
  .new (mondayMorning (Single.ofInt 10)) .singleShot ⟨refusals⟩ []

/-- The event of Monday at eight is refused then and a minute later, and offered again after two
minutes. -/
theorem refused_offered_again_reluctant :
    WeekTime.Valid (.ofTimeOfWeek 115200) ∧
    ∃ r t s last, Run (reluctant 2).recorded [r, t, s] last ∧
      (reluctant 2).mode = .singleShot ∧ (reluctant 2).schedule.Reachable ∧
      ⟨0, Single.ofInt 10, false⟩ ∈ s.offers ∧ t.Refused 0 ∧
      s.moment = 115200 ∧ r.moment = 115320 ∧
      StillTells ((reluctant 2).tracker.times.get? 0) s.moment r.moment ∧
      ∃ taken, ⟨0, Single.ofInt 10, taken⟩ ∈ r.offers := by
  have hvalid : WeekTime.Valid (.ofTimeOfWeek 115200) := by decide
  have hschedule := reachable_mondayMorning (Single.ofInt 10)
  have hcurrent : ∀ moment, (mondayMorning (Single.ofInt 10)).current? 0 (.ofTimeOfWeek moment)
      .allDays = some ⟨115200, Single.ofInt 10⟩ := by
    intro moment
    rw [WeekSchedule.current?_eq_some_iff hschedule.ordered (WeekTime.valid_ofTimeOfWeek moment),
      events_mondayMorning]
    simp
  have hfirst : (reluctant 2).recorded.update ⟨0, some (.ofTimeOfWeek 115200)⟩ =
      .ok ((reluctant 1).withSink ⟨⟨1⟩, [⟨0, Single.ofInt 10, false⟩]⟩) := rfl
  have hsecond : ((reluctant 1).withSink (⟨⟨1⟩, [⟨0, Single.ofInt 10, false⟩]⟩ :
      Recorder Reluctant)).update ⟨0, some (.ofTimeOfWeek 115260)⟩ =
      .ok ((reluctant 0).withSink
        ⟨⟨0⟩, [⟨0, Single.ofInt 10, false⟩, ⟨0, Single.ofInt 10, false⟩]⟩) := rfl
  obtain ⟨last, offers, hthird, hlog⟩ := exists_tick ((reluctant 0).withSink
    (⟨⟨0⟩, [⟨0, Single.ofInt 10, false⟩, ⟨0, Single.ofInt 10, false⟩]⟩ : Recorder Reluctant))
    115320 0
  have hrun : Run (reluctant 2).recorded [⟨115320, offers⟩,
      ⟨115260, [⟨0, Single.ofInt 10, false⟩]⟩, ⟨115200, [⟨0, Single.ofInt 10, false⟩]⟩] last :=
    .tick 115320 0 (.tick 115260 0 (.tick 115200 0 .start hfirst rfl) hsecond rfl) hthird hlog
  have hrefused : TickRecord.Refused ⟨115260, [⟨0, Single.ofInt 10, false⟩]⟩ 0 := by
    intro f hf _
    rw [List.mem_singleton.mp hf]
  have htells : StillTells ((reluctant 2).tracker.times.get? 0) 115200 115320 :=
    .inl ⟨rfl, by decide⟩
  refine ⟨hvalid, _, _, _, last, hrun, rfl, hschedule, List.mem_singleton_self _, hrefused, rfl,
    rfl, htells, ?_⟩
  exact (refused_offered_again (reluctant 2)).2.2 [_] _ _ last hrun rfl hschedule 0 _
    (hcurrent 115200) (List.mem_singleton_self _)
    (fun t ht => by rw [List.mem_singleton.mp ht]; exact hrefused) (hcurrent 115320)
    (Nat.le_add_right 115200 120) htells

end ScheduledOutputs

end Aquarium

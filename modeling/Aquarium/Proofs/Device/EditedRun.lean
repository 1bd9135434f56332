import Aquarium.Proofs.Device.Recurrence
import Aquarium.Proofs.Schedule.Maps

/-!
# Runs in which the schedule is edited

Between two updates of the outputs points may be added to the schedule or taken out of it, and the
whole schedule may be replaced. An edit can make any event current, also an earlier one than was
current before. In single-shot mode no occurrence is applied twice on a channel nevertheless.

What carries this is the time of the channel. It is known round the week only, but which moment it
stands for is the same invariant as without edits, since an edit leaves the times as they are.

* `ScheduleEdit`, `EditedRun`: edits of the schedule, and runs of updates and edits in any order;
* `EditedRun.times_eq`: the time of a channel is the moment at which it last took a value, wrapped;
* `Tracker.lt_of_valueAt`: an occurrence that is reported lies after the last report;
* `EditedRun.lt_of_applies`: so a channel applies only what occurred after all ticks at which it took
  anything;
* `EditedRun.applied_once`: the main statement.
-/

namespace Aquarium

/-! ## 1. What a tracker reports in single-shot mode -/

theorem ChannelView.value_of_once {V : Type} {v : ChannelView V} {value : V}
    (h : v.once = some value) : v.current.value = value := by
  obtain ⟨current, next, reported, now⟩ := v
  cases reported with
  | none =>
      simp only [once, Option.ite_none_left_eq_some] at h
      exact Option.some.inj h.2
  | some reported =>
      simp only [once] at h
      split at h
      · exact Option.some.inj h
      · rw [Option.ite_none_right_eq_some] at h
        exact Option.some.inj h.2

namespace Tracker

variable {V : Type} [ChannelValue V] {N P : Nat} {t : Tracker N} {s : WeekSchedule V N P}
  {channel now : Nat} {value : V}

/-- What a tracker reports in single-shot mode is the value of the latest occurrence. -/
theorem exists_latestAt (hs : s.Ordered) (hmode : t.mode = .singleShot)
    (h : t.valueAt s channel (.ofTimeOfWeek now) = some value) :
    ∃ occurrence e, s.LatestAt channel now occurrence e ∧ e.value = value := by
  unfold valueAt at h
  split at h
  · cases h
  · obtain ⟨e, hcurrent, honce⟩ := Option.bind_eq_some_iff.mp h
    obtain ⟨occurrence, hlatest⟩ := WeekSchedule.exists_latestAt hs hcurrent
    rw [hmode] at honce
    exact ⟨occurrence, e, hlatest, ChannelView.value_of_once honce⟩

/-- **An occurrence that is reported lies after the last report.** -/
theorem lt_of_valueAt (hs : s.Ordered) (hmode : t.mode = .singleShot) {last : Nat}
    (htimes : t.times.get? channel = some (last % secondsPerWeek)) (hlast : last ≤ now)
    (h : t.valueAt s channel (.ofTimeOfWeek now) = some value) {occurrence : Int}
    {e : WeekEvent V} (hlatest : s.LatestAt channel now occurrence e) : last < occurrence := by
  -- counted from a week before, the occurrence does not lie before the first midnight
  have htimes' : t.times.get? channel =
      (some (last + secondsPerWeek)).map (· % secondsPerWeek) := by
    rw [htimes, Option.map_some, Nat.add_mod_right]
  rw [← WeekTime.ofTimeOfWeek_add_week] at h
  have hnew := ((valueAt_singleShot hs hmode htimes' hlatest.currentAt
    (fun moment hm => by cases hm; omega) value).mp h).2 0
  omega

end Tracker

namespace ScheduledOutputs

variable {σ : Type}

/-! ## 2. Edits of the schedule -/

/-- What may be done to the schedule between two updates. -/
inductive ScheduleEdit where
  /-- Adds a point. -/
  | insert (day : Day) (time : Nat) (channels : Channels Float32 outputChannels)
  /-- Takes out the point of a time. -/
  | remove (day : Day) (time : Nat)
  /-- Puts another schedule in its place, one that edits can build. -/
  | replace (schedule : LightSchedule) (built : schedule.Reachable)

/-- The outputs after an edit of their schedule. -/
def ScheduleEdit.apply :
    ScheduleEdit → ScheduledOutputs σ → Except ScheduleError (ScheduledOutputs σ)
  | insert day time channels, o => o.insert day time channels
  | remove day time, o => o.remove day time
  | replace schedule _, o => .ok (o.replaceSchedule schedule)

namespace ScheduleEdit

variable {o : ScheduledOutputs σ} {day : Day} {time : Nat} {schedule : LightSchedule}

theorem settle_insert {channels : Channels Float32 outputChannels}
    (h : o.schedule.insert day time channels = .ok schedule) :
    (settle o ((insert day time channels).apply o)).2 = o.replaceSchedule schedule := by
  rw [apply, ScheduledOutputs.insert, h]
  rfl

theorem settle_remove (h : o.schedule.remove day time = .ok schedule) :
    (settle o ((remove day time).apply o)).2 = o.replaceSchedule schedule := by
  rw [apply, ScheduledOutputs.remove, h]
  rfl

/-- An edit, refused or not, replaces the schedule by one that edits can build, and nothing else. -/
theorem settle_apply (edit : ScheduleEdit) (h : o.schedule.Reachable) :
    ∃ schedule : LightSchedule, schedule.Reachable ∧
      (settle o (edit.apply o)).2 = o.replaceSchedule schedule := by
  cases edit with
  | insert day time channels =>
      cases hi : o.schedule.insert day time channels with
      | ok schedule => exact ⟨schedule, h.insert day time channels hi, settle_insert hi⟩
      | error cause =>
          refine ⟨o.schedule, h, ?_⟩
          rw [apply, ScheduledOutputs.insert, hi]
          rfl
  | remove day time =>
      cases hr : o.schedule.remove day time with
      | ok schedule => exact ⟨schedule, h.remove day time hr, settle_remove hr⟩
      | error cause =>
          refine ⟨o.schedule, h, ?_⟩
          rw [apply, ScheduledOutputs.remove, hr]
          rfl
  | replace schedule built => exact ⟨schedule, built, rfl⟩

end ScheduleEdit

/-! ## 3. Runs -/

/-- What was offered at a tick, and the schedule it was taken from. -/
structure ScheduledTick extends TickRecord where
  schedule : LightSchedule

/-- At this tick the channel took the value of its latest event, which occurred at that moment. -/
def ScheduledTick.Applies (r : ScheduledTick) (channel : Nat) (occurrence : Int) : Prop :=
  ∃ e, r.schedule.LatestAt channel r.moment occurrence e ∧ ⟨channel, e.value, true⟩ ∈ r.offers

/-- The moments of the ticks never go back. -/
def InOrder (history : List ScheduledTick) : Prop := Ascending (history.map (·.toTickRecord))

section Running

variable [OutputSink σ]

/-- The outputs after updates at some moments and edits between them, with the records of the
updates, latest first. -/
inductive EditedRun (start : ScheduledOutputs (Recorder σ)) :
    List ScheduledTick → ScheduledOutputs (Recorder σ) → Prop where
  | start : EditedRun start [] start
  | edit {history : List ScheduledTick} {o : ScheduledOutputs (Recorder σ)} (edit : ScheduleEdit)
      (before : EditedRun start history o) : EditedRun start history (settle o (edit.apply o)).2
  | tick {history : List ScheduledTick} {o o' : ScheduledOutputs (Recorder σ)}
      {offers : List Offer} (moment : Nat) (time : Int) (before : EditedRun start history o)
      (updated : o.update ⟨time, some (.ofTimeOfWeek moment)⟩ = .ok o')
      (logged : o'.sink.offers = o.sink.offers ++ offers) :
      EditedRun start (⟨⟨moment, offers⟩, o.schedule⟩ :: history) o'

variable {start o o' : ScheduledOutputs (Recorder σ)} {history : List ScheduledTick}
  {offers : List Offer} {moment channel : Nat} {time : Int}

/-- The mode stays, and the schedule is always one that edits can build. -/
theorem EditedRun.frame (h : EditedRun start history o) (hschedule : start.schedule.Reachable) :
    o.schedule.Reachable ∧ o.mode = start.mode := by
  induction h with
  | start => exact ⟨hschedule, rfl⟩
  | edit edit before ih =>
      obtain ⟨schedule, hreachable, heq⟩ := edit.settle_apply ih.1
      rw [heq]
      exact ⟨hreachable, ih.2⟩
  | tick moment time before updated logged ih =>
      obtain ⟨hsame, hmode⟩ := tick_frame updated logged
      rw [hsame, hmode]
      exact ih

/-- **The time of a channel is the moment at which it last took a value, round the week**, whatever
edits come in between. -/
theorem EditedRun.times_eq (h : EditedRun start history o) (hschedule : start.schedule.Reachable)
    (channel : Nat) :
    o.tracker.times.get? channel =
      ((lastTaken channel (history.map (·.toTickRecord))).map (· % secondsPerWeek)).or
        (start.tracker.times.get? channel) := by
  induction h with
  | start => rfl
  | edit edit before ih =>
      obtain ⟨schedule, -, heq⟩ := edit.settle_apply (before.frame hschedule).1
      rw [heq]
      exact ih
  | tick moment time before updated logged ih => exact tick_times updated logged ih

/-! ## 4. At most once -/

/-- A channel that took a value at a tick took its last one then or later. -/
theorem exists_lastTaken {history : List TickRecord} (hascending : Ascending history)
    {r : TickRecord} (hr : r ∈ history) {f : Offer} (hf : f ∈ r.offers) (htaken : f.taken = true) :
    ∃ last, lastTaken f.channel history = some last ∧ r.moment ≤ last := by
  induction history with
  | nil => cases hr
  | cons s history ih =>
      rw [lastTaken]
      by_cases htook : ∃ g ∈ s.offers, g.channel = f.channel ∧ g.taken
      · rw [if_pos htook]
        refine ⟨s.moment, rfl, ?_⟩
        rcases List.mem_cons.mp hr with rfl | hr
        · exact Nat.le_refl _
        · exact List.rel_of_pairwise_cons hascending hr
      · rw [if_neg htook]
        rcases List.mem_cons.mp hr with rfl | hr
        · exact absurd ⟨f, hf, rfl, htaken⟩ htook
        · exact ih hascending.of_cons hr

/-- What a channel is offered at a tick is the value of its latest occurrence. -/
theorem EditedRun.exists_applies (before : EditedRun start history o)
    (hmode : start.mode = .singleShot) (hschedule : start.schedule.Reachable)
    (updated : o.update ⟨time, some (.ofTimeOfWeek moment)⟩ = .ok o')
    (logged : o'.sink.offers = o.sink.offers ++ offers) {f : Offer} (hf : f ∈ offers)
    (htaken : f.taken = true) :
    ∃ occurrence, ScheduledTick.Applies ⟨⟨moment, offers⟩, o.schedule⟩ f.channel occurrence := by
  obtain ⟨hreachable, hsame⟩ := before.frame hschedule
  obtain ⟨occurrence, e, hlatest, hvalue⟩ := Tracker.exists_latestAt hreachable.ordered
    (hsame.trans hmode) (tick_value updated logged hf)
  refine ⟨occurrence, e, hlatest, ?_⟩
  rw [hvalue, ← htaken]
  exact hf

/-- **A channel applies only what occurred after all ticks at which it took anything.** -/
theorem EditedRun.lt_of_applies (before : EditedRun start history o)
    (hmode : start.mode = .singleShot) (hschedule : start.schedule.Reachable)
    (updated : o.update ⟨time, some (.ofTimeOfWeek moment)⟩ = .ok o')
    (logged : o'.sink.offers = o.sink.offers ++ offers)
    (hascending : InOrder (⟨⟨moment, offers⟩, o.schedule⟩ :: history))
    {occurrence : Int}
    (happlies : ScheduledTick.Applies ⟨⟨moment, offers⟩, o.schedule⟩ channel occurrence)
    {r : ScheduledTick} (hr : r ∈ history) {f : Offer} (hf : f ∈ r.offers)
    (hchannel : f.channel = channel) (htaken : f.taken = true) : r.moment < occurrence := by
  obtain ⟨hreachable, hsame⟩ := before.frame hschedule
  obtain ⟨e, hlatest, hmem⟩ := happlies
  obtain ⟨last, hlast, hle⟩ :=
    exists_lastTaken hascending.of_cons (List.mem_map_of_mem hr) hf htaken
  rw [hchannel] at hlast
  have htimes : o.tracker.times.get? channel = some (last % secondsPerWeek) := by
    rw [before.times_eq hschedule, hlast, Option.map_some, Option.some_or]
  have hlt := Tracker.lt_of_valueAt hreachable.ordered (hsame.trans hmode) htimes
    (lastTaken_le hascending hlast) (tick_value updated logged hmem) hlatest
  omega

/-- **In single-shot mode a channel applies an occurrence at most once**, whatever is done to the
schedule between the ticks, whatever the times of the channels were in the beginning, and whatever
the sink refuses. All that a channel takes is the value of an occurrence, and it does not take one of
the same occurrence at another tick. -/
theorem EditedRun.applied_once (hrun : EditedRun start history o)
    (hmode : start.mode = .singleShot) (hschedule : start.schedule.Reachable)
    (hascending : InOrder history) :
    (∀ r ∈ history, ∀ f ∈ r.offers, f.taken = true →
      ∃ occurrence, r.Applies f.channel occurrence) ∧
    history.Pairwise fun later earlier => ∀ channel occurrence,
      earlier.Applies channel occurrence → ¬ later.Applies channel occurrence := by
  induction hrun with
  | start => exact ⟨fun r hr => absurd hr List.not_mem_nil, .nil⟩
  | edit edit before ih => exact ih hascending
  | tick moment time before updated logged ih =>
      obtain ⟨happlies, honce⟩ := ih hascending.of_cons
      refine ⟨fun r hr f hf htaken => ?_, List.pairwise_cons.mpr ⟨?_, honce⟩⟩
      · rcases List.mem_cons.mp hr with rfl | hr
        · exact before.exists_applies hmode hschedule updated logged hf htaken
        · exact happlies r hr f hf htaken
      · intro r hr channel occurrence hearlier hlater
        obtain ⟨e, hlatest, hmem⟩ := hearlier
        have hlt := before.lt_of_applies hmode hschedule updated logged hascending hlater hr hmem
          rfl rfl
        exact absurd hlatest.le (Int.not_le.mpr hlt)

end Running

/-- The point at eight is taken out after it was applied, and put in again with another value. A
minute after eight that value is the current one, but its occurrence was applied before. -/
theorem applied_once_weekly :
    ∃ r s o, EditedRun (weekly (Single.ofInt 10)) [s, r] o ∧
      (weekly (Single.ofInt 10)).mode = .singleShot ∧
      (weekly (Single.ofInt 10)).schedule.Reachable ∧ InOrder [s, r] ∧
      s.schedule.LatestAt 0 s.moment 115200 ⟨115200, Single.ofInt 20⟩ ∧
      r.Applies 0 115200 ∧ ¬ s.Applies 0 115200 := by
  have hfresh := fresh_weekly (Single.ofInt 10)
  have hcurrent : ∀ value moment, 115200 ≤ moment → moment < 720000 →
      (mondayMorning value).CurrentAt 0 moment 115200 ⟨115200, value⟩ := by
    intro value moment hle hlt
    exact @currentAt_mondayMorning value 0 moment hle hlt
  -- at eight the event is applied
  obtain ⟨o₁, offers₁, hupdate₁, hlog₁⟩ := exists_tick (weekly (Single.ofInt 10)) 115200 0
  have hunedited : Run _ _ o₁ := .tick 115200 0 .start hupdate₁ hlog₁
  have hcurrent₁ := hcurrent (Single.ofInt 10) 115200 (by decide) (by decide)
  have hmem := (hunedited.taken_iff hfresh (List.pairwise_singleton _ _) hcurrent₁
    (f := ⟨0, Single.ofInt 10, true⟩) rfl).mpr ⟨rfl, rfl, rfl⟩
  -- two edits lead to the same week with another value
  have hschedule₁ : o₁.schedule = mondayMorning (Single.ofInt 10) := hunedited.frame.1
  have hrun₁ : EditedRun (weekly (Single.ofInt 10))
      [⟨⟨115200, offers₁⟩, mondayMorning (Single.ofInt 10)⟩] o₁ :=
    .tick 115200 0 .start hupdate₁ hlog₁
  have hrun₂ := hrun₁.edit (.remove .monday 28800)
  rw [ScheduleEdit.settle_remove (hschedule₁ ▸ remove_mondayMorning _)] at hrun₂
  have hrun₃ := hrun₂.edit
    (.insert .monday 28800 ⟨[some (Single.ofInt 20), none, none, none], rfl⟩)
  rw [ScheduleEdit.settle_insert (insert_mondayMorning _)] at hrun₃
  -- a minute later the new value is current
  obtain ⟨o₂, offers₂, hupdate₂, hlog₂⟩ :=
    exists_tick ((o₁.replaceSchedule .empty).replaceSchedule (mondayMorning (Single.ofInt 20)))
      115260 0
  have hrun : EditedRun (weekly (Single.ofInt 10))
      [⟨⟨115260, offers₂⟩, mondayMorning (Single.ofInt 20)⟩,
        ⟨⟨115200, offers₁⟩, mondayMorning (Single.ofInt 10)⟩] o₂ :=
    .tick 115260 0 hrun₃ hupdate₂ hlog₂
  have hinOrder : InOrder [⟨⟨115260, offers₂⟩, mondayMorning (Single.ofInt 20)⟩,
      ⟨⟨115200, offers₁⟩, mondayMorning (Single.ofInt 10)⟩] :=
    List.pairwise_pair.mpr (show 115200 ≤ 115260 by decide)
  have happlied : ScheduledTick.Applies ⟨⟨115200, offers₁⟩, mondayMorning (Single.ofInt 10)⟩ 0
      115200 := ⟨_, WeekSchedule.latestAt_iff_currentAt.mpr hcurrent₁, hmem⟩
  have honce := (EditedRun.applied_once hrun rfl hfresh.schedule hinOrder).2
  refine ⟨_, _, o₂, hrun, rfl, hfresh.schedule, hinOrder, ?_, happlied, ?_⟩
  · exact WeekSchedule.latestAt_iff_currentAt.mpr
      (hcurrent (Single.ofInt 20) 115260 (by decide) (by decide))
  · exact List.rel_of_pairwise_cons honce List.mem_cons_self 0 115200 happlied

end ScheduledOutputs

end Aquarium

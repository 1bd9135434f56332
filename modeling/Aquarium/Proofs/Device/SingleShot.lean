import Aquarium.Proofs.Device.Recurrence

/-!
# The test for a report, in absolute seconds

In single-shot mode a tracker compares three seconds of the week: those of the event in effect, of
the last report of the channel, and of now. This file says what the outcome means for moments that
are not wrapped. They are counted in seconds from the midnight that began some week, and may lie
before it.

* `WeekEvent.LatestUpTo`: the latest occurrence of an event up to a moment;
* `ChannelView.once_iff_of_reported`: after a report that is less than a week old, the test asks
  whether that occurrence is later than the report;
* `ChannelView.once_iff_of_unreported`: without a report, whether it lies in the week of now;
* `Tracker.value_singleShot_iff`: the two together, for the value of a channel.
-/

namespace Aquarium

/-! ## 1. The latest occurrence of an event -/

/-- `occurrence` is the latest moment up to `now` whose second of the week is that of the event. -/
structure WeekEvent.LatestUpTo {V : Type} (e : WeekEvent V) (now occurrence : Int) : Prop where
  occurs : occurrence % secondsPerWeek = e.time
  le : occurrence ≤ now
  latest : ∀ other : Int, other % secondsPerWeek = e.time → other ≤ now → other ≤ occurrence

namespace WeekEvent

variable {V : Type} {e : WeekEvent V} {now occurrence : Int}

/-- It is less than a week old: a week later the event occurs again. -/
theorem LatestUpTo.lt (h : e.LatestUpTo now occurrence) : now < occurrence + secondsPerWeek := by
  refine Int.not_le.mp fun hle => ?_
  have hagain := h.latest (occurrence + secondsPerWeek)
    (by rw [Int.add_emod_right]; exact h.occurs) hle
  simp only [secondsPerWeek] at hagain
  omega

/-- Up to any moment an event has a latest occurrence. -/
theorem exists_latestUpTo (he : e.time < secondsPerWeek) (now : Int) :
    ∃ occurrence, e.LatestUpTo now occurrence := by
  refine ⟨now - (now - e.time) % secondsPerWeek, ?_, ?_, fun other hother hle => ?_⟩ <;>
    simp only [secondsPerWeek] at * <;> omega

end WeekEvent

/-! ## 2. The test -/

namespace ChannelView

variable {V : Type} {e : WeekEvent V} {next : Option (WeekEvent V)} {value : V}

/-- **After a report the event is reported again just if it has occurred since.** The report is less
than a week old; a report at the very second of the occurrence counts as one of it. -/
theorem once_iff_of_reported {now last occurrence : Int} (h : e.LatestUpTo now occurrence)
    (hle : last ≤ now) (hage : now - last < secondsPerWeek) :
    (ChannelView.mk e next (some (last % secondsPerWeek).toNat)
        (now % secondsPerWeek).toNat).once = some value ↔
      e.value = value ∧ last < occurrence := by
  have hoccurs := h.occurs
  have hpast := h.le
  have hlt := h.lt
  simp only [once]
  split
  · rename_i hnew
    have hsince : last < occurrence := by
      simp only [secondsPerWeek] at *
      omega
    rw [Option.some.injEq, and_iff_left hsince]
  · split
    · have hsince : last < occurrence := by
        simp only [secondsPerWeek] at *
        omega
      rw [Option.some.injEq, and_iff_left hsince]
    · have hsince : ¬ last < occurrence := by
        simp only [secondsPerWeek] at *
        omega
      exact iff_of_false (Option.some_ne_none _).symm fun h => hsince h.2

/-- **Without a report the event is reported just if it has occurred in this week.** -/
theorem once_iff_of_unreported {now : Nat} :
    (ChannelView.mk e next none now).once = some value ↔ e.value = value ∧ e.time ≤ now := by
  simp only [once]
  rw [Option.ite_none_left_eq_some, Nat.not_lt, Option.some.injEq, and_comm]

end ChannelView

/-! ## 3. The value of a channel -/

namespace Tracker

variable {V : Type} [ChannelValue V] {C P N : Nat} {t : Tracker N} {s : WeekSchedule V C P}
  {channel : Nat} {now : WeekTime} {value : V}

/-- In single-shot mode a channel has just the value of the event in effect, if that passes the
test. -/
theorem valueAt_eq_some_iff (hmode : t.mode = .singleShot) :
    t.valueAt s channel now = some value ↔ channel < N ∧
      ∃ e, s.current? channel now .allDays = some e ∧
        (ChannelView.mk e (s.next? channel now .allDays) (t.times.get? channel)
          now.position).once = some value := by
  unfold valueAt
  by_cases hc : N ≤ channel
  · rw [if_pos hc]
    exact iff_of_false nofun fun h => Nat.not_lt.mpr hc h.1
  · rw [if_neg hc, and_iff_right (Nat.not_le.mp hc), Option.bind_eq_some_iff, hmode]
    rfl

theorem lt_of_get?_times {second : Nat} (h : t.times.get? channel = some second) :
    channel < N := by
  refine Nat.not_le.mp fun hle => ?_
  rw [Slots.get?_eq_none_of_le t.times hle] at h
  cases h

/-- **The test on wrapped seconds is the comparison of moments.** It is `n` by absolute seconds, the
schedule is one that edits can build, and the mode is single shot. An evaluation does not fail.

A channel that reported last at `c`, which is not after now and less than a week ago, has a value
just if the latest occurrence of the event in effect is later than `c`. A channel that has reported
nothing has a value just if the second of the week of that event is not later than that of now. In
both cases it is the value of the event. -/
theorem value_singleShot_iff (hs : s.Reachable) (hmode : t.mode = .singleShot) (channel : Nat)
    (hv : now.Valid) {n : Int} (hn : n % secondsPerWeek = now.position) :
    ∃ answer, t.value s channel now = .ok answer ∧
      (∀ c : Int, t.times.get? channel = some (c % secondsPerWeek).toNat → c ≤ n →
        n - c < secondsPerWeek → ∀ value, answer = some value ↔
          ∃ e occurrence, s.current? channel now .allDays = some e ∧ e.value = value ∧
            e.LatestUpTo n occurrence ∧ c < occurrence) ∧
      (t.times.get? channel = none → ∀ value, answer = some value ↔ channel < N ∧
        ∃ e, s.current? channel now .allDays = some e ∧ e.value = value ∧
          e.time ≤ now.position) := by
  have hnow : now.position = (n % secondsPerWeek).toNat := by rw [hn, Int.toNat_natCast]
  refine ⟨_, t.value_eq s channel hv, fun c hc hle hage value => ?_, fun hnone value => ?_⟩
  · rw [valueAt_eq_some_iff hmode, and_iff_right (lt_of_get?_times hc), hc, hnow]
    refine exists_congr fun e => ?_
    constructor
    · rintro ⟨hcurrent, honce⟩
      have hmem := ((WeekSchedule.current?_eq_some_iff hs.ordered hv e).mp hcurrent).1
      obtain ⟨occurrence, hlatest⟩ :=
        WeekEvent.exists_latestUpTo (hs.ordered.event_time_lt hmem) n
      obtain ⟨hvalue, hsince⟩ := (ChannelView.once_iff_of_reported hlatest hle hage).mp honce
      exact ⟨occurrence, hcurrent, hvalue, hlatest, hsince⟩
    · rintro ⟨occurrence, hcurrent, hvalue, hlatest, hsince⟩
      exact ⟨hcurrent, (ChannelView.once_iff_of_reported hlatest hle hage).mpr ⟨hvalue, hsince⟩⟩
  · simp only [valueAt_eq_some_iff hmode, hnone, ChannelView.once_iff_of_unreported]

/-- The event of Monday at eight, a minute after it in the second week. It is reported by a channel
that reported last on Saturday at eleven in the evening, and not by one that reported at eight. On
Sunday a channel that has reported nothing does not report it: it is an event of the week before. -/
theorem value_singleShot_mondayMorning :
    (mondayMorning (Single.ofInt 10)).Reachable ∧ WeekTime.Valid ⟨.monday, 28860⟩ ∧
      WeekTime.Valid ⟨.sunday, 60⟩ ∧
      (⟨.singleShot, ⟨[some 601200], rfl⟩⟩ : Tracker 1).value (mondayMorning (Single.ofInt 10)) 0
        ⟨.monday, 28860⟩ = .ok (some (Single.ofInt 10)) ∧
      (⟨.singleShot, ⟨[some 115200], rfl⟩⟩ : Tracker 1).value (mondayMorning (Single.ofInt 10)) 0
        ⟨.monday, 28860⟩ = .ok none ∧
      (⟨.singleShot, ⟨[none], rfl⟩⟩ : Tracker 1).value (mondayMorning (Single.ofInt 10)) 0
        ⟨.sunday, 60⟩ = .ok none := by
  have hs := reachable_mondayMorning (Single.ofInt 10)
  have hmonday : WeekTime.Valid ⟨.monday, 28860⟩ := by decide
  have hsunday : WeekTime.Valid ⟨.sunday, 60⟩ := by decide
  have hcurrent : ∀ now : WeekTime, now.Valid → ∀ e,
      (mondayMorning (Single.ofInt 10)).current? 0 now .allDays = some e ↔
        e = ⟨115200, Single.ofInt 10⟩ := by
    intro now hv e
    rw [WeekSchedule.current?_eq_some_iff hs.ordered hv, ScheduledOutputs.events_mondayMorning,
      List.mem_singleton]
    refine and_iff_left_of_imp fun he f hf hne => absurd ?_ hne
    rw [List.mem_singleton.mp hf, he]
  have hlatest : WeekEvent.LatestUpTo ⟨115200, Single.ofInt 10⟩ 720060 720000 :=
    ⟨by decide, by decide, fun other ht hle => by simp only [secondsPerWeek] at ht; omega⟩
  refine ⟨hs, hmonday, hsunday, ?_, ?_, ?_⟩
  · obtain ⟨answer, hanswer, hreported, -⟩ :=
      value_singleShot_iff (t := ⟨.singleShot, ⟨[some 601200], rfl⟩⟩) hs rfl 0 hmonday
        (n := 720060) rfl
    rw [hanswer, (hreported 601200 rfl (by decide) (by decide) _).mpr
      ⟨_, 720000, (hcurrent _ hmonday _).mpr rfl, rfl, hlatest, by decide⟩]
  · obtain ⟨answer, hanswer, hreported, -⟩ :=
      value_singleShot_iff (t := ⟨.singleShot, ⟨[some 115200], rfl⟩⟩) hs rfl 0 hmonday
        (n := 720060) rfl
    rw [hanswer]
    refine congrArg _ (Option.eq_none_iff_forall_ne_some.mpr fun value h => ?_)
    obtain ⟨e, occurrence, he, -, hlast, hsince⟩ :=
      (hreported 720000 rfl (by decide) (by decide) value).mp h
    rw [(hcurrent _ hmonday e).mp he] at hlast
    have hle := hlatest.latest occurrence hlast.occurs hlast.le
    omega
  · obtain ⟨answer, hanswer, -, hunreported⟩ :=
      value_singleShot_iff (t := ⟨.singleShot, ⟨[none], rfl⟩⟩) hs rfl 0 hsunday (n := 60) rfl
    rw [hanswer]
    refine congrArg _ (Option.eq_none_iff_forall_ne_some.mpr fun value h => ?_)
    obtain ⟨-, e, he, -, hle⟩ := (hunreported rfl value).mp h
    rw [(hcurrent _ hsunday e).mp he] at hle
    exact absurd hle (by decide)

end Tracker

end Aquarium

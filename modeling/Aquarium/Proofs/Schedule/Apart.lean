import Aquarium.Proofs.Schedule.Maps
import Aquarium.Proofs.Schedule.Rebuilding
import Aquarium.Tracker
import Mathlib.Data.List.Sort

/-!
# Channels do not touch each other

All channels share the points of a day, so an edit that is not about a channel still moves the points
that the channel is searched in. What a day sets on a channel at each time tells its events, and such
an edit leaves that as it is.

* `setting?`, `Ordered.events_eq_iff`: what a day sets on a channel, and that it tells the events;
* `DayEdit.LeavesAlone`, `WeekEdit.LeavesAlone`: the edit neither brings nor takes a value of the
  channel;
* `DayEdit.events_apply`, `WeekEdit.sameEventsOn_apply`: the events that such an edit keeps;
* `Elsewhere`: edits and reports one after another, none of them about the channel;
* `Reachable.unmoved_of_elsewhere`: the main statement.
-/

namespace Aquarium

/-! ## 1. What a day sets on a channel -/

namespace DaySchedule

variable {V : Type} {C P : Nat} {channel : Nat}

/-- What a day sets on a channel at a time. -/
def setting? (d : DaySchedule V C P) (channel time : Nat) : Option V :=
  (d.find? time).bind (·.get? channel)

@[simp] theorem setting?_empty (channel time : Nat) :
    (empty : DaySchedule V C P).setting? channel time = none := by
  unfold setting?
  rw [(find?_eq_none_iff _ _).mpr (by simp)]
  rfl

namespace Ordered

variable {d d' : DaySchedule V C P}

theorem setting?_eq_some_iff (h : d.Ordered) {time : Nat} {value : V} :
    d.setting? channel time = some value ↔ ⟨time, value⟩ ∈ d.events channel := by
  unfold setting?
  rw [Option.bind_eq_some_iff, mem_events_iff]
  constructor
  · rintro ⟨channels, hfind, hvalue⟩
    exact ⟨_, h.find?_eq_some_iff.mp hfind, hvalue, rfl⟩
  · rintro ⟨p, hp, hvalue, rfl⟩
    exact ⟨p.channels, h.find?_eq_some_iff.mpr hp, hvalue⟩

/-- **Days in order have the same events of a channel just if they set the same on it at each time.** -/
theorem events_eq_iff (h : d.Ordered) (h' : d'.Ordered) :
    d.events channel = d'.events channel ↔
      ∀ time, d.setting? channel time = d'.setting? channel time := by
  constructor
  · intro hevents time
    refine Option.ext fun value => ?_
    rw [h.setting?_eq_some_iff, h'.setting?_eq_some_iff, hevents]
  · intro hsettings
    have hirrefl : Std.Irrefl fun e f : DayEvent V => e.time < f.time :=
      ⟨fun _ => Nat.lt_irrefl _⟩
    have hantisymm : Std.Antisymm fun e f : DayEvent V => e.time < f.time :=
      ⟨fun _ _ hef hfe => absurd hfe (Nat.lt_asymm hef)⟩
    refine (h.events_ascending channel).eq_of_mem_iff (h'.events_ascending channel) fun e => ?_
    rw [← h.setting?_eq_some_iff, ← h'.setting?_eq_some_iff, hsettings]

end Ordered

end DaySchedule

/-! ## 2. Edits that leave a channel alone -/

namespace DayEdit

variable {V : Type} {C P : Nat}

/-- The edit neither brings a value of the channel nor takes one away. -/
def LeavesAlone (channel : Nat) (d : DaySchedule V C P) : DayEdit V C → Prop
  | insert _ channels => channels.get? channel = none
  | remove time => d.setting? channel time = none
  | write _ other _ => channel ≠ other
  | clear => d.events channel = []

variable {channel : Nat} {d d' : DaySchedule V C P}

/-- **An edit that leaves a channel alone keeps what the day sets on it.** -/
theorem setting?_apply {edit : DayEdit V C} (h : d.Ordered) (halone : edit.LeavesAlone channel d)
    (e : edit.apply d = .ok d') (time : Nat) :
    d'.setting? channel time = d.setting? channel time := by
  cases edit with
  | insert new channels =>
      have hnone : channels.get? channel = none := halone
      have hinsert := apply_insert_eq_ok_iff.mp e
      have hfree : d.find? new = none :=
        (DaySchedule.find?_eq_none_iff d new).mpr (DaySchedule.insert_eq_ok_iff.mp hinsert).2.2.1
      unfold DaySchedule.setting?
      rw [h.find?_insert hinsert]
      by_cases ht : time = new
      · rw [if_pos ht, ht, hfree]
        exact hnone
      · rw [if_neg ht]
  | remove old =>
      have hnone : d.setting? channel old = none := halone
      have hremove := apply_remove_eq_ok_iff.mp e
      by_cases ht : time = old
      · rw [ht, hnone]
        unfold DaySchedule.setting?
        rw [h.find?_remove hremove, if_pos rfl]
        rfl
      · unfold DaySchedule.setting?
        rw [h.find?_remove hremove, if_neg ht]
  | write old other value =>
      have hother : channel ≠ other := halone
      unfold DaySchedule.setting?
      rw [h.find?_setValue (apply_write_eq_ok_iff.mp e)]
      split
      · cases d.find? time with
        | none => rfl
        | some channels => exact channels.get?_set_ne value hother
      · rfl
  | clear =>
      cases e
      have hnone : d.setting? channel time = none := by
        refine Option.eq_none_iff_forall_ne_some.mpr fun value hvalue => ?_
        rw [h.setting?_eq_some_iff, show d.events channel = [] from halone] at hvalue
        exact List.not_mem_nil hvalue
      rw [hnone]
      exact DaySchedule.setting?_empty channel time

/-- **An edit that leaves a channel alone keeps its events.** -/
theorem events_apply {edit : DayEdit V C} (h : d.Reachable) (halone : edit.LeavesAlone channel d)
    (e : edit.apply d = .ok d') : d'.events channel = d.events channel :=
  ((reachable_apply edit d d' h e).ordered.events_eq_iff h.ordered).mpr
    (setting?_apply h.ordered halone e)

end DayEdit

namespace WeekEdit

variable {V : Type} {C P : Nat}

/-- The edit neither brings a value of the channel nor takes one away. -/
def LeavesAlone (channel : Nat) (s : WeekSchedule V C P) : WeekEdit V C → Prop
  | insert d time channels => (DayEdit.insert time channels).LeavesAlone channel (s.day d)
  | remove d time => (DayEdit.remove time).LeavesAlone channel (s.day d)
  | onDay d edit => edit.LeavesAlone channel (s.day d)
  | copy d edits => (s.day d).events channel = [] ∧
      (DayEdit.build edits : DaySchedule V C P).events channel = []
  | clear => ∀ d, (s.day d).events channel = []

variable {channel : Nat} {s s' : WeekSchedule V C P}

theorem sameEventsOn_setDay {d : Day} {points : DaySchedule V C P}
    (h : points.events channel = (s.day d).events channel) :
    WeekSchedule.SameEventsOn channel (s.setDay d points) s := by
  intro e
  rw [WeekSchedule.day_setDay]
  split
  · rename_i he
    rw [he, h]
  · rfl

theorem sameEventsOn_editDay {named : Option Day} {d : Day} {edit : DayEdit V C} (h : s.Reachable)
    (halone : edit.LeavesAlone channel (s.day d)) (e : editDay named d edit s = .ok s') :
    WeekSchedule.SameEventsOn channel s' s := by
  unfold editDay at e
  cases hedit : edit.apply (s.day d) with
  | error cause => rw [hedit] at e; cases e
  | ok points =>
      rw [hedit] at e
      cases e
      exact sameEventsOn_setDay (DayEdit.events_apply (h.day d) halone hedit)

/-- **An edit of the week that leaves a channel alone keeps its events on every day.** -/
theorem sameEventsOn_apply {edit : WeekEdit V C} (h : s.Reachable)
    (halone : edit.LeavesAlone channel s) (e : edit.apply s = .ok s') :
    WeekSchedule.SameEventsOn channel s' s := by
  cases edit with
  | insert d time channels =>
      have hday : (DayEdit.insert time channels).LeavesAlone channel (s.day d) := halone
      rw [apply_insert] at e
      exact sameEventsOn_editDay h hday e
  | remove d time =>
      have hday : (DayEdit.remove time).LeavesAlone channel (s.day d) := halone
      rw [apply_remove] at e
      exact sameEventsOn_editDay h hday e
  | onDay d edit => exact sameEventsOn_editDay h halone e
  | copy d edits =>
      obtain ⟨hold, hnew⟩ := halone
      cases e
      exact sameEventsOn_setDay (hnew.trans hold.symm)
  | clear =>
      cases e
      intro d
      rw [show (s.day d).events channel = [] from halone d, WeekSchedule.clear,
        WeekSchedule.day_empty]
      unfold DaySchedule.events
      rw [DaySchedule.toList_empty, List.filterMap_nil]

end WeekEdit

/-! ## 3. Edits and reports elsewhere -/

/-- What edits of a week and reports to a tracker lead to, none of them about the channel. An edit that
is refused changes nothing and is left out. -/
inductive Elsewhere {V : Type} {C P N : Nat} (channel : Nat) (s : WeekSchedule V C P)
    (t : Tracker N) : WeekSchedule V C P → Tracker N → Prop where
  | start : Elsewhere channel s t s t
  | edit {s₁ s₂ : WeekSchedule V C P} {t₁ : Tracker N} (edit : WeekEdit V C)
      (h : Elsewhere channel s t s₁ t₁) (halone : edit.LeavesAlone channel s₁)
      (e : edit.apply s₁ = .ok s₂) : Elsewhere channel s t s₂ t₁
  | report {s₁ : WeekSchedule V C P} {t₁ t₂ : Tracker N} (other : Nat) (now : WeekTime)
      {done : Bool} (h : Elsewhere channel s t s₁ t₁) (hother : channel ≠ other)
      (e : t₁.stamp other now = .ok (done, t₂)) : Elsewhere channel s t s₁ t₂

namespace Tracker

variable {V : Type} {C P N : Nat}

/-- A report of another channel shows in nothing that this one is evaluated by. -/
theorem stamp_frame {t t' : Tracker N} {channel other : Nat} {now : WeekTime} {done : Bool}
    (hother : channel ≠ other) (e : t.stamp other now = .ok (done, t')) :
    t'.mode = t.mode ∧ t'.times.get? channel = t.times.get? channel := by
  unfold stamp at e
  split at e
  · cases hsecond : now.timeOfWeek with
    | error fault => rw [hsecond] at e; cases e
    | ok second =>
        rw [hsecond] at e
        cases e
        exact ⟨rfl, t.times.get?_set_ne _ hother⟩
  · cases e
    exact ⟨rfl, rfl⟩

/-- **The value of a channel comes from the mode, its own last report and its own events.** -/
theorem value_congr [ChannelValue V] {t t' : Tracker N} {s s' : WeekSchedule V C P} {channel : Nat}
    (hmode : t'.mode = t.mode) (htime : t'.times.get? channel = t.times.get? channel)
    (hevents : WeekSchedule.SameEventsOn channel s' s) (now : WeekTime) :
    t'.value s' channel now = t.value s channel now := by
  unfold value view?
  rw [hevents.current?_eq, hevents.next?_eq, htime, hmode]

end Tracker

namespace WeekSchedule

variable {V : Type} {C P N : Nat} {channel : Nat} {s s' : WeekSchedule V C P} {t t' : Tracker N}

/-- **What is done elsewhere keeps all that a channel is evaluated by.** -/
theorem Reachable.elsewhere (hs : s.Reachable) (h : Elsewhere channel s t s' t') :
    s'.Reachable ∧ SameEventsOn channel s' s ∧ t'.mode = t.mode ∧
      t'.times.get? channel = t.times.get? channel := by
  induction h with
  | start => exact ⟨hs, fun _ => rfl, rfl, rfl⟩
  | edit edit _ halone e ih =>
      obtain ⟨hreach, hevents, hmode, htime⟩ := ih
      have hkept := WeekEdit.sameEventsOn_apply hreach halone e
      exact ⟨edit.reachable_apply _ _ hreach e, fun d => (hkept d).trans (hevents d), hmode, htime⟩
  | report other now _ hother e ih =>
      obtain ⟨hreach, hevents, hmode, htime⟩ := ih
      obtain ⟨hmode', htime'⟩ := Tracker.stamp_frame hother e
      exact ⟨hreach, hevents, hmode'.trans hmode, htime'.trans htime⟩

/-- **Channels do not touch each other.** After any edits of a reachable week and any reports to a
tracker, none of them about the channel:

* every search finds the same current and next event of the channel, at every time, on the day and
  round the week;
* so do the first, the last, the current and the next event of the channel on each day;
* every tracker gives the channel the same value in the two weeks, at every time;
* the tracker with the reports in it gives the channel the same value as the one without. -/
theorem Reachable.unmoved_of_elsewhere [ChannelValue V] (hs : s.Reachable)
    (h : Elsewhere channel s t s' t') :
    (∀ now search, s'.current? channel now search = s.current? channel now search ∧
      s'.next? channel now search = s.next? channel now search) ∧
    (∀ d, (s'.day d).first? channel = (s.day d).first? channel ∧
      (s'.day d).last? channel = (s.day d).last? channel ∧
      ∀ time, (s'.day d).current? channel time = (s.day d).current? channel time ∧
        (s'.day d).next? channel time = (s.day d).next? channel time) ∧
    (∀ {M : Nat} (u : Tracker M) now, u.value s' channel now = u.value s channel now) ∧
    ∀ now, t'.value s' channel now = t.value s channel now := by
  obtain ⟨-, hevents, hmode, htime⟩ := hs.elsewhere h
  refine ⟨fun now search => ⟨hevents.current?_eq now search, hevents.next?_eq now search⟩,
    fun d => ⟨?_, ?_, fun time => ⟨?_, ?_⟩⟩, fun u now => Tracker.value_congr rfl rfl hevents now,
    fun now => Tracker.value_congr hmode htime hevents now⟩
  · rw [DaySchedule.first?_eq, DaySchedule.first?_eq, hevents]
  · rw [DaySchedule.last?_eq, DaySchedule.last?_eq, hevents]
  · rw [DaySchedule.current?_eq, DaySchedule.current?_eq, hevents]
  · rw [DaySchedule.next?_eq, DaySchedule.next?_eq, hevents]

/-- A day of two channels with a point for both, at eight. -/
def eightOClock : DaySchedule UInt8 2 3 :=
  ⟨⟨[some ⟨28800, ⟨[some 10, some 20], rfl⟩⟩, none, none], rfl⟩⟩

/-- A week with that day as its Monday, and a point for the second channel alone at ten. -/
def twoLamps : WeekSchedule UInt8 2 3 :=
  empty.setDay .monday ⟨⟨[some ⟨28800, ⟨[some 10, some 20], rfl⟩⟩,
    some ⟨36000, ⟨[none, some 30], rfl⟩⟩, none], rfl⟩⟩

theorem reachable_twoLamps : twoLamps.Reachable :=
  .insert .monday 36000 ⟨[none, some 30], rfl⟩
    (.insert .monday 28800 ⟨[some 10, some 20], rfl⟩ .empty (by rfl)) (by cbv)

theorem remove_twoLamps : twoLamps.remove .monday 36000 = .ok (empty.setDay .monday eightOClock) := by
  have hday : (twoLamps.day .monday).remove 36000 = .ok eightOClock.sorted := rfl
  have hsorted : eightOClock.sorted = eightOClock := by cbv
  simp only [remove, edit, hday, hsorted]
  rfl

/-- The same week with other points and values of the second channel. -/
def secondLampMoved : WeekSchedule UInt8 2 3 :=
  empty.setDay .monday ⟨⟨[some ⟨25200, ⟨[none, some 5], rfl⟩⟩,
    some ⟨28800, ⟨[some 10, none], rfl⟩⟩, none], rfl⟩⟩

/-- Each event once; the first channel reported before eight on Monday. -/
def earlyReport : Tracker 2 := ⟨.singleShot, ⟨[some 100000, none], rfl⟩⟩

/-- The second channel reported at nine, too. -/
def bothReports : Tracker 2 := ⟨.singleShot, ⟨[some 100000, some 118800], rfl⟩⟩

/-- A point of the second channel is taken out and another brought in before the one of the first
channel, a value of the second is taken back, and the second reports: the first is still due at nine. -/
theorem unmoved_of_elsewhere_secondLamp :
    twoLamps.Reachable ∧ Elsewhere 0 twoLamps earlyReport secondLampMoved bothReports ∧
      (secondLampMoved.day .monday).next? 0 25200 = some ⟨28800, 10⟩ ∧
      bothReports.value secondLampMoved 0 ⟨.monday, 32400⟩ = .ok (some 10) := by
  have hremoved : Elsewhere 0 twoLamps earlyReport (empty.setDay .monday eightOClock) earlyReport :=
    .edit (.remove .monday 36000) .start (by rfl) (by rw [WeekEdit.apply, remove_twoLamps]; rfl)
  have hinserted : Elsewhere 0 twoLamps earlyReport
      (empty.setDay .monday ⟨⟨[some ⟨25200, ⟨[none, some 5], rfl⟩⟩,
        some ⟨28800, ⟨[some 10, some 20], rfl⟩⟩, none], rfl⟩⟩) earlyReport :=
    .edit (.insert .monday 25200 ⟨[none, some 5], rfl⟩) hremoved (by rfl) (by cbv)
  have hwritten : Elsewhere 0 twoLamps earlyReport secondLampMoved earlyReport :=
    .edit (.onDay .monday (.write 28800 1 none)) hinserted (show 0 ≠ 1 by decide) (by rfl)
  have hreported : Elsewhere 0 twoLamps earlyReport secondLampMoved bothReports :=
    .report 1 ⟨.monday, 32400⟩ hwritten (by decide) (by rfl)
  obtain ⟨-, hday, -, hvalue⟩ := Reachable.unmoved_of_elsewhere reachable_twoLamps hreported
  refine ⟨reachable_twoLamps, hreported, ?_, ?_⟩
  · rw [((hday .monday).2.2 25200).2]
    rfl
  · rw [hvalue]
    rfl

end WeekSchedule

end Aquarium

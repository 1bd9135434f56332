import Aquarium.Proofs.Schedule.Entries
import Aquarium.Proofs.Schedule.Points
import Aquarium.Proofs.Schedule.Search
import Mathlib.Data.List.Basic

/-!
# A schedule that went through its entries

A point that sets nothing has no entry. A schedule that is built again from its entries may therefore
lack points of the schedule before, but it lacks no event, and events are all that a search can see.

* `SameEventsOn`: two weeks have the same events of a channel on every day; `SameEvents`: and of every
  channel;
* `SameEventsOn.current?_eq`, `SameEventsOn.next?_eq`: such weeks answer every search of the channel
  alike;
* `filterMap_event?_sets`: points that set nothing show no event;
* `Reachable.rebuilt_spec`: the main statement.
-/

namespace Aquarium

namespace WeekSchedule

variable {V : Type} {C P : Nat}

/-! ## 1. Events are all that a search sees -/

/-- On every day the two weeks have the same events of the channel. -/
def SameEventsOn (channel : Nat) (s t : WeekSchedule V C P) : Prop :=
  ∀ d, (s.day d).events channel = (t.day d).events channel

namespace SameEventsOn

variable {s t : WeekSchedule V C P} {channel : Nat}

/-- Weeks with the same events of a channel have the same current event of it, at every time and
however far the search goes. -/
theorem current?_eq (h : SameEventsOn channel s t) (now : WeekTime) (search : DaySearch) :
    s.current? channel now search = t.current? channel now search := by
  have hday : (s.day now.day).current? channel now.time =
      (t.day now.day).current? channel now.time := by
    rw [DaySchedule.current?_eq, DaySchedule.current?_eq, h]
  have hlast : (fun d => (s.day d).last? channel) = fun d => (t.day d).last? channel := by
    funext d
    rw [DaySchedule.last?_eq, DaySchedule.last?_eq, h]
  unfold current?
  rw [hday, hlast]

/-- Weeks with the same events of a channel have the same next event of it. -/
theorem next?_eq (h : SameEventsOn channel s t) (now : WeekTime) (search : DaySearch) :
    s.next? channel now search = t.next? channel now search := by
  have hday : (s.day now.day).next? channel now.time =
      (t.day now.day).next? channel now.time := by
    rw [DaySchedule.next?_eq, DaySchedule.next?_eq, h]
  have hfirst : (fun d => (s.day d).first? channel) = fun d => (t.day d).first? channel := by
    funext d
    rw [DaySchedule.first?_eq, DaySchedule.first?_eq, h]
  unfold next?
  rw [hday, hfirst]

end SameEventsOn

/-- On every day and channel the two weeks have the same events. -/
def SameEvents (s t : WeekSchedule V C P) : Prop :=
  ∀ d channel, (s.day d).events channel = (t.day d).events channel

namespace SameEvents

variable {s t : WeekSchedule V C P}

theorem on (h : s.SameEvents t) (channel : Nat) : SameEventsOn channel s t := fun d => h d channel

theorem current?_eq (h : s.SameEvents t) (channel : Nat) (now : WeekTime) (search : DaySearch) :
    s.current? channel now search = t.current? channel now search :=
  (h.on channel).current?_eq now search

theorem next?_eq (h : s.SameEvents t) (channel : Nat) (now : WeekTime) (search : DaySearch) :
    s.next? channel now search = t.next? channel now search :=
  (h.on channel).next?_eq now search

end SameEvents

/-! ## 2. Points that set nothing -/

theorem sets_eq_true_iff {p : TimePoint V C} :
    sets p = true ↔ ∃ channel value, p.channels.get? channel = some value := by
  simp only [← Slots.mem_indexed_iff]
  unfold sets
  rw [← Slots.map_snd_indexed]
  rw [Bool.not_eq_true', List.isEmpty_eq_false_iff_exists_mem]
  constructor
  · rintro ⟨value, hvalue⟩
    obtain ⟨⟨channel, value⟩, hx, rfl⟩ := List.mem_map.mp hvalue
    exact ⟨channel, value, hx⟩
  · rintro ⟨channel, value, hx⟩
    exact ⟨value, List.mem_map_of_mem hx⟩

/-- A point that sets nothing is no event of any channel. -/
theorem event?_eq_none_of_sets {p : TimePoint V C} (h : sets p = false) (channel : Nat) :
    p.event? channel = none := by
  cases he : p.event? channel with
  | none => rfl
  | some e =>
      have hsets : sets p = true :=
        sets_eq_true_iff.mpr ⟨channel, e.value, (DaySchedule.event?_eq_some_iff.mp he).1⟩
      rw [h] at hsets
      cases hsets

/-- Leaving out the points that set nothing leaves out no event. -/
theorem filterMap_event?_sets (points : List (TimePoint V C)) (channel : Nat) :
    (points.filter sets).filterMap (·.event? channel) = points.filterMap (·.event? channel) := by
  rw [List.filterMap_filter]
  refine List.filterMap_congr fun p _ => ?_
  by_cases hsets : sets p = true
  · rw [if_pos hsets]
  · rw [if_neg hsets, event?_eq_none_of_sets (Bool.eq_false_iff.mpr hsets)]

/-! ## 3. The rebuilt schedule -/

/-- **Going through its entries a schedule loses nothing that a search can see.** Its entries can
always be taken up, the schedule they build answers every search as the one before, and it has the
same points just if every point of the schedule before sets some channel: then it is that schedule. -/
theorem Reachable.rebuilt_spec {s : WeekSchedule V C P} (hs : s.Reachable) :
    ∃ t : WeekSchedule V C P, ofEntries s.entries = .ok t ∧
      (∀ channel now search, t.current? channel now search = s.current? channel now search ∧
        t.next? channel now search = s.next? channel now search) ∧
      ((∀ d, (t.day d).toList = (s.day d).toList) ↔
        ∀ d, ∀ p ∈ (s.day d).toList, ∃ channel value, p.channels.get? channel = some value) ∧
      (t = s ↔
        ∀ d, ∀ p ∈ (s.day d).toList, ∃ channel value, p.channels.get? channel = some value) := by
  obtain ⟨t, hload, hdays⟩ := hs.ordered.exists_rebuilt
  have hevents : t.SameEvents s := by
    intro d channel
    unfold DaySchedule.events
    rw [hdays d, filterMap_event?_sets]
  have hpoints : (∀ d, (t.day d).toList = (s.day d).toList) ↔
      ∀ d, ∀ p ∈ (s.day d).toList, ∃ channel value, p.channels.get? channel = some value := by
    simp only [hdays, List.filter_eq_self, sets_eq_true_iff]
  have hsame : t = s ↔ ∀ d, (t.day d).toList = (s.day d).toList := by
    constructor
    · rintro rfl d
      rfl
    · intro h
      refine ext_day fun d => ?_
      refine ((ofEntries_reachable hload).day d).eq_of_mem_iff (hs.day d) fun p => ?_
      rw [h d]
  refine ⟨t, hload, fun channel now search => ⟨?_, ?_⟩, hpoints, hsame.trans hpoints⟩
  · exact hevents.current?_eq channel now search
  · exact hevents.next?_eq channel now search

/-- On Wednesday at noon a point that sets something, and an hour later one that does not. -/
def silentPoint : WeekSchedule Int 1 2 :=
  empty.setDay .wednesday
    ⟨⟨[some ⟨43200, Slots.empty.set 0 (some 3)⟩, some ⟨46800, Slots.empty⟩], rfl⟩⟩

theorem reachable_silentPoint : silentPoint.Reachable :=
  .insert .wednesday 46800 ⟨[none], rfl⟩ reachable_wednesdayNoon (by cbv)

/-- The later point is lost, and the event of the earlier one is found as before. -/
theorem rebuilt_spec_silentPoint :
    silentPoint.Reachable ∧ ∃ t, ofEntries silentPoint.entries = .ok t ∧ t ≠ silentPoint ∧
      t.current? 0 ⟨.wednesday, 46800⟩ .thisDay = some ⟨302400, 3⟩ := by
  obtain ⟨t, hload, hsearch, -, hsame⟩ := Reachable.rebuilt_spec reachable_silentPoint
  refine ⟨reachable_silentPoint, t, hload, fun heq => ?_, ?_⟩
  · have hlast : ⟨46800, ⟨[none], rfl⟩⟩ ∈ (silentPoint.day .wednesday).toList :=
      List.mem_cons_of_mem _ List.mem_cons_self
    have hsets := sets_eq_true_iff.mpr (hsame.mp heq .wednesday _ hlast)
    exact Bool.false_ne_true hsets
  · rw [(hsearch 0 ⟨.wednesday, 46800⟩ .thisDay).1]
    rfl

end WeekSchedule

end Aquarium

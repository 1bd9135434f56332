import Aquarium.Proofs.Schedule.Day
import Aquarium.Schedule.WeekSchedule
import Mathlib.Data.List.Pairwise

/-!
# Weeks built by edits, and their events

A week is in order when each of its days is. This file says which weeks edits can build
(`WeekSchedule.Reachable`), that all of them are in order (`Reachable.ordered`), and what the events
of a channel are: one for each point that sets the channel, on the day itself
(`DaySchedule.events`, ascending in time) and in the week (`WeekSchedule.events`).
-/

namespace Aquarium

/-! ## 1. The events of a day -/

namespace DaySchedule

variable {V : Type} {C P : Nat}

/-- The events of a channel on a day. -/
def events (d : DaySchedule V C P) (channel : Nat) : List (DayEvent V) :=
  d.toList.filterMap (·.event? channel)

theorem event?_eq_some_iff {p : TimePoint V C} {channel : Nat} {e : DayEvent V} :
    p.event? channel = some e ↔ p.channels.get? channel = some e.value ∧ e.time = p.time := by
  unfold TimePoint.event?
  rw [Option.map_eq_some_iff]
  constructor
  · rintro ⟨v, hv, rfl⟩
    exact ⟨hv, rfl⟩
  · rintro ⟨hv, ht⟩
    exact ⟨e.value, hv, by rw [← ht]⟩

theorem mem_events_iff {d : DaySchedule V C P} {channel : Nat} {e : DayEvent V} :
    e ∈ d.events channel ↔
      ∃ p ∈ d.toList, p.channels.get? channel = some e.value ∧ e.time = p.time := by
  unfold events
  rw [List.mem_filterMap]
  simp only [event?_eq_some_iff]

/-- No point sets a channel that does not exist. -/
theorem events_eq_nil_of_le (d : DaySchedule V C P) {channel : Nat} (h : C ≤ channel) :
    d.events channel = [] := by
  refine List.eq_nil_iff_forall_not_mem.mpr fun e he => ?_
  obtain ⟨p, _, hv, _⟩ := mem_events_iff.mp he
  rw [Slots.get?_eq_none_of_le _ h] at hv
  cases hv

namespace Ordered

variable {d : DaySchedule V C P}

theorem events_ascending (h : d.Ordered) (channel : Nat) :
    (d.events channel).Pairwise fun e f => e.time < f.time := by
  refine List.Pairwise.filterMap _ ?_ h.ascending
  intro p q hpq e he f hf
  rw [(event?_eq_some_iff.mp he).2, (event?_eq_some_iff.mp hf).2]
  exact hpq

theorem event_within (h : d.Ordered) {channel : Nat} {e : DayEvent V}
    (he : e ∈ d.events channel) : e.time < secondsPerDay := by
  obtain ⟨p, hp, _, ht⟩ := mem_events_iff.mp he
  rw [ht]
  exact h.within p hp

/-- The time of an event tells it from the others of its channel and day. -/
theorem event_eq_of_time_eq (h : d.Ordered) {channel : Nat} {e f : DayEvent V}
    (he : e ∈ d.events channel) (hf : f ∈ d.events channel) (ht : e.time = f.time) : e = f := by
  have hsymm : Std.Symm fun e f : DayEvent V => e.time ≠ f.time := ⟨fun _ _ h => Ne.symm h⟩
  refine Classical.byContradiction fun hne => ?_
  exact ((h.events_ascending channel).imp Nat.ne_of_lt).forall he hf hne ht

end Ordered

end DaySchedule

/-! ## 2. The events of the week -/

namespace WeekSchedule

variable {V : Type} {C P : Nat}

/-- Every event of a channel in the week. -/
def events (s : WeekSchedule V C P) (channel : Nat) : List (WeekEvent V) :=
  Day.all.flatMap fun d => ((s.day d).events channel).map (atDay d)

theorem mem_events_iff {s : WeekSchedule V C P} {channel : Nat} {e : WeekEvent V} :
    e ∈ s.events channel ↔ ∃ d, ∃ x ∈ (s.day d).events channel, e = atDay d x := by
  unfold events
  rw [List.mem_flatMap]
  constructor
  · rintro ⟨d, -, he⟩
    obtain ⟨x, hx, rfl⟩ := List.mem_map.mp he
    exact ⟨d, x, hx, rfl⟩
  · rintro ⟨d, x, hx, rfl⟩
    exact ⟨d, Day.mem_all d, List.mem_map_of_mem hx⟩

theorem events_eq_nil_of_le (s : WeekSchedule V C P) {channel : Nat} (h : C ≤ channel) :
    s.events channel = [] := by
  refine List.eq_nil_iff_forall_not_mem.mpr fun e he => ?_
  obtain ⟨d, x, hx, -⟩ := mem_events_iff.mp he
  rw [DaySchedule.events_eq_nil_of_le _ h] at hx
  exact List.not_mem_nil hx

/-! ## 3. Weeks built by edits -/

/-- Every day is in order. -/
def Ordered (s : WeekSchedule V C P) : Prop := ∀ d, (s.day d).Ordered

/-- An edit of one day gives the week with that day edited, or an error that names the day. -/
theorem edit_eq_ok_iff {s s' : WeekSchedule V C P} {d : Day}
    {f : DaySchedule V C P → Except Refusal (DaySchedule V C P)} :
    s.edit d f = .ok s' ↔ ∃ points, f (s.day d) = .ok points ∧ s' = s.setDay d points := by
  unfold edit
  cases f (s.day d) with
  | error cause => simp
  | ok points => simp [eq_comm]

theorem Ordered.setDay {s : WeekSchedule V C P} (h : s.Ordered) (d : Day)
    {points : DaySchedule V C P} (hp : points.Ordered) : (s.setDay d points).Ordered := by
  intro e
  rw [day_setDay]
  split
  · exact hp
  · exact h e

theorem ordered_empty : (empty : WeekSchedule V C P).Ordered := by
  intro d
  rw [day_empty]
  exact DaySchedule.Ordered.empty

/-- A week that edits can build, starting from no points: points are added and taken out, days are
replaced by days built the same way, values are written, and days or the whole week are cleared. An
edit that is refused changes nothing and is left out. -/
inductive Reachable : WeekSchedule V C P → Prop where
  | empty : Reachable empty
  | insert {s s' : WeekSchedule V C P} (d : Day) (time : Nat) (channels : Channels V C)
      (h : Reachable s) (e : s.insert d time channels = .ok s') : Reachable s'
  | remove {s s' : WeekSchedule V C P} (d : Day) (time : Nat)
      (h : Reachable s) (e : s.remove d time = .ok s') : Reachable s'
  | setDay {s : WeekSchedule V C P} (d : Day) {points : DaySchedule V C P}
      (h : Reachable s) (hp : points.Reachable) : Reachable (s.setDay d points)
  | setValue {s : WeekSchedule V C P} (d : Day) (time channel : Nat) (value : Option V)
      {points : DaySchedule V C P} (h : Reachable s)
      (e : (s.day d).setValue? time channel value = some points) : Reachable (s.setDay d points)
  | clearDay {s : WeekSchedule V C P} (d : Day) (h : Reachable s) :
      Reachable (s.setDay d (s.day d).clear)
  | clear {s : WeekSchedule V C P} (h : Reachable s) : Reachable s.clear

/-- **Every week that edits can build is in order.** -/
theorem Reachable.ordered {s : WeekSchedule V C P} (h : s.Reachable) : s.Ordered := by
  induction h with
  | empty => exact ordered_empty
  | insert d time channels _ e ih =>
      obtain ⟨points, hp, rfl⟩ := edit_eq_ok_iff.mp e
      exact ih.setDay d ((ih d).insert hp)
  | remove d time _ e ih =>
      obtain ⟨points, hp, rfl⟩ := edit_eq_ok_iff.mp e
      exact ih.setDay d ((ih d).remove hp)
  | setDay d _ hp ih => exact ih.setDay d hp.ordered
  | setValue d time channel value _ e ih => exact ih.setDay d ((ih d).setValue e)
  | clearDay d _ ih => exact ih.setDay d DaySchedule.Ordered.empty
  | clear _ _ => exact ordered_empty

end WeekSchedule

end Aquarium

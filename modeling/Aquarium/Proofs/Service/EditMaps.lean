import Aquarium.Proofs.Schedule.Maps
import Aquarium.Proofs.Service.Stages

/-!
# Edits of requests on the maps of a week

The schedule in memory stands for seven finite maps. On these the checks that an edit of a request
has to pass stand plainly one after another, and behind the last of them what the edit asks for.

* `WeekSchedule.maps_insert`, `WeekSchedule.maps_remove`: a point more or less, on a week and on its
  maps;
* `channelValues_eq`: channels that a request leaves out are not set;
* `Edit.onMaps`, `Edit.apply_refines`: an edit does the same to the outputs and to the maps of their
  schedule, and is refused for the same cause;
* `Edit.Makes`, `Makes.unique`: what an edit asks for, and that this is one state of the outputs.
-/

namespace Aquarium

/-! ## 1. One point more, one point less -/

namespace WeekMaps

variable {V : Type} {C : Nat}

/-- A point more on a day. There is room for `P` points a day. -/
def insert (P : Nat) (m : WeekMaps V C) (d : Day) (time : Nat) (channels : Channels V C) :
    Except ScheduleError (WeekMaps V C) :=
  if secondsPerDay ≤ time then .error ⟨some d, .invalidTime time⟩
  else if (m d).keys.card = P then .error ⟨some d, .dayFull⟩
  else if time ∈ m d then .error ⟨some d, .duplicateTime time⟩
  else .ok (Function.update m d ((m d).insert time channels))

/-- A point less on a day. -/
def remove (m : WeekMaps V C) (d : Day) (time : Nat) : Except ScheduleError (WeekMaps V C) :=
  if time ∈ m d then .ok (Function.update m d ((m d).erase time))
  else .error ⟨some d, .timeNotFound time⟩

end WeekMaps

/-- Causes that are all given come back as they were. -/
theorem map_eq_of_mapError_some {ε α β : Type} {x : Except ε α} {y : Except ε β} {f : α → β}
    (h : (x.mapError some).map f = y.mapError some) : x.map f = y := by
  cases x <;> cases y <;> cases h <;> rfl

namespace WeekSchedule

variable {V : Type} {C P : Nat} {s : WeekSchedule V C P}

theorem maps_insert (hs : s.Reachable) (d : Day) (time : Nat) (channels : Channels V C) :
    (s.insert d time channels).map maps = WeekMaps.insert P s.maps d time channels := by
  refine map_eq_of_mapError_some ?_
  refine ((WeekEdit.insert d time channels).apply_refines s hs).trans ?_
  simp only [WeekEdit.onMaps, WeekEdit.editMap, DayEdit.onMap, WeekMaps.insert]
  split_ifs <;> rfl

theorem maps_remove (hs : s.Reachable) (d : Day) (time : Nat) :
    (s.remove d time).map maps = WeekMaps.remove s.maps d time := by
  refine map_eq_of_mapError_some ?_
  refine ((WeekEdit.remove d time : WeekEdit V C).apply_refines s hs).trans ?_
  simp only [WeekEdit.onMaps, WeekEdit.editMap, DayEdit.onMap, WeekMaps.remove]
  split_ifs <;> rfl

/-- Weeks that edits can build are told apart by their maps. -/
theorem Reachable.eq_of_maps_eq {t : WeekSchedule V C P} (hs : s.Reachable) (ht : t.Reachable)
    (h : s.maps = t.maps) : s = t := by
  refine ext_day fun d => (hs.day d).eq_of_mem_iff (ht.day d) fun p => ?_
  have hday : (s.day d).toMap = (t.day d).toMap := congrFun h d
  rw [← (hs.ordered d).find?_eq_some_iff, ← (ht.ordered d).find?_eq_some_iff,
    ← DaySchedule.lookup_toMap, ← DaySchedule.lookup_toMap, hday]

end WeekSchedule

/-! ## 2. Edits of requests -/

namespace Edit

/-- Values for all channels: those given, and none for the channels left out. -/
def padded (values : List (Option Float32)) : Channels Float32 outputChannels :=
  ⟨(values ++ List.replicate outputChannels none).take outputChannels, by simp⟩

theorem channelValues_eq (values : List (Option Float32)) :
    channelValues values =
      if outputChannels < values.length then .error ⟨none, .invalidChannel (values.length - 1)⟩
      else .ok (padded values) := by
  unfold channelValues
  split_ifs with hlong
  · rfl
  · refine congrArg Except.ok (Slots.ext (List.ext_getElem? fun channel => ?_))
    unfold padded
    rw [List.getElem?_map, List.getElem?_take]
    by_cases hc : channel < outputChannels
    · rw [List.getElem?_range hc, if_pos hc, Option.map_some, List.getElem?_append]
      split_ifs with hgiven
      · rw [List.getElem?_eq_getElem hgiven]
        rfl
      · rw [List.getElem?_eq_none (Nat.not_lt.mp hgiven), List.getElem?_replicate,
          if_pos (by omega)]
        rfl
    · rw [if_neg hc, List.getElem?_eq_none (by simpa using hc)]
      rfl

/-- What an edit does to the maps of the schedule: its checks in their order, and then what it asks
for. A new schedule is what its entries build. -/
def onMaps (e : Edit) (m : WeekMaps Float32 outputChannels) :
    Except ScheduleError (WeekMaps Float32 outputChannels) :=
  match e with
  | .replace entries _ =>
    (WeekSchedule.ofEntries entries : Except ScheduleError LightSchedule).map WeekSchedule.maps
  | .add day time values =>
    if outputChannels < values.length then .error ⟨none, .invalidChannel (values.length - 1)⟩
    else WeekMaps.insert lightPointsPerDay m day time (padded values)
  | .remove day time => WeekMaps.remove m day time
  | .setMode _ => .ok m

variable {e : Edit} {before after : ScheduledOutputs Pwm}

/-- **An edit does the same to the outputs and to the maps of their schedule**, and is refused for
the same cause. -/
theorem apply_refines (h : before.schedule.Reachable) (e : Edit) :
    (e.apply (some before)).map (fun o => o.schedule.maps) =
      (e.onMaps before.schedule.maps).mapError .refused := by
  cases e with
  | replace entries mode =>
      simp only [apply, onMaps]
      cases (WeekSchedule.ofEntries entries : Except ScheduleError LightSchedule) with
      | error error => rfl
      | ok schedule => cases mode <;> rfl
  | add day time values =>
      simp only [apply, onMaps, channelValues_eq]
      split_ifs with hlong
      · rfl
      · rw [← WeekSchedule.maps_insert h]
        simp only [ScheduledOutputs.insert, Except.mapError, bind, Except.bind]
        cases before.schedule.insert day time (padded values) <;> rfl
  | remove day time =>
      simp only [apply, onMaps, ← WeekSchedule.maps_remove h, ScheduledOutputs.remove, bind,
        Except.bind]
      cases before.schedule.remove day time <;> rfl
  | setMode mode => rfl

/-- **What an edit asks for.** The schedule is another one if the edit says so, the mode is the one
the edit brings or else as before, and so is all else about the outputs. -/
structure Makes (e : Edit) (before after : ScheduledOutputs Pwm) : Prop where
  /-- Edits can build the schedule, so its maps say all about it. -/
  reachable : after.schedule.Reachable
  maps : e.onMaps before.schedule.maps = .ok after.schedule.maps
  mode : after.mode = e.mode?.getD before.mode
  channelTimes : after.channelTimes = before.channelTimes
  /-- Mode and channel times are all that the tracker has. -/
  rest : after = { before with schedule := after.schedule, tracker := after.tracker }

theorem makes_of_apply (hbefore : before.schedule.Reachable)
    (h : e.apply (some before) = .ok after) : e.Makes before after := by
  obtain ⟨_, hsome, happlies⟩ := apply_eq_ok h
  cases hsome
  refine ⟨happlies.reachable hbefore, ?_, ?_, ?_, ?_⟩
  · have hmaps := apply_refines hbefore e
    rw [h] at hmaps
    exact mapError_eq_ok hmaps.symm
  all_goals cases happlies <;> rfl

theorem exists_refused_of_apply (hbefore : before.schedule.Reachable) {cause : EditError}
    (h : e.apply (some before) = .error cause) :
    ∃ error, e.onMaps before.schedule.maps = .error error ∧ cause = .refused error := by
  have hmaps := apply_refines hbefore e
  rw [h] at hmaps
  cases hon : e.onMaps before.schedule.maps with
  | ok m =>
      rw [hon] at hmaps
      cases hmaps
  | error error =>
      rw [hon] at hmaps
      cases hmaps
      exact ⟨error, rfl, rfl⟩

namespace Makes

variable {other : ScheduledOutputs Pwm}

/-- An edit asks for one state of the outputs. -/
theorem unique (h : e.Makes before after) (hother : e.Makes before other) : after = other := by
  have hmaps : after.schedule.maps = other.schedule.maps :=
    Except.ok.inj (h.maps.symm.trans hother.maps)
  have hmode : after.tracker.mode = other.tracker.mode := h.mode.trans hother.mode.symm
  have htimes : after.tracker.times = other.tracker.times :=
    Slots.ext (h.channelTimes.trans hother.channelTimes.symm)
  have htracker : after.tracker = other.tracker := by
    show (⟨after.tracker.mode, after.tracker.times⟩ : Tracker outputChannels) =
      ⟨other.tracker.mode, other.tracker.times⟩
    rw [hmode, htimes]
  rw [h.rest, hother.rest, h.reachable.eq_of_maps_eq hother.reachable hmaps, htracker]

/-- A new schedule is the one that its entries build. -/
theorem ofEntries_eq {entries : List (Entry Float32)} {mode : Option TransitionMode}
    (h : (Edit.replace entries mode).Makes before after) :
    WeekSchedule.ofEntries entries = .ok after.schedule := by
  obtain ⟨schedule, hload, hmaps⟩ := map_eq_ok h.maps
  rw [hload, (WeekSchedule.ofEntries_reachable hload).eq_of_maps_eq h.reachable hmaps]

/-- An edit that is not about the schedule leaves it as it is. -/
theorem schedule_eq (h : e.Makes before after) (hbefore : before.schedule.Reachable)
    (htouches : e.touchesSchedule = false) : after.schedule = before.schedule := by
  cases e with
  | setMode mode => exact h.reachable.eq_of_maps_eq hbefore (Except.ok.inj h.maps).symm
  | replace entries mode => cases htouches
  | add day time values => cases htouches
  | remove day time => cases htouches

end Makes

end Edit

end Aquarium

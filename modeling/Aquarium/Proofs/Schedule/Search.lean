import Aquarium.Proofs.Schedule.Week
import Mathlib.Data.List.Permutation
import Mathlib.Logic.Function.Iterate

/-!
# A search finds the nearest event of the week

The search looks at the day itself and then walks from day to day. This file reads it as a list of
sights: sight 0 is the day itself up to now (or from now on), sight `k + 1` is the whole day that
`k + 1` steps lead to, and the answer is the first sight that shows anything.

* `walk_eq_findSome?`: the walk is that list of sights;
* `weekElapsed_of_steps`, `weekSpan_of_steps`: the distance of an event is its number of steps in
  days, corrected by the two times of day, so what is seen in fewer steps is nearer;
* `findSome?_eq_some_iff_least`: the first sight that shows anything shows the nearest event, for
  any sights and any distance that fit together;
* `search_least`: the main statement.
-/

namespace Aquarium

/-! ## 1. Searching a day -/

namespace DaySchedule

variable {V : Type} {C P : Nat}

/-- Points chosen by their time show the events chosen by that time. -/
theorem filterMap_event?_filter (q : Nat → Bool) (channel : Nat) (ps : List (TimePoint V C)) :
    (ps.filter fun p => q p.time).filterMap (·.event? channel) =
      (ps.filterMap (·.event? channel)).filter fun e => q e.time := by
  induction ps with
  | nil => rfl
  | cons p ps ih =>
      cases h : p.event? channel with
      | none => by_cases hq : q p.time = true <;> simp [hq, h, ih]
      | some e =>
          have ht : e.time = p.time := (event?_eq_some_iff.mp h).2
          by_cases hq : q p.time = true <;> simp [hq, h, ht, ih]

theorem first?_eq (d : DaySchedule V C P) (channel : Nat) :
    d.first? channel = (d.events channel).head? :=
  List.head?_filterMap.symm

theorem last?_eq (d : DaySchedule V C P) (channel : Nat) :
    d.last? channel = (d.events channel).reverse.head? := by
  unfold last? events
  rw [← List.filterMap_reverse, List.head?_filterMap]

theorem next?_eq (d : DaySchedule V C P) (channel time : Nat) :
    d.next? channel time = ((d.events channel).filter fun e => time < e.time).head? := by
  unfold next? events
  rw [← List.head?_filterMap, filterMap_event?_filter fun t => decide (time < t)]

theorem current?_eq (d : DaySchedule V C P) (channel time : Nat) :
    d.current? channel time =
      ((d.events channel).filter fun e => e.time ≤ time).reverse.head? := by
  unfold current? events
  rw [← List.head?_filterMap, filterMap_event?_filter fun t => decide (t ≤ time),
    List.filterMap_reverse, List.filter_reverse]

/-- The first event of an ascending list is the earliest. -/
theorem time_le_of_head? {l : List (DayEvent V)} (h : l.Pairwise fun e f => e.time < f.time)
    {x y : DayEvent V} (hx : l.head? = some x) (hy : y ∈ l) : x.time ≤ y.time := by
  cases l with
  | nil => cases hx
  | cons a l =>
      cases hx
      rcases List.mem_cons.mp hy with rfl | hy
      · exact Nat.le_refl _
      · exact Nat.le_of_lt ((List.pairwise_cons.mp h).1 y hy)

/-- The last event of an ascending list is the latest. -/
theorem le_time_of_reverse_head? {l : List (DayEvent V)}
    (h : l.Pairwise fun e f => e.time < f.time) {x y : DayEvent V}
    (hx : l.reverse.head? = some x) (hy : y ∈ l) : y.time ≤ x.time := by
  have h' := List.pairwise_reverse.mpr h
  revert hx hy
  rw [← List.mem_reverse]
  generalize l.reverse = r at h' ⊢
  intro hx hy
  cases r with
  | nil => cases hx
  | cons a r =>
      cases hx
      rcases List.mem_cons.mp hy with rfl | hy
      · exact Nat.le_refl _
      · exact Nat.le_of_lt ((List.pairwise_cons.mp h').1 y hy)

end DaySchedule

/-! ## 2. Walking from day to day -/

namespace Day

theorem index_next_iterate (d : Day) : ∀ k, (next^[k] d).index = (d.index + k) % 7
  | 0 => (Nat.mod_eq_of_lt d.index_lt).symm
  | k + 1 => by
      rw [Function.iterate_succ_apply', next, index_ofIndex, index_next_iterate d k]
      omega

theorem index_previous_iterate (d : Day) :
    ∀ k, ((previous^[k] d).index + k) % 7 = d.index
  | 0 => Nat.mod_eq_of_lt d.index_lt
  | k + 1 => by
      have ih := index_previous_iterate d k
      have := (previous^[k] d).index_lt
      rw [Function.iterate_succ_apply', previous, index_ofIndex]
      omega

/-- Some number of steps ahead, at most six, leads from one day to another. -/
theorem exists_next_iterate (d e : Day) : ∃ k < 7, next^[k] d = e := by
  have hd := d.index_lt
  have he := e.index_lt
  refine ⟨(e.index + 7 - d.index) % 7, Nat.mod_lt _ (by decide), index_injective ?_⟩
  rw [index_next_iterate]
  omega

theorem exists_previous_iterate (d e : Day) : ∃ k < 7, previous^[k] d = e := by
  have hd := d.index_lt
  have he := e.index_lt
  refine ⟨(d.index + 7 - e.index) % 7, Nat.mod_lt _ (by decide), index_injective ?_⟩
  have h := index_previous_iterate d ((d.index + 7 - e.index) % 7)
  have hlt := (previous^[(d.index + 7 - e.index) % 7] d).index_lt
  omega

@[simp] theorem next_iterate_seven (d : Day) : next^[7] d = d := by
  apply index_injective
  rw [index_next_iterate]
  have := d.index_lt
  omega

@[simp] theorem previous_iterate_seven (d : Day) : previous^[7] d = d := by
  apply index_injective
  have := index_previous_iterate d 7
  have := (previous^[7] d).index_lt
  have := d.index_lt
  omega

end Day

namespace WeekSchedule

variable {V : Type} {C P : Nat}

/-- A walk shows the days one after another until one of them shows an event. -/
theorem walk_eq_findSome? (step : Day → Day) (see : Day → Option (DayEvent V)) :
    ∀ (n : Nat) (d : Day), walk step see n d =
      (List.range n).findSome? fun k => (see (step^[k + 1] d)).map (atDay (step^[k + 1] d))
  | 0, _ => rfl
  | n + 1, d => by
      rw [List.range_succ_eq_map, List.findSome?_cons, List.findSome?_map]
      unfold walk
      cases h : see (step d) with
      | some e => simp [h]
      | none =>
          rw [walk_eq_findSome? step see n (step d)]
          simp only [Nat.zero_add, Function.iterate_one, h, Option.map_none]
          rfl

/-! ## 3. How far an event is -/

/-- The second of the week of an event on a day. -/
theorem atDay_time (d : Day) (e : DayEvent V) :
    (atDay d e).time = d.index * secondsPerDay + e.time := rfl

theorem ofTimeOfWeek_atDay (d : Day) {e : DayEvent V} (h : e.time < secondsPerDay) :
    WeekTime.ofTimeOfWeek (atDay d e).time = ⟨d, e.time⟩ :=
  WeekTime.ofTimeOfWeek_position (t := ⟨d, e.time⟩) h

/-- An event met after `k` steps back lies `k` days back, give or take the times of day. It is met
on the day itself when it is not after now, and after a whole round when it is. -/
theorem weekElapsed_of_steps {now : WeekTime} (hn : now.Valid) {d : Day} {e : DayEvent V} {k : Nat}
    (he : e.time < secondsPerDay) (hd : Day.previous^[k] now.day = d) (hk : k ≤ 7)
    (h0 : k = 0 → e.time ≤ now.time) (h7 : k = 7 → now.time < e.time) :
    weekElapsed (atDay d e).time now.position + e.time = k * secondsPerDay + now.time := by
  have hidx := Day.index_previous_iterate now.day k
  rw [hd] at hidx
  have hlt := d.index_lt
  have hlt' := now.day.index_lt
  unfold weekElapsed
  split <;>
    simp only [WeekTime.Valid, atDay_time, WeekTime.position, secondsPerDay, secondsPerWeek] at * <;>
    omega

/-- An event met after `k` steps ahead lies `k` days ahead, give or take the times of day. -/
theorem weekSpan_of_steps {now : WeekTime} (hn : now.Valid) {d : Day} {e : DayEvent V} {k : Nat}
    (he : e.time < secondsPerDay) (hd : Day.next^[k] now.day = d) (hk : k ≤ 7)
    (h0 : k = 0 → now.time < e.time) (h7 : k = 7 → e.time ≤ now.time) :
    weekSpan now.position (atDay d e).time + now.time = k * secondsPerDay + e.time := by
  have hidx := Day.index_next_iterate now.day k
  rw [hd] at hidx
  have hlt := d.index_lt
  have hlt' := now.day.index_lt
  unfold weekSpan
  split <;>
    simp only [WeekTime.Valid, atDay_time, WeekTime.position, secondsPerDay, secondsPerWeek] at * <;>
    omega

/-! ## 4. The first sight that shows anything -/

theorem findSome?_range_eq_some {α : Type} {f : Nat → Option α} {a : α} :
    ∀ {n : Nat}, (List.range n).findSome? f = some a →
      ∃ k < n, f k = some a ∧ ∀ j < k, f j = none
  | 0, h => by cases h
  | n + 1, h => by
      rw [List.range_succ, List.findSome?_append] at h
      cases hn : (List.range n).findSome? f with
      | some b =>
          rw [hn] at h
          obtain ⟨k, hk, hfk, hbefore⟩ := findSome?_range_eq_some hn
          cases h
          exact ⟨k, Nat.lt_succ_of_lt hk, hfk, hbefore⟩
      | none =>
          rw [hn] at h
          rw [List.findSome?_eq_none_iff] at hn
          have hfn : f n = some a := by simpa using h
          exact ⟨n, Nat.lt_succ_self n, hfn, fun j hj => hn j (List.mem_range.mpr hj)⟩

section Nearest

variable {α : Type} {sight : Nat → Option α} {events : List α} {dist : α → Nat} {n : Nat}
  (hmem : ∀ k e, sight k = some e → e ∈ events)
  (hin : ∀ f ∈ events, ∃ k < n, ∃ e, sight k = some e ∧ (e = f ∨ dist e < dist f) ∧
    ∀ j < k, ∀ e', sight j = some e' → dist e' < dist f)

include hin

/-- Sights in which every event is met, or a nearer one instead, show something unless there are no
events. -/
theorem findSome?_ne_none {f : α} (hf : f ∈ events) : (List.range n).findSome? sight ≠ none := by
  obtain ⟨k, hk, e, he, -⟩ := hin f hf
  intro h
  rw [List.findSome?_eq_none_iff] at h
  rw [h k (List.mem_range.mpr hk)] at he
  cases he

theorem dist_lt_of_findSome? {e f : α} (h : (List.range n).findSome? sight = some e)
    (hf : f ∈ events) (hne : f ≠ e) : dist e < dist f := by
  obtain ⟨k, -, hk, hbefore⟩ := findSome?_range_eq_some h
  obtain ⟨k', -, e', he', hle, hearlier⟩ := hin f hf
  rcases Nat.lt_trichotomy k k' with hlt | rfl | hgt
  · exact hearlier k hlt e hk
  · rw [hk] at he'
    cases he'
    exact hle.resolve_left fun heq => hne heq.symm
  · rw [hbefore k' hgt] at he'
    cases he'

include hmem

theorem findSome?_eq_none_iff_nil : (List.range n).findSome? sight = none ↔ events = [] := by
  constructor
  · intro h
    refine List.eq_nil_iff_forall_not_mem.mpr fun f hf => ?_
    exact findSome?_ne_none hin hf h
  · rintro rfl
    rw [List.findSome?_eq_none_iff]
    intro k _
    cases h : sight k with
    | none => rfl
    | some e => exact absurd (hmem k e h) List.not_mem_nil

/-- **The first sight that shows anything shows the nearest event.** -/
theorem findSome?_eq_some_iff_least (e : α) :
    (List.range n).findSome? sight = some e ↔
      e ∈ events ∧ ∀ f ∈ events, f ≠ e → dist e < dist f := by
  constructor
  · intro h
    obtain ⟨k, -, hk, -⟩ := findSome?_range_eq_some h
    exact ⟨hmem k e hk, fun f hf hne => dist_lt_of_findSome? hin h hf hne⟩
  · rintro ⟨he, hleast⟩
    cases h : (List.range n).findSome? sight with
    | none => exact absurd h (findSome?_ne_none hin he)
    | some e' =>
        obtain ⟨k, -, hk, -⟩ := findSome?_range_eq_some h
        refine Classical.byContradiction fun hne => ?_
        have hne' : e ≠ e' := fun heq => hne (heq ▸ rfl)
        have h₁ := dist_lt_of_findSome? hin h he hne'
        have h₂ := hleast e' (hmem k e' hk) (Ne.symm hne')
        omega

end Nearest

/-! ## 5. The sights of the two searches -/

/-- What a search for the current event sees after so many steps back. -/
def sightBack (s : WeekSchedule V C P) (channel : Nat) (now : WeekTime) : Nat → Option (WeekEvent V)
  | 0 => ((s.day now.day).current? channel now.time).map (atDay now.day)
  | k + 1 =>
    ((s.day (Day.previous^[k + 1] now.day)).last? channel).map
      (atDay (Day.previous^[k + 1] now.day))

/-- What a search for the next event sees after so many steps ahead. -/
def sightAhead (s : WeekSchedule V C P) (channel : Nat) (now : WeekTime) :
    Nat → Option (WeekEvent V)
  | 0 => ((s.day now.day).next? channel now.time).map (atDay now.day)
  | k + 1 =>
    ((s.day (Day.next^[k + 1] now.day)).first? channel).map (atDay (Day.next^[k + 1] now.day))

section Sights

variable {s : WeekSchedule V C P} {channel : Nat} {now : WeekTime}

/-- A sight back shows an event of its day, of the day itself one that is not after now. -/
theorem exists_of_sightBack {k : Nat} {e : WeekEvent V}
    (h : s.sightBack channel now k = some e) :
    ∃ x ∈ (s.day (Day.previous^[k] now.day)).events channel,
      e = atDay (Day.previous^[k] now.day) x ∧ (k = 0 → x.time ≤ now.time) := by
  cases k with
  | zero =>
      obtain ⟨x, hx, rfl⟩ := Option.map_eq_some_iff.mp h
      rw [DaySchedule.current?_eq] at hx
      have hmem := List.mem_of_head? hx
      rw [List.mem_reverse, List.mem_filter] at hmem
      exact ⟨x, hmem.1, rfl, fun _ => by simpa using hmem.2⟩
  | succ k =>
      obtain ⟨x, hx, rfl⟩ := Option.map_eq_some_iff.mp h
      rw [DaySchedule.last?_eq] at hx
      exact ⟨x, List.mem_reverse.mp (List.mem_of_head? hx), rfl, fun h => by cases h⟩

/-- Where a sight back covers an event it shows that one or a later one. -/
theorem exists_sightBack (hs : s.Ordered) {k : Nat} {x : DayEvent V}
    (hx : x ∈ (s.day (Day.previous^[k] now.day)).events channel)
    (h0 : k = 0 → x.time ≤ now.time) :
    ∃ y ∈ (s.day (Day.previous^[k] now.day)).events channel,
      s.sightBack channel now k = some (atDay (Day.previous^[k] now.day) y) ∧ x.time ≤ y.time ∧
        (k = 0 → y.time ≤ now.time) := by
  have hasc := (hs (Day.previous^[k] now.day)).events_ascending channel
  cases k with
  | zero =>
      have hmem : x ∈ ((s.day now.day).events channel).filter fun e => e.time ≤ now.time :=
        List.mem_filter.mpr ⟨hx, by simpa using h0 rfl⟩
      cases hy : (((s.day now.day).events channel).filter
          fun e => e.time ≤ now.time).reverse.head? with
      | none =>
          rw [List.head?_eq_none_iff, List.reverse_eq_nil_iff] at hy
          rw [hy] at hmem
          cases hmem
      | some y =>
          have hmem' := List.mem_of_head? hy
          rw [List.mem_reverse, List.mem_filter] at hmem'
          refine ⟨y, hmem'.1, ?_, DaySchedule.le_time_of_reverse_head? (hasc.filter _) hy hmem,
            fun _ => by simpa using hmem'.2⟩
          show ((s.day now.day).current? channel now.time).map _ = _
          rw [DaySchedule.current?_eq, hy]
          rfl
  | succ k =>
      cases hy : ((s.day (Day.previous^[k + 1] now.day)).events channel).reverse.head? with
      | none =>
          rw [List.head?_eq_none_iff, List.reverse_eq_nil_iff] at hy
          rw [hy] at hx
          cases hx
      | some y =>
          refine ⟨y, List.mem_reverse.mp (List.mem_of_head? hy), ?_,
            DaySchedule.le_time_of_reverse_head? hasc hy hx, fun h => by cases h⟩
          show ((s.day (Day.previous^[k + 1] now.day)).last? channel).map _ = _
          rw [DaySchedule.last?_eq, hy]
          rfl

/-- A sight ahead shows an event of its day, of the day itself one that is after now. -/
theorem exists_of_sightAhead {k : Nat} {e : WeekEvent V}
    (h : s.sightAhead channel now k = some e) :
    ∃ x ∈ (s.day (Day.next^[k] now.day)).events channel,
      e = atDay (Day.next^[k] now.day) x ∧ (k = 0 → now.time < x.time) := by
  cases k with
  | zero =>
      obtain ⟨x, hx, rfl⟩ := Option.map_eq_some_iff.mp h
      rw [DaySchedule.next?_eq] at hx
      have hmem := List.mem_filter.mp (List.mem_of_head? hx)
      exact ⟨x, hmem.1, rfl, fun _ => by simpa using hmem.2⟩
  | succ k =>
      obtain ⟨x, hx, rfl⟩ := Option.map_eq_some_iff.mp h
      rw [DaySchedule.first?_eq] at hx
      exact ⟨x, List.mem_of_head? hx, rfl, fun h => by cases h⟩

/-- Where a sight ahead covers an event it shows that one or an earlier one. -/
theorem exists_sightAhead (hs : s.Ordered) {k : Nat} {x : DayEvent V}
    (hx : x ∈ (s.day (Day.next^[k] now.day)).events channel) (h0 : k = 0 → now.time < x.time) :
    ∃ y ∈ (s.day (Day.next^[k] now.day)).events channel,
      s.sightAhead channel now k = some (atDay (Day.next^[k] now.day) y) ∧ y.time ≤ x.time ∧
        (k = 0 → now.time < y.time) := by
  have hasc := (hs (Day.next^[k] now.day)).events_ascending channel
  cases k with
  | zero =>
      have hmem : x ∈ ((s.day now.day).events channel).filter fun e => now.time < e.time :=
        List.mem_filter.mpr ⟨hx, by simpa using h0 rfl⟩
      cases hy : (((s.day now.day).events channel).filter fun e => now.time < e.time).head? with
      | none =>
          rw [List.head?_eq_none_iff] at hy
          rw [hy] at hmem
          cases hmem
      | some y =>
          have hmem' := List.mem_filter.mp (List.mem_of_head? hy)
          refine ⟨y, hmem'.1, ?_, DaySchedule.time_le_of_head? (hasc.filter _) hy hmem,
            fun _ => by simpa using hmem'.2⟩
          show ((s.day now.day).next? channel now.time).map _ = _
          rw [DaySchedule.next?_eq, hy]
          rfl
  | succ k =>
      cases hy : ((s.day (Day.next^[k + 1] now.day)).events channel).head? with
      | none =>
          rw [List.head?_eq_none_iff] at hy
          rw [hy] at hx
          cases hx
      | some y =>
          refine ⟨y, List.mem_of_head? hy, ?_, DaySchedule.time_le_of_head? hasc hy hx,
            fun h => by cases h⟩
          show ((s.day (Day.next^[k + 1] now.day)).first? channel).map _ = _
          rw [DaySchedule.first?_eq, hy]
          rfl

/-- Every event is met by a sight back, or one that is nearer, and before that only nearer ones. -/
theorem sightBack_meets (hs : s.Ordered) (hn : now.Valid) (f : WeekEvent V)
    (hf : f ∈ s.events channel) :
    ∃ k < 9, ∃ e, s.sightBack channel now k = some e ∧
      (e = f ∨ weekElapsed e.time now.position < weekElapsed f.time now.position) ∧
      ∀ j < k, ∀ e', s.sightBack channel now j = some e' →
        weekElapsed e'.time now.position < weekElapsed f.time now.position := by
  obtain ⟨d, x, hx, rfl⟩ := mem_events_iff.mp hf
  have hxt := (hs d).event_within hx
  obtain ⟨k, hk, hd, h0, h7⟩ : ∃ k ≤ 7, Day.previous^[k] now.day = d ∧
      (k = 0 → x.time ≤ now.time) ∧ (k = 7 → now.time < x.time) := by
    obtain ⟨k, hk, hd⟩ := Day.exists_previous_iterate now.day d
    by_cases hz : k = 0 ∧ now.time < x.time
    · refine ⟨7, Nat.le_refl 7, ?_, by omega, fun _ => hz.2⟩
      rw [Day.previous_iterate_seven, ← hd, hz.1]
      rfl
    · exact ⟨k, by omega, hd, fun h => by omega, fun h => by omega⟩
  have hfar := weekElapsed_of_steps hn hxt hd hk h0 h7
  rw [← hd] at hx
  obtain ⟨y, hy, hsight, hle, hy0⟩ := exists_sightBack hs hx h0
  have hyt := (hs _).event_within hy
  refine ⟨k, by omega, _, hsight, ?_, fun j hj e' he' => ?_⟩
  · have hnear := weekElapsed_of_steps hn hyt rfl hk hy0 fun h => by have := h7 h; omega
    by_cases heq : y.time = x.time
    · left
      rw [(hs _).event_eq_of_time_eq hy hx heq, hd]
    · right
      omega
  · obtain ⟨z, hz, rfl, hz0⟩ := exists_of_sightBack he'
    have hzt := (hs _).event_within hz
    have hnear := weekElapsed_of_steps hn hzt rfl (by omega) hz0 fun h => by omega
    simp only [secondsPerDay] at *
    omega

/-- Every event is met by a sight ahead, or one that is nearer, and before that only nearer ones. -/
theorem sightAhead_meets (hs : s.Ordered) (hn : now.Valid) (f : WeekEvent V)
    (hf : f ∈ s.events channel) :
    ∃ k < 9, ∃ e, s.sightAhead channel now k = some e ∧
      (e = f ∨ weekSpan now.position e.time < weekSpan now.position f.time) ∧
      ∀ j < k, ∀ e', s.sightAhead channel now j = some e' →
        weekSpan now.position e'.time < weekSpan now.position f.time := by
  obtain ⟨d, x, hx, rfl⟩ := mem_events_iff.mp hf
  have hxt := (hs d).event_within hx
  obtain ⟨k, hk, hd, h0, h7⟩ : ∃ k ≤ 7, Day.next^[k] now.day = d ∧
      (k = 0 → now.time < x.time) ∧ (k = 7 → x.time ≤ now.time) := by
    obtain ⟨k, hk, hd⟩ := Day.exists_next_iterate now.day d
    by_cases hz : k = 0 ∧ x.time ≤ now.time
    · refine ⟨7, Nat.le_refl 7, ?_, by omega, fun _ => hz.2⟩
      rw [Day.next_iterate_seven, ← hd, hz.1]
      rfl
    · exact ⟨k, by omega, hd, fun h => by omega, fun h => by omega⟩
  have hfar := weekSpan_of_steps hn hxt hd hk h0 h7
  rw [← hd] at hx
  obtain ⟨y, hy, hsight, hle, hy0⟩ := exists_sightAhead hs hx h0
  have hyt := (hs _).event_within hy
  refine ⟨k, by omega, _, hsight, ?_, fun j hj e' he' => ?_⟩
  · have hnear := weekSpan_of_steps hn hyt rfl hk hy0 fun h => by have := h7 h; omega
    by_cases heq : y.time = x.time
    · left
      rw [(hs _).event_eq_of_time_eq hy hx heq, hd]
    · right
      omega
  · obtain ⟨z, hz, rfl, hz0⟩ := exists_of_sightAhead he'
    have hzt := (hs _).event_within hz
    have hnear := weekSpan_of_steps hn hzt rfl (by omega) hz0 fun h => by omega
    simp only [secondsPerDay, WeekTime.Valid] at *
    omega

end Sights

/-! ## 6. The searches -/

section Searches

variable (s : WeekSchedule V C P) (channel : Nat) (now : WeekTime)

theorem sightBack_eq_none_of_le (h : C ≤ channel) (k : Nat) :
    s.sightBack channel now k = none := by
  cases hk : s.sightBack channel now k with
  | none => rfl
  | some e =>
      obtain ⟨x, hx, -, -⟩ := exists_of_sightBack hk
      rw [DaySchedule.events_eq_nil_of_le _ h] at hx
      cases hx

theorem sightAhead_eq_none_of_le (h : C ≤ channel) (k : Nat) :
    s.sightAhead channel now k = none := by
  cases hk : s.sightAhead channel now k with
  | none => rfl
  | some e =>
      obtain ⟨x, hx, -, -⟩ := exists_of_sightAhead hk
      rw [DaySchedule.events_eq_nil_of_le _ h] at hx
      cases hx

theorem current?_thisDay : s.current? channel now .thisDay = s.sightBack channel now 0 := by
  unfold current?
  by_cases h : C ≤ channel
  · rw [if_pos h, sightBack_eq_none_of_le s channel now h]
  · rw [if_neg h, sightBack]
    cases (s.day now.day).current? channel now.time <;> rfl

theorem current?_allDays :
    s.current? channel now .allDays = (List.range 9).findSome? (s.sightBack channel now) := by
  unfold current?
  by_cases h : C ≤ channel
  · rw [if_pos h]
    exact (List.findSome?_eq_none_iff.mpr
      fun k _ => sightBack_eq_none_of_le s channel now h k).symm
  · rw [if_neg h, List.range_succ_eq_map, List.findSome?_cons, List.findSome?_map, sightBack]
    cases (s.day now.day).current? channel now.time with
    | some e => rfl
    | none => exact walk_eq_findSome? _ _ _ _

theorem next?_thisDay : s.next? channel now .thisDay = s.sightAhead channel now 0 := by
  unfold next?
  by_cases h : C ≤ channel
  · rw [if_pos h, sightAhead_eq_none_of_le s channel now h]
  · rw [if_neg h, sightAhead]
    cases (s.day now.day).next? channel now.time <;> rfl

theorem next?_allDays :
    s.next? channel now .allDays = (List.range 9).findSome? (s.sightAhead channel now) := by
  unfold next?
  by_cases h : C ≤ channel
  · rw [if_pos h]
    exact (List.findSome?_eq_none_iff.mpr
      fun k _ => sightAhead_eq_none_of_le s channel now h k).symm
  · rw [if_neg h, List.range_succ_eq_map, List.findSome?_cons, List.findSome?_map, sightAhead]
    cases (s.day now.day).next? channel now.time with
    | some e => rfl
    | none => exact walk_eq_findSome? _ _ _ _

variable {s channel now}

theorem mem_events_of_sightBack (k : Nat) (e : WeekEvent V)
    (h : s.sightBack channel now k = some e) : e ∈ s.events channel := by
  obtain ⟨x, hx, rfl, -⟩ := exists_of_sightBack h
  exact mem_events_iff.mpr ⟨_, x, hx, rfl⟩

theorem mem_events_of_sightAhead (k : Nat) (e : WeekEvent V)
    (h : s.sightAhead channel now k = some e) : e ∈ s.events channel := by
  obtain ⟨x, hx, rfl, -⟩ := exists_of_sightAhead h
  exact mem_events_iff.mpr ⟨_, x, hx, rfl⟩

theorem current?_eq_some_iff (hs : s.Ordered) (hn : now.Valid) (e : WeekEvent V) :
    s.current? channel now .allDays = some e ↔ e ∈ s.events channel ∧
      ∀ f ∈ s.events channel, f ≠ e →
        weekElapsed e.time now.position < weekElapsed f.time now.position := by
  rw [current?_allDays]
  exact findSome?_eq_some_iff_least mem_events_of_sightBack (sightBack_meets hs hn) e

theorem next?_eq_some_iff (hs : s.Ordered) (hn : now.Valid) (e : WeekEvent V) :
    s.next? channel now .allDays = some e ↔ e ∈ s.events channel ∧
      ∀ f ∈ s.events channel, f ≠ e →
        weekSpan now.position e.time < weekSpan now.position f.time := by
  rw [next?_allDays]
  exact findSome?_eq_some_iff_least mem_events_of_sightAhead (sightAhead_meets hs hn) e

theorem current?_eq_none_iff (hs : s.Ordered) (hn : now.Valid) :
    s.current? channel now .allDays = none ↔ s.events channel = [] := by
  rw [current?_allDays]
  exact findSome?_eq_none_iff_nil mem_events_of_sightBack (sightBack_meets hs hn)

theorem next?_eq_none_iff (hs : s.Ordered) (hn : now.Valid) :
    s.next? channel now .allDays = none ↔ s.events channel = [] := by
  rw [next?_allDays]
  exact findSome?_eq_none_iff_nil mem_events_of_sightAhead (sightAhead_meets hs hn)

/-- On the day alone the search finds the current event if that lies on the day and not after
now. -/
theorem current?_thisDay_eq_some_iff (hs : s.Ordered) (e : WeekEvent V) :
    s.current? channel now .thisDay = some e ↔ s.current? channel now .allDays = some e ∧
      (WeekTime.ofTimeOfWeek e.time).day = now.day ∧ e.time ≤ now.position := by
  rw [current?_thisDay, current?_allDays]
  constructor
  · intro h
    refine ⟨by rw [List.range_succ_eq_map, List.findSome?_cons, h], ?_⟩
    obtain ⟨x, hx, rfl, h0⟩ := exists_of_sightBack h
    rw [ofTimeOfWeek_atDay _ ((hs _).event_within hx)]
    exact ⟨rfl, Nat.add_le_add_left (h0 rfl) _⟩
  · rintro ⟨h, hday, hle⟩
    obtain ⟨k, -, hk, hbefore⟩ := findSome?_range_eq_some h
    cases k with
    | zero => exact hk
    | succ k =>
        obtain ⟨d, x, hx, rfl⟩ := mem_events_iff.mp (mem_events_of_sightBack _ _ hk)
        rw [ofTimeOfWeek_atDay _ ((hs d).event_within hx)] at hday
        have hd : d = now.day := hday
        subst hd
        obtain ⟨y, -, hy, -⟩ := @exists_sightBack V C P s channel now hs 0 x hx
          fun _ => Nat.le_of_add_le_add_left hle
        rw [hbefore 0 (Nat.succ_pos k)] at hy
        cases hy

/-- On the day alone the search finds the next event if that lies on the day and after now. -/
theorem next?_thisDay_eq_some_iff (hs : s.Ordered) (e : WeekEvent V) :
    s.next? channel now .thisDay = some e ↔ s.next? channel now .allDays = some e ∧
      (WeekTime.ofTimeOfWeek e.time).day = now.day ∧ now.position < e.time := by
  rw [next?_thisDay, next?_allDays]
  constructor
  · intro h
    refine ⟨by rw [List.range_succ_eq_map, List.findSome?_cons, h], ?_⟩
    obtain ⟨x, hx, rfl, h0⟩ := exists_of_sightAhead h
    rw [ofTimeOfWeek_atDay _ ((hs _).event_within hx)]
    exact ⟨rfl, Nat.add_lt_add_left (h0 rfl) _⟩
  · rintro ⟨h, hday, hlt⟩
    obtain ⟨k, -, hk, hbefore⟩ := findSome?_range_eq_some h
    cases k with
    | zero => exact hk
    | succ k =>
        obtain ⟨d, x, hx, rfl⟩ := mem_events_iff.mp (mem_events_of_sightAhead _ _ hk)
        rw [ofTimeOfWeek_atDay _ ((hs d).event_within hx)] at hday
        have hd : d = now.day := hday
        subst hd
        obtain ⟨y, -, hy, -⟩ := @exists_sightAhead V C P s channel now hs 0 x hx
          fun _ => Nat.lt_of_add_lt_add_left hlt
        rw [hbefore 0 (Nat.succ_pos k)] at hy
        cases hy

/-- **The searches find the nearest event of the channel.** Round the week, the current event is the
one the least far back (not at all if it is at now), and the next event the one the least far ahead
(a whole week if it is at now); there is none exactly when the channel does not exist or has no
event. On the day alone the answer is that same event if it lies on the day and on the right side of
now. -/
theorem search_least {s : WeekSchedule V C P} (hs : s.Reachable) (channel : Nat) {now : WeekTime}
    (hn : now.Valid) :
    (∀ e, s.current? channel now .allDays = some e ↔ e ∈ s.events channel ∧
      ∀ f ∈ s.events channel, f ≠ e →
        weekElapsed e.time now.position < weekElapsed f.time now.position) ∧
    (∀ e, s.next? channel now .allDays = some e ↔ e ∈ s.events channel ∧
      ∀ f ∈ s.events channel, f ≠ e →
        weekSpan now.position e.time < weekSpan now.position f.time) ∧
    (s.current? channel now .allDays = none ↔ C ≤ channel ∨ s.events channel = []) ∧
    (s.next? channel now .allDays = none ↔ C ≤ channel ∨ s.events channel = []) ∧
    (∀ e, s.current? channel now .thisDay = some e ↔ s.current? channel now .allDays = some e ∧
      (WeekTime.ofTimeOfWeek e.time).day = now.day ∧ e.time ≤ now.position) ∧
    (∀ e, s.next? channel now .thisDay = some e ↔ s.next? channel now .allDays = some e ∧
      (WeekTime.ofTimeOfWeek e.time).day = now.day ∧ now.position < e.time) := by
  have ho := hs.ordered
  have hnil : C ≤ channel ∨ s.events channel = [] ↔ s.events channel = [] :=
    ⟨fun h => h.elim (events_eq_nil_of_le s) id, Or.inr⟩
  rw [hnil]
  exact ⟨current?_eq_some_iff ho hn, next?_eq_some_iff ho hn, current?_eq_none_iff ho hn,
    next?_eq_none_iff ho hn, current?_thisDay_eq_some_iff ho, next?_thisDay_eq_some_iff ho⟩

end Searches

/-- A week with one point, on Wednesday at noon. -/
def wednesdayNoon : WeekSchedule Int 1 2 :=
  empty.setDay .wednesday ⟨⟨[some ⟨43200, ⟨[some 3], rfl⟩⟩, none], rfl⟩⟩

theorem reachable_wednesdayNoon : wednesdayNoon.Reachable :=
  .insert .wednesday 43200 ⟨[some 3], rfl⟩ .empty (by cbv)

/-- An hour after the only event of the week it is current, on the day too, and it is also next, but
not on the day. -/
theorem search_least_wednesdayNoon :
    wednesdayNoon.Reachable ∧ WeekTime.Valid ⟨.wednesday, 46800⟩ ∧
      wednesdayNoon.current? 0 ⟨.wednesday, 46800⟩ .thisDay = some ⟨302400, 3⟩ ∧
      wednesdayNoon.next? 0 ⟨.wednesday, 46800⟩ .allDays = some ⟨302400, 3⟩ ∧
      wednesdayNoon.next? 0 ⟨.wednesday, 46800⟩ .thisDay ≠ some ⟨302400, 3⟩ := by
  have hn : WeekTime.Valid ⟨.wednesday, 46800⟩ := by decide
  have hevents : wednesdayNoon.events 0 = [⟨302400, 3⟩] := by rfl
  obtain ⟨hcurrent, hnext, -, -, hcurrentDay, hnextDay⟩ :=
    search_least reachable_wednesdayNoon 0 hn
  simp only [hevents, List.mem_singleton] at hcurrent hnext
  refine ⟨reachable_wednesdayNoon, hn, ?_, ?_, fun h => ?_⟩
  · exact (hcurrentDay _).mpr
      ⟨(hcurrent _).mpr ⟨rfl, fun f hf hne => absurd hf hne⟩, by decide, by decide⟩
  · exact (hnext _).mpr ⟨rfl, fun f hf hne => absurd hf hne⟩
  · exact absurd ((hnextDay _).mp h).2.2 (by decide)

end WeekSchedule

end Aquarium

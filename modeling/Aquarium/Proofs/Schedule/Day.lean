import Aquarium.Proofs.Slots
import Aquarium.Schedule.DaySchedule

/-!
# The points of a day stand in order

A day is read as the list of its points (`DaySchedule.toList`). This file fixes

* what an accepted edit does to that list: an insertion adds one point (`toList_insert_perm`), a
  removal takes one out (`toList_remove_perm`), a value is written inside of one point
  (`toList_setValue?`);
* that a point behind all others goes to the end of the list (`exists_insert_last`);
* the invariant `Ordered`: times ascend strictly and lie within the day;
* that every edit keeps it (`Ordered.insert`, `Ordered.remove`, `Ordered.setValue`), and so every
  day built by edits has it (`Reachable.ordered`).
-/

namespace Aquarium

namespace DaySchedule

variable {V : Type} {C P : Nat}

/-- The points ascend strictly in time, and every time lies within the day. -/
structure Ordered (d : DaySchedule V C P) : Prop where
  ascending : d.toList.Pairwise fun p q => p.time < q.time
  within : ∀ p ∈ d.toList, p.time < secondsPerDay

/-! ## 1. What an edit does to the points -/

@[simp] theorem toList_empty : (empty : DaySchedule V C P).toList = [] := Slots.values_empty

theorem toList_sorted_perm (points : Slots (TimePoint V C) P) :
    (sorted ⟨points⟩).toList.Perm points.values :=
  Slots.values_sortBy_perm _ _

theorem find?_eq_none_iff (d : DaySchedule V C P) (time : Nat) :
    d.find? time = none ↔ ∀ p ∈ d.toList, p.time ≠ time := by
  unfold find?
  rw [Option.map_eq_none_iff, List.find?_eq_none]
  simp only [beq_iff_eq, ne_eq]

/-- What an accepted insertion passed, and the day it gives. -/
theorem insert_eq_ok_iff {d d' : DaySchedule V C P} {time : Nat} {channels : Channels V C} :
    d.insert time channels = .ok d' ↔
      time < secondsPerDay ∧ d.isFull = false ∧ (∀ p ∈ d.toList, p.time ≠ time) ∧
        d' = sorted ⟨(d.points.append ⟨time, channels⟩).2⟩ := by
  rw [← find?_eq_none_iff]
  unfold insert
  constructor
  · intro h
    split at h
    · cases h
    · rename_i hday
      split at h
      · cases h
      · rename_i hfull
        split at h
        · cases h
        · rename_i hfind
          cases h
          exact ⟨Nat.lt_of_not_le hday, by simpa using hfull, by simpa using hfind, rfl⟩
  · rintro ⟨hday, hfull, hfind, rfl⟩
    rw [if_neg (Nat.not_le.mpr hday), hfull, hfind]
    rfl

/-- **An accepted insertion adds exactly its point.** -/
theorem toList_insert_perm {d d' : DaySchedule V C P} {time : Nat} {channels : Channels V C}
    (h : d.insert time channels = .ok d') : d'.toList.Perm (⟨time, channels⟩ :: d.toList) := by
  obtain ⟨-, hfull, -, rfl⟩ := insert_eq_ok_iff.mp h
  exact (toList_sorted_perm _).trans (Slots.values_append_perm d.points _ hfull)

/-- The slot of a time splits the points in two, with the point of that time between them. -/
theorem exists_split {d : DaySchedule V C P} {time i : Nat}
    (h : (d.points.position? fun p => p.time == time) = some i) :
    ∃ front p back, d.toList = front ++ p :: back ∧ p.time = time ∧ d.points.get? i = some p ∧
      (∀ q ∈ front, q.time ≠ time) ∧
      ∀ c, (d.points.set i c).values = front ++ c.toList ++ back := by
  obtain ⟨front, p, back, hcells, rfl, hp, hfront⟩ := Slots.exists_split_of_position? h
  refine ⟨front.filterMap id, p, back.filterMap id, ?_, by simpa using hp,
    Slots.get?_split hcells, fun q hq => by simpa using hfront q hq, fun c => ?_⟩
  · show d.points.cells.filterMap id = _
    rw [hcells, List.filterMap_append]
    rfl
  · rw [Slots.values_set_split hcells c]
    cases c <;> simp

/-- **An accepted removal takes out exactly the point of its time.** -/
theorem toList_remove_perm {d d' : DaySchedule V C P} {time : Nat}
    (h : d.remove time = .ok d') :
    ∃ front p back, d.toList = front ++ p :: back ∧ p.time = time ∧
      (∀ q ∈ front, q.time ≠ time) ∧ d'.toList.Perm (front ++ back) := by
  unfold remove at h
  split at h
  · cases h
  · rename_i i hi
    cases h
    obtain ⟨front, p, back, hlist, hp, -, hfront, hset⟩ := exists_split hi
    refine ⟨front, p, back, hlist, hp, hfront, (toList_sorted_perm _).trans ?_⟩
    show (d.points.set i none).values.Perm _
    rw [hset none, Option.toList_none, List.append_nil]

/-- **A value is written inside of the point of its time**; all other points stay. -/
theorem toList_setValue? {d d' : DaySchedule V C P} {time channel : Nat} {value : Option V}
    (h : d.setValue? time channel value = some d') :
    ∃ front p back, d.toList = front ++ p :: back ∧ p.time = time ∧
      d'.toList = front ++ { p with channels := p.channels.set channel value } :: back := by
  unfold setValue? at h
  split at h
  · cases h
  · rename_i i hi
    obtain ⟨front, p, back, hlist, hp, hget, -, hset⟩ := exists_split hi
    rw [hget] at h
    cases h
    refine ⟨front, p, back, hlist, hp, ?_⟩
    show (d.points.set i _).values = _
    rw [hset]
    simp

theorem setValue?_eq_none_iff (d : DaySchedule V C P) (time channel : Nat) (value : Option V) :
    d.setValue? time channel value = none ↔ ∀ p ∈ d.toList, p.time ≠ time := by
  have hpos := Slots.position?_eq_none_iff (fun p : TimePoint V C => p.time == time) d.points
  simp only [beq_eq_false_iff_ne] at hpos
  rw [show (∀ p ∈ d.toList, p.time ≠ time) ↔ _ from hpos.symm]
  unfold setValue?
  cases hi : d.points.position? fun p => p.time == time with
  | none => simp
  | some i =>
      obtain ⟨_, p, _, _, _, hget, _⟩ := exists_split hi
      simp [hget]

/-! ## 2. The invariant -/

theorem time_le_trans (p q r : TimePoint V C) :
    decide (p.time ≤ q.time) = true → decide (q.time ≤ r.time) = true →
      decide (p.time ≤ r.time) = true := by
  simp only [decide_eq_true_eq]
  exact Nat.le_trans

theorem time_le_total (p q : TimePoint V C) :
    (decide (p.time ≤ q.time) || decide (q.time ≤ p.time)) = true := by
  simp only [Bool.or_eq_true, decide_eq_true_eq]
  exact Nat.le_total _ _

/-- Sorting points of different times puts them in order. -/
theorem ordered_sorted (points : Slots (TimePoint V C) P)
    (hne : points.values.Pairwise fun p q => p.time ≠ q.time)
    (hday : ∀ p ∈ points.values, p.time < secondsPerDay) : (sorted ⟨points⟩).Ordered := by
  have hperm := toList_sorted_perm points
  refine ⟨?_, fun p hp => hday p (hperm.mem_iff.mp hp)⟩
  have hle : (sorted ⟨points⟩).toList.Pairwise fun p q => decide (p.time ≤ q.time) = true :=
    Slots.pairwise_values_sortBy time_le_trans time_le_total points
  have hne' : (sorted ⟨points⟩).toList.Pairwise fun p q => p.time ≠ q.time :=
    (hperm.pairwise_iff fun h => Ne.symm h).mpr hne
  refine (hle.and hne').imp ?_
  rintro p q ⟨h₁, h₂⟩
  exact Nat.lt_of_le_of_ne (by simpa using h₁) h₂

namespace Ordered

theorem empty : (empty : DaySchedule V C P).Ordered := by
  constructor <;> simp

theorem ne {d : DaySchedule V C P} (h : d.Ordered) :
    d.toList.Pairwise fun p q => p.time ≠ q.time :=
  h.ascending.imp Nat.ne_of_lt

/-- An accepted insertion keeps the order. -/
theorem insert {d d' : DaySchedule V C P} {time : Nat} {channels : Channels V C} (h : d.Ordered)
    (e : d.insert time channels = .ok d') : d'.Ordered := by
  obtain ⟨hday, hfull, hfind, rfl⟩ := insert_eq_ok_iff.mp e
  have hperm := Slots.values_append_perm d.points ⟨time, channels⟩ hfull
  refine ordered_sorted _ ((hperm.pairwise_iff fun h => Ne.symm h).mpr ?_) fun p hp => ?_
  · exact List.Pairwise.cons (fun p hp => (hfind p hp).symm) h.ne
  · rcases List.mem_cons.mp (hperm.mem_iff.mp hp) with rfl | hp
    · exact hday
    · exact h.within p hp

/-- An accepted removal keeps the order. -/
theorem remove {d d' : DaySchedule V C P} {time : Nat} (h : d.Ordered)
    (e : d.remove time = .ok d') : d'.Ordered := by
  unfold DaySchedule.remove at e
  split at e
  · cases e
  · rename_i i hi
    cases e
    obtain ⟨front, p, back, hlist, -, -, -, hset⟩ := exists_split hi
    have hsub : (d.points.set i none).values.Sublist d.toList := by
      rw [hset none, hlist]
      simp
    exact ordered_sorted _ (h.ne.sublist hsub) fun q hq => h.within q (hsub.subset hq)

/-- Writing a value keeps the order. -/
theorem setValue {d d' : DaySchedule V C P} {time channel : Nat} {value : Option V}
    (h : d.Ordered) (e : d.setValue? time channel value = some d') : d'.Ordered := by
  obtain ⟨front, p, back, hlist, -, hlist'⟩ := toList_setValue? e
  -- both invariants read the times alone, and those are the same before and after
  have htimes : d'.toList.map (·.time) = d.toList.map (·.time) := by
    rw [hlist, hlist']
    simp
  refine ⟨?_, fun q hq => ?_⟩
  · have := List.pairwise_map.mpr h.ascending
    rw [← htimes] at this
    exact List.pairwise_map.mp this
  · have hmem : q.time ∈ d.toList.map (·.time) := by
      rw [← htimes]
      exact List.mem_map_of_mem hq
    obtain ⟨r, hr, e⟩ := List.mem_map.mp hmem
    rw [← e]
    exact h.within r hr

end Ordered

/-! ## 3. Edits at the end of the day -/

/-- **A point later than all others is added behind them**, if the day has room. -/
theorem exists_insert_last {d : DaySchedule V C P} (h : d.Ordered) {time : Nat}
    (hday : time < secondsPerDay) (hlast : ∀ p ∈ d.toList, p.time < time)
    (hroom : d.toList.length < P) (channels : Channels V C) :
    ∃ d', d.insert time channels = .ok d' ∧ d'.toList = d.toList ++ [⟨time, channels⟩] := by
  have hfull : d.isFull = false := by
    refine Bool.eq_false_iff.mpr fun hfull => ?_
    have hcount : d.toList.length = P := (Slots.isFull_iff d.points).mp hfull
    omega
  have hinsert : d.insert time channels = .ok (sorted ⟨(d.points.append ⟨time, channels⟩).2⟩) :=
    insert_eq_ok_iff.mpr ⟨hday, hfull, fun p hp => Nat.ne_of_lt (hlast p hp), rfl⟩
  refine ⟨_, hinsert, ?_⟩
  have hperm := (toList_insert_perm hinsert).trans (List.perm_append_singleton _ d.toList).symm
  have hascending : (d.toList ++ [(⟨time, channels⟩ : TimePoint V C)]).Pairwise
      fun p q => p.time < q.time := by
    refine List.pairwise_append.mpr ⟨h.ascending, List.pairwise_singleton _ _, ?_⟩
    intro p hp q hq
    rw [List.mem_singleton.mp hq]
    exact hlast p hp
  exact hperm.eq_of_pairwise (fun p q _ _ hpq hqp => absurd hqp (Nat.lt_asymm hpq))
    (h.insert hinsert).ascending hascending

/-- A value is written inside of the last point. -/
theorem exists_setValue_last {d : DaySchedule V C P} (h : d.Ordered)
    {front : List (TimePoint V C)} {p : TimePoint V C} (hlist : d.toList = front ++ [p])
    (channel : Nat) (value : Option V) :
    ∃ d', d.setValue? p.time channel value = some d' ∧
      d'.toList = front ++ [{ p with channels := p.channels.set channel value }] := by
  cases hset : d.setValue? p.time channel value with
  | none =>
      have hne := (setValue?_eq_none_iff d p.time channel value).mp hset p (by simp [hlist])
      exact absurd rfl hne
  | some d' =>
      refine ⟨d', rfl, ?_⟩
      obtain ⟨front', q, back, hsplit, hq, hlist'⟩ := toList_setValue? hset
      have hascending := h.ascending
      rw [hsplit] at hascending
      rw [hlist] at hsplit
      rcases List.eq_nil_or_concat back with rfl | ⟨back, last, rfl⟩
      · obtain ⟨rfl, hpq⟩ := List.append_inj' hsplit rfl
        rw [hlist', (List.cons.inj hpq).1]
      · -- a point behind the one found would be the last one, and as early as that
        have hlast : p = last := by
          rw [List.concat_eq_append, ← List.cons_append, ← List.append_assoc] at hsplit
          exact (List.cons.inj (List.append_inj' hsplit rfl).2).1
        have hmem : last ∈ back.concat last := by simp
        have hlt := List.rel_of_pairwise_cons (List.pairwise_append.mp hascending).2.1 hmem
        rw [hq, ← hlast] at hlt
        exact absurd hlt (Nat.lt_irrefl _)

/-! ## 4. Days built by edits -/

/-- A day that edits can build, starting from no points. An edit that is refused changes nothing and
is left out. -/
inductive Reachable : DaySchedule V C P → Prop where
  | empty : Reachable empty
  | insert {d d' : DaySchedule V C P} (time : Nat) (channels : Channels V C) (h : Reachable d)
      (e : d.insert time channels = .ok d') : Reachable d'
  | remove {d d' : DaySchedule V C P} (time : Nat) (h : Reachable d)
      (e : d.remove time = .ok d') : Reachable d'
  | setValue {d d' : DaySchedule V C P} (time channel : Nat) (value : Option V) (h : Reachable d)
      (e : d.setValue? time channel value = some d') : Reachable d'
  | clear {d : DaySchedule V C P} (h : Reachable d) : Reachable d.clear

/-- **Every day that edits can build is in order.** -/
theorem Reachable.ordered {d : DaySchedule V C P} (h : d.Reachable) : d.Ordered := by
  induction h with
  | empty => exact Ordered.empty
  | insert time channels _ e ih => exact ih.insert e
  | remove time _ e ih => exact ih.remove e
  | setValue time channel value _ e ih => exact ih.setValue e
  | clear _ _ => exact Ordered.empty

end DaySchedule

end Aquarium

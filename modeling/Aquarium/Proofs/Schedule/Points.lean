import Aquarium.Proofs.Schedule.Week

/-!
# A day as a table of times

A day in order has at most one point for each time, so it can be looked up by the time. This file
fixes

* that looking up finds just the points of the day (`Ordered.find?_eq_some_iff`);
* what every edit answers (`insert_eq`, `remove_eq_error_iff`) and what it does to each time
  (`Ordered.find?_insert`, `Ordered.find?_remove`, `Ordered.find?_setValue`);
* that the points of a day built by edits stand in its first slots (`Reachable.packed`), so that
  the points tell what the day is, whatever edits built it (`Reachable.eq_of_mem_iff`).
-/

namespace Aquarium

namespace DaySchedule

variable {V : Type} {C P : Nat}

/-! ## 1. Looking up a time -/

theorem Ordered.nodup {d : DaySchedule V C P} (h : d.Ordered) : d.toList.Nodup :=
  h.ne.imp fun hne => mt (congrArg TimePoint.time) hne

theorem Ordered.eq_of_time_eq {d : DaySchedule V C P} (h : d.Ordered) {p q : TimePoint V C}
    (hp : p ∈ d.toList) (hq : q ∈ d.toList) (ht : p.time = q.time) : p = q := by
  have hsymm : Std.Symm fun p q : TimePoint V C => p.time ≠ q.time := ⟨fun _ _ h => Ne.symm h⟩
  refine Classical.byContradiction fun hne => ?_
  exact h.ne.forall hp hq hne ht

/-- **Looking up a time finds the point of that time.** -/
theorem Ordered.find?_eq_some_iff {d : DaySchedule V C P} (h : d.Ordered) {time : Nat}
    {channels : Channels V C} :
    d.find? time = some channels ↔ ⟨time, channels⟩ ∈ d.toList := by
  unfold find?
  rw [Option.map_eq_some_iff]
  constructor
  · rintro ⟨p, hp, rfl⟩
    have htime : p.time = time := by simpa using List.find?_some hp
    rw [← htime]
    exact List.mem_of_find?_eq_some hp
  · intro hmem
    cases hfind : d.toList.find? fun p => p.time == time with
    | none => exact absurd (List.find?_eq_none.mp hfind _ hmem) (by simp)
    | some p =>
        have htime : p.time = time := by simpa using List.find?_some hfind
        exact ⟨p, rfl, by rw [h.eq_of_time_eq (List.mem_of_find?_eq_some hfind) hmem htime]⟩

theorem find?_isSome_iff (d : DaySchedule V C P) (time : Nat) :
    (d.find? time).isSome = true ↔ ∃ p ∈ d.toList, p.time = time := by
  rw [Option.isSome_iff_ne_none, ne_eq, find?_eq_none_iff]
  simp

/-! ## 2. What the edits answer -/

/-- **What an insertion answers.** -/
theorem insert_eq (d : DaySchedule V C P) (time : Nat) (channels : Channels V C) :
    d.insert time channels =
      if secondsPerDay ≤ time then .error (.invalidTime time)
      else if d.size = P then .error .dayFull
      else if (d.find? time).isSome then .error (.duplicateTime time)
      else .ok (sorted ⟨(d.points.append ⟨time, channels⟩).2⟩) := by
  have hfull : d.isFull = true ↔ d.size = P := Slots.isFull_iff d.points
  unfold insert
  simp only [hfull]

/-- **A removal is refused just if there is no point of its time.** -/
theorem remove_eq_error_iff (d : DaySchedule V C P) (time : Nat) (cause : Refusal) :
    d.remove time = .error cause ↔ d.find? time = none ∧ cause = .timeNotFound time := by
  have hpos := Slots.position?_eq_none_iff (fun p : TimePoint V C => p.time == time) d.points
  simp only [beq_eq_false_iff_ne] at hpos
  rw [find?_eq_none_iff, show (∀ p ∈ d.toList, p.time ≠ time) ↔ _ from hpos.symm]
  unfold remove
  cases d.points.position? fun p => p.time == time with
  | none => simp [eq_comm]
  | some i => simp

/-! ## 3. What the edits do to each time -/

namespace Ordered

variable {d d' : DaySchedule V C P} {time : Nat}

theorem find?_insert {channels : Channels V C} (h : d.Ordered)
    (e : d.insert time channels = .ok d') (t : Nat) :
    d'.find? t = if t = time then some channels else d.find? t := by
  have hfree : d.find? time = none := (find?_eq_none_iff d time).mpr (insert_eq_ok_iff.mp e).2.2.1
  refine Option.ext fun c => ?_
  rw [(h.insert e).find?_eq_some_iff, (toList_insert_perm e).mem_iff, List.mem_cons,
    ← h.find?_eq_some_iff, TimePoint.mk.injEq]
  by_cases ht : t = time
  · subst ht
    simp [hfree, eq_comm]
  · simp [ht]

theorem find?_remove (h : d.Ordered) (e : d.remove time = .ok d') (t : Nat) :
    d'.find? t = if t = time then none else d.find? t := by
  obtain ⟨front, p, back, hlist, rfl, hfront, hperm⟩ := toList_remove_perm e
  have hback : ∀ q ∈ back, p.time < q.time := by
    have hascending := h.ascending
    rw [hlist] at hascending
    exact (List.pairwise_cons.mp (List.pairwise_append.mp hascending).2.1).1
  by_cases ht : t = p.time
  · rw [if_pos ht, find?_eq_none_iff, ht]
    intro q hq
    rcases List.mem_append.mp (hperm.mem_iff.mp hq) with hq | hq
    · exact hfront q hq
    · exact (Nat.ne_of_lt (hback q hq)).symm
  · rw [if_neg ht]
    refine Option.ext fun c => ?_
    have hne : (⟨t, c⟩ : TimePoint V C) ≠ p := fun heq => ht (congrArg TimePoint.time heq)
    rw [(h.remove e).find?_eq_some_iff, h.find?_eq_some_iff, hperm.mem_iff, hlist]
    simp [hne]

theorem find?_setValue {channel : Nat} {value : Option V} (h : d.Ordered)
    (e : d.setValue? time channel value = some d') (t : Nat) :
    d'.find? t = if t = time then (d.find? t).map (·.set channel value) else d.find? t := by
  obtain ⟨front, p, back, hlist, rfl, hlist'⟩ := toList_setValue? e
  by_cases ht : t = p.time
  · subst ht
    have hbefore : d.find? p.time = some p.channels :=
      h.find?_eq_some_iff.mpr (by rw [hlist]; simp)
    have hafter : d'.find? p.time = some (p.channels.set channel value) :=
      (h.setValue e).find?_eq_some_iff.mpr (by rw [hlist']; simp)
    rw [if_pos rfl, hbefore, hafter, Option.map_some]
  · rw [if_neg ht]
    refine Option.ext fun c => ?_
    rw [(h.setValue e).find?_eq_some_iff, h.find?_eq_some_iff, hlist, hlist']
    have hne : (⟨t, c⟩ : TimePoint V C) ≠ p := fun heq => ht (congrArg TimePoint.time heq)
    simp [hne, ht]

end Ordered

/-! ## 4. The points tell what the day is -/

theorem packed_sorted (points : Slots (TimePoint V C) P) : (sorted ⟨points⟩).points.Packed :=
  Slots.packed_sortBy time_le_trans time_le_total points

/-- **The points of a day built by edits stand in its first slots.** -/
theorem Reachable.packed {d : DaySchedule V C P} (h : d.Reachable) : d.points.Packed := by
  induction h with
  | empty => exact Slots.packed_empty
  | insert time channels _ e _ =>
      obtain ⟨-, -, -, rfl⟩ := insert_eq_ok_iff.mp e
      exact packed_sorted _
  | remove time _ e _ =>
      unfold DaySchedule.remove at e
      split at e
      · cases e
      · cases e
        exact packed_sorted _
  | setValue time channel value _ e ih =>
      unfold DaySchedule.setValue? at e
      split at e
      · cases e
      · obtain ⟨p, hp, rfl⟩ := Option.map_eq_some_iff.mp e
        exact ih.set_some hp _
  | clear _ _ => exact Slots.packed_empty

/-- **Days built by edits that have the same points are equal**, whatever edits built them. -/
theorem Reachable.eq_of_mem_iff {d e : DaySchedule V C P} (hd : d.Reachable) (he : e.Reachable)
    (h : ∀ p, p ∈ d.toList ↔ p ∈ e.toList) : d = e := by
  have hperm : d.toList.Perm e.toList :=
    (List.perm_ext_iff_of_nodup hd.ordered.nodup he.ordered.nodup).mpr h
  have hlist : d.toList = e.toList :=
    hperm.eq_of_pairwise (fun p q _ _ hpq hqp => absurd hqp (Nat.lt_asymm hpq))
      hd.ordered.ascending he.ordered.ascending
  exact congrArg mk (hd.packed.ext_values he.packed hlist)

end DaySchedule

/-- Every day of a week built by edits is built by edits. -/
theorem WeekSchedule.Reachable.day {V : Type} {C P : Nat} {s : WeekSchedule V C P}
    (h : s.Reachable) (e : Day) : (s.day e).Reachable := by
  have hset : ∀ {s : WeekSchedule V C P} (d : Day) {points : DaySchedule V C P},
      (s.day e).Reachable → ((s.day d).Reachable → points.Reachable) →
        ((s.setDay d points).day e).Reachable := by
    intro s d points he hp
    rw [day_setDay]
    split
    · rename_i hd
      exact hp (hd ▸ he)
    · exact he
  induction h with
  | empty => rw [day_empty]; exact .empty
  | insert d time channels _ hi ih =>
      obtain ⟨points, hp, rfl⟩ := edit_eq_ok_iff.mp hi
      exact hset d ih fun h => .insert time channels h hp
  | remove d time _ hr ih =>
      obtain ⟨points, hp, rfl⟩ := edit_eq_ok_iff.mp hr
      exact hset d ih fun h => .remove time h hp
  | setDay d _ hp ih => exact hset d ih fun _ => hp
  | setValue d time channel value _ hw ih =>
      exact hset d ih fun h => .setValue time channel value h hw
  | clearDay d _ ih => exact hset d ih fun h => .clear h
  | clear _ _ => rw [WeekSchedule.clear, day_empty]; exact .empty

end Aquarium

import Aquarium.Proofs.Schedule.Search

/-!
# Occurrences of events

Time is counted here in seconds from the midnight that started some week, and not wrapped. An event
occurs once in every week, at each moment whose second of the week is its own. The occurrence that is
current at a moment is the latest one of its channel that is not after it.

* `CurrentAt`: that occurrence, said without any search;
* `currentAt_iff`: the search for the current event finds the event of which it is an occurrence;
* `LatestAt`: the same, also for an occurrence before the midnight that moments are counted from;
* `exists_latestAt`: what the search finds always has such an occurrence.
-/

namespace Aquarium

/-! ## 1. The week of a moment -/

/-- The way back from a moment to an occurrence less than a week before it. -/
theorem weekElapsed_mod {since now : Nat} (hle : since ≤ now) (hlt : now < since + secondsPerWeek) :
    weekElapsed (since % secondsPerWeek) (now % secondsPerWeek) = now - since := by
  unfold weekElapsed
  split <;> simp only [secondsPerWeek] at * <;> omega

/-- Any moment of a second of the week is at least as far back as the way back to that second. -/
theorem weekElapsed_mod_le {since now : Nat} (hle : since ≤ now) :
    weekElapsed (since % secondsPerWeek) (now % secondsPerWeek) ≤ now - since := by
  unfold weekElapsed
  split <;> simp only [secondsPerWeek] at * <;> omega

/-- A week later it is the same time of the week. -/
theorem WeekTime.ofTimeOfWeek_add_week (now : Nat) :
    ofTimeOfWeek (now + secondsPerWeek) = ofTimeOfWeek now := by
  simp only [ofTimeOfWeek, Nat.add_mod_right]

/-! ## 2. The occurrence that is current -/

namespace WeekSchedule

variable {V : Type} {C P : Nat}

theorem Ordered.event_time_lt {s : WeekSchedule V C P} (hs : s.Ordered) {channel : Nat}
    {e : WeekEvent V} (he : e ∈ s.events channel) : e.time < secondsPerWeek := by
  obtain ⟨d, x, hx, rfl⟩ := mem_events_iff.mp he
  exact WeekTime.position_lt (t := ⟨d, x.time⟩) ((hs d).event_within hx)

/-- The second of the week of an event tells it from the others of its channel. -/
theorem Ordered.event_eq_of_time_eq {s : WeekSchedule V C P} (hs : s.Ordered) {channel : Nat}
    {e f : WeekEvent V} (he : e ∈ s.events channel) (hf : f ∈ s.events channel)
    (ht : e.time = f.time) : e = f := by
  obtain ⟨d, x, hx, rfl⟩ := mem_events_iff.mp he
  obtain ⟨d', y, hy, rfl⟩ := mem_events_iff.mp hf
  have hxt := (hs d).event_within hx
  have hyt := (hs d').event_within hy
  simp only [atDay_time, secondsPerDay] at *
  have hd : d = d' := Day.index_injective (by omega)
  subst hd
  rw [(hs d).event_eq_of_time_eq hx hy (by omega)]

/-- `moment` is an occurrence of the event `e`, and the latest one of the channel up to `now`. -/
structure CurrentAt (s : WeekSchedule V C P) (channel now moment : Nat) (e : WeekEvent V) :
    Prop where
  mem : e ∈ s.events channel
  occurs : moment % secondsPerWeek = e.time
  le : moment ≤ now
  latest : ∀ f ∈ s.events channel, ∀ other, other % secondsPerWeek = f.time → other ≤ now →
    other ≤ moment

theorem CurrentAt.channel_lt {s : WeekSchedule V C P} {channel now moment : Nat} {e : WeekEvent V}
    (h : s.CurrentAt channel now moment e) : channel < C := by
  refine Classical.byContradiction fun hge => ?_
  have hmem := h.mem
  rw [events_eq_nil_of_le s (Nat.not_lt.mp hge)] at hmem
  exact List.not_mem_nil hmem

/-- The current occurrence is less than a week old: a week later its event occurs again. -/
theorem CurrentAt.lt {s : WeekSchedule V C P} {channel now moment : Nat} {e : WeekEvent V}
    (h : s.CurrentAt channel now moment e) : now < moment + secondsPerWeek := by
  refine Classical.byContradiction fun hge => ?_
  have hagain := h.latest e h.mem (moment + secondsPerWeek)
    (by rw [Nat.add_mod_right]; exact h.occurs) (Nat.not_lt.mp hge)
  simp only [secondsPerWeek] at hagain
  omega

/-- **The search finds the event whose occurrence is current.** -/
theorem currentAt_iff {s : WeekSchedule V C P} (hs : s.Ordered) {channel now moment : Nat}
    {e : WeekEvent V} :
    s.CurrentAt channel now moment e ↔
      s.current? channel (WeekTime.ofTimeOfWeek now) .allDays = some e ∧
        moment % secondsPerWeek = e.time ∧ moment ≤ now ∧ now < moment + secondsPerWeek := by
  rw [current?_eq_some_iff hs (WeekTime.valid_ofTimeOfWeek now), WeekTime.position_ofTimeOfWeek]
  constructor
  · intro h
    refine ⟨⟨h.mem, fun f hf hne => ?_⟩, h.occurs, h.le, h.lt⟩
    have hft := hs.event_time_lt hf
    rw [← h.occurs, weekElapsed_mod h.le h.lt]
    refine Classical.byContradiction fun hge => ?_
    -- the latest occurrence of `f` would be at least as late as that of `e`
    have hway : now - weekElapsed f.time (now % secondsPerWeek) ≤ now ∧
        (now - weekElapsed f.time (now % secondsPerWeek)) % secondsPerWeek = f.time := by
      have hle := h.le
      have hnow := h.lt
      revert hge
      unfold weekElapsed
      split <;> intro hge <;> simp only [secondsPerWeek] at * <;> omega
    have hlatest := h.latest f hf _ hway.2 hway.1
    have heq : now - weekElapsed f.time (now % secondsPerWeek) = moment := by
      have hle := h.le
      omega
    rw [heq, h.occurs] at hway
    exact hne (hs.event_eq_of_time_eq hf h.mem hway.2.symm)
  · rintro ⟨⟨hmem, hleast⟩, hocc, hle, hlt⟩
    refine ⟨hmem, hocc, hle, fun f hf other ht ho => ?_⟩
    by_cases hfe : f = e
    · subst hfe
      rw [← hocc] at ht
      simp only [secondsPerWeek] at *
      omega
    · have hnear := hleast f hf hfe
      rw [← hocc, weekElapsed_mod hle hlt, ← ht] at hnear
      have hfar := weekElapsed_mod_le ho
      omega

/-! ## 3. Occurrences of the week before -/

/-- `moment` is the latest occurrence up to `now` of any event of the channel, one of `e`. It is an
integer, since in the first week it may lie before the midnight that moments are counted from. -/
structure LatestAt (s : WeekSchedule V C P) (channel now : Nat) (moment : Int) (e : WeekEvent V) :
    Prop where
  mem : e ∈ s.events channel
  occurs : moment % secondsPerWeek = e.time
  le : moment ≤ now
  latest : ∀ f ∈ s.events channel, ∀ other : Int, other % secondsPerWeek = f.time → other ≤ now →
    other ≤ moment

variable {s : WeekSchedule V C P} {channel now : Nat} {e : WeekEvent V}

/-- From the midnight on that moments are counted from, it is the occurrence that is current. -/
theorem latestAt_iff_currentAt {moment : Nat} :
    s.LatestAt channel now moment e ↔ s.CurrentAt channel now moment e := by
  constructor
  · intro h
    refine ⟨h.mem, by exact_mod_cast h.occurs, by exact_mod_cast h.le, fun f hf other ht ho => ?_⟩
    have hlatest := h.latest f hf other (by exact_mod_cast ht) (by exact_mod_cast ho)
    exact_mod_cast hlatest
  · intro h
    refine ⟨h.mem, by exact_mod_cast h.occurs, by exact_mod_cast h.le, fun f hf other ht ho => ?_⟩
    rcases Int.lt_or_le other 0 with hneg | hpos
    · omega
    · obtain ⟨other, rfl⟩ := Int.eq_ofNat_of_zero_le hpos
      exact_mod_cast h.latest f hf other (by exact_mod_cast ht) (by exact_mod_cast ho)

/-- Moments may be counted from a week before. -/
theorem latestAt_add_week {moment : Int} :
    s.LatestAt channel (now + secondsPerWeek) (moment + secondsPerWeek) e ↔
      s.LatestAt channel now moment e := by
  constructor
  · intro h
    refine ⟨h.mem, ?_, ?_, fun f hf other ht ho => ?_⟩
    · rw [← h.occurs, Int.add_emod_right]
    · have := h.le
      push_cast at this
      omega
    · have := h.latest f hf (other + secondsPerWeek) (by rw [Int.add_emod_right, ht])
        (by push_cast; omega)
      omega
  · intro h
    refine ⟨h.mem, ?_, ?_, fun f hf other ht ho => ?_⟩
    · rw [Int.add_emod_right, h.occurs]
    · have := h.le
      push_cast
      omega
    · have := h.latest f hf (other - secondsPerWeek) (by rw [Int.sub_emod_right, ht])
        (by push_cast at ho; omega)
      omega

/-- The latest occurrence is less than a week old. -/
theorem LatestAt.lt {moment : Int} (h : s.LatestAt channel now moment e) :
    (now : Int) < moment + secondsPerWeek := by
  refine Int.not_le.mp fun hle => ?_
  have hagain := h.latest e h.mem (moment + secondsPerWeek)
    (by rw [Int.add_emod_right]; exact h.occurs) hle
  simp only [secondsPerWeek] at hagain
  omega

/-- Counted from a week before, the latest occurrence is one that is current. -/
theorem LatestAt.currentAt {moment : Int} (h : s.LatestAt channel now moment e) :
    s.CurrentAt channel (now + secondsPerWeek) (moment + secondsPerWeek).toNat e := by
  have hpos : 0 ≤ moment + secondsPerWeek := by
    have := h.lt
    omega
  rw [← latestAt_iff_currentAt, Int.toNat_of_nonneg hpos, latestAt_add_week]
  exact h

/-- The event that the search finds has a latest occurrence. -/
theorem exists_latestAt (hs : s.Ordered)
    (h : s.current? channel (WeekTime.ofTimeOfWeek now) .allDays = some e) :
    ∃ moment, s.LatestAt channel now moment e := by
  have hmem := ((current?_eq_some_iff hs (WeekTime.valid_ofTimeOfWeek now) e).mp h).1
  have htime := hs.event_time_lt hmem
  have hback := weekElapsed_lt e.time (now % secondsPerWeek)
  obtain ⟨moment, hmoment⟩ : ∃ moment,
      moment + weekElapsed e.time (now % secondsPerWeek) = now + secondsPerWeek :=
    ⟨now + secondsPerWeek - weekElapsed e.time (now % secondsPerWeek), by omega⟩
  have hcurrent : s.CurrentAt channel (now + secondsPerWeek) moment e := by
    rw [currentAt_iff hs, WeekTime.ofTimeOfWeek_add_week]
    refine ⟨h, ?_, by omega, by omega⟩
    unfold weekElapsed at hmoment
    split at hmoment <;> simp only [secondsPerWeek] at * <;> omega
  refine ⟨moment - secondsPerWeek, ?_⟩
  rw [← latestAt_add_week, Int.sub_add_cancel, latestAt_iff_currentAt]
  exact hcurrent

end WeekSchedule

end Aquarium

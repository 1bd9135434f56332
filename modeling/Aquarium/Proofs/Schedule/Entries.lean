import Aquarium.Device.Outputs
import Aquarium.Proofs.Schedule.Week
import Mathlib.Data.List.Permutation

/-!
# A schedule and its entries

The entries of a schedule stand in the order of days, times and channels. Taking them up one after
another builds the schedule again, point by point, except that a point which sets nothing leaves no
entry and is not built.

* `Reachable.addEntry`, `ofEntries_reachable`: what entries build, edits can build too;
* `exists_loads_point`, `exists_loads_day`, `exists_load_days`: taking up the entries of a point adds
  it at the end of its day, and so on up to the week;
* `Ordered.exists_rebuilt`, `ofEntries_entries`: a schedule in order is built again from its entries.
-/

namespace Aquarium

namespace WeekSchedule

variable {V : Type} {C P : Nat}

/-! ## 1. Taking up entries -/

theorem Reachable.addEntry {s s' : WeekSchedule V C P} {e : Entry V} (h : s.Reachable)
    (hadd : s.addEntry e = .ok s') : s'.Reachable := by
  unfold WeekSchedule.addEntry at hadd
  split at hadd
  · cases hadd
  · cases hset : (s.day e.day).setValue? e.time e.channel (some e.value) with
    | some points =>
        rw [hset] at hadd
        cases hadd
        exact h.setValue e.day e.time e.channel (some e.value) hset
    | none =>
        rw [hset] at hadd
        exact h.insert e.day e.time _ hadd

theorem Reachable.foldlM_addEntry {s s' : WeekSchedule V C P} {es : List (Entry V)}
    (h : s.Reachable) (hload : es.foldlM WeekSchedule.addEntry s = .ok s') : s'.Reachable := by
  induction es generalizing s with
  | nil =>
      cases hload
      exact h
  | cons e es ih =>
      rw [List.foldlM_cons] at hload
      cases hadd : s.addEntry e with
      | error cause => rw [hadd] at hload; cases hload
      | ok next =>
          rw [hadd] at hload
          exact ih (h.addEntry hadd) hload

/-- **What entries build, edits can build too.** -/
theorem ofEntries_reachable {s : WeekSchedule V C P} {es : List (Entry V)}
    (h : ofEntries es = .ok s) : s.Reachable :=
  Reachable.empty.foldlM_addEntry h

/-- An entry of the time of the last point joins that point. -/
theorem exists_addEntry_last {s : WeekSchedule V C P} (hs : s.Ordered) {e : Entry V}
    (hc : e.channel < C) {front : List (TimePoint V C)} {p : TimePoint V C}
    (hlist : (s.day e.day).toList = front ++ [p]) (htime : p.time = e.time) :
    ∃ points, s.addEntry e = .ok (s.setDay e.day points) ∧ points.Ordered ∧
      points.toList =
        front ++ [{ p with channels := p.channels.set e.channel (some e.value) }] := by
  obtain ⟨points, hset, hpoints⟩ :=
    DaySchedule.exists_setValue_last (hs e.day) hlist e.channel (some e.value)
  rw [htime] at hset
  refine ⟨points, ?_, (hs e.day).setValue hset, hpoints⟩
  unfold addEntry
  rw [if_neg (Nat.not_le.mpr hc), hset]

/-- An entry later than all points of its day becomes a point behind them. -/
theorem exists_addEntry_new {s : WeekSchedule V C P} (hs : s.Ordered) {e : Entry V}
    (hc : e.channel < C) (hday : e.time < secondsPerDay)
    (hlast : ∀ p ∈ (s.day e.day).toList, p.time < e.time)
    (hroom : (s.day e.day).toList.length < P) :
    ∃ points, s.addEntry e = .ok (s.setDay e.day points) ∧ points.Ordered ∧
      points.toList =
        (s.day e.day).toList ++ [⟨e.time, Slots.empty.set e.channel (some e.value)⟩] := by
  obtain ⟨points, hinsert, hpoints⟩ := DaySchedule.exists_insert_last (hs e.day) hday hlast hroom
    (Slots.empty.set e.channel (some e.value))
  have hnone := (DaySchedule.setValue?_eq_none_iff (s.day e.day) e.time e.channel
    (some e.value)).mpr fun p hp => Nat.ne_of_lt (hlast p hp)
  refine ⟨points, ?_, (hs e.day).insert hinsert, hpoints⟩
  unfold addEntry
  rw [if_neg (Nat.not_le.mpr hc), hnone]
  exact edit_eq_ok_iff.mpr ⟨points, hinsert, rfl⟩

/-! ## 2. Loading a point, a day, a week -/

/-- Taking up entries of one day leads from `s` to `s'`, in which that day has these points. -/
structure Loads (s : WeekSchedule V C P) (d : Day) (es : List (Entry V))
    (points : List (TimePoint V C)) (s' : WeekSchedule V C P) : Prop where
  load : es.foldlM addEntry s = .ok s'
  ordered : s'.Ordered
  day : (s'.day d).toList = points
  others : ∀ d', d' ≠ d → s'.day d' = s.day d'

theorem Loads.nil {s : WeekSchedule V C P} (hs : s.Ordered) (d : Day) :
    Loads s d [] (s.day d).toList s :=
  ⟨rfl, hs, rfl, fun _ _ => rfl⟩

theorem Loads.append {s s₁ s₂ : WeekSchedule V C P} {d : Day} {es₁ es₂ : List (Entry V)}
    {points₁ points₂ : List (TimePoint V C)} (h₁ : Loads s d es₁ points₁ s₁)
    (h₂ : Loads s₁ d es₂ points₂ s₂) : Loads s d (es₁ ++ es₂) points₂ s₂ := by
  refine ⟨?_, h₂.ordered, h₂.day, fun d' hd => ?_⟩
  · rw [List.foldlM_append, h₁.load]
    exact h₂.load
  · rw [h₂.others d' hd, h₁.others d' hd]

/-- One entry, taken up into its day. -/
theorem Loads.single {s : WeekSchedule V C P} {e : Entry V} {points : DaySchedule V C P}
    (hs : s.Ordered) (hadd : s.addEntry e = .ok (s.setDay e.day points)) (hp : points.Ordered) :
    Loads s e.day [e] points.toList (s.setDay e.day points) := by
  refine ⟨?_, hs.setDay e.day hp, ?_, fun d' hd => ?_⟩
  · rw [List.foldlM_cons, hadd]
    rfl
  · rw [day_setDay_self]
  · rw [day_setDay, if_neg hd]

/-- Entries of the time of the last point write their values into it. -/
theorem exists_loads_values {s : WeekSchedule V C P} (hs : s.Ordered) {d : Day} {time : Nat}
    {front : List (TimePoint V C)} {channels : Channels V C}
    (hlist : (s.day d).toList = front ++ [⟨time, channels⟩]) {xs : List (Nat × V)}
    (hxs : ∀ x ∈ xs, x.1 < C) :
    ∃ s', Loads s d (xs.map fun (channel, value) => ⟨d, time, channel, value⟩)
      (front ++ [⟨time, xs.foldl (fun t x => t.set x.1 (some x.2)) channels⟩]) s' := by
  induction xs generalizing s channels with
  | nil =>
      refine ⟨s, ?_⟩
      have hnil := Loads.nil hs d
      rw [hlist] at hnil
      exact hnil
  | cons x xs ih =>
      obtain ⟨channel, value⟩ := x
      obtain ⟨points, hadd, hordered, hpoints⟩ := exists_addEntry_last hs
        (e := ⟨d, time, channel, value⟩) (hxs _ List.mem_cons_self) hlist rfl
      have hfirst := Loads.single hs hadd hordered
      obtain ⟨s', hrest⟩ := ih hfirst.ordered (hfirst.day.trans hpoints)
        fun y hy => hxs y (List.mem_cons_of_mem _ hy)
      exact ⟨s', hfirst.append hrest⟩

/-- A point sets some channel. -/
def sets (p : TimePoint V C) : Bool := !p.channels.values.isEmpty

theorem pointEntries_eq_nil_iff (d : Day) (p : TimePoint V C) :
    pointEntries d p = [] ↔ sets p = false := by
  unfold pointEntries sets
  rw [List.map_eq_nil_iff, ← Slots.map_snd_indexed]
  cases p.channels.indexed <;> simp

/-- **The entries of a point add it at the end of its day**, unless it sets nothing. -/
theorem exists_loads_point {s : WeekSchedule V C P} (hs : s.Ordered) (d : Day)
    {p : TimePoint V C} (hday : p.time < secondsPerDay)
    (hlast : ∀ q ∈ (s.day d).toList, q.time < p.time) (hroom : (s.day d).toList.length < P) :
    ∃ s', Loads s d (pointEntries d p) ((s.day d).toList ++ [p].filter sets) s' := by
  cases hindexed : p.channels.indexed with
  | nil =>
      have hentries : pointEntries d p = [] := by rw [pointEntries, hindexed]; rfl
      have hsets := (pointEntries_eq_nil_iff d p).mp hentries
      refine ⟨s, ?_⟩
      rw [hentries, List.filter_cons_of_neg (by rw [hsets]; decide), List.filter_nil,
        List.append_nil]
      exact Loads.nil hs d
  | cons x xs =>
      obtain ⟨channel, value⟩ := x
      have hchannels : ∀ x ∈ p.channels.indexed, x.1 < C := fun x hx => Slots.lt_of_mem_indexed hx
      have hentries : pointEntries d p = ⟨d, p.time, channel, value⟩ ::
          xs.map fun (channel, value) => ⟨d, p.time, channel, value⟩ := by
        rw [pointEntries, hindexed]
        rfl
      have hsets : sets p = true := by
        cases hsets : sets p with
        | true => rfl
        | false =>
            rw [(pointEntries_eq_nil_iff d p).mpr hsets] at hentries
            cases hentries
      have hcells := Slots.foldl_set_indexed p.channels
      rw [hindexed] at hchannels hcells
      obtain ⟨points, hadd, hordered, hpoints⟩ := exists_addEntry_new hs
        (e := ⟨d, p.time, channel, value⟩) (hchannels _ List.mem_cons_self) hday hlast hroom
      have hfirst := Loads.single hs hadd hordered
      obtain ⟨s', hrest⟩ := exists_loads_values hfirst.ordered (hfirst.day.trans hpoints)
        fun y hy => hchannels y (List.mem_cons_of_mem _ hy)
      refine ⟨s', ?_⟩
      rw [List.foldl_cons] at hcells
      rw [hcells] at hrest
      rw [hentries, List.filter_cons_of_pos hsets, List.filter_nil]
      exact hfirst.append hrest

/-- **The entries of the points of a day add these points**, those that set nothing left out. -/
theorem exists_loads_day {s : WeekSchedule V C P} (hs : s.Ordered) (d : Day)
    {points : List (TimePoint V C)} (hascending : points.Pairwise fun p q => p.time < q.time)
    (hday : ∀ p ∈ points, p.time < secondsPerDay)
    (hlast : ∀ p ∈ points, ∀ q ∈ (s.day d).toList, q.time < p.time)
    (hroom : (s.day d).toList.length + points.length ≤ P) :
    ∃ s', Loads s d (points.flatMap (pointEntries d)) ((s.day d).toList ++ points.filter sets)
      s' := by
  induction points generalizing s with
  | nil =>
      refine ⟨s, ?_⟩
      rw [List.flatMap_nil, List.filter_nil, List.append_nil]
      exact Loads.nil hs d
  | cons p points ih =>
      rw [List.length_cons] at hroom
      obtain ⟨s₁, hfirst⟩ := exists_loads_point hs d (hday p List.mem_cons_self)
        (hlast p List.mem_cons_self) (by omega)
      have hlength : ([p].filter sets).length ≤ 1 := List.length_filter_le sets [p]
      obtain ⟨s₂, hrest⟩ := ih hfirst.ordered hascending.of_cons
        (fun q hq => hday q (List.mem_cons_of_mem p hq))
        (fun q hq r hr => by
          rw [hfirst.day] at hr
          rcases List.mem_append.mp hr with hr | hr
          · exact hlast q (List.mem_cons_of_mem p hq) r hr
          · rw [List.mem_singleton.mp (List.mem_filter.mp hr).1]
            exact List.rel_of_pairwise_cons hascending hq)
        (by
          rw [hfirst.day, List.length_append]
          omega)
      refine ⟨s₂, ?_⟩
      have hboth := hfirst.append hrest
      rw [hfirst.day, List.append_assoc, ← List.filter_append] at hboth
      exact hboth

/-- Points for every day that a week can hold. -/
structure Fits (P : Nat) (points : Day → List (TimePoint V C)) : Prop where
  ascending : ∀ d, (points d).Pairwise fun p q => p.time < q.time
  within : ∀ d, ∀ p ∈ points d, p.time < secondsPerDay
  room : ∀ d, (points d).length ≤ P

theorem exists_load_days {points : Day → List (TimePoint V C)} (hfits : Fits P points)
    (days : List Day) (hnodup : days.Nodup) {s : WeekSchedule V C P} (hs : s.Ordered)
    (hempty : ∀ d ∈ days, (s.day d).toList = []) :
    ∃ s', (days.flatMap fun d => (points d).flatMap (pointEntries d)).foldlM addEntry s = .ok s' ∧
      s'.Ordered ∧ (∀ d ∈ days, (s'.day d).toList = (points d).filter sets) ∧
      ∀ d, d ∉ days → s'.day d = s.day d := by
  induction days generalizing s with
  | nil => exact ⟨s, rfl, hs, fun _ h => absurd h List.not_mem_nil, fun _ _ => rfl⟩
  | cons d days ih =>
      have hd := hempty d List.mem_cons_self
      obtain ⟨hfresh, hnodup⟩ := List.nodup_cons.mp hnodup
      obtain ⟨s₁, hfirst⟩ := exists_loads_day hs d (hfits.ascending d) (hfits.within d)
        (fun p hp q hq => by rw [hd] at hq; cases hq)
        (by rw [hd]; simpa using hfits.room d)
      rw [hd, List.nil_append] at hfirst
      obtain ⟨s₂, hload, hordered, hdays, hothers⟩ := ih hnodup hfirst.ordered fun d' hd' => by
        rw [hfirst.others d' fun e => hfresh (e ▸ hd')]
        exact hempty d' (List.mem_cons_of_mem d hd')
      refine ⟨s₂, ?_, hordered, fun d' hd' => ?_, fun d' hd' => ?_⟩
      · rw [List.flatMap_cons, List.foldlM_append, hfirst.load]
        exact hload
      · rcases List.mem_cons.mp hd' with rfl | hd'
        · rw [hothers d' hfresh, hfirst.day]
        · exact hdays d' hd'
      · rw [hothers d' fun h => hd' (List.mem_cons_of_mem d h)]
        exact hfirst.others d' fun e => hd' (e ▸ List.mem_cons_self)

/-! ## 3. A schedule from its entries -/

theorem flatMap_pointEntries_filter (d : Day) (points : List (TimePoint V C)) :
    (points.filter sets).flatMap (pointEntries d) = points.flatMap (pointEntries d) := by
  induction points with
  | nil => rfl
  | cons p points ih =>
      rw [List.filter_cons]
      split
      · rw [List.flatMap_cons, List.flatMap_cons, ih]
      · rename_i hsets
        rw [List.flatMap_cons, ih,
          (pointEntries_eq_nil_iff d p).mpr (Bool.eq_false_iff.mpr hsets), List.nil_append]

/-- **The entries of a schedule in order build it again**, without the points that set nothing. -/
theorem Ordered.exists_rebuilt {s : WeekSchedule V C P} (hs : s.Ordered) :
    ∃ t : WeekSchedule V C P, ofEntries s.entries = .ok t ∧
      ∀ d, (t.day d).toList = (s.day d).toList.filter sets := by
  have hfits : Fits P fun d => (s.day d).toList :=
    ⟨fun d => (hs d).ascending, fun d => (hs d).within, fun d => Slots.count_le (s.day d).points⟩
  obtain ⟨t, hload, -, hdays, -⟩ := exists_load_days hfits Day.all (by decide)
    (ordered_empty (V := V) (C := C) (P := P)) fun d _ => by
      rw [day_empty, DaySchedule.toList_empty]
  exact ⟨t, hload, fun d => hdays d (Day.mem_all d)⟩

/-- The schedule built again has the same entries. -/
theorem ofEntries_entries {s : WeekSchedule V C P} (hs : s.Ordered) :
    ∃ t : WeekSchedule V C P, ofEntries s.entries = .ok t ∧ t.entries = s.entries := by
  obtain ⟨t, hload, hdays⟩ := hs.exists_rebuilt
  refine ⟨t, hload, ?_⟩
  unfold entries dayEntries
  refine congrArg List.flatten (List.map_congr_left fun d _ => ?_)
  rw [hdays d, flatMap_pointEntries_filter]

end WeekSchedule

/-! ## 4. One point -/

/-- A week with one point: the first channel on Monday at eight. -/
def mondayMorning (value : Float32) : LightSchedule :=
  WeekSchedule.empty.setDay .monday
    ⟨⟨some ⟨28800, ⟨[some value, none, none, none], rfl⟩⟩ :: List.replicate 11 none, rfl⟩⟩

theorem insert_mondayMorning (value : Float32) :
    WeekSchedule.empty.insert .monday 28800 ⟨[some value, none, none, none], rfl⟩ =
      .ok (mondayMorning value) := by cbv

theorem remove_mondayMorning (value : Float32) :
    (mondayMorning value).remove .monday 28800 = .ok .empty := by
  have hday : ((mondayMorning value).day .monday).remove 28800 = .ok (.sorted .empty) := rfl
  have hsorted : DaySchedule.sorted (.empty : DaySchedule Float32 4 12) = .empty := by cbv
  simp only [WeekSchedule.remove, WeekSchedule.edit, hday]
  exact congrArg (fun d => Except.ok ((mondayMorning value).setDay .monday d)) hsorted

theorem reachable_mondayMorning (value : Float32) : (mondayMorning value).Reachable :=
  .insert .monday 28800 ⟨[some value, none, none, none], rfl⟩ .empty (insert_mondayMorning value)

theorem entries_mondayMorning (value : Float32) :
    (mondayMorning value).entries = [⟨.monday, 28800, 0, value⟩] := by cbv

theorem ofEntries_mondayMorning (value : Float32) :
    WeekSchedule.ofEntries [⟨.monday, 28800, 0, value⟩] = .ok (mondayMorning value) := by cbv

end Aquarium

import Aquarium.Proofs.Schedule.Entries
import Aquarium.Proofs.Schedule.Maps

/-!
# Which entries make a schedule

Any list of entries is taken up one after another, in the order of the list. This file says when that
succeeds, what comes out, and which entry is at fault when it fails.

* `refusal?`: why an entry is refused, read off the entries before it;
* `addEntry_eq_ok`: an entry that is accepted writes its value under its key and does nothing else;
* `Holds.addEntry`: what holds of a prefix of the list holds of the next longer one;
* `mem_entries_iff`, `entries_before`: the entries of a schedule are its values, in order;
* `ofEntries_spec`: the main statement.
-/

namespace Aquarium

/-- What tells an entry from the others. -/
def Entry.key {V : Type} (e : Entry V) : Day × Nat × Nat := (e.day, e.time, e.channel)

/-- The order of the entries of a schedule: by day, then by time, then by channel. -/
def Entry.Before {V : Type} (a b : Entry V) : Prop :=
  a.day.index < b.day.index ∨
    a.day = b.day ∧ (a.time < b.time ∨ a.time = b.time ∧ a.channel < b.channel)

namespace WeekSchedule

variable {V : Type} {C P : Nat}

/-! ## 1. What a list of entries says -/

/-- The different times that entries give a day. -/
def timesOf (d : Day) (es : List (Entry V)) : Finset Nat :=
  ((es.filter fun e => e.day = d).map (·.time)).toFinset

/-- The value of the last entry with a key. -/
def lastValue? (es : List (Entry V)) (d : Day) (time channel : Nat) : Option V :=
  (es.reverse.find? fun e => e.key = (d, time, channel)).map (·.value)

/-- The entries fit into a week with `C` channels and room for `P` points a day. -/
structure Storable (C P : Nat) (es : List (Entry V)) : Prop where
  channels : ∀ e ∈ es, e.channel < C
  times : ∀ e ∈ es, e.time < secondsPerDay
  room : ∀ d, (timesOf d es).card ≤ P

/-- Why an entry is refused, if the entries before it were accepted. -/
def refusal? (C P : Nat) (before : List (Entry V)) (e : Entry V) : Option Refusal :=
  if C ≤ e.channel then some (.invalidChannel e.channel)
  else if secondsPerDay ≤ e.time then some (.invalidTime e.time)
  else if e.time ∉ timesOf e.day before ∧ (timesOf e.day before).card = P then some .dayFull
  else none

/-- Every entry of the list is accepted after those before it. -/
def Accepted (C P : Nat) (es : List (Entry V)) : Prop :=
  ∀ front e back, es = front ++ e :: back → refusal? C P front e = none

/-- The entry is the first one of the list that is refused, and this is why. -/
def FirstRefused (C P : Nat) (es : List (Entry V)) (e : Entry V) (cause : Refusal) : Prop :=
  ∃ front back, es = front ++ e :: back ∧ Accepted C P front ∧ refusal? C P front e = some cause

theorem mem_timesOf {d : Day} {es : List (Entry V)} {time : Nat} :
    time ∈ timesOf d es ↔ ∃ e ∈ es, e.day = d ∧ e.time = time := by
  unfold timesOf
  simp [and_assoc]

theorem mem_timesOf_append {d : Day} {es : List (Entry V)} {e : Entry V} {time : Nat} :
    time ∈ timesOf d (es ++ [e]) ↔ time ∈ timesOf d es ∨ e.day = d ∧ e.time = time := by
  simp only [mem_timesOf, List.mem_append, List.mem_singleton, or_and_right, exists_or,
    exists_eq_left]

theorem lastValue?_append {es : List (Entry V)} {e : Entry V} {d : Day} {time channel : Nat} :
    lastValue? (es ++ [e]) d time channel =
      if e.key = (d, time, channel) then some e.value else lastValue? es d time channel := by
  unfold lastValue?
  rw [List.reverse_append, List.reverse_singleton, List.singleton_append, List.find?_cons]
  by_cases hkey : e.key = (d, time, channel)
  · simp [hkey]
  · simp [hkey]

theorem refusal?_eq_none_iff {before : List (Entry V)} {e : Entry V} :
    refusal? C P before e = none ↔ e.channel < C ∧ e.time < secondsPerDay ∧
      (e.time ∈ timesOf e.day before ∨ (timesOf e.day before).card ≠ P) := by
  unfold refusal?
  split
  · rename_i hc
    simp [Nat.not_lt.mpr hc]
  · rename_i hc
    split
    · rename_i hday
      simp [Nat.not_lt.mpr hday]
    · rename_i hday
      simp only [Nat.not_le.mp hc, Nat.not_le.mp hday, true_and, ite_eq_right_iff, reduceCtorEq,
        imp_false, not_and_or, not_not, ne_eq]

theorem accepted_nil : Accepted C P ([] : List (Entry V)) := by
  intro front e back h
  cases front <;> cases h

theorem accepted_append {es : List (Entry V)} {e : Entry V} :
    Accepted C P (es ++ [e]) ↔ Accepted C P es ∧ refusal? C P es e = none := by
  constructor
  · intro h
    refine ⟨fun front f back hes => h front f (back ++ [e]) ?_, h es e [] rfl⟩
    rw [hes, List.append_assoc, List.cons_append]
  · rintro ⟨hes, he⟩ front f back hsplit
    rcases List.eq_nil_or_concat back with rfl | ⟨back, last, rfl⟩
    · obtain ⟨rfl, hef⟩ := List.append_inj' hsplit rfl
      cases hef
      exact he
    · rw [List.concat_eq_append, ← List.cons_append, ← List.append_assoc] at hsplit
      exact hes front f back (List.append_inj' hsplit rfl).1

/-! ## 2. Taking up one entry -/

/-- The value that a week sets at a time of a day on a channel. -/
def value? (s : WeekSchedule V C P) (d : Day) (time channel : Nat) : Option V :=
  ((s.day d).find? time).bind (·.get? channel)

/-- What is known of a week into which a list of entries was taken up. -/
structure Holds (s : WeekSchedule V C P) (es : List (Entry V)) : Prop where
  reachable : s.Reachable
  times : ∀ d time, ((s.day d).find? time).isSome = true ↔ time ∈ timesOf d es
  values : ∀ d time channel, s.value? d time channel = lastValue? es d time channel

theorem holds_empty : Holds (empty : WeekSchedule V C P) [] := by
  refine ⟨.empty, fun d time => ?_, fun d time channel => ?_⟩
  · rw [DaySchedule.find?_isSome_iff, day_empty, DaySchedule.toList_empty, mem_timesOf]
    simp
  · unfold value? DaySchedule.find?
    rw [day_empty, DaySchedule.toList_empty]
    rfl

/-- A day has as many points as the entries give it times. -/
theorem Holds.size_eq {s : WeekSchedule V C P} {es : List (Entry V)} (h : Holds s es) (d : Day) :
    (s.day d).size = (timesOf d es).card := by
  rw [← (h.reachable.ordered d).card_keys_toMap]
  congr 1
  ext time
  rw [Finmap.mem_keys, DaySchedule.mem_toMap, h.times]

theorem Holds.find?_eq_none {s : WeekSchedule V C P} {es : List (Entry V)} (h : Holds s es)
    {d : Day} {time : Nat} (hnew : time ∉ timesOf d es) : (s.day d).find? time = none := by
  rw [← h.times d time] at hnew
  simpa using hnew

theorem addEntry_of_find?_eq_none {s : WeekSchedule V C P} {e : Entry V} (hc : e.channel < C)
    (hnone : (s.day e.day).find? e.time = none) :
    s.addEntry e = s.insert e.day e.time (Slots.empty.set e.channel (some e.value)) := by
  rw [DaySchedule.find?_eq_none_iff] at hnone
  unfold addEntry
  rw [if_neg (Nat.not_le.mpr hc),
    (DaySchedule.setValue?_eq_none_iff _ _ e.channel (some e.value)).mpr hnone]

theorem insert_eq_error {s : WeekSchedule V C P} {d : Day} {time : Nat} {channels : Channels V C}
    {cause : Refusal} (h : (s.day d).insert time channels = .error cause) :
    s.insert d time channels = .error ⟨some d, cause⟩ := by
  simp only [insert, edit, h]

/-- **What an entry that is refused answers.** -/
theorem Holds.addEntry_eq_error {s : WeekSchedule V C P} {es : List (Entry V)} (h : Holds s es)
    {e : Entry V} {cause : Refusal} (hrefused : refusal? C P es e = some cause) :
    s.addEntry e = .error ⟨some e.day, cause⟩ := by
  have hinsert := (s.day e.day).insert_eq e.time (Slots.empty.set e.channel (some e.value))
  unfold refusal? at hrefused
  split at hrefused
  · rename_i hc
    cases hrefused
    unfold addEntry
    rw [if_pos hc]
  · rename_i hc
    split at hrefused
    · rename_i hday
      cases hrefused
      have hnone : (s.day e.day).find? e.time = none := by
        rw [DaySchedule.find?_eq_none_iff]
        intro p hp
        have := (h.reachable.ordered e.day).within p hp
        omega
      rw [addEntry_of_find?_eq_none (Nat.not_le.mp hc) hnone]
      exact insert_eq_error (hinsert.trans (if_pos hday))
    · rename_i hday
      split at hrefused
      · rename_i hfull
        cases hrefused
        rw [addEntry_of_find?_eq_none (Nat.not_le.mp hc) (h.find?_eq_none hfull.1)]
        refine insert_eq_error (hinsert.trans ?_)
        rw [if_neg hday, if_pos ((h.size_eq e.day).trans hfull.2)]
      · cases hrefused

/-- **What an entry that is accepted does**: it writes its value into the point of its time, a new
one if there is none. -/
theorem Holds.addEntry_eq_ok {s : WeekSchedule V C P} {es : List (Entry V)} (h : Holds s es)
    {e : Entry V} (haccepted : refusal? C P es e = none) :
    ∃ points, s.addEntry e = .ok (s.setDay e.day points) ∧
      ∀ time, points.find? time =
        if time = e.time then
          some ((((s.day e.day).find? e.time).getD .empty).set e.channel (some e.value))
        else (s.day e.day).find? time := by
  have ho := h.reachable.ordered e.day
  obtain ⟨hc, hday, hroom⟩ := refusal?_eq_none_iff.mp haccepted
  cases hfind : (s.day e.day).find? e.time with
  | none =>
      have hnew : e.time ∉ timesOf e.day es := by
        rw [← h.times e.day e.time, hfind]
        exact Bool.false_ne_true
      have hsize : (s.day e.day).size ≠ P :=
        (h.size_eq e.day).symm ▸ hroom.resolve_left hnew
      have hinsert := (s.day e.day).insert_eq e.time (Slots.empty.set e.channel (some e.value))
      rw [if_neg (Nat.not_le.mpr hday), if_neg hsize, hfind,
        if_neg (Option.isSome_none ▸ Bool.false_ne_true)] at hinsert
      refine ⟨_, ?_, ho.find?_insert hinsert⟩
      rw [addEntry_of_find?_eq_none hc hfind]
      exact edit_eq_ok_iff.mpr ⟨_, hinsert, rfl⟩
  | some channels =>
      cases hset : (s.day e.day).setValue? e.time e.channel (some e.value) with
      | none =>
          rw [DaySchedule.setValue?_eq_none_iff, ← DaySchedule.find?_eq_none_iff, hfind] at hset
          cases hset
      | some points =>
          refine ⟨points, ?_, fun time => ?_⟩
          · unfold WeekSchedule.addEntry
            rw [if_neg (Nat.not_le.mpr hc), hset]
          · rw [ho.find?_setValue hset]
            split
            · rename_i ht
              rw [ht, hfind]
              rfl
            · rfl

/-- **What holds of a list of entries holds of one entry more.** -/
theorem Holds.addEntry {s : WeekSchedule V C P} {es : List (Entry V)} (h : Holds s es)
    {e : Entry V} (haccepted : refusal? C P es e = none) :
    ∃ s', s.addEntry e = .ok s' ∧ Holds s' (es ++ [e]) := by
  obtain ⟨points, hadd, hpoints⟩ := h.addEntry_eq_ok haccepted
  have hc : e.channel < C := (refusal?_eq_none_iff.mp haccepted).1
  refine ⟨_, hadd, h.reachable.addEntry hadd, fun d time => ?_, fun d time channel => ?_⟩
  · rw [mem_timesOf_append, ← h.times d time, day_setDay]
    by_cases hd : d = e.day
    · subst hd
      rw [if_pos rfl, hpoints]
      by_cases ht : time = e.time
      · simp [ht]
      · simp [ht, Ne.symm ht]
    · simp [hd, Ne.symm hd]
  · rw [lastValue?_append, ← h.values d time channel, value?, day_setDay, Entry.key]
    by_cases hd : d = e.day
    · subst hd
      rw [if_pos rfl, hpoints]
      by_cases ht : time = e.time
      · subst ht
        rw [if_pos rfl, Option.bind_some, Slots.get?_set _ _ _ _ hc]
        by_cases hch : channel = e.channel
        · simp [hch]
        · rw [if_neg hch, if_neg (by simpa using Ne.symm hch), value?]
          cases (s.day e.day).find? e.time with
          | none => exact Slots.get?_empty channel
          | some channels => rfl
      · rw [if_neg ht, if_neg (by simp [Ne.symm ht])]
        rfl
    · rw [if_neg hd, if_neg (by simp [Ne.symm hd])]
      rfl

/-! ## 3. Taking up a list -/

/-- Accepted entries are taken up, and what holds of them is known. -/
theorem exists_holds (es : List (Entry V)) (h : Accepted C P es) :
    ∃ s : WeekSchedule V C P, ofEntries es = .ok s ∧ Holds s es := by
  induction es using List.reverseRecOn with
  | nil => exact ⟨_, rfl, holds_empty⟩
  | append_singleton es e ih =>
      obtain ⟨hes, he⟩ := accepted_append.mp h
      obtain ⟨s, hload, hholds⟩ := ih hes
      obtain ⟨s', hadd, hholds'⟩ := hholds.addEntry he
      refine ⟨s', ?_, hholds'⟩
      unfold ofEntries at hload ⊢
      rw [List.foldlM_append, hload]
      show [e].foldlM WeekSchedule.addEntry s = _
      rw [List.foldlM_cons, hadd]
      rfl

/-- The first entry that is refused ends the taking up. -/
theorem FirstRefused.ofEntries_eq {es : List (Entry V)} {e : Entry V} {cause : Refusal}
    (h : FirstRefused C P es e cause) :
    (ofEntries es : Except ScheduleError (WeekSchedule V C P)) = .error ⟨some e.day, cause⟩ := by
  obtain ⟨front, back, rfl, haccepted, hrefused⟩ := h
  obtain ⟨s, hload, hholds⟩ := exists_holds front haccepted
  unfold ofEntries at hload ⊢
  rw [List.foldlM_append, hload]
  show (e :: back).foldlM addEntry s = _
  rw [List.foldlM_cons, hholds.addEntry_eq_error hrefused]
  rfl

/-- Either all entries are accepted, or there is a first one that is refused. -/
theorem accepted_or_firstRefused (C P : Nat) (es : List (Entry V)) :
    Accepted C P es ∨ ∃ e cause, FirstRefused C P es e cause := by
  induction es using List.reverseRecOn with
  | nil => exact .inl accepted_nil
  | append_singleton es e ih =>
      rcases ih with hes | ⟨f, cause, front, back, rfl, haccepted, hrefused⟩
      · cases he : refusal? C P es e with
        | none => exact .inl (accepted_append.mpr ⟨hes, he⟩)
        | some cause => exact .inr ⟨e, cause, es, [], rfl, hes, he⟩
      · exact .inr ⟨f, cause, front, back ++ [e], by simp, haccepted, hrefused⟩

/-- **Entries that are accepted one after another are those that fit into a week.** -/
theorem accepted_iff_storable {es : List (Entry V)} : Accepted C P es ↔ Storable C P es := by
  constructor
  · intro h
    obtain ⟨s, -, hholds⟩ := exists_holds es h
    have hfits : ∀ e ∈ es, e.channel < C ∧ e.time < secondsPerDay := by
      intro e he
      obtain ⟨front, back, rfl⟩ := List.append_of_mem he
      obtain ⟨hc, hday, -⟩ := refusal?_eq_none_iff.mp (h front e back rfl)
      exact ⟨hc, hday⟩
    refine ⟨fun e he => (hfits e he).1, fun e he => (hfits e he).2, fun d => ?_⟩
    rw [← hholds.size_eq d]
    exact Slots.count_le _
  · rintro h front e back rfl
    have he : e ∈ front ++ e :: back := by simp
    refine refusal?_eq_none_iff.mpr ⟨h.channels e he, h.times e he, ?_⟩
    refine or_iff_not_imp_left.mpr fun hnew hfull => ?_
    -- a new time on a full day would be one time too many
    have hmore : Insert.insert e.time (timesOf e.day front) ⊆ timesOf e.day (front ++ e :: back) := by
      intro time htime
      rw [mem_timesOf]
      rcases Finset.mem_insert.mp htime with rfl | htime
      · exact ⟨e, he, rfl, rfl⟩
      · obtain ⟨f, hf, hfe⟩ := mem_timesOf.mp htime
        exact ⟨f, List.mem_append_left _ hf, hfe⟩
    have hcard := (Finset.card_le_card hmore).trans (h.room e.day)
    rw [Finset.card_insert_of_notMem hnew, hfull] at hcard
    omega

/-- A list that makes a schedule was accepted. -/
theorem accepted_of_ofEntries {s : WeekSchedule V C P} {es : List (Entry V)}
    (h : ofEntries es = .ok s) : Accepted C P es := by
  rcases accepted_or_firstRefused C P es with haccepted | ⟨e, cause, hrefused⟩
  · exact haccepted
  · rw [hrefused.ofEntries_eq] at h
    cases h

/-- What is known of a schedule made of entries. -/
theorem holds_of_ofEntries {s : WeekSchedule V C P} {es : List (Entry V)}
    (h : ofEntries es = .ok s) : Holds s es := by
  obtain ⟨s', hload, hholds⟩ := exists_holds es (accepted_of_ofEntries h)
  rw [h] at hload
  cases hload
  exact hholds

/-! ## 4. The entries of a schedule -/

/-- **The entries of a schedule are its values.** -/
theorem Ordered.mem_entries_iff {s : WeekSchedule V C P} (hs : s.Ordered) {e : Entry V} :
    e ∈ s.entries ↔ s.value? e.day e.time e.channel = some e.value := by
  obtain ⟨d, time, channel, value⟩ := e
  rw [value?, Option.bind_eq_some_iff]
  simp only [(hs d).find?_eq_some_iff]
  simp only [entries, dayEntries, pointEntries, List.mem_flatMap, List.mem_map]
  constructor
  · rintro ⟨d', -, p, hp, ⟨i, a⟩, hi, heq⟩
    cases heq
    exact ⟨p.channels, hp, Slots.mem_indexed_iff.mp hi⟩
  · rintro ⟨channels, hp, hi⟩
    exact ⟨d, Day.mem_all d, _, hp, (channel, value), Slots.mem_indexed_iff.mpr hi, rfl⟩

/-- **The entries of a schedule ascend** by day, time and channel, so that no key comes twice. -/
theorem Ordered.entries_before {s : WeekSchedule V C P} (hs : s.Ordered) :
    s.entries.Pairwise Entry.Before := by
  unfold entries
  refine List.pairwise_flatMap.mpr ⟨fun d _ => ?_, ?_⟩
  · refine List.pairwise_flatMap.mpr ⟨fun p _ => ?_, (hs d).ascending.imp ?_⟩
    · refine List.pairwise_map.mpr ((Slots.indexed_ascending p.channels).imp ?_)
      rintro ⟨i, a⟩ ⟨j, b⟩ hij
      exact .inr ⟨rfl, .inr ⟨rfl, hij⟩⟩
    · intro p q hpq a ha b hb
      obtain ⟨_, _, rfl⟩ := List.mem_map.mp ha
      obtain ⟨_, _, rfl⟩ := List.mem_map.mp hb
      exact .inr ⟨rfl, .inl hpq⟩
  · have hdays : Day.all.Pairwise fun d e => d.index < e.index := by decide
    refine hdays.imp ?_
    intro d e hde a ha b hb
    obtain ⟨p, _, ha⟩ := List.mem_flatMap.mp ha
    obtain ⟨q, _, hb⟩ := List.mem_flatMap.mp hb
    obtain ⟨_, _, rfl⟩ := List.mem_map.mp ha
    obtain ⟨_, _, rfl⟩ := List.mem_map.mp hb
    exact .inl hde

/-! ## 5. The order of the list -/

/-- Where no key comes twice, the last value of a key is the only one. -/
theorem lastValue?_eq_some_iff {es : List (Entry V)} (hkeys : (es.map Entry.key).Nodup) {d : Day}
    {time channel : Nat} {value : V} :
    lastValue? es d time channel = some value ↔ ⟨d, time, channel, value⟩ ∈ es := by
  unfold lastValue?
  rw [Option.map_eq_some_iff]
  constructor
  · rintro ⟨e, he, rfl⟩
    have hmem := List.mem_reverse.mp (List.mem_of_find?_eq_some he)
    have hkey : e.key = (d, time, channel) := by simpa using List.find?_some he
    obtain ⟨d', time', channel', value⟩ := e
    cases hkey
    exact hmem
  · intro hmem
    cases hfind : es.reverse.find? fun e => e.key = (d, time, channel) with
    | none =>
        have hno := List.find?_eq_none.mp hfind _ (List.mem_reverse.mpr hmem)
        exact absurd rfl (of_decide_eq_false (Bool.eq_false_iff.mpr hno))
    | some e =>
        have hkey : e.key = (d, time, channel) := by simpa using List.find?_some hfind
        have hsame := List.inj_on_of_nodup_map hkeys
          (List.mem_reverse.mp (List.mem_of_find?_eq_some hfind)) hmem hkey
        exact ⟨e, rfl, by rw [hsame]⟩

theorem timesOf_perm {es es' : List (Entry V)} (h : es.Perm es') (d : Day) :
    timesOf d es = timesOf d es' := by
  ext time
  simp only [mem_timesOf, h.mem_iff]

theorem lastValue?_perm {es es' : List (Entry V)} (h : es.Perm es')
    (hkeys : (es.map Entry.key).Nodup) (d : Day) (time channel : Nat) :
    lastValue? es d time channel = lastValue? es' d time channel := by
  have hkeys' : (es'.map Entry.key).Nodup := (h.map Entry.key).nodup_iff.mp hkeys
  refine Option.ext fun value => ?_
  rw [lastValue?_eq_some_iff hkeys, lastValue?_eq_some_iff hkeys', h.mem_iff]

theorem Storable.perm {es es' : List (Entry V)} (h : Storable C P es) (hperm : es.Perm es') :
    Storable C P es' where
  channels e he := h.channels e (hperm.mem_iff.mpr he)
  times e he := h.times e (hperm.mem_iff.mpr he)
  room d := timesOf_perm hperm d ▸ h.room d

/-- **The times and the values of a week built by edits tell what the week is.** -/
theorem Reachable.eq_of_values {s t : WeekSchedule V C P} (hs : s.Reachable) (ht : t.Reachable)
    (htimes : ∀ d time, ((s.day d).find? time).isSome = ((t.day d).find? time).isSome)
    (hvalues : ∀ d time channel, s.value? d time channel = t.value? d time channel) : s = t := by
  refine ext_day fun d => (hs.day d).eq_of_mem_iff (ht.day d) fun p => ?_
  have hfind : (s.day d).find? p.time = (t.day d).find? p.time := by
    have hsome := htimes d p.time
    have hchannels := hvalues d p.time
    unfold value? at hchannels
    cases hsp : (s.day d).find? p.time with
    | none =>
        rw [hsp] at hsome
        exact (Option.isNone_iff_eq_none.mp (Option.isSome_eq_false_iff.mp hsome.symm)).symm
    | some a =>
        cases htp : (t.day d).find? p.time with
        | none => rw [hsp, htp] at hsome; cases hsome
        | some b =>
            rw [hsp, htp] at hchannels
            exact congrArg some (Slots.ext_get? hchannels)
  rw [← (hs.ordered d).find?_eq_some_iff, ← (ht.ordered d).find?_eq_some_iff, hfind]

/-- Where no key comes twice, a list in another order makes the same schedule. -/
theorem ofEntries_perm {es es' : List (Entry V)} (hperm : es.Perm es')
    (hkeys : (es.map Entry.key).Nodup) {s : WeekSchedule V C P} (h : ofEntries es = .ok s) :
    ofEntries es' = .ok s := by
  have hholds := holds_of_ofEntries h
  have hstorable := (accepted_iff_storable.mp (accepted_of_ofEntries h)).perm hperm
  obtain ⟨s', hload, hholds'⟩ := exists_holds es' (accepted_iff_storable.mpr hstorable)
  have hsame : s = s' := by
    refine hholds.reachable.eq_of_values hholds'.reachable (fun d time => ?_)
      fun d time channel => ?_
    · rw [Bool.eq_iff_iff, hholds.times, hholds'.times, timesOf_perm hperm]
    · rw [hholds.values, hholds'.values, lastValue?_perm hperm hkeys]
  rw [hsame]
  exact hload

/-! ## 6. The main statement -/

theorem refusal?_ne_duplicateTime (before : List (Entry V)) (e : Entry V) (time : Nat) :
    refusal? C P before e ≠ some (.duplicateTime time) := by
  unfold refusal?
  split
  · exact nofun
  · split
    · exact nofun
    · split <;> exact nofun

/-- **Entries make a schedule just if they fit into it, and the last value of a key counts.**

* Taking them up succeeds just if all channels exist, all times lie within the day, and no day gets
  more different times than it has room for.
* The schedule has a point for every day and time that comes in the list; a value is that of the last
  entry with its key, and missing if there is none. Its own entries are these values, each key once,
  by day, time and channel.
* Where no key comes twice the order of the list does not matter.
* Else the error is that of the first entry that is refused, and names its day. A time that is taken
  is never a cause. -/
theorem ofEntries_spec (es : List (Entry V)) :
    ((∃ s : WeekSchedule V C P, ofEntries es = .ok s) ↔ Storable C P es) ∧
    (∀ s : WeekSchedule V C P, ofEntries es = .ok s →
      (∀ d time, (∃ p ∈ (s.day d).toList, p.time = time) ↔ ∃ e ∈ es, e.day = d ∧ e.time = time) ∧
      (∀ d time channel, s.value? d time channel = lastValue? es d time channel) ∧
      (∀ e, e ∈ s.entries ↔ lastValue? es e.day e.time e.channel = some e.value) ∧
      s.entries.Pairwise Entry.Before) ∧
    (∀ es', es.Perm es' → (es.map Entry.key).Nodup →
      ∀ s : WeekSchedule V C P, ofEntries es = .ok s ↔ ofEntries es' = .ok s) ∧
    (∀ error, (ofEntries es : Except ScheduleError (WeekSchedule V C P)) = .error error ↔
      ∃ e cause, FirstRefused C P es e cause ∧ error = ⟨some e.day, cause⟩) ∧
    (∀ day time, (ofEntries es : Except ScheduleError (WeekSchedule V C P)) ≠
      .error ⟨day, .duplicateTime time⟩) := by
  have herror : ∀ error, (ofEntries es : Except ScheduleError (WeekSchedule V C P)) = .error error ↔
      ∃ e cause, FirstRefused C P es e cause ∧ error = ⟨some e.day, cause⟩ := by
    intro error
    constructor
    · intro h
      rcases accepted_or_firstRefused C P es with haccepted | ⟨e, cause, hrefused⟩
      · obtain ⟨s, hload, -⟩ := exists_holds es haccepted
        rw [h] at hload
        cases hload
      · rw [hrefused.ofEntries_eq] at h
        cases h
        exact ⟨e, cause, hrefused, rfl⟩
    · rintro ⟨e, cause, hrefused, rfl⟩
      exact hrefused.ofEntries_eq
  refine ⟨⟨?_, fun h => ?_⟩, fun s h => ?_, fun es' hperm hkeys s => ⟨?_, ?_⟩, herror,
    fun day time h => ?_⟩
  · rintro ⟨s, h⟩
    exact accepted_iff_storable.mp (accepted_of_ofEntries h)
  · obtain ⟨s, hload, -⟩ := exists_holds es (accepted_iff_storable.mpr h)
    exact ⟨s, hload⟩
  · have hholds := holds_of_ofEntries h
    refine ⟨fun d time => ?_, hholds.values, fun e => ?_, hholds.reachable.ordered.entries_before⟩
    · rw [← DaySchedule.find?_isSome_iff, hholds.times, mem_timesOf]
    · rw [hholds.reachable.ordered.mem_entries_iff, hholds.values]
  · exact ofEntries_perm hperm hkeys
  · exact ofEntries_perm hperm.symm ((hperm.map Entry.key).nodup_iff.mp hkeys)
  · obtain ⟨e, cause, ⟨front, back, -, -, hrefused⟩, heq⟩ := (herror _).mp h
    cases heq
    exact refusal?_ne_duplicateTime front e time hrefused

end WeekSchedule

end Aquarium

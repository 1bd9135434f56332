import Aquarium.Proofs.Schedule.Points
import Mathlib.Data.Finmap

/-!
# A week is seven finite maps

Edits are named here as data, so that a list of them is a history, refused edits included. Such a
history is read twice: done on a week, and done on seven finite maps from times to channels, each of
which may hold only so many times.

* `DaySchedule.toMap`, `WeekSchedule.maps`: the maps that a week stands for;
* `DayEdit.onMap`, `WeekEdit.onMaps`: what an edit does to the maps, and when it is refused;
* `DayEdit.apply_refines`, `WeekEdit.apply_refines`: one edit does the same to both, with the same
  answer;
* `attempts_map`: so does a whole history;
* `reachable_iff`: the weeks that histories lead to are the reachable ones;
* `after_refines`: the main statement.
-/

namespace Aquarium

/-! ## 1. A day as a map -/

/-- A finite map from times to what happens at them. -/
abbrev DayMap (V : Type) (C : Nat) := Finmap fun _ : Nat => Channels V C

namespace DaySchedule

variable {V : Type} {C P : Nat}

/-- The map from the times of the points to what these set. -/
def toMap (d : DaySchedule V C P) : DayMap V C :=
  (d.toList.map fun p => (⟨p.time, p.channels⟩ : Sigma fun _ : Nat => Channels V C)).toFinmap

@[simp] theorem lookup_toMap (d : DaySchedule V C P) (time : Nat) :
    d.toMap.lookup time = d.find? time := by
  unfold toMap find?
  rw [Finmap.dlookup_list_toFinmap]
  induction d.toList with
  | nil => rfl
  | cons p ps ih =>
      rw [List.map_cons, List.find?_cons]
      by_cases ht : p.time = time
      · subst ht
        rw [List.dlookup_cons_eq, beq_self_eq_true]
        rfl
      · rw [List.dlookup_cons_ne _ _ (Ne.symm ht), beq_false_of_ne ht]
        exact ih

theorem mem_toMap (d : DaySchedule V C P) (time : Nat) :
    time ∈ d.toMap ↔ (d.find? time).isSome = true := by
  rw [← Finmap.lookup_isSome, lookup_toMap]

@[simp] theorem toMap_empty : (empty : DaySchedule V C P).toMap = ∅ := by
  unfold toMap
  rw [toList_empty]
  rfl

namespace Ordered

variable {d d' : DaySchedule V C P} {time : Nat}

/-- A day has as many points as its map has times. -/
theorem card_keys_toMap (h : d.Ordered) : d.toMap.keys.card = d.size := by
  have hkeys : d.toMap.keys = (d.toList.map (·.time)).toFinset := by
    ext t
    rw [Finmap.mem_keys, mem_toMap, find?_isSome_iff, List.mem_toFinset, List.mem_map]
  have hnodup : (d.toList.map (·.time)).Nodup := List.pairwise_map.mpr h.ne
  rw [hkeys, List.toFinset_card_of_nodup hnodup, List.length_map]
  rfl

theorem toMap_insert {channels : Channels V C} (h : d.Ordered)
    (e : d.insert time channels = .ok d') : d'.toMap = d.toMap.insert time channels := by
  refine Finmap.ext_lookup fun t => ?_
  rw [lookup_toMap, h.find?_insert e]
  by_cases ht : t = time
  · rw [if_pos ht, ht, Finmap.lookup_insert]
  · rw [if_neg ht, Finmap.lookup_insert_of_ne _ ht, lookup_toMap]

theorem toMap_remove (h : d.Ordered) (e : d.remove time = .ok d') :
    d'.toMap = d.toMap.erase time := by
  refine Finmap.ext_lookup fun t => ?_
  rw [lookup_toMap, h.find?_remove e]
  by_cases ht : t = time
  · rw [if_pos ht, ht, Finmap.lookup_erase]
  · rw [if_neg ht, Finmap.lookup_erase_ne ht, lookup_toMap]

theorem toMap_setValue {channel : Nat} {value : Option V} {channels : Channels V C}
    (h : d.Ordered) (e : d.setValue? time channel value = some d')
    (hfind : d.find? time = some channels) :
    d'.toMap = d.toMap.insert time (channels.set channel value) := by
  refine Finmap.ext_lookup fun t => ?_
  rw [lookup_toMap, h.find?_setValue e]
  by_cases ht : t = time
  · rw [if_pos ht, ht, hfind, Finmap.lookup_insert, Option.map_some]
  · rw [if_neg ht, Finmap.lookup_insert_of_ne _ ht, lookup_toMap]

end Ordered

end DaySchedule

/-! ## 2. Attempts -/

section Attempts

variable {α β ι ε : Type}

/-- What an attempt answers and what it leaves: a refused one leaves all as it was. -/
def settle (before : α) : Except ε α → Except ε Unit × α
  | .ok after => (.ok (), after)
  | .error cause => (.error cause, before)

/-- The answers of attempts made one after another, and what is left in the end. -/
def attempts (apply : ι → α → Except ε α) : List ι → α → List (Except ε Unit) × α
  | [], s => ([], s)
  | i :: is, s =>
    let first := settle s (apply i s)
    let rest := attempts apply is first.2
    (first.1 :: rest.1, rest.2)

theorem attempts_append_snd (apply : ι → α → Except ε α) (is js : List ι) (s : α) :
    (attempts apply (is ++ js) s).2 = (attempts apply js (attempts apply is s).2).2 := by
  induction is generalizing s with
  | nil => rfl
  | cons i is ih => exact ih _

/-- What every accepted attempt keeps, all attempts keep. -/
theorem attempts_keep {apply : ι → α → Except ε α} {inv : α → Prop}
    (hkeep : ∀ i s s', inv s → apply i s = .ok s' → inv s') (is : List ι) {s : α} (hs : inv s) :
    inv (attempts apply is s).2 := by
  induction is generalizing s with
  | nil => exact hs
  | cons i is ih =>
      refine ih (?_ : inv (settle s (apply i s)).2)
      cases h : apply i s with
      | ok s' => exact hkeep i s s' hs h
      | error cause => exact hs

/-- **If each attempt does the same to a thing and to what it stands for, so do all attempts.** -/
theorem attempts_map {apply : ι → α → Except ε α} {apply' : ι → β → Except ε β} {abs : α → β}
    {inv : α → Prop} (hkeep : ∀ i s s', inv s → apply i s = .ok s' → inv s')
    (hsame : ∀ i s, inv s → (apply i s).map abs = apply' i (abs s)) (is : List ι) {s : α}
    (hs : inv s) :
    attempts apply' is (abs s) = ((attempts apply is s).1, abs (attempts apply is s).2) := by
  induction is generalizing s with
  | nil => rfl
  | cons i is ih =>
      have hi := hsame i s hs
      simp only [attempts, ← hi]
      cases h : apply i s with
      | ok s' => simp only [Except.map, settle, ih (hkeep i s s' hs h)]
      | error cause => simp only [Except.map, settle, ih hs]

end Attempts

/-! ## 3. Edits of a day -/

/-- An edit of the points of one day. -/
inductive DayEdit (V : Type) (C : Nat) where
  /-- Adds a point. -/
  | insert (time : Nat) (channels : Channels V C)
  /-- Takes out the point of a time. -/
  | remove (time : Nat)
  /-- Writes what the point of a time does to one channel. -/
  | write (time channel : Nat) (value : Option V)
  /-- Takes out all points. -/
  | clear

namespace DayEdit

variable {V : Type} {C : Nat}

/-- The day after an edit. A write that finds no point is refused without a cause. -/
def apply {P : Nat} : DayEdit V C → DaySchedule V C P → Except (Option Refusal) (DaySchedule V C P)
  | insert time channels, d => (d.insert time channels).mapError some
  | remove time, d => (d.remove time).mapError some
  | write time channel value, d =>
    match d.setValue? time channel value with
    | some d' => .ok d'
    | none => .error none
  | clear, d => .ok d.clear

/-- What an edit does to a map that may hold `P` times. -/
def onMap (P : Nat) : DayEdit V C → DayMap V C → Except (Option Refusal) (DayMap V C)
  | insert time channels, m =>
    if secondsPerDay ≤ time then .error (some (.invalidTime time))
    else if m.keys.card = P then .error (some .dayFull)
    else if time ∈ m then .error (some (.duplicateTime time))
    else .ok (m.insert time channels)
  | remove time, m =>
    if time ∈ m then .ok (m.erase time) else .error (some (.timeNotFound time))
  | write time channel value, m =>
    match m.lookup time with
    | some channels => .ok (m.insert time (channels.set channel value))
    | none => .error none
  | clear, _ => .ok ∅

variable {P : Nat}

/-- The day that edits lead to, starting from no points. -/
def build (edits : List (DayEdit V C)) : DaySchedule V C P := (attempts apply edits .empty).2

section Accepted

variable {d d' : DaySchedule V C P} {time : Nat}

theorem apply_insert_eq_ok_iff {channels : Channels V C} :
    (insert time channels).apply d = .ok d' ↔ d.insert time channels = .ok d' := by
  rw [apply]
  cases d.insert time channels <;> simp [Except.mapError]

theorem apply_remove_eq_ok_iff :
    (remove time : DayEdit V C).apply d = .ok d' ↔ d.remove time = .ok d' := by
  rw [apply]
  cases d.remove time <;> simp [Except.mapError]

theorem apply_write_eq_ok_iff {channel : Nat} {value : Option V} :
    (write time channel value : DayEdit V C).apply d = .ok d' ↔
      d.setValue? time channel value = some d' := by
  rw [apply]
  cases d.setValue? time channel value <;> simp

end Accepted

/-- What edits accept, edits can build. -/
theorem reachable_apply (edit : DayEdit V C) (d d' : DaySchedule V C P) (h : d.Reachable)
    (e : edit.apply d = .ok d') : d'.Reachable := by
  cases edit with
  | insert time channels => exact .insert time channels h (apply_insert_eq_ok_iff.mp e)
  | remove time => exact .remove time h (apply_remove_eq_ok_iff.mp e)
  | write time channel value => exact .setValue time channel value h (apply_write_eq_ok_iff.mp e)
  | clear => cases e; exact .clear h

theorem reachable_build (edits : List (DayEdit V C)) :
    (build edits : DaySchedule V C P).Reachable :=
  attempts_keep reachable_apply edits .empty

/-- **An edit does the same to a day and to its map**, with the same answer. -/
theorem apply_refines (edit : DayEdit V C) (d : DaySchedule V C P) (h : d.Ordered) :
    (edit.apply d).map DaySchedule.toMap = edit.onMap P d.toMap := by
  cases edit with
  | insert time channels =>
      have heq := d.insert_eq time channels
      simp only [apply, onMap, h.card_keys_toMap, DaySchedule.mem_toMap]
      split at heq
      · rename_i hday; rw [heq, if_pos hday]; rfl
      · rename_i hday
        rw [if_neg hday]
        split at heq
        · rename_i hfull; rw [heq, if_pos hfull]; rfl
        · rename_i hfull
          rw [if_neg hfull]
          split at heq
          · rename_i htaken; rw [heq, if_pos htaken]; rfl
          · rename_i htaken
            rw [heq, if_neg htaken]
            exact congrArg Except.ok (h.toMap_insert heq)
  | remove time =>
      simp only [apply, onMap, DaySchedule.mem_toMap]
      cases hr : d.remove time with
      | error cause =>
          obtain ⟨hnone, rfl⟩ := (d.remove_eq_error_iff time cause).mp hr
          rw [hnone]
          rfl
      | ok d' =>
          cases hfind : d.find? time with
          | none =>
              rw [(d.remove_eq_error_iff time _).mpr ⟨hfind, rfl⟩] at hr
              cases hr
          | some channels => exact congrArg Except.ok (h.toMap_remove hr)
  | write time channel value =>
      simp only [apply, onMap, DaySchedule.lookup_toMap]
      cases hw : d.setValue? time channel value with
      | none =>
          rw [DaySchedule.setValue?_eq_none_iff, ← DaySchedule.find?_eq_none_iff] at hw
          rw [hw]
          rfl
      | some d' =>
          cases hfind : d.find? time with
          | none =>
              rw [DaySchedule.find?_eq_none_iff,
                ← DaySchedule.setValue?_eq_none_iff d time channel value, hw] at hfind
              cases hfind
          | some channels => exact congrArg Except.ok (h.toMap_setValue hw hfind)
  | clear => exact congrArg Except.ok DaySchedule.toMap_empty

end DayEdit

/-- The days that histories of edits lead to are the reachable ones. -/
theorem DaySchedule.reachable_iff {V : Type} {C P : Nat} {d : DaySchedule V C P} :
    d.Reachable ↔ ∃ edits, DayEdit.build edits = d := by
  constructor
  · intro h
    -- an edit that was accepted goes to the end of the history
    have hlast : ∀ {d d' : DaySchedule V C P} (edit : DayEdit V C), edit.apply d = .ok d' →
        (∃ edits, DayEdit.build edits = d) → ∃ edits, DayEdit.build edits = d' := by
      rintro d d' edit he ⟨edits, rfl⟩
      refine ⟨edits ++ [edit], ?_⟩
      unfold DayEdit.build at *
      rw [attempts_append_snd]
      simp only [attempts, he, settle]
    induction h with
    | empty => exact ⟨[], rfl⟩
    | insert time channels _ e ih =>
        exact hlast (.insert time channels) (by rw [DayEdit.apply, e]; rfl) ih
    | remove time _ e ih => exact hlast (.remove time) (by rw [DayEdit.apply, e]; rfl) ih
    | setValue time channel value _ e ih =>
        exact hlast (.write time channel value) (by rw [DayEdit.apply, e]) ih
    | clear _ ih => exact hlast .clear rfl ih
  · rintro ⟨edits, rfl⟩
    exact DayEdit.reachable_build edits

/-! ## 4. A week as seven maps -/

/-- A map for every day. -/
abbrev WeekMaps (V : Type) (C : Nat) := Day → DayMap V C

/-- The maps that a week stands for. -/
def WeekSchedule.maps {V : Type} {C P : Nat} (s : WeekSchedule V C P) : WeekMaps V C :=
  fun d => (s.day d).toMap

theorem WeekSchedule.maps_setDay {V : Type} {C P : Nat} (s : WeekSchedule V C P) (d : Day)
    (points : DaySchedule V C P) :
    (s.setDay d points).maps = Function.update s.maps d points.toMap := by
  funext e
  rw [Function.update_apply, maps, day_setDay]
  split
  · rfl
  · rfl

theorem WeekSchedule.maps_empty {V : Type} {C P : Nat} :
    (empty : WeekSchedule V C P).maps = fun _ => ∅ := by
  funext d
  rw [maps, day_empty, DaySchedule.toMap_empty]

/-- An edit of a week. -/
inductive WeekEdit (V : Type) (C : Nat) where
  /-- Adds a point to a day. -/
  | insert (day : Day) (time : Nat) (channels : Channels V C)
  /-- Takes the point of a time out of a day. -/
  | remove (day : Day) (time : Nat)
  /-- Edits a day by itself. -/
  | onDay (day : Day) (edit : DayEdit V C)
  /-- Puts a copy of a day that these edits have built in the place of a day. -/
  | copy (day : Day) (edits : List (DayEdit V C))
  /-- Takes out all points of all days. -/
  | clear

namespace WeekEdit

variable {V : Type} {C : Nat}

/-- The week with one of its days edited; an error names a day or not. -/
def editDay {P : Nat} (named : Option Day) (d : Day) (edit : DayEdit V C)
    (s : WeekSchedule V C P) : Except (Option ScheduleError) (WeekSchedule V C P) :=
  match edit.apply (s.day d) with
  | .ok points => .ok (s.setDay d points)
  | .error cause => .error (cause.map fun cause => ⟨named, cause⟩)

/-- The week after an edit. -/
def apply {P : Nat} :
    WeekEdit V C → WeekSchedule V C P → Except (Option ScheduleError) (WeekSchedule V C P)
  | insert d time channels, s => (s.insert d time channels).mapError some
  | remove d time, s => (s.remove d time).mapError some
  | onDay d edit, s => editDay none d edit s
  | copy d edits, s => .ok (s.setDay d (DayEdit.build edits))
  | clear, s => .ok s.clear

/-- The maps with one of them edited. -/
def editMap (P : Nat) (named : Option Day) (d : Day) (edit : DayEdit V C) (m : WeekMaps V C) :
    Except (Option ScheduleError) (WeekMaps V C) :=
  match edit.onMap P (m d) with
  | .ok points => .ok (Function.update m d points)
  | .error cause => .error (cause.map fun cause => ⟨named, cause⟩)

/-- What an edit does to maps that may hold `P` times each. -/
def onMaps (P : Nat) :
    WeekEdit V C → WeekMaps V C → Except (Option ScheduleError) (WeekMaps V C)
  | insert d time channels, m => editMap P (some d) d (.insert time channels) m
  | remove d time, m => editMap P (some d) d (.remove time) m
  | onDay d edit, m => editMap P none d edit m
  | copy d edits, m => .ok (Function.update m d (attempts (DayEdit.onMap P) edits ∅).2)
  | clear, _ => .ok fun _ => ∅

/-- The edit is about the day. -/
def IsAbout : WeekEdit V C → Day → Prop
  | insert d _ _, e | remove d _, e | onDay d _, e | copy d _, e => e = d
  | clear, _ => True

variable {P : Nat}

theorem apply_insert (d : Day) (time : Nat) (channels : Channels V C) (s : WeekSchedule V C P) :
    (insert d time channels).apply s = editDay (some d) d (.insert time channels) s := by
  simp only [apply, editDay, WeekSchedule.insert, WeekSchedule.edit, DayEdit.apply]
  cases (s.day d).insert time channels <;> rfl

theorem apply_remove (d : Day) (time : Nat) (s : WeekSchedule V C P) :
    (remove d time : WeekEdit V C).apply s = editDay (some d) d (.remove time) s := by
  simp only [apply, editDay, WeekSchedule.remove, WeekSchedule.edit, DayEdit.apply]
  cases (s.day d).remove time <;> rfl

/-- What an accepted edit does: it changes one day, or clears all. -/
theorem apply_eq_ok {edit : WeekEdit V C} {s s' : WeekSchedule V C P}
    (h : edit.apply s = .ok s') :
    (∃ d points, (∀ e, edit.IsAbout e ↔ e = d) ∧ s' = s.setDay d points ∧
      ((s.day d).Reachable → points.Reachable)) ∨ edit = .clear ∧ s' = .empty := by
  have hday : ∀ {named : Option Day} {d : Day} {dayEdit : DayEdit V C},
      editDay named d dayEdit s = .ok s' →
        ∃ points, s' = s.setDay d points ∧ ((s.day d).Reachable → points.Reachable) := by
    intro named d dayEdit h
    unfold editDay at h
    cases hp : dayEdit.apply (s.day d) with
    | error cause => rw [hp] at h; cases h
    | ok points =>
        rw [hp] at h
        cases h
        exact ⟨points, rfl, fun hd => DayEdit.reachable_apply dayEdit _ _ hd hp⟩
  cases edit with
  | insert d time channels =>
      rw [apply_insert] at h
      obtain ⟨points, rfl, hp⟩ := hday h
      exact .inl ⟨d, points, fun _ => Iff.rfl, rfl, hp⟩
  | remove d time =>
      rw [apply_remove] at h
      obtain ⟨points, rfl, hp⟩ := hday h
      exact .inl ⟨d, points, fun _ => Iff.rfl, rfl, hp⟩
  | onDay d dayEdit =>
      obtain ⟨points, rfl, hp⟩ := hday h
      exact .inl ⟨d, points, fun _ => Iff.rfl, rfl, hp⟩
  | copy d edits =>
      cases h
      exact .inl ⟨d, _, fun _ => Iff.rfl, rfl, fun _ => DayEdit.reachable_build edits⟩
  | clear =>
      cases h
      exact .inr ⟨rfl, rfl⟩

theorem reachable_apply (edit : WeekEdit V C) (s s' : WeekSchedule V C P) (h : s.Reachable)
    (e : edit.apply s = .ok s') : s'.Reachable := by
  obtain ⟨d, points, -, rfl, hp⟩ | ⟨-, rfl⟩ := apply_eq_ok e
  · exact h.setDay d (hp (h.day d))
  · exact .empty

theorem editDay_refines {s : WeekSchedule V C P} (h : s.Ordered) (named : Option Day) (d : Day)
    (edit : DayEdit V C) :
    (editDay named d edit s).map WeekSchedule.maps = editMap P named d edit s.maps := by
  have hedit := edit.apply_refines (s.day d) (h d)
  unfold editDay editMap
  rw [show s.maps d = (s.day d).toMap from rfl, ← hedit]
  cases edit.apply (s.day d) with
  | error cause => rfl
  | ok points => exact congrArg Except.ok (s.maps_setDay d points)

/-- **An edit does the same to a week and to its maps**, with the same answer. -/
theorem apply_refines (edit : WeekEdit V C) (s : WeekSchedule V C P) (h : s.Reachable) :
    (edit.apply s).map WeekSchedule.maps = edit.onMaps P s.maps := by
  cases edit with
  | insert d time channels =>
      rw [apply_insert]
      exact editDay_refines h.ordered (some d) d _
  | remove d time =>
      rw [apply_remove]
      exact editDay_refines h.ordered (some d) d _
  | onDay d edit => exact editDay_refines h.ordered none d edit
  | copy d edits =>
      have hbuilt : (attempts (DayEdit.onMap P) edits ∅).2 =
          (DayEdit.build edits : DaySchedule V C P).toMap := by
        rw [← DaySchedule.toMap_empty (V := V) (C := C) (P := P),
          attempts_map (DayEdit.reachable_apply) (fun edit d h => edit.apply_refines d h.ordered) edits
            .empty]
        rfl
      rw [onMaps, hbuilt, ← s.maps_setDay]
      rfl
  | clear => exact congrArg Except.ok WeekSchedule.maps_empty

end WeekEdit

/-! ## 5. Histories of a week -/

namespace WeekSchedule

variable {V : Type} {C P : Nat}

/-- The week that edits lead to, starting from no points. -/
def after (edits : List (WeekEdit V C)) : WeekSchedule V C P :=
  (attempts WeekEdit.apply edits .empty).2

/-- What the edits answer. -/
def answers (P : Nat) (edits : List (WeekEdit V C)) : List (Except (Option ScheduleError) Unit) :=
  (attempts WeekEdit.apply edits (.empty : WeekSchedule V C P)).1

theorem after_append (edits : List (WeekEdit V C)) (edit : WeekEdit V C) :
    (after (edits ++ [edit]) : WeekSchedule V C P) =
      (settle (after edits) (edit.apply (after edits))).2 :=
  attempts_append_snd _ _ _ _

theorem reachable_after (edits : List (WeekEdit V C)) :
    (after edits : WeekSchedule V C P).Reachable :=
  attempts_keep WeekEdit.reachable_apply edits .empty

/-- The weeks that histories of edits lead to are the reachable ones. -/
theorem reachable_iff {s : WeekSchedule V C P} : s.Reachable ↔ ∃ edits, after edits = s := by
  constructor
  · intro h
    have hlast : ∀ {s s' : WeekSchedule V C P} (edit : WeekEdit V C), edit.apply s = .ok s' →
        (∃ edits, after edits = s) → ∃ edits, after edits = s' := by
      rintro s s' edit he ⟨edits, rfl⟩
      exact ⟨edits ++ [edit], by rw [after_append, he]; rfl⟩
    induction h with
    | empty => exact ⟨[], rfl⟩
    | insert d time channels _ e ih =>
        exact hlast (.insert d time channels) (by rw [WeekEdit.apply, e]; rfl) ih
    | remove d time _ e ih => exact hlast (.remove d time) (by rw [WeekEdit.apply, e]; rfl) ih
    | setDay d _ hp ih =>
        obtain ⟨edits, rfl⟩ := DaySchedule.reachable_iff.mp hp
        exact hlast (.copy d edits) rfl ih
    | setValue d time channel value _ e ih =>
        exact hlast (.onDay d (.write time channel value))
          (by rw [WeekEdit.apply, WeekEdit.editDay, DayEdit.apply, e]) ih
    | clearDay d _ ih => exact hlast (.onDay d .clear) rfl ih
    | clear _ ih => exact hlast .clear rfl ih
  · rintro ⟨edits, rfl⟩
    exact reachable_after edits

/-- **A week is seven bounded finite maps.** After any edits, accepted or refused:

* the points of a day stand in its first slots, ascending in time and within the day, and the other
  slots are empty;
* the maps of the week hold just these points;
* the edits have done the same to the maps, with the same answers, and so does one edit more;
* an edit that is refused leaves the whole week as it was;
* no edit changes a day that it is not about;
* days with the same points are equal, whatever edits led to them. -/
theorem after_refines (edits : List (WeekEdit V C)) :
    let s : WeekSchedule V C P := after edits
    (∀ d, (∀ i, (s.day d).points.get? i = (s.day d).toList[i]?) ∧
      ((s.day d).toList.Pairwise fun p q => p.time < q.time) ∧
      ∀ p ∈ (s.day d).toList, p.time < secondsPerDay) ∧
    (∀ d p, p ∈ (s.day d).toList ↔ (s.maps d).lookup p.time = some p.channels) ∧
    attempts (WeekEdit.onMaps P) edits (fun _ => ∅) = (answers P edits, s.maps) ∧
    (∀ edit : WeekEdit V C, (edit.apply s).map maps = edit.onMaps P s.maps) ∧
    (∀ (edit : WeekEdit V C) error, edit.apply s = .error error → after (edits ++ [edit]) = s) ∧
    (∀ (edit : WeekEdit V C) d, ¬ edit.IsAbout d →
      (after (edits ++ [edit]) : WeekSchedule V C P).day d = s.day d) ∧
    (∀ (edits' : List (WeekEdit V C)) d d',
      (∀ p, p ∈ (s.day d).toList ↔ p ∈ ((after edits' : WeekSchedule V C P).day d').toList) →
        s.day d = (after edits').day d') := by
  intro s
  have hreach : s.Reachable := reachable_after edits
  have hday : ∀ d, (s.day d).Reachable := hreach.day
  refine ⟨fun d => ⟨(hday d).packed.get?_eq, (hday d).ordered.ascending, (hday d).ordered.within⟩,
    fun d p => ?_, ?_, fun edit => edit.apply_refines _ hreach, fun edit error he => ?_,
    fun edit d hd => ?_, fun edits' d d' hmem => ?_⟩
  · exact (hday d).ordered.find?_eq_some_iff.symm.trans (by rw [maps, DaySchedule.lookup_toMap])
  · rw [← maps_empty (P := P)]
    exact attempts_map WeekEdit.reachable_apply WeekEdit.apply_refines edits .empty
  · rw [after_append, show (after edits : WeekSchedule V C P) = s from rfl, he]
    rfl
  · rw [after_append, show (after edits : WeekSchedule V C P) = s from rfl]
    cases he : edit.apply s with
    | error error => rfl
    | ok s' =>
        obtain ⟨e, points, habout, rfl, -⟩ | ⟨rfl, -⟩ := WeekEdit.apply_eq_ok he
        · exact (day_setDay _ _ _ _).trans (if_neg fun hde => hd ((habout d).mpr hde))
        · exact absurd trivial hd
  · exact (hday d).eq_of_mem_iff ((reachable_after edits').day d') hmem

end WeekSchedule

end Aquarium

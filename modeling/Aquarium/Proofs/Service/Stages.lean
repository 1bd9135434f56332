import Aquarium.Proofs.Json.Records
import Aquarium.Proofs.Schedule.Entries
import Aquarium.Service.Request

/-!
# The stages of an edit

An edit that succeeds has gone through its three stages: the change in memory, the saving of the
schedule, the saving of the mode. This file says what each stage does to memory and to the files.

* `Edit.apply_eq_ok`, `Edit.Applies.reachable`: what the change asks for, and that it leaves a
  schedule that edits can build;
* `persistSchedule_eq_ok`, `persistMode_eq_ok`: the two savings change the store alone, and each of
  them one file;
* `rights_answer`: what may be done in the data directory is not the controller's to change;
* `edit_cases`: the stages behind an answer of success;
* `Sound`, `Reached.sound`: a controller started with lights keeps them, and its schedule is always
  one that edits can build.
-/

namespace Aquarium

/-! ## 1. Files -/

namespace Store

variable {s t : Store} {file other : DataFile} {text : String}

theorem rights_save (h : s.save file text = .ok t) : t.rights = s.rights := by
  rw [save_eq_ok h, rights_put]

theorem content_save (h : s.save file text = .ok t) : t.content file = .text text := by
  rw [save_eq_ok h, content_put, if_pos rfl]

/-- Saving one file leaves the others as they are. -/
theorem content_save_of_ne (h : s.save file text = .ok t) (hne : other ≠ file) :
    t.content other = s.content other := by
  rw [save_eq_ok h, content_put, if_neg hne]

theorem read?_save_of_ne (h : s.save file text = .ok t) (hne : other ≠ file) :
    t.read? other = s.read? other := by
  rw [read?, read?, rights_save h, content_save_of_ne h hne]

end Store

/-! ## 2. The change in memory -/

/-- No error is answered with success. -/
theorem EditError.status_ge (e : EditError) : 400 ≤ e.status := by
  rcases e with ⟨day, cause⟩ | _ | _ | _
  · cases cause <;> simp [status]
  all_goals decide

namespace Edit

variable {e : Edit} {outputs : Option (ScheduledOutputs Pwm)} {o : ScheduledOutputs Pwm}

/-- What an accepted edit asks of the outputs. -/
inductive Applies : Edit → ScheduledOutputs Pwm → ScheduledOutputs Pwm → Prop where
  | replace {o : ScheduledOutputs Pwm} {entries : List (Entry Float32)}
      {schedule : LightSchedule} (h : WeekSchedule.ofEntries entries = .ok schedule)
      (mode : Option TransitionMode) :
      Applies (.replace entries mode) o
        ((o.replaceSchedule schedule).setMode (mode.getD o.mode))
  | add {o : ScheduledOutputs Pwm} {day : Day} {time : Nat} {values : List (Option Float32)}
      {channels : Channels Float32 outputChannels} {schedule : LightSchedule}
      (hvalues : channelValues values = .ok channels)
      (h : o.schedule.insert day time channels = .ok schedule) :
      Applies (.add day time values) o (o.replaceSchedule schedule)
  | remove {o : ScheduledOutputs Pwm} {day : Day} {time : Nat} {schedule : LightSchedule}
      (h : o.schedule.remove day time = .ok schedule) :
      Applies (.remove day time) o (o.replaceSchedule schedule)
  | setMode {o : ScheduledOutputs Pwm} (mode : TransitionMode) :
      Applies (.setMode mode) o (o.setMode mode)

theorem eq_some_of_present
    (h : (match outputs with
      | some o => .ok o
      | none => .error .noOutputs : Except EditError (ScheduledOutputs Pwm)) = .ok o) :
    outputs = some o := by
  cases outputs with
  | none => cases h
  | some o =>
      cases h
      rfl

theorem apply_eq_ok (h : e.apply outputs = .ok o) :
    ∃ before, outputs = some before ∧ Applies e before o := by
  cases e with
  | replace entries mode =>
      obtain ⟨schedule, hload, h⟩ := bind_eq_ok h
      obtain ⟨before, hbefore, h⟩ := bind_eq_ok h
      refine ⟨before, eq_some_of_present hbefore, ?_⟩
      cases h
      cases mode <;> exact .replace (mapError_eq_ok hload) _
  | add day time values =>
      obtain ⟨channels, hvalues, h⟩ := bind_eq_ok h
      obtain ⟨before, hbefore, h⟩ := bind_eq_ok h
      obtain ⟨schedule, hinsert, rfl⟩ := map_eq_ok (mapError_eq_ok h)
      exact ⟨before, eq_some_of_present hbefore, .add (mapError_eq_ok hvalues) hinsert⟩
  | remove day time =>
      obtain ⟨before, hbefore, h⟩ := bind_eq_ok h
      obtain ⟨schedule, hremove, rfl⟩ := map_eq_ok (mapError_eq_ok h)
      exact ⟨before, eq_some_of_present hbefore, .remove hremove⟩
  | setMode mode =>
      obtain ⟨before, hbefore, h⟩ := bind_eq_ok h
      cases h
      exact ⟨before, eq_some_of_present hbefore, .setMode mode⟩

/-- **An accepted edit leaves a schedule that edits can build.** -/
theorem Applies.reachable {before after : ScheduledOutputs Pwm} (h : Applies e before after)
    (hbefore : before.schedule.Reachable) : after.schedule.Reachable := by
  cases h with
  | replace hload mode => exact WeekSchedule.ofEntries_reachable hload
  | add hvalues hinsert => exact hbefore.insert _ _ _ hinsert
  | remove hremove => exact hbefore.remove _ _ hremove
  | setMode mode => exact hbefore

end Edit

namespace Controller

/-! ## 3. The three stages -/

variable {e : Edit} {c c' : Controller}

/-- The change acts on the lights that there are, and only on them. -/
theorem change_eq_ok (h : c.change e = .ok c') :
    ∃ before after, c.outputs? = some before ∧ Edit.Applies e before after ∧
      c'.outputs? = some after ∧ c'.store = c.store := by
  obtain ⟨after, happly, rfl⟩ := map_eq_ok h
  obtain ⟨before, hbefore, happlies⟩ := Edit.apply_eq_ok happly
  exact ⟨before, after, hbefore, happlies, outputs?_setOutputs hbefore after,
    store_setOutputs c after⟩

theorem saveSchedule_eq_ok {es : List (Entry Float32)} (h : c.saveSchedule es = .ok c') :
    ∃ store, c.store.saveSchedule es = .ok store ∧ c' = { c with store := store } := by
  unfold saveSchedule at h
  split at h
  · rename_i store hsave
    cases h
    exact ⟨store, hsave, rfl⟩
  · cases h

theorem saveSettings_eq_ok {s : Settings} (h : c.saveSettings s = .ok c') :
    ∃ store, c.store.saveSettings s = .ok store ∧ c' = { c with store := store } := by
  unfold saveSettings at h
  split at h
  · rename_i store hsave
    cases h
    exact ⟨store, hsave, rfl⟩
  · cases h

/-- The schedule file holds just the text of these entries. -/
def Holds (c : Controller) (es : List (Entry Float32)) : Prop :=
  c.store.content .schedule = .text (lightEntriesToJson es).pretty

theorem Holds.read?_eq {es : List (Entry Float32)} (h : c.Holds es)
    (hreads : c.store.rights.read .schedule = true) :
    c.store.read? .schedule = .ok (some (lightEntriesToJson es).pretty) :=
  Store.read?_of_text hreads h

/-- An edit of the schedule leaves memory and the rights as they are, and the entries of memory in
the file. -/
theorem persistSchedule_eq_ok (h : c.persistSchedule e = .ok c') :
    c'.outputs? = c.outputs? ∧ c'.store.rights = c.store.rights ∧
      (e.touchesSchedule = true → c'.Holds c.entries) := by
  unfold persistSchedule at h
  split at h
  · obtain ⟨store, hsave, rfl⟩ := saveSchedule_eq_ok h
    exact ⟨rfl, Store.rights_save hsave, fun _ => Store.content_save hsave⟩
  · rename_i htouches
    cases h
    exact ⟨rfl, rfl, fun h => absurd h htouches⟩

/-- Saving the mode changes neither memory, nor the rights, nor the schedule file. -/
theorem persistMode_eq_ok (h : c.persistMode e = .ok c') :
    c'.outputs? = c.outputs? ∧ c'.store.rights = c.store.rights ∧
      c'.store.content .schedule = c.store.content .schedule := by
  unfold persistMode at h
  split at h
  · cases h
    exact ⟨rfl, rfl, rfl⟩
  · obtain ⟨settings, -, h⟩ := bind_eq_ok h
    obtain ⟨store, hsave, rfl⟩ := saveSettings_eq_ok h
    exact ⟨rfl, Store.rights_save hsave, Store.content_save_of_ne hsave (by decide)⟩

/-- **An edit either fails in one of its stages or goes through all of them.** -/
theorem edit_cases {response : Response} (h : c.edit e = (response, c')) :
    400 ≤ response.status ∨
      ∃ c₁ c₂, c.change e = .ok c₁ ∧ c₁.persistSchedule e = .ok c₂ ∧ c₂.persistMode e = .ok c' ∧
        response = ⟨e.status, c'.scheduleView.body⟩ := by
  unfold edit at h
  split at h
  · rename_i cause _
    cases h
    exact .inl cause.status_ge
  · rename_i c₁ hchange
    split at h
    · rename_i cause _
      cases h
      exact .inl cause.status_ge
    · rename_i c₂ hschedule
      split at h
      · rename_i cause _
        cases h
        exact .inl cause.status_ge
      · rename_i c₃ hmode
        cases h
        exact .inr ⟨c₁, c₂, hchange, hschedule, hmode, rfl⟩

/-- No edit changes what may be done in the data directory. -/
theorem rights_edit (c : Controller) (e : Edit) : (c.edit e).2.store.rights = c.store.rights := by
  unfold edit
  split
  · rfl
  · rename_i c₁ hchange
    obtain ⟨-, -, -, -, -, hstore⟩ := change_eq_ok hchange
    rw [← hstore]
    split
    · rfl
    · rename_i c₂ hschedule
      rw [← (persistSchedule_eq_ok hschedule).2.1]
      split
      · rfl
      · rename_i c₃ hmode
        exact (persistMode_eq_ok hmode).2.1

theorem rights_answer (c : Controller) (now : Moment) (r : Request) :
    (c.answer now r).2.store.rights = c.store.rights := by
  unfold answer
  split
  · rfl
  · rfl
  · rename_i e _
    exact rights_edit c e

/-! ## 4. Controllers that serve requests -/

/-- There are lights, and edits can build their schedule. -/
def Sound (c : Controller) : Prop := ∃ o, c.outputs? = some o ∧ o.schedule.Reachable

theorem Sound.of_outputs? (h : c.Sound) (heq : c'.outputs? = c.outputs?) : c'.Sound := by
  obtain ⟨o, ho, hreachable⟩ := h
  exact ⟨o, heq.trans ho, hreachable⟩

theorem Sound.change (h : c.Sound) (hchange : c.change e = .ok c') : c'.Sound := by
  obtain ⟨o, ho, hreachable⟩ := h
  obtain ⟨before, after, hbefore, happlies, hafter, -⟩ := change_eq_ok hchange
  rw [ho] at hbefore
  cases hbefore
  exact ⟨after, hafter, happlies.reachable hreachable⟩

/-- An edit keeps the controller sound, whatever becomes of it. -/
theorem Sound.edit (h : c.Sound) (e : Edit) : (c.edit e).2.Sound := by
  unfold Controller.edit
  split
  · exact h
  · rename_i c₁ hchange
    have h₁ := h.change hchange
    split
    · exact h₁
    · rename_i c₂ hschedule
      have h₂ := h₁.of_outputs? (persistSchedule_eq_ok hschedule).1
      split
      · exact h₂
      · rename_i c₃ hmode
        exact h₂.of_outputs? (persistMode_eq_ok hmode).1

theorem Sound.answer (h : c.Sound) (now : Moment) (r : Request) : (c.answer now r).2.Sound := by
  unfold Controller.answer
  split
  · exact h
  · exact h
  · rename_i e _
    exact h.edit e

theorem startSchedule_reachable (store : Store) : store.startSchedule.Reachable := by
  unfold Store.startSchedule
  dsimp only
  split
  · rename_i schedule hload
    exact WeekSchedule.ofEntries_reachable hload
  · exact .empty

theorem sound_start (store : Store) (now : Int) : (start store true now).Sound := by
  have hstart : (start store true now).outputs? =
      some (startLights store store.startSettings) := rfl
  refine ⟨_, hstart, ?_⟩
  unfold startLights
  split <;> exact startSchedule_reachable store

/-- A controller that was started with lights, on any store, and has answered requests since. -/
inductive Reached : Controller → Prop where
  | start (store : Store) (now : Int) : Reached (Controller.start store true now)
  | answer {c : Controller} (now : Moment) (r : Request) (h : Reached c) :
      Reached (c.answer now r).2

/-- **Its schedule is always one that edits can build.** -/
theorem Reached.sound (h : c.Reached) : c.Sound := by
  induction h with
  | start store now => exact sound_start store now
  | answer now r _ ih => exact ih.answer now r

end Controller

end Aquarium

import Aquarium.Proofs.Service.EditMaps
import Aquarium.Proofs.Service.Restart
import Aquarium.Proofs.Settings.Format

/-!
# The ways an edit can go

An edit passes its checks or is refused by the first that fails; then it changes memory, and two
stages save what it has changed. What becomes of it is decided by the schedule it meets and by what
stands in the data directory.

* `Store.Writable`, `Store.Takes`: when a file can be saved, and when it can be read again as well;
* `Store.Serves`: when the data directory does all that an edit asks of it, which is to save the
  schedule, to load the runtime settings and to save them;
* `Edit.Course`: the ways an edit can go, with the answer and the controller that each ends with;
* `edit_course`: every edit goes one of these ways;
* `content_schedule_saved`, `loadMode_saved`: what an edit that is done leaves in the files.
-/

namespace Aquarium

/-! ## 1. What a store takes -/

namespace Store

/-- A text can be saved as the file. -/
structure Writable (s : Store) (file : DataFile) : Prop where
  make : s.rights.make = true
  write : s.rights.write file = true
  place : s.content file ≠ .directory

/-- A text can be saved as the file, and read from it again. -/
structure Takes (s : Store) (file : DataFile) : Prop extends s.Writable file where
  reads : s.rights.read file = true

variable {s t : Store} {file other : DataFile} {text : String}

theorem Writable.save_eq (h : s.Writable file) (text : String) :
    s.save file text = .ok (s.put file (.text text)) := by
  rw [save, if_pos h.make, if_pos ⟨h.write, h.place⟩]

theorem writable_of_save (h : s.save file text = .ok t) : s.Writable file := by
  unfold save at h
  split at h
  · rename_i hmake
    split at h
    · rename_i hopen
      exact ⟨hmake, hopen.1, hopen.2⟩
    · cases h
  · cases h

theorem Takes.read?_put (h : s.Takes file) (text : String) :
    (s.put file (.text text)).read? file = .ok (some text) :=
  read?_save h.reads (h.save_eq text)

variable {α : Type} {read : Json → Except ReadError α} {missing a : α}

/-- A file from which something is loaded can be read. Whether it can be written is another
matter. -/
theorem reads_of_load (h : s.load file read missing = .ok a) :
    s.rights.read file = true ∧ s.content file ≠ .directory := by
  obtain ⟨text, hread, -⟩ := bind_eq_ok h
  unfold read? at hread
  split at hread
  · rename_i hreads
    refine ⟨hreads, fun hdirectory => ?_⟩
    rw [hdirectory] at hread
    cases hread
  · cases hread

theorem read?_put_of_ne (hne : file ≠ other) (content : Content) :
    (s.put other content).read? file = s.read? file := by
  rw [read?, read?, rights_put, content_put, if_neg hne]

theorem load_put_of_ne (hne : file ≠ other) (content : Content) :
    (s.put other content).load file read missing = s.load file read missing := by
  rw [load, load, read?_put_of_ne hne]

theorem writable_put_of_ne (hne : file ≠ other) (content : Content) :
    (s.put other content).Writable file ↔ s.Writable file := by
  have hplace : (s.put other content).content file = s.content file := by
    rw [content_put, if_neg hne]
  constructor <;> rintro ⟨hmake, hwrite, hfile⟩
  · rw [rights_put] at hmake hwrite
    exact ⟨hmake, hwrite, hplace ▸ hfile⟩
  · exact ⟨by rwa [rights_put], by rwa [rights_put], by rwa [hplace]⟩

/-- **The data directory does all that an edit asks of it.** If the edit is about the schedule, the
schedule can be saved. If it brings a mode, the runtime settings can be loaded, and saved as
well. -/
structure Serves (s : Store) (e : Edit) : Prop where
  schedule : e.touchesSchedule = true → s.Writable .schedule
  loads : e.mode?.isSome = true → ∃ settings, s.loadSettings = .ok settings
  settings : e.mode?.isSome = true → s.Writable .settings

end Store

/-! ## 2. The ways of an edit -/

/-- What a request for the schedule shows of outputs. -/
def ScheduledOutputs.view (o : ScheduledOutputs Pwm) : Json :=
  .record [("mode", o.mode.toJson), ("entries", lightEntriesToJson o.schedule.entries)]

namespace Edit

/-- The data directory after the schedule stage. -/
def withSchedule (e : Edit) (es : List (Entry Float32)) (s : Store) : Store :=
  if e.touchesSchedule then s.put .schedule (.text (lightEntriesToJson es).pretty) else s

/-- The data directory after the mode stage. -/
def withMode (e : Edit) (s : Store) : Store :=
  match e.mode?, s.loadSettings with
  | some mode, .ok settings => s.put .settings (.text (settings.withMode mode).toJson.pretty)
  | _, _ => s

/-- The data directory after an edit that is done. -/
def saved (e : Edit) (es : List (Entry Float32)) (s : Store) : Store :=
  e.withMode (e.withSchedule es s)

/-- **The ways an edit can go**, with the answer and the controller it ends with: a check refuses
it, the schedule cannot be saved, the settings cannot be loaded, the settings cannot be saved, or it
is done. -/
inductive Course (e : Edit) (c : Controller) (before : ScheduledOutputs Pwm) :
    Response → Controller → Prop where
  | refused {error : ScheduleError} (h : e.onMaps before.schedule.maps = .error error) :
      Course e c before (EditError.refused error).response c
  | scheduleNotSaved {after : ScheduledOutputs Pwm} (hmakes : e.Makes before after)
      (htouches : e.touchesSchedule = true) (hstore : ¬ c.store.Writable .schedule) :
      Course e c before EditError.scheduleNotSaved.response (c.setOutputs after)
  | settingsNotLoaded {after : ScheduledOutputs Pwm} (hmakes : e.Makes before after)
      (hschedule : e.touchesSchedule = true → c.store.Writable .schedule)
      (hmode : e.mode?.isSome = true) (hload : ¬ ∃ settings, c.store.loadSettings = .ok settings) :
      Course e c before EditError.settingsNotSaved.response
        { c.setOutputs after with store := e.withSchedule after.schedule.entries c.store }
  | settingsNotSaved {after : ScheduledOutputs Pwm} (hmakes : e.Makes before after)
      (hschedule : e.touchesSchedule = true → c.store.Writable .schedule)
      (hmode : e.mode?.isSome = true) (hload : ∃ settings, c.store.loadSettings = .ok settings)
      (hstore : ¬ c.store.Writable .settings) :
      Course e c before EditError.settingsNotSaved.response
        { c.setOutputs after with store := e.withSchedule after.schedule.entries c.store }
  | done {after : ScheduledOutputs Pwm} (hmakes : e.Makes before after)
      (hserves : c.store.Serves e) :
      Course e c before ⟨e.status, after.view⟩
        { c.setOutputs after with store := e.saved after.schedule.entries c.store }

theorem loadSettings_withSchedule (e : Edit) (es : List (Entry Float32)) (s : Store) :
    (e.withSchedule es s).loadSettings = s.loadSettings := by
  unfold withSchedule
  split
  · exact Store.load_put_of_ne (by decide) _
  · rfl

theorem writable_withSchedule (e : Edit) (es : List (Entry Float32)) (s : Store) :
    (e.withSchedule es s).Writable .settings ↔ s.Writable .settings := by
  unfold withSchedule
  split
  · exact Store.writable_put_of_ne (by decide) _
  · exact Iff.rfl

section Saved

variable {e : Edit} {s : Store}

/-- The schedule file holds the entries. -/
theorem content_schedule_saved (htouches : e.touchesSchedule = true) (es : List (Entry Float32))
    (s : Store) :
    (e.saved es s).content .schedule = .text (lightEntriesToJson es).pretty := by
  have hschedule : (e.withSchedule es s).content .schedule =
      .text (lightEntriesToJson es).pretty := by
    rw [withSchedule, if_pos htouches, Store.content_put, if_pos rfl]
  rw [← hschedule, saved, withMode]
  split
  · rw [Store.content_put, if_neg (by decide)]
  · rfl

/-- The settings file holds the settings that it held before, with the mode. -/
theorem read?_settings_saved {mode : TransitionMode} (hmode : e.mode? = some mode)
    {settings : Settings} (hload : s.loadSettings = .ok settings) (es : List (Entry Float32)) :
    (e.saved es s).read? .settings = .ok (some (settings.withMode mode).toJson.pretty) := by
  rw [← loadSettings_withSchedule e es] at hload
  simp only [saved, withMode, hmode, hload]
  refine Store.read?_of_text ?_ (by rw [Store.content_put, if_pos rfl])
  rw [Store.rights_put]
  exact (Store.reads_of_load hload).1

/-- The settings file names the mode. -/
theorem loadMode_saved (h : s.Serves e) {mode : TransitionMode} (hmode : e.mode? = some mode)
    (es : List (Entry Float32)) : (e.saved es s).loadMode = .ok mode := by
  obtain ⟨settings, hload⟩ := h.loads (by rw [hmode]; rfl)
  exact Store.loadMode_of_read? (read?_settings_saved hmode hload es)

/-- Without a mode the settings stay as they are. -/
theorem loadSettings_saved_of_none (hmode : e.mode? = none) (es : List (Entry Float32))
    (s : Store) : (e.saved es s).loadSettings = s.loadSettings := by
  rw [saved, withMode, hmode]
  exact loadSettings_withSchedule e es s

/-- The file of the channel times stays as it is. -/
theorem channelState_saved (e : Edit) (es : List (Entry Float32)) (s : Store) :
    (e.saved es s).channelState = s.channelState := by
  have hschedule : (e.withSchedule es s).channelState = s.channelState := by
    unfold withSchedule
    split <;> rfl
  rw [← hschedule, saved, withMode]
  split <;> rfl

end Saved

end Edit

namespace Controller

variable {e : Edit} {c c' : Controller} {before after : ScheduledOutputs Pwm}

theorem persistSchedule_of_writable (h : e.touchesSchedule = true → c.store.Writable .schedule) :
    c.persistSchedule e = .ok { c with store := e.withSchedule c.entries c.store } := by
  unfold persistSchedule Edit.withSchedule
  split
  · rename_i htouches
    unfold saveSchedule Store.saveSchedule
    rw [(h htouches).save_eq]
  · rfl

theorem persistSchedule_of_not_writable (htouches : e.touchesSchedule = true)
    (h : ¬ c.store.Writable .schedule) : c.persistSchedule e = .error .scheduleNotSaved := by
  unfold persistSchedule saveSchedule
  rw [if_pos htouches]
  split
  · rename_i hsave
    exact absurd (Store.writable_of_save hsave) h
  · rfl

theorem persistMode_of_load
    (h : e.mode?.isSome = true → ∃ settings, c.store.loadSettings = .ok settings)
    (hstore : e.mode?.isSome = true → c.store.Writable .settings) :
    c.persistMode e = .ok { c with store := e.withMode c.store } := by
  unfold persistMode Edit.withMode
  cases hmode : e.mode? with
  | none => rfl
  | some mode =>
      have hbrings : e.mode?.isSome = true := by rw [hmode]; rfl
      obtain ⟨settings, hload⟩ := h hbrings
      have hsave := (hstore hbrings).save_eq (settings.withMode mode).toJson.pretty
      simp only [loadSettings, hload, Except.mapError, bind, Except.bind, saveSettings,
        Store.saveSettings, hsave]

theorem persistMode_of_not_load (hmode : e.mode?.isSome = true)
    (h : ¬ ∃ settings, c.store.loadSettings = .ok settings) :
    c.persistMode e = .error .settingsNotSaved := by
  obtain ⟨mode, hmode⟩ := Option.isSome_iff_exists.mp hmode
  unfold persistMode loadSettings
  rw [hmode]
  cases hload : c.store.loadSettings with
  | error error => rfl
  | ok settings => exact absurd ⟨settings, hload⟩ h

/-- A settings file that can be read need not be one that can be saved. -/
theorem persistMode_of_not_writable (hmode : e.mode?.isSome = true)
    (hload : ∃ settings, c.store.loadSettings = .ok settings)
    (hstore : ¬ c.store.Writable .settings) :
    c.persistMode e = .error .settingsNotSaved := by
  obtain ⟨mode, hmode⟩ := Option.isSome_iff_exists.mp hmode
  obtain ⟨settings, hload⟩ := hload
  simp only [persistMode, hmode, loadSettings, hload, Except.mapError, bind, Except.bind]
  unfold saveSettings
  split
  · rename_i hsave
    exact absurd (Store.writable_of_save hsave) hstore
  · rfl

theorem scheduleView_of_outputs? (h : c.outputs? = some after) :
    c.scheduleView = ⟨200, after.view⟩ := by
  rw [scheduleView, h]
  rfl

/-- The stages after the change in memory. -/
theorem stages_course (hmakes : e.Makes before after) (ho : c.outputs? = some before)
    (hchange : c.change e = .ok (c.setOutputs after)) :
    e.Course c before (c.edit e).1 (c.edit e).2 := by
  have hafter := outputs?_setOutputs ho after
  have hentries : (c.setOutputs after).entries = after.schedule.entries :=
    entries_of_outputs? hafter
  unfold edit
  rw [hchange]
  dsimp only
  by_cases hschedule : e.touchesSchedule = true → c.store.Writable .schedule
  · rw [persistSchedule_of_writable (by rwa [store_setOutputs]), hentries, store_setOutputs]
    dsimp only
    -- the mode stage finds the settings file as the schedule stage found it
    have hload := e.loadSettings_withSchedule after.schedule.entries c.store
    have hwritable := e.writable_withSchedule after.schedule.entries c.store
    by_cases hloads : e.mode?.isSome = true → ∃ settings, c.store.loadSettings = .ok settings
    · by_cases hsettings : e.mode?.isSome = true → c.store.Writable .settings
      · rw [persistMode_of_load (by rwa [hload]) (by rwa [hwritable])]
        have hview : { c.setOutputs after with
            store := e.withMode (e.withSchedule after.schedule.entries c.store) :
            Controller }.scheduleView = ⟨200, after.view⟩ := scheduleView_of_outputs? hafter
        dsimp only
        rw [hview]
        exact .done hmakes ⟨hschedule, hloads, hsettings⟩
      · obtain ⟨hbrings, hstore⟩ := Classical.not_imp.mp hsettings
        rw [persistMode_of_not_writable hbrings (by rw [hload]; exact hloads hbrings)
          (by rwa [hwritable])]
        exact .settingsNotSaved hmakes hschedule hbrings (hloads hbrings) hstore
    · obtain ⟨hbrings, hfail⟩ := Classical.not_imp.mp hloads
      rw [persistMode_of_not_load hbrings (by rwa [hload])]
      exact .settingsNotLoaded hmakes hschedule hbrings hfail
  · obtain ⟨htouches, hstore⟩ := Classical.not_imp.mp hschedule
    rw [persistSchedule_of_not_writable htouches (by rwa [store_setOutputs])]
    exact .scheduleNotSaved hmakes htouches hstore

/-- **Every edit goes one of these ways.** -/
theorem edit_course (ho : c.outputs? = some before) (hreachable : before.schedule.Reachable)
    (e : Edit) : e.Course c before (c.edit e).1 (c.edit e).2 := by
  cases happly : e.apply (some before) with
  | error cause =>
      obtain ⟨error, hrefused, rfl⟩ := Edit.exists_refused_of_apply hreachable happly
      have hchange : c.change e = .error (.refused error) := by
        rw [change, ho, happly]
        rfl
      rw [edit, hchange]
      exact .refused hrefused
  | ok after =>
      refine stages_course (Edit.makes_of_apply hreachable happly) ho ?_
      rw [change, ho, happly]
      rfl

end Controller

end Aquarium

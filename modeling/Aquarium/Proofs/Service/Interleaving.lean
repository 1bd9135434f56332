import Aquarium.Proofs.Service.Restart
import Aquarium.Proofs.Service.Sections
import Aquarium.Proofs.Settings.Format

/-!
# What edits leave in the files when they come between each other

The files hold what was saved last, and memory what was changed last. Nothing makes the edit that
saves last the one that looked, or changed, last.

* `Traced`: memory and the files as the latest deeds have made them, whatever the order of sections;
* `Progress.Backed`: the deeds that an edit has behind it;
* `settled_iff`: once all edits have been answered with success, the files agree with memory just if
  the entries saved last are those of memory and finite, and the mode saved last is the one set last;
* `exists_lost_update`: two edits are enough for both to fail.
-/

namespace Aquarium

/-! ## 1. The latest deeds -/

namespace Deed

/-- The mode that was set, if this set one. -/
def set? : Deed → Option TransitionMode
  | .set mode => some mode
  | _ => none

/-- The entries that were saved, if this saved any. -/
def saved? : Deed → Option (List (Entry Float32))
  | .saved es => some es
  | _ => none

/-- The mode that was saved, if this saved one. -/
def kept? : Deed → Option TransitionMode
  | .kept mode => some mode
  | _ => none

end Deed

namespace Service

/-- The mode that was set last. -/
def setLast? (s : Service) : Option TransitionMode := s.deeds.findSome? Deed.set?

/-- The entries that were saved last: what memory held when the job that saved them looked. -/
def savedLast? (s : Service) : Option (List (Entry Float32)) := s.deeds.findSome? Deed.saved?

/-- The mode that was saved last. -/
def keptLast? (s : Service) : Option TransitionMode := s.deeds.findSome? Deed.kept?

end Service

/-- The mode in memory. -/
def Controller.mode? (c : Controller) : Option TransitionMode :=
  c.outputs?.map ScheduledOutputs.mode

/-! ## 2. One section -/

theorem Edit.Applies.mode {e : Edit} {before after : ScheduledOutputs Pwm}
    (h : Edit.Applies e before after) : after.mode = e.mode?.getD before.mode := by
  cases h <;> rfl

theorem Store.reads_save {s t : Store} {file : DataFile} {text : String}
    (hreads : ∀ other, s.rights.read other = true) (h : s.save file text = .ok t) :
    ∀ other, t.rights.read other = true := by
  rw [rights_save h]
  exact hreads

theorem Store.loadMode_congr {s t : Store} (h : t.read? .settings = s.read? .settings) :
    t.loadMode = s.loadMode := by
  rw [loadMode, loadMode, load, load, h]

theorem Controller.Sound.inWords {c : Controller} (h : c.Sound) : InWords c.entries := by
  obtain ⟨o, ho, hreachable⟩ := h
  rw [Controller.entries_of_outputs? ho]
  exact inWords_entries hreachable.ordered

/-- Memory and the files as the latest deeds have made them, where the files can be read. -/
structure Traced (c : Controller) (deeds : List Deed) : Prop where
  sound : c.Sound
  reads : ∀ file, c.store.rights.read file = true
  set : ∀ mode, deeds.findSome? Deed.set? = some mode → c.mode? = some mode
  saved : ∀ es, deeds.findSome? Deed.saved? = some es → c.Holds es ∧ InWords es
  kept : ∀ mode, deeds.findSome? Deed.kept? = some mode → c.store.loadMode = .ok mode

/-- A deed that was due has been done. -/
def Done {α : Type} (due : Bool) (read : Deed → Option α) (deeds : List Deed) : Prop :=
  due = true → (deeds.findSome? read).isSome = true

theorem Done.append {α : Type} {due : Bool} {read : Deed → Option α} {deeds : List Deed}
    (h : Done due read deeds) (more : List Deed) : Done due read (more ++ deeds) := by
  intro hdue
  rw [List.findSome?_append, Option.isSome_or, h hdue, Bool.or_true]

/-- All that an edit was to do has been done. -/
structure Edit.AllDone (e : Edit) (deeds : List Deed) : Prop where
  set : Done e.mode?.isSome Deed.set? deeds
  saved : Done e.touchesSchedule Deed.saved? deeds
  kept : Done e.mode?.isSome Deed.kept? deeds

/-- What an edit has behind it as far as it has come. -/
def Progress.Backed (deeds : List Deed) (e : Edit) : Progress → Prop
  | .changeDue => True
  | .lookDue => Done e.mode?.isSome Deed.set? deeds
  | .saveDue es => Done e.mode?.isSome Deed.set? deeds ∧ InWords es
  | .loadDue _ | .settingsDue _ =>
    Done e.mode?.isSome Deed.set? deeds ∧ Done e.touchesSchedule Deed.saved? deeds
  | .viewDue => e.AllDone deeds
  | .answered response => response.status < 400 → e.AllDone deeds

section Sections

variable {e : Edit} {c : Controller} {p : Progress} {o : Outcome} {deeds : List Deed}

theorem Edit.AllDone.append (h : e.AllDone deeds) (more : List Deed) : e.AllDone (more ++ deeds) :=
  ⟨h.set.append more, h.saved.append more, h.kept.append more⟩

/-- Deeds of others take nothing away. -/
theorem Progress.Backed.append (h : p.Backed deeds e) (more : List Deed) :
    p.Backed (more ++ deeds) e := by
  cases p with
  | changeDue => trivial
  | lookDue => exact Done.append h more
  | saveDue es => exact ⟨h.1.append more, h.2⟩
  | loadDue mode => exact ⟨h.1.append more, h.2.append more⟩
  | settingsDue s => exact ⟨h.1.append more, h.2.append more⟩
  | viewDue => exact Edit.AllDone.append h more
  | answered response => exact fun hstatus => (h hstatus).append more

theorem backed_modeStage (hset : Done e.mode?.isSome Deed.set? deeds)
    (hsaved : Done e.touchesSchedule Deed.saved? deeds) : e.modeStage.Backed deeds e := by
  unfold Edit.modeStage
  split
  · exact ⟨hset, hsaved⟩
  · rename_i hmode
    refine ⟨hset, hsaved, fun hdue => ?_⟩
    rw [hmode] at hdue
    cases hdue

theorem backed_scheduleStage (hset : Done e.mode?.isSome Deed.set? deeds) :
    e.scheduleStage.Backed deeds e := by
  unfold Edit.scheduleStage
  split
  · exact hset
  · rename_i htouches
    exact backed_modeStage hset fun hdue => absurd hdue htouches

/-- **A section does the deed that the next stage counts on.** -/
theorem Progress.Backed.advance (h : p.Backed deeds e) (hc : c.Sound) (hs : e.Section c p o) :
    o.progress.Backed (o.deed.toList ++ deeds) e := by
  cases hs with
  | change hchange =>
      refine backed_scheduleStage fun hdue => ?_
      obtain ⟨mode, hmode⟩ := Option.isSome_iff_exists.mp hdue
      rw [hmode]
      rfl
  | look => exact ⟨h, hc.inWords⟩
  | save hsave => exact backed_modeStage (h.1.append _) fun _ => rfl
  | load hload => exact h
  | keep hsave => exact ⟨h.1.append _, h.2.append _, fun _ => rfl⟩
  | view => exact fun _ => h
  | rest response => exact h
  | fail p error => exact fun hstatus => absurd error.status_ge (Nat.not_le.mpr hstatus)

/-- **A section leaves memory and the files as the latest deeds have made them.** -/
theorem Traced.advance (h : Traced c deeds) (hp : p.Backed deeds e) (hs : e.Section c p o) :
    Traced o.controller (o.deed.toList ++ deeds) := by
  cases hs with
  | change hchange =>
      rename_i c'
      obtain ⟨before, after, hbefore, happlies, hafter, hstore⟩ := Controller.change_eq_ok hchange
      have hfiles {α : Type} (read : Deed → Option α) (hread : ∀ mode, read (.set mode) = none) :
          ((e.mode?.map Deed.set).toList ++ deeds).findSome? read = deeds.findSome? read := by
        cases e.mode? with
        | none => rfl
        | some mode =>
            exact List.findSome?_cons_of_isNone (Option.isNone_iff_eq_none.mpr (hread mode))
      refine ⟨h.sound.change hchange, by rw [hstore]; exact h.reads, fun mode hset => ?_,
        fun es hsaved => ?_, fun mode hkept => ?_⟩
      · rw [Controller.mode?, hafter, Option.map_some, happlies.mode]
        cases hmode : e.mode? with
        | none =>
            rw [hmode] at hset
            have hold := h.set mode hset
            rw [Controller.mode?, hbefore] at hold
            exact hold
        | some new =>
            rw [hmode] at hset
            exact hset
      · rw [hfiles _ fun _ => rfl] at hsaved
        rw [Controller.Holds, hstore]
        exact h.saved es hsaved
      · rw [hfiles _ fun _ => rfl] at hkept
        rw [hstore]
        exact h.kept mode hkept
  | save hsave =>
      rename_i es c'
      obtain ⟨store, hstore, rfl⟩ := Controller.saveSchedule_eq_ok hsave
      refine ⟨h.sound.of_outputs? rfl, Store.reads_save h.reads hstore, h.set,
        fun es' hsaved => ?_, fun mode hkept => ?_⟩
      · cases hsaved
        exact ⟨Store.content_save hstore, hp.2⟩
      · rw [Store.loadMode_congr (Store.read?_save_of_ne hstore (by decide))]
        exact h.kept mode hkept
  | keep hsave =>
      rename_i s c'
      obtain ⟨store, hstore, rfl⟩ := Controller.saveSettings_eq_ok hsave
      refine ⟨h.sound.of_outputs? rfl, Store.reads_save h.reads hstore, h.set,
        fun es hsaved => ?_, fun mode hkept => ?_⟩
      · obtain ⟨hholds, hwords⟩ := h.saved es hsaved
        exact ⟨(Store.content_save_of_ne hstore (by decide)).trans hholds, hwords⟩
      · cases hkept
        exact Store.loadMode_of_read? (Store.read?_save (h.reads _) hstore)
  | look => exact h
  | load hload => exact h
  | view => exact h
  | rest response => exact h
  | fail p error => exact h

end Sections

/-! ## 3. Any order of sections -/

namespace Service

/-- Memory and the files are traced, and every job has behind it what it counts on. -/
structure Orderly (s : Service) : Prop where
  traced : Traced s.controller s.deeds
  backed : ∀ j ∈ s.jobs, j.progress.Backed s.deeds j.edit

variable {s : Service}

theorem orderly_opened {c : Controller} (hc : c.Sound)
    (hreads : ∀ file, c.store.rights.read file = true) (edits : List Edit) :
    (opened c edits).Orderly := by
  refine ⟨⟨hc, hreads, nofun, nofun, nofun⟩, fun j hj => ?_⟩
  obtain ⟨e, -, rfl⟩ := List.mem_map.mp hj
  trivial

theorem Orderly.advance (h : s.Orderly) (pick : Nat) : (s.advance pick).Orderly := by
  unfold Service.advance
  split
  · exact h
  · rename_i job hjob
    have hsection := job.edit.section_advance s.controller job.progress
    have hbacked := h.backed job (List.mem_of_getElem? hjob)
    refine ⟨h.traced.advance hbacked hsection, fun j hj => ?_⟩
    rcases List.mem_or_eq_of_mem_set hj with hj | rfl
    · exact (h.backed j hj).append _
    · exact hbacked.advance h.traced.sound hsection

/-- **In whatever order the sections are done.** -/
theorem Orderly.run (h : s.Orderly) (picks : List Nat) : (s.run picks).Orderly := by
  induction picks generalizing s with
  | nil => exact h
  | cons pick picks ih => exact ih (h.advance pick)

/-- A job that was answered with success has done all it was to do. -/
theorem Orderly.allDone (h : s.Orderly) (hdone : s.Succeeded) {j : Job} (hj : j ∈ s.jobs) :
    j.edit.AllDone s.deeds := by
  have hsucceeded := hdone j hj
  have hbacked := h.backed j hj
  unfold Progress.succeeded at hsucceeded
  split at hsucceeded
  · rename_i response hanswered
    rw [Bool.and_eq_true, decide_eq_true_eq, decide_eq_true_eq] at hsucceeded
    rw [hanswered] at hbacked
    exact hbacked (by omega)
  · cases hsucceeded

theorem exists_job_of_mem (c : Controller) {edits : List Edit} (picks : List Nat) {e : Edit}
    (he : e ∈ edits) : ∃ j ∈ ((opened c edits).run picks).jobs, j.edit = e := by
  have hedits : ((opened c edits).run picks).jobs.map Job.edit = edits := by
    rw [map_edit_run, opened, List.map_map]
    exact List.map_id edits
  rw [← hedits] at he
  exact List.mem_map.mp he

/-- **What is in the files when all edits have been answered with success.** The files can be read.
The schedule file is read as memory's entries just if these were saved last and all of their values
are finite, and the mode in the settings file is memory's just if the mode saved last is the mode
set last. -/
theorem settled_iff {c : Controller} (hc : c.Reached)
    (hreads : ∀ file, c.store.rights.read file = true) {edits : List Edit} {picks : List Nat}
    (hs : s = (opened c edits).run picks) (hdone : s.Succeeded) :
    ((∃ e ∈ edits, e.touchesSchedule = true) → ∃ es, s.savedLast? = some es ∧
      (s.controller.store.loadSchedule = .ok s.controller.entries ↔
        es = s.controller.entries ∧ ∀ e ∈ s.controller.entries, e.value.isFinite = true)) ∧
    ((∃ e ∈ edits, e.mode?.isSome = true) →
      (s.controller.store.loadMode.toOption = s.controller.mode? ↔
        s.keptLast? = s.setLast?)) := by
  subst hs
  have horderly := (orderly_opened hc.sound hreads edits).run picks
  constructor
  · rintro ⟨e, he, htouches⟩
    obtain ⟨j, hj, rfl⟩ := exists_job_of_mem c picks he
    obtain ⟨es, hes⟩ := Option.isSome_iff_exists.mp ((horderly.allDone hdone hj).saved htouches)
    obtain ⟨hholds, hwords⟩ := horderly.traced.saved es hes
    have hread := hholds.read?_eq (horderly.traced.reads _)
    exact ⟨es, hes, Store.loadSchedule_eq_ok_iff hwords hread⟩
  · rintro ⟨e, he, hmode⟩
    obtain ⟨j, hj, rfl⟩ := exists_job_of_mem c picks he
    obtain ⟨set, hset⟩ := Option.isSome_iff_exists.mp ((horderly.allDone hdone hj).set hmode)
    obtain ⟨kept, hkept⟩ := Option.isSome_iff_exists.mp ((horderly.allDone hdone hj).kept hmode)
    rw [keptLast?, setLast?, hset, hkept, horderly.traced.set set hset,
      horderly.traced.kept kept hkept]
    rfl

/-! ## 4. Two edits -/

/-- A schedule with one point that reports each event once, and one without any point that holds. -/
def rivals : List Edit :=
  [.replace [⟨.monday, 28800, 0, Single.ofInt 50⟩] (some .singleShot), .replace [] (some .hold)]

/-- In turns, the two come out right. -/
theorem settled_iff_inTurns :
    ∃ s, s = (opened (.start .empty true 0) rivals).run (List.replicate 6 [0, 1]).flatten ∧
      s.Succeeded ∧ s.controller.store.loadSchedule = .ok s.controller.entries ∧
      s.controller.store.loadMode.toOption = s.controller.mode? := by
  have hdone : ((opened (.start .empty true 0) rivals).run
      (List.replicate 6 [0, 1]).flatten).Succeeded := by decide +kernel
  obtain ⟨hschedule, hmode⟩ := settled_iff (.start .empty 0) (fun _ => rfl) rfl hdone
  obtain ⟨es, hes, hloaded⟩ := hschedule (by simp [rivals, Edit.touchesSchedule])
  have hnone : ((opened (.start .empty true 0) rivals).run
      (List.replicate 6 [0, 1]).flatten).savedLast? = some [] := by decide +kernel
  rw [hnone] at hes
  cases hes
  have hempty : [] = ((opened (.start .empty true 0) rivals).run
      (List.replicate 6 [0, 1]).flatten).controller.entries := by decide +kernel
  refine ⟨_, rfl, hdone, hloaded.mpr ⟨hempty, ?_⟩, (hmode (by simp [rivals, Edit.mode?])).mpr ?_⟩
  · rw [← hempty]
    exact nofun
  · decide +kernel

/-- The first edit looks before the second one changes, and saves after it. -/
def overtaken : List Nat := [0, 0, 1, 1, 1, 1, 0, 0, 1, 1, 0, 0]

/-- **A look that was overtaken undoes the later edit in both files.** -/
theorem exists_lost_update :
    ∃ s, s = (opened (.start .empty true 0) rivals).run overtaken ∧ s.Succeeded ∧
      s.controller.entries = [] ∧
      s.controller.store.loadSchedule = .ok [⟨.monday, 28800, 0, Single.ofInt 50⟩] ∧
      s.controller.mode? = some .hold ∧ s.controller.store.loadMode = .ok .singleShot := by
  have horderly := (orderly_opened (Controller.sound_start .empty 0) (fun _ => rfl) rivals).run
    overtaken
  have hchange : (Controller.start .empty true 0).change
      (.replace [⟨.monday, 28800, 0, Single.ofInt 50⟩] (some .singleShot)) =
      .ok ((Controller.start .empty true 0).setOutputs
        (((Controller.startLights .empty Store.empty.startSettings).replaceSchedule
          (mondayMorning (Single.ofInt 50))).setMode .singleShot)) := by
    simp only [Controller.change, Edit.apply, ofEntries_mondayMorning]
    rfl
  have hfirst : (opened (.start .empty true 0) rivals).advance 0 =
      ⟨(Controller.start .empty true 0).setOutputs
        (((Controller.startLights .empty Store.empty.startSettings).replaceSchedule
          (mondayMorning (Single.ofInt 50))).setMode .singleShot),
        [⟨.replace [⟨.monday, 28800, 0, Single.ofInt 50⟩] (some .singleShot), .lookDue⟩,
          ⟨.replace [] (some .hold), .changeDue⟩], [.set .singleShot]⟩ := by
    simp only [advance, opened, rivals, List.map_cons, List.getElem?_cons_zero, Edit.advance,
      hchange]
    rfl
  have hsaved : ((opened (.start .empty true 0) rivals).run overtaken).savedLast? =
      some [⟨.monday, 28800, 0, Single.ofInt 50⟩] := by
    rw [run, overtaken, List.foldl_cons, hfirst]
    decide +kernel
  obtain ⟨hholds, hwords⟩ := horderly.traced.saved _ hsaved
  refine ⟨_, rfl, by decide +kernel, by decide +kernel,
    Store.loadSchedule_of_allFinite hwords (hholds.read?_eq (horderly.traced.reads _))
      fun e he => ?_, by decide +kernel,
    horderly.traced.kept _ (by decide +kernel)⟩
  rw [List.mem_singleton.mp he]
  decide +kernel

end Service

end Aquarium

import Aquarium.Proofs.Service.Stages

/-!
# The sections of an edit

An edit goes through sections. Within a section nobody else comes in; between two sections anybody
may, since the change, the look at the entries, and each load and save take their lock anew.

* `Edit.advance`: one section of an edit, and what it leaves for the next one;
* `Edit.Section`: all that a section can do;
* `Service.run`: any number of edits, of which somebody picks the one to advance, again and again;
* `Service.alone_edit`: an edit that nobody interrupts is `Controller.edit`.
-/

namespace Aquarium

/-! ## 1. One edit -/

/-- How far an edit has come: the section that is due, with what was found for it. -/
inductive Progress where
  | changeDue
  | lookDue
  | saveDue (es : List (Entry Float32))
  | loadDue (mode : TransitionMode)
  | settingsDue (s : Settings)
  | viewDue
  | answered (response : Response)

/-- The edit has been answered with success. -/
def Progress.succeeded : Progress → Bool
  | .answered response => 200 ≤ response.status && response.status < 300
  | _ => false

/-- What a section has done to memory's mode or to a file. -/
inductive Deed where
  | set (mode : TransitionMode)
  | saved (es : List (Entry Float32))
  | kept (mode : TransitionMode)

/-- What there is after a section. -/
structure Outcome where
  progress : Progress
  controller : Controller
  deed : Option Deed

namespace Edit

/-- What is due when the schedule has been seen to. -/
def modeStage (e : Edit) : Progress :=
  match e.mode? with
  | some mode => .loadDue mode
  | none => .viewDue

/-- What is due after the change. -/
def scheduleStage (e : Edit) : Progress := if e.touchesSchedule then .lookDue else e.modeStage

/-- The section that is due. Nothing is due once the edit has been answered. -/
def advance (e : Edit) (c : Controller) : Progress → Outcome
  | .changeDue =>
    match c.change e with
    | .ok c => ⟨e.scheduleStage, c, e.mode?.map .set⟩
    | .error error => ⟨.answered error.response, c, none⟩
  | .lookDue => ⟨.saveDue c.entries, c, none⟩
  | .saveDue es =>
    match c.saveSchedule es with
    | .ok c => ⟨e.modeStage, c, some (.saved es)⟩
    | .error error => ⟨.answered error.response, c, none⟩
  | .loadDue mode =>
    match c.loadSettings with
    | .ok s => ⟨.settingsDue (s.withMode mode), c, none⟩
    | .error error => ⟨.answered error.response, c, none⟩
  | .settingsDue s =>
    match c.saveSettings s with
    | .ok c => ⟨.viewDue, c, some (.kept s.lights.transition)⟩
    | .error error => ⟨.answered error.response, c, none⟩
  | .viewDue => ⟨.answered ⟨e.status, c.scheduleView.body⟩, c, none⟩
  | .answered response => ⟨.answered response, c, none⟩

/-- All that a section can do. -/
inductive Section (e : Edit) (c : Controller) : Progress → Outcome → Prop where
  | change {c' : Controller} (h : c.change e = .ok c') :
      Section e c .changeDue ⟨e.scheduleStage, c', e.mode?.map .set⟩
  | look : Section e c .lookDue ⟨.saveDue c.entries, c, none⟩
  | save {es : List (Entry Float32)} {c' : Controller} (h : c.saveSchedule es = .ok c') :
      Section e c (.saveDue es) ⟨e.modeStage, c', some (.saved es)⟩
  | load {mode : TransitionMode} {s : Settings} (h : c.loadSettings = .ok s) :
      Section e c (.loadDue mode) ⟨.settingsDue (s.withMode mode), c, none⟩
  | keep {s : Settings} {c' : Controller} (h : c.saveSettings s = .ok c') :
      Section e c (.settingsDue s) ⟨.viewDue, c', some (.kept s.lights.transition)⟩
  | view : Section e c .viewDue ⟨.answered ⟨e.status, c.scheduleView.body⟩, c, none⟩
  | rest (response : Response) : Section e c (.answered response) ⟨.answered response, c, none⟩
  | fail (p : Progress) (error : EditError) : Section e c p ⟨.answered error.response, c, none⟩

theorem section_advance (e : Edit) (c : Controller) (p : Progress) :
    e.Section c p (e.advance c p) := by
  cases p with
  | changeDue =>
      cases h : c.change e with
      | ok c' => simpa only [advance, h] using .change h
      | error error => simpa only [advance, h] using .fail _ error
  | lookDue => exact .look
  | saveDue es =>
      cases h : c.saveSchedule es with
      | ok c' => simpa only [advance, h] using .save h
      | error error => simpa only [advance, h] using .fail _ error
  | loadDue mode =>
      cases h : c.loadSettings with
      | ok s => simpa only [advance, h] using .load h
      | error error => simpa only [advance, h] using .fail _ error
  | settingsDue s =>
      cases h : c.saveSettings s with
      | ok c' => simpa only [advance, h] using .keep h
      | error error => simpa only [advance, h] using .fail _ error
  | viewDue => exact .view
  | answered response => exact .rest response

end Edit

/-! ## 2. Many edits -/

/-- An edit under way. -/
structure Job where
  edit : Edit
  progress : Progress

/-- A controller, the edits under way, and the deeds of their sections, the latest first. -/
structure Service where
  controller : Controller
  jobs : List Job
  deeds : List Deed

namespace Service

/-- Edits none of which has begun. One that is first picked late has come late. -/
def opened (c : Controller) (edits : List Edit) : Service :=
  ⟨c, edits.map (Job.mk · .changeDue), []⟩

/-- The next section of the job that was picked. -/
def advance (s : Service) (pick : Nat) : Service :=
  match s.jobs[pick]? with
  | none => s
  | some job =>
    let outcome := job.edit.advance s.controller job.progress
    ⟨outcome.controller, s.jobs.set pick ⟨job.edit, outcome.progress⟩,
      outcome.deed.toList ++ s.deeds⟩

/-- Section by section, in the order of the picks. -/
def run (s : Service) (picks : List Nat) : Service := picks.foldl advance s

/-- Every job has been answered with success. -/
def Succeeded (s : Service) : Prop := ∀ j ∈ s.jobs, j.progress.succeeded = true

instance (s : Service) : Decidable s.Succeeded :=
  inferInstanceAs (Decidable (∀ j ∈ s.jobs, j.progress.succeeded = true))

/-- No section changes what a job is about. -/
theorem map_edit_advance (s : Service) (pick : Nat) :
    (s.advance pick).jobs.map Job.edit = s.jobs.map Job.edit := by
  unfold advance
  split
  · rfl
  · rename_i job hjob
    rw [List.map_set]
    refine List.ext_getElem? fun i => ?_
    rw [List.getElem?_set, List.getElem?_map]
    split
    · rename_i h
      subst h
      rw [hjob]
      simp only [List.length_map, (List.getElem?_eq_some_iff.mp hjob).1, if_true, Option.map_some]
    · rfl

theorem map_edit_run (s : Service) (picks : List Nat) :
    (s.run picks).jobs.map Job.edit = s.jobs.map Job.edit := by
  induction picks generalizing s with
  | nil => rfl
  | cons pick picks ih => exact (ih (s.advance pick)).trans (s.map_edit_advance pick)

/-! ## 3. An edit alone -/

/-- What one edit has come to, if nobody else is there. -/
def Alone (c : Controller) (e : Edit) (p : Progress) (n : Nat) (response : Response)
    (c' : Controller) : Prop :=
  ∀ deeds, ∃ deeds', (⟨c, [⟨e, p⟩], deeds⟩ : Service).run (List.replicate n 0) =
    ⟨c', [⟨e, .answered response⟩], deeds'⟩

variable {c c' c'' : Controller} {e : Edit} {p q : Progress} {n : Nat} {response : Response}

theorem Alone.rest : Alone c e (.answered response) n response c := by
  intro deeds
  induction n with
  | zero => exact ⟨deeds, rfl⟩
  | succ n ih => exact ih

theorem Alone.next {deed : Option Deed} (h : e.advance c p = ⟨q, c', deed⟩)
    (hrest : Alone c' e q n response c'') : Alone c e p (n + 1) response c'' := by
  intro deeds
  obtain ⟨deeds', hrun⟩ := hrest (deed.toList ++ deeds)
  refine ⟨deeds', ?_⟩
  rw [← hrun, List.replicate_succ]
  show Service.run ⟨(e.advance c p).controller, [⟨e, (e.advance c p).progress⟩],
    (e.advance c p).deed.toList ++ deeds⟩ _ = _
  rw [h]

/-- The stage of the mode, in at most three sections. -/
theorem alone_modeStage (c : Controller) (e : Edit) (n : Nat) :
    Alone c e e.modeStage (n + 3)
      (match c.persistMode e with
        | .error error => error.response
        | .ok c' => ⟨e.status, c'.scheduleView.body⟩)
      (match c.persistMode e with
        | .error _ => c
        | .ok c' => c') := by
  unfold Edit.modeStage Controller.persistMode
  cases e.mode? with
  | none => exact .next rfl .rest
  | some mode =>
      cases hload : c.loadSettings with
      | error error => exact .next (by simp only [Edit.advance, hload]; rfl) .rest
      | ok s =>
          refine .next (by simp only [Edit.advance, hload]; rfl) ?_
          simp only [bind, Except.bind]
          cases hsave : c.saveSettings (s.withMode mode) with
          | error error => exact .next (by simp only [Edit.advance, hsave]; rfl) .rest
          | ok c' => exact .next (by simp only [Edit.advance, hsave]; rfl) (.next rfl .rest)

/-- **An edit that nobody interrupts** is done after six sections, as if it were one. -/
theorem alone_edit (c : Controller) (e : Edit) :
    Alone c e .changeDue 6 (c.edit e).1 (c.edit e).2 := by
  unfold Controller.edit
  cases hchange : c.change e with
  | error error => exact .next (by simp only [Edit.advance, hchange]; rfl) .rest
  | ok c₁ =>
      refine .next (by simp only [Edit.advance, hchange]; rfl) ?_
      unfold Edit.scheduleStage Controller.persistSchedule
      cases htouches : e.touchesSchedule with
      | false =>
          simp only [Bool.false_eq_true, if_false]
          have hmode := alone_modeStage c₁ e 2
          cases hkept : c₁.persistMode e <;> simpa only [hkept] using hmode
      | true =>
          simp only [if_true]
          refine .next rfl ?_
          cases hsave : c₁.saveSchedule c₁.entries with
          | error error => exact .next (by simp only [Edit.advance, hsave]; rfl) .rest
          | ok c₂ =>
              refine .next (by simp only [Edit.advance, hsave]; rfl) ?_
              have hmode := alone_modeStage c₂ e 0
              cases hkept : c₂.persistMode e <;> simpa only [hkept] using hmode

end Service

end Aquarium

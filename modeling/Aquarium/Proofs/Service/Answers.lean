import Aquarium.Proofs.Service.Course
import Aquarium.Proofs.Service.History

/-!
# What an answer says about memory and the files

A request that brings an edit goes through checks and stages, and each of them has an answer of its
own. This file reads the other way: what the answer tells about the edit, about memory and about the
files, for a controller with any past and any data directory.

* `Edit.Verdict`, `Course.verdict`: the status tells which check has failed, if any, and whether the
  data directory has;
* `Fulfilled`: what has come about when an edit is answered with success;
* `Agrees`, `Reachable.answer_agrees`: memory, the files and the answer agree;
* `Reachable.change_stays_of_500`: an edit that cannot be saved is done in memory all the same,
  whether the schedule is not saved, or the settings are not loaded or not saved;
* `exists_mode_changed_of_500`: a request that sees this.
-/

namespace Aquarium

/-! ## 1. What the status tells -/

/-- The status of what comes back. -/
def Reply.status : Reply → Nat
  | .answered response => response.status
  | .turnedAway status => status

/-- The status of success for a request. -/
def Request.success : Request → Nat
  | .addPoint _ => 201
  | _ => 200

theorem Request.Brings.status {r : Request} {e : Edit} (h : r.Brings e) : e.status = r.success := by
  cases r <;> cases e <;> first | rfl | cases h

/-- A body that cannot be read is no JSON, too long, not announced as JSON, or of another form. -/
theorem Body.status_of_unread {read : Json → Except ReadError Edit} {b : Body} {status : Nat}
    (h : b.read read = .error status) :
    status = 400 ∨ status = 413 ∨ status = 415 ∨ status = 422 := by
  unfold Body.read at h
  split at h
  · split at h
    · cases htext : Json.readText read b.text with
      | ok e => rw [htext] at h; cases h
      | error error =>
          rw [htext] at h
          cases h
          cases error <;> simp [ReadError.status]
    · cases h
      exact .inr (.inl rfl)
  · cases h
    exact .inr (.inr (.inl rfl))

/-- A request that cannot be read is turned away with one of four statuses. -/
theorem Request.status_of_unread {r : Request} {status : Nat} (h : r.edit? = some (.error status)) :
    status = 400 ∨ status = 413 ∨ status = 415 ∨ status = 422 := by
  cases r with
  | replaceSchedule body | addPoint body | setMode body =>
      exact Body.status_of_unread (Option.some.inj h)
  | removePoint query =>
      have hquery := Option.some.inj h
      split at hquery
      · cases hquery
      · cases hquery
        exact .inl rfl
  | devices | channels | tasks | time | schedule => cases h

/-- The status with which a cause is answered. -/
def Refusal.status : Refusal → Nat
  | .dayFull | .duplicateTime _ => 409
  | .timeNotFound _ => 404
  | .invalidTime _ | .invalidChannel _ => 400

theorem EditError.status_refused (error : ScheduleError) :
    (EditError.refused error).status = error.cause.status := by
  obtain ⟨day, cause⟩ := error
  cases cause <;> rfl

namespace Edit

/-- The first check that an edit fails, if it fails any. -/
def refusal? (e : Edit) (o : ScheduledOutputs Pwm) : Option Refusal :=
  match e.onMaps o.schedule.maps with
  | .ok _ => none
  | .error error => some error.cause

variable {e : Edit} {c c' : Controller} {before : ScheduledOutputs Pwm} {response : Response}

theorem Makes.refusal?_eq {after : ScheduledOutputs Pwm} (h : e.Makes before after) :
    e.refusal? before = none := by
  rw [refusal?, h.maps]

theorem status_lt (e : Edit) : 200 ≤ e.status ∧ e.status < 300 := by
  cases e <;> simp [status]

/-- **The status tells how far an edit has come.** A refusal names the first check that fails; what
passes all checks is done unless the data directory fails it. -/
structure Verdict (e : Edit) (s : Store) (before : ScheduledOutputs Pwm) (success status : Nat) :
    Prop where
  success_iff : status = success ↔ e.refusal? before = none ∧ s.Serves e
  conflict_iff : status = 409 ↔ e.refusal? before = some .dayFull ∨
    ∃ time, e.refusal? before = some (.duplicateTime time)
  notFound_iff : status = 404 ↔ ∃ time, e.refusal? before = some (.timeNotFound time)
  badRequest_iff : status = 400 ↔ (∃ channel, e.refusal? before = some (.invalidChannel channel)) ∨
    ∃ time, e.refusal? before = some (.invalidTime time)
  failure_iff : status = 500 ↔ e.refusal? before = none ∧ ¬ s.Serves e

theorem verdict_of_refusal {s : Store} {cause : Refusal} (h : e.refusal? before = some cause) :
    e.Verdict s before e.status cause.status := by
  have hstatus := e.status_lt
  constructor <;> cases cause <;> simp [h, Refusal.status] <;> omega

theorem verdict_of_failure {s : Store} (h : e.refusal? before = none) (hstore : ¬ s.Serves e) :
    e.Verdict s before e.status 500 := by
  have hstatus := e.status_lt
  constructor <;> simp [h, hstore]
  omega

theorem verdict_of_success {s : Store} (h : e.refusal? before = none) (hstore : s.Serves e) :
    e.Verdict s before e.status e.status := by
  have hstatus := e.status_lt
  constructor <;> simp [h, hstore] <;> omega

theorem Course.verdict (h : e.Course c before response c') :
    e.Verdict c.store before e.status response.status := by
  cases h with
  | @refused error hrefused =>
      have hcause : e.refusal? before = some error.cause := by rw [refusal?, hrefused]
      show e.Verdict c.store before e.status (EditError.refused error).status
      rw [EditError.status_refused]
      exact verdict_of_refusal hcause
  | scheduleNotSaved hmakes htouches hstore =>
      exact verdict_of_failure hmakes.refusal?_eq fun h => hstore (h.schedule htouches)
  | settingsNotLoaded hmakes _ hmode hload =>
      exact verdict_of_failure hmakes.refusal?_eq fun h => hload (h.loads hmode)
  | settingsNotSaved hmakes _ hmode _ hstore =>
      exact verdict_of_failure hmakes.refusal?_eq fun h => hstore (h.settings hmode)
  | done hmakes hserves => exact verdict_of_success hmakes.refusal?_eq hserves

namespace Course

/-- A refused edit changes nothing at all. -/
theorem eq_of_refused (h : e.Course c before response c') (hge : 400 ≤ response.status)
    (hlt : response.status < 500) : c' = c := by
  cases h with
  | refused _ => rfl
  | scheduleNotSaved _ _ _ | settingsNotLoaded _ _ _ _ | settingsNotSaved _ _ _ _ _ =>
      exact absurd hlt (by decide)
  | done _ _ => exact absurd e.status_lt.2 (Nat.not_lt.mpr (Nat.le_trans (by decide) hge))

/-- An edit with success has been done in memory and in the files. -/
theorem exists_done (h : e.Course c before response c') (hlt : response.status < 300) :
    ∃ after, e.Makes before after ∧ c.store.Serves e ∧ response = ⟨e.status, after.view⟩ ∧
      c' = { c.setOutputs after with store := e.saved after.schedule.entries c.store } := by
  cases h with
  | @refused error _ =>
      have hge : 400 ≤ (EditError.refused error).response.status :=
        (EditError.refused error).status_ge
      omega
  | scheduleNotSaved _ _ _ | settingsNotLoaded _ _ _ _ | settingsNotSaved _ _ _ _ _ =>
      exact absurd hlt (by decide)
  | @done after hmakes hserves => exact ⟨after, hmakes, hserves, rfl, rfl⟩

/-- An edit that cannot be saved has been done in memory. -/
theorem exists_kept (h : e.Course c before response c') (hstatus : response.status = 500) :
    ∃ after store, e.Makes before after ∧ ¬ c.store.Serves e ∧
      c' = { c.setOutputs after with store := store } := by
  obtain ⟨hadmitted, hserves⟩ := h.verdict.failure_iff.mp hstatus
  cases h with
  | refused hrefused =>
      rw [refusal?, hrefused] at hadmitted
      cases hadmitted
  | @scheduleNotSaved after hmakes _ _ =>
      exact ⟨after, (c.setOutputs after).store, hmakes, hserves, rfl⟩
  | @settingsNotLoaded after hmakes _ _ _ => exact ⟨after, _, hmakes, hserves, rfl⟩
  | @settingsNotSaved after hmakes _ _ _ _ => exact ⟨after, _, hmakes, hserves, rfl⟩
  | @done after hmakes _ => exact ⟨after, _, hmakes, hserves, rfl⟩

end Course

end Edit

/-! ## 2. Memory, the files and the answer -/

namespace Controller

variable {c c' : Controller} {r : Request} {reply : Reply} {read : Except Nat Edit}
  {before : ScheduledOutputs Pwm}

/-- What has come about when a request is answered with success. It brought the edit `e`, which met
the outputs `before` and left `after` in their place. -/
structure Fulfilled (c : Controller) (r : Request) (e : Edit) (before after : ScheduledOutputs Pwm)
    (reply : Reply) (c' : Controller) : Prop where
  brings : r.Brings e
  /-- The schedule is the old one with exactly the change that was asked for. -/
  makes : e.Makes before after
  /-- A new schedule is the one that the entries of the request build. -/
  replaced : ∀ entries mode, e = .replace entries mode →
    WeekSchedule.ofEntries entries = .ok after.schedule
  /-- A request that is not about the schedule leaves it as it was. -/
  schedule : r.changesSchedule = false → after.schedule = before.schedule
  /-- The mode is the one asked for, or else as it was. -/
  mode : after.mode = e.mode?.getD before.mode
  channelTimes : after.channelTimes = before.channelTimes
  /-- Nothing else has changed in memory. -/
  memory : c' = { c.setOutputs after with store := c'.store }
  outputs : c'.outputs? = some after
  /-- The answer shows the mode and the entries as they are now. -/
  answer : reply = .answered ⟨r.success, after.view⟩
  /-- If the request is about the schedule, its file holds the text of these entries. -/
  scheduleFile : r.changesSchedule = true → c'.Holds after.schedule.entries
  /-- If the request brings a mode, the settings file names it. -/
  settingsFile : ∀ mode, e.mode? = some mode → c'.store.loadMode = .ok mode
  channelStateFile : c'.store.channelState = c.store.channelState

/-- How memory, the files and the answer agree after a request that brings an edit. `read` is what
was read of the request, and `before` are the outputs it meets. -/
structure Agrees (c : Controller) (r : Request) (read : Except Nat Edit)
    (before : ScheduledOutputs Pwm) (reply : Reply) (c' : Controller) : Prop where
  /-- With a status of the four hundreds nothing has changed, in memory or in the files. -/
  unchanged : 400 ≤ reply.status → reply.status < 500 → c' = c
  /-- With a status of success memory is just as the edit asks for, the answer shows it, and the
  files hold it. -/
  changed : 200 ≤ reply.status → reply.status < 300 →
    ∃ e after, read = .ok e ∧ Fulfilled c r e before after reply c'
  /-- What cannot be read is turned away. -/
  unread : ∀ status, read = .error status →
    reply.status = status ∧ (status = 400 ∨ status = 413 ∨ status = 415 ∨ status = 422)
  /-- What can be read is checked, done and saved, and the status tells how far that went. -/
  verdict : ∀ e, read = .ok e → e.Verdict c.store before r.success reply.status

theorem answer_of_edit? {e : Edit} (h : r.edit? = some (.ok e)) (now : Moment) :
    c.answer now r = (.answered (c.edit e).1, (c.edit e).2) := by
  unfold answer
  rw [h]

theorem answer_of_view (h : r.edit? = none) (now : Moment) :
    c.answer now r = (.answered (c.view now r), c) := by
  unfold answer
  rw [h]

theorem answer_of_unread {status : Nat} (h : r.edit? = some (.error status)) (now : Moment) :
    c.answer now r = (.turnedAway status, c) := by
  unfold answer
  rw [h]

theorem agrees_of_unread {status : Nat} (h : r.edit? = some (.error status)) :
    Agrees c r (.error status) before (.turnedAway status) c where
  unchanged _ _ := rfl
  changed hge hlt := by
    have hstatus := Request.status_of_unread h
    simp only [Reply.status] at hge hlt
    omega
  unread status' h' := by
    cases h'
    exact ⟨rfl, Request.status_of_unread h⟩
  verdict e h' := by cases h'

/-- What has come about when an edit is done. -/
theorem fulfilled_of_done {e : Edit} {after : ScheduledOutputs Pwm}
    (hread : r.edit? = some (.ok e)) (ho : c.outputs? = some before)
    (hreachable : before.schedule.Reachable) (hmakes : e.Makes before after)
    (hserves : c.store.Serves e) :
    Fulfilled c r e before after (.answered ⟨e.status, after.view⟩)
      { c.setOutputs after with store := e.saved after.schedule.entries c.store } where
  brings := Request.brings_of_edit? hread
  makes := hmakes
  replaced entries mode he := by
    subst he
    exact hmakes.ofEntries_eq
  schedule hr := hmakes.schedule_eq hreachable ((Request.touchesSchedule_eq hread).trans hr)
  mode := hmakes.mode
  channelTimes := hmakes.channelTimes
  memory := rfl
  outputs := outputs?_setOutputs ho after
  answer := by rw [(Request.brings_of_edit? hread).status]
  scheduleFile hr :=
    Edit.content_schedule_saved ((Request.touchesSchedule_eq hread).trans hr) _ _
  settingsFile mode hmode := Edit.loadMode_saved hserves hmode _
  channelStateFile := Edit.channelState_saved e _ _

theorem agrees_of_course {e : Edit} {response : Response} (hread : r.edit? = some (.ok e))
    (ho : c.outputs? = some before) (hreachable : before.schedule.Reachable)
    (h : e.Course c before response c') : Agrees c r (.ok e) before (.answered response) c' where
  unchanged := h.eq_of_refused
  changed _ hlt := by
    obtain ⟨after, hmakes, hserves, rfl, rfl⟩ := h.exists_done hlt
    exact ⟨e, after, rfl, fulfilled_of_done hread ho hreachable hmakes hserves⟩
  unread status h' := by cases h'
  verdict e' h' := by
    cases h'
    rw [← (Request.brings_of_edit? hread).status]
    exact h.verdict

/-- **Memory, the files and the answer agree on every request that brings an edit**, whatever has
happened to the controller and whatever stands in the data directory. -/
theorem Reachable.answer_agrees (hc : c.Reachable) (hread : r.edit? = some read) {now : Moment}
    (h : c.answer now r = (reply, c')) :
    ∃ before, c.outputs? = some before ∧ Agrees c r read before reply c' := by
  obtain ⟨before, ho, hreachable⟩ := hc.sound
  refine ⟨before, ho, ?_⟩
  cases read with
  | error status =>
      rw [answer_of_unread hread now] at h
      cases h
      exact agrees_of_unread hread
  | ok e =>
      rw [answer_of_edit? hread now] at h
      cases h
      exact agrees_of_course hread ho hreachable (edit_course ho hreachable e)

/-- A new schedule, on Monday at eight fifty percent for the first channel, and to hold it. -/
def mondayHoldBody : Body :=
  ⟨some "application/json",
    "\x7b\"entries\":[\x7b\"day\":\"monday\",\"timeOfDay\":28800,\"channel\":0,\"value\":50\x7d]" ++
      ",\"mode\":\"hold\"\x7d"⟩

theorem edit?_mondayHoldBody : (Request.replaceSchedule mondayHoldBody).edit? =
    some (.ok (.replace [⟨.monday, 28800, 0, Single.ofInt 50⟩] (some .hold))) := rfl

/-- One request, and what its answer says: memory has the entry and the mode, the body shows both,
and each of them is in its file. -/
theorem answer_agrees_mondayMorning :
    ∃ before after reply c', (start .empty true 0).Reachable ∧
      (Request.replaceSchedule mondayHoldBody).edit? =
        some (.ok (.replace [⟨.monday, 28800, 0, Single.ofInt 50⟩] (some .hold))) ∧
      (start .empty true 0).answer ⟨0, 0⟩ (.replaceSchedule mondayHoldBody) = (reply, c') ∧
      before.mode = .interpolation ∧ c'.outputs? = some after ∧ after.mode = .hold ∧
      after.schedule.entries = [⟨.monday, 28800, 0, Single.ofInt 50⟩] ∧
      reply = .answered ⟨200, after.view⟩ ∧
      after.view.compact = "\x7b\"mode\":\"hold\",\"entries\":[" ++
        "\x7b\"day\":\"monday\",\"timeOfDay\":28800,\"channel\":0,\"value\":50.0\x7d]\x7d" ∧
      c'.store.schedule = .text ("[\n  \x7b\n    \"day\": \"monday\",\n" ++
        "    \"timeOfDay\": 28800,\n    \"channel\": 0,\n    \"value\": 50.0\n  \x7d\n]") ∧
      c'.store.settings = .text (Settings.standard.withMode .hold).toJson.pretty ∧
      c'.store.loadMode = .ok .hold ∧ c'.store.channelState = .missing ∧
      Agrees (start .empty true 0) (.replaceSchedule mondayHoldBody)
        (.ok (.replace [⟨.monday, 28800, 0, Single.ofInt 50⟩] (some .hold))) before reply c' := by
  have hanswer := answer_of_edit? (c := start .empty true 0) edit?_mondayHoldBody ⟨0, 0⟩
  have hstatus : ((start .empty true 0).edit
      (.replace [⟨.monday, 28800, 0, Single.ofInt 50⟩] (some .hold))).1.status = 200 := by
    decide +kernel
  obtain ⟨before, hbefore, hagrees⟩ :=
    (Reachable.start .empty 0).answer_agrees edit?_mondayHoldBody hanswer
  obtain ⟨e, after, he, hdone⟩ := hagrees.changed hstatus.ge (by
    show ((start .empty true 0).edit _).1.status < 300
    omega)
  cases he
  have hschedule := hdone.replaced _ _ rfl
  rw [ofEntries_mondayMorning] at hschedule
  have hentries : after.schedule.entries = [⟨.monday, 28800, 0, Single.ofInt 50⟩] := by
    rw [← Except.ok.inj hschedule, entries_mondayMorning]
  have hmode : after.mode = .hold := hdone.mode
  have hfile := hdone.scheduleFile rfl
  rw [Holds, hentries] at hfile
  refine ⟨before, after, _, _, .start .empty 0, edit?_mondayHoldBody, hanswer, ?_, hdone.outputs,
    hmode, hentries, hdone.answer, ?_, hfile.trans ?_, rfl, hdone.settingsFile _ rfl,
    hdone.channelStateFile, hagrees⟩
  · cases hbefore
    rfl
  · rw [ScheduledOutputs.view, hmode, hentries]
    decide +kernel
  · decide +kernel

/-! ## 3. Edits that cannot be saved -/

theorem status_view_ne (hr : r.edit? = none) (now : Moment) : (c.view now r).status ≠ 500 := by
  cases r with
  | devices | channels | tasks | time => exact fun h => by cases h
  | schedule =>
      show c.scheduleView.status ≠ 500
      unfold scheduleView
      split <;> exact fun h => by cases h
  | replaceSchedule body | addPoint body | removePoint query | setMode body => cases hr

/-- **A request that fails with 500 leaves its change in memory.** It has passed every check, only
the data directory has failed it, and requests for the schedule show it from now on: the schedule
with exactly the change that was asked for, and the mode that was asked for or else the old one. -/
theorem Reachable.change_stays_of_500 (hc : c.Reachable) {now : Moment}
    (h : c.answer now r = (reply, c')) (hstatus : reply.status = 500) :
    ∃ e before after, r.edit? = some (.ok e) ∧ c.outputs? = some before ∧
      e.refusal? before = none ∧ ¬ c.store.Serves e ∧ e.Makes before after ∧
      (e.touchesSchedule = false → after.schedule = before.schedule) ∧
      after.mode = e.mode?.getD before.mode ∧
      c' = { c.setOutputs after with store := c'.store } ∧ c'.outputs? = some after ∧
      c.scheduleView = ⟨200, before.view⟩ ∧ c'.scheduleView = ⟨200, after.view⟩ := by
  obtain ⟨before, ho, hreachable⟩ := hc.sound
  cases hread : r.edit? with
  | none =>
      have hview : c.answer now r = (.answered (c.view now r), c) := by rw [answer, hread]
      rw [hview] at h
      cases h
      exact absurd hstatus (status_view_ne hread now)
  | some read =>
      cases read with
      | error status =>
          rw [answer_of_unread hread now] at h
          cases h
          have hunread : status = 500 := hstatus
          have hstatus' := Request.status_of_unread hread
          omega
      | ok e =>
          rw [answer_of_edit? hread now] at h
          cases h
          have hcourse := edit_course ho hreachable e
          obtain ⟨after, store, hmakes, hserves, hc'⟩ := hcourse.exists_kept hstatus
          have hafter : (c.edit e).2.outputs? = some after := by
            rw [hc']
            exact outputs?_setOutputs ho after
          exact ⟨e, before, after, rfl, ho, hmakes.refusal?_eq, hserves, hmakes,
            hmakes.schedule_eq hreachable, hmakes.mode, by rw [hc'], hafter,
            scheduleView_of_outputs? ho, scheduleView_of_outputs? hafter⟩

/-- A new mode. -/
def modeBody (mode : TransitionMode) : Body :=
  ⟨some "application/json", (Json.record [("mode", mode.toJson)]).pretty⟩

theorem edit?_modeBody (mode : TransitionMode) :
    (Request.setMode (modeBody mode)).edit? = some (.ok (.setMode mode)) := by
  have hwritten : (Json.record [("mode", mode.toJson)]).Written := by
    refine .record fun m hm => ?_
    rw [List.mem_singleton.mp hm]
    exact .text _
  have hjson : announcesJson (some "application/json") = true := by decide
  have hsize : (modeBody mode).text.utf8ByteSize ≤ bodyLimit := by cases mode <;> decide +kernel
  rw [Request.edit?, Body.read, if_pos hsize, modeBody, if_pos hjson,
    Json.readText_pretty _ hwritten]
  simp [Edit.setModeOfJson, Json.asRecord, Json.record, Json.setMembers, Edit.setModeFields,
    Json.Field.needed, TransitionMode.ofJson_toJson, bind, Except.bind, pure, Except.pure,
    Except.mapError]

/-- A data directory with settings that can be read but not written. -/
def readOnlyStore : Store :=
  { Store.empty with
    settings := .text "\x7b\"timezone\":\"UTC\",\"http_port\":9000\x7d" }.protect .settings

/-- A new schedule and a new mode, where the schedule can be saved, and the settings can be loaded
but not saved: the answer is 500, and memory has both the entry and the mode. -/
theorem change_stays_of_500_hold :
    ∃ reply c' e before after, (start readOnlyStore true 0).Reachable ∧
      (start readOnlyStore true 0).answer ⟨0, 0⟩ (.replaceSchedule mondayHoldBody) = (reply, c') ∧
      reply = .answered EditError.settingsNotSaved.response ∧ reply.status = 500 ∧
      readOnlyStore.loadSettings =
        .ok { Settings.standard with timezone := "UTC", httpPort := 9000 } ∧
      readOnlyStore.Writable .schedule ∧ ¬ readOnlyStore.Writable .settings ∧
      (Request.replaceSchedule mondayHoldBody).edit? = some (.ok e) ∧ e.Makes before after ∧
      before.mode = .interpolation ∧ after.mode = .hold ∧
      after.schedule.entries = [⟨.monday, 28800, 0, Single.ofInt 50⟩] ∧
      c'.outputs? = some after := by
  have hanswer := answer_of_edit? (c := start readOnlyStore true 0) edit?_mondayHoldBody ⟨0, 0⟩
  have hresponse : ((start readOnlyStore true 0).edit
      (.replace [⟨.monday, 28800, 0, Single.ofInt 50⟩] (some .hold))).1 =
        EditError.settingsNotSaved.response := rfl
  have hstatus := congrArg Response.status hresponse
  obtain ⟨e, before, after, hread, hbefore, -, -, hmakes, -, hmode, -, hafter, -, -⟩ :=
    (Reachable.start readOnlyStore 0).change_stays_of_500 hanswer hstatus
  rw [edit?_mondayHoldBody] at hread
  cases hread
  have hschedule := hmakes.ofEntries_eq
  rw [ofEntries_mondayMorning] at hschedule
  refine ⟨_, _, _, before, after, .start _ 0, hanswer, congrArg _ hresponse, hstatus, rfl,
    ⟨rfl, rfl, nofun⟩, fun h => ?_, edit?_mondayHoldBody, hmakes, ?_, hmode, ?_, hafter⟩
  · cases h.write
  · cases hbefore
    rfl
  · rw [← Except.ok.inj hschedule, entries_mondayMorning]

/-- **A request that fails with 500 may change the mode.** The controller was started where nothing
can be saved; it is asked to hold, the answer is 500, and from then on it holds. -/
theorem exists_mode_changed_of_500 :
    ∃ reply c', (start Store.empty.block true 0).Reachable ∧
      (start Store.empty.block true 0).answer ⟨0, 0⟩ (.setMode (modeBody .hold)) = (reply, c') ∧
      reply.status = 500 ∧
      (start Store.empty.block true 0).scheduleView = ⟨200, .record
        [("mode", .text "interpolation"), ("entries", .list [])]⟩ ∧
      c'.scheduleView = ⟨200, .record [("mode", .text "hold"), ("entries", .list [])]⟩ ∧
      c'.scheduleView ≠ (start Store.empty.block true 0).scheduleView := by
  have hbefore : (start Store.empty.block true 0).scheduleView = ⟨200, .record
      [("mode", .text "interpolation"), ("entries", .list [])]⟩ := rfl
  have hafter : ((start Store.empty.block true 0).edit (.setMode .hold)).2.scheduleView =
      ⟨200, .record [("mode", .text "hold"), ("entries", .list [])]⟩ := rfl
  refine ⟨_, _, .start _ 0, answer_of_edit? (edit?_modeBody .hold) ⟨0, 0⟩, rfl, hbefore, hafter, ?_⟩
  rw [hbefore, hafter]
  simp [Json.record, Json.text]

end Controller

end Aquarium

import Aquarium.Proofs.Schedule.Format
import Aquarium.Proofs.Service.Stages
import Aquarium.Proofs.Settings.Format

/-!
# What a restart keeps of the schedule

After every request about the schedule that was answered with success, the schedule file holds the
entries of memory. A controller that starts from it has the same entries just if all values are
finite.

* `startSchedule_entries_iff`: the file of a schedule that edits can build;
* `answer_holds`: what a request leaves in the file;
* `restart_entries_iff`: the two together, for every controller that serves requests;
* `exists_restart_loses_entries`: a value past the largest single is accepted, written as null, and
  costs the whole schedule.
-/

namespace Aquarium

/-! ## 1. The file of a schedule -/

namespace WeekSchedule

variable {V : Type} {C P : Nat}

theorem lt_of_mem_entries {s : WeekSchedule V C P} (hs : s.Ordered) {e : Entry V}
    (he : e ∈ s.entries) : e.time < secondsPerDay ∧ e.channel < C := by
  obtain ⟨d, -, he⟩ := List.mem_flatMap.mp he
  obtain ⟨p, hp, he⟩ := List.mem_flatMap.mp he
  obtain ⟨⟨channel, value⟩, hx, rfl⟩ := List.mem_map.mp he
  exact ⟨(hs d).within p hp, Slots.lt_of_mem_indexed hx⟩

theorem entries_empty : (empty : WeekSchedule V C P).entries = [] := by
  simp only [entries, dayEntries, day_empty, DaySchedule.toList_empty, List.flatMap_nil,
    List.flatMap_eq_nil_iff, implies_true]

end WeekSchedule

theorem inWords_entries {s : LightSchedule} (hs : s.Ordered) : InWords s.entries := by
  intro e he
  obtain ⟨htime, hchannel⟩ := WeekSchedule.lt_of_mem_entries hs he
  simp only [secondsPerDay, outputChannels, word32, word64] at *
  omega

namespace Store

variable {store : Store} {es : List (Entry Float32)} {s : LightSchedule}

/-- The file of entries with finite values. -/
theorem loadSchedule_of_allFinite (hwords : InWords es)
    (hstore : store.read? .schedule = .ok (some (lightEntriesToJson es).pretty))
    (hfinite : AllFinite es) : store.loadSchedule = .ok es := by
  rw [loadSchedule, load_of_read? hstore, readText_lightEntries hwords hfinite]
  rfl

/-- The file of entries of which one has a value that is not finite. -/
theorem loadSchedule_of_not_allFinite (hwords : InWords es)
    (hstore : store.read? .schedule = .ok (some (lightEntriesToJson es).pretty))
    (hfinite : ¬ AllFinite es) : store.loadSchedule = .error (.parse .schedule) := by
  obtain ⟨error, htext⟩ := exists_readText_lightEntries_error hwords hfinite
  rw [loadSchedule, load_of_read? hstore, htext]
  rfl

theorem loadSchedule_eq_ok_iff (hwords : InWords es)
    (hstore : store.read? .schedule = .ok (some (lightEntriesToJson es).pretty))
    {fs : List (Entry Float32)} : store.loadSchedule = .ok fs ↔ es = fs ∧ AllFinite fs := by
  by_cases hfinite : AllFinite es
  · rw [loadSchedule_of_allFinite hwords hstore hfinite, Except.ok.injEq]
    exact ⟨fun h => ⟨h, h ▸ hfinite⟩, And.left⟩
  · rw [loadSchedule_of_not_allFinite hwords hstore hfinite]
    exact iff_of_false nofun fun h => hfinite (h.1 ▸ h.2)

/-- **A schedule comes back from its file just if all of its values are finite**; else the schedule
that starts is empty. -/
theorem startSchedule_entries (hs : s.Ordered)
    (hstore : store.read? .schedule = .ok (some (lightEntriesToJson s.entries).pretty)) :
    (AllFinite s.entries → store.startSchedule.entries = s.entries) ∧
      (¬ AllFinite s.entries → store.startSchedule = .empty) := by
  constructor
  · intro hfinite
    obtain ⟨t, hbuild, hentries⟩ := WeekSchedule.ofEntries_entries hs
    unfold startSchedule
    simp only [loadSchedule_of_allFinite (inWords_entries hs) hstore hfinite]
    rw [hbuild]
    exact hentries
  · intro hfinite
    unfold startSchedule
    simp only [loadSchedule_of_not_allFinite (inWords_entries hs) hstore hfinite]
    rfl

theorem startSchedule_entries_iff (hs : s.Ordered)
    (hstore : store.read? .schedule = .ok (some (lightEntriesToJson s.entries).pretty)) :
    store.startSchedule.entries = s.entries ↔ AllFinite s.entries := by
  obtain ⟨hkept, hlost⟩ := startSchedule_entries hs hstore
  refine ⟨fun h => ?_, hkept⟩
  by_contra hfinite
  rw [hlost hfinite, WeekSchedule.entries_empty] at h
  rw [← h] at hfinite
  exact hfinite fun _ he => absurd he List.not_mem_nil

end Store

/-! ## 2. Requests about the schedule -/

/-- The request is to change the schedule. -/
def Request.changesSchedule : Request → Bool
  | .replaceSchedule _ | .addPoint _ | .removePoint _ => true
  | _ => false

/-- The edit is of the kind that the request brings. -/
def Request.Brings : Request → Edit → Prop
  | .replaceSchedule _, .replace _ _ => True
  | .addPoint _, .add _ _ _ => True
  | .removePoint _, .remove _ _ => True
  | .setMode _, .setMode _ => True
  | _, _ => False

theorem Body.exists_of_read {read : Json → Except ReadError Edit} {b : Body} {e : Edit}
    (h : b.read read = .ok e) : ∃ v, read v = .ok e := by
  unfold Body.read at h
  split at h
  · split at h
    · exact Json.exists_of_readText (mapError_eq_ok h)
    · cases h
  · cases h

theorem Request.brings_of_edit? {r : Request} {e : Edit} (h : r.edit? = some (.ok e)) :
    r.Brings e := by
  cases r with
  | replaceSchedule body =>
      obtain ⟨v, hv⟩ := Body.exists_of_read (Option.some.inj h)
      obtain ⟨⟨entries, mode⟩, -, hreplace⟩ := bind_eq_ok hv
      cases hreplace
      trivial
  | addPoint body =>
      obtain ⟨v, hv⟩ := Body.exists_of_read (Option.some.inj h)
      obtain ⟨⟨day, time, channels⟩, -, hadd⟩ := bind_eq_ok hv
      cases hadd
      trivial
  | removePoint query =>
      have hremove := Option.some.inj h
      split at hremove
      · rename_i e' hquery
        cases hremove
        obtain ⟨_, -, hquery⟩ := Option.bind_eq_some_iff.mp hquery
        obtain ⟨day, -, hquery⟩ := Option.bind_eq_some_iff.mp hquery
        obtain ⟨_, -, hquery⟩ := Option.bind_eq_some_iff.mp hquery
        obtain ⟨time, -, hquery⟩ := Option.bind_eq_some_iff.mp hquery
        cases hquery
        trivial
      · cases hremove
  | setMode body =>
      obtain ⟨v, hv⟩ := Body.exists_of_read (Option.some.inj h)
      obtain ⟨mode, -, hmode⟩ := bind_eq_ok hv
      cases hmode
      trivial
  | devices | channels | tasks | time | schedule => cases h

/-- A request is about the schedule just if the edit is that it brings. -/
theorem Request.touchesSchedule_eq {r : Request} {e : Edit} (h : r.edit? = some (.ok e)) :
    e.touchesSchedule = r.changesSchedule := by
  have hbrings := brings_of_edit? h
  cases r <;> cases e <;> first | rfl | cases hbrings

namespace Controller

variable {c c' : Controller} {now : Moment} {r : Request} {response : Response}

theorem entries_of_outputs? {o : ScheduledOutputs Pwm} (h : c.outputs? = some o) :
    c.entries = o.schedule.entries := by
  rw [entries, h]

theorem entries_congr (h : c'.outputs? = c.outputs?) : c'.entries = c.entries := by
  rw [entries, entries, h]

/-- An edit of the schedule that succeeds leaves the entries of memory in the file. -/
theorem edit_holds {e : Edit} (he : e.touchesSchedule = true) (h : c.edit e = (response, c'))
    (hstatus : response.status < 400) : c'.Holds c'.entries := by
  rcases edit_cases h with hge | ⟨c₁, c₂, hchange, hschedule, hmode, hresponse⟩
  · omega
  · obtain ⟨houtputs₂, -, hholds⟩ := persistSchedule_eq_ok hschedule
    obtain ⟨houtputs₃, -, hfile⟩ := persistMode_eq_ok hmode
    rw [Holds, hfile, entries_congr (houtputs₃.trans houtputs₂)]
    exact hholds he

/-- **A request about the schedule that is answered with success leaves the entries of memory in the
file.** -/
theorem answer_holds (hr : r.changesSchedule = true)
    (h : c.answer now r = (.answered response, c')) (hstatus : response.status < 400) :
    c'.Holds c'.entries := by
  unfold answer at h
  split at h
  · rename_i hnone
    cases r <;> cases hr <;> cases hnone
  · cases h
  · rename_i e hedit
    have hresult : c.edit e = (response, c') := by
      obtain ⟨hreply, hc⟩ := Prod.mk.inj h
      exact Prod.ext (Reply.answered.inj hreply) hc
    exact edit_holds ((Request.touchesSchedule_eq hedit).trans hr) hresult hstatus

/-! ## 3. One value -/

/-- A new schedule with one entry, on Monday at eight, for the first channel. -/
def mondayBody (value : Json) : Body :=
  ⟨some "application/json",
    (Json.record [("entries", .list [.record [("day", Day.monday.toJson),
      ("timeOfDay", .nat 28800), ("channel", .nat 0), ("value", value)]])]).pretty⟩

theorem edit?_mondayBody {value : Json} (hvalue : value.Written) {x : Float32}
    (hread : Json.asSingle value = .ok x)
    (hsize : (mondayBody value).text.utf8ByteSize ≤ bodyLimit) :
    (Request.replaceSchedule (mondayBody value)).edit? =
      some (.ok (.replace [⟨.monday, 28800, 0, x⟩] none)) := by
  have hwritten : (Json.record [("entries", .list [.record [("day", Day.monday.toJson),
      ("timeOfDay", .nat 28800), ("channel", .nat 0), ("value", value)]])]).Written := by
    refine .record fun m hm => ?_
    rw [List.mem_singleton.mp hm]
    refine .list fun v hv => ?_
    rw [List.mem_singleton.mp hv]
    refine .record fun m hm => ?_
    simp only [List.mem_cons, List.not_mem_nil, or_false] at hm
    rcases hm with rfl | rfl | rfl | rfl
    · exact .text _
    · exact .nat _
    · exact .nat _
    · exact hvalue
  have htime : Json.asNat word32 (.nat 28800) = .ok 28800 := Json.asNat_nat (by decide) (by decide)
  have hchannel : Json.asNat word64 (.nat 0) = .ok 0 := Json.asNat_nat (by decide) (by decide)
  have hjson : announcesJson (some "application/json") = true := by decide
  rw [Request.edit?, Body.read, if_pos hsize, mondayBody, if_pos hjson,
    Json.readText_pretty _ hwritten]
  simp [Edit.replaceOfJson, Json.asRecord, Json.record, Json.setMembers, Edit.replaceFields,
    Json.Field.needed, Json.Field.optional, lightEntriesOfJson, Json.asList, Json.list,
    Json.readItems, Entry.ofJson, Entry.fields, Day.ofJson_toJson, htime, hchannel, hread, bind,
    Except.bind, pure, Except.pure, Except.mapError]

theorem exists_answer_mondayBody {value : Json} (hvalue : value.Written) {x : Float32}
    (hread : Json.asSingle value = .ok x)
    (hsize : (mondayBody value).text.utf8ByteSize ≤ bodyLimit) :
    ∃ response c', (start .empty true 0).answer ⟨0, 0⟩ (.replaceSchedule (mondayBody value)) =
        (.answered response, c') ∧
      response.status = 200 ∧ c'.entries = [⟨.monday, 28800, 0, x⟩] := by
  have hchange : (start .empty true 0).change (.replace [⟨.monday, 28800, 0, x⟩] none) =
      .ok ((start .empty true 0).setOutputs
        ((startLights .empty Store.empty.startSettings).replaceSchedule (mondayMorning x))) := by
    simp only [change, Edit.apply, ofEntries_mondayMorning]
    rfl
  unfold answer
  rw [edit?_mondayBody hvalue hread hsize]
  simp only [edit, hchange]
  exact ⟨_, _, rfl, rfl, entries_mondayMorning x⟩

/-- **A restart keeps the schedule just if all values are finite.** This holds after each request
about the schedule that is answered with success, of a controller that serves any requests, where
the schedule file can be read. -/
theorem restart_entries_iff (hc : c.Reached) (hreads : c.store.rights.read .schedule = true)
    (hr : r.changesSchedule = true) (h : c.answer now r = (.answered response, c'))
    (hstatus : 200 ≤ response.status ∧ response.status < 300) :
    c'.store.startSchedule.entries = c'.entries ↔ ∀ e ∈ c'.entries, e.value.isFinite = true := by
  have hholds := answer_holds hr h (by omega)
  have hsound := hc.sound.answer now r
  have hrights := rights_answer c now r
  rw [h] at hsound hrights
  obtain ⟨o, ho, hreachable⟩ := hsound
  rw [entries_of_outputs? ho] at hholds ⊢
  rw [← hrights] at hreads
  exact Store.startSchedule_entries_iff hreachable.ordered (hholds.read?_eq hreads)

/-- Fifty percent come back. -/
theorem restart_entries_iff_fifty :
    ∃ response c', (start .empty true 0).Reached ∧
      (start .empty true 0).store.rights.read .schedule = true ∧
      (Request.replaceSchedule (mondayBody (.nat 50))).changesSchedule = true ∧
      (start .empty true 0).answer ⟨0, 0⟩ (.replaceSchedule (mondayBody (.nat 50))) =
        (.answered response, c') ∧
      response.status = 200 ∧ c'.entries = [⟨.monday, 28800, 0, Single.ofInt 50⟩] ∧
      c'.store.startSchedule.entries = [⟨.monday, 28800, 0, Single.ofInt 50⟩] := by
  have hfifty : Json.asSingle (.nat 50) = .ok (Single.ofInt 50) := rfl
  obtain ⟨response, c', hanswer, hstatus, hentries⟩ :=
    exists_answer_mondayBody (.nat 50) hfifty (by decide +kernel)
  have hfinite : ∀ e ∈ c'.entries, e.value.isFinite = true := fun e he => by
    rw [hentries] at he
    rw [List.mem_singleton.mp he]
    decide +kernel
  have hkept := (restart_entries_iff (.start .empty 0) rfl rfl hanswer (by omega)).mpr hfinite
  exact ⟨response, c', .start .empty 0, rfl, rfl, hanswer, hstatus, hentries,
    hkept.trans hentries⟩

/-- **A value past the largest single costs the schedule.** Ten to the 39th is accepted as a value
and written as null, and the file is refused at the next start. -/
theorem exists_restart_loses_entries :
    ∃ x response c', x.isFinite = false ∧
      (start .empty true 0).answer ⟨0, 0⟩
          (.replaceSchedule (mondayBody (.number ⟨false, 1, [], some 39⟩))) =
        (.answered response, c') ∧
      response.status = 200 ∧ c'.entries = [⟨.monday, 28800, 0, x⟩] ∧
      c'.store.startSchedule.entries = [] := by
  have hlarge : (Json.asSingle (.number ⟨false, 1, [], some 39⟩)).toOption.map Float32.isFinite =
      some false := by decide +kernel
  cases h : Json.asSingle (.number ⟨false, 1, [], some 39⟩) with
  | error error => rw [h] at hlarge; cases hlarge
  | ok x =>
      rw [h] at hlarge
      have hinfinite : x.isFinite = false := Option.some.inj hlarge
      obtain ⟨response, c', hanswer, hstatus, hentries⟩ :=
        exists_answer_mondayBody (.number fun _ hd => absurd hd List.not_mem_nil) h
          (by decide +kernel)
      refine ⟨x, response, c', hinfinite, hanswer, hstatus, hentries, ?_⟩
      have hholds := answer_holds rfl hanswer (by omega)
      have hsound := (Reached.start .empty 0).sound.answer ⟨0, 0⟩
        (.replaceSchedule (mondayBody (.number ⟨false, 1, [], some 39⟩)))
      have hrights := rights_answer (start .empty true 0) ⟨0, 0⟩
        (.replaceSchedule (mondayBody (.number ⟨false, 1, [], some 39⟩)))
      rw [hanswer] at hsound hrights
      obtain ⟨o, ho, hreachable⟩ := hsound
      rw [entries_of_outputs? ho] at hholds hentries
      have hread := hholds.read?_eq (by rw [hrights]; rfl)
      rw [(Store.startSchedule_entries hreachable.ordered hread).2 fun hfinite => ?_,
        WeekSchedule.entries_empty]
      rw [hentries] at hfinite
      have htrue := hfinite _ (List.mem_singleton_self _)
      rw [hinfinite] at htrue
      cases htrue

end Controller

end Aquarium

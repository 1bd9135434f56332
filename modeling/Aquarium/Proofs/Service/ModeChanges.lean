import Aquarium.Proofs.Service.Answers
import Aquarium.Proofs.Service.Files

/-!
# What a change of the mode does to the settings

A mode is saved by loading all runtime settings, changing the one, and saving all of them. What the
settings file held besides the mode goes through the text once more, and a rate that is not finite
does not come back from there.

* `Store.Rewrites`, `rewrites_meet`: all that a controller ever does to its settings is to give them
  another mode, and what may be done with their file stays as it is (`rights_meet`);
* `Since.exists_mode`, `Since.load_error`: so finite settings stay, and so do settings that cannot be
  loaded;
* `Reachable.settings_kept_iff`: what a change of the mode keeps, and which later ones succeed;
* `exists_settings_lost`: one change of the mode that makes all later ones fail.
-/

namespace Aquarium

/-! ## 1. The same settings with another mode -/

namespace Settings

variable {s : Settings}

theorem InWords.withMode (h : s.InWords) (mode : TransitionMode) : (s.withMode mode).InWords :=
  { h with lights := h.lights }

theorem allFinite_withMode {mode : TransitionMode} : (s.withMode mode).AllFinite ↔ s.AllFinite :=
  ⟨fun h => ⟨h.temperature, h.scale⟩, fun h => ⟨h.temperature, h.scale⟩⟩

theorem readable_withMode {mode : TransitionMode} : (s.withMode mode).Readable ↔ s.Readable :=
  ⟨fun h => ⟨h.temperature, h.scale⟩, fun h => ⟨h.temperature, h.scale⟩⟩

end Settings

/-! ## 2. What an event does to the settings -/

/-- The settings stay as they are, or those in the file are written back with another mode. -/
def Store.Rewrites (s t : Store) : Prop :=
  t.loadSettings = s.loadSettings ∨
    ∃ settings mode, s.loadSettings = .ok settings ∧
      t.read? .settings = .ok (some (Settings.withMode settings mode).toJson.pretty)

theorem Edit.Course.rewrites {e : Edit} {c c' : Controller} {before : ScheduledOutputs Pwm}
    {response : Response} (h : e.Course c before response c') : c.store.Rewrites c'.store := by
  cases h with
  | refused _ => exact .inl rfl
  | scheduleNotSaved _ _ _ => exact .inl (by rw [Controller.store_setOutputs])
  | settingsNotLoaded _ _ _ _ | settingsNotSaved _ _ _ _ _ =>
      exact .inl (e.loadSettings_withSchedule _ _)
  | done _ hserves =>
      cases hmode : e.mode? with
      | none => exact .inl (Edit.loadSettings_saved_of_none hmode _ _)
      | some mode =>
          obtain ⟨settings, hload⟩ := hserves.loads (by rw [hmode]; rfl)
          exact .inr ⟨settings, mode, hload, Edit.read?_settings_saved hmode hload _⟩

namespace Controller

variable {c c' later : Controller}

theorem store_postTasksFrom (interval index : Nat) (devices : Devices) (c : Controller) :
    (postTasksFrom interval index devices c).2.store = c.store := by
  induction devices generalizing index c with
  | nil => rfl
  | cons d devices ih => exact ih (index + 1) (c.postTask interval index d).2

theorem store_dropHandle (h : TaskHandle) (c : Controller) : (c.dropHandle h).store = c.store := by
  unfold dropHandle
  split <;> rfl

/-- Saving the channel times touches no other file. -/
theorem store_persist (force : Bool) (c : Controller) :
    (c.persistChannelState force).store = c.store ∨
      ∃ text, (c.persistChannelState force).store = c.store.put .channelState (.text text) := by
  unfold persistChannelState
  split
  · exact .inl rfl
  · dsimp only
    split
    · exact .inl (store_setOutputs c _)
    · split
      · rename_i store hsave
        rw [store_setOutputs] at hsave
        exact .inr ⟨_, Store.save_eq_ok hsave⟩
      · exact .inl (store_setOutputs c _)

/-- The controller itself does it; nobody else writes to its data directory. -/
def Event.IsOwn : Event → Prop
  | .files _ => False
  | _ => True

/-- Whatever is no request leaves the data directory as it is, or replaces the file of the channel
times. -/
theorem store_meet (c : Controller) {event : Event} (hown : event.IsOwn) :
    (∃ now r, event = .request now r) ∨ (c.meet event).store = c.store ∨
      ∃ text, (c.meet event).store = c.store.put .channelState (.text text) := by
  cases event with
  | request now r => exact .inl ⟨now, r, rfl⟩
  | tick t => exact .inr (.inl rfl)
  | pass now => exact .inr (.inl rfl)
  | post interval => exact .inr (.inl (store_postTasksFrom ..))
  | drop h => exact .inr (.inl (store_dropHandle h c))
  | persist force => exact .inr (store_persist force c)
  | files store => exact hown.elim

/-- **What the controller does itself leaves the settings as they are or gives them another mode.** -/
theorem rewrites_meet (hc : c.Sound) {event : Event} (hown : event.IsOwn) :
    c.store.Rewrites (c.meet event).store := by
  rcases store_meet c hown with ⟨now, r, rfl⟩ | hsame | ⟨text, hput⟩
  · obtain ⟨before, ho, hreachable⟩ := hc
    show c.store.Rewrites (c.answer now r).2.store
    cases hread : r.edit? with
    | none =>
        rw [answer_of_view hread now]
        exact .inl rfl
    | some read =>
        cases read with
        | error status =>
            rw [answer_of_unread hread now]
            exact .inl rfl
        | ok e =>
            rw [answer_of_edit? hread now]
            exact (edit_course ho hreachable e).rewrites
  · exact .inl (congrArg Store.loadSettings hsame)
  · rw [hput]
    exact .inl (Store.load_put_of_ne (by decide) _)

/-- What may be done in the data directory is not the controller's to change. -/
theorem rights_meet (c : Controller) {event : Event} (hown : event.IsOwn) :
    (c.meet event).store.rights = c.store.rights := by
  rcases store_meet c hown with ⟨now, r, rfl⟩ | hsame | ⟨text, hput⟩
  · exact rights_answer c now r
  · exact congrArg Store.rights hsame
  · rw [hput, Store.rights_put]

/-! ## 3. Whatever the controller goes through -/

/-- The second controller is the first one after things it did itself. -/
inductive Since (c : Controller) : Controller → Prop where
  | now : Since c c
  | meet {later : Controller} (event : Event) (hown : event.IsOwn) (h : Since c later) :
      Since c (later.meet event)

theorem Since.reachable (h : c.Since later) (hc : c.Reachable) : later.Reachable := by
  induction h with
  | now => exact hc
  | meet event _ _ ih => exact ih.meet event

theorem Since.rights_eq (h : c.Since later) : later.store.rights = c.store.rights := by
  induction h with
  | now => rfl
  | meet event hown _ ih => exact (rights_meet _ hown).trans ih

/-- **Finite settings stay**, up to the mode. -/
theorem Since.exists_mode (h : c.Since later) (hc : c.Reachable) {settings : Settings}
    (hfinite : settings.AllFinite)
    (hload : ∃ mode, c.store.loadSettings = .ok (settings.withMode mode)) :
    ∃ mode, later.store.loadSettings = .ok (settings.withMode mode) := by
  induction h with
  | now => exact hload
  | meet event hown h ih =>
      obtain ⟨mode, hload⟩ := ih
      rcases rewrites_meet (h.reachable hc).sound hown with hsame | ⟨found, next, hfound, hread⟩
      · exact ⟨mode, hsame.trans hload⟩
      · rw [hload] at hfound
        cases hfound
        have hwords := (Store.inWords_of_loadSettings hload).withMode next
        rw [← Settings.allFinite_withMode, ← Settings.allFinite_withMode] at hfinite
        exact ⟨next, (Store.loadSettings_eq_iff hread hwords).mpr hfinite⟩

/-- **Settings that cannot be loaded stay so.** -/
theorem Since.load_error (h : c.Since later) (hc : c.Reachable) {error : StoreError}
    (hload : c.store.loadSettings = .error error) : later.store.loadSettings = .error error := by
  induction h with
  | now => exact hload
  | meet event hown h ih =>
      rcases rewrites_meet (h.reachable hc).sound hown with hsame | ⟨found, next, hfound, -⟩
      · exact hsame.trans ih
      · rw [ih] at hfound
        cases hfound

/-! ## 4. Changing the mode -/

/-- A request for a mode succeeds just if the settings can be loaded, and saved as well. -/
theorem Sound.status_setMode (hc : c.Sound) {r : Request} {mode : TransitionMode}
    (hread : r.edit? = some (.ok (.setMode mode))) (now : Moment) :
    ((c.answer now r).1.status = 200 ↔
      (∃ settings, c.store.loadSettings = .ok settings) ∧ c.store.Writable .settings) ∧
    ((c.answer now r).1.status = 500 ↔
      ¬ ((∃ settings, c.store.loadSettings = .ok settings) ∧ c.store.Writable .settings)) := by
  obtain ⟨before, ho, hreachable⟩ := hc
  have hverdict := (edit_course ho hreachable (.setMode mode)).verdict
  have hadmitted : (Edit.setMode mode).refusal? before = none := rfl
  have hserves : c.store.Serves (.setMode mode) ↔
      (∃ settings, c.store.loadSettings = .ok settings) ∧ c.store.Writable .settings :=
    ⟨fun h => ⟨h.loads rfl, h.settings rfl⟩, fun h => ⟨nofun, fun _ => h.1, fun _ => h.2⟩⟩
  rw [answer_of_edit? hread now]
  refine ⟨hverdict.success_iff.trans ?_, hverdict.failure_iff.trans ?_⟩
  · rw [and_iff_right hadmitted, hserves]
  · rw [and_iff_right hadmitted, hserves]

section Changing

variable {r : Request} {e : Edit} {mode : TransitionMode} {settings : Settings} {now : Moment}
  {response : Response}

/-- After a change of the mode the settings file, which must have been one that can be saved, holds
the settings of before, with the mode. -/
theorem Reachable.read?_settings_answered (hc : c.Reachable) (hread : r.edit? = some (.ok e))
    (hmode : e.mode? = some mode) (hload : c.store.loadSettings = .ok settings)
    (h : c.answer now r = (.answered response, c')) (hlt : response.status < 300) :
    c.store.Writable .settings ∧
      c'.store.read? .settings = .ok (some (settings.withMode mode).toJson.pretty) := by
  obtain ⟨before, ho, hreachable⟩ := hc.sound
  rw [answer_of_edit? hread now] at h
  cases h
  obtain ⟨after, -, hserves, -, hdone⟩ := (edit_course ho hreachable e).exists_done hlt
  refine ⟨hserves.settings (by rw [hmode]; rfl), ?_⟩
  rw [hdone]
  exact Edit.read?_settings_saved hmode hload _

/-- Settings in their file can be loaded for good if the rates that must be given are finite, and
else never again. -/
theorem Since.loads_iff (h : c.Since later) (hc : c.Reachable)
    (hread : c.store.read? .settings = .ok (some settings.toJson.pretty))
    (hwords : settings.InWords) :
    (∃ found, later.store.loadSettings = .ok found) ↔ settings.Readable := by
  by_cases hreadable : settings.Readable
  · -- what is read again is finite, so it stays
    obtain ⟨mode, hlater⟩ := h.exists_mode hc hreadable.allFinite_reread
      ⟨settings.lights.transition, Store.loadSettings_of_readable hread hwords hreadable⟩
    exact iff_of_true ⟨_, hlater⟩ hreadable
  · rw [h.load_error hc (Store.loadSettings_of_not_readable hread hwords hreadable)]
    exact iff_of_false nofun hreadable

/-- **A change of the mode keeps the other settings just if all rates are finite.** The controller
has any past and any data directory, and a request that brings a mode, alone or with a schedule, is
answered with success. Then the settings that were in the file are loaded with just this mode put in
if and only if all of their rates are finite. From then on, as long as nobody else writes to the data
directory, finite settings stay, up to the mode. All later requests for a mode succeed if the rates
that must be given are finite, and all of them fail if one is not. -/
theorem Reachable.settings_kept_iff (hc : c.Reachable) (hread : r.edit? = some (.ok e))
    (hmode : e.mode? = some mode) (hload : c.store.loadSettings = .ok settings)
    (h : c.answer now r = (.answered response, c'))
    (hstatus : 200 ≤ response.status ∧ response.status < 300) :
    (c'.store.loadSettings = .ok (settings.withMode mode) ↔ settings.AllFinite) ∧
      ∀ later, c'.Since later →
        (settings.AllFinite →
          ∃ mode', later.store.loadSettings = .ok (settings.withMode mode')) ∧
        ∀ (moment : Moment) (next : Request) (mode' : TransitionMode),
          next.edit? = some (.ok (.setMode mode')) →
            ((later.answer moment next).1.status = 200 ↔ settings.Readable) ∧
            ((later.answer moment next).1.status = 500 ↔ ¬ settings.Readable) := by
  have hc' : c'.Reachable := by
    have hanswered : (c.answer now r).2.Reachable := hc.meet (.request now r)
    rwa [h] at hanswered
  obtain ⟨hwritable, hfile⟩ := hc.read?_settings_answered hread hmode hload h hstatus.2
  have hrights : c'.store.rights = c.store.rights := by
    have hanswered := rights_answer c now r
    rwa [h] at hanswered
  have hwords := (Store.inWords_of_loadSettings hload).withMode mode
  have hkept : c'.store.loadSettings = .ok (settings.withMode mode) ↔ settings.AllFinite :=
    (Store.loadSettings_eq_iff hfile hwords).trans Settings.allFinite_withMode
  refine ⟨hkept, fun later hsince => ⟨fun hfinite => ?_, fun moment next mode' hnext => ?_⟩⟩
  · exact hsince.exists_mode hc' hfinite ⟨mode, hkept.mpr hfinite⟩
  · -- what can be loaded later can be saved later, since the rights have stayed
    have hlater : (∃ found, later.store.loadSettings = .ok found) →
        later.store.Writable .settings := fun ⟨_, hfound⟩ =>
      { make := by rw [hsince.rights_eq, hrights]; exact hwritable.make
        write := by rw [hsince.rights_eq, hrights]; exact hwritable.write
        place := (Store.reads_of_load hfound).2 }
    rw [← Settings.readable_withMode, ← hsince.loads_iff hc' hfile hwords,
      ← and_iff_left_of_imp hlater]
    exact (hsince.reachable hc').sound.status_setMode hnext moment

end Changing

/-- Asked to hold in a new data directory, where all settings are standard. They are so from then on,
but for the mode, and the next request for a mode succeeds as well. -/
theorem settings_kept_iff_hold :
    ∃ response c', (start .empty true 0).Reachable ∧
      (Request.setMode (modeBody .hold)).edit? = some (.ok (.setMode .hold)) ∧
      (start .empty true 0).store.loadSettings = .ok .standard ∧
      (start .empty true 0).answer ⟨0, 0⟩ (.setMode (modeBody .hold)) =
        (.answered response, c') ∧
      response.status = 200 ∧ Settings.standard.AllFinite ∧
      c'.store.loadSettings = .ok (Settings.standard.withMode .hold) ∧
      (c'.answer ⟨0, 0⟩ (.setMode (modeBody .singleShot))).1.status = 200 := by
  have hreachable := Reachable.start .empty 0
  have hload : (start .empty true 0).store.loadSettings = .ok .standard := rfl
  have hanswer := answer_of_edit? (c := start .empty true 0) (edit?_modeBody .hold) ⟨0, 0⟩
  have hstatus : ((start .empty true 0).edit (.setMode .hold)).1.status = 200 := rfl
  have hfinite : Settings.standard.AllFinite := by
    refine ⟨⟨⟨?_, ?_⟩, nofun⟩, ⟨⟨?_, ?_⟩, nofun⟩⟩ <;> decide +kernel
  obtain ⟨hkept, hlater⟩ := hreachable.settings_kept_iff (edit?_modeBody .hold) rfl hload hanswer
    (by omega)
  have hnext := (hlater _ .now).2 ⟨0, 0⟩ _ _ (edit?_modeBody .singleShot)
  exact ⟨_, _, hreachable, edit?_modeBody .hold, hload, hanswer, hstatus, hfinite,
    hkept.mpr hfinite, hnext.1.mpr hfinite.readable⟩

/-- Settings that leave out all that they can but the multiple of one learned bound, which is ten to
the 39th. -/
def steepJson : Json :=
  .record [("timezone", .text "UTC"), ("http_port", .nat 9000),
    ("temperature", .record [("sample", .record
      [("rate_multiplier", .number ⟨false, 1, [], some 39⟩)])])]

/-- What they are read as, with the multiple left open. -/
def steepSettings (multiplier : Float32) : Settings :=
  { Settings.standard with
    timezone := "UTC"
    httpPort := 9000
    temperature := { SensorSettings.standard with
      filter := { FilterSettings.standard with multiplier := multiplier } } }

/-- A data directory with these settings. -/
def steepStore : Store := { Store.empty with settings := .text steepJson.pretty }

theorem written_steepJson : steepJson.Written := by
  refine .record fun m hm => ?_
  simp only [List.mem_cons, List.not_mem_nil, or_false] at hm
  rcases hm with rfl | rfl | rfl
  · exact .text _
  · exact .nat _
  · refine .record fun m hm => ?_
    rw [List.mem_singleton.mp hm]
    refine .record fun m hm => ?_
    rw [List.mem_singleton.mp hm]
    exact .number fun _ hd => absurd hd List.not_mem_nil

/-- They are accepted, and the multiple is read as infinite. -/
theorem exists_loadSettings_steepStore :
    ∃ x, x.isFinite = false ∧ steepStore.loadSettings = .ok (steepSettings x) := by
  have hlarge : (Json.asSingle (.number ⟨false, 1, [], some 39⟩)).toOption.map Float32.isFinite =
      some false := by decide +kernel
  cases h : Json.asSingle (.number ⟨false, 1, [], some 39⟩) with
  | error error => rw [h] at hlarge; cases hlarge
  | ok x =>
      rw [h] at hlarge
      have hread : steepStore.read? .settings = .ok (some steepJson.pretty) := rfl
      have hport : Json.asNat 65536 (.nat 9000) = .ok 9000 :=
        Json.asNat_nat (by decide) (by decide)
      refine ⟨x, Option.some.inj hlarge, ?_⟩
      rw [Store.loadSettings, Store.load_of_read? hread, Json.readText_pretty _ written_steepJson]
      simp [steepJson, steepSettings, Settings.ofJson, Settings.fields, SensorSettings.ofJson,
        SensorSettings.fields, FilterSettings.ofJson, FilterSettings.fields, Json.record,
        Json.asRecord, Json.setMembers, Json.Field.needed, Json.Field.optional, Json.text,
        Json.asText, hport, h, bind, Except.bind, pure, Except.pure, Except.mapError]

/-- **A change of the mode may lose all settings.** The settings are accepted, and so is the first
request for a mode; but what it leaves in the file can no longer be loaded, and the next such request
fails. -/
theorem exists_settings_lost :
    ∃ x response c', (start steepStore true 0).Reachable ∧
      (start steepStore true 0).store.loadSettings = .ok (steepSettings x) ∧
      (start steepStore true 0).answer ⟨0, 0⟩ (.setMode (modeBody .hold)) =
        (.answered response, c') ∧
      response.status = 200 ∧
      c'.store.loadSettings = .error (.parse .settings) ∧
      c'.store.loadSettings ≠ .ok ((steepSettings x).withMode .hold) ∧
      (c'.answer ⟨0, 0⟩ (.setMode (modeBody .singleShot))).1.status = 500 := by
  obtain ⟨x, hinfinite, hload⟩ := exists_loadSettings_steepStore
  have hreachable := Reachable.start steepStore 0
  have hanswer := answer_of_edit? (c := start steepStore true 0) (edit?_modeBody .hold) ⟨0, 0⟩
  have hstatus : ((start steepStore true 0).edit (.setMode .hold)).1.status = 200 := by
    have hsuccess := (hreachable.sound.status_setMode (edit?_modeBody .hold) ⟨0, 0⟩).1.mpr
      ⟨⟨_, hload⟩, ⟨rfl, rfl, nofun⟩⟩
    rwa [hanswer] at hsuccess
  obtain ⟨-, hfile⟩ := hreachable.read?_settings_answered (edit?_modeBody .hold) rfl hload hanswer
    (by omega)
  have hwords := (Store.inWords_of_loadSettings hload).withMode .hold
  have hunreadable : ¬ ((steepSettings x).withMode .hold).Readable := fun h => by
    rw [show x.isFinite = true from h.temperature.multiplier] at hinfinite
    cases hinfinite
  have herror := Store.loadSettings_of_not_readable hfile hwords hunreadable
  have hafter : ((start steepStore true 0).edit (.setMode .hold)).2.Sound :=
    hreachable.sound.edit _
  refine ⟨x, _, _, hreachable, hload, hanswer, hstatus, herror, ?_, ?_⟩
  · rw [herror]
    exact nofun
  · refine (hafter.status_setMode (edit?_modeBody .singleShot) ⟨0, 0⟩).2.mpr ?_
    rintro ⟨⟨_, hfound⟩, -⟩
    rw [herror] at hfound
    cases hfound

end Controller

end Aquarium

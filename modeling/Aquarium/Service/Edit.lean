import Aquarium.Service.Controller

/-!
# Edits

An edit changes the schedule or the mode of the lights. It goes through sections, each of which is
one whole step for everybody else: the change in memory, a look at the entries and their saving, a
load and a save of the runtime settings. Together they make three stages. A stage that fails ends
the edit with an answer, and what the stages before it did stays done.

Main function: `Controller.edit`.
-/

namespace Aquarium

/-- An answer: a status and a body. -/
structure Response where
  status : Nat
  body : Json

/-- An answer that says what is wrong. -/
def Response.failure (status : Nat) (message : String) : Response :=
  ⟨status, .record [("error", .text message)]⟩

/-- A change of the lights. -/
inductive Edit where
  /-- Another schedule, and another mode if one is given. -/
  | replace (entries : List (Entry Float32)) (mode : Option TransitionMode)
  /-- One more time point; channels that the list leaves out are not set. -/
  | add (day : Day) (time : Nat) (channels : List (Option Float32))
  /-- One time point less. -/
  | remove (day : Day) (time : Nat)
  /-- Another mode. -/
  | setMode (mode : TransitionMode)

/-- Why an edit fails. -/
inductive EditError where
  /-- The schedule does not take it. -/
  | refused (error : ScheduleError)
  /-- There are no lights. -/
  | noOutputs
  /-- The schedule cannot be saved. -/
  | scheduleNotSaved
  /-- The runtime settings cannot be loaded or saved. -/
  | settingsNotSaved
  deriving DecidableEq, Repr

namespace EditError

/-- The status of an error. -/
def status : EditError → Nat
  | .refused ⟨_, .dayFull⟩ => 409
  | .refused ⟨_, .duplicateTime _⟩ => 409
  | .refused ⟨_, .timeNotFound _⟩ => 404
  | .refused _ => 400
  | .noOutputs => 404
  | .scheduleNotSaved => 500
  | .settingsNotSaved => 500

/-- The text of an error. -/
def message : EditError → String
  | .refused error => error.message
  | .noOutputs => "No scheduled outputs configured"
  | .scheduleNotSaved => "Failed to persist schedule"
  | .settingsNotSaved => "Failed to persist runtime settings"

/-- The answer to an edit that fails. -/
def response (e : EditError) : Response := .failure e.status e.message

end EditError

namespace Edit

/-- The mode that an edit asks for. -/
def mode? : Edit → Option TransitionMode
  | .replace _ mode => mode
  | .setMode mode => some mode
  | _ => none

/-- The edit is about the schedule. -/
def touchesSchedule : Edit → Bool
  | .setMode _ => false
  | _ => true

/-- The status of success. -/
def status : Edit → Nat
  | .add _ _ _ => 201
  | _ => 200

/-- The values of a new point, for all channels. -/
def channelValues (values : List (Option Float32)) :
    Except ScheduleError (Channels Float32 outputChannels) :=
  if outputChannels < values.length then .error ⟨none, .invalidChannel (values.length - 1)⟩
  else .ok ⟨(List.range outputChannels).map fun channel => (values[channel]?).join, by simp⟩

/-- The change itself. A schedule or point that is wrong whatever the lights hold is refused even
where there are none. -/
def apply (e : Edit) (outputs : Option (ScheduledOutputs Pwm)) :
    Except EditError (ScheduledOutputs Pwm) := do
  let refused {α : Type} (r : Except ScheduleError α) : Except EditError α :=
    r.mapError .refused
  let present : Except EditError (ScheduledOutputs Pwm) :=
    match outputs with
    | some o => .ok o
    | none => .error .noOutputs
  match e with
  | .replace entries mode =>
    let schedule ← refused (WeekSchedule.ofEntries entries)
    let o := (← present).replaceSchedule schedule
    return match mode with
      | some mode => o.setMode mode
      | none => o
  | .add day time channels =>
    let channels ← refused (channelValues channels)
    refused ((← present).insert day time channels)
  | .remove day time => refused ((← present).remove day time)
  | .setMode mode => return (← present).setMode mode

end Edit

namespace Controller

/-- The entries of the schedule in memory. -/
def entries (c : Controller) : List (Entry Float32) :=
  match c.outputs? with
  | some outputs => outputs.schedule.entries
  | none => []

/-- What a request for the schedule is answered with. -/
def scheduleView (c : Controller) : Response :=
  match c.outputs? with
  | some outputs =>
    ⟨200, .record
      [("mode", outputs.mode.toJson), ("entries", lightEntriesToJson outputs.schedule.entries)]⟩
  | none => EditError.noOutputs.response

/-! ## Sections -/

/-- The change in memory. -/
def change (e : Edit) (c : Controller) : Except EditError Controller :=
  (e.apply c.outputs?).map c.setOutputs

/-- Saves entries as the schedule. -/
def saveSchedule (es : List (Entry Float32)) (c : Controller) : Except EditError Controller :=
  match c.store.saveSchedule es with
  | .ok store => .ok { c with store := store }
  | .error _ => .error .scheduleNotSaved

/-- The runtime settings as the store has them. -/
def loadSettings (c : Controller) : Except EditError Settings :=
  c.store.loadSettings.mapError fun _ => .settingsNotSaved

/-- Saves runtime settings. -/
def saveSettings (s : Settings) (c : Controller) : Except EditError Controller :=
  match c.store.saveSettings s with
  | .ok store => .ok { c with store := store }
  | .error _ => .error .settingsNotSaved

/-! ## The whole edit -/

/-- Saves the schedule in memory, if the edit is about it. -/
def persistSchedule (e : Edit) (c : Controller) : Except EditError Controller :=
  if e.touchesSchedule then c.saveSchedule c.entries else .ok c

/-- Saves the mode that the edit asks for, if any, and leaves the other runtime settings as the
store has them. -/
def persistMode (e : Edit) (c : Controller) : Except EditError Controller :=
  match e.mode? with
  | none => .ok c
  | some mode => do
    let settings ← c.loadSettings
    c.saveSettings (settings.withMode mode)

/-- Does an edit, stage by stage, up to the first that fails. Success is answered with the schedule
as it is then. -/
def edit (e : Edit) (c : Controller) : Response × Controller :=
  match c.change e with
  | .error error => (error.response, c)
  | .ok c =>
    match c.persistSchedule e with
    | .error error => (error.response, c)
    | .ok c =>
      match c.persistMode e with
      | .error error => (error.response, c)
      | .ok c => (⟨e.status, c.scheduleView.body⟩, c)

end Controller

end Aquarium

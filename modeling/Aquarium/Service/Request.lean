import Aquarium.Service.Edit
import Aquarium.Text.Form
import Aquarium.Text.MediaType

/-!
# Requests

A request asks for a view of the controller or brings an edit. An edit comes as a JSON body or, for
taking out a point, in the query; what cannot be read is turned away with a status before the
controller sees it.

Main function: `Controller.answer`.
-/

namespace Aquarium

/-- A body and the content type it is sent with. -/
structure Body where
  contentType : Option String
  text : String
  deriving DecidableEq, Repr

/-- The requests. -/
inductive Request where
  | devices
  | channels
  | tasks
  | time
  | schedule
  | replaceSchedule (body : Body)
  | addPoint (body : Body)
  | removePoint (query : String)
  | setMode (body : Body)
  deriving DecidableEq, Repr

/-- What comes back: an answer, or the status with which the request is turned away. -/
inductive Reply where
  | answered (response : Response)
  | turnedAway (status : Nat)

/-! ## Reading edits -/

namespace Edit

/-- The keys of a new schedule. -/
def replaceFields : List (Json.Field (List (Entry Float32) × Option TransitionMode)) :=
  [.needed "entries" lightEntriesOfJson fun x p => (x, p.2),
   .optional "mode" (Json.asOption TransitionMode.ofJson) fun x p => (p.1, x)]

/-- A new schedule. -/
def replaceOfJson (v : Json) : Except ReadError Edit := do
  let (entries, mode) ← Json.asRecord replaceFields ([], none) v
  return .replace entries mode

/-- The keys of a new point. -/
def addFields : List (Json.Field (Day × Nat × List (Option Float32))) :=
  [.needed "day" Day.ofJson fun x p => (x, p.2.1, p.2.2),
   .needed "timeOfDay" (Json.asNat word32) fun x p => (p.1, x, p.2.2),
   .needed "channels" (Json.asList (Json.asOption Json.asSingle)) fun x p => (p.1, p.2.1, x)]

/-- A new point. -/
def addOfJson (v : Json) : Except ReadError Edit := do
  let (day, time, channels) ← Json.asRecord addFields (default, 0, []) v
  return .add day time channels

/-- The keys of a new mode. -/
def setModeFields : List (Json.Field TransitionMode) :=
  [.needed "mode" TransitionMode.ofJson fun x _ => x]

/-- A new mode. -/
def setModeOfJson (v : Json) : Except ReadError Edit := do
  return .setMode (← Json.asRecord setModeFields default v)

/-- The point that a query names. Each of its two names must be given once; others are passed
over. -/
def removeOfQuery? (query : String) : Option Edit := do
  let pairs := Form.read query
  let day ← Day.ofName? (← Form.value? "day" pairs)
  let time ← Form.natural? word32 (← Form.value? "timeOfDay" pairs)
  return .remove day time

end Edit

/-- The status for a text that cannot be read. -/
def ReadError.status : ReadError → Nat
  | .malformed => 400
  | .mismatch => 422

/-- How many bytes a body may have. -/
def bodyLimit : Nat := 2097152

/-- The edit of a body, or the status with which it is turned away. The content type comes first,
and a body that is too long is not looked at. -/
def Body.read (read : Json → Except ReadError Edit) (b : Body) : Except Nat Edit :=
  if announcesJson b.contentType then
    if b.text.utf8ByteSize ≤ bodyLimit then
      (Json.readText read b.text).mapError ReadError.status
    else .error 413
  else .error 415

/-- The edit that a request brings, if it is to bring one. -/
def Request.edit? : Request → Option (Except Nat Edit)
  | .replaceSchedule body => some (body.read Edit.replaceOfJson)
  | .addPoint body => some (body.read Edit.addOfJson)
  | .removePoint query =>
    some (match Edit.removeOfQuery? query with
      | some e => .ok e
      | none => .error 400)
  | .setMode body => some (body.read Edit.setModeOfJson)
  | _ => none

/-! ## Views -/

/-- A length of time in milliseconds, within a word. -/
def wholeMilliseconds (n : Nat) : Nat := min (n / millisecond) (word64 - 1)

namespace Controller

/-- All devices with their readings. -/
def devicesView (c : Controller) : Json :=
  .list (c.devices.map fun d => .record [("name", .text d.name), ("reading", d.read.toJson)])

/-- The reading of the first device. -/
def channelsView (c : Controller) : Json :=
  match c.devices.head? with
  | some d => d.read.toJson
  | none => .null

/-- The tasks of the pool. -/
def tasksView (c : Controller) (now : Int) : Json :=
  .list (c.pool.toList.map fun p =>
    .record
      [("id", .nat p.id),
       ("description", .text p.task.name),
       ("singleShot", .bool p.task.singleShot),
       ("intervalMs", .nat (wholeMilliseconds p.task.interval)),
       ("lastRunAgoMs",
         .option (fun last => .nat (wholeMilliseconds (timeSince now last))) p.task.last)])

/-- The time as the controller sees it. -/
def timeView (c : Controller) (now : Moment) : Json :=
  let localTime := c.zone.weekTime? now.epoch
  .record
    [("timeSynced", .bool localTime.isSome),
     ("timezone", .text c.zone.name),
     ("nowEpoch", .int now.epoch),
     ("day", .option (fun t => t.day.toJson) localTime),
     ("timeOfDay", .option (fun t => .nat t.time) localTime),
     ("uptimeMs", .nat (wholeMilliseconds (timeSince now.time c.started)))]

/-- The answer to a request that brings no edit. -/
def view (now : Moment) (c : Controller) : Request → Response
  | .devices => ⟨200, c.devicesView⟩
  | .channels => ⟨200, c.channelsView⟩
  | .tasks => ⟨200, c.tasksView now.time⟩
  | .time => ⟨200, c.timeView now⟩
  | _ => c.scheduleView

/-- Answers a request. -/
def answer (now : Moment) (r : Request) (c : Controller) : Reply × Controller :=
  match r.edit? with
  | none => (.answered (c.view now r), c)
  | some (.error status) => (.turnedAway status, c)
  | some (.ok e) =>
    let (response, c) := c.edit e
    (.answered response, c)

end Controller

end Aquarium

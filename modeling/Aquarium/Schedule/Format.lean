import Aquarium.Json.Decode
import Aquarium.Schedule.WeekSchedule

/-!
# The file form of a schedule

A schedule is kept as the list of its entries, each a record of four keys that must all be given.
-/

namespace Aquarium

/-- A day from a file. -/
def Day.ofJson : Json → Except ReadError Day := Json.asChoice Day.ofName?

/-- A day for a file. -/
def Day.toJson (d : Day) : Json := .text d.name

namespace Entry

variable {V : Type}

/-- The keys of an entry. -/
def fields (readValue : Json → Except ReadError V) : List (Json.Field (Entry V)) :=
  [.needed "day" Day.ofJson fun x e => { e with day := x },
   .needed "timeOfDay" (Json.asNat word32) fun x e => { e with time := x },
   .needed "channel" (Json.asNat word64) fun x e => { e with channel := x },
   .needed "value" readValue fun x e => { e with value := x }]

/-- An entry from a file. -/
def ofJson [Inhabited V] (readValue : Json → Except ReadError V) :
    Json → Except ReadError (Entry V) :=
  Json.asRecord (fields readValue) ⟨.sunday, 0, 0, default⟩

/-- An entry for a file. -/
def toJson (writeValue : V → Json) (e : Entry V) : Json :=
  .record
    [("day", e.day.toJson),
     ("timeOfDay", .nat e.time),
     ("channel", .nat e.channel),
     ("value", writeValue e.value)]

end Entry

/-- The entries of a light schedule from a file. -/
def lightEntriesOfJson : Json → Except ReadError (List (Entry Float32)) :=
  Json.asList (Entry.ofJson Json.asSingle)

/-- The entries of a light schedule for a file. -/
def lightEntriesToJson (es : List (Entry Float32)) : Json :=
  .list (es.map (Entry.toJson .single))

end Aquarium

/-!
# Days of the week

The week starts on Sunday, which has index zero. `ofIndex` reads any number as a day by its
remainder, so walking past Saturday leads back to Sunday.

Main statements: `index` and `ofIndex` are inverse on the seven days (`ofIndex_index`,
`index_ofIndex`), and `next` and `previous` undo each other.
-/

namespace Aquarium

/-- A day of the week. -/
inductive Day where
  | sunday | monday | tuesday | wednesday | thursday | friday | saturday
  deriving DecidableEq, Repr, Inhabited

namespace Day

/-- Every day once, from the start of the week. -/
def all : List Day := [sunday, monday, tuesday, wednesday, thursday, friday, saturday]

/-- The position in the week, Sunday first. -/
def index : Day → Nat
  | sunday => 0
  | monday => 1
  | tuesday => 2
  | wednesday => 3
  | thursday => 4
  | friday => 5
  | saturday => 6

/-- The day at a position, counted round the week. -/
def ofIndex (i : Nat) : Day :=
  match i % 7 with
  | 0 => sunday
  | 1 => monday
  | 2 => tuesday
  | 3 => wednesday
  | 4 => thursday
  | 5 => friday
  | _ => saturday

/-- The day after. -/
def next (d : Day) : Day := ofIndex (d.index + 1)

/-- The day before. -/
def previous (d : Day) : Day := ofIndex (d.index + 6)

/-- The day that many days after Monday. -/
def ofMonday (i : Nat) : Day := ofIndex (i + 1)

/-- The name of a day in files and answers. -/
def name : Day → String
  | sunday => "sunday"
  | monday => "monday"
  | tuesday => "tuesday"
  | wednesday => "wednesday"
  | thursday => "thursday"
  | friday => "friday"
  | saturday => "saturday"

/-- The three-letter name, which is read but never written. -/
def shortName : Day → String
  | sunday => "sun"
  | monday => "mon"
  | tuesday => "tue"
  | wednesday => "wed"
  | thursday => "thu"
  | friday => "fri"
  | saturday => "sat"

/-- The capitalised name that error texts use. -/
def title : Day → String
  | sunday => "Sunday"
  | monday => "Monday"
  | tuesday => "Tuesday"
  | wednesday => "Wednesday"
  | thursday => "Thursday"
  | friday => "Friday"
  | saturday => "Saturday"

/-- The day a long or short name stands for. -/
def ofName? (s : String) : Option Day :=
  all.find? fun d => s == d.name || s == d.shortName

theorem index_lt (d : Day) : d.index < 7 := by cases d <;> decide

@[simp] theorem ofIndex_index (d : Day) : ofIndex d.index = d := by cases d <;> rfl

theorem index_ofIndex (i : Nat) : (ofIndex i).index = i % 7 := by
  unfold ofIndex
  have h : i % 7 < 7 := Nat.mod_lt _ (by decide)
  split <;> simp_all [index]
  omega

theorem index_ofMonday (i : Nat) : (ofMonday i).index = (i + 1) % 7 := index_ofIndex _

theorem index_injective {a b : Day} (h : a.index = b.index) : a = b := by
  rw [← ofIndex_index a, ← ofIndex_index b, h]

@[simp] theorem previous_next (d : Day) : d.next.previous = d := by cases d <;> rfl

@[simp] theorem next_previous (d : Day) : d.previous.next = d := by cases d <;> rfl

theorem mem_all (d : Day) : d ∈ all := by cases d <;> decide

@[simp] theorem ofName?_name (d : Day) : ofName? d.name = some d := by cases d <;> rfl

end Day

end Aquarium

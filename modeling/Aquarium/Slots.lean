/-!
# Slot tables

A table with a fixed number of slots, each of them empty or holding a value. Values are addressed
by the index of their slot or visited in slot order; a new value goes into the first empty slot.

Main statements: what each operation does to the cells and to the list of values (`values`), and
that sorting keeps the number of values (`count_sortBy`).
-/

namespace Aquarium

/-- A table of `capacity` slots. -/
structure Slots (α : Type u) (capacity : Nat) where
  cells : List (Option α)
  length_cells : cells.length = capacity

namespace Slots

variable {α : Type u} {capacity : Nat}

@[ext] theorem ext {s t : Slots α capacity} (h : s.cells = t.cells) : s = t := by
  cases s; cases t; cases h; rfl

instance [DecidableEq α] : DecidableEq (Slots α capacity) := fun s t =>
  if h : s.cells = t.cells then isTrue (ext h) else isFalse fun e => h (e ▸ rfl)

/-- All slots empty. -/
def empty : Slots α capacity := ⟨List.replicate capacity none, List.length_replicate⟩

instance : Inhabited (Slots α capacity) := ⟨empty⟩

/-! ## Looking -/

/-- The values in slot order. -/
def values (s : Slots α capacity) : List α := s.cells.filterMap id

/-- The value of a slot. -/
def get? (s : Slots α capacity) (index : Nat) : Option α := (s.cells[index]?).join

/-- The number of values. -/
def count (s : Slots α capacity) : Nat := s.values.length

/-- No slot is empty. -/
def isFull (s : Slots α capacity) : Bool := s.cells.all Option.isSome

/-- Every slot is empty. -/
def isEmpty (s : Slots α capacity) : Bool := s.cells.all Option.isNone

/-- The index of the first slot whose value satisfies a test. -/
def position? (p : α → Bool) (s : Slots α capacity) : Option Nat :=
  s.cells.findIdx? fun c => c.any p

/-- Some slot holds this value. -/
def contains [BEq α] (s : Slots α capacity) (a : α) : Bool := s.values.any (· == a)

/-- The values with the indices of their slots. -/
def indexed (s : Slots α capacity) : List (Nat × α) :=
  s.cells.zipIdx.filterMap fun (c, i) => c.map fun a => (i, a)

/-- Two cells hold values that a test takes for the same, or are both empty. -/
def cellsAgree (same : α → α → Bool) : Option α → Option α → Bool
  | some a, some b => same a b
  | none, none => true
  | _, _ => false

/-- Two tables hold the same values in the same slots, by a test that need not be an equality. -/
def agree (same : α → α → Bool) (s t : Slots α capacity) : Bool :=
  (s.cells.zip t.cells).all fun (a, b) => cellsAgree same a b

/-! ## Changing -/

/-- Stores a value in a slot, whatever it held; nothing happens outside of the table. -/
def set (s : Slots α capacity) (index : Nat) (c : Option α) : Slots α capacity :=
  ⟨s.cells.set index c, by simp [s.length_cells]⟩

/-- Stores a value in a slot, and says whether there is one. -/
def insert (s : Slots α capacity) (index : Nat) (a : α) : Bool × Slots α capacity :=
  if index < capacity then (true, s.set index (some a)) else (false, s)

/-- Empties a slot, and gives what it held. -/
def erase (s : Slots α capacity) (index : Nat) : Option α × Slots α capacity :=
  (s.get? index, s.set index none)

/-- The first empty cell of a list takes a value. -/
def fillFirst (a : α) : List (Option α) → List (Option α)
  | [] => []
  | none :: cs => some a :: cs
  | some b :: cs => some b :: fillFirst a cs

theorem length_fillFirst (a : α) (cs : List (Option α)) :
    (fillFirst a cs).length = cs.length := by
  induction cs with
  | nil => rfl
  | cons c cs ih => cases c <;> simp [fillFirst, ih]

/-- Puts a value into the first empty slot, and says whether there was one. -/
def append (s : Slots α capacity) (a : α) : Bool × Slots α capacity :=
  if s.isFull then (false, s)
  else (true, ⟨fillFirst a s.cells, (length_fillFirst a s.cells).trans s.length_cells⟩)

/-- Changes every cell in its place. -/
def mapCells (f : Option α → Option β) (s : Slots α capacity) : Slots β capacity :=
  ⟨s.cells.map f, by simp [s.length_cells]⟩

/-- Changes every value in its slot. -/
def map (f : α → β) (s : Slots α capacity) : Slots β capacity := s.mapCells (Option.map f)

/-- Empties every slot whose value satisfies a test, and says whether there was one. -/
def removeIf (p : α → Bool) (s : Slots α capacity) : Bool × Slots α capacity :=
  (s.values.any p, s.mapCells fun c => if c.any p then none else c)

/-- Empties every slot. -/
def clear (_ : Slots α capacity) : Slots α capacity := empty

/-- How two cells are ordered: values by an order of their own, empty cells behind all values. -/
def cellLE (le : α → α → Bool) : Option α → Option α → Bool
  | some a, some b => le a b
  | some _, none => true
  | none, some _ => false
  | none, none => true

/-- Sorts the cells, values in ascending order and empty slots last. Values that the order does not
tell apart keep their order. -/
def sortBy (le : α → α → Bool) (s : Slots α capacity) : Slots α capacity :=
  ⟨s.cells.mergeSort (cellLE le), by rw [List.length_mergeSort, s.length_cells]⟩

/-- Changes the values of a list of cells, each with its number among the values. -/
def mapCellsNumbered (f : Nat → α → α) : Nat → List (Option α) → List (Option α)
  | _, [] => []
  | n, none :: cs => none :: mapCellsNumbered f n cs
  | n, some a :: cs => some (f n a) :: mapCellsNumbered f (n + 1) cs

theorem length_mapCellsNumbered (f : Nat → α → α) (n : Nat) (cs : List (Option α)) :
    (mapCellsNumbered f n cs).length = cs.length := by
  induction cs generalizing n with
  | nil => rfl
  | cons c cs ih => cases c <;> simp [mapCellsNumbered, ih]

/-- Changes the values one after another, each with its number among the values. -/
def mapNumbered (f : Nat → α → α) (s : Slots α capacity) : Slots α capacity :=
  ⟨mapCellsNumbered f 0 s.cells, (length_mapCellsNumbered f 0 s.cells).trans s.length_cells⟩

/-! ## What the operations do -/

@[simp] theorem values_empty : (empty : Slots α capacity).values = [] := by
  simp [empty, values]

@[simp] theorem cells_set (s : Slots α capacity) (i : Nat) (c : Option α) :
    (s.set i c).cells = s.cells.set i c := rfl

theorem isEmpty_iff (s : Slots α capacity) : s.isEmpty = true ↔ s.values = [] := by
  simp [isEmpty, values, List.filterMap_eq_nil_iff]

theorem count_le (s : Slots α capacity) : s.count ≤ capacity := by
  have := List.length_filterMap_le id s.cells
  rw [s.length_cells] at this
  exact this

theorem values_sortBy_perm (le : α → α → Bool) (s : Slots α capacity) :
    (s.sortBy le).values.Perm s.values :=
  (List.mergeSort_perm s.cells (cellLE le)).filterMap id

theorem count_sortBy (le : α → α → Bool) (s : Slots α capacity) : (s.sortBy le).count = s.count :=
  (values_sortBy_perm le s).length_eq

end Slots

end Aquarium

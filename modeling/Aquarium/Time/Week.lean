import Aquarium.Fault
import Aquarium.Time.Day

/-!
# Positions in the week

A time of the week is a day and a second of that day, or, flattened, a second counted from Sunday
midnight. Two distances are measured on this circle. They agree except where the two positions
coincide: `weekElapsed` looks back and is then zero, `weekSpan` looks ahead and is then a whole
week.

Main statements: `ofTimeOfWeek` and `timeOfWeek` are inverse on proper positions, and the two
distances stay within the week.
-/

namespace Aquarium

/-- Seconds of a minute. -/
def secondsPerMinute : Nat := 60

/-- Seconds of an hour. -/
def secondsPerHour : Nat := 3600

/-- Seconds of a day. -/
def secondsPerDay : Nat := 86400

/-- Seconds of a week. -/
def secondsPerWeek : Nat := 604800

/-- The seconds that a clock reading stands for; each of the four steps is checked in turn. -/
def clockSeconds (hours minutes seconds : Nat) : Except Fault Nat := do
  let h ← checkedMul hours secondsPerHour
  let m ← checkedMul minutes secondsPerMinute
  let hm ← checkedAdd h m
  checkedAdd hm seconds

/-- A day and a second of it. Nothing here bounds the second: see `WeekTime.Valid`. -/
structure WeekTime where
  day : Day
  time : Nat
  deriving DecidableEq, Repr

namespace WeekTime

/-- The second lies within the day. -/
def Valid (t : WeekTime) : Prop := t.time < secondsPerDay

instance (t : WeekTime) : Decidable t.Valid := inferInstanceAs (Decidable (_ < _))

/-- The position, if the second lies within the day. -/
def checked? (day : Day) (time : Nat) : Option WeekTime :=
  if time < secondsPerDay then some ⟨day, time⟩ else none

/-- The position; a second outside of the day is a fault. -/
def make (day : Day) (time : Nat) : Except Fault WeekTime :=
  if time < secondsPerDay then .ok ⟨day, time⟩ else .error (.timeOutsideDay time)

/-- The position of a second of the week, counted round the week. -/
def ofTimeOfWeek (s : Nat) : WeekTime :=
  let s := s % secondsPerWeek
  ⟨Day.ofIndex (s / secondsPerDay), s % secondsPerDay⟩

/-- The second of the week, as a number of any size. -/
def position (t : WeekTime) : Nat := t.day.index * secondsPerDay + t.time

/-- The second of the week, within 32 bits. -/
def timeOfWeek (t : WeekTime) : Except Fault Nat :=
  checkedAdd (t.day.index * secondsPerDay) t.time

theorem position_lt {t : WeekTime} (h : t.Valid) : t.position < secondsPerWeek := by
  have := t.day.index_lt
  simp only [Valid, position, secondsPerDay, secondsPerWeek] at *
  omega

theorem timeOfWeek_eq {t : WeekTime} (h : t.Valid) : t.timeOfWeek = .ok t.position := by
  have := position_lt h
  refine checkedAdd_eq_ok ?_
  simp only [position, secondsPerWeek] at this
  simp only [word32]
  omega

theorem valid_ofTimeOfWeek (s : Nat) : (ofTimeOfWeek s).Valid :=
  Nat.mod_lt _ (by decide)

theorem position_ofTimeOfWeek (s : Nat) : (ofTimeOfWeek s).position = s % secondsPerWeek := by
  simp only [ofTimeOfWeek, position, Day.index_ofIndex, secondsPerDay, secondsPerWeek]
  omega

theorem ofTimeOfWeek_position {t : WeekTime} (h : t.Valid) : ofTimeOfWeek t.position = t := by
  have hd := t.day.index_lt
  obtain ⟨day, time⟩ := t
  simp only [Valid, secondsPerDay] at h
  have e : (day.index * 86400 + time) % 604800 = day.index * 86400 + time :=
    Nat.mod_eq_of_lt (by simp only at hd; omega)
  simp only [ofTimeOfWeek, position, secondsPerDay, secondsPerWeek, e, mk.injEq]
  refine ⟨?_, by omega⟩
  rw [show (day.index * 86400 + time) / 86400 = day.index by omega, Day.ofIndex_index]

end WeekTime

/-- The way ahead from `a` to `b`; a whole week when they coincide. -/
def weekSpan (a b : Nat) : Nat :=
  if a % secondsPerWeek < b % secondsPerWeek then
    b % secondsPerWeek - a % secondsPerWeek
  else
    b % secondsPerWeek + secondsPerWeek - a % secondsPerWeek

/-- The way back from `now` to `since`; zero when they coincide. -/
def weekElapsed (since now : Nat) : Nat :=
  if since % secondsPerWeek ≤ now % secondsPerWeek then
    now % secondsPerWeek - since % secondsPerWeek
  else
    now % secondsPerWeek + secondsPerWeek - since % secondsPerWeek

theorem weekElapsed_lt (a b : Nat) : weekElapsed a b < secondsPerWeek := by
  unfold weekElapsed
  split <;> simp only [secondsPerWeek] at * <;> omega

theorem weekSpan_pos (a b : Nat) : 0 < weekSpan a b := by
  unfold weekSpan
  split <;> simp only [secondsPerWeek] at * <;> omega

theorem weekSpan_le (a b : Nat) : weekSpan a b ≤ secondsPerWeek := by
  unfold weekSpan
  split <;> simp only [secondsPerWeek] at * <;> omega

end Aquarium

import Aquarium.Time.Week

/-!
# Why a schedule refuses an edit

A cause belongs to one day's points; where the day is known, the error names it.
-/

namespace Aquarium

/-- Why an edit was refused. -/
inductive Refusal where
  /-- Every slot of the day is taken. -/
  | dayFull
  /-- The day has a point at this time. -/
  | duplicateTime (time : Nat)
  /-- The day has no point at this time. -/
  | timeNotFound (time : Nat)
  /-- No day has this time. -/
  | invalidTime (time : Nat)
  /-- There is no such channel. -/
  | invalidChannel (channel : Nat)
  deriving DecidableEq, Repr

/-- The text of a cause. -/
def Refusal.message : Refusal → String
  | .dayFull => "no free time point slot left"
  | .duplicateTime time => "a time point already exists at " ++ toString time ++ "s"
  | .timeNotFound time => "no time point at " ++ toString time ++ "s"
  | .invalidTime time => "time of day " ++ toString time ++ "s is outside of a day"
  | .invalidChannel channel => "channel " ++ toString channel ++ " does not exist"

/-- A refused edit, with the day it was meant for if it had come to that. -/
structure ScheduleError where
  day : Option Day
  cause : Refusal
  deriving DecidableEq, Repr

/-- The text of an error: the day, if there is one, and the cause. -/
def ScheduleError.message (e : ScheduleError) : String :=
  match e.day with
  | some day => day.title ++ ": " ++ e.cause.message
  | none => e.cause.message

end Aquarium

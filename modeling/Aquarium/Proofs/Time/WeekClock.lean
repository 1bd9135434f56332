import Aquarium.Proofs.Time.Date
import Aquarium.Time.Zone

/-!
# The clock of the week

A reading is a date with hour, minute and second. Counted one by one from the first of January 1970,
forth and back, the seconds run through all readings that there are. The clock of the week goes with
this count: it shows the count in steps of a week, wherever it stands, and a fixed offset only moves
it. Midnights, months, leap days and the end of a week make no difference.

* `Valid`, `next`: the readings of a clock, and the one after another;
* `Counted`: what a reading counts, and `counted_iff`, that this is the number computed for it;
* `DateTime.weekTime_eq`: the place of a reading in the week;
* `Instant.weekTime_shown`: the main statement, for any moment and offset;
* `Zone.weekTime?_eq`: the same in a time zone.
-/

namespace Aquarium

namespace DateTime

/-! ## 1. Readings -/

/-- A date that there is, and a clock below 24 hours. -/
structure Valid (t : DateTime) : Prop where
  date : t.date.Valid
  hour : t.hour < 24
  minute : t.minute < 60
  second : t.second < 60

/-- The reading one second later. -/
def next (t : DateTime) : DateTime :=
  if t.second + 1 < 60 then { t with second := t.second + 1 }
  else if t.minute + 1 < 60 then { t with minute := t.minute + 1, second := 0 }
  else if t.hour + 1 < 24 then { t with hour := t.hour + 1, minute := 0, second := 0 }
  else ⟨t.date.next, 0, 0, 0⟩

variable {t : DateTime}

theorem Valid.secondOfDay_lt (h : t.Valid) : t.secondOfDay < secondsPerDay := by
  have := h.hour
  have := h.minute
  have := h.second
  simp only [secondOfDay, secondsPerHour, secondsPerMinute, secondsPerDay]
  omega

theorem Valid.next (h : t.Valid) : t.next.Valid := by
  unfold DateTime.next
  split
  · rename_i hsecond
    exact ⟨h.date, h.hour, h.minute, hsecond⟩
  split
  · rename_i hminute
    exact ⟨h.date, h.hour, hminute, Nat.succ_pos _⟩
  split
  · rename_i hhour
    exact ⟨h.date, hhour, Nat.succ_pos _, Nat.succ_pos _⟩
  · exact ⟨h.date.next, Nat.succ_pos _, Nat.succ_pos _, Nat.succ_pos _⟩

/-- One second later is one second more, across the ends of minutes, hours and days. -/
theorem epochSeconds_next (h : t.Valid) : t.next.epochSeconds = t.epochSeconds + 1 := by
  have := h.hour
  have := h.minute
  have := h.second
  unfold next
  split
  · simp only [epochSeconds, secondOfDay]
    omega
  split
  · simp only [epochSeconds, secondOfDay, secondsPerMinute]
    omega
  split
  · simp only [epochSeconds, secondOfDay, secondsPerMinute, secondsPerHour]
    omega
  · simp only [epochSeconds, secondOfDay, secondsPerMinute, secondsPerHour, secondsPerDay,
      Date.dayNumber_next h.date]
    omega

theorem valid_ofEpochSeconds (s : Int) : (ofEpochSeconds s).Valid := by
  refine ⟨Date.valid_ofDayNumber _, ?_, ?_, ?_⟩ <;>
    simp only [ofEpochSeconds, secondsPerHour, secondsPerMinute, secondsPerDay] <;> omega

@[simp] theorem epochSeconds_ofEpochSeconds (s : Int) : (ofEpochSeconds s).epochSeconds = s := by
  simp only [ofEpochSeconds, epochSeconds, secondOfDay, Date.dayNumber_ofDayNumber, secondsPerHour,
    secondsPerMinute, secondsPerDay]
  omega

/-- The reading found for a number of seconds is the one that has that number. -/
theorem ofEpochSeconds_epochSeconds (h : t.Valid) : ofEpochSeconds t.epochSeconds = t := by
  have hday : t.epochSeconds / secondsPerDay = t.date.dayNumber := by
    have := h.secondOfDay_lt
    simp only [epochSeconds, secondsPerDay] at this ⊢
    omega
  have hsecond : (t.epochSeconds % secondsPerDay).toNat = t.secondOfDay := by
    have := h.secondOfDay_lt
    simp only [epochSeconds, secondsPerDay] at this ⊢
    omega
  have := h.minute
  have := h.second
  simp only [ofEpochSeconds, hday, hsecond, Date.ofDayNumber_dayNumber h.date]
  obtain ⟨date, hour, minute, second⟩ := t
  simp only [secondOfDay, secondsPerHour, secondsPerMinute, mk.injEq, true_and] at *
  omega

theorem next_ofEpochSeconds (s : Int) : (ofEpochSeconds s).next = ofEpochSeconds (s + 1) := by
  have hvalid := valid_ofEpochSeconds s
  rw [← ofEpochSeconds_epochSeconds hvalid.next, epochSeconds_next hvalid,
    epochSeconds_ofEpochSeconds]

/-! ## 2. Counting seconds -/

/-- A reading so many seconds after the first of January 1970, or before it, counted one by one. -/
inductive Counted : DateTime → Int → Prop where
  | start : Counted ⟨⟨1970, 1, 1⟩, 0, 0, 0⟩ 0
  | later {t : DateTime} {seconds : Int} : Counted t seconds → Counted t.next (seconds + 1)
  | earlier {t : DateTime} {seconds : Int} :
      t.Valid → Counted t.next (seconds + 1) → Counted t seconds

theorem Counted.valid_and_eq {seconds : Int} (h : t.Counted seconds) :
    t.Valid ∧ t.epochSeconds = seconds := by
  induction h with
  | start =>
      exact ⟨⟨⟨by decide, by decide, by decide, by decide⟩, by decide, by decide, by decide⟩, rfl⟩
  | later _ ih => exact ⟨ih.1.next, by rw [epochSeconds_next ih.1, ih.2]⟩
  | earlier hvalid _ ih =>
    have hnext := epochSeconds_next hvalid
    exact ⟨hvalid, by omega⟩

theorem counted_ofEpochSeconds (s : Int) : (ofEpochSeconds s).Counted s := by
  induction s using Int.induction_on with
  | zero => exact .start
  | succ n ih =>
    rw [← next_ofEpochSeconds]
    exact ih.later
  | pred n ih =>
    refine .earlier (valid_ofEpochSeconds _) ?_
    rw [next_ofEpochSeconds, Int.sub_add_cancel]
    exact ih

/-- **The seconds of a reading are the seconds counted.** Every reading that there is has a count,
and one only. -/
theorem counted_iff {seconds : Int} : t.Counted seconds ↔ t.Valid ∧ t.epochSeconds = seconds := by
  refine ⟨Counted.valid_and_eq, ?_⟩
  rintro ⟨hvalid, rfl⟩
  have hcounted := counted_ofEpochSeconds t.epochSeconds
  rwa [ofEpochSeconds_epochSeconds hvalid] at hcounted

/-! ## 3. The place in the week -/

/-- The second of the week that a count of seconds leads to. The count starts on a Thursday, four
days after a Sunday. -/
def weekSecond (seconds : Int) : Nat := ((seconds + 4 * secondsPerDay) % secondsPerWeek).toNat

theorem natCast_weekSecond (seconds : Int) :
    (weekSecond seconds : Int) = (seconds + 4 * secondsPerDay) % secondsPerWeek := by
  simp only [weekSecond, secondsPerDay, secondsPerWeek]
  omega

theorem weekSecond_add_one (seconds : Int) :
    weekSecond (seconds + 1) = (weekSecond seconds + 1) % secondsPerWeek := by
  simp only [weekSecond, secondsPerDay, secondsPerWeek]
  omega

theorem valid_weekTime (t : DateTime) : t.weekTime.Valid := Nat.mod_lt _ (by decide)

theorem position_weekTime (h : t.Valid) : t.weekTime.position = weekSecond t.epochSeconds := by
  have hsecond := h.secondOfDay_lt
  have hday := Date.index_weekday h.date
  simp only [weekTime, WeekTime.position, Nat.mod_eq_of_lt hsecond]
  simp only [weekSecond, epochSeconds, secondsPerDay, secondsPerWeek] at hsecond ⊢
  omega

/-- **The clock of the week goes with the count.** -/
theorem weekTime_eq (h : t.Valid) :
    t.weekTime.timeOfWeek = .ok (weekSecond t.epochSeconds) ∧
      WeekTime.ofTimeOfWeek (weekSecond t.epochSeconds) = t.weekTime := by
  have hvalid := t.valid_weekTime
  rw [← position_weekTime h]
  exact ⟨WeekTime.timeOfWeek_eq hvalid, WeekTime.ofTimeOfWeek_position hvalid⟩

end DateTime

/-! ## 4. At an offset -/

/-- A moment in universal time: a reading and the nanoseconds since then. A leap second has no
reading of its own; it goes on with the second before it, from a whole second of nanoseconds on. -/
structure Instant extends DateTime where
  nano : Nat

namespace Instant

/-- What a clock shows that is so many seconds ahead. -/
def shown (t : Instant) (offset : Int) : Instant := ⟨t.toDateTime.shown offset, t.nano⟩

/-- **Wall-clock time goes evenly round the week.** A moment has one count of seconds since 1970. The
clock at an offset shows the reading that counts as many seconds as that and the offset, and its place
in the week is this count from four days on, in steps of a week; the place leads back to the day and
the second of the day. One second later, whatever the reading is then, the clock has gone one second
round the week. -/
theorem weekTime_shown {t : Instant} (h : t.toDateTime.Valid) (offset : Int) :
    ∃ seconds : Int, (∀ n, t.toDateTime.Counted n ↔ n = seconds) ∧
      (t.shown offset).toDateTime.Counted (seconds + offset) ∧
      (t.shown offset).weekTime.time < secondsPerDay ∧
      ∃ second : Nat, (t.shown offset).weekTime.timeOfWeek = .ok second ∧
        (second : Int) = (seconds + offset + 4 * secondsPerDay) % secondsPerWeek ∧
        WeekTime.ofTimeOfWeek second = (t.shown offset).weekTime ∧
        ∀ later : Instant, later.toDateTime = t.toDateTime.next →
          (later.shown offset).weekTime.timeOfWeek = .ok ((second + 1) % secondsPerWeek) := by
  have hshown (s : Int) := DateTime.weekTime_eq (DateTime.valid_ofEpochSeconds s)
  simp only [DateTime.epochSeconds_ofEpochSeconds] at hshown
  obtain ⟨hplace, hback⟩ := hshown (t.epochSeconds + offset)
  have hcounted : ∀ n, t.toDateTime.Counted n ↔ n = t.epochSeconds := fun n => by
    rw [DateTime.counted_iff, and_iff_right h, eq_comm]
  refine ⟨t.epochSeconds, hcounted, DateTime.counted_ofEpochSeconds _,
    DateTime.valid_weekTime _, _, hplace, DateTime.natCast_weekSecond _, hback, ?_⟩
  intro later hlater
  have hnext : later.epochSeconds + offset = t.epochSeconds + offset + 1 := by
    rw [hlater, DateTime.epochSeconds_next h]
    omega
  rw [← DateTime.weekSecond_add_one, ← hnext]
  exact (hshown (later.epochSeconds + offset)).1

/-- The leap second at the end of 2016, which was on a Saturday, is the last second of a week. -/
theorem weekTime_shown_leapSecond :
    let t : Instant := ⟨⟨⟨2016, 12, 31⟩, 23, 59, 59⟩, 1500000000⟩
    t.toDateTime.Valid ∧ (t.shown 0).weekTime = ⟨.saturday, 86399⟩ ∧
      ∀ later : Instant, later.toDateTime = ⟨⟨2017, 1, 1⟩, 0, 0, 0⟩ →
        (later.shown 0).weekTime.timeOfWeek = .ok 0 := by
  intro t
  have hvalid : t.toDateTime.Valid :=
    ⟨⟨by decide, by decide, by decide, by decide⟩, by decide, by decide, by decide⟩
  have hplace : (t.shown 0).weekTime = ⟨.saturday, 86399⟩ := by decide +kernel
  obtain ⟨-, -, -, -, second, hsecond, -, -, hlater⟩ := weekTime_shown hvalid 0
  rw [hplace] at hsecond
  cases hsecond
  exact ⟨hvalid, hplace, hlater⟩

end Instant

/-- The place in the week that a time zone shows. -/
theorem Zone.weekTime?_eq {zone : Zone} {epoch : Int} {w : WeekTime}
    (h : zone.weekTime? epoch = some w) :
    w.Valid ∧ w.timeOfWeek = .ok (DateTime.weekSecond (epoch + zone.offsetAt epoch)) := by
  obtain ⟨-, hw⟩ := Option.ite_none_right_eq_some.mp h
  cases hw
  have hplace := DateTime.weekTime_eq (DateTime.valid_ofEpochSeconds (epoch + zone.offsetAt epoch))
  rw [DateTime.epochSeconds_ofEpochSeconds] at hplace
  exact ⟨DateTime.valid_weekTime _, hplace.1⟩

end Aquarium

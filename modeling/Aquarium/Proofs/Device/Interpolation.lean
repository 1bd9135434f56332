import Aquarium.Proofs.Device.Update
import Aquarium.Proofs.Number.Single
import Aquarium.Proofs.Schedule.Occurrence

/-!
# A blend lies between its two events

In interpolation mode a tracker looks for the event in effect and for the next one, and measures how far
now is on the way from the one to the other. The two searches know nothing of each other, and the two
distances differ where two positions coincide. They fit together all the same.

* `weekElapsed_add_weekSpan`: the way back and the way ahead make up the way between the events;
* `Between`: the two events that a moment lies between, and the distances; `exists_between`: wherever a
  channel has an event, a moment lies between two;
* `weekElapsed?`, `weekSpan?`: the distances with every step checked, which is always a word;
* `factor_eq_div`: the quotient of the two lies between zero and one and is left alone by clamping;
* `Tracker.interpolation_between`: the main statement.
-/

namespace Aquarium

/-! ## 1. Distances that fit together -/

theorem add_weekElapsed_mod (since now : Nat) :
    (since + weekElapsed since now) % secondsPerWeek = now % secondsPerWeek := by
  unfold weekElapsed
  split <;> simp only [secondsPerWeek] at * <;> omega

theorem add_weekSpan_mod (a b : Nat) : (a + weekSpan a b) % secondsPerWeek = b % secondsPerWeek := by
  unfold weekSpan
  split <;> simp only [secondsPerWeek] at * <;> omega

/-- The way back to a position and the way ahead to it make up a week. -/
theorem weekElapsed_add_weekSpan_self (a now : Nat) :
    weekElapsed a now + weekSpan now a = secondsPerWeek := by
  have hback := add_weekElapsed_mod a now
  have hahead := add_weekSpan_mod now a
  have hpos := weekSpan_pos now a
  have hlt := weekElapsed_lt a now
  have hle := weekSpan_le now a
  simp only [secondsPerWeek] at *
  omega

/-- **The way back to an event and the way ahead to another make up the way between them**, when the
other one is not on the way back. The two may be the same. -/
theorem weekElapsed_add_weekSpan {current now next : Nat}
    (h : next = current ∨ weekElapsed current now < weekElapsed next now) :
    weekElapsed current now + weekSpan now next = weekSpan current next := by
  have hback := add_weekElapsed_mod current now
  have hahead := add_weekSpan_mod now next
  have hbetween := add_weekSpan_mod current next
  have hround := weekElapsed_add_weekSpan_self next now
  have hpos := weekSpan_pos current next
  have hle := weekSpan_le current next
  -- both sides lead from the one event to the other, and neither more than once round the week
  have hshort : weekElapsed current now + weekSpan now next ≤ secondsPerWeek := by
    rcases h with rfl | hnearer
    · exact hround.le
    · omega
  have hstart := weekSpan_pos now next
  simp only [secondsPerWeek] at *
  omega

theorem weekElapsed_eq_zero_iff {since now : Nat} (hsince : since < secondsPerWeek)
    (hnow : now < secondsPerWeek) : weekElapsed since now = 0 ↔ since = now := by
  unfold weekElapsed
  split <;> simp only [secondsPerWeek] at * <;> omega

namespace WeekSchedule

variable {V : Type} {C P : Nat}

/-- Now lies `elapsed` seconds behind the event in effect, on the way of `span` seconds from that to the
next event. -/
structure Between (s : WeekSchedule V C P) (channel : Nat) (now : WeekTime) (current next : WeekEvent V)
    (elapsed span : Nat) : Prop where
  current_eq : s.current? channel now .allDays = some current
  next_eq : s.next? channel now .allDays = some next
  elapsed_eq : weekElapsed current.time now.position = elapsed
  span_eq : weekSpan current.time next.time = span
  add_eq : elapsed + weekSpan now.position next.time = span
  elapsed_lt : elapsed < span
  span_le : span ≤ secondsPerWeek
  /-- Now is at the event in effect. -/
  elapsed_eq_zero_iff : elapsed = 0 ↔ current.time = now.position

variable {s : WeekSchedule V C P} {channel : Nat} {now : WeekTime}

/-- **Where a channel has an event, a moment lies between two**, or between one and the same a week
later. -/
theorem Ordered.exists_between (hs : s.Ordered) (hevents : s.events channel ≠ []) (hn : now.Valid) :
    ∃ current next elapsed span, s.Between channel now current next elapsed span := by
  obtain ⟨current, hcurrent⟩ :=
    Option.ne_none_iff_exists'.mp (mt (current?_eq_none_iff hs hn).mp hevents)
  obtain ⟨next, hnext⟩ := Option.ne_none_iff_exists'.mp (mt (next?_eq_none_iff hs hn).mp hevents)
  obtain ⟨hmem, hnearest⟩ := (current?_eq_some_iff hs hn current).mp hcurrent
  obtain ⟨hmem', -⟩ := (next?_eq_some_iff hs hn next).mp hnext
  have hfit : next.time = current.time ∨ weekElapsed current.time now.position <
      weekElapsed next.time now.position := by
    by_cases hsame : next = current
    · exact .inl (congrArg _ hsame)
    · exact .inr (hnearest next hmem' hsame)
  have hadd := weekElapsed_add_weekSpan hfit
  have hahead := weekSpan_pos now.position next.time
  exact ⟨current, next, _, _, hcurrent, hnext, rfl, rfl, hadd, by omega, weekSpan_le _ _,
    weekElapsed_eq_zero_iff (hs.event_time_lt hmem) (WeekTime.position_lt hn)⟩

/-- The only event of a channel is both the one in effect and the next one. -/
theorem Between.eq_of_single {current next : WeekEvent V} {elapsed span : Nat}
    (h : s.Between channel now current next elapsed span) (hs : s.Ordered) (hn : now.Valid)
    {e : WeekEvent V} (he : s.events channel = [e]) :
    current = e ∧ next = e ∧ span = secondsPerWeek := by
  have hcurrent := ((current?_eq_some_iff hs hn current).mp h.current_eq).1
  have hnext := ((next?_eq_some_iff hs hn next).mp h.next_eq).1
  rw [he, List.mem_singleton] at hcurrent hnext
  refine ⟨hcurrent, hnext, ?_⟩
  rw [← h.span_eq, hcurrent, hnext, weekSpan, if_neg (Nat.lt_irrefl _), Nat.add_sub_cancel_left]

end WeekSchedule

/-! ## 2. Every step is a word -/

/-- A difference of two words, if it is one. -/
def difference? (a b : Nat) : Option Nat := if b ≤ a then some (a - b) else none

/-- The second of the week, if the product and the sum are words. -/
def WeekTime.position? (t : WeekTime) : Option Nat := do
  let midnight ← (checkedMul t.day.index secondsPerDay).toOption
  (checkedAdd midnight t.time).toOption

/-- `weekElapsed`, if every step is a word. -/
def weekElapsed? (since now : Nat) : Option Nat :=
  if since % secondsPerWeek ≤ now % secondsPerWeek then
    difference? (now % secondsPerWeek) (since % secondsPerWeek)
  else do
    let later ← (checkedAdd (now % secondsPerWeek) secondsPerWeek).toOption
    difference? later (since % secondsPerWeek)

/-- `weekSpan`, if every step is a word. -/
def weekSpan? (a b : Nat) : Option Nat :=
  if a % secondsPerWeek < b % secondsPerWeek then
    difference? (b % secondsPerWeek) (a % secondsPerWeek)
  else do
    let later ← (checkedAdd (b % secondsPerWeek) secondsPerWeek).toOption
    difference? later (a % secondsPerWeek)

theorem WeekTime.position?_eq {t : WeekTime} (h : t.Valid) : t.position? = some t.position := by
  have hday := t.day.index_lt
  have hroom := position_lt h
  unfold position at hroom
  unfold position?
  rw [checkedMul_eq_ok (by simp only [secondsPerDay, word32]; omega)]
  show (checkedAdd _ _).toOption = _
  rw [checkedAdd_eq_ok (hroom.trans (by decide))]
  rfl

/-- A second of the week and a whole week are a word together. -/
theorem checkedAdd_week (a : Nat) :
    checkedAdd (a % secondsPerWeek) secondsPerWeek = .ok (a % secondsPerWeek + secondsPerWeek) :=
  checkedAdd_eq_ok (by simp only [secondsPerWeek, word32]; omega)

/-- **No step of the way back leaves its word.** -/
theorem weekElapsed?_eq (since now : Nat) : weekElapsed? since now = some (weekElapsed since now) := by
  unfold weekElapsed? weekElapsed
  split
  · rename_i hle
    exact if_pos hle
  · rw [checkedAdd_week]
    exact if_pos (by simp only [secondsPerWeek]; omega)

/-- **No step of the way ahead leaves its word.** -/
theorem weekSpan?_eq (a b : Nat) : weekSpan? a b = some (weekSpan a b) := by
  unfold weekSpan? weekSpan
  split
  · rename_i hlt
    exact if_pos hlt.le
  · rw [checkedAdd_week]
    exact if_pos (by simp only [secondsPerWeek]; omega)

/-! ## 3. The quotient -/

namespace ChannelView

/-- With a next event the blend is a value: that of the event in effect while now is at it. -/
theorem blend_eq {V : Type} [ChannelValue V] {v : ChannelView V} {next : WeekEvent V}
    (h : v.next = some next) :
    v.blend = some (
      if weekElapsed v.current.time v.now = 0 then v.current.value
      else ChannelValue.interpolate v.current.value next.value
        (factor (weekElapsed v.current.time v.now) (weekSpan v.current.time next.time))) := by
  unfold blend
  rw [h]
  exact (apply_ite some _ _ _).symm

/-- **The quotient of two distances of the week lies between zero and one**, so it is left alone by
clamping. -/
theorem factor_eq_div {elapsed span : Nat} (hlt : elapsed < span) (hle : span ≤ secondsPerWeek) :
    (∃ q, Single.value? (Single.ofInt elapsed / Single.ofInt span) = some q ∧ 0 ≤ q ∧ q < 1) ∧
      factor elapsed span = Single.ofInt elapsed / Single.ofInt span := by
  simp only [secondsPerWeek] at hle
  obtain ⟨q, hq, hnear⟩ := Single.exists_value?_div (k := elapsed) (n := span) (by omega) (by omega)
    (by omega)
  have hbounds := abs_le.mp hnear
  have hspan : (0 : ℚ) < span := by exact_mod_cast Nat.zero_lt_of_lt hlt
  have hnonneg : (0 : ℚ) ≤ elapsed / span := by positivity
  -- a quotient below one is further from it than half a place
  have hgap : (elapsed / span : ℚ) ≤ 1 - 1 / 604800 := by
    have hlast : (elapsed : ℚ) + 1 ≤ span := by exact_mod_cast hlt
    have hwide : (span : ℚ) ≤ 604800 := by exact_mod_cast hle
    rw [div_le_iff₀ hspan]
    linarith
  have hlow : 0 ≤ q := by linarith
  have hhigh : q < 1 := by linarith
  refine ⟨⟨q, hq, hlow, hhigh⟩, Single.clamp_eq_self hq Single.value?_ofInt_zero ?_ hlow hhigh.le⟩
  exact_mod_cast Single.value?_ofInt (n := 1) (by decide)

end ChannelView

/-! ## 4. The value of a channel -/

namespace Tracker

variable {V : Type} [ChannelValue V] {C P N : Nat} {s : WeekSchedule V C P} {channel : Nat}
  {now : WeekTime} {current next : WeekEvent V} {elapsed span : Nat}

/-- Between two events a channel has the blend of the two, and at an event its value. -/
theorem value_of_between (h : s.Between channel now current next elapsed span) (hn : now.Valid)
    {t : Tracker N} (hmode : t.mode = .interpolation) (hchannel : channel < N) :
    t.value s channel now = .ok (some (
      if elapsed = 0 then current.value
      else ChannelValue.interpolate current.value next.value
        (Single.ofInt elapsed / Single.ofInt span))) := by
  have hfactor := (ChannelView.factor_eq_div h.elapsed_lt h.span_le).2
  rw [t.value_eq s channel hn, valueAt, if_neg (Nat.not_le.mpr hchannel), h.current_eq, h.next_eq,
    Option.bind_some, hmode, ChannelView.value, ChannelView.blend_eq rfl]
  simp only [h.elapsed_eq, h.span_eq, hfactor]

/-- **A blend lies between its two events.** The schedule is one that edits can build, the channel has an
event, and the time is a proper one. Then the two searches find events that now lies between, as
`Between` says: the way from the one to now and the way from now to the other add up to the way between
them, which is a week at most, and now is not at its end. Moreover:

* both distances are converted exactly, their quotient is not below zero and less than one, and is left
  alone by clamping;
* at the event in effect a tracker gives the value of that event, and else the blend at the quotient;
* the seconds of the week of every event and of now, the way back and the way between are made up of
  sums, products and differences that are all words;
* if the channel has one event only, that is both events, and the way between them is a week. -/
theorem interpolation_between (hs : s.Reachable) (hevents : s.events channel ≠ []) (hn : now.Valid) :
    ∃ current next elapsed span, s.Between channel now current next elapsed span ∧
      (Single.value? (Single.ofInt elapsed) = some (elapsed : ℚ) ∧
        Single.value? (Single.ofInt span) = some (span : ℚ) ∧
        (∃ q, Single.value? (Single.ofInt elapsed / Single.ofInt span) = some q ∧ 0 ≤ q ∧ q < 1) ∧
        ChannelView.factor elapsed span = Single.ofInt elapsed / Single.ofInt span) ∧
      (∀ {N : Nat} (t : Tracker N), t.mode = .interpolation → channel < N →
        t.value s channel now = .ok (some (
          if elapsed = 0 then current.value
          else ChannelValue.interpolate current.value next.value
            (Single.ofInt elapsed / Single.ofInt span)))) ∧
      ((∀ e ∈ s.events channel, ∃ d, ∃ x ∈ (s.day d).events channel,
          e = WeekSchedule.atDay d x ∧ WeekTime.position? ⟨d, x.time⟩ = some e.time) ∧
        now.position? = some now.position ∧
        weekElapsed? current.time now.position = some elapsed ∧
        weekSpan? current.time next.time = some span) ∧
      ∀ e, s.events channel = [e] → current = e ∧ next = e ∧ span = secondsPerWeek := by
  obtain ⟨current, next, elapsed, span, h⟩ := hs.ordered.exists_between hevents hn
  have hlt := h.elapsed_lt
  have hle := h.span_le
  simp only [secondsPerWeek] at hle
  obtain ⟨hquotient, hclamp⟩ := ChannelView.factor_eq_div h.elapsed_lt h.span_le
  refine ⟨current, next, elapsed, span, h, ⟨Single.value?_ofInt (by omega),
    Single.value?_ofInt (by omega), hquotient, hclamp⟩, fun t => value_of_between h hn,
    ⟨fun e he => ?_, WeekTime.position?_eq hn, ?_, ?_⟩, fun e he => h.eq_of_single hs.ordered hn he⟩
  · obtain ⟨d, x, hx, rfl⟩ := WeekSchedule.mem_events_iff.mp he
    exact ⟨d, x, hx, rfl, WeekTime.position?_eq ((hs.ordered d).event_within hx)⟩
  · rw [weekElapsed?_eq, h.elapsed_eq]
  · rw [weekSpan?_eq, h.span_eq]

/-- A week with two points about its start: on Saturday at eleven in the evening, and on Sunday at one. -/
def midnightFade : WeekSchedule UInt8 1 2 :=
  (WeekSchedule.empty.setDay .saturday ⟨⟨[some ⟨82800, ⟨[some 0], rfl⟩⟩, none], rfl⟩⟩).setDay .sunday
    ⟨⟨[some ⟨3600, ⟨[some 200], rfl⟩⟩, none], rfl⟩⟩

theorem reachable_midnightFade : midnightFade.Reachable :=
  .insert .sunday 3600 ⟨[some 200], rfl⟩
    (.insert .saturday 82800 ⟨[some 0], rfl⟩ .empty (by rfl)) (by cbv)

/-- At midnight, when the week starts, the blend is half of the way. -/
theorem interpolation_between_midnightFade :
    midnightFade.Reachable ∧ midnightFade.events 0 ≠ [] ∧ WeekTime.Valid ⟨.sunday, 0⟩ ∧
      (∃ current next,
        midnightFade.Between 0 ⟨.sunday, 0⟩ current next 3600 7200) ∧
      (⟨.interpolation, Slots.empty⟩ : Tracker 1).value midnightFade 0 ⟨.sunday, 0⟩ =
        .ok (some 100) := by
  have hevents : midnightFade.events 0 ≠ [] := by decide
  have hn : WeekTime.Valid ⟨.sunday, 0⟩ := by decide
  obtain ⟨current, next, elapsed, span, h, -, hvalue, -⟩ :=
    interpolation_between reachable_midnightFade hevents hn
  have hcurrent : some current = some ⟨601200, 0⟩ := h.current_eq.symm.trans (by rfl)
  have hnext : some next = some ⟨3600, 200⟩ := h.next_eq.symm.trans (by rfl)
  cases hcurrent
  cases hnext
  obtain rfl : 3600 = elapsed := h.elapsed_eq
  obtain rfl : 7200 = span := h.span_eq
  refine ⟨reachable_midnightFade, hevents, hn, ⟨_, _, h⟩, ?_⟩
  rw [hvalue ⟨.interpolation, Slots.empty⟩ rfl (by decide)]
  decide +kernel

end Tracker

end Aquarium

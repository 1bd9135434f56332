import Aquarium.Proofs.Device.Run
import Aquarium.Proofs.Schedule.Entries
import Aquarium.Proofs.Schedule.Occurrence

/-!
# Which occurrences are applied

In single-shot mode a channel applies an event once each time it occurs. When it last applied
something is known to the tracker only round the week: a week later that moment looks as if it had
come again.

* `SeenAsNew`: what the three seconds of the week tell about an occurrence, said in moments that are
  not wrapped;
* `Run.taken_iff`: at each tick the occurrence that is current is applied just if it is seen as new;
* `Run.applied_iff`: so this decides whether an occurrence is applied when it becomes current;
* `Run.lastTaken_of_current`: while one occurrence stays current it is applied at most once;
* `exists_not_appliesEveryOccurrence`: a channel with one event a week misses it in the second week.
-/

namespace Aquarium

/-! ## 1. Seconds of the week against moments -/

/-- An occurrence is seen as new now. Without an earlier application it has to lie in the calendar
week of now. Else no whole number of weeks after the last application may lie between the
occurrence and now. -/
def SeenAsNew (last : Option Nat) (occurrence now : Nat) : Prop :=
  match last with
  | none => occurrence / secondsPerWeek = now / secondsPerWeek
  | some last =>
    ∀ weeks, last + weeks * secondsPerWeek < occurrence ∨ now < last + weeks * secondsPerWeek

/-- Only the latest such moment up to now has to be looked at. -/
theorem seenAsNew_some_iff {last occurrence now : Nat} :
    SeenAsNew (some last) occurrence now ↔
      now < last ∨ last + (now - last) / secondsPerWeek * secondsPerWeek < occurrence := by
  simp only [SeenAsNew, secondsPerWeek]
  constructor
  · intro h
    have hlatest := h ((now - last) / 604800)
    omega
  · intro h weeks
    omega

instance (last : Option Nat) (occurrence now : Nat) : Decidable (SeenAsNew last occurrence now) :=
  match last with
  | none => inferInstanceAs (Decidable (_ = _))
  | some _ => decidable_of_iff _ seenAsNew_some_iff.symm

namespace ChannelView

variable {V : Type}

/-- **The test for a report of this week, in moments.** The event of a view occurred at `occurrence`,
less than a week ago. -/
theorem once_eq_some_iff {e : WeekEvent V} {next : Option (WeekEvent V)} {last : Option Nat}
    {occurrence now : Nat} (hocc : occurrence % secondsPerWeek = e.time) (hle : occurrence ≤ now)
    (hlt : now < occurrence + secondsPerWeek) (hlast : ∀ moment, last = some moment → moment ≤ now)
    {value : V} :
    (ChannelView.mk e next (last.map (· % secondsPerWeek)) (now % secondsPerWeek)).once =
        some value ↔
      e.value = value ∧ SeenAsNew last occurrence now := by
  cases last with
  | none =>
    have hweek : ¬ now % secondsPerWeek < e.time ↔
        occurrence / secondsPerWeek = now / secondsPerWeek := by
      simp only [secondsPerWeek] at *
      omega
    simp only [once, Option.map_none, SeenAsNew, ← hweek]
    split <;> simp_all
  | some last =>
    have hpast := hlast last rfl
    rw [seenAsNew_some_iff, or_iff_right (Nat.not_lt.mpr hpast)]
    simp only [once, Option.map_some, ← hocc]
    split
    · rename_i hnew
      have hlatest : last + (now - last) / secondsPerWeek * secondsPerWeek < occurrence := by
        simp only [secondsPerWeek] at *
        omega
      rw [Option.some.injEq, and_iff_left hlatest]
    · split
      · have hlatest : last + (now - last) / secondsPerWeek * secondsPerWeek < occurrence := by
          simp only [secondsPerWeek] at *
          omega
        rw [Option.some.injEq, and_iff_left hlatest]
      · have hlatest : ¬ last + (now - last) / secondsPerWeek * secondsPerWeek < occurrence := by
          simp only [secondsPerWeek] at *
          omega
        exact ⟨fun h => absurd h.symm (Option.some_ne_none value), fun h => absurd h.2 hlatest⟩

end ChannelView

/-- In single-shot mode a channel has a value just if the current occurrence is seen as new. -/
theorem Tracker.valueAt_singleShot {V : Type} [ChannelValue V] {N P : Nat} {t : Tracker N}
    {s : WeekSchedule V N P} (hs : s.Ordered) (hmode : t.mode = .singleShot) {channel : Nat}
    {last : Option Nat}
    (htimes : t.times.get? channel = last.map (· % secondsPerWeek)) {occurrence now : Nat}
    {e : WeekEvent V} (hcurrent : s.CurrentAt channel now occurrence e)
    (hlast : ∀ moment, last = some moment → moment ≤ now) (value : V) :
    t.valueAt s channel (.ofTimeOfWeek now) = some value ↔
      e.value = value ∧ SeenAsNew last occurrence now := by
  obtain ⟨hfound, hocc, hle, hlt⟩ := (WeekSchedule.currentAt_iff hs).mp hcurrent
  have hc := hcurrent.channel_lt
  rw [Tracker.valueAt, if_neg (Nat.not_le.mpr hc), hfound, Option.bind_some, hmode, htimes,
    WeekTime.position_ofTimeOfWeek, ChannelView.value]
  exact ChannelView.once_eq_some_iff hocc hle hlt hlast

namespace ScheduledOutputs

variable {σ : Type} [OutputSink σ]

/-- Outputs in single-shot mode that have applied nothing, on a sink that accepts every channel. -/
structure Fresh (start : ScheduledOutputs (Recorder σ)) : Prop where
  schedule : start.schedule.Reachable
  mode : start.mode = .singleShot
  times : ∀ channel, start.tracker.times.get? channel = none
  accepts : ∀ (sink : σ) channel value, channel < outputChannels →
    (OutputSink.apply sink channel value).2 = none

/-! ## 2. One event a week -/

theorem events_mondayMorning (value : Float32) :
    (mondayMorning value).events 0 = [⟨115200, value⟩] := by
  have hday : (mondayMorning value).events 0 = [WeekSchedule.atDay .monday ⟨28800, value⟩] := rfl
  have htime : WeekSchedule.atDay .monday ⟨28800, value⟩ = ⟨115200, value⟩ := by cbv
  rw [hday, htime]

theorem currentAt_mondayMorning (value : Float32) {week moment : Nat}
    (hle : 115200 + week * secondsPerWeek ≤ moment)
    (hlt : moment < 115200 + week * secondsPerWeek + secondsPerWeek) :
    (mondayMorning value).CurrentAt 0 moment (115200 + week * secondsPerWeek) ⟨115200, value⟩ where
  mem := by rw [events_mondayMorning]; exact List.mem_singleton_self _
  occurs := by simp only [secondsPerWeek] at *; omega
  le := hle
  latest := by
    intro f hf other ht ho
    rw [events_mondayMorning, List.mem_singleton] at hf
    subst hf
    simp only [secondsPerWeek] at *
    omega

/-- Pulse width outputs that follow that week, in single-shot mode. -/
def weekly (value : Float32) : ScheduledOutputs (Recorder Pwm) :=
  .new (mondayMorning value) .singleShot ⟨.idle, []⟩ []

theorem fresh_weekly (value : Float32) : Fresh (weekly value) where
  schedule := reachable_mondayMorning value
  mode := rfl
  times channel := Slots.get?_empty channel
  accepts := by
    intro sink channel value hc
    exact congrArg Prod.snd (if_pos hc)

/-! ## 3. Occurrences along a run -/

/-- The moments of the ticks never go back; the latest tick comes first. -/
def Ascending (history : List TickRecord) : Prop :=
  history.Pairwise fun later earlier => earlier.moment ≤ later.moment

theorem lastTaken_le {r : TickRecord} {earlier : List TickRecord}
    (hascending : Ascending (r :: earlier)) {channel moment : Nat}
    (h : lastTaken channel earlier = some moment) : moment ≤ r.moment := by
  obtain ⟨s, hs, rfl⟩ := lastTaken_mem h
  exact List.rel_of_pairwise_cons hascending hs

variable {start o : ScheduledOutputs (Recorder σ)} {later earlier : List TickRecord}
  {r : TickRecord} {channel occurrence : Nat} {e : WeekEvent Float32}

/-- **At each tick the current occurrence is applied just if it is seen as new.** Nothing else is
handed over for its channel. -/
theorem Run.taken_iff (hrun : Run start (r :: earlier) o) (hfresh : Fresh start)
    (hascending : Ascending (r :: earlier))
    (hcurrent : start.schedule.CurrentAt channel r.moment occurrence e) {f : Offer}
    (hf : f.channel = channel) :
    f ∈ r.offers ↔
      f.taken = true ∧ e.value = f.value ∧
        SeenAsNew (lastTaken channel earlier) occurrence r.moment := by
  obtain ⟨moment, offers⟩ := r
  obtain ⟨before, hbefore, hoffered⟩ := hrun.offered_iff
  obtain ⟨hschedule, hmode⟩ := hbefore.frame
  have htimes : before.tracker.times.get? channel =
      (lastTaken channel earlier).map (· % secondsPerWeek) := by
    rw [hbefore.times_eq, hfresh.times, Option.or_none]
  have hvalue := Tracker.valueAt_singleShot hfresh.schedule.ordered
    (hmode.trans hfresh.mode) htimes hcurrent (fun _ h => lastTaken_le hascending h) f.value
  rw [← hvalue, ← hschedule, ← hoffered channel f.value]
  obtain ⟨c, value, taken⟩ := f
  subst hf
  constructor
  · intro hmem
    exact ⟨hrun.taken hfresh.accepts List.mem_cons_self hmem, taken, hmem⟩
  · rintro ⟨htaken, answer, hmem⟩
    have hanswer := hrun.taken hfresh.accepts List.mem_cons_self hmem
    simp only at htaken hanswer
    rw [htaken, ← hanswer]
    exact hmem

theorem Run.exists_taken_iff (hrun : Run start (r :: earlier) o) (hfresh : Fresh start)
    (hascending : Ascending (r :: earlier))
    (hcurrent : start.schedule.CurrentAt channel r.moment occurrence e) :
    (∃ f ∈ r.offers, f.channel = channel ∧ f.taken) ↔
      SeenAsNew (lastTaken channel earlier) occurrence r.moment := by
  constructor
  · rintro ⟨f, hf, hchannel, -⟩
    exact ((hrun.taken_iff hfresh hascending hcurrent hchannel).mp hf).2.2
  · intro hnew
    have hmem := (hrun.taken_iff hfresh hascending hcurrent
      (f := ⟨channel, e.value, true⟩) rfl).mpr ⟨rfl, rfl, hnew⟩
    exact ⟨_, hmem, rfl, rfl⟩

/-- The occurrence is current at the tick `r`, and was not yet at the ticks before. -/
structure BecomesCurrent (schedule : LightSchedule) (channel : Nat) (r : TickRecord)
    (earlier : List TickRecord) (occurrence : Nat) (e : WeekEvent Float32) : Prop where
  current : schedule.CurrentAt channel r.moment occurrence e
  first : ∀ s ∈ earlier, s.moment < occurrence

/-- **When an occurrence becomes current, it is applied just if it is seen as new.** It is lost if a
whole number of weeks after the last application of its channel lies between the occurrence and the
tick, and, as long as the channel has applied nothing, if the week ended in between. -/
theorem Run.applied_iff (later : List TickRecord) (hrun : Run start (later ++ r :: earlier) o)
    (hfresh : Fresh start) (hascending : Ascending (later ++ r :: earlier))
    (hbecomes : BecomesCurrent start.schedule channel r earlier occurrence e) :
    ⟨channel, e.value, true⟩ ∈ r.offers ↔
      SeenAsNew (lastTaken channel earlier) occurrence r.moment := by
  obtain ⟨before, hbefore⟩ := hrun.earlier _
  have htail : Ascending (r :: earlier) := (List.pairwise_append.mp hascending).2.1
  rw [hbefore.taken_iff hfresh htail hbecomes.current rfl]
  exact ⟨fun h => h.2.2, fun h => ⟨rfl, rfl, h⟩⟩

/-- After a tick that finds nothing new, the occurrence at eight is applied a minute late. -/
theorem applied_iff_weekly :
    ∃ r s o, Run (weekly (Single.ofInt 10)) [r, s] o ∧ Fresh (weekly (Single.ofInt 10)) ∧
      Ascending [r, s] ∧
      BecomesCurrent (weekly (Single.ofInt 10)).schedule 0 r [s] 720000
        ⟨115200, Single.ofInt 10⟩ ∧
      r.moment = 720060 ∧ ⟨0, Single.ofInt 10, true⟩ ∈ r.offers := by
  obtain ⟨history, o, hrun, hmoments⟩ := exists_run (weekly (Single.ofInt 10)) [720060, 719800]
  obtain ⟨r, _, rfl, hr, hrest⟩ := List.map_eq_cons_iff.mp hmoments
  obtain ⟨s, _, rfl, hs, hnil⟩ := List.map_eq_cons_iff.mp hrest
  obtain rfl := List.map_eq_nil_iff.mp hnil
  have hfresh := fresh_weekly (Single.ofInt 10)
  have hascending : Ascending [r, s] := by
    refine List.pairwise_pair.mpr ?_
    omega
  obtain ⟨before, hbefore⟩ := hrun.earlier [r]
  -- at the first tick the occurrence of the week before is current, and too old
  have hstale : (weekly (Single.ofInt 10)).schedule.CurrentAt 0 s.moment
      (115200 + 0 * secondsPerWeek) ⟨115200, Single.ofInt 10⟩ := by
    refine currentAt_mondayMorning _ ?_ ?_ <;> rw [hs] <;> decide
  have hnone : lastTaken 0 [s] = none := by
    have htaken := hbefore.exists_taken_iff hfresh (List.pairwise_singleton _ _) hstale
    rw [lastTaken, if_neg (mt htaken.mp (by rw [hs]; decide))]
    rfl
  have hbecomes : BecomesCurrent (weekly (Single.ofInt 10)).schedule 0 r [s]
      (115200 + 1 * secondsPerWeek) ⟨115200, Single.ofInt 10⟩ := by
    refine ⟨currentAt_mondayMorning _ ?_ ?_, ?_⟩
    · rw [hr]; decide
    · rw [hr]; decide
    · intro t ht
      rw [List.mem_singleton.mp ht, hs]
      decide
  have happlied := (Run.applied_iff [] hrun hfresh hascending hbecomes).mpr
    (by rw [hnone, hr]; decide)
  exact ⟨r, s, o, hrun, hfresh, hascending, hbecomes, hr, happlied⟩

/-- While an occurrence that was applied stays current, its channel applies nothing. -/
theorem Run.lastTaken_of_current {taken : Nat} (hrun : Run start (later ++ earlier) o)
    (hfresh : Fresh start) (hascending : Ascending (later ++ earlier))
    (hcurrent : ∀ s ∈ later, start.schedule.CurrentAt channel s.moment occurrence e)
    (hlast : lastTaken channel earlier = some taken) (hle : occurrence ≤ taken) :
    lastTaken channel (later ++ earlier) = some taken := by
  induction later generalizing o with
  | nil => exact hlast
  | cons s later ih =>
      rw [List.cons_append] at hrun hascending
      obtain ⟨before, hbefore⟩ := hrun.earlier [s]
      have hbefore_last := ih hbefore (List.Pairwise.of_cons hascending) fun r hr =>
        hcurrent r (List.mem_cons_of_mem s hr)
      have htaken := hrun.exists_taken_iff hfresh hascending (hcurrent s List.mem_cons_self)
      rw [hbefore_last] at htaken
      have hpast : taken ≤ s.moment := lastTaken_le hascending hbefore_last
      have hold : ¬ SeenAsNew (some taken) occurrence s.moment := by
        intro hnew
        have hnow := hnew 0
        omega
      rw [List.cons_append, lastTaken, if_neg (mt htaken.mp hold), hbefore_last]

/-- Every occurrence that becomes current at a later tick than the first is applied there. -/
def AppliesEveryOccurrence (schedule : LightSchedule) (channel : Nat) (history : List TickRecord) :
    Prop :=
  ∀ later r earlier, history = later ++ r :: earlier → earlier ≠ [] → ∀ occurrence e,
    BecomesCurrent schedule channel r earlier occurrence e → ⟨channel, e.value, true⟩ ∈ r.offers

/-- The moments of the ticks are at most an hour apart. -/
def HourApart (history : List TickRecord) : Prop :=
  (history.map (·.moment)).IsChain fun later earlier => later ≤ earlier + secondsPerHour

/-- **One event a week is not applied every week.** It is ticked every 59 minutes, for the first time
at the event itself, so that the event of the second week becomes current nine minutes late. -/
theorem exists_not_appliesEveryOccurrence :
    ∃ history o, Run (weekly (Single.ofInt 10)) history o ∧ Fresh (weekly (Single.ofInt 10)) ∧
      Ascending history ∧ HourApart history ∧
      ¬ AppliesEveryOccurrence (weekly (Single.ofInt 10)).schedule 0 history := by
  have hfresh := fresh_weekly (Single.ofInt 10)
  obtain ⟨history, o, hrun, hmoments⟩ := exists_run (weekly (Single.ofInt 10))
    (720540 :: ((List.range 170).reverse.map (fun i => 118740 + 3540 * i) ++ [115200]))
  have hascending : Ascending history := by
    refine List.pairwise_map.mp (?_ : (history.map (·.moment)).Pairwise fun a b => b ≤ a)
    rw [hmoments]
    decide +kernel
  have hhour : HourApart history := by
    rw [HourApart, hmoments]
    decide +kernel
  refine ⟨history, o, hrun, hfresh, hascending, hhour, fun hall => ?_⟩
  obtain ⟨r, _, rfl, hr, hrest⟩ := List.map_eq_cons_iff.mp hmoments
  obtain ⟨later, _, rfl, hlater, hfirst⟩ := List.map_eq_append_iff.mp hrest
  obtain ⟨s, rfl, hs⟩ := List.map_eq_singleton_iff.mp hfirst
  have hweek : ∀ t ∈ later, 118740 ≤ t.moment ∧ t.moment ≤ 717000 := by
    intro t ht
    have hmoment : t.moment ∈ later.map (·.moment) := List.mem_map_of_mem ht
    rw [hlater] at hmoment
    obtain ⟨i, hi, heq⟩ := List.mem_map.mp hmoment
    rw [List.mem_reverse, List.mem_range] at hi
    omega
  -- the first tick applies the event of the first week
  obtain ⟨o₁, hrun₁⟩ := hrun.earlier (r :: later)
  have hcurrent₁ : (weekly (Single.ofInt 10)).schedule.CurrentAt 0 s.moment
      (115200 + 0 * secondsPerWeek) ⟨115200, Single.ofInt 10⟩ := by
    refine currentAt_mondayMorning _ ?_ ?_ <;> rw [hs] <;> decide
  have htaken₁ : lastTaken 0 [s] = some 115200 := by
    have htaken := hrun₁.exists_taken_iff hfresh (List.pairwise_singleton _ _) hcurrent₁
    rw [lastTaken, if_pos (htaken.mpr (by rw [hs]; decide)), hs]
  -- and nothing is applied until the second week
  obtain ⟨o₂, hrun₂⟩ := hrun.earlier [r]
  have htaken₂ : lastTaken 0 (later ++ [s]) = some 115200 := by
    have hcurrent₂ : ∀ t ∈ later, (weekly (Single.ofInt 10)).schedule.CurrentAt 0 t.moment
        (115200 + 0 * secondsPerWeek) ⟨115200, Single.ofInt 10⟩ := by
      intro t ht
      have := hweek t ht
      refine currentAt_mondayMorning _ ?_ ?_ <;> simp only [secondsPerWeek] <;> omega
    exact hrun₂.lastTaken_of_current hfresh hascending.of_cons hcurrent₂ htaken₁ (by decide)
  have hcurrent : (weekly (Single.ofInt 10)).schedule.CurrentAt 0 r.moment
      (115200 + 1 * secondsPerWeek) ⟨115200, Single.ofInt 10⟩ := by
    refine currentAt_mondayMorning _ ?_ ?_ <;> rw [hr] <;> decide
  have happlied := hall [] r (later ++ [s]) rfl (by simp) _ _ ⟨hcurrent, fun t ht => ?_⟩
  · have hnew := ((hrun.taken_iff hfresh hascending hcurrent rfl).mp happlied).2.2
    rw [htaken₂] at hnew
    have hweekLater := hnew 1
    simp only [secondsPerWeek] at hweekLater
    omega
  · simp only [secondsPerWeek]
    rcases List.mem_append.mp ht with ht | ht
    · have := hweek t ht
      omega
    · rw [List.mem_singleton.mp ht, hs]
      decide

end ScheduledOutputs

end Aquarium

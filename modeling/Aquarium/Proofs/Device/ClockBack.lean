import Aquarium.Proofs.Device.EditedRun

/-!
# A clock that is set back

Local time goes back by an hour when daylight saving ends, and by any amount when somebody sets the
clock. The outputs then see a moment that lies before the time of a channel, and take that time for
one of the week before. So an occurrence that was applied may be applied a second time.

* `Tracker.valueAt_iff_of_reported`: what is reported, whatever way the clock went since the last
  report;
* `exists_lastTaken_since`: a channel that took a value took its last one then or since;
* `Run.appliedAgain_iff`: when an occurrence is applied again, although no tick went back behind it;
* `exists_appliedAgain`: twenty minutes back are enough.
-/

namespace Aquarium

/-! ## 1. Moments counted from an earlier midnight -/

theorem WeekTime.ofTimeOfWeek_add_weeks (now weeks : Nat) :
    ofTimeOfWeek (now + weeks * secondsPerWeek) = ofTimeOfWeek now := by
  simp only [ofTimeOfWeek, Nat.add_mul_mod_self_right]

namespace WeekSchedule

variable {V : Type} {C P : Nat} {s : WeekSchedule V C P} {channel now : Nat} {occurrence : Int}
  {e : WeekEvent V}

theorem LatestAt.add_weeks (h : s.LatestAt channel now occurrence e) (weeks : Nat) :
    s.LatestAt channel (now + weeks * secondsPerWeek) (occurrence + weeks * secondsPerWeek) e := by
  induction weeks with
  | zero => simpa using h
  | succ weeks ih =>
      have hnext := latestAt_add_week.mpr ih
      have hnow : now + (weeks + 1) * secondsPerWeek =
          now + weeks * secondsPerWeek + secondsPerWeek := by
        rw [Nat.succ_mul, Nat.add_assoc]
      have hoccurrence : occurrence + (weeks + 1 : Nat) * (secondsPerWeek : Int) =
          occurrence + weeks * secondsPerWeek + secondsPerWeek := by
        push_cast
        rw [Int.add_mul, Int.one_mul, Int.add_assoc]
      rw [hnow, hoccurrence]
      exact hnext

end WeekSchedule

/-! ## 2. What is reported after a report at any moment -/

/-- **The last report may lie after now.** In single-shot mode the latest occurrence is reported if
and only if no moment a whole number of weeks before or after the last report lies between the
occurrence and now. -/
theorem Tracker.valueAt_iff_of_reported {V : Type} [ChannelValue V] {N P : Nat} {t : Tracker N}
    {s : WeekSchedule V N P} (hs : s.Ordered) (hmode : t.mode = .singleShot)
    {channel last now : Nat} (htimes : t.times.get? channel = some (last % secondsPerWeek))
    {occurrence : Int} {e : WeekEvent V} (hlatest : s.LatestAt channel now occurrence e)
    (value : V) :
    t.valueAt s channel (.ofTimeOfWeek now) = some value ↔
      e.value = value ∧ ∀ weeks : Int, last + weeks * secondsPerWeek < occurrence ∨
        now < last + weeks * secondsPerWeek := by
  -- counted from so many weeks before, the last report does not lie after now
  have hcurrent := (hlatest.add_weeks last).currentAt
  have hnow : WeekTime.ofTimeOfWeek now =
      .ofTimeOfWeek (now + last * secondsPerWeek + secondsPerWeek) := by
    rw [WeekTime.ofTimeOfWeek_add_week, WeekTime.ofTimeOfWeek_add_weeks]
  have hreported : t.times.get? channel = (some last).map (· % secondsPerWeek) := htimes
  rw [hnow, valueAt_singleShot hs hmode hreported hcurrent
    (fun moment hm => by cases hm; simp only [secondsPerWeek]; omega) value]
  have hage := hlatest.lt
  refine and_congr_right fun _ => ⟨fun h weeks => ?_, fun h weeks => ?_⟩
  · have hweeks := h (weeks + last + 1).toNat
    simp only [secondsPerWeek] at *
    omega
  · have hweeks := h (weeks - last - 1)
    simp only [secondsPerWeek] at *
    omega

namespace ScheduledOutputs

variable {σ : Type} [OutputSink σ]

/-! ## 3. Runs in any direction -/

/-- After a tick at which a channel took a value, its last one was taken then or at a tick since. -/
theorem exists_lastTaken_since {s : TickRecord} {f : Offer} (hf : f ∈ s.offers)
    (htaken : f.taken = true) (since before : List TickRecord) :
    ∃ last, lastTaken f.channel (since ++ s :: before) = some last ∧
      (last = s.moment ∨ ∃ t ∈ since, last = t.moment) := by
  induction since with
  | nil =>
      refine ⟨s.moment, ?_, .inl rfl⟩
      rw [List.nil_append, lastTaken, if_pos ⟨f, hf, rfl, htaken⟩]
  | cons t since ih =>
      rw [List.cons_append, lastTaken]
      by_cases htook : ∃ g ∈ t.offers, g.channel = f.channel ∧ g.taken
      · rw [if_pos htook]
        exact ⟨t.moment, rfl, .inr ⟨t, List.mem_cons_self, rfl⟩⟩
      · rw [if_neg htook]
        obtain ⟨last, hlast, heq | ⟨u, hu, heq⟩⟩ := ih
        · exact ⟨last, hlast, .inl heq⟩
        · exact ⟨last, hlast, .inr ⟨u, List.mem_cons_of_mem t hu, heq⟩⟩

variable {start o : ScheduledOutputs (Recorder σ)} {before : List TickRecord}
  {r s : TickRecord} {channel : Nat} {occurrence : Int} {e : WeekEvent Float32}

/-- What a channel is offered at a tick, from the moment at which it took a value last. -/
theorem Run.offered_iff_of_lastTaken {history : List TickRecord}
    (hrun : Run start (r :: history) o) (hmode : start.mode = .singleShot)
    (hschedule : start.schedule.Reachable) {last : Nat}
    (hlast : lastTaken channel history = some last)
    (hlatest : start.schedule.LatestAt channel r.moment occurrence e) :
    (∃ taken, ⟨channel, e.value, taken⟩ ∈ r.offers) ↔
      ∀ weeks : Int, last + weeks * secondsPerWeek < occurrence ∨
        r.moment < last + weeks * secondsPerWeek := by
  obtain ⟨b, hbefore, hoffered⟩ := hrun.offered_iff
  obtain ⟨hsame, hkept⟩ := hbefore.frame
  have htimes : b.tracker.times.get? channel = some (last % secondsPerWeek) := by
    rw [hbefore.times_eq, hlast, Option.map_some, Option.some_or]
  rw [hoffered channel e.value, hsame, Tracker.valueAt_iff_of_reported hschedule.ordered
    (hkept.trans hmode) htimes hlatest e.value, and_iff_right rfl]

/-- **When an occurrence is applied again.** It was applied at the tick `s`, no tick since then lay
before it, and it is the latest one at the tick `r`. Then its value is handed over again just if now
lies before the moment at which the channel took a value last, and no whole number of weeks before
that moment leads between the occurrence and now. The moments of the ticks may go back as they like,
and the sink may refuse what it likes. -/
theorem Run.appliedAgain_iff (since : List TickRecord)
    (hrun : Run start (r :: (since ++ s :: before)) o)
    (hmode : start.mode = .singleShot) (hschedule : start.schedule.Reachable)
    (happlied : ScheduledTick.Applies ⟨s, start.schedule⟩ channel occurrence)
    (hsince : ∀ t ∈ since, occurrence ≤ t.moment)
    (hlatest : start.schedule.LatestAt channel r.moment occurrence e) :
    ∃ last, lastTaken channel (since ++ s :: before) = some last ∧ occurrence ≤ last ∧
      ((∃ taken, ⟨channel, e.value, taken⟩ ∈ r.offers) ↔
        r.moment < last ∧ ∀ weeks : Nat, (last : Int) < occurrence + weeks * secondsPerWeek ∨
          r.moment + weeks * secondsPerWeek < last) := by
  obtain ⟨f, hfirst, hmem⟩ := happlied
  obtain ⟨last, hlast, hmoment⟩ := exists_lastTaken_since hmem rfl since before
  have hle : occurrence ≤ last := by
    rcases hmoment with rfl | ⟨t, ht, rfl⟩
    · exact hfirst.le
    · exact hsince t ht
  refine ⟨last, hlast, hle, ?_⟩
  rw [hrun.offered_iff_of_lastTaken hmode hschedule hlast hlatest]
  constructor
  · intro h
    refine ⟨?_, fun weeks => ?_⟩
    · have hnow := h 0
      omega
    · have hweeks := h (-weeks)
      simp only [secondsPerWeek] at *
      omega
  · rintro ⟨hback, h⟩ weeks
    have hweeks := h (-weeks).toNat
    simp only [secondsPerWeek] at *
    omega

/-! ## 4. Half past eight -/

theorem latestAt_mondayMorning (value : Float32) {moment : Nat} (hle : 115200 ≤ moment)
    (hlt : moment < 720000) :
    (mondayMorning value).LatestAt 0 moment 115200 ⟨115200, value⟩ :=
  WeekSchedule.latestAt_iff_currentAt.mpr (@currentAt_mondayMorning value 0 moment hle hlt)

/-- There is a run through any moments after half past eight, when the event of eight is applied. -/
theorem exists_run_halfPastEight (moments : List Nat) :
    ∃ since s o, Run (weekly (Single.ofInt 10)) (since ++ [s]) o ∧
      since.map (·.moment) = moments ∧ s.moment = 117000 ∧
      ScheduledTick.Applies ⟨s, mondayMorning (Single.ofInt 10)⟩ 0 115200 ∧
      lastTaken 0 [s] = some 117000 := by
  obtain ⟨history, o, hrun, hmoments⟩ :=
    exists_run (weekly (Single.ofInt 10)) (moments ++ [117000])
  obtain ⟨since, _, rfl, hsince, hrest⟩ := List.map_eq_append_iff.mp hmoments
  obtain ⟨s, rfl, hs⟩ := List.map_eq_singleton_iff.mp hrest
  have hlatest : (mondayMorning (Single.ofInt 10)).LatestAt 0 s.moment 115200
      ⟨115200, Single.ofInt 10⟩ :=
    latestAt_mondayMorning _ (by omega) (by omega)
  obtain ⟨o₁, hfirst⟩ := hrun.earlier since
  have hmem := (hfirst.taken_iff (fresh_weekly _) (List.pairwise_singleton _ _)
    (WeekSchedule.latestAt_iff_currentAt.mp hlatest) (f := ⟨0, Single.ofInt 10, true⟩) rfl).mpr
    ⟨rfl, rfl, by rw [hs]; decide⟩
  refine ⟨since, s, o, hrun, hsince, hs, ⟨_, hlatest, hmem⟩, ?_⟩
  rw [lastTaken, if_pos ⟨_, hmem, rfl, rfl⟩, hs]

/-- Back from ten past nine to twenty to nine nothing is applied: that is after half past eight. -/
theorem appliedAgain_iff_twentyToNine :
    ∃ r t s o, Run (weekly (Single.ofInt 10)) (r :: ([t] ++ [s])) o ∧
      (weekly (Single.ofInt 10)).mode = .singleShot ∧
      (weekly (Single.ofInt 10)).schedule.Reachable ∧
      ScheduledTick.Applies ⟨s, (weekly (Single.ofInt 10)).schedule⟩ 0 115200 ∧
      t.moment = 119400 ∧ r.moment = 117600 ∧
      (weekly (Single.ofInt 10)).schedule.LatestAt 0 r.moment 115200 ⟨115200, Single.ofInt 10⟩ ∧
      ¬ ∃ taken, ⟨0, Single.ofInt 10, taken⟩ ∈ r.offers := by
  have hfresh := fresh_weekly (Single.ofInt 10)
  obtain ⟨since, s, o, hrun, hsince, hs, happlied, hfirst⟩ :=
    exists_run_halfPastEight [117600, 119400]
  obtain ⟨r, _, rfl, hr, hrest⟩ := List.map_eq_cons_iff.mp hsince
  obtain ⟨t, rfl, ht⟩ := List.map_eq_singleton_iff.mp hrest
  have hlatest : (weekly (Single.ofInt 10)).schedule.LatestAt 0 r.moment 115200
      ⟨115200, Single.ofInt 10⟩ := latestAt_mondayMorning _ (by omega) (by omega)
  obtain ⟨last, hlast, hle, hagain⟩ := Run.appliedAgain_iff [t] hrun hfresh.mode
    hfresh.schedule happlied (fun u hu => by rw [List.mem_singleton.mp hu]; omega) hlatest
  -- at ten past nine the event is not new, so half past eight is the last time of the channel
  obtain ⟨o₂, (hbefore : Run _ ([t] ++ [s]) o₂)⟩ := hrun.earlier [r]
  have hkept := hbefore.lastTaken_of_current hfresh
    (List.pairwise_pair.mpr (by omega)) (fun u hu => by
      rw [List.mem_singleton.mp hu]
      exact WeekSchedule.latestAt_iff_currentAt.mp
        (latestAt_mondayMorning _ (by omega) (by omega))) hfirst (by decide)
  rw [hkept] at hlast
  cases hlast
  refine ⟨r, t, s, o, hrun, hfresh.mode, hfresh.schedule, happlied, ht, hr, hlatest, ?_⟩
  rw [hagain]
  omega

/-- From one tick to the next the clock goes back by an hour at most. -/
def AtMostAnHourBack (history : List TickRecord) : Prop :=
  (history.map (·.moment)).IsChain fun later earlier => earlier ≤ later + secondsPerHour

/-- An occurrence is applied again only if some tick in between lay before it. -/
def AppliesAgainOnlyFromBefore (schedule : LightSchedule) (history : List TickRecord) : Prop :=
  ∀ later r since s before, history = later ++ r :: (since ++ s :: before) →
    ∀ channel occurrence, ScheduledTick.Applies ⟨s, schedule⟩ channel occurrence →
      ScheduledTick.Applies ⟨r, schedule⟩ channel occurrence →
        ∃ t ∈ since, (t.moment : Int) < occurrence

/-- **Twenty minutes back the event is applied again.** It was applied at half past eight, and at
ten past eight it still is the latest one. -/
theorem exists_appliedAgain :
    ∃ history o, Run (weekly (Single.ofInt 10)) history o ∧ Fresh (weekly (Single.ofInt 10)) ∧
      AtMostAnHourBack history ∧
      ¬ AppliesAgainOnlyFromBefore (weekly (Single.ofInt 10)).schedule history := by
  have hfresh := fresh_weekly (Single.ofInt 10)
  obtain ⟨since, s, o, hrun, hsince, hs, happlied, hlast⟩ := exists_run_halfPastEight [115800]
  obtain ⟨r, rfl, hr⟩ := List.map_eq_singleton_iff.mp hsince
  have hhour : AtMostAnHourBack [r, s] := by
    rw [AtMostAnHourBack, List.map_cons, List.map_singleton, hr, hs]
    decide
  have hlatest : (weekly (Single.ofInt 10)).schedule.LatestAt 0 r.moment 115200
      ⟨115200, Single.ofInt 10⟩ := latestAt_mondayMorning _ (by omega) (by omega)
  obtain ⟨taken, hmem⟩ := (hrun.offered_iff_of_lastTaken hfresh.mode hfresh.schedule hlast
    hlatest).mpr fun weeks => by
      simp only [secondsPerWeek]
      omega
  have htaken : taken = true := hrun.taken hfresh.accepts List.mem_cons_self hmem
  subst htaken
  refine ⟨[r, s], o, hrun, hfresh, hhour, fun hagain => ?_⟩
  obtain ⟨t, ht, -⟩ := hagain [] r [] s [] rfl 0 115200 happlied ⟨_, hlatest, hmem⟩
  exact List.not_mem_nil ht

end ScheduledOutputs

end Aquarium

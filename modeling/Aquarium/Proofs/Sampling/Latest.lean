import Aquarium.Proofs.Sampling.History

/-!
# A window shows the latest samples it accepted

What a window shows is worked out anew after each sample that it takes, and left alone otherwise.

* `Statistics.of_eq`: the formulas that the statistics of two samples or more follow;
* `maxRate_eq`: the bound of a window, from the samples that it holds;
* `offer_eq_false`: an offer that is refused shows in nothing but the count of rejections;
* `shows_latest`: the main statement.
-/

namespace Aquarium

variable {α : Type} {capacity : Nat} [Measurement α]

namespace Statistics

/-- The rates are those from each sample to the next: what the value changes by, per second, where
less than a second counts as one. -/
theorem rates_eq (samples : List (Sample α)) :
    rates samples = (samples.zip samples.tail).map fun (old, new) =>
      (Measurement.toSingle new.value - Measurement.toSingle old.value).abs /
        Single.maximum (Single.ofNanoseconds (new.time - old.time).natAbs) Single.one := by
  fun_induction rates samples with
  | case1 old new rest ih => rw [ih]; rfl
  | case2 samples hshort =>
      rcases samples with _ | ⟨old, _ | ⟨new, rest⟩⟩
      · rfl
      · rfl
      · exact (hshort old new rest rfl).elim

/-- **The formulas of the statistics** of two samples or more: the mean; the squared distances from
it, summed, over one less than the number of samples; and the mean of the rates. -/
theorem of_eq {samples : List (Sample α)} (h : 2 ≤ samples.length) :
    let values := samples.map fun s => Measurement.toSingle s.value
    let mean := sum values / Single.ofInt samples.length
    of samples =
      ⟨mean,
        sum (values.map fun x => (x - mean) * (x - mean)) / Single.ofInt (samples.length - 1 : Nat),
        ((samples.zip samples.tail).map fun (old, new) =>
          (Measurement.toSingle new.value - Measurement.toSingle old.value).abs /
            Single.maximum (Single.ofNanoseconds (new.time - old.time).natAbs) Single.one).foldl
          (· + ·) Single.zero / Single.ofInt (samples.length - 1 : Nat)⟩ := by
  intro values mean
  have hsome : ¬ samples.length = 0 := by omega
  simp only [of, if_neg hsome, if_neg (Nat.not_lt.mpr h), rates_eq]
  rfl

end Statistics

namespace SampleWindow

/-- **An offer that is refused leaves all that a window shows as it was.** -/
theorem offer_eq_false {w w' : SampleWindow α capacity} {s : Sample α}
    (h : w.offer s.value s.time = .ok (false, w')) :
    w'.samples = w.samples ∧ w'.statistics = w.statistics ∧ w'.settings = w.settings := by
  have hcourse := w.course_offer s
  rw [h] at hcourse
  cases hcourse with
  | passedOver hfinite => exact ⟨rfl, rfl, rfl⟩
  | rejected hfinite haccepts hrestart hroom => exact ⟨rfl, rfl, rfl⟩

end SampleWindow

namespace WindowHistory

variable {settings : FilterSettings} {h : WindowHistory α capacity}

theorem Sound.size_eq (hs : Sound settings h) :
    h.window.size = min capacity (acceptedSince h.records).length := by
  rw [SampleWindow.size, hs.samples_eq, SampleWindow.length_rtake]

/-- The bound of a window is the given one, or else learned from the samples that it holds. -/
theorem Sound.maxRate_eq (hs : Sound settings h) :
    h.window.maxRate = settings.sanitized.maxRate.getD (Single.maximum
      ((Statistics.of h.window.samples).meanRate * settings.sanitized.multiplier)
      settings.sanitized.minRate) := by
  unfold SampleWindow.maxRate
  rw [hs.settings_eq, hs.statistics_eq]

/-- The newest sample in a window with room is the one accepted last. -/
theorem Sound.last?_eq (hs : Sound settings h) (hcapacity : 0 < capacity) :
    h.window.last? = (acceptedSince h.records).getLast? := by
  unfold SampleWindow.last?
  rw [hs.samples_eq, List.rtake, List.getLast?_drop]
  split
  · rename_i hle
    rw [List.length_eq_zero_iff.mp (show (acceptedSince h.records).length = 0 by omega),
      List.getLast?_nil]
  · rfl

/-- **A window always shows the latest samples that it accepted.** After any offers:

* it holds the last ones, as many as it has room for, of the samples accepted since the start or the
  last new start, in order, and the newest of them is the one accepted last;
* its statistics are those of the samples that it holds, zero for none, and its bound is the given
  one or else learned from them;
* one offer more that is refused changes nothing of this. -/
theorem shows_latest (hcapacity : 0 < capacity) (settings : FilterSettings)
    (samples : List (Sample α)) :
    let h : WindowHistory α capacity := (start settings).after samples
    let w := h.window
    let accepted := acceptedSince h.records
    (w.samples = accepted.rtake capacity ∧ w.size = min capacity accepted.length) ∧
    w.last? = accepted.getLast? ∧
    (w.statistics = .of w.samples ∧ (w.samples = [] → w.statistics = .none)) ∧
    w.maxRate = settings.sanitized.maxRate.getD (Single.maximum
      ((Statistics.of w.samples).meanRate * settings.sanitized.multiplier)
      settings.sanitized.minRate) ∧
    ∀ (s : Sample α) w', w.offer s.value s.time = .ok (false, w') →
      w'.samples = w.samples ∧ w'.last? = w.last? ∧ w'.statistics = w.statistics ∧
        w'.maxRate = w.maxRate := by
  intro h w accepted
  have hs : Sound settings h := sound_after settings samples
  refine ⟨⟨hs.samples_eq, hs.size_eq⟩, hs.last?_eq hcapacity, ⟨hs.statistics_eq, fun hnil => ?_⟩,
    hs.maxRate_eq, fun s w' hoffer => ?_⟩
  · rw [hs.statistics_eq, hnil]
    rfl
  · obtain ⟨hsamples, hstatistics, hsettings⟩ := SampleWindow.offer_eq_false hoffer
    refine ⟨hsamples, ?_, hstatistics, ?_⟩
    · rw [SampleWindow.last?, SampleWindow.last?, hsamples]
    · rw [SampleWindow.maxRate, SampleWindow.maxRate, hstatistics, hsettings]

/-- A bound that is learned, and one rejection before a new start. -/
def impatient : FilterSettings := { FilterSettings.standard with maxRejections := 1 }

/-- A rise by one each second, something that is not a number, a jump, and a rise from there: by one
in a second, by one in half a second, and by four in two seconds. -/
def stepUp : List (Sample Float32) :=
  [.whole 0 0, .whole 1 1, .whole 2 2, .whole 3 3, ⟨Single.zero / Single.zero, 3500000000⟩,
    .whole 4 50, .whole 5 60, .whole 6 61, ⟨Single.ofInt 62, 6500000000⟩,
    ⟨Single.ofInt 66, 8500000000⟩]

/-- The bound that the rise teaches is two per second. A window of three samples drops the oldest,
rejects the jump once and starts anew with the next sample. Three samples later it has dropped that
one too. Half a second has counted as a whole one and two seconds as two, so the rates are one and
two, and the bound is three per second. Another jump is rejected. -/
theorem shows_latest_stepUp :
    let h : WindowHistory Float32 3 := (start impatient).after stepUp
    let jump : Sample Float32 := .whole 9 90
    0 < 3 ∧ acceptedSince h.records = [.whole 5 60, .whole 6 61, ⟨Single.ofInt 62, 6500000000⟩,
        ⟨Single.ofInt 66, 8500000000⟩] ∧
      h.window.samples =
        [.whole 6 61, ⟨Single.ofInt 62, 6500000000⟩, ⟨Single.ofInt 66, 8500000000⟩] ∧
      h.window.last? = some ⟨Single.ofInt 66, 8500000000⟩ ∧
      h.window.statistics = ⟨Single.ofInt 63, Single.ofInt 7, Single.ofInt 3 / Single.ofInt 2⟩ ∧
      h.window.maxRate = Single.ofInt 3 ∧
      ∃ w', h.window.offer jump.value jump.time = .ok (false, w') ∧
        w'.samples = h.window.samples ∧ w'.maxRate = h.window.maxRate := by
  intro h jump
  obtain ⟨⟨hsamples, -⟩, hlast, ⟨hstatistics, -⟩, hrate, hrefused⟩ :=
    @shows_latest Float32 3 _ (by decide) impatient stepUp
  have hhistory : (start impatient).after stepUp = h := rfl
  rw [hhistory] at hsamples hlast hstatistics hrate hrefused
  have haccepted : acceptedSince h.records = [.whole 5 60, .whole 6 61,
      ⟨Single.ofInt 62, 6500000000⟩, ⟨Single.ofInt 66, 8500000000⟩] := by
    decide +kernel
  have hheld : h.window.samples =
      [.whole 6 61, ⟨Single.ofInt 62, 6500000000⟩, ⟨Single.ofInt 66, 8500000000⟩] := by
    rw [hsamples, haccepted]
    rfl
  rw [hheld] at hstatistics hrate
  refine ⟨by decide, haccepted, hheld, ?_, ?_, ?_, ?_⟩
  · rw [hlast, haccepted]
    rfl
  · rw [hstatistics, Statistics.of_eq (by decide)]
    decide +kernel
  · rw [hrate]
    decide +kernel
  · have hoffer := SampleWindow.offer_of_outlier (w := h.window) (s := jump) (by decide +kernel)
      (by decide +kernel) (by decide +kernel)
    rw [checkedAdd_eq_ok (by decide +kernel)] at hoffer
    obtain ⟨hsame, -, -, hrate'⟩ := hrefused jump _ hoffer
    exact ⟨_, hoffer, hsame, hrate'⟩

end WindowHistory

end Aquarium

import Aquarium.Proofs.Sampling.Latest
import Mathlib.Data.List.Chain

/-!
# A given bound holds between the samples of a window

A window compares a sample with the newest one that it holds, and with nothing when it holds too few.
So a given bound says something of the samples in store only from some number on: counted from the start
or the last new start, the samples up to that number are taken whatever they are.

* `numbered`: the accepted samples with their numbers;
* `Within`: neighbours with a number that is large enough keep to the bound. An offer keeps it so
  (`Within.meet`), and so every history does (`within_after`);
* `stored_within_bound`: the main statement.
-/

namespace Aquarium

variable {α : Type} {capacity : Nat} [Measurement α]

namespace SampleWindow

omit [Measurement α] in
theorem warmUp_le_capacity (hcapacity : 2 ≤ capacity) : warmUp capacity ≤ capacity := by
  unfold warmUp
  omega

/-- A window that holds enough samples takes one for no outlier just if it changes no faster than the
bound allows. -/
theorem accepts_iff {w : SampleWindow α capacity} {s last : Sample α}
    (hwarm : warmUp capacity ≤ w.size) (hlast : w.last? = some last) :
    w.accepts s = true ↔ changeRate s last ≤ w.maxRate := by
  have hmany : ¬ w.samples.length < warmUp capacity := Nat.not_lt.mpr hwarm
  unfold accepts
  rw [if_neg hmany, hlast]
  exact decide_eq_true_iff

end SampleWindow

namespace WindowHistory

/-! ## 1. Numbers of samples -/

/-- The samples accepted since the start or the last new start, the oldest first, with their numbers
from one. -/
def numbered (h : WindowHistory α capacity) : List (Sample α × Nat) :=
  (acceptedSince h.records).zipIdx 1

/-- Of two neighbours the newer one keeps to the bound, or has a number up to which samples are accepted
whatever they are. -/
def KeepsTo (capacity : Nat) (bound : Float32) (old new : Sample α × Nat) : Prop :=
  SampleWindow.warmUp capacity < new.2 → changeRate new.1 old.1 ≤ bound

/-- All neighbours keep to the bound. -/
def Within (bound : Float32) (h : WindowHistory α capacity) : Prop :=
  h.numbered.IsChain (KeepsTo capacity bound)

variable {settings : FilterSettings} {bound : Float32} {h : WindowHistory α capacity}

omit [Measurement α] in
/-- What a window holds are the last of the numbered samples. -/
theorem map_fst_rtake_numbered (n : Nat) :
    (h.numbered.rtake n).map Prod.fst = (acceptedSince h.records).rtake n := by
  unfold numbered List.rtake
  rw [List.map_drop, List.zipIdx_map_fst, List.length_zipIdx]

/-! ## 2. What every history keeps -/

/-- The sample that comes after others keeps to the bound if a window takes it for no outlier. -/
theorem Sound.keepsTo_of_accepts (hs : Sound settings h) (hcapacity : 2 ≤ capacity)
    (hbound : settings.sanitized.maxRate = some bound) {s last : Sample α} {n : Nat}
    (haccepts : h.window.accepts s = true) (hlast : (acceptedSince h.records).getLast? = some last) :
    KeepsTo capacity bound (last, n) (s, 1 + (acceptedSince h.records).length) := by
  intro hnumber
  have hfits := SampleWindow.warmUp_le_capacity hcapacity
  have hwarm : SampleWindow.warmUp capacity ≤ h.window.size := by
    rw [hs.size_eq]
    exact Nat.le_min.mpr ⟨hfits, Nat.lt_one_add_iff.mp hnumber⟩
  have hrate : h.window.maxRate = bound := by
    rw [hs.maxRate_eq, hbound, Option.getD_some]
  rw [← hrate, ← SampleWindow.accepts_iff hwarm (by rw [hs.last?_eq (by omega), hlast])]
  exact haccepts

/-- **An offer keeps neighbours to the bound.** The newest sample gets one neighbour, and was compared
with that; where it is a new start, it has none. -/
theorem Within.meet (hw : Within bound h) (hs : Sound settings h) (hcapacity : 2 ≤ capacity)
    (hbound : settings.sanitized.maxRate = some bound) (s : Sample α) :
    Within bound (h.meet s) := by
  have hcourse := h.window.course_offer s
  unfold WindowHistory.meet
  generalize h.window.offer s.value s.time = result at hcourse ⊢
  cases hcourse with
  | passedOver hfinite => exact hw
  | taken hfinite haccepts =>
      simp only [Within, numbered, acceptedSince, haccepts, Bool.not_true]
      rw [List.zipIdx_append, List.isChain_append]
      refine ⟨hw, List.isChain_singleton _, ?_⟩
      rintro ⟨last, n⟩ hlast new hnew
      obtain rfl : (s, 1 + (acceptedSince h.records).length) = new := Option.some.inj hnew
      rw [List.getLast?_zipIdx] at hlast
      obtain ⟨_, hnewest, ⟨⟩⟩ := Option.map_eq_some_iff.mp hlast
      exact hs.keepsTo_of_accepts hcapacity hbound haccepts hnewest
  | restarted hfinite haccepts hrestart =>
      simp only [Within, numbered, acceptedSince, haccepts, Bool.not_false]
      exact List.isChain_singleton _
  | rejected hfinite haccepts hrestart hroom => exact hw
  | abandoned hfinite haccepts hrestart hfull => exact hw

/-- **Every history keeps neighbours to the bound.** -/
theorem within_after (hcapacity : 2 ≤ capacity) (hbound : settings.sanitized.maxRate = some bound)
    (samples : List (Sample α)) :
    Within bound ((start settings : WindowHistory α capacity).after samples) := by
  suffices hafter : ∀ (h : WindowHistory α capacity), Sound settings h → Within bound h →
      Within bound (h.after samples) from
    hafter _ (sound_start settings) List.isChain_nil
  induction samples with
  | nil => exact fun _ _ hw => hw
  | cons s samples ih =>
      exact fun h hs hw => ih (h.meet s) (hs.meet s) (hw.meet hs hcapacity hbound s)

/-! ## 3. What a window holds -/

/-- **A given bound really bounds what a window holds.** After any offers, count the samples that were
accepted since the start or the last new start, this one included, from one. The window holds the last of
them. Of any two neighbours that it holds, whatever was rejected between, the newer one changes no faster
than the bound, unless its number is at most two or at most half of the capacity. -/
theorem stored_within_bound (settings : FilterSettings) {bound : Float32}
    (hbound : settings.sanitized.maxRate = some bound) (samples : List (Sample α)) :
    let h : WindowHistory α capacity := (start settings).after samples
    let stored := h.numbered.rtake capacity
    h.window.samples = stored.map Prod.fst ∧
      stored.IsChain fun old new => max 2 (capacity / 2) < new.2 → changeRate new.1 old.1 ≤ bound := by
  intro h stored
  have hs : Sound settings h := sound_after settings samples
  refine ⟨by rw [hs.samples_eq, map_fst_rtake_numbered], ?_⟩
  by_cases htwo : 2 ≤ capacity
  · rw [Nat.max_comm]
    exact (within_after htwo hbound samples).drop _
  · -- with room for one sample there are no neighbours
    have hlength : stored.length ≤ 1 := by
      rw [SampleWindow.length_rtake]
      omega
    generalize stored = pairs at hlength
    match pairs, hlength with
    | [], _ => exact List.isChain_nil
    | [_], _ => exact List.isChain_singleton _

/-- A given bound of one per second, and one rejection before a new start. -/
def brisk : FilterSettings := { FilterSettings.fixed Single.one with maxRejections := 1 }

/-- Slow changes and a jump that is rejected between them; another jump, and a new start; a sample after
it that is free; a jump back that is rejected, and slow changes again. -/
def leaps : List (Sample Float32) :=
  [.whole 0 0, .whole 1 1, .whole 2 50, .whole 3 2, .whole 4 60, .whole 5 60, .whole 6 90, .whole 7 10,
    .whole 9 92, .whole 10 91]

/-- The window has dropped the new start. The second sample after it is free, the later ones keep to one
per second. -/
theorem stored_within_bound_leaps :
    let h : WindowHistory Float32 3 := (start brisk).after leaps
    brisk.sanitized.maxRate = some Single.one ∧
      h.numbered = [(.whole 5 60, 1), (.whole 6 90, 2), (.whole 9 92, 3), (.whole 10 91, 4)] ∧
      h.window.samples = [.whole 6 90, .whole 9 92, .whole 10 91] ∧
      ¬ changeRate (.whole 6 90) (.whole 5 60 : Sample Float32) ≤ Single.one ∧
      changeRate (.whole 9 92) (.whole 6 90 : Sample Float32) ≤ Single.one ∧
      changeRate (.whole 10 91) (.whole 9 92 : Sample Float32) ≤ Single.one := by
  intro h
  have hbound : brisk.sanitized.maxRate = some Single.one := by decide +kernel
  obtain ⟨hsamples, hchain⟩ := @stored_within_bound Float32 3 _ brisk _ hbound leaps
  have hhistory : (start brisk).after leaps = h := rfl
  rw [hhistory] at hsamples hchain
  have hnumbered :
      h.numbered = [(.whole 5 60, 1), (.whole 6 90, 2), (.whole 9 92, 3), (.whole 10 91, 4)] := by
    decide +kernel
  rw [hnumbered] at hsamples hchain
  obtain ⟨hfirst, hrest⟩ := List.isChain_cons_cons.mp hchain
  obtain ⟨hsecond, -⟩ := List.isChain_cons_cons.mp hrest
  exact ⟨hbound, hnumbered, hsamples, by decide +kernel, hfirst (by decide), hsecond (by decide)⟩

end WindowHistory

end Aquarium

import Aquarium.Sampling.SampleWindow
import Mathlib.Data.List.DropRight
import Mathlib.Data.List.Infix

/-!
# A window in use, with all that was offered to it

Samples are offered to a window one after another. The history of a window notes each of them with the
answer it got, and whether the window held it for an outlier. A call that is abandoned leaves the
window as it was.

* `SampleWindow.Course`: all that an offer can do;
* `WindowHistory.meet`, `WindowHistory.after`: what one offer does to a window and its history, and
  many;
* `acceptedSince`, `rejectedInARow`: what the window has to show, and what it has to count, read off
  the records alone;
* `WindowHistory.Sound`: the window shows and counts just that. An offer keeps it so (`Sound.meet`),
  and so every history does (`sound_after`).
-/

namespace Aquarium

variable {α : Type} {capacity : Nat} [Measurement α]

/-- The value of the sample is finite; any other sample is passed over. -/
def Sample.isFinite (s : Sample α) : Bool := (Measurement.toSingle s.value).isFinite

/-- A whole number that is read at a whole second. -/
def Sample.whole (seconds value : Int) : Sample Float32 :=
  ⟨Single.ofInt value, seconds * 1000000000⟩

/-! ## 1. One offer -/

namespace SampleWindow

/-- All that an offer can do. -/
inductive Course (w : SampleWindow α capacity) (s : Sample α) :
    Except Fault (Bool × SampleWindow α capacity) → Prop where
  /-- What is not finite is passed over. -/
  | passedOver (hfinite : s.isFinite = false) : Course w s (.ok (false, w))
  /-- A sample that is no outlier is added. -/
  | taken (hfinite : s.isFinite = true) (haccepts : w.accepts s = true) :
      Course w s (.ok (true, w.push s))
  /-- An outlier is taken as a new start. -/
  | restarted (hfinite : s.isFinite = true) (haccepts : w.accepts s = false)
      (hrestart : w.mustRestart = true) :
      Course w s (.ok (true, { w with samples := [] }.push s))
  /-- An outlier is rejected and counted. -/
  | rejected (hfinite : s.isFinite = true) (haccepts : w.accepts s = false)
      (hrestart : w.mustRestart = false) (hroom : w.rejections + 1 < word32) :
      Course w s (.ok (false, { w with rejections := w.rejections + 1 }))
  /-- An outlier is to be rejected and cannot be counted any more. -/
  | abandoned (hfinite : s.isFinite = true) (haccepts : w.accepts s = false)
      (hrestart : w.mustRestart = false) (hfull : word32 ≤ w.rejections + 1) :
      Course w s (.error .addOverflow)

/-- An outlier that is no new start is rejected, if it can be counted. -/
theorem offer_of_outlier {w : SampleWindow α capacity} {s : Sample α} (hfinite : s.isFinite = true)
    (haccepts : w.accepts s = false) (hrestart : w.mustRestart = false) :
    w.offer s.value s.time = (checkedAdd w.rejections 1).map fun rejections =>
      (false, { w with rejections := rejections }) := by
  unfold offer
  rw [show (Measurement.toSingle s.value).isFinite = true from hfinite,
    show w.accepts ⟨s.value, s.time⟩ = false from haccepts, hrestart]
  rfl

theorem course_offer (w : SampleWindow α capacity) (s : Sample α) :
    Course w s (w.offer s.value s.time) := by
  cases hfinite : s.isFinite with
  | false =>
      unfold offer
      rw [show (Measurement.toSingle s.value).isFinite = false from hfinite]
      exact .passedOver hfinite
  | true =>
      cases haccepts : w.accepts s with
      | true =>
          unfold offer
          rw [show (Measurement.toSingle s.value).isFinite = true from hfinite,
            show w.accepts ⟨s.value, s.time⟩ = true from haccepts]
          exact .taken hfinite haccepts
      | false =>
          cases hrestart : w.mustRestart with
          | true =>
              unfold offer
              rw [show (Measurement.toSingle s.value).isFinite = true from hfinite,
                show w.accepts ⟨s.value, s.time⟩ = false from haccepts, hrestart]
              exact .restarted hfinite haccepts hrestart
          | false =>
              rw [offer_of_outlier hfinite haccepts hrestart]
              by_cases hroom : w.rejections + 1 < word32
              · rw [checkedAdd_eq_ok hroom]
                exact .rejected hfinite haccepts hrestart hroom
              · rw [checkedAdd_eq_error (Nat.not_lt.mp hroom)]
                exact .abandoned hfinite haccepts hrestart (Nat.not_lt.mp hroom)

omit [Measurement α] in
theorem mustRestart_iff (w : SampleWindow α capacity) :
    w.mustRestart = true ↔
      0 < w.settings.maxRejections ∧ w.settings.maxRejections ≤ w.rejections := by
  simp [mustRestart]

omit [Measurement α] in
theorem length_rtake (n : Nat) (l : List α) : (l.rtake n).length = min n l.length := by
  unfold List.rtake
  rw [List.length_drop]
  omega

/-- **A window that holds the last samples of a list holds the last ones of the list with one sample
more after that is added.** -/
theorem samples_push {w : SampleWindow α capacity} {l : List (Sample α)}
    (h : w.samples = l.rtake capacity) (s : Sample α) :
    (w.push s).samples = (l ++ [s]).rtake capacity := by
  have hlength : w.samples.length = min capacity l.length := by
    rw [h, length_rtake]
  cases capacity with
  | zero =>
      have hnil : w.samples = [] := by rw [h, List.rtake_zero]
      rw [List.rtake_zero]
      simp only [push, hnil, List.length_nil, List.drop_nil, ite_self, Nat.lt_irrefl, if_false]
  | succ n =>
      -- what is kept is the last of the list, one less than there is room for
      have hkept : (if w.samples.length = n + 1 then w.samples.drop 1 else w.samples) =
          l.rtake n := by
        rw [hlength, h]
        unfold List.rtake
        split
        · rw [List.drop_drop]
          congr 1
          omega
        · congr 1
          omega
      have hroom : (l.rtake n).length < n + 1 := by
        rw [length_rtake]
        omega
      rw [List.rtake_concat_succ]
      simp only [push, hkept, hroom, if_true]

end SampleWindow

/-! ## 2. The records of a history -/

/-- A sample that was offered. -/
structure OfferRecord (α : Type) where
  sample : Sample α
  /-- The window held it for an outlier. -/
  outlier : Bool
  answer : Except Fault Bool

/-- The samples that were accepted since the start or the last outlier that was accepted, this one
included, the oldest first. The latest record comes first. -/
def acceptedSince : List (OfferRecord α) → List (Sample α)
  | [] => []
  | r :: earlier =>
    match r.answer, r.outlier with
    | .ok true, true => [r.sample]
    | .ok true, false => acceptedSince earlier ++ [r.sample]
    | _, _ => acceptedSince earlier

/-- How many finite samples were rejected since the last one that was accepted. -/
def rejectedInARow : List (OfferRecord α) → Nat
  | [] => 0
  | r :: earlier =>
    match r.answer, r.sample.isFinite with
    | .ok true, _ => 0
    | .ok false, true => rejectedInARow earlier + 1
    | _, _ => rejectedInARow earlier

/-- A window and all that was offered to it, the latest first. -/
structure WindowHistory (α : Type) (capacity : Nat) where
  window : SampleWindow α capacity
  records : List (OfferRecord α)

namespace WindowHistory

/-- Nothing has been offered yet. -/
def start (settings : FilterSettings) : WindowHistory α capacity := ⟨.new settings, []⟩

/-- After an offer. -/
def meet (h : WindowHistory α capacity) (s : Sample α) : WindowHistory α capacity :=
  let outlier := !h.window.accepts s
  match h.window.offer s.value s.time with
  | .ok (answer, window) => ⟨window, ⟨s, outlier, .ok answer⟩ :: h.records⟩
  | .error fault => ⟨h.window, ⟨s, outlier, .error fault⟩ :: h.records⟩

/-- After one offer and another. -/
def after (h : WindowHistory α capacity) (samples : List (Sample α)) : WindowHistory α capacity :=
  samples.foldl meet h

/-! ## 3. What every history keeps -/

/-- The window shows what its records say, and its count is theirs. -/
structure Sound (settings : FilterSettings) (h : WindowHistory α capacity) : Prop where
  settings_eq : h.window.settings = settings.sanitized
  samples_eq : h.window.samples = (acceptedSince h.records).rtake capacity
  statistics_eq : h.window.statistics = .of h.window.samples
  rejections_eq : h.window.rejections = rejectedInARow h.records
  rejections_lt : h.window.rejections < word32
  /-- Where there is a limit, no more are rejected in a row. -/
  rejections_le : 0 < settings.maxRejections → h.window.rejections ≤ settings.maxRejections

theorem sound_start (settings : FilterSettings) :
    Sound settings (start settings : WindowHistory α capacity) where
  settings_eq := rfl
  samples_eq := (List.rtake_nil capacity).symm
  statistics_eq := rfl
  rejections_eq := rfl
  rejections_lt := (by decide : 0 < word32)
  rejections_le _ := Nat.zero_le _

variable {settings : FilterSettings} {h : WindowHistory α capacity}

/-- **An offer keeps a history sound.** -/
theorem Sound.meet (hs : Sound settings h) (s : Sample α) : Sound settings (h.meet s) := by
  have hmax : h.window.settings.maxRejections = settings.maxRejections := by
    rw [hs.settings_eq]
    rfl
  have hcourse := h.window.course_offer s
  unfold WindowHistory.meet
  generalize h.window.offer s.value s.time = result at hcourse ⊢
  cases hcourse with
  | passedOver hfinite =>
      refine ⟨hs.settings_eq, hs.samples_eq, hs.statistics_eq, ?_, hs.rejections_lt,
        hs.rejections_le⟩
      simp only [rejectedInARow, hfinite]
      exact hs.rejections_eq
  | taken hfinite haccepts =>
      refine ⟨hs.settings_eq, ?_, rfl, rfl, (by decide : 0 < word32), fun _ => Nat.zero_le _⟩
      simp only [acceptedSince, haccepts, Bool.not_true]
      exact SampleWindow.samples_push hs.samples_eq s
  | restarted hfinite haccepts hrestart =>
      refine ⟨hs.settings_eq, ?_, rfl, rfl, (by decide : 0 < word32), fun _ => Nat.zero_le _⟩
      simp only [acceptedSince, haccepts, Bool.not_false]
      exact SampleWindow.samples_push (l := []) (List.rtake_nil capacity).symm s
  | rejected hfinite haccepts hrestart hroom =>
      refine ⟨hs.settings_eq, hs.samples_eq, hs.statistics_eq, ?_, hroom, fun hpos => ?_⟩
      · simp only [rejectedInARow, hfinite]
        exact congrArg (· + 1) hs.rejections_eq
      · rw [← Bool.not_eq_true, SampleWindow.mustRestart_iff, hmax] at hrestart
        show h.window.rejections + 1 ≤ settings.maxRejections
        omega
  | abandoned hfinite haccepts hrestart hfull =>
      exact ⟨hs.settings_eq, hs.samples_eq, hs.statistics_eq, hs.rejections_eq, hs.rejections_lt,
        hs.rejections_le⟩

theorem Sound.after (hs : Sound settings h) (samples : List (Sample α)) :
    Sound settings (h.after samples) := by
  induction samples generalizing h with
  | nil => exact hs
  | cons s samples ih => exact ih (hs.meet s)

/-- **Every history is sound.** -/
theorem sound_after (settings : FilterSettings) (samples : List (Sample α)) :
    Sound settings ((start settings : WindowHistory α capacity).after samples) :=
  (sound_start settings).after samples

end WindowHistory

end Aquarium

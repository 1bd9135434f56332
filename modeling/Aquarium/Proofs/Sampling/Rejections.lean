import Aquarium.Proofs.Sampling.Latest

/-!
# How many samples are rejected in a row

Where a window has a limit for rejections in a row, an outlier that comes after so many of them is taken
as a new start. Where it has none, rejections are counted all the same, until the count leaves its
word.

* `SampleWindow.CutDownBy`: an offer after which the window holds the new sample alone, although it
  held more before; `Sound.cutDownBy_iff` tells when this happens;
* `rejectedInARow_append`: samples that are all rejected add to the count;
* `accepts_in_every_block`: the main statement on windows with a limit;
* `after_replicate`: without a limit, an outlier that is offered again and again changes the count alone;
* `Sound.offer_eq_error_iff`, `offer_fails_iff`: the one way in which an offer can fail;
* `exists_offer_fails`: jumps that lead there.
-/

namespace Aquarium

variable {α : Type} {capacity : Nat} [Measurement α]

/-! ## 1. New starts -/

namespace SampleWindow

/-- Offering the sample leaves it alone in the window, which held more before. -/
def CutDownBy (w : SampleWindow α capacity) (s : Sample α) : Prop :=
  1 < w.size ∧ ∃ w', w.offer s.value s.time = .ok (true, w') ∧ w'.samples = [s]

/-- Only a window that holds a few samples has outliers. -/
theorem warmUp_le_size {w : SampleWindow α capacity} {s : Sample α} (h : w.accepts s = false) :
    warmUp capacity ≤ w.size := by
  unfold accepts at h
  split at h
  · cases h
  · rename_i hsize
    exact Nat.not_lt.mp hsize

omit [Measurement α] in
theorem mustRestart_of_never {w : SampleWindow α capacity}
    (hnever : w.settings.maxRejections = 0) : w.mustRestart = false := by
  rw [← Bool.not_eq_true, mustRestart_iff]
  omega

/-- An outlier is taken where too many were rejected in a row. -/
theorem offer_of_mustRestart {w : SampleWindow α capacity} {s : Sample α}
    (hfinite : s.isFinite = true) (haccepts : w.accepts s = false) (hrestart : w.mustRestart = true) :
    w.offer s.value s.time = .ok (true, { w with samples := [] }.push s) := by
  have hcourse := w.course_offer s
  generalize w.offer s.value s.time = answer at hcourse ⊢
  cases hcourse with
  | passedOver h => cases hfinite.symm.trans h
  | taken _ h => cases haccepts.symm.trans h
  | restarted _ _ _ => rfl
  | rejected _ _ h _ => cases hrestart.symm.trans h
  | abandoned _ _ h _ => cases hrestart.symm.trans h

end SampleWindow

namespace WindowHistory

variable {settings : FilterSettings} {h : WindowHistory α capacity}

theorem Sound.mustRestart_iff (hs : Sound settings h) :
    h.window.mustRestart = true ↔
      0 < settings.maxRejections ∧ rejectedInARow h.records = settings.maxRejections := by
  have hle := hs.rejections_le
  rw [SampleWindow.mustRestart_iff, hs.settings_eq, ← hs.rejections_eq]
  show 0 < settings.maxRejections ∧ settings.maxRejections ≤ _ ↔ _
  omega

/-- **A window is cut down to a new sample just if that is an outlier and as many finite samples as the
limit says were rejected before it**, none being accepted between. -/
theorem Sound.cutDownBy_iff (hs : Sound settings h) (s : Sample α) :
    h.window.CutDownBy s ↔
      s.isFinite = true ∧ h.window.accepts s = false ∧ 0 < settings.maxRejections ∧
        rejectedInARow h.records = settings.maxRejections := by
  rw [← hs.mustRestart_iff]
  constructor
  · rintro ⟨hsize, w', hoffer, hsamples⟩
    have hcourse := h.window.course_offer s
    rw [hoffer] at hcourse
    cases hcourse with
    | taken hfinite haccepts =>
        -- the window keeps all samples but one at most, and gains one
        have hlength := congrArg List.length hsamples
        rw [SampleWindow.samples_push hs.samples_eq, SampleWindow.length_rtake, List.length_append,
          List.length_singleton] at hlength
        rw [hs.size_eq] at hsize
        omega
    | restarted hfinite haccepts hrestart => exact ⟨hfinite, haccepts, hrestart⟩
  · rintro ⟨hfinite, haccepts, hrestart⟩
    have hwarm := SampleWindow.warmUp_le_size haccepts
    have hsize := hs.size_eq
    unfold SampleWindow.warmUp at hwarm
    obtain ⟨n, rfl⟩ : ∃ n, capacity = n + 1 := ⟨capacity - 1, by omega⟩
    refine ⟨by omega, _, SampleWindow.offer_of_mustRestart hfinite haccepts hrestart, ?_⟩
    rw [SampleWindow.samples_push (l := []) (List.rtake_nil (n + 1)).symm s,
      List.rtake_concat_succ, List.rtake_nil]
    rfl

/-! ## 2. Failing -/

/-- **An offer fails just if its sample is an outlier, there is no limit, and as many samples were
rejected in a row as a word can count.** -/
theorem Sound.offer_eq_error_iff (hs : Sound settings h) (hword : settings.maxRejections < word32)
    (s : Sample α) :
    (∃ fault, h.window.offer s.value s.time = .error fault) ↔
      s.isFinite = true ∧ h.window.accepts s = false ∧ settings.maxRejections = 0 ∧
        rejectedInARow h.records = word32 - 1 := by
  have hlt := hs.rejections_lt
  have hrestart_iff := hs.mustRestart_iff
  rw [← hs.rejections_eq] at *
  constructor
  · rintro ⟨fault, hoffer⟩
    have hcourse := h.window.course_offer s
    rw [hoffer] at hcourse
    cases hcourse with
    | abandoned hfinite haccepts hrestart hfull =>
        rw [← Bool.not_eq_true, hrestart_iff] at hrestart
        have hle := hs.rejections_le
        exact ⟨hfinite, haccepts, by omega, by omega⟩
  · rintro ⟨hfinite, haccepts, hnever, hcount⟩
    have hrestart : h.window.mustRestart = false := by
      rw [← Bool.not_eq_true, hrestart_iff]
      omega
    refine ⟨.addOverflow, ?_⟩
    rw [SampleWindow.offer_of_outlier hfinite haccepts hrestart, checkedAdd_eq_error (by omega)]
    rfl

/-! ## 3. Windows with a limit -/

theorem after_append (h : WindowHistory α capacity) (earlier later : List (Sample α)) :
    h.after (earlier ++ later) = (h.after earlier).after later :=
  List.foldl_append

/-- An offer adds one record to a history. -/
theorem exists_record (h : WindowHistory α capacity) (s : Sample α) :
    ∃ r, (h.meet s).records = r :: h.records := by
  unfold meet
  split
  · exact ⟨_, rfl⟩
  · exact ⟨_, rfl⟩

/-- The records up to some offer are those of an earlier history. -/
theorem exists_after_of_suffix {rest : List (OfferRecord α)} (samples : List (Sample α))
    (hrest : rest <:+ ((start settings : WindowHistory α capacity).after samples).records) :
    ∃ earlier, ((start settings : WindowHistory α capacity).after earlier).records = rest := by
  induction samples using List.reverseRecOn with
  | nil => exact ⟨[], (List.suffix_nil.mp hrest).symm⟩
  | append_singleton samples s ih =>
      rw [after_append] at hrest
      obtain ⟨r, hr⟩ := exists_record ((start settings : WindowHistory α capacity).after samples) s
      change rest <:+ (meet _ s).records at hrest
      rw [hr, List.suffix_cons_iff] at hrest
      rcases hrest with rfl | hrest
      · exact ⟨samples ++ [s], by rw [after_append]; exact hr⟩
      · exact ih hrest

/-- Where there is a limit, every offer is answered. -/
theorem exists_answer (hlimit : 0 < settings.maxRejections) (hword : settings.maxRejections < word32)
    (samples : List (Sample α)) :
    ∀ r ∈ ((start settings : WindowHistory α capacity).after samples).records,
      ∃ answer, r.answer = .ok answer := by
  induction samples using List.reverseRecOn with
  | nil => exact fun r hr => absurd hr List.not_mem_nil
  | append_singleton samples s ih =>
      have hs : Sound settings ((start settings : WindowHistory α capacity).after samples) :=
        sound_after settings samples
      rw [after_append]
      change ∀ r ∈ (meet _ s).records, _
      unfold meet
      split
      · exact List.forall_mem_cons.mpr ⟨⟨_, rfl⟩, ih⟩
      · rename_i fault hoffer
        obtain ⟨-, -, hnever, -⟩ := (hs.offer_eq_error_iff hword s).mp ⟨fault, hoffer⟩
        omega

/-- Finite samples that are all rejected add to those that were rejected in a row before. -/
theorem rejectedInARow_append {block : List (OfferRecord α)}
    (hblock : ∀ r ∈ block, r.answer = .ok false) (rest : List (OfferRecord α)) :
    rejectedInARow (block ++ rest) =
      (block.filter (·.sample.isFinite)).length + rejectedInARow rest := by
  induction block with
  | nil => exact (Nat.zero_add _).symm
  | cons r block ih =>
      obtain ⟨hr, hblock⟩ := List.forall_mem_cons.mp hblock
      rw [List.cons_append, rejectedInARow, hr, ih hblock]
      cases hfinite : r.sample.isFinite with
      | true =>
          simp only [List.filter_cons, hfinite, if_true, List.length_cons]
          exact Nat.add_right_comm _ _ 1
      | false => simp only [List.filter_cons, hfinite, Bool.false_eq_true, if_false]

/-- **A window with a limit cannot be wedged.** Among any samples offered one after another with more
finite ones than the limit, one is accepted. And an offer cuts the window down to its sample just if
that is an outlier and, since the last sample that was accepted, just as many finite ones were rejected
as the limit says; so without a limit this never happens. -/
theorem accepts_in_every_block (settings : FilterSettings)
    (hword : settings.maxRejections < word32) (samples : List (Sample α)) :
    let h : WindowHistory α capacity := (start settings).after samples
    (0 < settings.maxRejections → ∀ block, block <:+: h.records →
      settings.maxRejections < (block.filter (·.sample.isFinite)).length →
        ∃ r ∈ block, r.answer = .ok true) ∧
    ∀ s : Sample α, h.window.CutDownBy s ↔
      s.isFinite = true ∧ h.window.accepts s = false ∧ 0 < settings.maxRejections ∧
        rejectedInARow h.records = settings.maxRejections := by
  intro h
  refine ⟨fun hlimit block hblock hmany => ?_, (sound_after settings samples).cutDownBy_iff⟩
  by_contra hnone
  obtain ⟨later, rest, hrecords⟩ := hblock
  have hrejected : ∀ r ∈ block, r.answer = .ok false := by
    intro r hr
    have hmem : r ∈ h.records := by
      rw [← hrecords]
      exact List.mem_append_left _ (List.mem_append_right _ hr)
    obtain ⟨answer, hanswer⟩ := exists_answer hlimit hword samples r hmem
    cases answer with
    | false => exact hanswer
    | true => exact absurd ⟨r, hr, hanswer⟩ hnone
  obtain ⟨earlier, hearlier⟩ := exists_after_of_suffix samples
    (show block ++ rest <:+ h.records from ⟨later, by rw [← hrecords, List.append_assoc]⟩)
  have hs : Sound settings ((start settings : WindowHistory α capacity).after earlier) :=
    sound_after settings earlier
  have hle := hs.rejections_le hlimit
  rw [hs.rejections_eq, hearlier, rejectedInARow_append hrejected] at hle
  omega

/-- The jump is rejected once and then taken as a new start. -/
theorem accepts_in_every_block_stepUp :
    let before : WindowHistory Float32 3 := (start impatient).after (stepUp.take 6)
    let h : WindowHistory Float32 3 := (start impatient).after (stepUp.take 7)
    let block := h.records.take 2
    impatient.maxRejections < word32 ∧ before.window.CutDownBy (.whole 5 60) ∧
      (block <:+: h.records ∧ impatient.maxRejections < (block.filter (·.sample.isFinite)).length) ∧
      ∃ r ∈ block, r.answer = .ok true := by
  intro before h block
  have hword : impatient.maxRejections < word32 := by decide
  have hcut := (@accepts_in_every_block Float32 3 _ impatient hword (stepUp.take 6)).2 (.whole 5 60)
  have hblock := (@accepts_in_every_block Float32 3 _ impatient hword (stepUp.take 7)).1
  have hbefore : (start impatient).after (stepUp.take 6) = before := rfl
  have hhistory : (start impatient).after (stepUp.take 7) = h := rfl
  rw [hbefore] at hcut
  rw [hhistory] at hblock
  have hwithin : block <:+: h.records := (List.take_prefix 2 h.records).isInfix
  have hmany : impatient.maxRejections < (block.filter (·.sample.isFinite)).length := by
    decide +kernel
  exact ⟨hword, hcut.mpr (by decide +kernel), ⟨hwithin, hmany⟩,
    hblock (by decide) block hwithin hmany⟩

/-! ## 4. Windows without a limit -/

/-- **Without a limit, an outlier that is offered again and again is rejected each time and nothing
changes but the count**, as long as that fits into its word. -/
theorem after_replicate {s : Sample α} (hnever : h.window.settings.maxRejections = 0)
    (hfinite : s.isFinite = true) (haccepts : h.window.accepts s = false) (n : Nat)
    (hroom : h.window.rejections + n < word32) :
    (h.after (List.replicate n s)).window =
      { h.window with rejections := h.window.rejections + n } := by
  induction n with
  | zero => rfl
  | succ n ih =>
      have hwindow := ih (by omega)
      have hcount : (h.after (List.replicate n s)).window.rejections = h.window.rejections + n := by
        rw [hwindow]
      -- neither test reads the count, for there is no limit
      have hoffer := SampleWindow.offer_of_outlier (w := (h.after (List.replicate n s)).window)
        hfinite (by rw [hwindow]; exact haccepts)
        (SampleWindow.mustRestart_of_never (by rw [hwindow]; exact hnever))
      rw [hcount, checkedAdd_eq_ok (show h.window.rejections + n + 1 < word32 from hroom)] at hoffer
      rw [List.replicate_succ', after_append]
      change (meet _ s).window = _
      unfold meet
      rw [hoffer, hwindow]
      rfl

/-- **No offer fails but for one reason.** The count of rejections always fits into its word. After
any offers, one more fails just if its sample is an outlier, no limit is set, and 2³² - 1 finite
samples were rejected since the last one that was accepted. -/
theorem offer_fails_iff (settings : FilterSettings) (hword : settings.maxRejections < word32)
    (samples : List (Sample α)) (s : Sample α) :
    let h : WindowHistory α capacity := (start settings).after samples
    h.window.rejections < word32 ∧
      ((∃ fault, h.window.offer s.value s.time = .error fault) ↔
        s.isFinite = true ∧ h.window.accepts s = false ∧ settings.maxRejections = 0 ∧
          rejectedInARow h.records = word32 - 1) := by
  intro h
  have hs : Sound settings h := sound_after settings samples
  exact ⟨hs.rejections_lt, hs.offer_eq_error_iff hword s⟩

/-- A given bound of one per second, and no new starts. -/
def stubborn : FilterSettings := { FilterSettings.fixed Single.one with maxRejections := 0 }

/-- Two samples of zero. -/
def quiet : List (Sample Float32) := [.whole 0 0, .whole 1 0]

/-- A jump against `quiet`. -/
def jump : Sample Float32 := .whole 2 100

/-- A window of two to which `quiet` and then as many jumps as given were offered. -/
def jumping (n : Nat) : WindowHistory Float32 2 :=
  (start stubborn).after (quiet ++ List.replicate n jump)

/-- Jumps are all rejected, and counted. -/
theorem window_jumping {n : Nat} (hroom : n < word32) :
    (jumping n).window = ⟨stubborn, quiet, .none, n⟩ := by
  have hquiet : ((start stubborn).after quiet).window =
      (⟨stubborn, quiet, .none, 0⟩ : SampleWindow Float32 2) := by
    decide +kernel
  unfold jumping
  rw [after_append, after_replicate (by rw [hquiet]; rfl) (by decide +kernel) (by decide +kernel) n
    (by rw [hquiet, Nat.zero_add]; exact hroom), hquiet, Nat.zero_add]

/-- The third jump is rejected like the two before it. After as many as a word can count, one more
fails. -/
theorem offer_fails_iff_jump :
    stubborn.maxRejections < word32 ∧
      (¬ ∃ fault, (jumping 2).window.offer jump.value jump.time = .error fault) ∧
      ∃ fault, (jumping (word32 - 1)).window.offer jump.value jump.time = .error fault := by
  have hword : stubborn.maxRejections < word32 := by decide
  have hsound : ∀ n, Sound stubborn (jumping n) := fun n => sound_after stubborn _
  have hfails : ∀ n, (∃ fault, (jumping n).window.offer jump.value jump.time = .error fault) ↔
      jump.isFinite = true ∧ (jumping n).window.accepts jump = false ∧ stubborn.maxRejections = 0 ∧
        rejectedInARow (jumping n).records = word32 - 1 :=
    fun n => (@offer_fails_iff Float32 2 _ stubborn hword (quiet ++ List.replicate n jump) jump).2
  have hlast : word32 - 1 < word32 := by decide
  refine ⟨hword, fun hfault => ?_, (hfails _).mpr ⟨by decide +kernel, ?_, rfl, ?_⟩⟩
  · obtain ⟨-, -, -, hcount⟩ := (hfails 2).mp hfault
    rw [← (hsound 2).rejections_eq, window_jumping (by decide)] at hcount
    exact absurd hcount (by decide)
  · rw [window_jumping hlast]
    decide +kernel
  · rw [← (hsound _).rejections_eq, window_jumping hlast]

/-- **Without a limit the count leaves its word.** A jump is rejected as often as a word can count, and
offering it once more fails. -/
theorem exists_offer_fails :
    stubborn.maxRejections < word32 ∧
      (jumping (word32 - 1)).window.offer jump.value jump.time = .error .addOverflow := by
  have hlast : word32 - 1 < word32 := by decide
  have hfull : checkedAdd (word32 - 1) 1 = .error .addOverflow := checkedAdd_eq_error (by decide)
  refine ⟨by decide, ?_⟩
  rw [window_jumping hlast, SampleWindow.offer_of_outlier (by decide +kernel) (by decide +kernel)
    (SampleWindow.mustRestart_of_never rfl)]
  show Except.map _ (checkedAdd (word32 - 1) 1) = _
  rw [hfull]
  rfl

end WindowHistory

end Aquarium

import Aquarium.Proofs.Number.Single
import Aquarium.Settings.Basic

/-!
# Bringing settings into their usable range

Every setting has a range of its own. Sanitizing mends the settings one by one: a setting that is
out of its range is brought into it, and one that is in its range stays as it is.

* `Mended`: what becomes of one setting;
* `mended_clamp`, `mended_atLeast`: numbers between bounds, and floating point numbers from a bound
  on;
* `FilterSettings.Mended` and its like: what becomes of a section, a line for each setting;
* `Settings.sanitize_eq`: sanitizing does not fail;
* `Settings.sanitize_mends`: the main statement.
-/

namespace Aquarium

/-! ## 1. One setting -/

/-- A setting is in its range afterwards, and is the same as before if it was in it. -/
structure Mended {α : Type} (range : α → Prop) (before after : α) : Prop where
  lands : range after
  leaves : range before → after = before

/-- The numbers between two bounds. -/
def Between (lo hi n : Nat) : Prop := lo ≤ n ∧ n ≤ hi

instance (lo hi n : Nat) : Decidable (Between lo hi n) := inferInstanceAs (Decidable (_ ∧ _))

theorem mended_clamp {lo hi : Nat} (h : lo ≤ hi) (n : Nat) :
    Mended (Between lo hi) n (clampNat n lo hi) where
  lands := ⟨Nat.le_min.mpr ⟨Nat.le_max_right n lo, h⟩, Nat.min_le_right _ hi⟩
  leaves hn := by rw [clampNat, Nat.max_eq_left hn.1, Nat.min_eq_left hn.2]

theorem mended_max (lo n : Nat) : Mended (lo ≤ ·) n (max n lo) where
  lands := Nat.le_max_right n lo
  leaves hn := Nat.max_eq_left hn

/-- The finite numbers from a bound on. -/
def AtLeast (lo x : Float32) : Prop := x.isFinite = true ∧ lo ≤ x

instance (lo x : Float32) : Decidable (AtLeast lo x) := inferInstanceAs (Decidable (_ ∧ _))

theorem atLeast_iff {lo x : Float32} (hlo : AtLeast lo lo) :
    AtLeast lo x ↔ ¬ (!x.isFinite || decide (x < lo)) = true := by
  cases hx : x.isFinite with
  | false => simp [AtLeast, hx]
  | true =>
    have hnumber := Single.isNaN_of_isFinite hx
    simp [AtLeast, hx, Single.not_lt_iff hnumber (Single.isNaN_of_isFinite hlo.1)]

theorem mended_atLeast {lo : Float32} (hlo : AtLeast lo lo) (x : Float32) :
    Mended (AtLeast lo) x (if !x.isFinite || x < lo then lo else x) where
  lands := by
    split
    · exact hlo
    · rename_i hx
      exact (atLeast_iff hlo).mpr hx
  leaves hx := if_neg ((atLeast_iff hlo).mp hx)

/-! ## 2. The sections -/

namespace FilterSettings

/-- What becomes of the tuning of a filter. A bound that is given is a finite number from zero on. -/
structure Mended (s s' : FilterSettings) : Prop where
  maxRate : Aquarium.Mended (fun bound => ∀ x, bound = some x → AtLeast Single.zero x)
    s.maxRate s'.maxRate
  multiplier : Aquarium.Mended (AtLeast Single.one) s.multiplier s'.multiplier
  minRate : Aquarium.Mended (AtLeast Single.zero) s.minRate s'.minRate
  maxRejections : s'.maxRejections = s.maxRejections

/-- Every setting is in its range. -/
structure Usable (s : FilterSettings) : Prop where
  maxRate : ∀ x, s.maxRate = some x → AtLeast Single.zero x
  multiplier : AtLeast Single.one s.multiplier
  minRate : AtLeast Single.zero s.minRate

variable {s s' : FilterSettings}

theorem Mended.usable (h : s.Mended s') : s'.Usable :=
  ⟨h.maxRate.lands, h.multiplier.lands, h.minRate.lands⟩

theorem Mended.eq_self (h : s.Mended s') (hs : s.Usable) : s' = s := by
  obtain ⟨maxRate, multiplier, minRate, maxRejections⟩ := s'
  cases h.maxRate.leaves hs.maxRate
  cases h.multiplier.leaves hs.multiplier
  cases h.minRate.leaves hs.minRate
  cases h.maxRejections
  rfl

theorem mended_sanitized (s : FilterSettings) : s.Mended s.sanitized where
  maxRate := by
    constructor
    case lands =>
      intro x hx
      obtain ⟨-, hrange⟩ := Option.filter_eq_some_iff.mp hx
      simpa [AtLeast] using hrange
    case leaves =>
      intro hrange
      cases hgiven : s.maxRate with
      | none => simp only [sanitized, hgiven, Option.filter_none]
      | some x =>
        have hx : AtLeast Single.zero x := hrange x hgiven
        simp only [sanitized, hgiven]
        exact Option.filter_some_pos (by simpa [AtLeast] using hx)
  multiplier := mended_atLeast (by decide) s.multiplier
  minRate := mended_atLeast (by decide) s.minRate
  maxRejections := rfl

end FilterSettings

namespace PoolSettings

/-- What becomes of the waits of the worker. The range of the second one depends on what became of
the first. -/
structure Mended (s s' : PoolSettings) : Prop where
  maxWait : Aquarium.Mended (Between 100 60000) s.maxWait s'.maxWait
  idleWait : Aquarium.Mended (Between 10 s'.maxWait) s.idleWait s'.idleWait

/-- Every setting is in its range. -/
structure Usable (s : PoolSettings) : Prop where
  maxWait : Between 100 60000 s.maxWait
  idleWait : Between 10 s.maxWait s.idleWait

variable {s s' : PoolSettings}

theorem Mended.usable (h : s.Mended s') : s'.Usable := ⟨h.maxWait.lands, h.idleWait.lands⟩

theorem Mended.eq_self (h : s.Mended s') (hs : s.Usable) : s' = s := by
  obtain ⟨idleWait, maxWait⟩ := s'
  cases h.maxWait.leaves hs.maxWait
  cases h.idleWait.leaves hs.idleWait
  rfl

theorem ten_le_maxWait (n : Nat) : 10 ≤ clampNat n 100 60000 :=
  Nat.le_trans (by decide) (mended_clamp (show 100 ≤ 60000 by decide) n).lands.1

theorem mended_sanitized (s : PoolSettings) : s.Mended s.sanitized where
  maxWait := mended_clamp (by decide) s.maxWait
  idleWait := mended_clamp (ten_le_maxWait s.maxWait) s.idleWait

/-- The upper bound of the second wait is never below its lower one. -/
theorem sanitize_eq (s : PoolSettings) : s.sanitize = .ok s.sanitized := by
  have hfirst : checkedClamp s.maxWait 100 60000 = .ok (clampNat s.maxWait 100 60000) := rfl
  have hsecond : checkedClamp s.idleWait 10 (clampNat s.maxWait 100 60000) =
      .ok (clampNat s.idleWait 10 (clampNat s.maxWait 100 60000)) :=
    if_pos (ten_le_maxWait s.maxWait)
  rw [sanitize, hfirst]
  show (do let idleWait ← checkedClamp _ _ _; _) = _
  rw [hsecond]
  rfl

end PoolSettings

namespace SensorSettings

/-- What becomes of a sensor. -/
structure Mended (s s' : SensorSettings) : Prop where
  enabled : s'.enabled = s.enabled
  interval : Aquarium.Mended (Between 100 3600000) s.interval s'.interval
  filter : s.filter.Mended s'.filter

/-- Every setting is in its range. -/
structure Usable (s : SensorSettings) : Prop where
  interval : Between 100 3600000 s.interval
  filter : s.filter.Usable

variable {s s' : SensorSettings}

theorem Mended.usable (h : s.Mended s') : s'.Usable := ⟨h.interval.lands, h.filter.usable⟩

theorem Mended.eq_self (h : s.Mended s') (hs : s.Usable) : s' = s := by
  obtain ⟨enabled, interval, filter⟩ := s'
  cases h.enabled
  cases h.interval.leaves hs.interval
  cases h.filter.eq_self hs.filter
  rfl

theorem mended_sanitized (s : SensorSettings) : s.Mended s.sanitized where
  enabled := rfl
  interval := mended_clamp (by decide) s.interval
  filter := s.filter.mended_sanitized

theorem sanitize_eq (s : SensorSettings) : s.sanitize = .ok s.sanitized := rfl

end SensorSettings

namespace LightSettings

/-- What becomes of the light outputs. The names that are given stay as far as there are channels,
and after them come default names. -/
structure Mended (channels : Nat) (s s' : LightSettings) : Prop where
  interval : Aquarium.Mended (Between 100 3600000) s.interval s'.interval
  transition : s'.transition = s.transition
  channelNames : Aquarium.Mended (·.length = channels) s.channelNames s'.channelNames
  namesKept : s.channelNames.take channels <+: s'.channelNames
  namesAdded : ∀ channel, s.channelNames.length ≤ channel → channel < channels →
    s'.channelNames[channel]? = some (defaultChannelName channel)
  saveInterval : Aquarium.Mended (1000 ≤ ·) s.saveInterval s'.saveInterval

/-- Every setting is in its range. -/
structure Usable (channels : Nat) (s : LightSettings) : Prop where
  interval : Between 100 3600000 s.interval
  channelNames : s.channelNames.length = channels
  saveInterval : 1000 ≤ s.saveInterval

variable {channels : Nat} {s s' : LightSettings}

theorem Mended.usable (h : s.Mended channels s') : s'.Usable channels :=
  ⟨h.interval.lands, h.channelNames.lands, h.saveInterval.lands⟩

theorem Mended.eq_self (h : s.Mended channels s') (hs : s.Usable channels) : s' = s := by
  obtain ⟨interval, transition, channelNames, saveInterval⟩ := s'
  cases h.interval.leaves hs.interval
  cases h.transition
  cases h.channelNames.leaves hs.channelNames
  cases h.saveInterval.leaves hs.saveInterval
  rfl

theorem length_sanitizedNames (channels : Nat) (names : List String) :
    (sanitizedNames channels names).length = channels := by
  simp only [sanitizedNames, List.length_append, List.length_take, List.length_map,
    List.length_range']
  omega

theorem sanitizedNames_eq_self {names : List String} (h : names.length = channels) :
    sanitizedNames channels names = names := by
  simp [sanitizedNames, ← h]

theorem getElem?_sanitizedNames {names : List String} {channel : Nat}
    (hle : names.length ≤ channel) (hlt : channel < channels) :
    (sanitizedNames channels names)[channel]? = some (defaultChannelName channel) := by
  have hgiven : (names.take channels).length = names.length := by
    rw [List.length_take, Nat.min_eq_right (by omega)]
  rw [sanitizedNames, List.getElem?_append_right (by omega), hgiven, List.getElem?_map,
    List.getElem?_range' (by omega), Option.map_some, Nat.one_mul, Nat.add_sub_cancel' hle]

theorem mended_sanitized (channels : Nat) (s : LightSettings) :
    s.Mended channels (s.sanitized channels) where
  interval := mended_clamp (by decide) s.interval
  transition := rfl
  channelNames := ⟨length_sanitizedNames channels s.channelNames, sanitizedNames_eq_self⟩
  namesKept := List.prefix_append _ _
  namesAdded _ hle hlt := getElem?_sanitizedNames hle hlt
  saveInterval := mended_max 1000 s.saveInterval

theorem sanitize_eq (channels : Nat) (s : LightSettings) :
    s.sanitize channels = .ok (s.sanitized channels) := rfl

end LightSettings

/-! ## 3. All settings -/

namespace Settings

/-- What becomes of all settings. -/
structure Mended (channels : Nat) (s s' : Settings) : Prop where
  timezone : Aquarium.Mended (isBlankText · = false) s.timezone s'.timezone
  httpPort : Aquarium.Mended (· ≠ 0) s.httpPort s'.httpPort
  pool : s.pool.Mended s'.pool
  temperature : s.temperature.Mended s'.temperature
  scale : s.scale.Mended s'.scale
  lights : s.lights.Mended channels s'.lights

/-- Every setting is in its range. -/
structure Usable (channels : Nat) (s : Settings) : Prop where
  timezone : isBlankText s.timezone = false
  httpPort : s.httpPort ≠ 0
  pool : s.pool.Usable
  temperature : s.temperature.Usable
  scale : s.scale.Usable
  lights : s.lights.Usable channels

variable {channels : Nat} {s s' : Settings}

theorem Mended.usable (h : s.Mended channels s') : s'.Usable channels :=
  ⟨h.timezone.lands, h.httpPort.lands, h.pool.usable, h.temperature.usable, h.scale.usable,
    h.lights.usable⟩

theorem Mended.eq_self (h : s.Mended channels s') (hs : s.Usable channels) : s' = s := by
  obtain ⟨timezone, httpPort, pool, temperature, scale, lights⟩ := s'
  cases h.timezone.leaves hs.timezone
  cases h.httpPort.leaves hs.httpPort
  cases h.pool.eq_self hs.pool
  cases h.temperature.eq_self hs.temperature
  cases h.scale.eq_self hs.scale
  cases h.lights.eq_self hs.lights
  rfl

theorem mended_sanitized (channels : Nat) (s : Settings) :
    s.Mended channels (s.sanitized channels) where
  timezone := by
    simp only [sanitized]
    by_cases hblank : isBlankText s.timezone = true
    · rw [if_pos hblank]
      exact ⟨by decide, fun h => absurd hblank (by simp [h])⟩
    · rw [if_neg hblank]
      exact ⟨Bool.eq_false_iff.mpr hblank, fun _ => rfl⟩
  httpPort := by
    simp only [sanitized]
    by_cases hzero : s.httpPort = 0
    · rw [if_pos hzero]
      exact ⟨by decide, fun h => absurd hzero h⟩
    · rw [if_neg hzero]
      exact ⟨hzero, fun _ => rfl⟩
  pool := s.pool.mended_sanitized
  temperature := s.temperature.mended_sanitized
  scale := s.scale.mended_sanitized
  lights := s.lights.mended_sanitized channels

/-- **Sanitizing does not fail.** -/
theorem sanitize_eq (channels : Nat) (s : Settings) :
    s.sanitize channels = .ok (s.sanitized channels) := by
  rw [sanitize, s.pool.sanitize_eq, s.temperature.sanitize_eq, s.scale.sanitize_eq,
    s.lights.sanitize_eq channels]
  rfl

/-- **Sanitizing lands in the usable range and leaves it alone.** Whatever the settings and the
number of channels are, it does not fail; each setting is mended by itself, as `Mended` says; so
afterwards all are usable, sanitizing again changes nothing, and settings that were usable before
are the same. -/
theorem sanitize_mends (channels : Nat) (s : Settings) :
    ∃ s', s.sanitize channels = .ok s' ∧ s.Mended channels s' ∧ s'.Usable channels ∧
      s'.sanitize channels = .ok s' ∧ (s.Usable channels → s' = s) := by
  have hmended := s.mended_sanitized channels
  refine ⟨s.sanitized channels, s.sanitize_eq channels, hmended, hmended.usable, ?_,
    hmended.eq_self⟩
  have hagain := (s.sanitized channels).mended_sanitized channels
  rw [sanitize_eq, hagain.eq_self hmended.usable]

/-- Settings that are out of their ranges wherever they can be: the time zone is blank, the bound of
the probe is negative, its multiple not a number and its floor infinite, and only one channel has a
name. The filter of the scale is as it should be. -/
def outOfRange : Settings where
  timezone := " "
  httpPort := 0
  pool := ⟨5, 70000⟩
  temperature := ⟨true, 0, ⟨some (Single.ofInt (-1)), Single.zero / Single.zero,
    Single.one / Single.zero, 10⟩⟩
  scale := ⟨false, 4000000, .fixed (Single.ofInt 3)⟩
  lights := ⟨50, .hold, ["white"], 20⟩

/-- What they become, which is usable, and so are the standard settings. -/
theorem sanitize_mends_outOfRange :
    let mended : Settings :=
      { timezone := "Europe/Berlin"
        httpPort := 8080
        pool := ⟨10, 60000⟩
        temperature := ⟨true, 100, ⟨none, Single.one, Single.zero, 10⟩⟩
        scale := ⟨false, 3600000, .fixed (Single.ofInt 3)⟩
        lights := ⟨100, .hold, ["white", "channel1", "channel2", "channel3"], 1000⟩ }
    outOfRange.sanitize 4 = .ok mended ∧ mended.Usable 4 ∧ mended.sanitize 4 = .ok mended ∧
      standard.Usable 4 ∧ standard.sanitize 4 = .ok standard := by
  intro mended
  obtain ⟨s', hs', -, husable, hagain, -⟩ := sanitize_mends 4 outOfRange
  have hmended : s' = mended := by
    rw [sanitize_eq] at hs'
    rw [← Except.ok.inj hs']
    decide +kernel
  subst hmended
  have hfilter : FilterSettings.standard.Usable := ⟨nofun, by decide, by decide⟩
  have hscale : SensorSettings.standardScale.filter.Usable := ⟨nofun, by decide, by decide⟩
  have hstandard : standard.Usable 4 :=
    ⟨by decide, by decide, ⟨by decide, by decide⟩, ⟨by decide, hfilter⟩, ⟨by decide, hscale⟩,
      ⟨by decide, by decide, by decide⟩⟩
  obtain ⟨s, hs, -, -, -, hsame⟩ := sanitize_mends 4 standard
  exact ⟨hs', husable, hagain, hstandard, hsame hstandard ▸ hs⟩

end Settings

end Aquarium

import Aquarium.Proofs.Json.Deleting
import Aquarium.Proofs.Settings.Rereading

/-!
# Settings that are given in part

Keys are left out of settings that were written. What is read of the rest has standard values in their
place: those of the settings, but in a scale that is still given those of a sensor, which reads more slowly
and has a lower floor.

* `filledFrom`: settings, with those of others at the keys that are gone; one for each section;
* `SensorSettings.ofJson_without` and its like: a section that is given in part is filled from the
  standard section;
* `Settings.readText_without`: so are the settings, up to the scale;
* `Settings.filled_standard_iff`: the main statement, which says when the scale is filled like the rest.
-/

namespace Aquarium

open Json (inside)

/-! ## 1. Filling -/

section Filling

variable (gone : List String → Bool)

/-- The settings, with those of `base` at the keys that are gone. -/
def FilterSettings.filledFrom (base s : FilterSettings) : FilterSettings where
  maxRate := if gone ["max_rate_of_change"] then base.maxRate else s.maxRate
  multiplier := if gone ["rate_multiplier"] then base.multiplier else s.multiplier
  minRate := if gone ["min_rate_of_change"] then base.minRate else s.minRate
  maxRejections :=
    if gone ["max_consecutive_rejections"] then base.maxRejections else s.maxRejections

/-- See `FilterSettings.filledFrom`. -/
def PoolSettings.filledFrom (base s : PoolSettings) : PoolSettings where
  idleWait := if gone ["idle_wait_ms"] then base.idleWait else s.idleWait
  maxWait := if gone ["max_wait_ms"] then base.maxWait else s.maxWait

/-- See `FilterSettings.filledFrom`. -/
def SensorSettings.filledFrom (base s : SensorSettings) : SensorSettings where
  enabled := if gone ["enabled"] then base.enabled else s.enabled
  interval := if gone ["interval_ms"] then base.interval else s.interval
  filter :=
    if gone ["sample"] then base.filter
    else FilterSettings.filledFrom (inside gone "sample") base.filter s.filter

/-- See `FilterSettings.filledFrom`. -/
def LightSettings.filledFrom (base s : LightSettings) : LightSettings where
  interval := if gone ["interval_ms"] then base.interval else s.interval
  transition := if gone ["transition"] then base.transition else s.transition
  channelNames := if gone ["channel_names"] then base.channelNames else s.channelNames
  saveInterval := if gone ["state_save_interval_ms"] then base.saveInterval else s.saveInterval

/-- See `FilterSettings.filledFrom`. -/
def Settings.filledFrom (base s : Settings) : Settings where
  timezone := if gone ["timezone"] then base.timezone else s.timezone
  httpPort := if gone ["http_port"] then base.httpPort else s.httpPort
  pool :=
    if gone ["task_pool"] then base.pool
    else PoolSettings.filledFrom (inside gone "task_pool") base.pool s.pool
  temperature :=
    if gone ["temperature"] then base.temperature
    else SensorSettings.filledFrom (inside gone "temperature") base.temperature s.temperature
  scale :=
    if gone ["scale"] then base.scale
    else SensorSettings.filledFrom (inside gone "scale") base.scale s.scale
  lights :=
    if gone ["schedule"] then base.lights
    else LightSettings.filledFrom (inside gone "schedule") base.lights s.lights

end Filling

/-! ## 2. Sections that are given in part -/

section Sections

variable {gone : List String → Bool}

theorem Json.single_without (x : Float32) : (single x).without gone = single x := by
  unfold single
  cases Numeral.ofSingle? x <;> rfl

theorem Json.asOption_single_without {x : Option Float32}
    (h : ∀ y, x = some y → y.isFinite = true) :
    asOption asSingle ((option single x).without gone) = .ok x := by
  cases x with
  | none => rfl
  | some x =>
      show asOption asSingle ((single x).without gone) = _
      rw [single_without]
      refine (asOption_single (some x)).trans ?_
      rw [Option.filter_some, if_pos (h x rfl)]

theorem FilterSettings.ofJson_without {s : FilterSettings} (hwords : s.InWords) (h : s.AllFinite) :
    ofJson (s.toJson.without gone) = .ok (filledFrom gone standard s) := by
  have hcount : Json.asNat word32 (.nat s.maxRejections) = .ok s.maxRejections :=
    Json.asNat_nat (by decide) hwords
  have hsingle : ∀ (x : Float32) (lost : List String → Bool), x.isFinite = true →
      Json.asSingle ((Json.single x).without lost) = .ok x := by
    intro x lost hx
    rw [Json.single_without, Json.asSingle_single hx]
  refine (Json.asRecord_without (fields.zip [.option .single s.maxRate,
    .single s.multiplier, .single s.minRate, .nat s.maxRejections]) keys_nodup
    (by simp [fields, Json.Field.optional]) standard).trans ?_
  refine (Json.setKept_cons (y := standard.maxRate) rfl
    fun _ => Json.asOption_single_without h.maxRate).trans ?_
  refine (Json.setKept_cons (y := standard.multiplier) rfl
    fun _ => hsingle _ _ h.multiplier).trans ?_
  refine (Json.setKept_cons (y := standard.minRate) rfl
    fun _ => hsingle _ _ h.minRate).trans ?_
  exact Json.setKept_cons (y := standard.maxRejections) rfl fun _ => hcount

theorem PoolSettings.ofJson_without {s : PoolSettings} (hwords : s.InWords) :
    ofJson (s.toJson.without gone) = .ok (filledFrom gone standard s) := by
  have hidle : Json.asNat word64 (.nat s.idleWait) = .ok s.idleWait :=
    Json.asNat_nat (Nat.le_refl _) hwords.1
  have hmax : Json.asNat word64 (.nat s.maxWait) = .ok s.maxWait :=
    Json.asNat_nat (Nat.le_refl _) hwords.2
  refine (Json.asRecord_without (fields.zip [.nat s.idleWait, .nat s.maxWait]) keys_nodup
    (by simp [fields, Json.Field.optional]) standard).trans ?_
  refine (Json.setKept_cons (y := standard.idleWait) rfl fun _ => hidle).trans ?_
  exact Json.setKept_cons (y := standard.maxWait) rfl fun _ => hmax

theorem SensorSettings.ofJson_without {s : SensorSettings} (hwords : s.InWords)
    (h : s.filter.AllFinite) :
    ofJson (s.toJson.without gone) = .ok (filledFrom gone standard s) := by
  have hinterval : Json.asNat word64 (.nat s.interval) = .ok s.interval :=
    Json.asNat_nat (Nat.le_refl _) hwords.1
  refine (Json.asRecord_without (fields.zip [.bool s.enabled, .nat s.interval,
    s.filter.toJson]) keys_nodup (by simp [fields, Json.Field.optional]) standard).trans ?_
  refine (Json.setKept_cons (y := standard.enabled) (x := s.enabled) rfl fun _ => rfl).trans ?_
  refine (Json.setKept_cons (y := standard.interval) rfl fun _ => hinterval).trans ?_
  exact Json.setKept_cons (y := standard.filter) rfl
    fun _ => FilterSettings.ofJson_without hwords.2 h

theorem LightSettings.ofJson_without {s : LightSettings} (hwords : s.InWords) :
    ofJson (s.toJson.without gone) = .ok (filledFrom gone standard s) := by
  have hinterval : Json.asNat word64 (.nat s.interval) = .ok s.interval :=
    Json.asNat_nat (Nat.le_refl _) hwords.1
  have hsave : Json.asNat word64 (.nat s.saveInterval) = .ok s.saveInterval :=
    Json.asNat_nat (Nat.le_refl _) hwords.2
  have hnames : Json.asList Json.asText (.list (s.channelNames.map .text)) = .ok s.channelNames :=
    Json.asList_list fun _ _ => rfl
  refine (Json.asRecord_without (fields.zip [.nat s.interval, s.transition.toJson,
    .list (s.channelNames.map .text), .nat s.saveInterval]) keys_nodup
    (by simp [fields, Json.Field.optional]) standard).trans ?_
  refine (Json.setKept_cons (y := standard.interval) rfl fun _ => hinterval).trans ?_
  refine (Json.setKept_cons (y := standard.transition) rfl
    fun _ => TransitionMode.ofJson_toJson s.transition).trans ?_
  refine (Json.setKept_cons (y := standard.channelNames) rfl fun _ => hnames).trans ?_
  exact Json.setKept_cons (y := standard.saveInterval) rfl fun _ => hsave

/-- The standard sensor and the standard scale differ in how often they are read and in the floor. So a
section is filled alike from the two just if it gives these. -/
theorem SensorSettings.filledFrom_standardScale_iff {s : SensorSettings} :
    filledFrom gone standard s = filledFrom gone standardScale s ↔
      gone ["interval_ms"] = false ∧ gone ["sample"] = false ∧
        gone ["sample", "min_rate_of_change"] = false := by
  have hinterval : standard.interval ≠ standardScale.interval := by decide
  have hfloor : standard.filter.minRate ≠ standardScale.filter.minRate := by decide +kernel
  constructor
  · intro h
    have hfloors := congrArg (·.filter.minRate) h
    have hsample : gone ["sample"] = false := by
      refine Bool.eq_false_iff.mpr fun hgone => hfloor ?_
      simpa only [filledFrom, hgone, if_true] using hfloors
    refine ⟨Bool.eq_false_iff.mpr fun hgone => hinterval ?_, hsample,
      Bool.eq_false_iff.mpr fun hgone => hfloor ?_⟩
    · simpa only [filledFrom, hgone, if_true] using congrArg SensorSettings.interval h
    · simpa only [filledFrom, FilterSettings.filledFrom, inside, hsample, hgone, Bool.false_eq_true,
        if_false, if_true] using hfloors
  · rintro ⟨hinterval, hsample, hfloor⟩
    simp only [filledFrom, FilterSettings.filledFrom, inside, hinterval, hsample, hfloor,
      Bool.false_eq_true, if_false]
    rfl

end Sections

/-! ## 3. Settings that are given in part -/

namespace Settings

variable {s : Settings} {gone : List String → Bool}

/-- What is read of settings that are given in part. -/
def partlyRead (gone : List String → Bool) (s : Settings) : Settings :=
  { filledFrom gone standard s with
    scale :=
      if gone ["scale"] then .standardScale
      else .filledFrom (inside gone "scale") .standard s.scale }

/-- **The settings are filled from the standard ones, up to the scale.** -/
theorem readText_without (hwords : s.InWords) (h : s.AllFinite) (htimezone : gone ["timezone"] = false)
    (hport : gone ["http_port"] = false) :
    Json.readText ofJson (s.toJson.without gone).pretty = .ok (partlyRead gone s) := by
  have hnumber : Json.asNat 65536 (.nat s.httpPort) = .ok s.httpPort :=
    Json.asNat_nat (by decide) hwords.httpPort
  rw [Json.readText_pretty _ (s.written_toJson.without gone)]
  refine (Json.asRecord_without (fields.zip [.text s.timezone, .nat s.httpPort,
    s.pool.toJson, s.temperature.toJson, s.scale.toJson, s.lights.toJson]) keys_nodup ?_
    standard).trans ?_
  · simp [fields, Json.Field.optional, Json.Field.needed, htimezone, hport]
  refine (Json.setKept_cons (y := standard.timezone) (x := s.timezone) rfl fun _ => rfl).trans ?_
  refine (Json.setKept_cons (y := standard.httpPort) rfl fun _ => hnumber).trans ?_
  refine (Json.setKept_cons (y := standard.pool) rfl
    fun _ => PoolSettings.ofJson_without hwords.pool).trans ?_
  refine (Json.setKept_cons (y := standard.temperature) rfl
    fun _ => SensorSettings.ofJson_without hwords.temperature h.temperature).trans ?_
  refine (Json.setKept_cons (y := standard.scale) rfl
    fun _ => SensorSettings.ofJson_without hwords.scale h.scale).trans ?_
  exact Json.setKept_cons (y := standard.lights) rfl
    fun _ => LightSettings.ofJson_without hwords.lights

/-- **Settings that are given in part are filled from the standard ones, but for the scale.** Any keys
are deleted from settings that were written, sections and single keys at any depth, except `timezone` and
`http_port`; their numbers are within their words and their rates finite. Then the rest can be read, and

* what is read are the settings with standard values at the keys that are gone, up to the scale;
* a scale that is gone is the standard scale, and one that is still given has the values of a standard
  sensor at its keys that are gone;
* so all keys that are gone have their standard values just if the scale is gone, or its interval and its
  floor are not. -/
theorem filled_standard_iff (hwords : s.InWords) (h : s.AllFinite)
    (htimezone : gone ["timezone"] = false) (hport : gone ["http_port"] = false) :
    ∃ read, Json.readText ofJson (s.toJson.without gone).pretty = .ok read ∧
      read = { filledFrom gone standard s with
        scale :=
          if gone ["scale"] then standard.scale
          else .filledFrom (inside gone "scale") .standard s.scale } ∧
      (read = filledFrom gone standard s ↔ gone ["scale"] = true ∨
        gone ["scale", "interval_ms"] = false ∧ gone ["scale", "sample"] = false ∧
          gone ["scale", "sample", "min_rate_of_change"] = false) := by
  refine ⟨partlyRead gone s, readText_without hwords h htimezone hport, rfl, ?_⟩
  have hscale : partlyRead gone s = filledFrom gone standard s ↔
      (partlyRead gone s).scale = (filledFrom gone standard s).scale := by
    simp only [partlyRead, Settings.mk.injEq, filledFrom, true_and, and_true]
  rw [hscale]
  simp only [partlyRead, filledFrom]
  cases gone ["scale"] with
  | true => exact iff_of_true rfl (.inl rfl)
  | false =>
      simp only [Bool.false_eq_true, if_false, false_or]
      exact SensorSettings.filledFrom_standardScale_iff

theorem allFinite_standard : standard.AllFinite := by
  constructor <;> refine ⟨⟨?_, ?_⟩, nofun⟩ <;> decide +kernel

/-- Filling settings from themselves changes nothing. -/
theorem filledFrom_self : filledFrom gone s s = s := by
  simp only [filledFrom, PoolSettings.filledFrom, SensorSettings.filledFrom,
    FilterSettings.filledFrom, LightSettings.filledFrom, ite_self]

/-- The scale, and the mode of the lights. -/
def scaleAndMode : List (List String) := [["scale"], ["schedule", "transition"]]

/-- All that need not be given, except that the scale is read. -/
def allButScale : List (List String) :=
  [["task_pool"], ["temperature"], ["scale", "interval_ms"], ["scale", "sample"], ["schedule"]]

/-- The standard settings come back without the scale, but not with a scale that only says that it is
read. -/
theorem filled_standard_iff_concrete :
    standard.InWords ∧ standard.AllFinite ∧ scaleAndMode.contains ["timezone"] = false ∧
      scaleAndMode.contains ["http_port"] = false ∧
      Json.readText ofJson (standard.toJson.without scaleAndMode.contains).pretty = .ok standard ∧
      Json.readText ofJson (standard.toJson.without allButScale.contains).pretty ≠ .ok standard := by
  have hport : scaleAndMode.contains ["http_port"] = false := by decide
  have hport' : allButScale.contains ["http_port"] = false := by decide
  obtain ⟨read, hread, -, hiff⟩ :=
    filled_standard_iff inWords_standard allFinite_standard (by decide) hport
  obtain ⟨read', hread', -, hiff'⟩ :=
    filled_standard_iff inWords_standard allFinite_standard (by decide) hport'
  rw [filledFrom_self] at hiff hiff'
  refine ⟨inWords_standard, allFinite_standard, by decide, hport, ?_, fun hstandard => ?_⟩
  · rw [hread, hiff.mpr (.inl (by decide))]
  · have hsame : read' = standard := Except.ok.inj (hread'.symm.trans hstandard)
    exact absurd (hiff'.mp hsame) (by decide)

/-- **A scale that is given in part has other values than the standard ones.** From settings with the
standard zone and port and a scale that is read, one gets a scale that is read every five seconds, and not
every second, and whose floor is that of any filter. -/
theorem exists_scale_not_filled :
    standard.toJson.without allButScale.contains =
        .record [("timezone", .text "Europe/Berlin"), ("http_port", .nat 8080),
          ("scale", .record [("enabled", .bool true)])] ∧
      allButScale.contains ["scale", "interval_ms"] = true ∧ standard.scale.interval = 1000 ∧
      standard.scale.filter.minRate = Single.one ∧
      ∃ read, Json.readText ofJson (standard.toJson.without allButScale.contains).pretty = .ok read ∧
        read.scale.interval = 5000 ∧ read.scale.filter.minRate = FilterSettings.standard.minRate ∧
        read.scale.filter.minRate ≠ standard.scale.filter.minRate :=
  ⟨rfl, by decide, rfl, rfl, _,
    readText_without inWords_standard allFinite_standard (by decide) (by decide), by decide, rfl,
    by decide +kernel⟩

end Settings

end Aquarium

import Aquarium.Proofs.Json.Records
import Aquarium.Proofs.Settings.Format

/-!
# Settings that are read again

Settings are written in full. What is read of that text is the same settings, but for rates that are
not finite: these are written as null. Where a rate may be left out it is then left out, and where it
may not be, nothing is read at all.

* `Settings.inWords_of_ofJson`: all numbers of settings that can be read are within their words;
* `Settings.Readable`, `Settings.reread`: when settings that were written can be read, and what is
  read of them;
* `Settings.ofJson_toJson`, `Settings.exists_ofJson_toJson_error`: that it is so;
* `Settings.reread_eq_iff`: what is read is what was written just if all rates are finite.
-/

namespace Aquarium

/-! ## 1. Numbers within their words -/

theorem Json.lt_of_asNat {bound n : Nat} {v : Json} (h : asNat bound v = .ok n) : n < bound := by
  obtain ⟨i, hint, hn⟩ := bind_eq_ok h
  cases hn
  obtain ⟨x, -, hx⟩ := bind_eq_ok hint
  cases x with
  | real _ => cases hx
  | integer _ =>
      dsimp only at hx
      split at hx
      · cases hx
        omega
      · cases hx

/-- The count of the filter settings is within its word. -/
def FilterSettings.InWords (s : FilterSettings) : Prop := s.maxRejections < word32

/-- The times of the task pool's section are within their words. -/
def PoolSettings.InWords (s : PoolSettings) : Prop := s.idleWait < word64 ∧ s.maxWait < word64

/-- The numbers of a sensor's section are within their words. -/
def SensorSettings.InWords (s : SensorSettings) : Prop := s.interval < word64 ∧ s.filter.InWords

/-- The times of the light outputs' section are within their words. -/
def LightSettings.InWords (s : LightSettings) : Prop :=
  s.interval < word64 ∧ s.saveInterval < word64

/-- All numbers of the settings are within their words. -/
structure Settings.InWords (s : Settings) : Prop where
  httpPort : s.httpPort < 65536
  pool : s.pool.InWords
  temperature : s.temperature.InWords
  scale : s.scale.InWords
  lights : s.lights.InWords

theorem Settings.inWords_standard : standard.InWords where
  httpPort := by decide
  pool := by unfold PoolSettings.InWords; decide
  temperature := by unfold SensorSettings.InWords FilterSettings.InWords; decide
  scale := by unfold SensorSettings.InWords FilterSettings.InWords; decide
  lights := by unfold LightSettings.InWords; decide

section Reading

open Json.Field

theorem FilterSettings.inWords_of_ofJson {v : Json} {s : FilterSettings} (h : ofJson v = .ok s) :
    s.InWords := by
  refine Json.asRecord_induction Settings.inWords_standard.temperature.2 (fun f hf => ?_) h
  simp only [fields, List.mem_cons, List.not_mem_nil, or_false] at hf
  rcases hf with rfl | rfl | rfl | rfl
  · exact keeps_optional fun _ _ _ _ ha => ha
  · exact keeps_optional fun _ _ _ _ ha => ha
  · exact keeps_optional fun _ _ _ _ ha => ha
  · exact keeps_optional fun _ _ _ hx _ => Json.lt_of_asNat hx

theorem PoolSettings.inWords_of_ofJson {v : Json} {s : PoolSettings} (h : ofJson v = .ok s) :
    s.InWords := by
  refine Json.asRecord_induction Settings.inWords_standard.pool (fun f hf => ?_) h
  simp only [fields, List.mem_cons, List.not_mem_nil, or_false] at hf
  rcases hf with rfl | rfl
  · exact keeps_optional fun _ _ _ hx ha => ⟨Json.lt_of_asNat hx, ha.2⟩
  · exact keeps_optional fun _ _ _ hx ha => ⟨ha.1, Json.lt_of_asNat hx⟩

theorem SensorSettings.inWords_of_ofJson {v : Json} {s : SensorSettings} (h : ofJson v = .ok s) :
    s.InWords := by
  refine Json.asRecord_induction Settings.inWords_standard.temperature (fun f hf => ?_) h
  simp only [fields, List.mem_cons, List.not_mem_nil, or_false] at hf
  rcases hf with rfl | rfl | rfl
  · exact keeps_optional fun _ _ _ _ ha => ha
  · exact keeps_optional fun _ _ _ hx ha => ⟨Json.lt_of_asNat hx, ha.2⟩
  · exact keeps_optional fun _ _ _ hx ha => ⟨ha.1, FilterSettings.inWords_of_ofJson hx⟩

theorem LightSettings.inWords_of_ofJson {v : Json} {s : LightSettings} (h : ofJson v = .ok s) :
    s.InWords := by
  refine Json.asRecord_induction Settings.inWords_standard.lights (fun f hf => ?_) h
  simp only [fields, List.mem_cons, List.not_mem_nil, or_false] at hf
  rcases hf with rfl | rfl | rfl | rfl
  · exact keeps_optional fun _ _ _ hx ha => ⟨Json.lt_of_asNat hx, ha.2⟩
  · exact keeps_optional fun _ _ _ _ ha => ha
  · exact keeps_optional fun _ _ _ _ ha => ha
  · exact keeps_optional fun _ _ _ hx ha => ⟨ha.1, Json.lt_of_asNat hx⟩

/-- **All numbers of settings that can be read are within their words.** -/
theorem Settings.inWords_of_ofJson {v : Json} {s : Settings} (h : ofJson v = .ok s) :
    s.InWords := by
  refine Json.asRecord_induction inWords_standard (fun f hf => ?_) h
  simp only [fields, List.mem_cons, List.not_mem_nil, or_false] at hf
  rcases hf with rfl | rfl | rfl | rfl | rfl | rfl
  · exact keeps_needed fun _ _ _ _ ha => { ha with }
  · exact keeps_needed fun _ _ _ hx ha => { ha with httpPort := Json.lt_of_asNat hx }
  · exact keeps_optional fun _ _ _ hx ha => { ha with pool := PoolSettings.inWords_of_ofJson hx }
  · exact keeps_optional fun _ _ _ hx ha =>
      { ha with temperature := SensorSettings.inWords_of_ofJson hx }
  · exact keeps_optional fun _ _ _ hx ha => { ha with scale := SensorSettings.inWords_of_ofJson hx }
  · exact keeps_optional fun _ _ _ hx ha => { ha with lights := LightSettings.inWords_of_ofJson hx }

end Reading

/-! ## 2. Filter settings -/

/-- Of a single that may be left out, one that is not finite is left out. -/
theorem Json.asOption_single (x : Option Float32) :
    asOption asSingle (.option .single x) = .ok (x.filter (·.isFinite)) := by
  cases x with
  | none => rfl
  | some x =>
      show asOption asSingle (.single x) = _
      rw [Option.filter_some]
      cases hfinite : x.isFinite with
      | false =>
          rw [single, Numeral.ofSingle?, Single.shortest?_eq_none_iff.mpr hfinite]
          rfl
      | true =>
          have hread := asSingle_single hfinite
          unfold single at hread ⊢
          cases hn : Numeral.ofSingle? x with
          | none =>
              rw [hn] at hread
              cases hread
          | some n =>
              rw [hn] at hread
              show (do return some (← asSingle (.number n))) = _
              rw [hread]
              rfl

namespace FilterSettings

variable {s : FilterSettings}

/-- The rates that must be given are finite. -/
structure Readable (s : FilterSettings) : Prop where
  multiplier : s.multiplier.isFinite = true
  minRate : s.minRate.isFinite = true

/-- All rates are finite. -/
structure AllFinite (s : FilterSettings) : Prop extends Readable s where
  maxRate : ∀ rate, s.maxRate = some rate → rate.isFinite = true

/-- What is read of settings that were written: a bound that is not finite is left out. -/
def reread (s : FilterSettings) : FilterSettings :=
  { s with maxRate := s.maxRate.filter (·.isFinite) }

theorem keys_nodup : (fields.map Json.Field.key).Nodup := by decide

/-- Settings are read up to the rates that must be given. -/
theorem ofJson_toJson (hwords : s.InWords) :
    ofJson s.toJson = (do
      let multiplier ← Json.asSingle (.single s.multiplier)
      let minRate ← Json.asSingle (.single s.minRate)
      return { s.reread with multiplier := multiplier, minRate := minRate }) := by
  have hcount : Json.asNat word32 (.nat s.maxRejections) = .ok s.maxRejections :=
    Json.asNat_nat (by decide) hwords
  refine (Json.asRecord_record keys_nodup [.option .single s.maxRate, .single s.multiplier,
    .single s.minRate, .nat s.maxRejections] rfl standard).trans ?_
  simp only [fields, Json.setItems, Json.Field.optional, Json.asOption_single, hcount, bind,
    Except.bind, pure, Except.pure]
  cases Json.asSingle (.single s.multiplier) with
  | error error => rfl
  | ok multiplier => cases Json.asSingle (.single s.minRate) <;> rfl

theorem ofJson_toJson_of_readable (hwords : s.InWords) (h : s.Readable) :
    ofJson s.toJson = .ok s.reread := by
  rw [ofJson_toJson hwords, Json.asSingle_single h.multiplier, Json.asSingle_single h.minRate]
  rfl

theorem exists_ofJson_toJson_error (hwords : s.InWords) (h : ¬ s.Readable) :
    ∃ error, ofJson s.toJson = .error error := by
  rw [ofJson_toJson hwords]
  cases hmultiplier : s.multiplier.isFinite with
  | false =>
      obtain ⟨error, herror⟩ := Json.exists_asSingle_single_error hmultiplier
      rw [herror]
      exact ⟨error, rfl⟩
  | true =>
      have hminRate : s.minRate.isFinite = false :=
        Bool.eq_false_iff.mpr fun hfinite => h ⟨hmultiplier, hfinite⟩
      obtain ⟨error, herror⟩ := Json.exists_asSingle_single_error hminRate
      rw [Json.asSingle_single hmultiplier, herror]
      exact ⟨error, rfl⟩

theorem Readable.allFinite_reread (h : s.Readable) : s.reread.AllFinite where
  multiplier := h.multiplier
  minRate := h.minRate
  maxRate _ hrate := (Option.filter_eq_some_iff.mp hrate).2

/-- The bound is lost just if it is not finite. -/
theorem reread_eq_iff :
    s.reread = s ↔ ∀ rate, s.maxRate = some rate → rate.isFinite = true := by
  obtain ⟨maxRate, multiplier, minRate, maxRejections⟩ := s
  cases maxRate <;> simp [reread, Option.filter_some]

end FilterSettings

/-! ## 3. All settings -/

namespace PoolSettings

theorem keys_nodup : (fields.map Json.Field.key).Nodup := by decide

theorem ofJson_toJson {s : PoolSettings} (hwords : s.InWords) : ofJson s.toJson = .ok s := by
  have hidle : Json.asNat word64 (.nat s.idleWait) = .ok s.idleWait :=
    Json.asNat_nat (Nat.le_refl _) hwords.1
  have hmax : Json.asNat word64 (.nat s.maxWait) = .ok s.maxWait :=
    Json.asNat_nat (Nat.le_refl _) hwords.2
  refine (Json.asRecord_record keys_nodup [.nat s.idleWait, .nat s.maxWait] rfl standard).trans ?_
  simp only [fields, Json.setItems, Json.Field.optional, hidle, hmax, bind, Except.bind, pure,
    Except.pure, if_true]

end PoolSettings

namespace SensorSettings

/-- What is read of a sensor's section that was written. -/
def reread (s : SensorSettings) : SensorSettings := { s with filter := s.filter.reread }

theorem keys_nodup : (fields.map Json.Field.key).Nodup := by decide

/-- A sensor's section is read up to its filter settings. -/
theorem ofJson_toJson {s : SensorSettings} (hwords : s.InWords) :
    ofJson s.toJson = (FilterSettings.ofJson s.filter.toJson).map
      fun filter => { s with filter := filter } := by
  have hinterval : Json.asNat word64 (.nat s.interval) = .ok s.interval :=
    Json.asNat_nat (Nat.le_refl _) hwords.1
  have henabled : Json.asBool (.bool s.enabled) = .ok s.enabled := rfl
  refine (Json.asRecord_record keys_nodup
    [.bool s.enabled, .nat s.interval, s.filter.toJson] rfl standard).trans ?_
  simp only [fields, Json.setItems, Json.Field.optional, henabled, hinterval, bind, Except.bind,
    pure, Except.pure]
  cases FilterSettings.ofJson s.filter.toJson <;> rfl

theorem ofJson_toJson_of_readable {s : SensorSettings} (hwords : s.InWords)
    (h : s.filter.Readable) : ofJson s.toJson = .ok s.reread := by
  rw [ofJson_toJson hwords, FilterSettings.ofJson_toJson_of_readable hwords.2 h]
  rfl

theorem reread_eq_iff {s : SensorSettings} : s.reread = s ↔ s.filter.reread = s.filter := by
  obtain ⟨enabled, interval, filter⟩ := s
  simp only [reread, SensorSettings.mk.injEq, true_and]

end SensorSettings

namespace LightSettings

theorem keys_nodup : (fields.map Json.Field.key).Nodup := by decide

theorem ofJson_toJson {s : LightSettings} (hwords : s.InWords) : ofJson s.toJson = .ok s := by
  have hinterval : Json.asNat word64 (.nat s.interval) = .ok s.interval :=
    Json.asNat_nat (Nat.le_refl _) hwords.1
  have hsave : Json.asNat word64 (.nat s.saveInterval) = .ok s.saveInterval :=
    Json.asNat_nat (Nat.le_refl _) hwords.2
  have hnames : Json.asList Json.asText (.list (s.channelNames.map .text)) =
      .ok s.channelNames := Json.asList_list fun _ _ => rfl
  refine (Json.asRecord_record keys_nodup [.nat s.interval, s.transition.toJson,
    .list (s.channelNames.map .text), .nat s.saveInterval] rfl standard).trans ?_
  simp only [fields, Json.setItems, Json.Field.optional, hinterval, hsave, hnames,
    TransitionMode.ofJson_toJson, bind, Except.bind, pure, Except.pure, if_true]

end LightSettings

namespace Settings

variable {s : Settings}

/-- The rates that must be given are finite, of both sensors. -/
structure Readable (s : Settings) : Prop where
  temperature : s.temperature.filter.Readable
  scale : s.scale.filter.Readable

/-- All rates are finite, of both sensors. -/
structure AllFinite (s : Settings) : Prop where
  temperature : s.temperature.filter.AllFinite
  scale : s.scale.filter.AllFinite

/-- What is read of settings that were written. -/
def reread (s : Settings) : Settings :=
  { s with temperature := s.temperature.reread, scale := s.scale.reread }

theorem keys_nodup : (fields.map Json.Field.key).Nodup := by decide

/-- Settings are read up to the sections of the sensors. -/
theorem ofJson_toJson (hwords : s.InWords) :
    ofJson s.toJson = (do
      let temperature ← SensorSettings.ofJson s.temperature.toJson
      let scale ← SensorSettings.ofJson s.scale.toJson
      return { s with temperature := temperature, scale := scale }) := by
  have htimezone : Json.asText (.text s.timezone) = .ok s.timezone := rfl
  have hport : Json.asNat 65536 (.nat s.httpPort) = .ok s.httpPort :=
    Json.asNat_nat (by decide) hwords.httpPort
  refine (Json.asRecord_record keys_nodup [.text s.timezone, .nat s.httpPort, s.pool.toJson,
    s.temperature.toJson, s.scale.toJson, s.lights.toJson] rfl standard).trans ?_
  simp only [fields, Json.setItems, Json.Field.optional, Json.Field.needed, htimezone, hport,
    PoolSettings.ofJson_toJson hwords.pool, LightSettings.ofJson_toJson hwords.lights, bind,
    Except.bind, pure, Except.pure]
  cases SensorSettings.ofJson s.temperature.toJson with
  | error error => rfl
  | ok temperature => cases SensorSettings.ofJson s.scale.toJson <;> rfl

/-- **Settings whose rates are finite where they must be given are read again**; a bound that is not
finite is left out. -/
theorem ofJson_toJson_of_readable (hwords : s.InWords) (h : s.Readable) :
    ofJson s.toJson = .ok s.reread := by
  rw [ofJson_toJson hwords,
    SensorSettings.ofJson_toJson_of_readable hwords.temperature h.temperature,
    SensorSettings.ofJson_toJson_of_readable hwords.scale h.scale]
  rfl

/-- **Nothing is read of other settings.** -/
theorem exists_ofJson_toJson_error (hwords : s.InWords) (h : ¬ s.Readable) :
    ∃ error, ofJson s.toJson = .error error := by
  rw [ofJson_toJson hwords, SensorSettings.ofJson_toJson hwords.temperature,
    SensorSettings.ofJson_toJson hwords.scale]
  by_cases htemperature : s.temperature.filter.Readable
  · obtain ⟨error, herror⟩ := FilterSettings.exists_ofJson_toJson_error hwords.scale.2
      fun hscale => h ⟨htemperature, hscale⟩
    rw [FilterSettings.ofJson_toJson_of_readable hwords.temperature.2 htemperature, herror]
    exact ⟨error, rfl⟩
  · obtain ⟨error, herror⟩ :=
      FilterSettings.exists_ofJson_toJson_error hwords.temperature.2 htemperature
    rw [herror]
    exact ⟨error, rfl⟩

theorem Readable.allFinite_reread (h : s.Readable) : s.reread.AllFinite :=
  ⟨h.temperature.allFinite_reread, h.scale.allFinite_reread⟩

theorem AllFinite.readable (h : s.AllFinite) : s.Readable :=
  ⟨h.temperature.toReadable, h.scale.toReadable⟩

/-- **What is read is what was written just if all rates are finite.** -/
theorem reread_eq_iff (h : s.Readable) : s.reread = s ↔ s.AllFinite := by
  have hsections : s.reread = s ↔
      s.temperature.reread = s.temperature ∧ s.scale.reread = s.scale := by
    obtain ⟨timezone, httpPort, pool, temperature, scale, lights⟩ := s
    simp only [reread, Settings.mk.injEq, true_and, and_true]
  rw [hsections, SensorSettings.reread_eq_iff, SensorSettings.reread_eq_iff,
    FilterSettings.reread_eq_iff, FilterSettings.reread_eq_iff]
  exact ⟨fun hrates => ⟨⟨h.temperature, hrates.1⟩, ⟨h.scale, hrates.2⟩⟩,
    fun hall => ⟨hall.temperature.maxRate, hall.scale.maxRate⟩⟩

end Settings

end Aquarium

import Aquarium.Proofs.Service.Course
import Aquarium.Proofs.Settings.Rereading

/-!
# Saving and then loading

What stands in a file is text, and the values in it are written as singles but read as doubles. This
file says what comes back of entries that are saved, and of settings.

* `Store.Takes.exists_saved`: a text that is saved stands in its file, and the other files are as
  before;
* `Store.loadSchedule_of_saved`: entries that are saved are loaded again, every bit of their values,
  just if all values are finite;
* `Store.loadSettings_of_readable`, `Store.loadSettings_of_not_readable`: settings are loaded without
  a bound that is not finite, and not at all with another rate that is not;
* `Store.loadSettings_eq_iff`: so they are loaded as they were just if all rates are finite.
-/

namespace Aquarium

namespace Store

variable {s : Store} {file : DataFile} {es : List (Entry Float32)}

/-! ## 1. Any file -/

/-- **A text that is saved stands in its file**, and nothing else about the data directory changes. -/
theorem Takes.exists_saved (h : s.Takes file) (text : String) :
    ∃ t, s.save file text = .ok t ∧ t.read? file = .ok (some text) ∧ t.rights = s.rights ∧
      ∀ other, other ≠ file → t.content other = s.content other := by
  have hsave := h.save_eq text
  exact ⟨_, hsave, read?_save h.reads hsave, rights_save hsave,
    fun other hother => content_save_of_ne hsave hother⟩

/-! ## 2. The schedule file -/

/-- **Entries that are saved are loaded again just if all of their values are finite.** The schedule
file can be written and read; the entries have any days, any times and channels within their words,
and any values. Then the saving succeeds and leaves the other files alone. Entries with finite
values are loaded as they were, in their order and with every bit; one value that is not finite and
nothing is loaded. -/
theorem loadSchedule_of_saved (h : s.Takes .schedule) (hwords : InWords es) :
    ∃ t, s.saveSchedule es = .ok t ∧
      (AllFinite es → t.loadSchedule = .ok es) ∧
      (¬ AllFinite es → t.loadSchedule = .error (.parse .schedule)) ∧
      t.rights = s.rights ∧ ∀ other, other ≠ .schedule → t.content other = s.content other := by
  obtain ⟨t, hsave, hread, hrights, hothers⟩ := h.exists_saved (lightEntriesToJson es).pretty
  exact ⟨t, hsave, loadSchedule_of_allFinite hwords hread,
    loadSchedule_of_not_allFinite hwords hread, hrights, hothers⟩

/-- Minus zero, the least and the largest single, and one whose decimal form is close to the point
between it and the next single. -/
def farValues : List (Entry Float32) :=
  [⟨.monday, 0, 0, .ofBits 0x80000000⟩,
   ⟨.monday, 0, 1, .ofBits 0x00000001⟩,
   ⟨.sunday, 86399, 3, .ofBits 0x7f7fffff⟩,
   ⟨.friday, 4294967295, 18446744073709551615, .ofBits 0x15ae43fd⟩]

/-- They come back from a data directory that did not exist before, and minus zero is not zero. -/
theorem loadSchedule_of_saved_farValues :
    Store.empty.Takes .schedule ∧ InWords farValues ∧ AllFinite farValues ∧
      (∃ t, Store.empty.saveSchedule farValues = .ok t ∧ t.loadSchedule = .ok farValues) ∧
      Float32.ofBits 0x80000000 ≠ Single.zero := by
  have htakes : Store.empty.Takes .schedule := ⟨⟨rfl, rfl, nofun⟩, rfl⟩
  have hwords : InWords farValues := by
    unfold InWords
    decide
  have hfinite : AllFinite farValues := by
    have hall : farValues.all (·.value.isFinite) = true := by decide +kernel
    exact List.all_eq_true.mp hall
  obtain ⟨t, hsave, hloads, -⟩ := loadSchedule_of_saved htakes hwords
  exact ⟨htakes, hwords, hfinite, ⟨t, hsave, hloads hfinite⟩, by decide +kernel⟩

/-! ## 3. The settings file -/

section SettingsFile

variable {x : Settings}

/-- All numbers of settings that can be loaded are within their words. -/
theorem inWords_of_loadSettings (h : s.loadSettings = .ok x) : x.InWords := by
  obtain ⟨text, -, h⟩ := bind_eq_ok h
  cases text with
  | none =>
      cases h
      exact Settings.inWords_standard
  | some text =>
      dsimp only at h
      split at h
      · rename_i y hread
        cases h
        obtain ⟨v, hv⟩ := Json.exists_of_readText hread
        exact Settings.inWords_of_ofJson hv
      · cases h

theorem loadSettings_of_readable (hread : s.read? .settings = .ok (some x.toJson.pretty))
    (hwords : x.InWords) (h : x.Readable) : s.loadSettings = .ok x.reread := by
  rw [loadSettings, load_of_read? hread, Json.readText_pretty _ x.written_toJson,
    Settings.ofJson_toJson_of_readable hwords h]
  rfl

theorem loadSettings_of_not_readable (hread : s.read? .settings = .ok (some x.toJson.pretty))
    (hwords : x.InWords) (h : ¬ x.Readable) : s.loadSettings = .error (.parse .settings) := by
  obtain ⟨error, herror⟩ := Settings.exists_ofJson_toJson_error hwords h
  rw [loadSettings, load_of_read? hread, Json.readText_pretty _ x.written_toJson, herror]
  rfl

/-- **Settings in their file are loaded as they were just if all rates are finite.** -/
theorem loadSettings_eq_iff (hread : s.read? .settings = .ok (some x.toJson.pretty))
    (hwords : x.InWords) : s.loadSettings = .ok x ↔ x.AllFinite := by
  by_cases h : x.Readable
  · rw [loadSettings_of_readable hread hwords h, Except.ok.injEq, Settings.reread_eq_iff h]
  · rw [loadSettings_of_not_readable hread hwords h]
    exact iff_of_false nofun fun hall => h hall.readable

end SettingsFile

end Store

end Aquarium

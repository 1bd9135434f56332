import Aquarium.Proofs.Schedule.Format
import Aquarium.Store

/-!
# The file form of the settings

* `Settings.written_toJson`: settings can be written whatever they are;
* `Store.load_of_read?`: a file is loaded as what its text is read as;
* `Store.loadMode_of_read?`: the mode of the lights is read back from what was written, also where
  other settings are not.
-/

namespace Aquarium

/-! ## 1. Settings can be written -/

theorem Json.Written.bool (b : Bool) : (Json.bool b).Written := by
  refine ⟨rfl, fun t ht => ?_⟩
  rw [List.mem_singleton.mp ht]
  trivial

theorem FilterSettings.written_toJson (s : FilterSettings) : s.toJson.Written := by
  refine .record fun m hm => ?_
  simp only [List.mem_cons, List.not_mem_nil, or_false] at hm
  rcases hm with rfl | rfl | rfl | rfl
  · cases s.maxRate with
    | none => exact .null
    | some rate => exact .single rate
  · exact .single _
  · exact .single _
  · exact .nat _

theorem PoolSettings.written_toJson (s : PoolSettings) : s.toJson.Written := by
  refine .record fun m hm => ?_
  simp only [List.mem_cons, List.not_mem_nil, or_false] at hm
  rcases hm with rfl | rfl <;> exact .nat _

theorem SensorSettings.written_toJson (s : SensorSettings) : s.toJson.Written := by
  refine .record fun m hm => ?_
  simp only [List.mem_cons, List.not_mem_nil, or_false] at hm
  rcases hm with rfl | rfl | rfl
  · exact .bool _
  · exact .nat _
  · exact s.filter.written_toJson

theorem LightSettings.written_toJson (s : LightSettings) : s.toJson.Written := by
  refine .record fun m hm => ?_
  simp only [List.mem_cons, List.not_mem_nil, or_false] at hm
  rcases hm with rfl | rfl | rfl | rfl
  · exact .nat _
  · exact .text _
  · refine .list fun v hv => ?_
    obtain ⟨name, -, rfl⟩ := List.mem_map.mp hv
    exact .text _
  · exact .nat _

theorem Settings.written_toJson (s : Settings) : s.toJson.Written := by
  refine .record fun m hm => ?_
  simp only [List.mem_cons, List.not_mem_nil, or_false] at hm
  rcases hm with rfl | rfl | rfl | rfl | rfl | rfl
  · exact .text _
  · exact .nat _
  · exact s.pool.written_toJson
  · exact s.temperature.written_toJson
  · exact s.scale.written_toJson
  · exact s.lights.written_toJson

/-! ## 2. Files -/

/-- **A file is loaded as what its text is read as.** -/
theorem Store.load_of_read? {s : Store} {file : DataFile} {α : Type}
    {read : Json → Except ReadError α} {missing : α} {text : String}
    (h : s.read? file = .ok (some text)) :
    s.load file read missing = (Json.readText read text).mapError fun _ => .parse file := by
  rw [load, h]
  simp only [bind, Except.bind]
  cases Json.readText read text <;> rfl

/-! ## 3. The mode in the file -/

/-- The mode that a section for the lights names, whatever else stands in it. -/
def LightSettings.modeOfJson : Json → Except ReadError TransitionMode :=
  Json.asRecord [.needed "transition" TransitionMode.ofJson fun x _ => x] default

/-- The mode that settings name for the lights, whatever else stands in them. -/
def Settings.modeOfJson : Json → Except ReadError TransitionMode :=
  Json.asRecord [.needed "schedule" LightSettings.modeOfJson fun x _ => x] default

theorem TransitionMode.ofJson_toJson (m : TransitionMode) : ofJson m.toJson = .ok m := by
  cases m <;> rfl

theorem LightSettings.modeOfJson_toJson (s : LightSettings) :
    modeOfJson s.toJson = .ok s.transition := by
  have hnames : (Json.list (s.channelNames.map .text)).intact = true := by
    refine (Json.Written.list fun v hv => ?_).whole
    obtain ⟨name, -, rfl⟩ := List.mem_map.mp hv
    exact .text _
  simp [modeOfJson, toJson, Json.record, Json.asRecord, Json.setMembers, Json.Field.needed,
    TransitionMode.ofJson_toJson, hnames, (Json.Written.nat _).whole, bind, Except.bind, pure,
    Except.pure]

/-- Other settings stand round the mode, but none in its way. -/
theorem Settings.modeOfJson_toJson (s : Settings) : modeOfJson s.toJson = .ok s.lights.transition := by
  simp [modeOfJson, toJson, Json.record, Json.asRecord, Json.setMembers, Json.Field.needed,
    LightSettings.modeOfJson_toJson, (Json.Written.nat _).whole, (Json.Written.text _).whole,
    s.pool.written_toJson.whole, s.temperature.written_toJson.whole,
    s.scale.written_toJson.whole, bind, Except.bind, pure, Except.pure]

namespace Store

/-- The mode in the settings file. -/
def loadMode (s : Store) : Except StoreError TransitionMode :=
  s.load .settings Settings.modeOfJson Settings.standard.lights.transition

/-- **The mode that was written is in the file.** -/
theorem loadMode_of_read? {s : Store} {x : Settings}
    (h : s.read? .settings = .ok (some x.toJson.pretty)) : s.loadMode = .ok x.lights.transition := by
  rw [loadMode, load_of_read? h, Json.readText_pretty _ x.written_toJson, x.modeOfJson_toJson]
  rfl

end Store

end Aquarium

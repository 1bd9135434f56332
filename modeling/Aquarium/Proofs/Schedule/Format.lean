import Aquarium.Proofs.Json.Building
import Aquarium.Proofs.Json.Records
import Aquarium.Proofs.Number.RoundTrip
import Aquarium.Proofs.Schedule.Entries
import Aquarium.Schedule.Format

/-!
# The file form of a schedule

What is written for a schedule is read back, value by value, as long as all values are finite. A
value that is not is written as null, and nothing is read from the file.

* `Json.asSingle_single`: a finite single is read back;
* `readText_lightEntries`: so are the entries of a file, when all values are finite;
* `exists_readText_lightEntries_error`: one value that is not finite spoils the file.
-/

namespace Aquarium

/-! ## 1. Values -/

namespace Numeral

theorem legible_positionalParts (d : Decimal) : ∀ e ∈ (positionalParts d).2, e < 10 := by
  unfold positionalParts
  split
  · exact fun e he => nomatch he
  · intro e he
    rcases List.mem_append.mp (List.mem_of_mem_drop he) with he | he
    · rw [(List.mem_replicate.mp he).2]
      decide
    · exact lt_of_mem_digitsOf he

theorem legible_ofDecimal (negative : Bool) (d : Decimal) : (ofDecimal negative d).Legible := by
  have hparts := legible_positionalParts d
  unfold ofDecimal
  split
  · intro e he
    rw [List.mem_singleton.mp he]
    decide
  · split
    · split
      · intro e he
        rw [List.mem_singleton.mp he]
        decide
      · rename_i h
        rw [h] at hparts
        exact hparts
    · exact fun e he => lt_of_mem_digitsOf (List.mem_of_mem_tail he)

end Numeral

/-- A single can be spelled. -/
theorem Json.Written.single (x : Float32) : (Json.single x).Written := by
  unfold Json.single
  cases h : Numeral.ofSingle? x with
  | none => exact .null
  | some n =>
      obtain ⟨⟨negative, d⟩, -, rfl⟩ := Option.map_eq_some_iff.mp h
      exact .number (Numeral.legible_ofDecimal negative d)

/-- A finite single is read back. -/
theorem Json.asSingle_single {x : Float32} (h : x.isFinite = true) : asSingle (.single x) = .ok x := by
  have hreturns := Single.returns_of_isFinite h
  unfold Single.Returns at hreturns
  unfold single
  cases hn : Numeral.ofSingle? x with
  | none =>
      rw [hn] at hreturns
      cases hreturns
  | some n =>
      rw [hn, Option.bind_some] at hreturns
      obtain ⟨y, hy, hsame⟩ := Option.map_eq_some_iff.mp hreturns
      simp only [asSingle, asNumber, hy, bind, Except.bind, hsame]
      rfl

/-- Any other one is written as null, which is none. -/
theorem Json.exists_asSingle_single_error {x : Float32} (h : x.isFinite = false) :
    ∃ error, asSingle (.single x) = .error error := by
  rw [single, Numeral.ofSingle?, Single.shortest?_eq_none_iff.mpr h]
  exact ⟨_, rfl⟩

/-! ## 2. Entries -/

/-- A natural number is read back. -/
theorem Json.asNat_nat {bound n : Nat} (hbound : bound ≤ word64) (hn : n < bound) :
    Json.asNat bound (.nat n) = .ok n := by
  have hvalue : (Numeral.ofNat n).value? = some (.integer n) := by
    unfold Numeral.value? Numeral.ofNat
    rw [if_pos ⟨rfl, rfl, by simp only [Bool.false_eq_true, if_false]; omega⟩]
    rfl
  have hrange : (0 : Int) ≤ n ∧ (n : Int) < bound := by omega
  simp only [asNat, asInt, Json.nat, asNumber, hvalue, bind, Except.bind, hrange, and_self, if_true]
  rfl

/-- A list is read back if its items are. -/
theorem Json.readItems_map {α : Type} {read : Json → Except ReadError α} {write : α → Json}
    {as : List α} (h : ∀ a ∈ as, read (write a) = .ok a) :
    Json.readItems read (as.map write) = .ok as := by
  induction as with
  | nil => rfl
  | cons a as ih =>
      rw [List.map_cons, readItems, h a List.mem_cons_self,
        ih fun b hb => h b (List.mem_cons_of_mem a hb)]
      rfl

theorem Json.asList_list {α : Type} {read : Json → Except ReadError α} {write : α → Json}
    {as : List α} (h : ∀ a ∈ as, read (write a) = .ok a) :
    Json.asList read (.list (as.map write)) = .ok as := by
  show Json.asList read (.array (as.map write) .closed) = _
  rw [Json.asList, readItems_map h]
  rfl

theorem Day.ofJson_toJson (d : Day) : Day.ofJson d.toJson = .ok d := by
  simp only [ofJson, toJson, Json.text, Json.asChoice, ofName?_name]

namespace Entry

variable {V : Type}

theorem keys_nodup (readValue : Json → Except ReadError V) :
    ((fields readValue).map Json.Field.key).Nodup := by
  simp [fields, Json.Field.needed]

/-- **An entry is read back up to its value.** -/
theorem ofJson_toJson [Inhabited V] (readValue : Json → Except ReadError V) (writeValue : V → Json)
    {e : Entry V} (htime : e.time < word32) (hchannel : e.channel < word64) :
    ofJson readValue (e.toJson writeValue) =
      (readValue (writeValue e.value)).map fun value => { e with value := value } := by
  have ht := Json.asNat_nat (by decide) htime
  have hc := Json.asNat_nat (by decide) hchannel
  refine (Json.asRecord_record (keys_nodup readValue)
    [e.day.toJson, .nat e.time, .nat e.channel, writeValue e.value] rfl _).trans ?_
  simp only [fields, Json.setItems, Json.Field.needed, Day.ofJson_toJson, ht, hc, bind, Except.bind,
    pure, Except.pure]
  cases readValue (writeValue e.value) <;> rfl

theorem written_toJson (e : Entry Float32) : (e.toJson .single).Written := by
  refine .record fun m hm => ?_
  simp only [List.mem_cons, List.not_mem_nil, or_false] at hm
  rcases hm with rfl | rfl | rfl | rfl
  · exact .text _
  · exact .nat _
  · exact .nat _
  · exact .single _

end Entry

/-- The times and channels of the entries are within their words. -/
def InWords (es : List (Entry Float32)) : Prop := ∀ e ∈ es, e.time < word32 ∧ e.channel < word64

theorem written_lightEntries (es : List (Entry Float32)) : (lightEntriesToJson es).Written := by
  refine .list fun v hv => ?_
  obtain ⟨e, -, rfl⟩ := List.mem_map.mp hv
  exact e.written_toJson

/-- All values of the entries are finite. -/
def AllFinite (es : List (Entry Float32)) : Prop := ∀ e ∈ es, e.value.isFinite = true

theorem lightEntriesOfJson_toJson {es : List (Entry Float32)} (hsmall : InWords es)
    (hfinite : AllFinite es) : lightEntriesOfJson (lightEntriesToJson es) = .ok es := by
  refine Json.asList_list fun e he => ?_
  rw [Entry.ofJson_toJson Json.asSingle .single (hsmall e he).1 (hsmall e he).2,
    Json.asSingle_single (hfinite e he)]
  rfl

theorem exists_readItems_error {es : List (Entry Float32)} (hsmall : InWords es)
    (hfinite : ¬ AllFinite es) :
    ∃ error, Json.readItems (Entry.ofJson Json.asSingle) (es.map (Entry.toJson .single)) =
      .error error := by
  induction es with
  | nil => exact absurd (fun _ h => nomatch h) hfinite
  | cons e es ih =>
      obtain ⟨htime, hchannel⟩ := hsmall e List.mem_cons_self
      have hfirst := Entry.ofJson_toJson Json.asSingle .single htime hchannel
      rw [List.map_cons, Json.readItems, hfirst]
      cases hvalue : e.value.isFinite with
      | false =>
          obtain ⟨error, herror⟩ := Json.exists_asSingle_single_error hvalue
          rw [herror]
          exact ⟨error, rfl⟩
      | true =>
          obtain ⟨error, hrest⟩ := ih (fun f hf => hsmall f (List.mem_cons_of_mem e hf)) fun h =>
            hfinite fun f hf => by
              rcases List.mem_cons.mp hf with rfl | hf
              · exact hvalue
              · exact h f hf
          refine ⟨error, ?_⟩
          rw [Json.asSingle_single hvalue, hrest]
          rfl

/-- **The entries of a file are read back**, if all of its values are finite. -/
theorem readText_lightEntries {es : List (Entry Float32)} (hsmall : InWords es)
    (hfinite : AllFinite es) :
    Json.readText lightEntriesOfJson (lightEntriesToJson es).pretty = .ok es := by
  rw [Json.readText_pretty _ (written_lightEntries es), lightEntriesOfJson_toJson hsmall hfinite]

/-- **One value that is not finite spoils the file.** -/
theorem exists_readText_lightEntries_error {es : List (Entry Float32)} (hsmall : InWords es)
    (hfinite : ¬ AllFinite es) :
    ∃ error, Json.readText lightEntriesOfJson (lightEntriesToJson es).pretty = .error error := by
  obtain ⟨error, hitems⟩ := exists_readItems_error hsmall hfinite
  refine ⟨error, ?_⟩
  rw [Json.readText_pretty _ (written_lightEntries es)]
  show Json.asList _ (.array _ .closed) = _
  rw [Json.asList, hitems]
  rfl

end Aquarium

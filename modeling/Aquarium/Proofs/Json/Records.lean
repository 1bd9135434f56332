import Aquarium.Json.Decode
import Mathlib.Data.List.Nodup

/-!
# Reading records

A record is written with the keys of its fields, in their order, and read key by key. Nothing of the
keys is left in what this file says about it.

* `bind_eq_ok` and its like: a reader is made of steps that may fail, and succeeds if all of them do;
* `asRecord_record`: a record is read like the array of its values;
* `asRecord_induction`: what setting a field keeps is true of every record that is read.
-/

namespace Aquarium

/-! ## 1. Steps that may fail -/

section Steps

variable {ε ε' α β : Type}

theorem bind_eq_ok {x : Except ε α} {f : α → Except ε β} {b : β} (h : x >>= f = .ok b) :
    ∃ a, x = .ok a ∧ f a = .ok b := by
  cases x with
  | error cause => cases h
  | ok a => exact ⟨a, rfl, h⟩

theorem map_eq_ok {x : Except ε α} {f : α → β} {b : β} (h : x.map f = .ok b) :
    ∃ a, x = .ok a ∧ f a = b := by
  cases x with
  | error cause => cases h
  | ok a =>
      cases h
      exact ⟨a, rfl, rfl⟩

theorem mapError_eq_ok {x : Except ε α} {f : ε → ε'} {a : α} (h : x.mapError f = .ok a) :
    x = .ok a := by
  cases x with
  | error cause => cases h
  | ok b =>
      cases h
      rfl

end Steps

namespace Json

variable {α β : Type} {fields : List (Field α)}

/-- What is read of a text is read of a value. -/
theorem exists_of_readText {read : Json → Except ReadError α} {text : String} {a : α}
    (h : readText read text = .ok a) : ∃ v, read v = .ok a := by
  obtain ⟨b, hread, hmore⟩ := bind_eq_ok h
  split at hmore
  · cases hmore
  · cases hmore
    exact ⟨_, hread⟩

/-! ## 2. Records that were written -/

theorem find?_key (hkeys : (fields.map Field.key).Nodup) {f : Field α} (hf : f ∈ fields) :
    fields.find? (·.key == f.key) = some f := by
  have hsome : (fields.find? (·.key == f.key)).isSome = true :=
    List.find?_isSome.mpr ⟨f, hf, beq_self_eq_true _⟩
  obtain ⟨g, hg⟩ := Option.isSome_iff_exists.mp hsome
  have hkey : g.key = f.key := by simpa using List.find?_some hg
  rw [hg, List.inj_on_of_nodup_map hkeys (List.mem_of_find?_eq_some hg) hf hkey]

/-- Members with the keys of some of the fields set these fields, one after another. -/
theorem setMembers_zip (hkeys : (fields.map Field.key).Nodup) {given : List (Field α)}
    (hgiven : ∀ f ∈ given, f ∈ fields) (hnodup : (given.map Field.key).Nodup) {values : List Json}
    (hlength : values.length = given.length) (seen : List String)
    (hfresh : ∀ f ∈ given, f.key ∉ seen) (a : α) :
    setMembers fields (((given.map Field.key).zip values).map fun (key, v) => (some key, v)) seen a =
      (setItems .closed given values a).map fun a => ((given.map Field.key).reverse ++ seen, a) := by
  induction given generalizing values seen a with
  | nil =>
      rw [List.length_nil, List.length_eq_zero_iff] at hlength
      subst hlength
      rfl
  | cons f fs ih =>
      obtain ⟨v, vs, rfl⟩ := List.exists_cons_of_length_eq_add_one hlength
      obtain ⟨hnew, hnodup⟩ := List.nodup_cons.mp hnodup
      have hunseen : seen.contains f.key = false := by
        rw [List.contains_eq_mem, decide_eq_false_iff_not]
        exact hfresh f List.mem_cons_self
      have hstill : ∀ g ∈ fs, g.key ∉ f.key :: seen := by
        intro g hg hmem
        rcases List.mem_cons.mp hmem with heq | hmem
        · exact hnew (heq ▸ List.mem_map_of_mem hg)
        · exact hfresh g (List.mem_cons_of_mem f hg) hmem
      have hrest := ih (fun g hg => hgiven g (List.mem_cons_of_mem f hg)) hnodup
        (Nat.succ.inj hlength) (f.key :: seen) hstill
      simp only [List.map_cons, List.zip_cons_cons, setMembers,
        find?_key hkeys (hgiven f List.mem_cons_self), hunseen, setItems, bind, Except.bind]
      cases f.read v a with
      | error error => rfl
      | ok a => simpa using hrest a

/-- **A record with the keys of the fields is read like the array of its values.** -/
theorem asRecord_record (hkeys : (fields.map Field.key).Nodup) (values : List Json)
    (hlength : values.length = fields.length) (start : α) :
    asRecord fields start (.record ((fields.map Field.key).zip values)) =
      setItems .closed fields values start := by
  have hmembers := setMembers_zip hkeys (fun f hf => hf) hkeys hlength []
    (fun f _ => List.not_mem_nil) start
  have hall : (fields.all fun f =>
      !f.required || ((fields.map Field.key).reverse ++ []).contains f.key) = true := by
    rw [List.all_eq_true]
    intro f hf
    simp [List.contains_eq_mem, List.mem_map_of_mem hf]
  rw [record, asRecord, hmembers]
  cases setItems .closed fields values start with
  | error error => rfl
  | ok a => simp only [Except.map, bind, Except.bind, hall]; rfl

/-! ## 3. What fields keep -/

/-- Setting the field keeps a property of the record. -/
def Field.Keeps (P : α → Prop) (f : Field α) : Prop :=
  ∀ v a a', P a → f.read v a = .ok a' → P a'

section Keeping

variable {P : α → Prop}

theorem Field.keeps_optional {key : String} {read : Json → Except ReadError β} {set : β → α → α}
    (h : ∀ v x a, read v = .ok x → P a → P (set x a)) : (Field.optional key read set).Keeps P := by
  intro v a a' ha hread
  obtain ⟨x, hx, hset⟩ := bind_eq_ok hread
  cases hset
  exact h v x a hx ha

theorem Field.keeps_needed {key : String} {read : Json → Except ReadError β} {set : β → α → α}
    (h : ∀ v x a, read v = .ok x → P a → P (set x a)) : (Field.needed key read set).Keeps P :=
  @Field.keeps_optional α β P key read set h

theorem setMembers_keeps (hfields : ∀ f ∈ fields, f.Keeps P) {members : List (Option String × Json)}
    {seen seen' : List String} {a a' : α} (ha : P a)
    (h : setMembers fields members seen a = .ok (seen', a')) : P a' := by
  induction members generalizing seen a with
  | nil =>
      cases h
      exact ha
  | cons m members ih =>
      obtain ⟨key, v⟩ := m
      cases key with
      | none => cases h
      | some key =>
          unfold setMembers at h
          split at h
          · split at h
            · exact ih ha h
            · cases h
          · rename_i field hfield
            split at h
            · cases h
            · obtain ⟨b, hread, h⟩ := bind_eq_ok h
              exact ih (hfields field (List.mem_of_find?_eq_some hfield) v a b ha hread) h

theorem setItems_keeps (hfields : ∀ f ∈ fields, f.Keeps P) {ending : Ending} {items : List Json}
    {a a' : α} (ha : P a) (h : setItems ending fields items a = .ok a') : P a' := by
  induction fields generalizing items a with
  | nil =>
      cases items with
      | nil =>
          unfold setItems at h
          split at h
          · cases h
            exact ha
          · cases h
      | cons v items => cases h
  | cons field fields ih =>
      have hrest : ∀ f ∈ fields, f.Keeps P := fun f hf => hfields f (List.mem_cons_of_mem field hf)
      cases items with
      | nil =>
          unfold setItems at h
          split at h
          · cases h
          · split at h
            · cases h
            · exact ih hrest ha h
      | cons v items =>
          obtain ⟨b, hread, h⟩ := bind_eq_ok h
          exact ih hrest (hfields field List.mem_cons_self v a b ha hread) h

/-- **What is true of the start and kept by every field is true of what is read.** -/
theorem asRecord_induction {start a : α} (hstart : P start) (hfields : ∀ f ∈ fields, f.Keeps P)
    {v : Json} (h : asRecord fields start v = .ok a) : P a := by
  cases v with
  | object members ending =>
      obtain ⟨⟨seen, b⟩, hmembers, h⟩ := bind_eq_ok h
      dsimp only at h
      split at h
      · cases h
      · split at h
        · cases h
          exact setMembers_keeps hfields hstart hmembers
        · cases h
  | array items ending => exact setItems_keeps hfields hstart h
  | null | bool _ | number _ | string _ | cut => cases h

end Keeping

end Json

end Aquarium

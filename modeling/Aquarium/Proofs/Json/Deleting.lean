import Aquarium.Proofs.Json.Building
import Aquarium.Proofs.Json.Records

/-!
# Objects that keys were deleted from

Keys are deleted from an object, and from the objects in it, by their paths. What is left is read like
the whole object, but that fields whose keys are gone are passed over.

* `without`: a value with keys deleted from it, at any depth;
* `Written.without`: what is left of a written value is a written value;
* `asRecord_without`: what is left of a record is read field by field.
-/

namespace Aquarium.Json

/-! ## 1. Deleting keys -/

/-- Of the paths that are gone, those within one member. -/
def inside (gone : List String → Bool) (key : String) : List String → Bool := fun path =>
  gone (key :: path)

mutual

/-- The value without the keys that are gone, each given by its path: its own name behind those of the
members around it. -/
def without : Json → (List String → Bool) → Json
  | .object members ending, gone => .object (withoutMembers members gone) ending
  | v, _ => v

/-- See `without`. -/
def withoutMembers :
    List (Option String × Json) → (List String → Bool) → List (Option String × Json)
  | [], _ => []
  | (none, v) :: rest, gone => (none, v) :: withoutMembers rest gone
  | (some key, v) :: rest, gone =>
    if gone [key] then withoutMembers rest gone
    else (some key, v.without (inside gone key)) :: withoutMembers rest gone

end

/-- Of a record the members that are not gone are left, each without what is gone inside it. -/
theorem record_without (members : List (String × Json)) (gone : List String → Bool) :
    (record members).without gone =
      record ((members.filter fun m => !gone [m.1]).map fun m =>
        (m.1, m.2.without (inside gone m.1))) := by
  refine congrArg (object · .closed) ?_
  induction members with
  | nil => rfl
  | cons m members ih =>
      obtain ⟨key, v⟩ := m
      rw [List.map_cons, withoutMembers, ih, List.filter_cons]
      cases gone [key] <;> rfl

/-! ## 2. What is left can be written -/

theorem mem_memberTokens_of_mem {m : Option String × Json} :
    ∀ {members : List (Option String × Json)}, m ∈ members →
      .string m.1 ∈ memberTokens members ∧ ∀ t ∈ m.2.tokens, t ∈ memberTokens members
  | [n], hm => by
    obtain rfl := List.mem_singleton.mp hm
    exact ⟨List.mem_cons_self, fun t ht => List.mem_cons_of_mem _ (List.mem_cons_of_mem _ ht)⟩
  | n :: k :: members, hm => by
    obtain ⟨key, v⟩ := n
    rw [memberTokens]
    rcases List.mem_cons.mp hm with rfl | hm
    · exact ⟨List.mem_cons_self, fun t ht => List.mem_cons_of_mem _
        (List.mem_cons_of_mem _ (List.mem_append_left _ ht))⟩
    · have hrest : ∀ t ∈ memberTokens (k :: members), t ∈ Token.string key :: .colon ::
          (v.tokens ++ .comma :: memberTokens (k :: members)) := fun t ht =>
        List.mem_cons_of_mem _ (List.mem_cons_of_mem _
          (List.mem_append_right _ (List.mem_cons_of_mem _ ht)))
      obtain ⟨hkey, htokens⟩ := mem_memberTokens_of_mem hm
      exact ⟨hrest _ hkey, fun t ht => hrest t (htokens t ht)⟩

theorem intact_of_mem {m : Option String × Json} {members : List (Option String × Json)}
    (h : intactMembers members = true) (hm : m ∈ members) : m.2.intact = true := by
  induction members with
  | nil => cases hm
  | cons n members ih =>
      obtain ⟨hn, hmembers⟩ := Bool.and_eq_true_iff.mp h
      rcases List.mem_cons.mp hm with rfl | hm
      · exact hn
      · exact ih hmembers hm

/-- An object can be written just if it is closed, its keys are texts and its values can be written. -/
theorem written_object_iff {members : List (Option String × Json)} {ending : Ending} :
    (Json.object members ending).Written ↔
      ending = .closed ∧ ∀ m ∈ members, m.1.isSome = true ∧ m.2.Written := by
  constructor
  · rintro ⟨hwhole, hlegible⟩
    obtain ⟨hclosed, hmembers⟩ := Bool.and_eq_true_iff.mp hwhole
    refine ⟨eq_of_beq hclosed, fun m hm => ?_⟩
    have hwithin : ∀ t ∈ memberTokens members, t.Legible := fun t ht =>
      hlegible t (List.mem_cons_of_mem _ (List.mem_append_left _ ht))
    obtain ⟨hkey, htokens⟩ := mem_memberTokens_of_mem hm
    exact ⟨hwithin _ hkey, intact_of_mem hmembers hm, fun t ht => hwithin t (htokens t ht)⟩
  · rintro ⟨rfl, hmembers⟩
    exact .object hmembers

mutual

/-- **What is left of a written value is a written value.** -/
theorem Written.without : ∀ {v : Json}, v.Written → ∀ gone, (v.without gone).Written
  | .object members ending, h, gone => by
    obtain ⟨hclosed, hmembers⟩ := written_object_iff.mp h
    exact written_object_iff.mpr ⟨hclosed, written_withoutMembers members hmembers gone⟩
  | .null, h, _ | .bool _, h, _ | .number _, h, _ | .string _, h, _ | .array _ _, h, _
  | .cut, h, _ => h

/-- See `Written.without`. -/
theorem written_withoutMembers : ∀ (members : List (Option String × Json)),
    (∀ m ∈ members, m.1.isSome = true ∧ m.2.Written) → ∀ gone,
      ∀ m ∈ withoutMembers members gone, m.1.isSome = true ∧ m.2.Written
  | [], _, _ => nofun
  | (none, v) :: rest, h, _ => absurd (h _ List.mem_cons_self).1 Bool.false_ne_true
  | (some key, v) :: rest, h, gone => by
    have hrest := written_withoutMembers rest (fun m hm => h m (List.mem_cons_of_mem _ hm)) gone
    rw [withoutMembers]
    split
    · exact hrest
    · exact List.forall_mem_cons.mpr
        ⟨⟨rfl, Written.without (h _ List.mem_cons_self).2 (inside gone key)⟩, hrest⟩

end

/-! ## 3. What is left is read -/

variable {α β : Type} {gone : List String → Bool}

/-- Sets the fields whose keys are not gone, each from what is left of its value. -/
def setKept (gone : List String → Bool) : List (Field α × Json) → α → Except ReadError α
  | [], a => .ok a
  | (f, v) :: rest, a =>
    if gone [f.key] then setKept gone rest a
    else do
      let a ← f.read (v.without (inside gone f.key)) a
      setKept gone rest a

/-- The fields that are not gone. -/
def kept (gone : List String → Bool) (fields : List (Field α × Json)) : List (Field α × Json) :=
  fields.filter fun p => !gone [p.1.key]

theorem setItems_kept (fields : List (Field α × Json)) (a : α) :
    setItems .closed ((kept gone fields).map Prod.fst)
        ((kept gone fields).map fun p => p.2.without (inside gone p.1.key)) a =
      setKept gone fields a := by
  induction fields generalizing a with
  | nil => rfl
  | cons p fields ih =>
      obtain ⟨f, v⟩ := p
      rw [kept, List.filter_cons, setKept]
      cases gone [f.key] with
      | true => exact ih a
      | false =>
          show (f.read _ a).bind _ = (f.read _ a).bind _
          exact congrArg _ (funext ih)

/-- **What is left of a record is read field by field**, if no field that must be given is gone. -/
theorem asRecord_without (fields : List (Field α × Json))
    (hkeys : ((fields.map Prod.fst).map Field.key).Nodup)
    (hrequired : ∀ p ∈ fields, p.1.required = true → gone [p.1.key] = false) (start : α) :
    asRecord (fields.map Prod.fst) start
        ((record (fields.map fun p => (p.1.key, p.2))).without gone) =
      setKept gone fields start := by
  have hsub : ((kept gone fields).map Prod.fst).Sublist (fields.map Prod.fst) :=
    List.filter_sublist.map _
  have hlength : ((kept gone fields).map fun p => p.2.without (inside gone p.1.key)).length =
      ((kept gone fields).map Prod.fst).length := by
    rw [List.length_map, List.length_map]
  have hmembers := setMembers_zip hkeys (fun f hf => hsub.subset hf) (hkeys.sublist (hsub.map _))
    hlength [] (fun f _ => List.not_mem_nil) start
  have hzip : (((kept gone fields).map Prod.fst).map Field.key).zip
      ((kept gone fields).map fun p => p.2.without (inside gone p.1.key)) =
        (kept gone fields).map fun p => (p.1.key, p.2.without (inside gone p.1.key)) := by
    rw [List.map_map, List.zip_map']
    rfl
  have hrecord : (record (fields.map fun p => (p.1.key, p.2))).without gone =
      record ((kept gone fields).map fun p => (p.1.key, p.2.without (inside gone p.1.key))) := by
    rw [record_without, List.filter_map, List.map_map]
    rfl
  rw [setItems_kept, hzip] at hmembers
  have hall : ((fields.map Prod.fst).all fun f => !f.required ||
      ((((kept gone fields).map Prod.fst).map Field.key).reverse ++ []).contains f.key) = true := by
    rw [List.all_eq_true]
    intro f hf
    obtain ⟨p, hp, rfl⟩ := List.mem_map.mp hf
    cases hneeded : p.1.required with
    | false => rfl
    | true =>
        have hkept : p ∈ kept gone fields :=
          List.mem_filter.mpr ⟨hp, by rw [hrequired p hp hneeded]; rfl⟩
        simpa [List.contains_eq_mem] using ⟨p.1, ⟨_, hkept⟩, rfl⟩
  rw [hrecord, record, asRecord, hmembers]
  cases setKept gone fields start with
  | error error => rfl
  | ok a => simp only [Except.map, bind, Except.bind, hall]; rfl

/-- A field is set to what is left of its value, or else stays as it was. -/
theorem setKept_cons {key : String} {required : Bool} {read : Json → Except ReadError β}
    {set : β → α → α} {v : Json} {rest : List (Field α × Json)} {a : α} {x y : β}
    (hset : set y a = a) (hread : gone [key] = false → read (v.without (inside gone key)) = .ok x) :
    setKept gone ((⟨key, required, fun v a => do return set (← read v) a⟩, v) :: rest) a =
      setKept gone rest (set (if gone [key] then y else x) a) := by
  rw [setKept]
  cases hgone : gone [key] with
  | true => rw [if_pos rfl, if_pos rfl, hset]
  | false =>
      rw [if_neg Bool.false_ne_true, if_neg Bool.false_ne_true]
      dsimp only
      rw [hread hgone]
      rfl

end Aquarium.Json

import Aquarium.Json.Decode
import Aquarium.Proofs.Json.Lexing

/-!
# Reading back a value

The tokens of a value, followed by any others, bring a reader from a state in which a value is due
to the state in which that value is in its place (`build_tokens`). So a value that is whole and
can be spelled (`Written`) is read from its file layout, with nothing behind it (`read_pretty`).
-/

namespace Aquarium

namespace Json

/-! ## 1. Steps -/

/-- A reader takes up a token that may come next. -/
theorem build_cons {s s' : State} {t : Token} (h : s.next? t = some s') (ts : List Token) :
    build s (t :: ts) = build s' ts := by
  cases s <;> first | cases h | simp only [build, h]

/-- Where an array may also end, a value is taken up as its first item. -/
theorem build_firstItem {v : Json} (hv : v.intact = true) (above : Place) (ts : List Token) :
    build (.firstItem above) (v.tokens ++ ts) =
      build (.value (.item above [])) (v.tokens ++ ts) := by
  cases v with
  | cut => cases hv
  | _ => rfl

/-! ## 2. Whole values -/

mutual

/-- **The tokens of a whole value put it in its place.** -/
theorem build_tokens : ∀ (v : Json), v.intact = true → ∀ (place : Place) (rest : List Token),
    build (.value place) (v.tokens ++ rest) = build (place.fill v) rest
  | .null, _, _, _ | .bool _, _, _, _ | .number _, _, _, _ | .string _, _, _, _ =>
    build_cons rfl _
  | .array items ending, hv, place, rest => by
    obtain ⟨hending, hitems⟩ := Bool.and_eq_true_iff.mp hv
    obtain rfl : ending = .closed := eq_of_beq hending
    rw [tokens, List.cons_append, List.append_assoc, List.singleton_append, build_cons rfl]
    cases items with
    | nil => exact build_cons rfl _
    | cons v vs =>
        have hfirst : (v.intact && intactItems vs) = true := hitems
        have hrest := build_itemTokens (v :: vs) (List.cons_ne_nil v vs) hitems place [] rest
        refine Eq.trans ?_ hrest
        cases vs <;>
          simp only [itemTokens, List.append_assoc, List.cons_append,
            build_firstItem (Bool.and_eq_true_iff.mp hfirst).1]
  | .object members ending, hv, place, rest => by
    obtain ⟨hending, hmembers⟩ := Bool.and_eq_true_iff.mp hv
    obtain rfl : ending = .closed := eq_of_beq hending
    rw [tokens, List.cons_append, List.append_assoc, List.singleton_append, build_cons rfl]
    cases members with
    | nil => exact build_cons rfl _
    | cons m ms =>
        have hrest := build_memberTokens (m :: ms) (List.cons_ne_nil m ms) hmembers place [] rest
        refine Eq.trans ?_ hrest
        cases ms <;> rfl
  | .cut, hv, _, _ => by cases hv

/-- The items of an array join those that are there. -/
theorem build_itemTokens : ∀ (items : List Json), items ≠ [] → intactItems items = true →
    ∀ (above : Place) (done : List Json) (rest : List Token),
      build (.value (.item above done)) (itemTokens items ++ .closeArray :: rest) =
        build (above.fill (.array (done.reverse ++ items) .closed)) rest
  | [], hne, _, _, _, _ => absurd rfl hne
  | [v], _, hv, above, done, rest => by
    rw [itemTokens, build_tokens v (Bool.and_eq_true_iff.mp hv).1, Place.fill, build_cons rfl,
      List.reverse_cons]
  | v :: w :: vs, _, hv, above, done, rest => by
    obtain ⟨hv, hvs⟩ := Bool.and_eq_true_iff.mp hv
    rw [itemTokens, List.append_assoc, build_tokens v hv, Place.fill, List.cons_append,
      build_cons rfl, build_itemTokens (w :: vs) (List.cons_ne_nil w vs) hvs, List.reverse_cons]
    simp

/-- The members of an object join those that are there. -/
theorem build_memberTokens : ∀ (members : List (Option String × Json)), members ≠ [] →
    intactMembers members = true →
    ∀ (above : Place) (done : List (Option String × Json)) (rest : List Token),
      build (.nextKey above done) (memberTokens members ++ .closeObject :: rest) =
        build (above.fill (.object (done.reverse ++ members) .closed)) rest
  | [], hne, _, _, _, _ => absurd rfl hne
  | [(key, v)], _, hv, above, done, rest => by
    rw [memberTokens, List.cons_append, List.cons_append, build_cons rfl, build_cons rfl,
      build_tokens v (Bool.and_eq_true_iff.mp hv).1, Place.fill, build_cons rfl, List.reverse_cons]
  | (key, v) :: m :: ms, _, hv, above, done, rest => by
    obtain ⟨hv, hms⟩ := Bool.and_eq_true_iff.mp hv
    rw [memberTokens, List.cons_append, List.cons_append, List.append_assoc, build_cons rfl,
      build_cons rfl, build_tokens v hv, Place.fill, List.cons_append, build_cons rfl,
      build_memberTokens (m :: ms) (List.cons_ne_nil m ms) hms, List.reverse_cons]
    simp

end

/-- A value that is whole and whose tokens can all be spelled. -/
structure Written (v : Json) : Prop where
  whole : v.intact = true
  legible : ∀ t ∈ v.tokens, t.Legible

/-- **A written value is read from its file layout**, with nothing behind it. -/
theorem read_pretty {v : Json} (hv : v.Written) : read v.pretty = (v, false) := by
  have hbuild := build_tokens v hv.whole .top []
  rw [List.append_nil] at hbuild
  rw [read, pretty, String.toList_ofList, read_layOut hv.legible, hbuild]
  rfl

theorem readText_pretty {α : Type} (reader : Json → Except ReadError α) {v : Json}
    (hv : v.Written) : readText reader v.pretty = reader v := by
  unfold readText
  rw [read_pretty hv]
  cases h : reader v <;> simp [bind, Except.bind, h]

/-! ## 3. What is written -/

namespace Written

theorem null : Json.null.Written :=
  ⟨rfl, fun t ht => by rw [List.mem_singleton.mp ht]; trivial⟩

theorem number {n : Numeral} (hn : n.Legible) : (Json.number n).Written :=
  ⟨rfl, fun t ht => by rw [List.mem_singleton.mp ht]; exact hn⟩

theorem nat (n : Nat) : (Json.nat n).Written := number fun _ hd => nomatch hd

theorem text (s : String) : (Json.text s).Written :=
  ⟨rfl, fun t ht => by rw [List.mem_singleton.mp ht]; rfl⟩

theorem mem_itemTokens {t : Token} : ∀ {items : List Json}, t ∈ itemTokens items →
    t = .comma ∨ ∃ v ∈ items, t ∈ v.tokens
  | [], ht => by cases ht
  | [v], ht => .inr ⟨v, List.mem_singleton_self v, ht⟩
  | v :: w :: vs, ht => by
    rcases List.mem_append.mp ht with ht | ht
    · exact .inr ⟨v, List.mem_cons_self, ht⟩
    · rcases List.mem_cons.mp ht with rfl | ht
      · exact .inl rfl
      · rcases mem_itemTokens ht with h | ⟨u, hu, htu⟩
        · exact .inl h
        · exact .inr ⟨u, List.mem_cons_of_mem v hu, htu⟩

theorem mem_memberTokens {t : Token} : ∀ {members : List (Option String × Json)},
    t ∈ memberTokens members →
      t = .comma ∨ t = .colon ∨ ∃ m ∈ members, t = .string m.1 ∨ t ∈ m.2.tokens
  | [], ht => by cases ht
  | [(key, v)], ht => by
    rcases List.mem_cons.mp ht with rfl | ht
    · exact .inr (.inr ⟨_, List.mem_singleton_self _, .inl rfl⟩)
    · rcases List.mem_cons.mp ht with rfl | ht
      · exact .inr (.inl rfl)
      · exact .inr (.inr ⟨_, List.mem_singleton_self _, .inr ht⟩)
  | (key, v) :: m :: ms, ht => by
    rcases List.mem_cons.mp ht with rfl | ht
    · exact .inr (.inr ⟨_, List.mem_cons_self, .inl rfl⟩)
    · rcases List.mem_cons.mp ht with rfl | ht
      · exact .inr (.inl rfl)
      · rcases List.mem_append.mp ht with ht | ht
        · exact .inr (.inr ⟨_, List.mem_cons_self, .inr ht⟩)
        · rcases List.mem_cons.mp ht with rfl | ht
          · exact .inl rfl
          · rcases mem_memberTokens ht with h | h | ⟨u, hu, htu⟩
            · exact .inl h
            · exact .inr (.inl h)
            · exact .inr (.inr ⟨u, List.mem_cons_of_mem _ hu, htu⟩)

theorem intactItems_of_forall {items : List Json} (h : ∀ v ∈ items, v.intact = true) :
    intactItems items = true := by
  induction items with
  | nil => rfl
  | cons v vs ih =>
      exact Bool.and_eq_true_iff.mpr
        ⟨h v List.mem_cons_self, ih fun w hw => h w (List.mem_cons_of_mem v hw)⟩

theorem list {items : List Json} (h : ∀ v ∈ items, v.Written) : (Json.list items).Written := by
  refine ⟨Bool.and_eq_true_iff.mpr ⟨rfl, intactItems_of_forall fun v hv => (h v hv).whole⟩,
    fun t ht => ?_⟩
  rcases List.mem_cons.mp ht with rfl | ht
  · trivial
  · rcases List.mem_append.mp ht with ht | ht
    · rcases mem_itemTokens ht with rfl | ⟨v, hv, htv⟩
      · trivial
      · exact (h v hv).legible t htv
    · rw [List.mem_singleton.mp ht]
      trivial

theorem intactMembers_of_forall {members : List (Option String × Json)}
    (h : ∀ m ∈ members, m.2.intact = true) : intactMembers members = true := by
  induction members with
  | nil => rfl
  | cons m ms ih =>
      exact Bool.and_eq_true_iff.mpr
        ⟨h m List.mem_cons_self, ih fun n hn => h n (List.mem_cons_of_mem m hn)⟩

theorem object {members : List (Option String × Json)}
    (h : ∀ m ∈ members, m.1.isSome = true ∧ m.2.Written) : (Json.object members .closed).Written := by
  refine ⟨Bool.and_eq_true_iff.mpr
    ⟨rfl, intactMembers_of_forall fun m hm => (h m hm).2.whole⟩, fun t ht => ?_⟩
  rcases List.mem_cons.mp ht with rfl | ht
  · trivial
  · rcases List.mem_append.mp ht with ht | ht
    · rcases mem_memberTokens ht with rfl | rfl | ⟨m, hm, rfl | htm⟩
      · trivial
      · trivial
      · exact (h m hm).1
      · exact (h m hm).2.legible t htm
    · rw [List.mem_singleton.mp ht]
      trivial

theorem record {members : List (String × Json)} (h : ∀ m ∈ members, m.2.Written) :
    (Json.record members).Written := by
  refine .object fun m hm => ?_
  obtain ⟨n, hn, rfl⟩ := List.mem_map.mp hm
  exact ⟨rfl, h n hn⟩

end Written

end Json

end Aquarium

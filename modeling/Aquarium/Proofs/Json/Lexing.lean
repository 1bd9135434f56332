import Aquarium.Json.Printer
import Aquarium.Proofs.Number.Digits
import Mathlib.Data.List.Chain

/-!
# Reading back the tokens of a text

A text spells a list of tokens when it is made up of their texts, with blanks between them, and no
text runs into the next one. Then these tokens are read from it.

* `Numeral.Legible`, `readNumber?_text`: a numeral is read back if its fraction is made up of
  digits;
* `readString_escaped`: every string is read back;
* `Spells`, `Spells.read`: what a text spells is read from it;
* `spells_layOut`, `read_layOut`: so the tokens of a value are read from its file layout.
-/

namespace Aquarium

/-- The fraction of a numeral is made up of digits. -/
def Numeral.Legible (n : Numeral) : Prop := ∀ d ∈ n.fraction, d < 10

namespace Token

open Numeral

/-! ## 1. Numbers -/

/-- A text that does not go on with what could belong to a number. -/
def EndsNumber (rest : List Char) : Prop :=
  ∀ c ∈ rest.head?, c.isDigit = false ∧ c ≠ '.' ∧ c ≠ 'e' ∧ c ≠ 'E'

theorem readDigits_append {ds : List Nat} (hds : ∀ d ∈ ds, d < 10) {rest : List Char}
    (hrest : ∀ c ∈ rest.head?, c.isDigit = false) :
    readDigits (ds.map Nat.digitChar ++ rest) = (ds, rest) := by
  induction ds with
  | nil =>
      cases rest with
      | nil => rfl
      | cons c rest =>
          have hc := hrest c rfl
          simp [readDigits, hc]
  | cons d ds ih =>
      have hd := hds d List.mem_cons_self
      have htail := ih fun e he => hds e (List.mem_cons_of_mem d he)
      simp only [readDigits, Prod.mk.injEq] at htail
      simp only [readDigits, List.map_cons, List.cons_append,
        List.takeWhile_cons_of_pos (isDigit_digitChar hd),
        List.dropWhile_cons_of_pos (isDigit_digitChar hd), htail.2]
      rw [htail.1, digitValue, toNat_digitChar_sub hd]

theorem readWhole?_append (n : Nat) {rest : List Char}
    (hrest : ∀ c ∈ rest.head?, c.isDigit = false) :
    readWhole? ((digitsOf n).map Nat.digitChar ++ rest) = some (n, rest) := by
  unfold readWhole?
  rw [readDigits_append (fun d hd => lt_of_mem_digitsOf hd) hrest]
  have hdigits := ofDigits_digitsOf n
  cases h : digitsOf n with
  | nil => exact absurd h (digitsOf_ne_nil n)
  | cons d ds =>
      rw [h] at hdigits
      cases ds with
      | nil => cases d <;> simp only [hdigits]
      | cons e ds =>
          cases d with
          | zero => exact absurd (eq_nil_of_digitsOf_eq_zero_cons h) (List.cons_ne_nil e ds)
          | succ d => simp only [hdigits]

theorem readFraction?_append {ds : List Nat} (hds : ∀ d ∈ ds, d < 10) {rest : List Char}
    (hrest : ∀ c ∈ rest.head?, c.isDigit = false ∧ c ≠ '.') :
    readFraction? ((if ds = [] then [] else '.' :: ds.map Nat.digitChar) ++ rest) =
      some (ds, rest) := by
  cases ds with
  | nil =>
      cases rest with
      | nil => rfl
      | cons c rest =>
          have hpoint : c ≠ '.' := (hrest c rfl).2
          unfold readFraction?
          split <;> simp_all
  | cons d ds =>
      have hdigits := readDigits_append hds fun c hc => (hrest c hc).1
      rw [if_neg (List.cons_ne_nil d ds), List.cons_append]
      simp only [readFraction?, hdigits]

theorem readExponent?_append (e : Int) {rest : List Char}
    (hrest : ∀ c ∈ rest.head?, c.isDigit = false) :
    readExponent? ('e' :: (if e < 0 then '-' else '+') ::
        ((digitsOf e.natAbs).map Nat.digitChar ++ rest)) = some (some e, rest) := by
  have hdigits := readDigits_append (fun d hd => lt_of_mem_digitsOf (n := e.natAbs) hd) hrest
  have hvalue := ofDigits_digitsOf e.natAbs
  cases h : digitsOf e.natAbs with
  | nil => exact absurd h (digitsOf_ne_nil _)
  | cons d ds =>
      rw [h] at hdigits hvalue
      by_cases he : e < 0
      · simp only [readExponent?, true_or, if_true, if_pos he, hdigits, hvalue, Option.some.injEq,
          Prod.mk.injEq, and_true]
        omega
      · simp only [readExponent?, true_or, if_true, if_neg he, hdigits, hvalue, Option.some.injEq,
          Prod.mk.injEq, and_true, Bool.false_eq_true, if_false]
        omega

theorem readExponent?_none {rest : List Char} (hrest : ∀ c ∈ rest.head?, c ≠ 'e' ∧ c ≠ 'E') :
    readExponent? rest = some (none, rest) := by
  cases rest with
  | nil => rfl
  | cons c rest =>
      obtain ⟨he, hE⟩ := hrest c rfl
      exact if_neg fun h => h.elim he hE

/-- The text of an exponent, if there is one. -/
def exponentText : Option Int → List Char
  | none => []
  | some e => 'e' :: (if e < 0 then '-' else '+') :: (digitsOf e.natAbs).map Nat.digitChar

theorem readExponent?_text (exponent : Option Int) {rest : List Char} (hrest : EndsNumber rest) :
    readExponent? (exponentText exponent ++ rest) = some (exponent, rest) := by
  cases exponent with
  | none => exact readExponent?_none fun c hc => (hrest c hc).2.2
  | some e => exact readExponent?_append e fun c hc => (hrest c hc).1

theorem head?_exponentText (exponent : Option Int) {rest : List Char} (hrest : EndsNumber rest) :
    ∀ c ∈ (exponentText exponent ++ rest).head?, c.isDigit = false ∧ c ≠ '.' := by
  cases exponent with
  | none => exact fun c hc => ⟨(hrest c hc).1, (hrest c hc).2.1⟩
  | some e =>
      intro c hc
      obtain rfl : 'e' = c := Option.some.inj hc
      decide

/-- The text of a numeral starts with its sign or a digit. -/
theorem exists_text_eq_cons (n : Numeral) :
    ∃ c cs, n.text = c :: cs ∧ (c = '-' ∨ c.isDigit = true) := by
  unfold Numeral.text
  cases n.negative with
  | true => exact ⟨'-', _, rfl, .inl rfl⟩
  | false =>
      cases h : digitsOf n.whole with
      | nil => exact absurd h (digitsOf_ne_nil _)
      | cons d ds =>
          have hd : d < 10 := lt_of_mem_digitsOf (h ▸ List.mem_cons_self)
          exact ⟨Nat.digitChar d, _, rfl, .inr (isDigit_digitChar hd)⟩

/-- **A legible numeral is read back.** -/
theorem readNumber?_text {n : Numeral} (hn : n.Legible) {rest : List Char}
    (hrest : EndsNumber rest) : readNumber? (n.text ++ rest) = some (n, rest) := by
  obtain ⟨negative, whole, fraction, exponent⟩ := n
  have hexponent := readExponent?_text exponent hrest
  have hfraction := readFraction?_append hn (head?_exponentText exponent hrest)
  have hhead : ∀ c ∈ ((if fraction = [] then [] else '.' :: fraction.map Nat.digitChar) ++
      (exponentText exponent ++ rest)).head?, c.isDigit = false := by
    intro c hc
    split at hc
    · exact (head?_exponentText exponent hrest c hc).1
    · obtain rfl : '.' = c := Option.some.inj hc
      decide
  have hwhole := readWhole?_append whole hhead
  have htext : (Numeral.mk negative whole fraction exponent).text ++ rest =
      (if negative then ['-'] else []) ++ ((digitsOf whole).map Nat.digitChar ++
        ((if fraction = [] then [] else '.' :: fraction.map Nat.digitChar) ++
          (exponentText exponent ++ rest))) := by
    unfold Numeral.text exponentText
    cases exponent <;> simp only [List.append_assoc]
  rw [htext]
  cases negative with
  | true =>
      simp only [readNumber?, if_true, List.singleton_append, hwhole, hfraction, hexponent,
        Option.bind_eq_bind, Option.bind_some]
      rfl
  | false =>
      simp only [Bool.false_eq_true, if_false, List.nil_append]
      unfold readNumber?
      split
      rename_i sign digits hsign
      split at hsign
      · -- a digit is no sign
        rename_i r hr
        cases h : digitsOf whole with
        | nil => exact absurd h (digitsOf_ne_nil _)
        | cons d ds =>
            have hd : d < 10 := lt_of_mem_digitsOf (h ▸ List.mem_cons_self)
            rw [h, List.map_cons, List.cons_append] at hr
            have hminus := isDigit_digitChar hd
            rw [(List.cons.inj hr).1] at hminus
            cases hminus
      · obtain ⟨rfl, rfl⟩ := Prod.mk.inj hsign
        simp only [hwhole, hfraction, hexponent, Option.bind_eq_bind, Option.bind_some]
        rfl

/-! ## 2. Strings -/

theorem hexValue?_digitChar : ∀ d, d < 16 → hexValue? (Nat.digitChar d) = some d := by decide

theorem pushNumber_of_lt {l : List Char} {c : Char} (hc : c < ' ') :
    Reading.pushNumber ⟨some l, none⟩ c.toNat = ⟨some (c :: l), none⟩ := by
  have hlt : c.toNat < 32 := hc
  have hfirst : isFirstHalf c.toNat = false := by
    rw [isFirstHalf, Bool.and_eq_false_iff]
    exact .inl (decide_eq_false (by omega))
  have hsecond : isSecondHalf c.toNat = false := by
    rw [isSecondHalf, Bool.and_eq_false_iff]
    exact .inl (decide_eq_false (by omega))
  simp [Reading.pushNumber, hfirst, hsecond, Char.ofNat_toNat, Reading.push]

/-- A character is read back from the way it is written. -/
theorem readString_escaped_append (l : List Char) (c : Char) (rest : List Char) :
    readString ⟨some l, none⟩ (escaped c ++ rest) = readString ⟨some (c :: l), none⟩ rest := by
  unfold escaped
  split
  all_goals try simp [readString, unescape?, Reading.push]
  rename_i hquote hslash _ _ _ _ _
  split
  · rename_i hc
    have hlt : c.toNat < 32 := hc
    have hvalues : hexValues? '0' '0' (Nat.digitChar (c.toNat / 16))
        (Nat.digitChar (c.toNat % 16)) = some c.toNat := by
      have hzero : hexValue? '0' = some 0 := by decide
      simp only [hexValues?, hzero, hexValue?_digitChar _ (show c.toNat / 16 < 16 by omega),
        hexValue?_digitChar _ (show c.toNat % 16 < 16 by omega), Option.bind_eq_bind,
        Option.bind_some]
      show some _ = some _
      congr 1
      omega
    simp only [List.cons_append, List.nil_append, readString, hvalues, pushNumber_of_lt hc]
  · rename_i hc
    rw [List.singleton_append, readString.eq_def]
    split
    all_goals try (simp_all; done)
    rename_i heq
    obtain ⟨rfl, rfl⟩ := List.cons.inj heq
    rw [if_neg hc]
    rfl

/-- **Every string is read back.** -/
theorem readString_escaped (s rest : List Char) :
    readString .start (s.flatMap escaped ++ '"' :: rest) = some (some (String.ofList s), rest) := by
  have h : ∀ (s l : List Char), readString ⟨some l, none⟩ (s.flatMap escaped ++ '"' :: rest) =
      some (some (String.ofList (l.reverse ++ s)), rest) := by
    intro s
    induction s with
    | nil =>
        intro l
        rw [List.append_nil]
        rfl
    | cons c s ih =>
        intro l
        rw [List.flatMap_cons, List.append_assoc, readString_escaped_append, ih,
          List.reverse_cons, List.append_assoc, List.singleton_append]
  exact h s []

/-! ## 3. One token -/

/-- The token has a text from which it can be read. -/
def Legible : Token → Prop
  | number n => n.Legible
  | string s => s.isSome = true
  | unreadable => False
  | _ => True

/-- The token is a number. -/
def isNumber : Token → Bool
  | number _ => true
  | _ => false

/-- What starts with a sign or a digit is a number or nothing. -/
theorem readOne?_cons_of_number {c : Char} (hc : c = '-' ∨ c.isDigit = true) (cs : List Char) :
    readOne? (c :: cs) = (readNumber? (c :: cs)).map fun (n, rest) => (number n, rest) := by
  unfold readOne?
  split
  all_goals try rfl
  all_goals
    rename_i h
    obtain ⟨rfl, -⟩ := List.cons.inj h
    exact absurd hc (by decide)

/-- **A legible token is read back**; a number only where it ends. -/
theorem readOne?_text {t : Token} (ht : t.Legible) {rest : List Char}
    (hrest : t.isNumber = true → EndsNumber rest) :
    readOne? (t.text ++ rest) = some (t, rest) := by
  cases t with
  | number n =>
      obtain ⟨c, cs, htext, hc⟩ := exists_text_eq_cons n
      have hnumber := readNumber?_text ht (hrest rfl)
      rw [text, htext, List.cons_append] at *
      rw [readOne?_cons_of_number hc, hnumber]
      rfl
  | string s =>
      obtain ⟨s, rfl⟩ := Option.isSome_iff_exists.mp ht
      have hstring := readString_escaped s.toList rest
      simp only [text, Option.getD_some, List.cons_append, List.append_assoc, List.nil_append,
        readOne?, hstring, Option.map_some, String.ofList_toList]
  | unreadable => exact ht.elim
  | bool b => cases b <;> rfl
  | openArray | closeArray | openObject | closeObject | comma | colon | null => rfl

theorem exists_text_eq_cons_of_legible {t : Token} (ht : t.Legible) :
    ∃ c cs, t.text = c :: cs ∧ isBlank c = false := by
  cases t with
  | number n =>
      obtain ⟨c, cs, htext, hc⟩ := exists_text_eq_cons n
      refine ⟨c, cs, htext, ?_⟩
      rcases hc with rfl | hc
      · decide
      · refine Bool.eq_false_iff.mpr fun hblank => ?_
        simp only [isBlank, Bool.or_eq_true, decide_eq_true_eq] at hblank
        rcases hblank with ((rfl | rfl) | rfl) | rfl <;> revert hc <;> decide
  | unreadable => exact ht.elim
  | bool b => cases b <;> exact ⟨_, _, rfl, by decide⟩
  | string | openArray | closeArray | openObject | closeObject | comma | colon | null =>
      exact ⟨_, _, rfl, by decide⟩

/-! ## 4. Texts -/

/-- A text spells tokens: it is made up of their texts, with blanks between them, and no number runs
into what follows it. -/
inductive Spells : List Token → List Char → Prop where
  | nil : Spells [] []
  | blank {ts : List Token} {cs : List Char} {c : Char} (hc : isBlank c = true)
      (h : Spells ts cs) : Spells ts (c :: cs)
  | token {ts : List Token} {cs : List Char} {t : Token} (ht : t.Legible)
      (hends : t.isNumber = true → EndsNumber cs) (h : Spells ts cs) :
      Spells (t :: ts) (t.text ++ cs)

theorem readUpTo_nil (bound : Nat) : readUpTo bound [] = [] := by
  cases bound <;> rfl

theorem readUpTo_blank {c : Char} (hc : isBlank c = true) (bound : Nat) (cs : List Char) :
    readUpTo bound (c :: cs) = readUpTo bound cs := by
  cases bound with
  | zero => rfl
  | succ bound => rw [readUpTo, readUpTo, List.dropWhile_cons_of_pos hc]

theorem readUpTo_text {t : Token} (ht : t.Legible) {cs : List Char}
    (hends : t.isNumber = true → EndsNumber cs) (bound : Nat) :
    readUpTo (bound + 1) (t.text ++ cs) = t :: readUpTo bound cs := by
  have hone := readOne?_text ht hends
  obtain ⟨c, l, htext, hc⟩ := exists_text_eq_cons_of_legible ht
  rw [htext, List.cons_append] at hone ⊢
  rw [readUpTo, List.dropWhile_cons_of_neg (by rw [hc]; decide)]
  simp only [hone]

/-- **What a text spells is read from it.** -/
theorem Spells.read {ts : List Token} {cs : List Char} (h : Spells ts cs) : Token.read cs = ts := by
  have hbound : ∀ bound, cs.length ≤ bound → readUpTo bound cs = ts := by
    induction h with
    | nil => exact fun bound _ => readUpTo_nil bound
    | blank hc _ ih =>
        intro bound hb
        rw [readUpTo_blank hc]
        exact ih bound (Nat.le_of_succ_le hb)
    | @token ts cs t ht hends _ ih =>
        intro bound hb
        obtain ⟨c, l, htext, -⟩ := exists_text_eq_cons_of_legible ht
        have hlength : cs.length + 1 ≤ bound := by
          rw [htext, List.cons_append, List.length_cons, List.length_append] at hb
          omega
        obtain ⟨bound, rfl⟩ : ∃ b, bound = b + 1 := ⟨bound - 1, by omega⟩
        rw [readUpTo_text ht hends, ih bound (by omega)]
  exact hbound cs.length (Nat.le_refl _)

theorem Spells.blanks {ts : List Token} {cs : List Char} (h : Spells ts cs) {blanks : List Char}
    (hblanks : ∀ c ∈ blanks, isBlank c = true) : Spells ts (blanks ++ cs) := by
  induction blanks with
  | nil => exact h
  | cons c blanks ih =>
      exact .blank (hblanks c List.mem_cons_self)
        (ih fun d hd => hblanks d (List.mem_cons_of_mem c hd))

/-- No number stands directly behind another. -/
def Apart (ts : List Token) : Prop := ts.IsChain fun t u => t.isNumber = true → u.isNumber = false

end Token

namespace Json

open Token

theorem isBlank_of_mem_lineBreak {depth : Nat} {c : Char} (h : c ∈ lineBreak depth) :
    isBlank c = true := by
  rcases List.mem_cons.mp h with rfl | h
  · decide
  · rw [(List.mem_replicate.mp h).2]
    decide

/-- A number ends where another token is laid out behind it. -/
theorem endsNumber_layOut (depth : Nat) {ts : List Token} (hts : ∀ t ∈ ts, t.Legible)
    (hhead : ∀ t ∈ ts.head?, t.isNumber = false) : EndsNumber (layOut depth ts) := by
  cases ts with
  | nil => exact fun c hc => nomatch hc
  | cons t ts =>
      have ht := hts t List.mem_cons_self
      have hnumber := hhead t rfl
      intro c hc
      cases t with
      | number n => cases hnumber
      | unreadable => exact ht.elim
      | bool b =>
          cases b <;> obtain rfl := Option.some.inj hc <;> decide
      | openArray =>
          rw [layOut.eq_def] at hc
          split at hc <;> simp_all
          all_goals obtain rfl := hc
          all_goals decide
      | openObject =>
          rw [layOut.eq_def] at hc
          split at hc <;> simp_all
          all_goals obtain rfl := hc
          all_goals decide
      | string | closeArray | closeObject | comma | colon | null =>
          obtain rfl := Option.some.inj hc
          decide

theorem Apart.tail {t : Token} {ts : List Token} (h : Apart (t :: ts)) : Apart ts :=
  (List.isChain_cons.mp h).2

/-- **The file layout spells its tokens.** -/
theorem spells_layOut (depth : Nat) (ts : List Token) (hts : ∀ t ∈ ts, t.Legible)
    (hapart : Apart ts) : Spells ts (layOut depth ts) := by
  fun_induction layOut depth ts with
  | case1 => exact .nil
  | case2 depth ts ih =>
      exact .token trivial nofun (.token trivial nofun
        (ih (fun t ht => hts t (by simp [ht])) hapart.tail.tail))
  | case3 depth ts ih =>
      exact .token trivial nofun (.token trivial nofun
        (ih (fun t ht => hts t (by simp [ht])) hapart.tail.tail))
  | case4 depth ts _ ih =>
      exact .token trivial nofun (.blanks (ih (fun t ht => hts t (by simp [ht])) hapart.tail)
        fun c hc => isBlank_of_mem_lineBreak hc)
  | case5 depth ts _ ih =>
      exact .token trivial nofun (.blanks (ih (fun t ht => hts t (by simp [ht])) hapart.tail)
        fun c hc => isBlank_of_mem_lineBreak hc)
  | case6 depth ts ih =>
      exact .blanks (.token (t := .closeArray) trivial nofun
        (ih (fun t ht => hts t (by simp [ht])) hapart.tail)) fun c hc => isBlank_of_mem_lineBreak hc
  | case7 depth ts ih =>
      exact .blanks (.token (t := .closeObject) trivial nofun
        (ih (fun t ht => hts t (by simp [ht])) hapart.tail)) fun c hc => isBlank_of_mem_lineBreak hc
  | case8 depth ts ih =>
      exact .token trivial nofun (.blanks (ih (fun t ht => hts t (by simp [ht])) hapart.tail)
        fun c hc => isBlank_of_mem_lineBreak hc)
  | case9 depth ts ih =>
      exact .token trivial nofun (.blank (by decide)
        (ih (fun t ht => hts t (by simp [ht])) hapart.tail))
  | case10 depth t ts _ _ _ _ _ _ _ _ ih =>
      have htail : ∀ u ∈ ts, u.Legible := fun u hu => hts u (List.mem_cons_of_mem t hu)
      refine .token (hts t List.mem_cons_self) (fun hnumber => ?_) (ih htail hapart.tail)
      exact endsNumber_layOut depth htail fun u hu => (List.isChain_cons.mp hapart).1 u hu hnumber

/-! ## 5. The tokens of a value -/

/-- Tokens on both sides of one that is no number do not touch. -/
theorem Apart.append {ts us : List Token} {t : Token} (hts : Apart ts) (ht : t.isNumber = false)
    (hus : Apart us) : Apart (ts ++ t :: us) := by
  refine List.IsChain.append hts (List.isChain_cons.mpr ⟨fun u _ hn => ?_, hus⟩) ?_
  · rw [ht] at hn
    cases hn
  · intro u _ v hv _
    obtain rfl := Option.some.inj hv
    exact ht

mutual

/-- In the tokens of a value no number stands directly behind another. -/
theorem apart_tokens : ∀ v : Json, Apart v.tokens
  | .null | .bool _ | .number _ | .string _ => List.IsChain.singleton _
  | .array items _ =>
    Apart.append .nil rfl (Apart.append (apart_itemTokens items) rfl .nil)
  | .object members _ =>
    Apart.append .nil rfl (Apart.append (apart_memberTokens members) rfl .nil)
  | .cut => .nil

/-- See `apart_tokens`. -/
theorem apart_itemTokens : ∀ items : List Json, Apart (itemTokens items)
  | [] => .nil
  | [v] => apart_tokens v
  | v :: w :: vs => Apart.append (apart_tokens v) rfl (apart_itemTokens (w :: vs))

/-- See `apart_tokens`. -/
theorem apart_memberTokens : ∀ members : List (Option String × Json), Apart (memberTokens members)
  | [] => .nil
  | [(_, v)] => Apart.append .nil rfl (Apart.append .nil rfl (apart_tokens v))
  | (_, v) :: m :: ms =>
    Apart.append .nil rfl (Apart.append .nil rfl
      (Apart.append (apart_tokens v) rfl (apart_memberTokens (m :: ms))))

end

/-- **The tokens of a value are read from its file layout**, if each of them can be read. -/
theorem read_layOut {v : Json} (hv : ∀ t ∈ v.tokens, t.Legible) :
    Token.read (layOut 0 v.tokens) = v.tokens :=
  (spells_layOut 0 v.tokens hv (apart_tokens v)).read

end Json

end Aquarium

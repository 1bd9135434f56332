import Aquarium.Proofs.Number.Digits
import Aquarium.Proofs.Number.Double
import Aquarium.Proofs.Number.Shortest

/-!
# What a written decimal is read as

A decimal form is written with or without an exponent, and zeros are added on either side. What is
read is a significand and a power of ten, and these are the number of the decimal form again.

* `Numeral.toDouble?_of_fits`: the significand is all the digits, if these fit a word;
* `Numeral.value?_ofDecimal`: the significand and the power of ten of a decimal form.
-/

namespace Aquarium

namespace Numeral

/-! ## 1. Significands -/

/-- The number that some digits behind a number make of it. -/
def followedBy (n : Nat) (ds : List Nat) : Nat := ds.foldl (fun n d => n * 10 + d) n

theorem followedBy_cons (n d : Nat) (ds : List Nat) :
    followedBy n (d :: ds) = followedBy (n * 10 + d) ds := rfl

theorem le_followedBy (n : Nat) (ds : List Nat) : n ≤ followedBy n ds := by
  induction ds generalizing n with
  | nil => exact le_refl n
  | cons d ds ih =>
      have := ih (n * 10 + d)
      rw [followedBy_cons]
      omega

theorem followedBy_append (n : Nat) (ds es : List Nat) :
    followedBy n (ds ++ es) = followedBy (followedBy n ds) es := List.foldl_append

theorem followedBy_zero_digitsOf (n : Nat) : followedBy 0 (digitsOf n) = n := ofDigits_digitsOf n

theorem takeWhole_of_fits {n : Nat} {ds : List Nat} (h : followedBy n ds < word64) :
    takeWhole n ds = (followedBy n ds, 0) := by
  induction ds generalizing n with
  | nil => rfl
  | cons d ds ih =>
      rw [followedBy_cons] at h ⊢
      have := le_followedBy (n * 10 + d) ds
      rw [takeWhole, if_pos (by omega), ih h]

theorem takeFraction_of_fits {n : Nat} {ds : List Nat} (h : followedBy n ds < word64) :
    takeFraction n ds = (followedBy n ds, ds.length) := by
  induction ds generalizing n with
  | nil => rfl
  | cons d ds ih =>
      rw [followedBy_cons] at h ⊢
      have := le_followedBy (n * 10 + d) ds
      rw [takeFraction, if_pos (by omega), ih h]
      rfl

/-- **All the digits are the significand**, if they fit a word. -/
theorem toDouble?_of_fits {n : Numeral} (h : followedBy n.whole n.fraction < word64) :
    n.toDouble? = (scale (Double.ofInt (followedBy n.whole n.fraction))
      (n.exponent.getD 0 - n.fraction.length)).map fun x => if n.negative then -x else x := by
  have hwhole : followedBy 0 (digitsOf n.whole) < word64 := by
    have := le_followedBy n.whole n.fraction
    rw [followedBy_zero_digitsOf]
    omega
  rw [toDouble?, takeWhole_of_fits hwhole, followedBy_zero_digitsOf]
  dsimp only
  rw [takeFraction_of_fits h]
  dsimp only
  congr 2
  push_cast
  ring

/-! ## 2. The digits of a decimal form -/

theorem followedBy_zeros (places : Nat) (ds : List Nat) :
    followedBy 0 (List.replicate places 0 ++ ds) = followedBy 0 ds := by
  induction places with
  | zero => rfl
  | succ places ih => exact ih

/-- The digits before and behind the point are all the digits. -/
theorem followedBy_positionalParts {d : Decimal} (he : d.exponent < 0) :
    followedBy (positionalParts d).1 (positionalParts d).2 = d.digits ∧
      ((positionalParts d).2.length : Int) = -d.exponent := by
  unfold positionalParts
  rw [if_neg (by omega)]
  dsimp only
  generalize hpadded : List.replicate ((-d.exponent).toNat + 1 - (digitsOf d.digits).length) 0 ++
    digitsOf d.digits = padded
  have hlength : (-d.exponent).toNat + 1 ≤ padded.length := by
    rw [← hpadded, List.length_append, List.length_replicate]
    omega
  constructor
  · show followedBy (followedBy 0 _) _ = _
    rw [← followedBy_append, List.take_append_drop, ← hpadded, followedBy_zeros,
      followedBy_zero_digitsOf]
  · rw [List.length_drop]
    omega

theorem exists_digitsOf_cons (n : Nat) : ∃ d ds, digitsOf n = d :: ds ∧ d < 10 := by
  obtain ⟨d, ds, h⟩ := List.exists_cons_of_ne_nil (digitsOf_ne_nil n)
  exact ⟨d, ds, h, lt_of_mem_digitsOf (h ▸ List.mem_cons_self)⟩

theorem length_digitsOf {n : Nat} (hn : 0 < n) : (digitsOf n).length = Decimal.digitCount n := by
  rw [digitsOf, List.length_map, Decimal.digitCount, if_neg hn.ne']

/-- A number that is written without an exponent has no more than thirteen digits. -/
theorem whole_lt_of_positional {d : Decimal} {k : Nat} (hk : d.exponent = k)
    (h : positional d.leading = true) : d.digits * 10 ^ k < 10 ^ 13 := by
  have hlt := Decimal.lt_pow_digitCount d.digits
  have hleading : d.leading < 13 := of_decide_eq_true (Bool.and_eq_true_iff.mp h).2
  rw [Decimal.leading] at hleading
  calc d.digits * 10 ^ k < 10 ^ Decimal.digitCount d.digits * 10 ^ k :=
        Nat.mul_lt_mul_of_pos_right hlt (Nat.pow_pos (by decide))
    _ = 10 ^ (Decimal.digitCount d.digits + k) := (Nat.pow_add _ _ _).symm
    _ ≤ 10 ^ 13 := Nat.pow_le_pow_right (by decide) (by omega)

section Reading

variable {negative : Bool} {n : Numeral}

/-- A numeral with a fraction or an exponent stands for a double. -/
theorem value?_of_fits (hreal : n.fraction ≠ [] ∨ n.exponent ≠ none) {s : Nat} {e : Int}
    (hs : followedBy n.whole n.fraction = s) (hfits : s < word64)
    (he : n.exponent.getD 0 - n.fraction.length = e) :
    n.value? = ((scale (Double.ofInt s) e).map fun x => if n.negative then -x else x).map .real := by
  have hnot : ¬ (n.fraction = [] ∧ n.exponent = none ∧
      (if n.negative then n.whole ≠ 0 ∧ 2 * n.whole ≤ word64 else n.whole < word64)) := by
    rintro ⟨hfraction, hexponent, -⟩
    exact hreal.elim (fun h => h hfraction) fun h => h hexponent
  rw [value?, if_neg hnot, toDouble?_of_fits (by rw [hs]; exact hfits), hs, he]

/-- **What a decimal form is read as**: a significand and a power of ten that make the same number.
The power is that of the form, or the significand has a zero behind the point. -/
theorem value?_ofDecimal {d : Decimal} (hpos : 0 < d.digits) (hsmall : d.digits < 2 ^ 53) :
    ∃ (s : Nat) (e : Int), 0 < s ∧ s < 2 ^ 53 ∧ s * (10 : ℚ) ^ e = d.value ∧
      (e = d.exponent ∨ e = -1) ∧
      ∀ negative : Bool, (ofDecimal negative d).value? =
        ((scale (Double.ofInt s) e).map fun x => if negative then -x else x).map .real := by
  have hword : (2 : Nat) ^ 53 < word64 := by decide
  by_cases hpositional : positional d.leading = true
  · by_cases he : 0 ≤ d.exponent
    · obtain ⟨k, hk⟩ := Int.eq_ofNat_of_zero_le he
      have hwhole := whole_lt_of_positional hk hpositional
      have hparts : positionalParts d = (d.digits * 10 ^ k, []) := by
        rw [positionalParts, if_pos he, hk]
        rfl
      refine ⟨d.digits * 10 ^ k * 10, -1, by positivity, by omega, ?_, .inr rfl,
        fun negative => ?_⟩
      · rw [Decimal.value, hk, zpow_natCast, zpow_neg_one]
        push_cast
        exact mul_inv_cancel_right₀ (by norm_num) _
      · rw [ofDecimal, if_neg hpos.ne', if_pos hpositional, hparts]
        exact value?_of_fits (.inl (List.cons_ne_nil _ _)) rfl (by omega) rfl
    · obtain ⟨hdigits, hplaces⟩ := followedBy_positionalParts (not_le.mp he)
      refine ⟨d.digits, d.exponent, hpos, hsmall, rfl, .inl rfl, fun negative => ?_⟩
      rw [ofDecimal, if_neg hpos.ne', if_pos hpositional]
      rcases hparts : positionalParts d with ⟨whole, _ | ⟨first, fraction⟩⟩
      · rw [hparts] at hplaces
        simp only [List.length_nil, Nat.cast_zero] at hplaces
        omega
      · rw [hparts] at hdigits hplaces
        refine value?_of_fits (.inl (List.cons_ne_nil _ _)) hdigits (hsmall.trans hword) ?_
        dsimp only at hplaces ⊢
        rw [Option.getD_none, hplaces, zero_sub, neg_neg]
  · obtain ⟨first, rest, hdigits, hfirst⟩ := exists_digitsOf_cons d.digits
    have hcount := length_digitsOf hpos
    have hvalue := followedBy_zero_digitsOf d.digits
    rw [hdigits] at hcount hvalue
    refine ⟨d.digits, d.exponent, hpos, hsmall, rfl, .inl rfl, fun negative => ?_⟩
    rw [ofDecimal, if_neg hpos.ne', if_neg hpositional, hdigits]
    refine value?_of_fits (.inr (Option.some_ne_none _)) ?_ (hsmall.trans hword) ?_
    · rw [followedBy_cons, Nat.zero_mul, Nat.zero_add] at hvalue
      exact hvalue
    · rw [List.length_cons] at hcount
      simp only [Option.getD_some, List.tail_cons, Decimal.leading]
      omega

end Reading

end Numeral

end Aquarium

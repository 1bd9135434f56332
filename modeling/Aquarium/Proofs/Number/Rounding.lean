import Aquarium.Proofs.Number.Packing

/-!
# Rounding to the nearest number

An operation on numbers of a format computes the first bits of the exact result and two more, from
which it is rounded. All of them round the exact result to the nearest number of the format.

* `Tells`: what a mantissa and the bits behind it say of a number, which shifts preserve;
* `roundWithAccuracy_eq`: the number is rounded to the nearest integer at the exponent of the format;
* `rounded_round`, `rounded_mul`, `rounded_div`: the same of conversions, products and quotients;
* `Rounded.eq_finite`: the number of the format that the exact result is nearest to is the result;
* `Rounded.exists_finite`: rounding moves a number by half a place at most.
-/

namespace Aquarium

open Float.Model (UnpackedFloat Format totalExponent)
open Float.Model.UnpackedFloat

/-! ## 1. The nearest integer -/

/-- The integer next to a number, the even one of two. -/
structure Nearest (x : ℚ) (n : Nat) : Prop where
  near : |x - n| ≤ 1 / 2
  even : |x - n| = 1 / 2 → n % 2 = 0

theorem Nearest.le_of_lt {x : ℚ} {n k : Nat} (hn : Nearest x n) (hk : Nearest x k) : n ≤ k := by
  refine Nat.not_lt.mp fun hlt => ?_
  have hgap : (k : ℚ) + 1 ≤ n := by exact_mod_cast hlt
  have hlow := abs_le.mp hn.near
  have hhigh := abs_le.mp hk.near
  have hx : x - n = -(1 / 2) := by linarith
  have hx' : x - k = 1 / 2 := by linarith
  have heven := hn.even (by rw [hx]; norm_num)
  have heven' := hk.even (by rw [hx']; norm_num)
  have hnext : (n : ℚ) = k + 1 := by linarith
  have : n = k + 1 := by exact_mod_cast hnext
  omega

/-- There is but one. -/
theorem Nearest.unique {x : ℚ} {n k : Nat} (hn : Nearest x n) (hk : Nearest x k) : n = k :=
  Nat.le_antisymm (hn.le_of_lt hk) (hk.le_of_lt hn)

theorem nearest_natCast (n : Nat) : Nearest n n := by
  constructor
  · norm_num
  · intro h
    norm_num at h

theorem nearest_div_iff {x u : ℚ} {n : Nat} (hu : 0 < u) :
    Nearest (x / u) n ↔ |x - n * u| ≤ u / 2 ∧ (|x - n * u| = u / 2 → n % 2 = 0) := by
  have hsame : |x / u - n| = |x - n * u| / u := by
    rw [← abs_of_pos hu, ← abs_div, abs_of_pos hu, sub_div, mul_div_cancel_right₀ _ hu.ne']
  have hle : |x - n * u| / u ≤ 1 / 2 ↔ |x - n * u| ≤ u / 2 := by
    rw [div_le_iff₀ hu, one_div_mul_eq_div]
  have heq : |x - n * u| / u = 1 / 2 ↔ |x - n * u| = u / 2 := by
    rw [div_eq_iff hu.ne', one_div_mul_eq_div]
  constructor
  · rintro ⟨hnear, heven⟩
    rw [hsame] at hnear heven
    exact ⟨hle.mp hnear, fun h => heven (heq.mpr h)⟩
  · rintro ⟨hnear, heven⟩
    constructor
    · rw [hsame]
      exact hle.mpr hnear
    · rw [hsame]
      exact fun h => heven (heq.mp h)

/-! ## 2. Bits behind the mantissa -/

/-- What a mantissa and the two bits behind it tell of a number. -/
def Tells : ExtendedMantissa → ℚ → Prop
  | ⟨m, false, false⟩, x => x = m
  | ⟨m, false, true⟩, x => m < x ∧ x < m + 1 / 2
  | ⟨m, true, false⟩, x => x = m + 1 / 2
  | ⟨m, true, true⟩, x => m + 1 / 2 < x ∧ x < m + 1

section Bits

variable {em : ExtendedMantissa} {x : ℚ}

/-- The mantissa is the whole part. -/
theorem Tells.bounds (h : Tells em x) : em.mantissa ≤ x ∧ x < em.mantissa + 1 := by
  obtain ⟨m, roundBit, stickyBit⟩ := em
  cases roundBit <;> cases stickyBit <;> simp only [Tells] at h ⊢ <;> constructor <;> linarith

theorem one_bne_zero : ((1 : Nat) != 0) = true := rfl

/-- A shift by one place halves. -/
theorem Tells.shiftRightOne (h : Tells em x) : Tells em.shiftRightOne (x / 2) := by
  obtain ⟨m, roundBit, stickyBit⟩ := em
  have hsplit : (m : ℚ) = 2 * (m / 2 : Nat) + (m % 2 : Nat) := by
    exact_mod_cast (Nat.div_add_mod m 2).symm
  rcases Nat.mod_two_eq_zero_or_one m with hbit | hbit <;> rw [hbit] at hsplit <;>
    cases roundBit <;> cases stickyBit <;>
    simp only [Tells, ExtendedMantissa.shiftRightOne, hbit, bne_self_eq_false, Bool.or_false,
      Bool.or_true, Nat.cast_zero, Nat.cast_one, one_bne_zero] at h hsplit ⊢ <;>
    first
      | linarith
      | exact ⟨by linarith, by linarith⟩

theorem Tells.shiftRight (h : Tells em x) (k : Nat) : Tells (em >>> k) (x / 2 ^ k) := by
  induction k with
  | zero => simpa [HShiftRight.hShiftRight, Nat.repeat] using h
  | succ k ih =>
      have hnext := ih.shiftRightOne
      rw [div_div, ← pow_succ] at hnext
      exact hnext

/-- The mantissa is rounded to the nearest integer. -/
theorem Tells.nearest (h : Tells em x) : Nearest x em.roundedMantissa := by
  obtain ⟨m, roundBit, stickyBit⟩ := em
  cases roundBit <;> cases stickyBit <;>
    simp only [Tells, ExtendedMantissa.roundedMantissa, ExtendedMantissa.accuracy,
      Accuracy.roundToNearestEven] at h ⊢
  · rw [h]
    exact nearest_natCast m
  · have habs : |x - m| < 1 / 2 := abs_lt.mpr ⟨by linarith, by linarith⟩
    exact ⟨habs.le, fun heq => absurd heq habs.ne⟩
  · rcases Nat.mod_two_eq_zero_or_one m with hbit | hbit
    · rw [hbit, h]
      exact ⟨by norm_num, fun _ => hbit⟩
    · rw [hbit, h]
      refine ⟨by push_cast; norm_num, fun _ => by omega⟩
  · have habs : |x - (m + 1 : Nat)| < 1 / 2 := by
      push_cast
      exact abs_lt.mpr ⟨by linarith, by linarith⟩
    exact ⟨habs.le, fun heq => absurd heq habs.ne⟩

end Bits

theorem roundedMantissa_le (em : ExtendedMantissa) :
    em.roundedMantissa ≤ em.mantissa + 1 := by
  obtain ⟨m, roundBit, stickyBit⟩ := em
  cases roundBit <;> cases stickyBit <;>
    simp only [ExtendedMantissa.roundedMantissa, ExtendedMantissa.accuracy,
      Accuracy.roundToNearestEven] <;> omega

/-! ## 3. Rounding to a format -/

/-- The exponent that a format has for numbers below a power of two. -/
theorem targetExponent_eq (f : Format) (t : Int) :
    f.targetExponent t = max (t - f.mantissaBits) f.minExponent := rfl

/-- The number with a mantissa and an exponent, when the mantissa may just have become too long. -/
def carried (f : Format) (s : Sign) (n : Nat) (e : Int) : UnpackedFloat :=
  if h : n = 0 then .zero s
  else if n = 2 ^ f.mantissaBits then
    .finite s (2 ^ f.mantissaBitsWithoutImplicit) (e + 1) (Nat.two_pow_pos _)
  else .finite s n e (Nat.pos_of_ne_zero h)

section Shifting

variable {f : Format} {s : Sign} {m n : Nat} {e : Int}

theorem shiftToTargetExponent_of_eq {k : Nat} {a : Accuracy}
    (hk : (f.targetExponent (totalExponent m e) - e).toNat = k) :
    shiftToTargetExponent f m e a =
      (ExtendedMantissa.ofMantissaAndAccuracy m a >>> k, e + k) := by
  rw [shiftToTargetExponent, shiftToExponent, hk]

/-- A mantissa that is short enough stays as it is. -/
theorem shiftToTargetExponent_of_lt (hn : n < 2 ^ f.mantissaBits) (he : f.minExponent ≤ e) :
    shiftToTargetExponent f n e .exact = (⟨n, false, false⟩, e) := by
  have hlog : n.log2 < f.mantissaBits := by
    by_cases hzero : n = 0
    · subst hzero
      rw [Nat.log2_zero, Format.mantissaBits]
      omega
    · exact (Nat.log2_lt hzero).mpr hn
  rw [shiftToTargetExponent_of_eq (k := 0)
    (by rw [targetExponent_eq, totalExponent]; omega)]
  exact Prod.ext rfl (add_zero e)

/-- One that has become too long loses a zero. -/
theorem shiftToTargetExponent_two_pow (he : f.minExponent ≤ e) :
    shiftToTargetExponent f (2 ^ f.mantissaBits) e .exact =
      (⟨2 ^ f.mantissaBitsWithoutImplicit, false, false⟩, e + 1) := by
  have hdouble := two_pow_mantissaBits f
  rw [shiftToTargetExponent_of_eq (k := 1)
    (by rw [targetExponent_eq, totalExponent, Nat.log2_two_pow]; omega)]
  refine Prod.ext ?_ rfl
  show ExtendedMantissa.mk (2 ^ f.mantissaBits / 2) (2 ^ f.mantissaBits % 2 != 0) false = _
  have hhalf : 2 ^ f.mantissaBits / 2 = 2 ^ f.mantissaBitsWithoutImplicit := by omega
  have heven : 2 ^ f.mantissaBits % 2 = 0 := by omega
  rw [hhalf, heven]
  rfl

/-- **Rounding takes the integer nearest to what mantissa and accuracy tell of**, at the exponent of
the format. -/
theorem roundWithAccuracy_eq {a : Accuracy} {x : ℚ} {k : Nat}
    (hx : Tells (ExtendedMantissa.ofMantissaAndAccuracy m a) x)
    (hk : f.targetExponent (totalExponent m e) = e + k) :
    ∃ n, Nearest (x / 2 ^ k) n ∧ roundWithAccuracy f s m e a = carried f s n (e + k) := by
  have htells := hx.shiftRight k
  have he : f.minExponent ≤ e + k := by
    rw [← hk, targetExponent_eq]
    omega
  refine ⟨_, htells.nearest, ?_⟩
  have hmantissa : (ExtendedMantissa.ofMantissaAndAccuracy m a).mantissa = m := by
    cases a with
    | exact => rfl
    | inexact o => cases o <;> rfl
  have hfirst := shiftToTargetExponent_of_eq (f := f) (m := m) (e := e) (a := a)
    (k := k) (by omega)
  generalize hem : ExtendedMantissa.ofMantissaAndAccuracy m a >>> k = em at *
  have hbound : em.roundedMantissa ≤ 2 ^ f.mantissaBits := by
    have hlow := htells.bounds.1
    have hhigh := hx.bounds.2
    rw [hmantissa] at hhigh
    have hsize : m + 1 ≤ 2 ^ (f.mantissaBits + k) :=
      Nat.lt_log2_self.trans_le (Nat.pow_le_pow_right (by decide)
        (by rw [targetExponent_eq, totalExponent] at hk; omega))
    have hx' : x / 2 ^ k < 2 ^ f.mantissaBits := by
      rw [div_lt_iff₀ (by positivity), ← pow_add]
      calc x < m + 1 := hhigh
        _ ≤ 2 ^ (f.mantissaBits + k) := by exact_mod_cast hsize
    have hlt : em.mantissa < 2 ^ f.mantissaBits := by
      have := hlow.trans_lt hx'
      exact_mod_cast this
    exact (roundedMantissa_le em).trans hlt
  unfold roundWithAccuracy carried
  rw [hfirst]
  dsimp only
  rcases Nat.lt_or_eq_of_le hbound with hlt | heq
  · rw [shiftToTargetExponent_of_lt hlt he]
    simp only [hlt.ne, if_false]
  · have hpos := (Nat.two_pow_pos f.mantissaBitsWithoutImplicit).ne'
    have hpos' := (Nat.two_pow_pos f.mantissaBits).ne'
    rw [heq, shiftToTargetExponent_two_pow he]
    simp only [hpos, hpos', dif_neg, not_false_eq_true, if_true]

end Shifting

/-- A positive number and what it is rounded to. -/
def Rounded (f : Format) (s : Sign) (x : ℚ) (u : UnpackedFloat) : Prop :=
  ∃ (t : Int) (n : Nat), 2 ^ (t - 1) ≤ x ∧ x < 2 ^ t ∧
    Nearest (x / 2 ^ f.targetExponent t) n ∧ u = carried f s n (f.targetExponent t)

theorem two_zpow_add (a b : Int) : (2 : ℚ) ^ (a + b) = 2 ^ a * 2 ^ b :=
  zpow_add₀ two_ne_zero a b

theorem two_zpow_pos (a : Int) : (0 : ℚ) < 2 ^ a := zpow_pos two_pos a

section Rounding

variable {f : Format} {s : Sign} {m : Nat} {e : Int} {x : ℚ}

theorem two_zpow_totalExponent_le (hm : 0 < m) (hx : m ≤ x) :
    2 ^ (totalExponent m e - 1) ≤ x * 2 ^ e := by
  have hlow : (2 ^ m.log2 : ℚ) ≤ m := by exact_mod_cast Nat.log2_self_le hm.ne'
  have hexponent : totalExponent m e - 1 = m.log2 + e := by
    rw [totalExponent]
    ring
  rw [hexponent, two_zpow_add, zpow_natCast]
  exact mul_le_mul_of_nonneg_right (hlow.trans hx) (two_zpow_pos e).le

theorem lt_two_zpow_totalExponent (hx : x < m + 1) : x * 2 ^ e < 2 ^ totalExponent m e := by
  have hhigh : (m + 1 : ℚ) ≤ 2 ^ (m.log2 + 1) := by exact_mod_cast Nat.lt_log2_self
  have hexponent : totalExponent m e = (m.log2 + 1 : Nat) + e := by
    rw [totalExponent]
    push_cast
    ring
  rw [hexponent, two_zpow_add, zpow_natCast]
  exact mul_lt_mul_of_pos_right (hx.trans_le hhigh) (two_zpow_pos e)

theorem rounded_of_tells {a : Accuracy} (hm : 0 < m)
    (hx : Tells (ExtendedMantissa.ofMantissaAndAccuracy m a) x)
    (he : e ≤ f.targetExponent (totalExponent m e)) :
    Rounded f s (x * 2 ^ e) (roundWithAccuracy f s m e a) := by
  obtain ⟨k, hk⟩ := Int.le.dest he
  obtain ⟨n, hnearest, hround⟩ := roundWithAccuracy_eq (s := s) hx hk.symm
  have hmantissa : (ExtendedMantissa.ofMantissaAndAccuracy m a).mantissa = m := by
    cases a with
    | exact => rfl
    | inexact o => cases o <;> rfl
  have hbounds := hx.bounds
  rw [hmantissa] at hbounds
  have hpos := two_zpow_pos e
  refine ⟨totalExponent m e, n, two_zpow_totalExponent_le hm hbounds.1,
    lt_two_zpow_totalExponent hbounds.2, ?_, by rw [hround, hk]⟩
  rw [← hk, two_zpow_add, zpow_natCast, mul_comm, mul_div_mul_left _ _ hpos.ne']
  exact hnearest

theorem log2_shiftLeft (hm : 0 < m) (j : Nat) : (m <<< j).log2 = m.log2 + j := by
  rw [Nat.shiftLeft_eq]
  refine (Nat.log2_eq_iff (Nat.mul_pos hm (Nat.two_pow_pos j)).ne').mpr ⟨?_, ?_⟩
  · rw [Nat.pow_add]
    exact Nat.mul_le_mul_right _ (Nat.log2_self_le hm.ne')
  · rw [Nat.add_right_comm, Nat.pow_add]
    exact Nat.mul_lt_mul_of_pos_right Nat.lt_log2_self (Nat.two_pow_pos j)

/-- **A number that is given exactly.** -/
theorem rounded_round (hm : 0 < m) : Rounded f s (m * 2 ^ e) (UnpackedFloat.round f s m e) := by
  set j := (e - f.targetExponent (totalExponent m e)).toNat with hj
  have hshifted : 0 < m <<< j := by
    rw [Nat.shiftLeft_eq]
    exact Nat.mul_pos hm (Nat.two_pow_pos j)
  have htotal : totalExponent (m <<< j) (e - j) = totalExponent m e := by
    rw [totalExponent, totalExponent, log2_shiftLeft hm]
    push_cast
    ring
  have hround := rounded_of_tells (f := f) (s := s) (a := .exact) (e := e - j)
    (x := (m <<< j : Nat)) hshifted rfl (by rw [htotal]; omega)
  have hvalue : ((m <<< j : Nat) : ℚ) * 2 ^ (e - j) = m * 2 ^ e := by
    rw [Nat.shiftLeft_eq, Nat.cast_mul, Nat.cast_pow, Nat.cast_two, mul_assoc, ← zpow_natCast,
      ← two_zpow_add, add_sub_cancel]
  rw [hvalue] at hround
  exact hround

/-- A positive integer is converted by rounding it. -/
theorem normalize_natCast (hm : 0 < m) (s : Sign) :
    UnpackedFloat.normalize f m e s = UnpackedFloat.round f .positive m e := by
  have hcompare : compare (m : Int) 0 = .gt := Int.compare_eq_gt.mpr (by omega)
  rw [UnpackedFloat.normalize, hcompare]
  rfl

/-- **A product**, of a number whose mantissa is full and another one. -/
theorem rounded_mul {k : Nat} {d : Int} {t : Sign} (hm : 2 ^ f.mantissaBitsWithoutImplicit ≤ m)
    (hk : 0 < k) (hpos : 0 < m) :
    Rounded f (s * t) (m * 2 ^ e * (k * 2 ^ d))
      (mul f (.finite s m e hpos) (.finite t k d hk)) := by
  have hprod : 0 < m * k := Nat.mul_pos hpos hk
  have hlog : f.mantissaBitsWithoutImplicit ≤ (m * k).log2 :=
    (Nat.le_log2 hprod.ne').mpr (hm.trans (Nat.le_mul_of_pos_right m hk))
  have hround := rounded_of_tells (f := f) (s := s * t) (a := .exact) (e := e + d)
    (x := (m * k : Nat)) hprod rfl
    (by rw [targetExponent_eq, totalExponent, Format.mantissaBits]; omega)
  have hvalue : ((m * k : Nat) : ℚ) * 2 ^ (e + d) = m * 2 ^ e * (k * 2 ^ d) := by
    rw [two_zpow_add]
    push_cast
    ring
  rw [hvalue] at hround
  exact hround

theorem tells_accuracyOfFraction {a b : Nat} (hb : 0 < b) :
    Tells (ExtendedMantissa.ofMantissaAndAccuracy (a / b) (accuracyOfFraction (a % b) b))
      (a / b : ℚ) := by
  have hsplit : (a : ℚ) / b = (a / b : Nat) + (a % b : Nat) / b := by
    have h : (a : ℚ) = b * (a / b : Nat) + (a % b : Nat) := by
      exact_mod_cast (Nat.div_add_mod a b).symm
    field_simp
    linarith
  have hbpos : (0 : ℚ) < b := by exact_mod_cast hb
  have hlt : ((a % b : Nat) : ℚ) / b < 1 := by
    rw [div_lt_one hbpos]
    exact_mod_cast Nat.mod_lt a hb
  rw [hsplit]
  unfold accuracyOfFraction
  split
  · rename_i hzero
    rw [hzero]
    simp [Tells, ExtendedMantissa.ofMantissaAndAccuracy]
  · rename_i hne
    have hpos : 0 < ((a % b : Nat) : ℚ) / b := by
      have : (0 : ℚ) < (a % b : Nat) := by exact_mod_cast Nat.pos_of_ne_zero hne
      positivity
    cases hcompare : compare (2 * (a % b)) b with
    | lt =>
        have h : ((2 * (a % b) : Nat) : ℚ) < b := by exact_mod_cast Nat.compare_eq_lt.mp hcompare
        have : ((a % b : Nat) : ℚ) / b < 1 / 2 := by
          rw [div_lt_iff₀ hbpos]
          push_cast at h ⊢
          linarith
        exact ⟨by linarith, by linarith⟩
    | eq =>
        have h : ((2 * (a % b) : Nat) : ℚ) = b := by exact_mod_cast Nat.compare_eq_eq.mp hcompare
        have : ((a % b : Nat) : ℚ) / b = 1 / 2 := by
          rw [div_eq_iff hbpos.ne']
          push_cast at h ⊢
          linarith
        show _ = _
        rw [this]
    | gt =>
        have h : (b : ℚ) < ((2 * (a % b) : Nat) : ℚ) := by exact_mod_cast Nat.compare_eq_gt.mp hcompare
        have : 1 / 2 < ((a % b : Nat) : ℚ) / b := by
          rw [lt_div_iff₀ hbpos]
          push_cast at h ⊢
          linarith
        exact ⟨by linarith, by linarith⟩

/-- **A quotient** that the format has a full mantissa for. -/
theorem rounded_div {m' : Nat} {e' : Int} {s' : Sign} (hm : 0 < m) (hm' : 0 < m')
    (hfull : f.minExponent + f.mantissaBits ≤ totalExponent m e - totalExponent m' e') :
    Rounded f (s / s') (m * 2 ^ e / (m' * 2 ^ e'))
      (div f (.finite s m e hm) (.finite s' m' e' hm')) := by
  set d := min (e - e') (f.targetExponent (totalExponent m e - totalExponent m' e')) with hd
  obtain ⟨j, hj⟩ := Int.eq_ofNat_of_zero_le (a := e - e' - d) (by omega)
  have hlong : f.mantissaBitsWithoutImplicit + (m'.log2 + 1) ≤ m.log2 + j := by
    rw [targetExponent_eq] at hd
    simp only [totalExponent, Format.mantissaBits] at hd hfull
    omega
  have hquotient : 2 ^ f.mantissaBitsWithoutImplicit ≤ (m <<< j) / m' := by
    rw [Nat.le_div_iff_mul_le hm', Nat.shiftLeft_eq]
    calc 2 ^ f.mantissaBitsWithoutImplicit * m'
        ≤ 2 ^ f.mantissaBitsWithoutImplicit * 2 ^ (m'.log2 + 1) :=
          Nat.mul_le_mul_left _ Nat.lt_log2_self.le
      _ ≤ 2 ^ (m.log2 + j) := by
          rw [← Nat.pow_add]
          exact Nat.pow_le_pow_right (by decide) hlong
      _ ≤ m * 2 ^ j := by
          rw [Nat.pow_add]
          exact Nat.mul_le_mul_right _ (Nat.log2_self_le hm.ne')
  have hpos : 0 < (m <<< j) / m' := (Nat.two_pow_pos _).trans_le hquotient
  have hround := rounded_of_tells (f := f) (s := s / s') (e := d) hpos
    (tells_accuracyOfFraction (a := m <<< j) hm')
    (by
      have hlog := (Nat.le_log2 hpos.ne').mpr hquotient
      rw [targetExponent_eq, totalExponent, Format.mantissaBits]
      omega)
  have hvalue : ((m <<< j : Nat) : ℚ) / m' * 2 ^ d = m * 2 ^ e / (m' * 2 ^ e') := by
    have hexponent : e = j + d + e' := by omega
    have hm0 : (m' : ℚ) ≠ 0 := by exact_mod_cast hm'.ne'
    have hpow := (two_zpow_pos e').ne'
    rw [Nat.shiftLeft_eq, hexponent, two_zpow_add, two_zpow_add, zpow_natCast]
    push_cast
    field_simp
  rw [hvalue] at hround
  have hdiv : div f (.finite s m e hm) (.finite s' m' e' hm') =
      roundWithAccuracy f (s / s') ((m <<< j) / m') d (accuracyOfFraction ((m <<< j) % m') m') := by
    have hshift : (e - e' - d).toNat = j := by omega
    rw [div, divCore, ← hd, hshift]
  rw [hdiv]
  exact hround

end Rounding

/-! ## 4. What comes of rounding -/

theorem two_zpow_lt_iff {a b : Int} : (2 : ℚ) ^ a < 2 ^ b ↔ a < b :=
  zpow_lt_zpow_iff_right₀ one_lt_two

theorem carried_of_representable {f : Format} {s : Sign} {m : Nat} {e : Int} (h : Representable f m e) :
    carried f s m e = .finite s m e h.pos := by
  unfold carried
  rw [dif_neg h.pos.ne', if_neg h.lt.ne]

section Results

variable {f : Format} {s : Sign} {x : ℚ} {u : UnpackedFloat} {m : Nat} {e : Int}

theorem Representable.eq_or_le (hm : Representable f m e) :
    e = f.minExponent ∨ 2 ^ (f.mantissaBitsWithoutImplicit + e) ≤ (m : ℚ) * 2 ^ e := by
  by_cases hleast : e = f.minExponent
  · exact .inl hleast
  · refine .inr ?_
    have hfull : 2 ^ f.mantissaBitsWithoutImplicit ≤ m :=
      Nat.not_lt.mp fun hlt => hleast (hm.least hlt)
    rw [two_zpow_add, zpow_natCast]
    exact mul_le_mul_of_nonneg_right (by exact_mod_cast hfull) (two_zpow_pos e).le

/-- **A number is rounded to the one of the format that it is nearest to.** Below the least mantissa
of an exponent the format has further numbers, so there this says nothing. -/
theorem Rounded.eq_finite (h : Rounded f s x u) (hm : Representable f m e)
    (hnear : Nearest (x / 2 ^ e) m)
    (hlow : e = f.minExponent ∨ 2 ^ (f.mantissaBitsWithoutImplicit + e) ≤ x) :
    u = .finite s m e hm.pos := by
  obtain ⟨t, n, hfrom, hto, hn, rfl⟩ := h
  have hpos := two_zpow_pos e
  have hmin := hm.min_le
  have hbits : f.mantissaBits = 1 + f.mantissaBitsWithoutImplicit := rfl
  have hnear' := abs_le.mp hnear.near
  have hupper : x < 2 ^ (f.mantissaBits + e) := by
    have hlt : (m : ℚ) + 1 ≤ 2 ^ f.mantissaBits := by exact_mod_cast hm.lt
    rw [two_zpow_add, zpow_natCast, ← div_lt_iff₀ hpos]
    linarith
  have hle : t - 1 < f.mantissaBits + e := two_zpow_lt_iff.mp (hfrom.trans_lt hupper)
  have htarget : f.targetExponent t = e := by
    rw [targetExponent_eq]
    rcases hlow with hleast | hlow
    · omega
    · have hge := two_zpow_lt_iff.mp (hlow.trans_lt hto)
      omega
  rw [htarget] at hn ⊢
  rw [hn.unique hnear, carried_of_representable hm]

/-- A number of the format is left as it is. -/
theorem Rounded.eq_self (h : Rounded f s (m * 2 ^ e) u) (hm : Representable f m e) :
    u = .finite s m e hm.pos := by
  refine h.eq_finite hm ?_ hm.eq_or_le
  rw [mul_div_cancel_right₀ _ (two_zpow_pos e).ne']
  exact nearest_natCast m

/-- What is nearest to a mantissa is not below a lesser one. -/
theorem le_of_nearest (hnear : Nearest (x / 2 ^ e) m) (hm : 2 ^ f.mantissaBitsWithoutImplicit < m) :
    2 ^ (f.mantissaBitsWithoutImplicit + e) ≤ x := by
  have hlow := (abs_le.mp hnear.near).1
  have hnext : (2 : ℚ) ^ f.mantissaBitsWithoutImplicit + 1 ≤ m := by exact_mod_cast hm
  rw [two_zpow_add, zpow_natCast, ← le_div_iff₀ (two_zpow_pos e)]
  linarith

/-- **Below the least mantissa** of an exponent the next number is only half as far. -/
theorem Rounded.eq_least (h : Rounded f s x u) (he : f.minExponent < e)
    (hlow : (2 ^ f.mantissaBitsWithoutImplicit - 1 / 4) * 2 ^ e < x)
    (hhigh : x < 2 ^ f.mantissaBitsWithoutImplicit * 2 ^ e) :
    u = .finite s (2 ^ f.mantissaBitsWithoutImplicit) e (Nat.two_pow_pos _) := by
  obtain ⟨t, n, hfrom, hto, hn, rfl⟩ := h
  have hbits : f.mantissaBits = 1 + f.mantissaBitsWithoutImplicit := rfl
  have hhalf : (2 : ℚ) ^ e = 2 ^ (e - 1) * 2 := by
    rw [← zpow_add_one₀ two_ne_zero, sub_add_cancel]
  have hpos := two_zpow_pos (e - 1)
  have hone : (1 : ℚ) ≤ 2 ^ f.mantissaBitsWithoutImplicit := one_le_pow₀ one_le_two
  have hupper : t - 1 < f.mantissaBitsWithoutImplicit + e := by
    refine two_zpow_lt_iff.mp (hfrom.trans_lt ?_)
    rwa [two_zpow_add, zpow_natCast]
  have hlower : f.mantissaBitsWithoutImplicit + (e - 1) < t := by
    refine two_zpow_lt_iff.mp (lt_of_le_of_lt ?_ hto)
    rw [two_zpow_add, zpow_natCast]
    nlinarith
  have htarget : f.targetExponent t = e - 1 := by
    rw [targetExponent_eq]
    omega
  have hnear : Nearest (x / 2 ^ (e - 1)) (2 ^ f.mantissaBits) := by
    have hdouble : ((2 ^ f.mantissaBits : Nat) : ℚ) = 2 * 2 ^ f.mantissaBitsWithoutImplicit := by
      exact_mod_cast two_pow_mantissaBits f
    rw [nearest_div_iff hpos, hdouble]
    have hclose : |x - 2 * 2 ^ f.mantissaBitsWithoutImplicit * 2 ^ (e - 1)| < 2 ^ (e - 1) / 2 := by
      rw [hhalf] at hlow hhigh
      exact abs_lt.mpr ⟨by linarith, by linarith⟩
    exact ⟨hclose.le, fun heq => absurd heq hclose.ne⟩
  rw [htarget] at hn ⊢
  rw [hn.unique hnear]
  unfold carried
  rw [dif_neg (Nat.two_pow_pos _).ne', if_pos rfl]
  simp only [sub_add_cancel]

/-- A short mantissa at any exponent stands for a number of the format. -/
theorem exists_representable (hf : 0 < f.exponentBias) (hpos : 0 < m)
    (hm : m < 2 ^ f.mantissaBits) (he : f.minExponent ≤ e)
    (hmax : totalExponent m e ≤ f.exponentBias + 1) :
    ∃ m' e', Representable f m' e' ∧ (m' : ℚ) * 2 ^ e' = m * 2 ^ e := by
  have hlog := (Nat.log2_lt hpos.ne').mpr hm
  have hbits : f.mantissaBits = 1 + f.mantissaBitsWithoutImplicit := rfl
  rw [totalExponent] at hmax
  set e' := max (m.log2 + 1 + e - f.mantissaBits) f.minExponent with he'
  obtain ⟨j, hj⟩ := Int.eq_ofNat_of_zero_le (a := e - e') (by omega)
  have hlog' : (m * 2 ^ j).log2 = m.log2 + j := by
    rw [← Nat.shiftLeft_eq]
    exact log2_shiftLeft hpos j
  have hpos' : 0 < m * 2 ^ j := Nat.mul_pos hpos (Nat.two_pow_pos j)
  refine ⟨m * 2 ^ j, e', ⟨hpos', ?_, by omega, fun hlt => ?_, ?_⟩, ?_⟩
  · exact (Nat.log2_lt hpos'.ne').mp (by omega)
  · have := (Nat.log2_lt hpos'.ne').mpr hlt
    omega
  · have hmin := minExponent_add f
    omega
  · have : e = j + e' := by omega
    rw [this, two_zpow_add, zpow_natCast]
    push_cast
    ring

/-- **Rounding a number in the full range moves it by half a place at most.** -/
theorem Rounded.exists_finite (h : Rounded f s x u)
    (hlow : 2 ^ (f.minExponent + f.mantissaBitsWithoutImplicit) ≤ x)
    (hhigh : x < 2 ^ (f.exponentBias : Int)) :
    ∃ n e, ∃ hn : Representable f n e, u = .finite s n e hn.pos ∧
      |n * 2 ^ e - x| ≤ x / 2 ^ f.mantissaBits := by
  obtain ⟨t, n, ht, ht', hn, rfl⟩ := h
  have hbits : f.mantissaBits = 1 + f.mantissaBitsWithoutImplicit := rfl
  have hmin := minExponent_add f
  have hge := two_zpow_lt_iff.mp (hlow.trans_lt ht')
  have hle := two_zpow_lt_iff.mp (ht.trans_lt hhigh)
  have htarget : f.targetExponent t = t - f.mantissaBits := by
    rw [targetExponent_eq]
    omega
  rw [htarget] at hn ⊢
  have hpos := two_zpow_pos (t - f.mantissaBits)
  have hfirst : (2 : ℚ) ^ (t - 1) = 2 ^ f.mantissaBitsWithoutImplicit * 2 ^ (t - f.mantissaBits) := by
    rw [← zpow_natCast, ← two_zpow_add]
    congr 1
    omega
  have hlast : (2 : ℚ) ^ t = 2 ^ f.mantissaBits * 2 ^ (t - f.mantissaBits) := by
    rw [← zpow_natCast, ← two_zpow_add]
    congr 1
    omega
  have hdown : (2 : ℚ) ^ f.mantissaBitsWithoutImplicit ≤ x / 2 ^ (t - f.mantissaBits) := by
    rwa [le_div_iff₀ hpos, ← hfirst]
  have hup : x / 2 ^ (t - f.mantissaBits) < 2 ^ f.mantissaBits := by
    rwa [div_lt_iff₀ hpos, ← hlast]
  have hnear := abs_le.mp hn.near
  have hfull : 2 ^ f.mantissaBitsWithoutImplicit ≤ n := by
    have : (2 : ℚ) ^ f.mantissaBitsWithoutImplicit < n + 1 := by linarith
    exact Nat.lt_succ_iff.mp (by exact_mod_cast this)
  have hshort : n ≤ 2 ^ f.mantissaBits := by
    have : (n : ℚ) < 2 ^ f.mantissaBits + 1 := by linarith
    exact Nat.lt_succ_iff.mp (by exact_mod_cast this)
  have herror : |n * 2 ^ (t - f.mantissaBits) - x| ≤ x / 2 ^ f.mantissaBits := by
    have hdouble : (2 : ℚ) ^ f.mantissaBits = 2 * 2 ^ f.mantissaBitsWithoutImplicit := by
      exact_mod_cast two_pow_mantissaBits f
    have hhalf : 2 ^ (t - f.mantissaBits) / 2 ≤ x / 2 ^ f.mantissaBits := by
      rw [div_le_div_iff₀ two_pos (by positivity), hdouble]
      rw [hfirst] at ht
      linarith
    rw [abs_sub_comm]
    exact ((nearest_div_iff hpos).mp hn).1.trans hhalf
  rcases Nat.lt_or_eq_of_le hshort with hlt | rfl
  · have hrep : Representable f n (t - f.mantissaBits) :=
      ⟨(Nat.two_pow_pos _).trans_le hfull, hlt, by omega, fun h => by omega, by omega⟩
    exact ⟨n, _, hrep, carried_of_representable hrep, herror⟩
  · have hrep : Representable f (2 ^ f.mantissaBitsWithoutImplicit) (t - f.mantissaBits + 1) :=
      ⟨Nat.two_pow_pos _, Nat.pow_lt_pow_right (by decide) (by omega), by omega,
        fun h => absurd h (Nat.lt_irrefl _), by omega⟩
    refine ⟨_, _, hrep, ?_, ?_⟩
    · unfold carried
      rw [dif_neg (Nat.two_pow_pos _).ne', if_pos rfl]
    · have hsame : ((2 ^ f.mantissaBitsWithoutImplicit : Nat) : ℚ) * 2 ^ (t - f.mantissaBits + 1) =
          (2 ^ f.mantissaBits : Nat) * 2 ^ (t - f.mantissaBits) := by
        rw [two_pow_mantissaBits, two_zpow_add, zpow_one]
        push_cast
        ring
      rw [hsame]
      exact herror

end Results

end Aquarium

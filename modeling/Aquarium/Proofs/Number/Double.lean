import Aquarium.Number.Numeral
import Aquarium.Proofs.Number.Rounding

/-!
# Doubles and their values

The doubles that a numeral is made of are finite, and each is next to the exact result.

* `Double.Has`: the value of a finite double;
* `Double.Has.mul`, `Double.Has.div`: a product and a quotient miss theirs by half a place at most,
  and a value that is a double is met exactly;
* `Numeral.scale_has`: so is a multiple of a power of ten, but for one place and a half;
* `Single.ofDouble_eq`: the single that a value is nearest to.
-/

namespace Aquarium

open Float.Model (UnpackedFloat Format totalExponent)
open Float.Model.UnpackedFloat

namespace Double

/-! ## 1. Values -/

/-- The double is finite and not zero, with this sign and this size. -/
def Has (x : Float) (s : Sign) (v : ℚ) : Prop :=
  ∃ m e, ∃ h : Representable .binary64 m e, x.toModel.unpack = .finite s m e h.pos ∧ m * 2 ^ e = v

/-- A value that is a double. -/
def Short (v : ℚ) : Prop := ∃ (m : Nat) (e : Int), 0 < m ∧ m < 2 ^ 53 ∧ -1074 ≤ e ∧ v = m * 2 ^ e

theorem short_natCast {n : Nat} (hpos : 0 < n) (hn : n < 2 ^ 53) : Short n :=
  ⟨n, 0, hpos, hn, by decide, by rw [zpow_zero, mul_one]⟩

theorem has_ofModel {s : Sign} {m : Nat} {e : Int} (h : Representable .binary64 m e) :
    Has (.ofModel (.pack (.finite s m e h.pos))) s (m * 2 ^ e) :=
  ⟨m, e, h, unpack_pack h, rfl⟩

variable {x y : Float} {s s' : Sign} {v w : ℚ} {u : UnpackedFloat}

/-- **What is rounded has a value**: one half a place off at most, and the value itself if that is a
double. -/
theorem has_of_rounded (h : Rounded .binary64 s v u) (hlow : 2 ^ (-1022 : Int) ≤ v)
    (hhigh : v < 2 ^ (1023 : Int)) :
    ∃ w, Has (.ofModel (.pack u)) s w ∧ |w - v| ≤ v / 2 ^ 53 ∧ (Short v → w = v) := by
  by_cases hshort : Short v
  · obtain ⟨m, e, hpos, hm, he, rfl⟩ := hshort
    have htotal := two_zpow_lt_iff.mp ((two_zpow_totalExponent_le hpos le_rfl).trans_lt hhigh)
    obtain ⟨m', e', hrep, hvalue⟩ := exists_representable (f := .binary64) (by decide) hpos hm he
      (show totalExponent m e ≤ 1024 by omega)
    rw [← hvalue] at h
    refine ⟨m * 2 ^ e, ?_, ?_, fun _ => rfl⟩
    · rw [h.eq_self hrep, ← hvalue]
      exact has_ofModel hrep
    · rw [sub_self, abs_zero]
      have := two_zpow_pos e
      positivity
  · obtain ⟨n, e, hrep, rfl, hnear⟩ := h.exists_finite hlow hhigh
    exact ⟨n * 2 ^ e, has_ofModel hrep, hnear, fun hv => absurd hv hshort⟩

theorem Has.pos (hx : Has x s v) : 0 < v := by
  obtain ⟨m, e, h, -, rfl⟩ := hx
  have hm : (0 : ℚ) < m := by exact_mod_cast h.pos
  exact mul_pos hm (two_zpow_pos e)

theorem Has.isInf_eq_false (hx : Has x s v) : x.isInf = false := by
  obtain ⟨m, e, h, hunpack, -⟩ := hx
  show x.toModel.unpack.isInf = false
  rw [hunpack]
  rfl

/-! ## 2. Operations -/

theorem Has.neg (hx : Has x s v) : Has (-x) (-s) v := by
  obtain ⟨m, e, h, hunpack, rfl⟩ := hx
  have hneg : -x = .ofModel (.pack x.toModel.unpack.neg) := rfl
  rw [hneg, hunpack]
  exact has_ofModel h

theorem Has.mul (hx : Has x s v) (hy : Has y s' w) (hv : 1 ≤ v)
    (hlow : 2 ^ (-1022 : Int) ≤ v * w) (hhigh : v * w < 2 ^ (1023 : Int)) :
    ∃ z, Has (x * y) (s * s') z ∧ |z - v * w| ≤ v * w / 2 ^ 53 ∧ (Short (v * w) → z = v * w) := by
  obtain ⟨m, e, h, hunpack, rfl⟩ := hx
  obtain ⟨m', e', h', hunpack', rfl⟩ := hy
  have hfull : 2 ^ 52 ≤ m := by
    refine Nat.not_lt.mp fun hlt => ?_
    have he : e = -1074 := h.least hlt
    have hm : (m : ℚ) < 2 ^ (52 : Int) := by exact_mod_cast hlt
    have hsmall := mul_lt_mul_of_pos_right hm (two_zpow_pos e)
    have hone : (2 : ℚ) ^ (52 + -1074 : Int) ≤ 2 ^ (0 : Int) :=
      zpow_le_zpow_right₀ one_le_two (by decide)
    rw [he, ← two_zpow_add] at hsmall
    rw [he] at hv
    rw [zpow_zero] at hone
    linarith
  have hprod : x * y = .ofModel (.pack (UnpackedFloat.mul .binary64 x.toModel.unpack
      y.toModel.unpack)) := rfl
  rw [hprod, hunpack, hunpack']
  exact has_of_rounded (rounded_mul hfull h'.pos h.pos) hlow hhigh

theorem Has.div (hx : Has x s v) (hy : Has y s' w) (hv : 1 ≤ v) (hw : w < 2 ^ (1000 : Int))
    (hlow : 2 ^ (-1022 : Int) ≤ v / w) (hhigh : v / w < 2 ^ (1023 : Int)) :
    ∃ z, Has (x / y) (s / s') z ∧ |z - v / w| ≤ v / w / 2 ^ 53 ∧ (Short (v / w) → z = v / w) := by
  obtain ⟨m, e, h, hunpack, rfl⟩ := hx
  obtain ⟨m', e', h', hunpack', rfl⟩ := hy
  have htotal : 0 < totalExponent m e := by
    rw [← zpow_zero (2 : ℚ)] at hv
    exact two_zpow_lt_iff.mp (hv.trans_lt (lt_two_zpow_totalExponent (lt_add_one _)))
  have htotal' := two_zpow_lt_iff.mp ((two_zpow_totalExponent_le h'.pos le_rfl).trans_lt hw)
  have hquotient : x / y = .ofModel (.pack (UnpackedFloat.div .binary64 x.toModel.unpack
      y.toModel.unpack)) := rfl
  rw [hquotient, hunpack, hunpack']
  refine has_of_rounded (rounded_div h.pos h'.pos ?_) hlow hhigh
  show (-1074 : Int) + (53 : Nat) ≤ _
  omega

/-! ## 3. Integers and powers of ten -/

theorem has_ofInt {n : Nat} (hpos : 0 < n) (hn : n < 2 ^ 53) : Has (ofInt n) .positive n := by
  have hround : ofInt n = .ofModel (.pack (UnpackedFloat.round .binary64 .positive n 0)) := by
    show Float.ofModel (.pack (UnpackedFloat.normalize .binary64 n 0 .positive)) = _
    rw [normalize_natCast hpos]
  have hrounded := rounded_round (f := .binary64) (s := .positive) (e := 0) hpos
  rw [zpow_zero, mul_one] at hrounded
  have hlow : (1 : ℚ) ≤ n := by exact_mod_cast hpos
  have hhigh : (n : ℚ) < 2 ^ (53 : Int) := by exact_mod_cast hn
  obtain ⟨w, hw, -, hexact⟩ := has_of_rounded hrounded
    ((zpow_le_one_of_nonpos₀ one_le_two (by decide)).trans hlow)
    (hhigh.trans (zpow_lt_zpow_right₀ one_lt_two (by decide)))
  rw [hround, ← hexact (short_natCast hpos hn)]
  exact hw

/-- A power of ten up to the 22nd is a double. -/
theorem short_tenPow {n : Nat} (hn : n ≤ 22) : Short (10 ^ n : ℚ) := by
  refine ⟨5 ^ n, n, Nat.pow_pos (by decide), ?_, by omega, ?_⟩
  · exact (Nat.pow_le_pow_right (by decide) hn).trans_lt (by decide)
  · rw [zpow_natCast]
    push_cast
    rw [← mul_pow]
    norm_num

theorem has_tenPow {n : Nat} (hn : n ≤ 250) :
    ∃ w, Has (tenPow n) .positive w ∧ |w - 10 ^ n| ≤ 10 ^ n / 2 ^ 53 ∧ (n ≤ 22 → w = 10 ^ n) := by
  have hround : tenPow n = .ofModel (.pack (UnpackedFloat.mul .binary64
      (.finite .positive (1 <<< 53) (-53) (by decide))
      (.finite .positive (10 ^ n) 0 (Nat.pow_pos (by decide))))) := by
    show Float.ofModel (.pack (UnpackedFloat.ofScientific .binary64 1 n)) = _
    have hlarge : ¬ (n : Int) > 2 ^ Format.binary64.exponentBits := by
      show ¬ (n : Int) > 2 ^ 11
      omega
    have hsmall : ¬ (n : Int) < -((2 ^ Format.binary64.exponentBits : Int) + Nat.log2 1) := by
      show ¬ (n : Int) < -(2 ^ 11 + Nat.log2 1)
      omega
    have hnonneg : (0 : Int) ≤ n := by omega
    rw [UnpackedFloat.ofScientific, dif_neg (by decide), if_neg hlarge, if_neg hsmall,
      if_pos hnonneg]
    rfl
  have hrounded := rounded_mul (f := .binary64) (s := .positive) (t := .positive) (m := 1 <<< 53)
    (e := -53) (k := 10 ^ n) (d := 0) (by decide) (Nat.pow_pos (by decide)) (by decide)
  have hvalue : ((1 <<< 53 : Nat) : ℚ) * 2 ^ (-53 : Int) * ((10 ^ n : Nat) * 2 ^ (0 : Int)) =
      10 ^ n := by
    push_cast
    norm_num
  rw [hvalue] at hrounded
  have hlow : (1 : ℚ) ≤ 10 ^ n := one_le_pow₀ (by norm_num)
  have hhigh : (10 : ℚ) ^ n < 2 ^ (1023 : Int) :=
    (pow_le_pow_right₀ (by norm_num) hn).trans_lt (by
      have hnat : 10 ^ 250 < 2 ^ 1023 := by decide +kernel
      exact_mod_cast hnat)
  obtain ⟨w, hw, hnear, hexact⟩ := has_of_rounded hrounded
    ((zpow_le_one_of_nonpos₀ one_le_two (by decide)).trans hlow) hhigh
  rw [hround]
  exact ⟨w, hw, hnear, fun h => hexact (short_tenPow h)⟩

/-! ## 4. Multiples of powers of ten -/

section Errors

variable {t p v z u : ℚ}

/-- The error of a product, one factor of which is not exact. -/
theorem abs_sub_mul_le (ht : 0 < t) (hv : 0 < v) (hu : 0 ≤ u) (hu' : u ≤ 1 / 2)
    (hp : |p - t| ≤ t * u) (hz : |z - v * p| ≤ v * p * u) : |z - v * t| ≤ v * t * (4 * u) := by
  have hup : p ≤ t * 2 := by nlinarith [abs_le.mp hp]
  have hsecond : |v * p - v * t| ≤ v * t * u := by
    rw [← mul_sub, abs_mul, abs_of_pos hv, mul_assoc]
    exact mul_le_mul_of_nonneg_left hp hv.le
  have hfirst : v * p * u ≤ v * t * (2 * u) := by
    have := mul_le_mul_of_nonneg_right (mul_le_mul_of_nonneg_left hup hv.le) hu
    linarith
  have hnonneg : 0 ≤ v * t * u := by positivity
  calc |z - v * t| ≤ |z - v * p| + |v * p - v * t| := abs_sub_le _ _ _
    _ ≤ v * t * (4 * u) := by linarith

/-- The error of a quotient, the divisor of which is not exact. -/
theorem abs_sub_div_le (ht : 0 < t) (hv : 0 < v) (hu : 0 ≤ u) (hu' : u ≤ 1 / 2)
    (hp : |p - t| ≤ t * u) (hz : |z - v / p| ≤ v / p * u) : |z - v / t| ≤ v / t * (4 * u) := by
  have hlow : t / 2 ≤ p := by nlinarith [abs_le.mp hp]
  have hpos : 0 < p := by linarith
  have hquotient : v / p ≤ v / t * 2 := by
    rw [div_mul_eq_mul_div, div_le_div_iff₀ hpos ht]
    nlinarith
  have hsecond : |v / p - v / t| ≤ v / p * u := by
    have hsame : v / p - v / t = v / p * ((t - p) / t) := by field_simp
    rw [hsame, abs_mul, abs_of_pos (div_pos hv hpos), abs_div, abs_of_pos ht, abs_sub_comm]
    exact mul_le_mul_of_nonneg_left ((div_le_iff₀' ht).mpr hp) (div_pos hv hpos).le
  have hscaled := mul_le_mul_of_nonneg_right hquotient hu
  calc |z - v / t| ≤ |z - v / p| + |v / p - v / t| := abs_sub_le _ _ _
    _ ≤ v / t * (4 * u) := by linarith

theorem one_le_tenPow (n : Nat) : (1 : ℚ) ≤ 10 ^ n := one_le_pow₀ (by norm_num)

theorem two_zpow_le_one {e : Int} (he : e ≤ 0) : (2 : ℚ) ^ e ≤ 1 :=
  zpow_le_one_of_nonpos₀ one_le_two he

/-- What is next to a power of ten is far from the ends of the format. -/
theorem range_of_near {n : Nat} (hn : n ≤ 250) (hp : |p - 10 ^ n| ≤ 10 ^ n / 2 ^ 53) :
    2⁻¹ ≤ p ∧ p < 2 ^ (900 : Int) := by
  have hlow := one_le_tenPow n
  have hhigh : (10 : ℚ) ^ n ≤ 10 ^ 250 := pow_le_pow_right₀ (by norm_num) hn
  have hnat : 2 * 10 ^ 250 < 2 ^ 900 := by decide +kernel
  have hfits : 2 * (10 : ℚ) ^ 250 < 2 ^ (900 : Int) := by exact_mod_cast hnat
  have hbounds := abs_le.mp hp
  have htwice : p ≤ 2 * 10 ^ n := by linarith
  exact ⟨by linarith,
    htwice.trans_lt ((mul_le_mul_of_nonneg_left hhigh zero_le_two).trans_lt hfits)⟩

end Errors

/-- **A double times a power of ten**: three halves of a place off at most, and exact where the power
and the product are doubles. -/
theorem Has.mul_tenPow {n : Nat} (hx : Has x .positive v) (hlow : 1 ≤ v)
    (hhigh : v < 2 ^ (53 : Int)) (hn : n ≤ 250) :
    ∃ w, Has (x * tenPow n) .positive w ∧ |w - v * 10 ^ n| ≤ v * 10 ^ n / 2 ^ 51 ∧
      (n ≤ 22 → Short (v * 10 ^ n) → w = v * 10 ^ n) := by
  obtain ⟨p, hp, hnear, hexact⟩ := has_tenPow hn
  obtain ⟨hdown, hup⟩ := range_of_near hn hnear
  have hone := one_le_tenPow n
  have hmin : (2 : ℚ) ^ (-1022 : Int) ≤ v * p := by
    have hhalf : (2 : ℚ) ^ (-1022 : Int) ≤ 2 ^ (-1 : Int) :=
      zpow_le_zpow_right₀ one_le_two (by decide)
    rw [zpow_neg_one] at hhalf
    nlinarith
  have hmax : v * p < 2 ^ (1023 : Int) := by
    have hprod := mul_lt_mul'' hhigh hup (by linarith) (by linarith)
    rw [← two_zpow_add] at hprod
    exact hprod.trans (zpow_lt_zpow_right₀ one_lt_two (by decide))
  obtain ⟨w, hw, hw', hshort⟩ := hx.mul hp hlow hmin hmax
  refine ⟨w, hw, ?_, fun hsmall hresult => ?_⟩
  · have herror := abs_sub_mul_le (t := 10 ^ n) (u := 1 / 2 ^ 53) (by linarith) hx.pos
      (by norm_num) (by norm_num) (by rw [mul_one_div]; exact hnear)
      (by rw [mul_one_div]; exact hw')
    linarith
  · rw [hexact hsmall] at hshort
    exact hshort hresult

/-- **A double divided by a power of ten**, likewise. -/
theorem Has.div_tenPow {n : Nat} (hx : Has x .positive v) (hlow : 1 ≤ v)
    (hhigh : v < 2 ^ (53 : Int)) (hn : n ≤ 250) :
    ∃ w, Has (x / tenPow n) .positive w ∧ |w - v / 10 ^ n| ≤ v / 10 ^ n / 2 ^ 51 ∧
      (n ≤ 22 → Short (v / 10 ^ n) → w = v / 10 ^ n) := by
  obtain ⟨p, hp, hnear, hexact⟩ := has_tenPow hn
  obtain ⟨hdown, hup⟩ := range_of_near hn hnear
  have hone := one_le_tenPow n
  have hpos : 0 < p := hp.pos
  have hmin : (2 : ℚ) ^ (-1022 : Int) ≤ v / p := by
    rw [le_div_iff₀ hpos]
    have hprod := mul_lt_mul_of_pos_left hup (two_zpow_pos (-1022))
    rw [← two_zpow_add] at hprod
    exact (hprod.le.trans (two_zpow_le_one (by decide))).trans hlow
  have hmax : v / p < 2 ^ (1023 : Int) := by
    rw [div_lt_iff₀ hpos]
    have hdouble : (2 : ℚ) ^ (53 : Int) * 2 ≤ 2 ^ (1023 : Int) := by
      have hpow : (2 : ℚ) ^ (53 + 1 : Int) ≤ 2 ^ (1023 : Int) :=
        zpow_le_zpow_right₀ one_le_two (by decide)
      rwa [two_zpow_add, zpow_one] at hpow
    calc v < 2 ^ (53 : Int) := hhigh
      _ = 2 ^ (53 : Int) * 2 * 2⁻¹ := (mul_inv_cancel_right₀ two_ne_zero _).symm
      _ ≤ 2 ^ (1023 : Int) * 2⁻¹ := mul_le_mul_of_nonneg_right hdouble (by norm_num)
      _ ≤ 2 ^ (1023 : Int) * p := mul_le_mul_of_nonneg_left hdown (two_zpow_pos 1023).le
  obtain ⟨w, hw, hw', hshort⟩ :=
    hx.div hp hlow (hup.trans (zpow_lt_zpow_right₀ one_lt_two (by decide))) hmin hmax
  refine ⟨w, hw, ?_, fun hsmall hresult => ?_⟩
  · have herror := abs_sub_div_le (t := 10 ^ n) (u := 1 / 2 ^ 53) (by linarith) hx.pos
      (by norm_num) (by norm_num) (by rw [mul_one_div]; exact hnear)
      (by rw [mul_one_div]; exact hw')
    linarith
  · rw [hexact hsmall] at hshort
    exact hshort hresult

end Double

namespace Numeral

open Double (Has Short)

/-- **A scaled significand**, in one formula. -/
theorem scale_has {x : Float} {v : ℚ} {e : Int} (hx : Has x .positive v) (hlow : 1 ≤ v)
    (hhigh : v < 2 ^ (53 : Int)) (he : e.natAbs ≤ 250) :
    ∃ y w, scale x e = some y ∧ Has y .positive w ∧ |w - v * 10 ^ e| ≤ v * 10 ^ e / 2 ^ 51 ∧
      (e.natAbs ≤ 22 → Short (v * 10 ^ e) → w = v * 10 ^ e) := by
  unfold scale
  rw [if_pos (by omega)]
  split
  · rename_i hsign
    have hpow : (10 : ℚ) ^ e = 10 ^ e.natAbs := by
      rw [← zpow_natCast, Int.natAbs_of_nonneg hsign]
    obtain ⟨w, hw, hnear, hexact⟩ := hx.mul_tenPow hlow hhigh he
    simp only [hw.isInf_eq_false, Bool.false_eq_true, if_false, hpow]
    exact ⟨_, w, rfl, hw, hnear, hexact⟩
  · rename_i hsign
    have hpow : v * 10 ^ e = v / 10 ^ e.natAbs := by
      have hneg : e = -(e.natAbs : Int) := by omega
      rw [div_eq_mul_inv, ← zpow_natCast, ← zpow_neg, ← hneg]
    obtain ⟨w, hw, hnear, hexact⟩ := hx.div_tenPow hlow hhigh he
    rw [hpow]
    exact ⟨_, w, rfl, hw, hnear, hexact⟩

end Numeral

/-! ## 5. The nearest single -/

namespace Single

open Double (Has)

theorem toModel_eq_pack (x : Float32) : x = .ofModel (.pack x.toModel.unpack) := by
  obtain ⟨⟨bits, hvalid⟩⟩ := x
  have hbits : UInt32.ofBitVec (UnpackedFloat.pack .binary32
      (UnpackedFloat.unpack .binary32 bits.toBitVec)) = bits :=
    congrArg UInt32.ofBitVec (pack_unpack_of_valid hvalid)
  show Float32.ofModel ⟨bits, hvalid⟩ = .ofModel ⟨UInt32.ofBitVec _, _⟩
  congr
  exact hbits.symm

section Converting

variable {x : Float32} {y : Float} {s : Sign} {m : Nat} {e : Int} {hm : 0 < m} {v : ℚ}

/-- A double is converted to what its value is rounded to. -/
theorem ofDouble_of_rounded (hx : x.toModel.unpack = .finite s m e hm) (hy : Has y s v)
    (hround : ∀ u, Rounded .binary32 s v u → u = .finite s m e hm) : ofDouble y = x := by
  obtain ⟨n, k, hn, hunpack, rfl⟩ := hy
  have hback := toModel_eq_pack x
  rw [ofDouble, hunpack, inFormat, hround _ (rounded_round hn.pos), hback, hx]

/-- **A double is converted to the single it is nearest to**, when its neighbours are equally far. -/
theorem ofDouble_eq (hx : x.toModel.unpack = .finite s m e hm) (hy : Has y s v)
    (hnear : Nearest (v / 2 ^ e) m) (hwide : 2 ^ 23 < m ∨ e = -149) : ofDouble y = x := by
  have hrep : Representable .binary32 m e := representable_of_unpack (by decide) hx
  refine ofDouble_of_rounded hx hy fun u hu => hu.eq_finite hrep hnear ?_
  exact hwide.symm.imp_right fun hlarge => le_of_nearest (f := .binary32) hnear hlarge

/-- **The same of the least mantissa** of an exponent. -/
theorem ofDouble_eq_least {hpos : 0 < 2 ^ 23} (hx : x.toModel.unpack = .finite s (2 ^ 23) e hpos)
    (hy : Has y s v) (he : -149 < e) (hlow : (2 ^ 23 - 1 / 4) * 2 ^ e < v)
    (hhigh : v < (2 ^ 23 + 1 / 2) * 2 ^ e) : ofDouble y = x := by
  have hrep : Representable .binary32 (2 ^ 23) e := representable_of_unpack (by decide) hx
  refine ofDouble_of_rounded hx hy fun u hu => ?_
  rcases lt_or_ge v (2 ^ 23 * 2 ^ e) with hbelow | habove
  · exact hu.eq_least (f := .binary32) he hlow hbelow
  · refine hu.eq_finite hrep ((nearest_div_iff (two_zpow_pos e)).mpr ?_) (.inr ?_)
    · have hclose : |v - (2 ^ 23 : Nat) * 2 ^ e| < 2 ^ e / 2 := by
        push_cast
        exact abs_lt.mpr ⟨by linarith [two_zpow_pos e], by linarith⟩
      exact ⟨hclose.le, fun heq => absurd heq hclose.ne⟩
    · rw [two_zpow_add, zpow_natCast]
      exact habove

end Converting

end Single

end Aquarium

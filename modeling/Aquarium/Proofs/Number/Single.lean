import Aquarium.Proofs.Number.Double

/-!
# Singles and their values

A single stands for a rational number, unless it is infinite or not a number. Two singles compare as
their values do, so what lies between two bounds is left alone by clamping to them.

* `Single.value?`: the value of a single;
* `Single.compare_unpack`: singles compare as their values do;
* `Single.not_lt_iff`: of two singles that are numbers, infinities among them, either is at most the
  other, or it is greater;
* `Single.clamp_eq_self_iff`, `Single.clamp_between`: clamping changes just what lies outside of the
  bounds, and puts it between them;
* `Single.value?_ofInt`: integers below 2²⁴ are converted exactly;
* `Single.exists_value?_div`: a quotient of two of them misses its value by half a place at most.
-/

namespace Aquarium

open Float.Model (UnpackedFloat Format totalExponent)
open Float.Model.UnpackedFloat

/-! ## 1. Numbers of a format in order -/

section Order

variable {f : Format} {m m' : Nat} {e e' : Int}

theorem Representable.value_pos (h : Representable f m e) : (0 : ℚ) < m * 2 ^ e :=
  mul_pos (by exact_mod_cast h.pos) (two_zpow_pos e)

/-- With the lesser exponent goes the lesser number: the mantissa of the other one is full. -/
theorem Representable.lt_of_exponent_lt (h : Representable f m e) (h' : Representable f m' e')
    (hlt : e < e') : (m : ℚ) * 2 ^ e < m' * 2 ^ e' := by
  have hfull : 2 ^ f.mantissaBitsWithoutImplicit ≤ m' := by
    refine Nat.not_lt.mp fun hsmall => ?_
    have hleast := h'.least hsmall
    have hmin := h.min_le
    omega
  have hdouble : (2 : ℚ) ^ f.mantissaBits = 2 * 2 ^ f.mantissaBitsWithoutImplicit := by
    exact_mod_cast two_pow_mantissaBits f
  have hm : (m : ℚ) < 2 ^ f.mantissaBits := by exact_mod_cast h.lt
  have hm' : (2 : ℚ) ^ f.mantissaBitsWithoutImplicit ≤ m' := by exact_mod_cast hfull
  calc (m : ℚ) * 2 ^ e < 2 ^ f.mantissaBits * 2 ^ e := mul_lt_mul_of_pos_right hm (two_zpow_pos e)
    _ = 2 ^ f.mantissaBitsWithoutImplicit * 2 ^ (e + 1) := by
        rw [hdouble, two_zpow_add, zpow_one]
        ring
    _ ≤ m' * 2 ^ e' := mul_le_mul hm' (zpow_le_zpow_right₀ one_le_two hlt) (two_zpow_pos _).le
        (Nat.cast_nonneg m')

/-- Numbers of a format compare as their exponents do, and then as their mantissas. -/
theorem Representable.compare_eq (h : Representable f m e) (h' : Representable f m' e') :
    (compare e e').then (compare m m') = compare ((m : ℚ) * 2 ^ e) (m' * 2 ^ e') := by
  rcases Int.lt_trichotomy e e' with hlt | rfl | hgt
  · rw [Int.compare_eq_lt.mpr hlt, compare_lt_iff_lt.mpr (h.lt_of_exponent_lt h' hlt)]
    rfl
  · rw [Int.compare_eq_eq.mpr rfl, Ordering.then]
    have hpos := two_zpow_pos e
    rcases Nat.lt_trichotomy m m' with hlt | rfl | hgt
    · have hcast : (m : ℚ) < m' := by exact_mod_cast hlt
      rw [Nat.compare_eq_lt.mpr hlt, compare_lt_iff_lt.mpr (mul_lt_mul_of_pos_right hcast hpos)]
    · rw [Nat.compare_eq_eq.mpr rfl, compare_eq_iff_eq.mpr rfl]
    · have hcast : (m' : ℚ) < m := by exact_mod_cast hgt
      rw [Nat.compare_eq_gt.mpr hgt, compare_gt_iff_gt.mpr (mul_lt_mul_of_pos_right hcast hpos)]
  · rw [Int.compare_eq_gt.mpr hgt, compare_gt_iff_gt.mpr (h'.lt_of_exponent_lt h hgt)]
    rfl

theorem compare_neg_neg (v w : ℚ) : compare (-v) (-w) = (compare v w).swap := by
  rcases lt_trichotomy v w with hlt | rfl | hgt
  · rw [compare_lt_iff_lt.mpr hlt, compare_gt_iff_gt.mpr (neg_lt_neg hlt)]
    rfl
  · rw [compare_eq_iff_eq.mpr rfl, compare_eq_iff_eq.mpr rfl]
    rfl
  · rw [compare_gt_iff_gt.mpr hgt, compare_lt_iff_lt.mpr (neg_lt_neg hgt)]
    rfl

/-- Comparing the other way round gives the opposite. -/
theorem compare_swap (u v : UnpackedFloat) :
    v.compare u = (u.compare v).map Ordering.swap := by
  have hsign : ∀ s t : Sign, compare t s = (compare s t).swap := by decide
  have hsize : ∀ (e d : Int) (m k : Nat), (compare d e).then (compare k m) =
      ((compare e d).then (compare m k)).swap := by
    intro e d m k
    rw [Ordering.swap_then, Int.compare_swap, Nat.compare_swap]
  rcases u with s | _ | s | ⟨s, m, e, hm⟩ <;> rcases v with t | _ | t | ⟨t, k, d, hk⟩
  case infinity.infinity => exact congrArg some (hsign s t)
  case finite.finite =>
    cases s <;> cases t
    case negative.negative => exact congrArg (fun c => some c.swap) (hsize e d m k)
    case positive.positive => exact congrArg some (hsize e d m k)
    all_goals rfl
  all_goals first | rfl | (cases s <;> rfl) | (cases t <;> rfl)

/-- Only what is not a number compares with nothing. -/
theorem exists_compare {u v : UnpackedFloat} (hu : u.isNaN = false) (hv : v.isNaN = false) :
    ∃ c, u.compare v = some c := by
  rcases u with s | _ | s | ⟨s, m, e, hm⟩ <;> rcases v with t | _ | t | ⟨t, k, d, hk⟩
  case notANumber.infinity | notANumber.notANumber | notANumber.zero | notANumber.finite => cases hu
  case infinity.notANumber | zero.notANumber | finite.notANumber => cases hv
  all_goals cases s <;> cases t <;> exact ⟨_, rfl⟩

end Order

namespace Single

/-! ## 2. Values -/

/-- What a sign makes of a size. -/
def signed : Sign → ℚ → ℚ
  | .positive, v => v
  | .negative, v => -v

/-- The value of a single, unless it is infinite or not a number. -/
def value? (x : Float32) : Option ℚ :=
  match x.toModel.unpack with
  | .zero _ => some 0
  | .finite s m e _ => some (signed s (m * 2 ^ e))
  | _ => none

/-- A single with a value is zero, or its mantissa and its exponent stand in a number. -/
theorem value?_eq_some_iff {x : Float32} {v : ℚ} :
    value? x = some v ↔ (∃ s, x.toModel.unpack = .zero s ∧ v = 0) ∨
      ∃ s m e, ∃ h : Representable .binary32 m e,
        x.toModel.unpack = .finite s m e h.pos ∧ v = signed s (m * 2 ^ e) := by
  unfold value?
  constructor
  · intro hv
    split at hv
    · rename_i s hzero
      exact .inl ⟨s, hzero, (Option.some.inj hv).symm⟩
    · rename_i s m e hm hfinite
      exact .inr ⟨s, m, e, representable_of_unpack (by decide) hfinite, hfinite,
        (Option.some.inj hv).symm⟩
    · cases hv
  · rintro (⟨s, hzero, rfl⟩ | ⟨s, m, e, h, hfinite, rfl⟩)
    · rw [hzero]
    · rw [hfinite]

theorem value?_ofModel {s : Sign} {m : Nat} {e : Int} (h : Representable .binary32 m e) :
    value? (.ofModel (.pack (.finite s m e h.pos))) = some (signed s (m * 2 ^ e)) :=
  value?_eq_some_iff.mpr (.inr ⟨s, m, e, h, unpack_pack h, rfl⟩)

/-- **Singles compare as their values do.** -/
theorem compare_unpack {x y : Float32} {v w : ℚ} (hx : value? x = some v) (hy : value? y = some w) :
    x.toModel.unpack.compare y.toModel.unpack = some (compare v w) := by
  rcases value?_eq_some_iff.mp hx with ⟨s, hu, rfl⟩ | ⟨s, m, e, h, hu, rfl⟩ <;>
    rcases value?_eq_some_iff.mp hy with ⟨t, hu', rfl⟩ | ⟨t, k, d, h', hu', rfl⟩ <;>
    rw [hu, hu']
  · rw [compare_eq_iff_eq.mpr rfl]
    rfl
  · have hpos := h'.value_pos
    cases t with
    | positive => exact congrArg some (compare_lt_iff_lt.mpr hpos).symm
    | negative => exact congrArg some (compare_gt_iff_gt.mpr (neg_neg_of_pos hpos)).symm
  · have hpos := h.value_pos
    cases s with
    | positive => exact congrArg some (compare_gt_iff_gt.mpr hpos).symm
    | negative => exact congrArg some (compare_lt_iff_lt.mpr (neg_neg_of_pos hpos)).symm
  · have hpos := h.value_pos
    have hpos' := h'.value_pos
    cases s with
    | positive =>
        cases t with
        | positive => exact congrArg some (h.compare_eq h')
        | negative =>
            exact congrArg some (compare_gt_iff_gt.mpr ((neg_neg_of_pos hpos').trans hpos)).symm
    | negative =>
        cases t with
        | positive =>
            exact congrArg some (compare_lt_iff_lt.mpr ((neg_neg_of_pos hpos).trans hpos')).symm
        | negative =>
            show some ((compare e d).then (compare m k)).swap = some (compare (-_) (-_))
            rw [h.compare_eq h', compare_neg_neg]

/-! ## 3. Order -/

theorem lt_iff_compare {x y : Float32} :
    x < y ↔ x.toModel.unpack.compare y.toModel.unpack = some .lt := by
  show decide (x.toModel < y.toModel) = true ↔ _
  rw [decide_eq_true_iff]
  show (x.toModel.unpack.compare y.toModel.unpack == some .lt) = true ↔ _
  rw [beq_iff_eq]

theorem le_iff_compare {x y : Float32} :
    x ≤ y ↔ (x.toModel.unpack.compare y.toModel.unpack).any (·.isLE) = true := by
  show decide (x.toModel ≤ y.toModel) = true ↔ _
  rw [decide_eq_true_iff]
  rfl

/-- The order of singles is that of their values. -/
theorem lt_iff {x y : Float32} {v w : ℚ} (hx : value? x = some v) (hy : value? y = some w) :
    x < y ↔ v < w := by
  rw [lt_iff_compare, compare_unpack hx hy, Option.some.injEq, compare_lt_iff_lt]

theorem lt_irrefl (x : Float32) : ¬ x < x := by
  rw [lt_iff_compare]
  intro h
  have hswap := compare_swap x.toModel.unpack x.toModel.unpack
  rw [h] at hswap
  cases hswap

/-- **Of two numbers one is less than the other, or at least it.** -/
theorem not_lt_iff {x y : Float32} (hx : x.isNaN = false) (hy : y.isNaN = false) :
    ¬ x < y ↔ y ≤ x := by
  obtain ⟨c, hc⟩ := exists_compare hx hy
  rw [lt_iff_compare, le_iff_compare, compare_swap x.toModel.unpack, hc]
  cases c <;> decide

theorem isNaN_of_isFinite {x : Float32} (h : x.isFinite = true) : x.isNaN = false := by
  show x.toModel.unpack.isNaN = false
  have hfinite : x.toModel.unpack.isFinite = true := h
  revert hfinite
  cases x.toModel.unpack <;> intro hfinite
  case notANumber => cases hfinite
  all_goals rfl

/-- What is not a number is neither less nor greater than anything. -/
theorem not_lt_of_isNaN {x : Float32} (h : x.isNaN = true) (y : Float32) : ¬ x < y ∧ ¬ y < x := by
  have hx : x.toModel.unpack = .notANumber := by
    have hnan : x.toModel.unpack.isNaN = true := h
    revert hnan
    cases x.toModel.unpack <;> intro hnan
    case notANumber => rfl
    all_goals cases hnan
  rw [lt_iff_compare, lt_iff_compare, compare_swap x.toModel.unpack, hx]
  exact ⟨nofun, nofun⟩

section Clamping

variable {x lo hi : Float32} (hlo : lo.isNaN = false) (hhi : hi.isNaN = false) (hle : lo ≤ hi)

include hlo hhi hle

theorem clamp_eq : clamp x lo hi = if x < lo then lo else if hi < x then hi else x := by
  unfold clamp
  by_cases hlow : x < lo
  · simp only [if_pos hlow]
    exact if_neg ((not_lt_iff hhi hlo).mpr hle)
  · simp only [if_neg hlow]

/-- **Clamping changes just the numbers outside of the bounds.** -/
theorem clamp_eq_self_iff : clamp x lo hi = x ↔ x.isNaN = true ∨ lo ≤ x ∧ x ≤ hi := by
  have hsame : clamp x lo hi = x ↔ ¬ x < lo ∧ ¬ hi < x := by
    rw [clamp_eq hlo hhi hle]
    split
    · rename_i hlow
      refine iff_of_false (fun heq => ?_) fun h => h.1 hlow
      rw [heq] at hlow
      exact lt_irrefl x hlow
    · rename_i hlow
      split
      · rename_i hhigh
        refine iff_of_false (fun heq => ?_) fun h => h.2 hhigh
        rw [heq] at hhigh
        exact lt_irrefl x hhigh
      · rename_i hhigh
        exact iff_of_true rfl ⟨hlow, hhigh⟩
  rw [hsame]
  cases hx : x.isNaN with
  | true => exact iff_of_true ⟨(not_lt_of_isNaN hx lo).1, (not_lt_of_isNaN hx hi).2⟩ (.inl rfl)
  | false => rw [not_lt_iff hx hlo, not_lt_iff hhi hx, or_iff_right nofun]

/-- **Clamping puts a number between the bounds.** -/
theorem clamp_between (h : (clamp x lo hi).isNaN = false) :
    lo ≤ clamp x lo hi ∧ clamp x lo hi ≤ hi := by
  rw [clamp_eq hlo hhi hle] at h ⊢
  split at h
  · rename_i hlow
    rw [if_pos hlow]
    exact ⟨(not_lt_iff hlo hlo).mp (lt_irrefl lo), hle⟩
  · rename_i hlow
    rw [if_neg hlow]
    split at h
    · rename_i hhigh
      rw [if_pos hhigh]
      exact ⟨hle, (not_lt_iff hhi hhi).mp (lt_irrefl hi)⟩
    · rename_i hhigh
      rw [if_neg hhigh]
      exact ⟨(not_lt_iff h hlo).mp hlow, (not_lt_iff hhi h).mp hhigh⟩

end Clamping

/-- **What lies between two bounds is left alone by clamping.** -/
theorem clamp_eq_self {x lo hi : Float32} {v a b : ℚ} (hx : value? x = some v)
    (hlo : value? lo = some a) (hhi : value? hi = some b) (hlow : a ≤ v) (hhigh : v ≤ b) :
    clamp x lo hi = x := by
  unfold clamp
  rw [if_neg (mt (lt_iff hx hlo).mp hlow.not_gt), if_neg (mt (lt_iff hhi hx).mp hhigh.not_gt)]

/-! ## 4. Integers -/

theorem value?_ofInt_zero : value? (ofInt 0) = some 0 := rfl

/-- **An integer below 2²⁴ is converted exactly.** -/
theorem unpack_ofInt {n : Nat} (hpos : 0 < n) (hn : n < 2 ^ 24) :
    ∃ m e, ∃ h : Representable .binary32 m e,
      (ofInt n).toModel.unpack = .finite .positive m e h.pos ∧ (m : ℚ) * 2 ^ e = n := by
  have hround : ofInt n = .ofModel (.pack (UnpackedFloat.round .binary32 .positive n 0)) := by
    show Float32.ofModel (.pack (UnpackedFloat.normalize .binary32 n 0 .positive)) = _
    rw [normalize_natCast hpos]
  have hlog := (Nat.log2_lt hpos.ne').mpr hn
  obtain ⟨m, e, hrep, hvalue⟩ := exists_representable (f := .binary32) (e := 0) (by decide) hpos hn
    (by decide) (show totalExponent n 0 ≤ 128 by rw [totalExponent]; omega)
  have hrounded := rounded_round (f := .binary32) (s := .positive) (e := 0) hpos
  rw [← hvalue] at hrounded
  refine ⟨m, e, hrep, ?_, by rw [hvalue, zpow_zero, mul_one]⟩
  rw [hround, hrounded.eq_self hrep]
  exact unpack_pack hrep

theorem value?_ofInt {n : Nat} (hn : n < 2 ^ 24) : value? (ofInt n) = some (n : ℚ) := by
  rcases Nat.eq_zero_or_pos n with rfl | hpos
  · rw [Nat.cast_zero]
    exact value?_ofInt_zero
  · obtain ⟨m, e, h, hunpack, hvalue⟩ := unpack_ofInt hpos hn
    exact value?_eq_some_iff.mpr (.inr ⟨.positive, m, e, h, hunpack, hvalue.symm⟩)

/-- **A quotient of two such integers misses its value by half a place at most.** -/
theorem exists_value?_div {k n : Nat} (hpos : 0 < n) (hk : k < 2 ^ 24) (hn : n < 2 ^ 24) :
    ∃ q, value? (ofInt k / ofInt n) = some q ∧ |q - k / n| ≤ k / n / 2 ^ 24 := by
  obtain ⟨m', e', h', hunpack', hvalue'⟩ := unpack_ofInt hpos hn
  have hquotient : ofInt k / ofInt n = .ofModel (.pack (UnpackedFloat.div .binary32
      (ofInt k).toModel.unpack (ofInt n).toModel.unpack)) := rfl
  rw [hquotient, hunpack']
  rcases Nat.eq_zero_or_pos k with rfl | hkpos
  · have hzero : UnpackedFloat.div .binary32 (ofInt (0 : Nat)).toModel.unpack
        (.finite .positive m' e' h'.pos) = (ofInt 0).toModel.unpack := rfl
    refine ⟨0, ?_, ?_⟩
    · rw [hzero]
      exact value?_ofInt_zero
    · rw [Nat.cast_zero, zero_div, sub_zero, abs_zero, zero_div]
  · obtain ⟨m, e, h, hunpack, hvalue⟩ := unpack_ofInt hkpos hk
    have hone : (1 : ℚ) ≤ k := by exact_mod_cast hkpos
    have hnpos : (0 : ℚ) < n := by exact_mod_cast hpos
    have hlarge : (k : ℚ) < 2 ^ (24 : Int) := by exact_mod_cast hk
    have hlarge' : (n : ℚ) < 2 ^ (24 : Int) := by exact_mod_cast hn
    have htotal : 0 < totalExponent m e := by
      refine two_zpow_lt_iff.mp (lt_of_le_of_lt ?_ (lt_two_zpow_totalExponent (lt_add_one _)))
      rw [zpow_zero, hvalue]
      exact hone
    have htotal' : totalExponent m' e' - 1 < 24 :=
      two_zpow_lt_iff.mp ((two_zpow_totalExponent_le h'.pos le_rfl).trans_lt (hvalue' ▸ hlarge'))
    have hrounded : Rounded .binary32 .positive (k / n) (UnpackedFloat.div .binary32
        (.finite .positive m e h.pos) (.finite .positive m' e' h'.pos)) := by
      rw [← hvalue, ← hvalue']
      exact rounded_div h.pos h'.pos
        (show (-149 : Int) + (24 : Nat) ≤ totalExponent m e - totalExponent m' e' by omega)
    have hlow : (2 : ℚ) ^ (-149 + (23 : Nat) : Int) ≤ k / n := by
      rw [le_div_iff₀ hnpos]
      calc (2 : ℚ) ^ (-149 + (23 : Nat) : Int) * n ≤ 2 ^ (-24 : Int) * 2 ^ (24 : Int) :=
            mul_le_mul (zpow_le_zpow_right₀ one_le_two (by decide)) hlarge'.le hnpos.le
              (two_zpow_pos _).le
        _ = 1 := by rw [← two_zpow_add]; exact zpow_zero 2
        _ ≤ k := hone
    have hhigh : (k / n : ℚ) < 2 ^ (127 : Int) :=
      calc (k / n : ℚ) ≤ k := div_le_self (by linarith) (by exact_mod_cast hpos)
        _ < 2 ^ (24 : Int) := hlarge
        _ ≤ 2 ^ (127 : Int) := zpow_le_zpow_right₀ one_le_two (by decide)
    obtain ⟨q, d, hq, hfinite, hnear⟩ := hrounded.exists_finite hlow hhigh
    refine ⟨q * 2 ^ d, ?_, hnear⟩
    rw [hunpack, hfinite]
    exact value?_ofModel hq

end Single

end Aquarium

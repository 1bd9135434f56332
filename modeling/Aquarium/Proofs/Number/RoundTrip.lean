import Aquarium.Json.Decode
import Aquarium.Proofs.Number.Numeral
import Aquarium.Proofs.Number.Ratios

/-!
# Every single is read back

What is written for a single is read as that single, although it is read through a double and may
thus be rounded twice, or three times where the power of ten is not a double.

The double is a little off the decimal form that was written, and this is off the single. Where the
last digit is worth less than a unit of the single there is room for both. Where it is worth more,
the form may come close to the point half way to the next single; there are no short forms that come
closer to it than the double to the form, unless they are this point.

* `Decimal.Spells.nearest_of_close`: the double is nearest to the single;
* `wellInside_shortestOf`: so it is where one neighbour is only half as far;
* `Single.returns_of_isFinite`: what is written for a finite single is read as that single.
-/

namespace Aquarium

open Float.Model (UnpackedFloat Format)
open Double (Has Short)

namespace Decimal.Spells

variable {d : Decimal} {m : Nat} {q : Int}

/-! ## 1. The range of the digits -/

theorem value_lt (h : d.Spells m q) (hm : m < 2 ^ 24) : d.value < 2 ^ 24 * 2 ^ q := by
  have hnear := ((nearest_div_iff (two_zpow_pos q)).mp h.nearest).1
  have hsmall : (m : ℚ) + 1 ≤ 2 ^ 24 := by exact_mod_cast hm
  have hscaled := mul_le_mul_of_nonneg_right hsmall (two_zpow_pos q).le
  have hpos := two_zpow_pos q
  linarith [abs_le.mp hnear]

theorem value_pos (h : d.Spells m q) (hm : 0 < m) : 0 < d.value := by
  have hnear := ((nearest_div_iff (two_zpow_pos q)).mp h.nearest).1
  have hone : (1 : ℚ) ≤ m := by exact_mod_cast hm
  have hscaled := mul_le_mul_of_nonneg_right hone (two_zpow_pos q).le
  have hpos := two_zpow_pos q
  linarith [abs_le.mp hnear]

theorem digits_pos (h : d.Spells m q) (hm : 0 < m) : 0 < d.digits := by
  refine Nat.pos_of_ne_zero fun hzero => ?_
  have hpos := h.value_pos hm
  rw [value, hzero, Nat.cast_zero, zero_mul] at hpos
  exact lt_irrefl 0 hpos

theorem digits_lt (h : d.Spells m q) (hm : m < 2 ^ 24) : d.digits < 2 ^ 28 := by
  have hvalue := h.value_lt hm
  have hcoarse := h.coarse
  have hunit := ten_zpow_pos d.exponent
  rw [ten_zpow_add, zpow_one] at hcoarse
  rw [value] at hvalue
  have hdigits : (d.digits : ℚ) * 10 ^ d.exponent < 2 ^ 28 * 10 ^ d.exponent := by linarith
  exact_mod_cast lt_of_mul_lt_mul_right hdigits hunit.le

theorem le_exponent (h : d.Spells m q) (hq : -149 ≤ q) : -45 ≤ d.exponent := by
  have hleast : (10 : ℚ) ^ (-45 : Int) < 2 ^ (-149 : Int) := by norm_num
  have hunit : (2 : ℚ) ^ (-149 : Int) ≤ 2 ^ q := zpow_le_zpow_right₀ one_le_two hq
  have hlt := (zpow_lt_zpow_iff_right₀ (by norm_num)).mp (hleast.trans_le (hunit.trans h.coarse))
  omega

theorem exponent_le (h : d.Spells m q) (hm : 0 < m) (hm' : m < 2 ^ 24) (hq : q ≤ 104) :
    d.exponent ≤ 38 := by
  have hlarge : (2 : ℚ) ^ 24 * 2 ^ (104 : Int) < 10 ^ (39 : Int) := by norm_num
  have hunit : (2 : ℚ) ^ q ≤ 2 ^ (104 : Int) := zpow_le_zpow_right₀ one_le_two hq
  have hdigits : (1 : ℚ) ≤ d.digits := by exact_mod_cast h.digits_pos hm
  have hvalue := h.value_lt hm'
  rw [value] at hvalue
  have hself := mul_le_mul_of_nonneg_right hdigits (ten_zpow_pos d.exponent).le
  have hlt : (10 : ℚ) ^ d.exponent < 10 ^ (39 : Int) := by linarith
  have := (zpow_lt_zpow_iff_right₀ (by norm_num)).mp hlt
  omega

/-! ## 2. The double that is read -/

/-- A number that is closer to a decimal form than this is to a point half way between singles lies
on the same side of that point. -/
theorem sides_of_close {x y w : ℚ} (hequal : x = y → w = x) (hclose : x ≠ y → |w - x| < |x - y|) :
    (x ≤ y → w ≤ y) ∧ (y ≤ x → y ≤ w) ∧ (w = y → x = y) := by
  by_cases h : x = y
  · have hw := hequal h
    exact ⟨fun _ => (hw.trans h).le, fun _ => (hw.trans h).ge, fun _ => h⟩
  · have hlt := hclose h
    refine ⟨fun hle => ?_, fun hle => ?_, fun hw => ?_⟩
    · rw [abs_of_nonpos (sub_nonpos.mpr hle)] at hlt
      linarith [(abs_lt.mp hlt).2]
    · rw [abs_of_nonneg (sub_nonneg.mpr hle)] at hlt
      linarith [(abs_lt.mp hlt).1]
    · rw [hw, abs_sub_comm] at hlt
      exact absurd hlt (lt_irrefl _)

/-- The same for one of the two points next to a single. -/
theorem sides (h : d.Spells m q) (hm : 0 < m) (hm' : m < 2 ^ 24) (hq : -149 ≤ q) (hq' : q ≤ 104)
    (hcoarse : (2 : ℚ) ^ q ≤ 10 ^ d.exponent) {w : ℚ} (hw : |w - d.value| ≤ d.value / 2 ^ 51)
    (hexact : d.exponent.natAbs ≤ 22 → Short d.value → w = d.value) {k : Nat} (hk : k < 2 ^ 25)
    (hodd : k % 2 = 1) (hne : ¬ (q = -107 ∧ k = 22841339)) :
    (d.value ≤ k * 2 ^ (q - 1) → w ≤ k * 2 ^ (q - 1)) ∧
      (k * 2 ^ (q - 1) ≤ d.value → k * 2 ^ (q - 1) ≤ w) ∧
      (w = k * 2 ^ (q - 1) → d.value = k * 2 ^ (q - 1)) := by
  have hapart := Ratio.apart (h.le_exponent hq) (h.exponent_le hm hm' hq') hcoarse (h.digits_pos hm)
    (h.value_lt hm') hk hodd
  refine sides_of_close (fun hequal => ?_) fun hunequal => ?_
  · have hzero : |d.value - k * 2 ^ (q - 1)| ≤ d.value / 2 ^ 51 := by
      rw [hequal, sub_self, abs_zero, ← hequal]
      have := h.value_pos hm
      positivity
    rcases hapart hzero with ⟨-, hsmall⟩ | hexception
    · refine hexact hsmall ?_
      rw [hequal]
      exact ⟨k, q - 1, by omega, by omega, by omega, rfl⟩
    · exact absurd hexception hne
  · refine hw.trans_lt (not_le.mp fun hnear => ?_)
    rcases hapart hnear with ⟨hequal, -⟩ | hexception
    · exact hunequal hequal
    · exact hne hexception

/-- **The double that is read for the shortest form of a single is nearest to the single**, but for
two singles at most. -/
theorem nearest_of_close (h : d.Spells m q) (hm : 0 < m) (hm' : m < 2 ^ 24) (hq : -149 ≤ q)
    (hq' : q ≤ 104) (hne : ¬ (q = -107 ∧ (m = 11420669 ∨ m = 11420670))) {w : ℚ}
    (hw : |w - d.value| ≤ d.value / 2 ^ 51)
    (hexact : d.exponent.natAbs ≤ 22 → Short d.value → w = d.value) : Nearest (w / 2 ^ q) m := by
  have hunit := two_zpow_pos q
  obtain ⟨hnear, heven⟩ := (nearest_div_iff hunit).mp h.nearest
  rw [nearest_div_iff hunit]
  rcases lt_or_ge ((10 : ℚ) ^ d.exponent) (2 ^ q) with hfine | hcoarse
  · have hgap := Ratio.tenPow_le_of_lt (h.le_exponent hq) (h.exponent_le hm hm' hq') hfine
    have hclose : |w - m * 2 ^ q| < 2 ^ q / 2 := by
      have hdouble := h.value_lt hm'
      have hform := h.near
      calc |w - m * 2 ^ q| ≤ |w - d.value| + |d.value - m * 2 ^ q| := abs_sub_le _ _ _
        _ < 2 ^ q / 2 := by linarith
    exact ⟨hclose.le, fun heq => absurd heq hclose.ne⟩
  · have hhalf : (2 : ℚ) ^ q = 2 ^ (q - 1) * 2 := by
      rw [← zpow_add_one₀ two_ne_zero, sub_add_cancel]
    have habove := h.sides hm hm' hq hq' hcoarse hw hexact (k := 2 * m + 1) (by omega) (by omega)
      (by omega)
    have hbelow := h.sides hm hm' hq hq' hcoarse hw hexact (k := 2 * m - 1) (by omega) (by omega)
      (by omega)
    have hupper : ((2 * m + 1 : Nat) : ℚ) * 2 ^ (q - 1) = m * 2 ^ q + 2 ^ q / 2 := by
      rw [hhalf]
      push_cast
      ring
    have hlower : ((2 * m - 1 : Nat) : ℚ) * 2 ^ (q - 1) = m * 2 ^ q - 2 ^ q / 2 := by
      rw [hhalf, Nat.cast_sub (by omega)]
      push_cast
      ring
    rw [hupper] at habove
    rw [hlower] at hbelow
    have hfrom := hbelow.2.1 (by linarith [(abs_le.mp hnear).1])
    have hto := habove.1 (by linarith [(abs_le.mp hnear).2])
    refine ⟨abs_le.mpr ⟨by linarith, by linarith⟩, fun hend => heven ?_⟩
    rcases (abs_eq (by linarith)).mp hend with hend | hend
    · rw [habove.2.2 (by linarith), add_sub_cancel_left, abs_of_pos (by linarith)]
    · rw [hbelow.2.2 (by linarith), sub_sub_cancel_left, abs_neg, abs_of_pos (by linarith)]

end Decimal.Spells

/-! ## 3. The single that is read -/

/-- What a decimal form is read as has its value but for a little. -/
theorem Numeral.exists_value?_ofDecimal {d : Decimal} (hpos : 0 < d.digits)
    (hsmall : d.digits < 2 ^ 53) (hlow : -45 ≤ d.exponent) (hhigh : d.exponent ≤ 38) :
    ∃ y w, Has y .positive w ∧ |w - d.value| ≤ d.value / 2 ^ 51 ∧
      (d.exponent.natAbs ≤ 22 → Short d.value → w = d.value) ∧
      ∀ negative : Bool,
        (ofDecimal negative d).value? = some (.real (if negative then -y else y)) := by
  obtain ⟨s, e, hs, hs', hvalue, he, hread⟩ := value?_ofDecimal hpos hsmall
  have hone : (1 : ℚ) ≤ s := by exact_mod_cast hs
  have hbound : (s : ℚ) < 2 ^ (53 : Int) := by exact_mod_cast hs'
  obtain ⟨y, w, hscale, hw, hnear, hexact⟩ :=
    scale_has (Double.has_ofInt hs hs') hone hbound (e := e) (by omega)
  rw [hvalue] at hnear hexact
  refine ⟨y, w, hw, hnear, fun h => hexact (by omega), fun negative => ?_⟩
  rw [hread negative, hscale]
  rfl

theorem Double.Has.signed {y : Float} {w : ℚ} (h : Has y .positive w) (s : UnpackedFloat.Sign) :
    Has (if s == .negative then -y else y) s w := by
  cases s with
  | positive => exact h
  | negative => exact h.neg

/-- The decimal form lies well between the neighbours of `2 ^ 23 · 2 ^ (n - 148)`, in units of
`10 ^ -45 · 2 ^ -148` and in hundredths of a place. -/
structure Decimal.WellInside (d : Decimal) (n : Nat) : Prop where
  pos : 0 < d.digits
  short : d.digits < 2 ^ 53
  le_exponent : -45 ≤ d.exponent
  exponent_le : d.exponent ≤ 38
  above : 100 * 2 ^ 23 * (2 ^ n * 10 ^ 45) ≤
    100 * (d.digits * 10 ^ (d.exponent + 45).toNat * 2 ^ 148) + 24 * (2 ^ n * 10 ^ 45)
  below : 100 * (d.digits * 10 ^ (d.exponent + 45).toNat * 2 ^ 148) ≤
    100 * 2 ^ 23 * (2 ^ n * 10 ^ 45) + 49 * (2 ^ n * 10 ^ 45)

instance (d : Decimal) (n : Nat) : Decidable (d.WellInside n) :=
  decidable_of_iff
    (0 < d.digits ∧ d.digits < 2 ^ 53 ∧ -45 ≤ d.exponent ∧ d.exponent ≤ 38 ∧
      100 * 2 ^ 23 * (2 ^ n * 10 ^ 45) ≤
        100 * (d.digits * 10 ^ (d.exponent + 45).toNat * 2 ^ 148) + 24 * (2 ^ n * 10 ^ 45) ∧
      100 * (d.digits * 10 ^ (d.exponent + 45).toNat * 2 ^ 148) ≤
        100 * 2 ^ 23 * (2 ^ n * 10 ^ 45) + 49 * (2 ^ n * 10 ^ 45))
    ⟨fun ⟨h₁, h₂, h₃, h₄, h₅, h₆⟩ => ⟨h₁, h₂, h₃, h₄, h₅, h₆⟩,
      fun ⟨h₁, h₂, h₃, h₄, h₅, h₆⟩ => ⟨h₁, h₂, h₃, h₄, h₅, h₆⟩⟩

/-- A least mantissa has a neighbour at half the distance; none of their forms comes near to it. -/
theorem wellInside_shortestOf :
    ∀ n : Nat, n < 253 → (shortestOf (2 ^ 23) (n - 148 : Int) true).WellInside n := by
  decide +kernel

theorem Decimal.WellInside.bounds {d : Decimal} {n : Nat} (h : d.WellInside n) {w : ℚ}
    (hw : |w - d.value| ≤ d.value / 2 ^ 51) :
    (2 ^ 23 - 1 / 4) * (2 : ℚ) ^ (n - 148 : Int) < w ∧
      w < (2 ^ 23 + 1 / 2) * (2 : ℚ) ^ (n - 148 : Int) := by
  obtain ⟨-, -, hexponent, -, hlow, hhigh⟩ := h
  obtain ⟨k, hk⟩ := Int.eq_ofNat_of_zero_le (a := d.exponent + 45) (by omega)
  have hscale : (0 : ℚ) < 10 ^ 45 * 2 ^ 148 := by positivity
  have hdecimal : d.digits * 10 ^ k * 2 ^ 148 = d.value * (10 ^ 45 * 2 ^ 148) := by
    have hpower : (10 : ℚ) ^ d.exponent * 10 ^ 45 = 10 ^ k := by
      rw [← zpow_natCast, ← zpow_natCast, ← hk, ten_zpow_add]
      rfl
    rw [value, ← hpower]
    ring
  have hunit : 2 ^ n * 10 ^ 45 = (2 : ℚ) ^ (n - 148 : Int) * (10 ^ 45 * 2 ^ 148) := by
    have hpower : (2 : ℚ) ^ (n - 148 : Int) * 2 ^ 148 = 2 ^ n := by
      rw [← zpow_natCast, ← zpow_natCast, ← two_zpow_add]
      norm_num
    rw [← hpower]
    ring
  have hpos := two_zpow_pos (n - 148)
  rw [hk, Int.toNat_natCast] at hlow hhigh
  have hlow' : (100 * 2 ^ 23 * (2 ^ n * 10 ^ 45) : ℚ) ≤
      100 * (d.digits * 10 ^ k * 2 ^ 148) + 24 * (2 ^ n * 10 ^ 45) := by exact_mod_cast hlow
  have hhigh' : (100 * (d.digits * 10 ^ k * 2 ^ 148) : ℚ) ≤
      100 * 2 ^ 23 * (2 ^ n * 10 ^ 45) + 49 * (2 ^ n * 10 ^ 45) := by exact_mod_cast hhigh
  rw [hdecimal, hunit] at hlow' hhigh'
  generalize (2 : ℚ) ^ (n - 148 : Int) = unit at hpos hlow' hhigh' ⊢
  generalize (10 : ℚ) ^ 45 * 2 ^ 148 = scale at hscale hlow' hhigh'
  have hform : 100 * 2 ^ 23 * unit ≤ 100 * d.value + 24 * unit :=
    le_of_mul_le_mul_right (by linarith) hscale
  have hform' : 100 * d.value ≤ 100 * 2 ^ 23 * unit + 49 * unit :=
    le_of_mul_le_mul_right (by linarith) hscale
  have hbounds := abs_le.mp hw
  constructor
  · linarith
  · linarith

namespace Single

variable {x : Float32} {s : UnpackedFloat.Sign} {m : Nat} {e : Int} {hm : 0 < m}

/-- A single other than the least of its exponent. -/
theorem exists_read_wide (hx : x.toModel.unpack = .finite s m e hm) (hwide : 2 ^ 23 < m ∨ e = -149)
    (hne : ¬ (e = -107 ∧ (m = 11420669 ∨ m = 11420670))) :
    ∃ y, (Numeral.ofDecimal (s == .negative) (shortestOf m e false)).value? = some (.real y) ∧
      ofDouble y = x := by
  have hrep : Representable .binary32 m e := representable_of_unpack (by decide) hx
  have hmin : -149 ≤ e := hrep.min_le
  have hmax : e + 23 ≤ 127 := hrep.le_max
  have hspells := spells_shortestOf hm e
  obtain ⟨y, w, hy, hnear, hexact, hread⟩ := Numeral.exists_value?_ofDecimal (hspells.digits_pos hm)
    ((hspells.digits_lt hrep.lt).trans (by decide)) (hspells.le_exponent hmin)
    (hspells.exponent_le hm hrep.lt (by omega))
  refine ⟨_, hread (s == .negative), ofDouble_eq hx (hy.signed s) ?_ hwide⟩
  exact hspells.nearest_of_close hm hrep.lt hmin (by omega) hne hnear hexact

/-- The least single of its exponent. -/
theorem exists_read_narrow {hpos : 0 < 2 ^ 23} (hx : x.toModel.unpack = .finite s (2 ^ 23) e hpos)
    (he : -149 < e) :
    ∃ y, (Numeral.ofDecimal (s == .negative) (shortestOf (2 ^ 23) e true)).value? =
        some (.real y) ∧ ofDouble y = x := by
  have hrep : Representable .binary32 (2 ^ 23) e := representable_of_unpack (by decide) hx
  have hmax : e + 23 ≤ 127 := hrep.le_max
  obtain ⟨n, hn⟩ := Int.eq_ofNat_of_zero_le (a := e + 148) (by omega)
  obtain rfl : e = n - 148 := by omega
  have hinside := wellInside_shortestOf n (by omega)
  obtain ⟨y, w, hy, hnear, -, hread⟩ := Numeral.exists_value?_ofDecimal hinside.pos hinside.short
    hinside.le_exponent hinside.exponent_le
  obtain ⟨hlow, hhigh⟩ := hinside.bounds hnear
  exact ⟨_, hread (s == .negative), ofDouble_eq_least hx (hy.signed s) he hlow hhigh⟩

/-- What is written for the value is read as the value. -/
def Returns (x : Float32) : Prop :=
  ((Numeral.ofSingle? x).bind Numeral.value?).map Number.toSingle = some x

instance (x : Float32) : Decidable (Returns x) := inferInstanceAs (Decidable (_ = _))

/-- The two singles whose decimal form may be close to the point between them. -/
theorem returns_of_close (s : UnpackedFloat.Sign) :
    Returns (.ofModel (.pack (.finite s 11420669 (-107) (by decide)))) ∧
      Returns (.ofModel (.pack (.finite s 11420670 (-107) (by decide)))) := by
  cases s <;> decide +kernel

theorem returns_of_zero (s : UnpackedFloat.Sign) : Returns (.ofModel (.pack (.zero s))) := by
  cases s <;> decide +kernel

theorem shortest?_of_finite (hx : x.toModel.unpack = .finite s m e hm) {narrow : Bool}
    (hnarrow : (m = 2 ^ 23 ∧ -149 < e) ↔ narrow = true) :
    shortest? x = some (s == .negative, shortestOf m e narrow) := by
  have hsame : (m == Nat.pow 2 23 && decide (Format.binary32.minExponent < e)) = narrow := by
    rw [Bool.eq_iff_iff, ← hnarrow, Bool.and_eq_true, beq_iff_eq, decide_eq_true_iff]
    rfl
  rw [← hsame, shortest?, hx]

theorem returns_of_read {negative : Bool} {d : Decimal} {y : Float}
    (hshortest : shortest? x = some (negative, d))
    (hread : (Numeral.ofDecimal negative d).value? = some (.real y)) (hy : ofDouble y = x) :
    Returns x := by
  rw [Returns, Numeral.ofSingle?, hshortest, Option.map_some, Option.bind_some, hread,
    Option.map_some]
  exact congrArg some hy

theorem returns_of_finite (hx : x.toModel.unpack = .finite s m e hm) : Returns x := by
  have hrep : Representable .binary32 m e := representable_of_unpack (by decide) hx
  by_cases hclose : e = -107 ∧ (m = 11420669 ∨ m = 11420670)
  · have hback := toModel_eq_pack x
    obtain ⟨rfl, rfl | rfl⟩ := hclose
    · rw [hback, hx]
      exact (returns_of_close s).1
    · rw [hback, hx]
      exact (returns_of_close s).2
  · by_cases hnarrow : m = 2 ^ 23 ∧ -149 < e
    · obtain ⟨rfl, he⟩ := hnarrow
      obtain ⟨y, hread, hy⟩ := exists_read_narrow hx he
      exact returns_of_read (shortest?_of_finite hx (iff_of_true ⟨rfl, he⟩ rfl)) hread hy
    · have hmin : -149 ≤ e := hrep.min_le
      have hleast : m < 2 ^ 23 → e = -149 := hrep.least
      obtain ⟨y, hread, hy⟩ := exists_read_wide hx (by omega) hclose
      exact returns_of_read (shortest?_of_finite hx (iff_of_false hnarrow Bool.false_ne_true)) hread
        hy

/-- Just what is finite has a decimal form. -/
theorem shortest?_eq_none_iff : shortest? x = none ↔ x.isFinite = false := by
  have hfinite : x.isFinite = x.toModel.unpack.isFinite := rfl
  rw [hfinite, shortest?]
  cases x.toModel.unpack with
  | notANumber => exact iff_of_true rfl rfl
  | infinity s => exact iff_of_true rfl rfl
  | zero s => exact iff_of_false nofun nofun
  | finite s m e hm => exact iff_of_false nofun nofun

/-- **What is written for a finite single is read as that single.** -/
theorem returns_of_isFinite (h : x.isFinite = true) : Returns x := by
  have hfinite : x.toModel.unpack.isFinite = true := h
  cases hx : x.toModel.unpack with
  | notANumber => rw [hx] at hfinite; cases hfinite
  | infinity s => rw [hx] at hfinite; cases hfinite
  | zero s =>
      rw [toModel_eq_pack x, hx]
      exact returns_of_zero s
  | finite s m e hm => exact returns_of_finite hx

end Single

end Aquarium

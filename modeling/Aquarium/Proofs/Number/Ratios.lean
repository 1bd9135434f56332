import Aquarium.Proofs.Number.Rounding

/-!
# Powers of ten next to powers of two

A multiple of a power of ten is compared with an odd multiple of a power of two, both factors being
small. They are equal or well apart: a fraction with a small denominator that is close to the ratio
of the two powers leaves no room for another one, so only its own multiples have to be looked at.

* `Certified`: such a fraction, for one power of ten;
* `exists_certified`: there is one for every power of ten that a single needs;
* `apart`: what is close is equal, but for one pair of numbers.
-/

namespace Aquarium

namespace Ratio

/-! ## 1. The ratio of a power of ten to a power of two -/

/-- The power of two below a power of ten, by its exponent. -/
def binade (e : Int) : Int :=
  if 0 ≤ e then Nat.log2 (10 ^ e.toNat) else -(Nat.log2 (10 ^ (-e).toNat) + 1)

/-- Twice a power of ten over the power of two below it: the numerator. -/
def numerator (e : Int) : Nat := if 0 ≤ e then 2 * 10 ^ e.toNat else 2 * 2 ^ (-binade e).toNat

/-- Twice a power of ten over the power of two below it: the denominator. -/
def denominator (e : Int) : Nat := if 0 ≤ e then 2 ^ (binade e).toNat else 10 ^ (-e).toNat

theorem numerator_mul (e : Int) :
    (numerator e : ℚ) * 2 ^ binade e = denominator e * (2 * 10 ^ e) := by
  unfold numerator denominator
  split
  · rename_i he
    obtain ⟨n, rfl⟩ := Int.eq_ofNat_of_zero_le he
    have hpow : (2 : ℚ) ^ binade n = 2 ^ (binade n).toNat := by
      rw [← zpow_natCast, Int.toNat_of_nonneg]
      rw [binade, if_pos he]
      omega
    rw [hpow, Int.toNat_natCast, zpow_natCast]
    push_cast
    ring
  · rename_i he
    obtain ⟨n, hn⟩ := Int.eq_ofNat_of_zero_le (a := -e) (by omega)
    have hneg : e = -(n : Int) := by omega
    have hpow : (2 : ℚ) ^ binade e = (2 ^ (-binade e).toNat)⁻¹ := by
      rw [← zpow_natCast, Int.toNat_of_nonneg, ← zpow_neg, neg_neg]
      rw [binade, if_neg he]
      omega
    rw [hpow, hn, Int.toNat_natCast, hneg, zpow_neg, zpow_natCast]
    push_cast
    field_simp

/-! ## 2. Fractions close to it -/

/-- How far a fraction is from the ratio, over both denominators. -/
def error (e : Int) (h k : Nat) : Nat := ((k * numerator e : Int) - h * denominator e).natAbs

/-- The fraction `h / k` is so close to the ratio that no other fraction of small numbers is, and its
own odd multiples are large, equal or not close, but for one fraction. -/
structure Certified (e : Int) (h k : Nat) : Prop where
  coprime : Nat.Coprime h k
  room : 2 ^ 75 * error e h k + 2 ^ 26 * (k * denominator e) < 2 ^ 51 * denominator e
  own : h % 2 = 0 ∨ 2 ^ 25 ≤ h ∨ (error e h k = 0 ∧ e.natAbs ≤ 22) ∨
    k * numerator e < 2 ^ 51 * error e h k ∨ (e = -32 ∧ h = 22841339 ∧ k = 7038531)

instance (e : Int) (h k : Nat) : Decidable (Certified e h k) :=
  decidable_of_iff
    (Nat.Coprime h k ∧
      2 ^ 75 * error e h k + 2 ^ 26 * (k * denominator e) < 2 ^ 51 * denominator e ∧
      (h % 2 = 0 ∨ 2 ^ 25 ≤ h ∨ (error e h k = 0 ∧ e.natAbs ≤ 22) ∨
        k * numerator e < 2 ^ 51 * error e h k ∨ (e = -32 ∧ h = 22841339 ∧ k = 7038531)))
    ⟨fun ⟨h₁, h₂, h₃⟩ => ⟨h₁, h₂, h₃⟩, fun ⟨h₁, h₂, h₃⟩ => ⟨h₁, h₂, h₃⟩⟩

section Pairs

variable {e : Int} {h k d m : Nat}

/-- A pair of small numbers in another ratio than the fraction is not close. -/
theorem Certified.not_close (hc : Certified e h k) (hd : d < 2 ^ 24) (hm : m < 2 ^ 25)
    (hne : (d * h : Int) ≠ m * k) :
    (d * numerator e : Int) < 2 ^ 51 * |(d * numerator e : Int) - m * denominator e| := by
  refine not_le.mp fun hclose => ?_
  have hroom := hc.room
  unfold error at hroom
  zify at hroom
  generalize (numerator e : Int) = a at hroom hclose
  have hb : (0 : Int) ≤ denominator e := Int.natCast_nonneg _
  generalize (denominator e : Int) = b at hroom hclose hb
  have hd' : (d : Int) ≤ 2 ^ 24 := by exact_mod_cast hd.le
  have hm' : (m : Int) ≤ 2 ^ 25 := by exact_mod_cast hm.le
  have hkey : b * (d * h - m * k) = k * (d * a - m * b) - d * (k * a - h * b) := by ring
  have hone : 1 ≤ |(d * h : Int) - m * k| := Int.one_le_abs (sub_ne_zero.mpr hne)
  have hspread : b ≤ k * |d * a - m * b| + d * |k * a - h * b| :=
    calc b ≤ b * |(d * h : Int) - m * k| := le_mul_of_one_le_right hb hone
      _ = |k * (d * a - m * b) - d * (k * a - h * b)| := by
          rw [← hkey, abs_mul, abs_of_nonneg hb]
      _ ≤ |k * (d * a - m * b)| + |d * (k * a - h * b)| := abs_sub _ _
      _ = k * |d * a - m * b| + d * |k * a - h * b| := by
          rw [abs_mul, abs_mul, Nat.abs_cast, Nat.abs_cast]
  have hproduct : d * a ≤ 2 ^ 26 * b := by
    have hmb := mul_le_mul_of_nonneg_right hm' hb
    have habove := le_abs_self (d * a - m * b)
    linarith
  have hfirst := mul_le_mul_of_nonneg_left (hclose.trans hproduct) (Int.natCast_nonneg k)
  have hsecond := mul_le_mul_of_nonneg_right hd' (abs_nonneg (k * a - h * b))
  linarith

/-- **A pair of small numbers is not close** unless it is equal, or the exception. -/
theorem Certified.eq_of_close (hc : Certified e h k) (hpos : 0 < d) (hd : d < 2 ^ 24)
    (hm : m < 2 ^ 25) (hodd : m % 2 = 1)
    (hclose : 2 ^ 51 * |(d * numerator e : Int) - m * denominator e| ≤ d * numerator e) :
    (d * numerator e = m * denominator e ∧ e.natAbs ≤ 22) ∨
      (e = -32 ∧ d = 7038531 ∧ m = 22841339) := by
  have hsame : d * h = m * k := by
    by_contra hne
    exact absurd hclose (not_le.mpr (hc.not_close hd hm (by exact_mod_cast hne)))
  have hk : 0 < k := by
    refine Nat.pos_of_ne_zero fun hzero => ?_
    have hone := hc.coprime
    rw [hzero, Nat.coprime_zero_right] at hone
    rw [hone, hzero] at hsame
    omega
  obtain ⟨c, rfl⟩ : k ∣ d := hc.coprime.symm.dvd_of_dvd_mul_right ⟨m, by rw [hsame, Nat.mul_comm]⟩
  have hmc : m = c * h := by
    refine Nat.eq_of_mul_eq_mul_right hk ?_
    rw [← hsame]
    ring
  have hc0 : 0 < c := Nat.pos_of_mul_pos_left hpos
  rw [hmc, Nat.odd_iff.symm, Nat.odd_mul] at hodd
  rcases hc.own with heven | hlarge | ⟨hexact, hsmall⟩ | hfar | ⟨he, hh, hk'⟩
  · have := Nat.odd_iff.mp hodd.2
    omega
  · have := Nat.le_mul_of_pos_left h hc0
    omega
  · refine .inl ⟨?_, hsmall⟩
    have hequal : (k * numerator e : Int) = h * denominator e :=
      sub_eq_zero.mp (Int.natAbs_eq_zero.mp hexact)
    have hnat : k * numerator e = h * denominator e := by exact_mod_cast hequal
    rw [hmc, Nat.mul_comm k c, Nat.mul_assoc, hnat, Nat.mul_assoc]
  · have hmultiple : ((k * c : Nat) * numerator e : Int) - m * denominator e =
        c * (k * numerator e - h * denominator e) := by
      rw [hmc]
      push_cast
      ring
    unfold error at hfar
    zify at hfar
    rw [hmultiple, abs_mul, Nat.abs_cast] at hclose
    push_cast at hclose
    have hscaled := mul_lt_mul_of_pos_left hfar (Int.natCast_pos.mpr hc0)
    linarith
  · have hc1 : c = 1 := by
      rw [hh] at hmc
      omega
    rw [hmc, hc1, Nat.one_mul, Nat.mul_one]
    exact .inr ⟨he, hk', hh⟩

end Pairs

/-! ## 3. The fractions -/

/-- The fractions that a ratio is best approached by, from two of them and what is left of the
ratio. -/
def convergents : Nat → Nat → Nat → Nat × Nat → Nat × Nat → List (Nat × Nat)
  | 0, _, _, _, _ => []
  | steps + 1, a, b, last, next =>
    if b = 0 then []
    else
      let new := (a / b * next.1 + last.1, a / b * next.2 + last.2)
      new :: convergents steps b (a % b) next new

/-- The ratio lies between two and four, and one of the fractions will do. -/
def Searched (e : Int) : Prop :=
  2 * denominator e ≤ numerator e ∧ 100 * numerator e ≤ 397 * denominator e ∧
    ∃ f ∈ convergents 40 (numerator e) (denominator e) (0, 1) (1, 0), Certified e f.1 f.2

instance (e : Int) : Decidable (Searched e) := inferInstanceAs (Decidable (_ ∧ _ ∧ ∃ _ ∈ _, _))

theorem searched_below : ∀ n : Nat, n < 84 → Searched (n - 45 : Int) := by
  decide +kernel

theorem searched {e : Int} (hlow : -45 ≤ e) (hhigh : e ≤ 38) : Searched e := by
  obtain ⟨n, hn⟩ := Int.eq_ofNat_of_zero_le (a := e + 45) (by omega)
  have h := searched_below n (by omega)
  rwa [← hn, add_sub_cancel_right] at h

/-! ## 4. Powers of ten and powers of two -/

variable {e q : Int}

theorem denominator_pos (e : Int) : 0 < denominator e := by
  unfold denominator
  split <;> exact Nat.pow_pos (by decide)

theorem two_zpow_binade_le (h : Searched e) : (2 : ℚ) ^ binade e ≤ 10 ^ e := by
  have hden : (0 : ℚ) < denominator e := by exact_mod_cast denominator_pos e
  have hbound : (2 * denominator e : ℚ) ≤ numerator e := by exact_mod_cast h.1
  have hscaled := mul_le_mul_of_nonneg_right hbound (two_zpow_pos (binade e)).le
  rw [numerator_mul] at hscaled
  refine le_of_mul_le_mul_left ?_ hden
  linarith

theorem tenPow_le_binade (h : Searched e) : 200 * (10 : ℚ) ^ e ≤ 397 * 2 ^ binade e := by
  have hden : (0 : ℚ) < denominator e := by exact_mod_cast denominator_pos e
  have hbound : (100 * numerator e : ℚ) ≤ 397 * denominator e := by exact_mod_cast h.2.1
  have hscaled := mul_le_mul_of_nonneg_right hbound (two_zpow_pos (binade e)).le
  rw [mul_assoc, numerator_mul] at hscaled
  refine le_of_mul_le_mul_left ?_ hden
  linarith

/-- A power of ten that is smaller than a power of two is well below it. -/
theorem tenPow_le_of_lt (hlow : -45 ≤ e) (hhigh : e ≤ 38) (hq : (10 : ℚ) ^ e < 2 ^ q) :
    400 * (10 : ℚ) ^ e ≤ 397 * 2 ^ q := by
  have h := searched hlow hhigh
  have hlt := two_zpow_lt_iff.mp ((two_zpow_binade_le h).trans_lt hq)
  have hnext : (2 : ℚ) ^ (binade e + 1) ≤ 2 ^ q := zpow_le_zpow_right₀ one_le_two hlt
  rw [two_zpow_add, zpow_one] at hnext
  have := tenPow_le_binade h
  linarith

/-- **A short decimal is not close to a point half way between singles** unless it is that point, or
the exception. -/
theorem apart (hlow : -45 ≤ e) (hhigh : e ≤ 38) (hq : (2 : ℚ) ^ q ≤ 10 ^ e) {d m : Nat} (hpos : 0 < d)
    (hd : d * (10 : ℚ) ^ e < 2 ^ 24 * 2 ^ q) (hm : m < 2 ^ 25) (hodd : m % 2 = 1)
    (hclose : |d * (10 : ℚ) ^ e - m * 2 ^ (q - 1)| ≤ d * 10 ^ e / 2 ^ 51) :
    (d * (10 : ℚ) ^ e = m * 2 ^ (q - 1) ∧ e.natAbs ≤ 22) ∨ (q = -107 ∧ m = 22841339) := by
  have h := searched hlow hhigh
  have hbinade := two_zpow_pos (binade e)
  have hle : q < binade e + 1 := by
    refine two_zpow_lt_iff.mp (hq.trans_lt ?_)
    have := tenPow_le_binade h
    rw [two_zpow_add, zpow_one]
    linarith
  obtain ⟨j, hj⟩ := Int.eq_ofNat_of_zero_le (a := binade e - q) (by omega)
  have hsplit : binade e = q + j := by omega
  have hsmall : d * 2 ^ j < 2 ^ 24 := by
    have hunit := two_zpow_pos q
    have hpower : ((d * 2 ^ j : Nat) : ℚ) * 2 ^ q < 2 ^ 24 * 2 ^ q := by
      have hup := mul_le_mul_of_nonneg_left (two_zpow_binade_le h) (Nat.cast_nonneg (α := ℚ) d)
      rw [hsplit, two_zpow_add, zpow_natCast] at hup
      push_cast
      linarith
    exact_mod_cast lt_of_mul_lt_mul_right hpower hunit.le
  -- Both sides are whole numbers of the same unit.
  set unit : ℚ := denominator e * 2 ^ (j + 1) with hunit
  have hunitpos : 0 < unit := mul_pos (by exact_mod_cast denominator_pos e) (by positivity)
  have hdecimal : ((d * 2 ^ j : Nat) * numerator e : ℚ) * 2 ^ binade e = unit * (d * 10 ^ e) := by
    rw [mul_assoc, numerator_mul, hunit]
    push_cast
    ring
  have hmiddle : (m * denominator e : ℚ) * 2 ^ binade e = unit * (m * 2 ^ (q - 1)) := by
    have hexponent : binade e = (q - 1) + (j + 1 : Nat) := by
      push_cast
      omega
    rw [hexponent, two_zpow_add, zpow_natCast, hunit]
    ring
  have hwhole : 2 ^ 51 * |((d * 2 ^ j : Nat) * numerator e : Int) - m * denominator e| ≤
      (d * 2 ^ j : Nat) * numerator e := by
    have hrational : (2 : ℚ) ^ 51 * |((d * 2 ^ j : Nat) * numerator e : ℚ) - m * denominator e| ≤
        (d * 2 ^ j : Nat) * numerator e := by
      refine le_of_mul_le_mul_right ?_ hbinade
      have hgap : |((d * 2 ^ j : Nat) * numerator e : ℚ) - m * denominator e| * 2 ^ binade e =
          unit * |d * (10 : ℚ) ^ e - m * 2 ^ (q - 1)| := by
        rw [← abs_of_pos hunitpos, ← abs_mul, mul_sub, ← hdecimal, ← hmiddle, ← sub_mul, abs_mul,
          abs_of_pos hbinade]
      rw [mul_assoc, hgap, hdecimal]
      have hscaled := mul_le_mul_of_nonneg_left hclose hunitpos.le
      linarith
    exact_mod_cast hrational
  obtain ⟨⟨k, l⟩, -, hcertified⟩ := h.2.2
  rcases hcertified.eq_of_close (Nat.mul_pos hpos (Nat.two_pow_pos j)) hsmall hm hodd hwhole with
    ⟨hequal, he⟩ | ⟨rfl, hdigits, hmantissa⟩
  · refine .inl ⟨mul_left_cancel₀ hunitpos.ne' ?_, he⟩
    rw [← hdecimal, ← hmiddle]
    exact_mod_cast congrArg (fun n : Nat => (n : ℚ) * 2 ^ binade e) hequal
  · refine .inr ⟨?_, hmantissa⟩
    have hexponent : binade (-32) = -107 := by decide
    cases j with
    | zero => omega
    | succ j =>
        rw [Nat.pow_succ, ← Nat.mul_assoc] at hdigits
        omega

end Ratio

end Aquarium

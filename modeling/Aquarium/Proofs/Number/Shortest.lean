import Aquarium.Number.Shortest
import Aquarium.Proofs.Number.Rounding

/-!
# What the shortest form of a single stands for

The decimal form of a single is taken from the coarsest power of ten that has a multiple among the
numbers which are rounded to the single. Here the single is one whose neighbours are equally far.

* `Interval.multiple?_near`, `Interval.le_of_multiple?`: a multiple in the interval is found if a
  step fits, and it is the nearest one;
* `Interval.coarsest_spec`: the grid that is found is the coarsest;
* `shortestOf_spec`: the decimal form is rounded to the single, is off by half its last digit at
  most, and has no more digits than it needs.
-/

namespace Aquarium

/-! ## 1. Grids -/

namespace Interval

/-- The numbers around a value. -/
structure Around (i : Interval) (value half : Nat) : Prop where
  lower : i.lower = value - half
  upper : i.upper = value + half
  half_le : half ≤ value
  half_pos : 0 < half

section Grids

variable {i : Interval} {value half step : Nat}

theorem Around.has_iff (h : i.Around value half) {x : Nat} :
    i.has x = true ↔ (value ≤ x + half ∧ x ≤ value + half) ∧
      (i.closed = false → value < x + half ∧ x < value + half) := by
  have hle := h.half_le
  unfold has
  rw [h.lower, h.upper]
  cases i.closed
  · simp
    omega
  · simp

/-- **The multiple that is found** lies in the interval, and no other is nearer. -/
theorem multiple?_near (h : i.Around value half) (hstep : 0 < step) {k : Nat}
    (hk : i.multiple? value step = some k) :
    i.has (k * step) = true ∧ 2 * value ≤ 2 * (k * step) + step ∧
      2 * (k * step) ≤ 2 * value + step := by
  have hsplit := Nat.div_add_mod' value step
  have hrest := Nat.mod_lt value hstep
  have hnext : (value / step + 1) * step = value / step * step + step := Nat.succ_mul _ _
  unfold multiple? at hk
  dsimp only at hk
  split at hk
  · cases hk
  · rename_i hbelow habove
    cases hk
    rw [← Bool.not_eq_true, h.has_iff] at habove
    refine ⟨hbelow, ?_⟩
    rw [h.has_iff] at hbelow
    omega
  · rename_i hbelow habove
    cases hk
    rw [← Bool.not_eq_true, h.has_iff] at hbelow
    refine ⟨habove, ?_⟩
    rw [h.has_iff] at habove
    omega
  · rename_i hbelow habove
    split at hk
    · cases hk
      exact ⟨hbelow, by omega⟩
    · split at hk
      · cases hk
        exact ⟨habove, by omega⟩
      · split at hk
        · cases hk
          exact ⟨hbelow, by omega⟩
        · cases hk
          exact ⟨habove, by omega⟩

/-- Nothing is found where neither neighbour lies in the interval. -/
theorem has_eq_false_of_multiple? (hnone : i.multiple? value step = none) :
    i.has (value / step * step) = false ∧ i.has ((value / step + 1) * step) = false := by
  unfold multiple? at hnone
  dsimp only at hnone
  split at hnone
  · exact ⟨‹_›, ‹_›⟩
  · cases hnone
  · cases hnone
  · split at hnone
    · cases hnone
    · split at hnone
      · cases hnone
      · split at hnone <;> cases hnone

/-- A step that is shorter than the interval has a multiple in it. -/
theorem le_of_multiple? (h : i.Around value half) (hstep : 0 < step)
    (hnone : i.multiple? value step = none) : 2 * half ≤ step := by
  have hsplit := Nat.div_add_mod' value step
  have hrest := Nat.mod_lt value hstep
  have hnext : (value / step + 1) * step = value / step * step + step := Nat.succ_mul _ _
  obtain ⟨hbelow, habove⟩ := has_eq_false_of_multiple? hnone
  rw [← Bool.not_eq_true, h.has_iff] at hbelow habove
  omega

/-- A value on the grid is found. -/
theorem exists_multiple?_of_dvd (h : i.Around value half) (hdvd : step ∣ value) :
    ∃ k, i.multiple? value step = some k := by
  refine Option.ne_none_iff_exists'.mp fun hnone => ?_
  have hhalf := h.half_pos
  have hbelow := (has_eq_false_of_multiple? hnone).1
  rw [Nat.div_mul_cancel hdvd, ← Bool.not_eq_true, h.has_iff] at hbelow
  omega

/-- **The grid that is found is the coarsest**, unless it is the first one. -/
theorem coarsest_spec {scale : Nat} (h : i.Around value half) (hscale : 0 < scale)
    (hdvd : scale ∣ value) {places k omitted : Nat}
    (hk : i.coarsest value scale places = (k, omitted)) :
    i.has (k * (scale * 10 ^ omitted)) = true ∧
      2 * value ≤ 2 * (k * (scale * 10 ^ omitted)) + scale * 10 ^ omitted ∧
      2 * (k * (scale * 10 ^ omitted)) ≤ 2 * value + scale * 10 ^ omitted ∧
      (omitted = places ∨ 2 * half ≤ scale * 10 ^ (omitted + 1)) := by
  induction places with
  | zero =>
      obtain ⟨k', hk'⟩ := exists_multiple?_of_dvd h hdvd
      rw [coarsest, hk', Option.getD_some] at hk
      cases hk
      rw [Nat.pow_zero, Nat.mul_one]
      obtain ⟨hhas, hlow, hhigh⟩ := multiple?_near h hscale hk'
      exact ⟨hhas, hlow, hhigh, .inl rfl⟩
  | succ places ih =>
      have hstep : 0 < scale * Nat.pow 10 (places + 1) :=
        Nat.mul_pos hscale (Nat.pow_pos (by decide))
      rw [coarsest] at hk
      split at hk
      · rename_i k' hk'
        cases hk
        obtain ⟨hhas, hlow, hhigh⟩ := multiple?_near h hstep hk'
        exact ⟨hhas, hlow, hhigh, .inl rfl⟩
      · rename_i hnone
        obtain ⟨hhas, hlow, hhigh, hcoarse⟩ := ih hk
        refine ⟨hhas, hlow, hhigh, .inr ?_⟩
        rcases hcoarse with rfl | hcoarse
        · exact le_of_multiple? h hstep hnone
        · exact hcoarse

end Grids

end Interval

/-! ## 2. Decimal numbers -/

namespace Decimal

/-- The number that a decimal form stands for. -/
def value (d : Decimal) : ℚ := d.digits * 10 ^ d.exponent

theorem ten_zpow_pos (e : Int) : (0 : ℚ) < 10 ^ e := zpow_pos (by norm_num) e

theorem ten_zpow_add (a b : Int) : (10 : ℚ) ^ (a + b) = 10 ^ a * 10 ^ b :=
  zpow_add₀ (by norm_num) a b

theorem lt_pow_digitCount (n : Nat) : n < 10 ^ digitCount n := by
  unfold digitCount
  split
  · rename_i hzero
    rw [hzero]
    decide
  · exact (Nat.length_toDigits_le_iff (by decide) Nat.length_toDigits_pos).mp (le_refl _)

/-- Leaving zeros out changes the form only. -/
theorem trimmed_spec (steps : Nat) (d : Decimal) :
    (trimmed steps d).value = d.value ∧ d.exponent ≤ (trimmed steps d).exponent := by
  induction steps generalizing d with
  | zero => exact ⟨rfl, le_refl _⟩
  | succ steps ih =>
      rw [trimmed]
      split
      · rename_i hzeros
        obtain ⟨hvalue, hexponent⟩ := ih ⟨d.digits / 10, d.exponent + 1⟩
        refine ⟨hvalue.trans ?_, by dsimp only at hexponent; omega⟩
        have hdigits : (d.digits : ℚ) = (d.digits / 10 : Nat) * 10 := by
          exact_mod_cast (Nat.div_mul_cancel (Nat.dvd_of_mod_eq_zero hzeros.2)).symm
        rw [value, value, ten_zpow_add, zpow_one, hdigits]
        ring
      · exact ⟨rfl, le_refl _⟩

/-- The form is rounded to `m · 2 ^ q`, it is off by half of its last digit at most, and ten of its
last digit are a unit at least. -/
structure Spells (d : Decimal) (m : Nat) (q : Int) : Prop where
  nearest : Nearest (d.value / 2 ^ q) m
  near : |d.value - m * 2 ^ q| ≤ 10 ^ d.exponent / 2
  coarse : 2 ^ q ≤ (10 : ℚ) ^ (d.exponent + 1)

end Decimal

/-! ## 3. The shortest form -/

/-- The numbers whose multiples by a power of ten are the powers of two. -/
theorem unit_mul_place (q : Int) :
    ((if 0 ≤ q then Nat.pow 2 q.toNat else Nat.pow 5 (-q).toNat : Nat) : ℚ) *
      10 ^ (if 0 ≤ q then 0 else q) = 2 ^ q := by
  split
  · rename_i hq
    obtain ⟨n, rfl⟩ := Int.eq_ofNat_of_zero_le hq
    rw [zpow_zero, mul_one, Int.toNat_natCast, zpow_natCast]
    exact Nat.cast_pow 2 n
  · rename_i hq
    obtain ⟨n, hn⟩ := Int.eq_ofNat_of_zero_le (a := -q) (by omega)
    have hneg : q = -(n : Int) := by omega
    have hfive : ((Nat.pow 5 n : Nat) : ℚ) = 5 ^ n := Nat.cast_pow 5 n
    rw [hn, Int.toNat_natCast, hfive, hneg, zpow_neg, zpow_neg, zpow_natCast, zpow_natCast,
      ← div_eq_mul_inv, ← div_pow, ← inv_pow]
    norm_num

/-- **The shortest form is rounded to the single**, when its neighbours are equally far. -/
theorem spells_shortestOf {m : Nat} (hm : 0 < m) (q : Int) :
    (shortestOf m q false).Spells m q := by
  have hunit := unit_mul_place q
  unfold shortestOf
  dsimp only
  generalize hU : (if 0 ≤ q then Nat.pow 2 q.toNat else Nat.pow 5 (-q).toNat) = unit at hunit ⊢
  generalize (if 0 ≤ q then 0 else q) = place at hunit ⊢
  have hpow := two_zpow_pos q
  have hplace := Decimal.ten_zpow_pos place
  have hpos : 0 < unit := by
    refine Nat.pos_of_ne_zero fun hzero => ?_
    rw [hzero, Nat.cast_zero, zero_mul] at hunit
    exact hpow.ne hunit
  set i : Interval := ⟨4 * m * unit - (if false = true then 1 else 2) * unit,
    4 * m * unit + 2 * unit, m % 2 == 0⟩ with hi
  have haround : i.Around (4 * m * unit) (2 * unit) :=
    ⟨rfl, rfl, Nat.mul_le_mul_right unit (by omega), by omega⟩
  rcases hk : i.coarsest (4 * m * unit) 4 (Decimal.digitCount (m * unit)) with ⟨k, omitted⟩
  obtain ⟨hhas, hlow, hhigh, hcoarse⟩ := Interval.coarsest_spec haround (by decide)
    (Nat.dvd_mul_right_of_dvd (Nat.dvd_mul_right 4 m) unit) hk
  rw [haround.has_iff] at hhas
  dsimp only
  obtain ⟨hvalue, hexponent⟩ := Decimal.trimmed_spec (Decimal.digitCount k) ⟨k, place + omitted⟩
  generalize Decimal.trimmed (Decimal.digitCount k) ⟨k, place + omitted⟩ = d at hvalue hexponent ⊢
  have hstep : (10 : ℚ) ^ (place + omitted) = 10 ^ omitted * 10 ^ place := by
    rw [Decimal.ten_zpow_add, zpow_natCast, mul_comm]
  have hlast : (10 : ℚ) ^ (place + omitted) ≤ 10 ^ d.exponent :=
    zpow_le_zpow_right₀ (by norm_num) hexponent
  replace hvalue : d.value = k * (10 ^ omitted * 10 ^ place) := by
    rw [hvalue, Decimal.value, hstep]
  -- All ends are whole numbers of quarters of `10 ^ place`.
  have hscaled : ∀ a b : Nat, a ≤ b → (a : ℚ) * 10 ^ place ≤ b * 10 ^ place := fun a b hab =>
    mul_le_mul_of_nonneg_right (by exact_mod_cast hab) hplace.le
  have hscaled' : ∀ a b : Nat, a < b → (a : ℚ) * 10 ^ place < b * 10 ^ place := fun a b hab =>
    mul_lt_mul_of_pos_right (by exact_mod_cast hab) hplace
  refine ⟨(nearest_div_iff hpow).mpr ⟨?_, fun hend => ?_⟩, ?_, ?_⟩
  · have hbelow := hscaled _ _ hhas.1.1
    have habove := hscaled _ _ hhas.1.2
    push_cast at hbelow habove
    rw [hvalue, ← hunit, abs_le]
    constructor <;> linarith
  · by_contra hodd
    obtain ⟨hbelow, habove⟩ := hhas.2 (beq_eq_false_iff_ne.mpr hodd)
    replace hbelow := hscaled' _ _ hbelow
    replace habove := hscaled' _ _ habove
    push_cast at hbelow habove
    rw [hvalue, ← hunit] at hend
    refine absurd hend (abs_lt.mpr ⟨?_, ?_⟩).ne <;> linarith
  · have hbelow := hscaled _ _ hlow
    have habove := hscaled _ _ hhigh
    push_cast at hbelow habove
    rw [hstep] at hlast
    rw [hvalue, ← hunit, abs_le]
    constructor <;> linarith
  · have hsize : unit ≤ 10 ^ (omitted + 1) := by
      rcases hcoarse with hplaces | hcoarse
      · have hlarge := Decimal.lt_pow_digitCount (m * unit)
        rw [← hplaces] at hlarge
        have hself := Nat.le_mul_of_pos_left unit hm
        have hmore := Nat.pow_le_pow_right (n := 10) (by decide) (Nat.le_succ omitted)
        omega
      · omega
    have hten := hscaled _ _ hsize
    push_cast at hten
    rw [hstep] at hlast
    rw [← hunit, Decimal.ten_zpow_add, zpow_one]
    rw [pow_succ] at hten
    linarith

end Aquarium

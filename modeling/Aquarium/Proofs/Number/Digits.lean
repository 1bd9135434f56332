import Aquarium.Number.Numeral

/-!
# Decimal digits

The digits of a number, as a list (`Numeral.digitsOf`) and as text: each is below ten, together they
give the number back, and only zero starts with a zero.
-/

namespace Aquarium

namespace Numeral

theorem toNat_digitChar_sub {d : Nat} (h : d < 10) :
    (Nat.digitChar d).toNat - '0'.toNat = d :=
  Nat.toNat_digitChar_sub_48_of_lt_ten h

theorem isDigit_digitChar : ∀ {d : Nat}, d < 10 → (Nat.digitChar d).isDigit = true := by
  decide

theorem lt_of_mem_digitsOf {n d : Nat} (h : d ∈ digitsOf n) : d < 10 := by
  obtain ⟨c, hc, rfl⟩ := List.mem_map.mp h
  have hdigit := Nat.isDigit_of_mem_toDigits (by decide) (by decide) hc
  simp only [Char.isDigit, Bool.and_eq_true, decide_eq_true_eq] at hdigit
  have hle : c.toNat ≤ '9'.toNat := hdigit.2
  have hnine : '9'.toNat = '0'.toNat + 9 := rfl
  omega

theorem digitsOf_ne_nil (n : Nat) : digitsOf n ≠ [] := by
  unfold digitsOf
  rw [ne_eq, List.map_eq_nil_iff]
  exact Nat.toDigits_ne_nil

theorem digitsOf_of_lt {n : Nat} (h : n < 10) : digitsOf n = [n] := by
  rw [digitsOf, Nat.toDigits_of_lt_base h, List.map_singleton, toNat_digitChar_sub h]

/-- The digits of a number are those of a tenth of it and its last one. -/
theorem digitsOf_of_le {n : Nat} (h : 10 ≤ n) : digitsOf n = digitsOf (n / 10) ++ [n % 10] := by
  rw [digitsOf, Nat.toDigits_of_base_le (by decide) h, List.map_append, List.map_singleton,
    toNat_digitChar_sub (Nat.mod_lt n (by decide))]
  rfl

theorem ofDigits_append (ds : List Nat) (d : Nat) :
    ofDigits (ds ++ [d]) = ofDigits ds * 10 + d := by
  rw [ofDigits, List.foldl_append]
  rfl

/-- **The digits of a number spell it.** -/
theorem ofDigits_digitsOf (n : Nat) : ofDigits (digitsOf n) = n := by
  induction n using Nat.strongRecOn with
  | ind n ih =>
      by_cases h : n < 10
      · rw [digitsOf_of_lt h]
        exact Nat.zero_add n
      · rw [digitsOf_of_le (Nat.not_lt.mp h), ofDigits_append, ih (n / 10) (by omega)]
        omega

/-- Only zero starts with a zero. -/
theorem eq_nil_of_digitsOf_eq_zero_cons {n : Nat} {ds : List Nat} (h : digitsOf n = 0 :: ds) :
    ds = [] := by
  induction n using Nat.strongRecOn generalizing ds with
  | ind n ih =>
      by_cases hn : n < 10
      · rw [digitsOf_of_lt hn] at h
        exact (List.cons.inj h).2.symm
      · rw [digitsOf_of_le (Nat.not_lt.mp hn)] at h
        cases htenth : digitsOf (n / 10) with
        | nil => exact absurd htenth (digitsOf_ne_nil _)
        | cons d front =>
            rw [htenth, List.cons_append] at h
            obtain ⟨rfl, -⟩ := List.cons.inj h
            have hnil := ih (n / 10) (by omega) htenth
            have hzero := ofDigits_digitsOf (n / 10)
            rw [htenth, hnil] at hzero
            have : ofDigits [0] = 0 := rfl
            omega

end Numeral

end Aquarium

import Aquarium.Number.Float
import Mathlib

/-!
# How numbers are packed

A finite number of a format is a sign, a mantissa and an exponent, and these are all that its bits
say.

* `Representable`: a mantissa and an exponent as they stand in a number of the format;
* `representable_of_unpack`: those that are read off bits are such;
* `unpack_pack`: what is packed is read off again.
-/

namespace Aquarium

open Float.Model (UnpackedFloat Format)
open Float.Model.UnpackedFloat

variable {f : Format}

/-! ## 1. What stands in a number -/

/-- A mantissa and an exponent as they stand in a number of the format. -/
structure Representable (f : Format) (m : Nat) (e : Int) : Prop where
  pos : 0 < m
  lt : m < 2 ^ f.mantissaBits
  min_le : f.minExponent ≤ e
  least : m < 2 ^ f.mantissaBitsWithoutImplicit → e = f.minExponent
  le_max : e + f.mantissaBitsWithoutImplicit ≤ f.exponentBias

theorem minExponent_add (f : Format) :
    f.minExponent + (f.exponentBias + f.mantissaBitsWithoutImplicit : Nat) = 1 := by
  have hpos : 1 ≤ 2 ^ (f.exponentBits - 1) := Nat.one_le_two_pow
  have hbias : (f.exponentBias : Int) = 2 ^ (f.exponentBits - 1) - 1 := by
    rw [Format.exponentBias, Nat.cast_sub hpos]
    norm_num
  rw [Format.minExponent, Format.mantissaBits]
  omega

theorem two_pow_exponentBits (f : Format) : 2 ^ f.exponentBits = 2 * (f.exponentBias + 1) := by
  have he := f.he
  have hpos : 1 ≤ 2 ^ (f.exponentBits - 1) := Nat.one_le_two_pow
  have hsplit : 2 ^ f.exponentBits = 2 * 2 ^ (f.exponentBits - 1) := by
    rw [← Nat.pow_succ', Nat.succ_eq_add_one, Nat.sub_add_cancel he]
  rw [hsplit, Format.exponentBias]
  omega

theorem two_pow_mantissaBits (f : Format) :
    2 ^ f.mantissaBits = 2 * 2 ^ f.mantissaBitsWithoutImplicit := by
  rw [Format.mantissaBits, Nat.add_comm, Nat.pow_succ']

theorem toNat_one_append {n : Nat} (b : BitVec n) : (1#1 ++ b).toNat = 2 ^ n + b.toNat := by
  rw [BitVec.toNat_append, ← Nat.shiftLeft_add_eq_or_of_lt b.isLt, BitVec.toNat_ofNat,
    Nat.shiftLeft_eq]
  norm_num

theorem toNat_neg_one (n : Nat) : (-1#n).toNat = 2 ^ n - 1 := by
  rw [BitVec.neg_one_eq_allOnes, BitVec.toNat_allOnes]

/-- **What is read off bits stands in a number.** -/
theorem representable_of_unpack (hf : 0 < f.exponentBias) {b : BitVec f.numBits} {s : Sign}
    {m : Nat} {e : Int} {hm : 0 < m} (h : unpack f b = .finite s m e hm) :
    Representable f m e := by
  have hmin := minExponent_add f
  have hcapacity := two_pow_exponentBits f
  have hdouble := two_pow_mantissaBits f
  have hbits : f.mantissaBits = 1 + f.mantissaBitsWithoutImplicit := rfl
  have hexponent := (unpackExponent b).isLt
  have hmantissa := (unpackMantissa b).isLt
  unfold unpack at h
  dsimp only at h
  split at h
  · split at h <;> cases h
  · rename_i hfinite
    have hne : (unpackExponent b).toNat ≠ 2 ^ f.exponentBits - 1 := fun heq =>
      hfinite (BitVec.eq_of_toNat_eq (heq.trans (toNat_neg_one _).symm))
    split at h
    · rename_i hzero
      split at h
      · cases h
      · cases h
        have hnone : (unpackExponent b).toNat = 0 := by
          rw [hzero, BitVec.toNat_ofNat, Nat.zero_mod]
        exact ⟨hm, by omega, by omega, fun _ => by omega, by omega⟩
    · rename_i hnonzero
      cases h
      have hsome : (unpackExponent b).toNat ≠ 0 := fun heq =>
        hnonzero (BitVec.eq_of_toNat_eq (by rw [heq, BitVec.toNat_ofNat, Nat.zero_mod]))
      rw [toNat_one_append]
      rw [toNat_one_append] at hm
      exact ⟨hm, by omega, by omega, fun _ => by omega, by omega⟩

/-! ## 2. Packing and reading off -/

section Packing

variable {s : Sign} {m : Nat} {e : Int} {n : Nat}

/-- A full mantissa is packed without its first bit. -/
theorem pack_full (hpos : 0 < m) (hfull : 2 ^ f.mantissaBitsWithoutImplicit ≤ m)
    (hm : m < 2 ^ f.mantissaBits) (hn : e + f.exponentBias + f.mantissaBitsWithoutImplicit = n)
    (hsmall : n + 1 < 2 ^ f.exponentBits) :
    pack f (.finite s m e hpos) =
      packComponents f s (BitVec.ofNat _ n) (BitVec.ofNat _ m) := by
  have hlog : m.log2 + 1 = f.mantissaBits := by
    have hlow := (Nat.le_log2 hpos.ne').mpr hfull
    have hhigh := (Nat.log2_lt hpos.ne').mpr hm
    rw [Format.mantissaBits] at *
    omega
  simp only [pack, hn, Int.toNat_natCast, if_neg (Nat.not_le.mpr hsmall), if_pos hlog]

/-- Any other mantissa is packed with the exponent zero. -/
theorem pack_least (hpos : 0 < m) (hm : m < 2 ^ f.mantissaBitsWithoutImplicit)
    (hn : e + f.exponentBias + f.mantissaBitsWithoutImplicit = n)
    (hsmall : n + 1 < 2 ^ f.exponentBits) :
    pack f (.finite s m e hpos) = packComponents f s 0#_ (BitVec.ofNat _ m) := by
  have hlog : ¬ m.log2 + 1 = f.mantissaBits := by
    have hhigh := (Nat.log2_lt hpos.ne').mpr hm
    rw [Format.mantissaBits]
    omega
  simp only [pack, hn, Int.toNat_natCast, if_neg (Nat.not_le.mpr hsmall), if_neg hlog]

theorem ofNat_ne_of_lt {w k l : Nat} (hk : k < 2 ^ w) (hl : l < 2 ^ w) (hne : k ≠ l) :
    BitVec.ofNat w k ≠ BitVec.ofNat w l := by
  intro heq
  have := congrArg BitVec.toNat heq
  rw [BitVec.toNat_ofNat, BitVec.toNat_ofNat, Nat.mod_eq_of_lt hk, Nat.mod_eq_of_lt hl] at this
  exact hne this

theorem neg_one_eq_ofNat (w : Nat) : (-1#w) = BitVec.ofNat w (2 ^ w - 1) := by
  refine BitVec.eq_of_toNat_eq ?_
  have := Nat.two_pow_pos w
  rw [toNat_neg_one, BitVec.toNat_ofNat, Nat.mod_eq_of_lt (by omega)]

/-- **What is packed is read off again.** -/
theorem unpack_pack (h : Representable f m e) :
    unpack f (pack f (.finite s m e h.pos)) = .finite s m e h.pos := by
  have hmin := minExponent_add f
  have hcapacity := two_pow_exponentBits f
  have hdouble := two_pow_mantissaBits f
  have hmax := h.le_max
  have hle := h.min_le
  obtain ⟨n, hn⟩ := Int.eq_ofNat_of_zero_le (a := e + f.exponentBias + f.mantissaBitsWithoutImplicit)
    (by omega)
  have hsmall : n + 1 < 2 ^ f.exponentBits := by omega
  by_cases hfull : 2 ^ f.mantissaBitsWithoutImplicit ≤ m
  · have hexponent : (BitVec.ofNat f.exponentBits n).toNat = n := by
      rw [BitVec.toNat_ofNat, Nat.mod_eq_of_lt (by omega)]
    have hfinite : BitVec.ofNat f.exponentBits n ≠ -1#_ := by
      rw [neg_one_eq_ofNat]
      exact ofNat_ne_of_lt (by omega) (by omega) (by omega)
    have hsome : BitVec.ofNat f.exponentBits n ≠ 0#_ :=
      ofNat_ne_of_lt (by omega) (by omega) (by omega)
    have hmantissa : (1#1 ++ BitVec.ofNat f.mantissaBitsWithoutImplicit m).toNat = m := by
      have := h.lt
      rw [toNat_one_append, BitVec.toNat_ofNat, Nat.mod_eq_sub_mod hfull,
        Nat.mod_eq_of_lt (by omega)]
      omega
    rw [pack_full h.pos hfull h.lt hn hsmall]
    unfold unpack
    simp only [unpackMantissa_packComponents, unpackExponent_packComponents,
      unpackSign_packComponents, Sign.ofBitVec_toBitVec, hfinite, hsome, if_false, hexponent, hmantissa]
    congr 1
    omega
  · have hlt := Nat.not_le.mp hfull
    have he := h.least hlt
    have hmantissa : (BitVec.ofNat f.mantissaBitsWithoutImplicit m).toNat = m := by
      rw [BitVec.toNat_ofNat, Nat.mod_eq_of_lt hlt]
    have hpos : BitVec.ofNat f.mantissaBitsWithoutImplicit m ≠ 0#_ :=
      ofNat_ne_of_lt hlt (Nat.two_pow_pos _) h.pos.ne'
    have hfinite : 0#f.exponentBits ≠ -1#_ := by
      rw [neg_one_eq_ofNat]
      exact ofNat_ne_of_lt (by omega) (by omega) (by omega)
    rw [pack_least h.pos hlt hn hsmall]
    unfold unpack
    simp only [unpackMantissa_packComponents, unpackExponent_packComponents,
      unpackSign_packComponents, Sign.ofBitVec_toBitVec, hfinite, hpos, hmantissa, if_false, if_true,
      dif_neg, not_false_eq_true, BitVec.toNat_ofNat, Nat.zero_mod]
    congr 1
    omega

end Packing

end Aquarium

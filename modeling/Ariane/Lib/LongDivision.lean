/-
# Long division

One step of a binary long division (`LongDivision.halve`): the divisor is halved and the
quotient doubled, and the divisor is subtracted from the remainder if it fits. A dividend
and a divisor of one sign may be kept as two's complements of their magnitudes: the step is
the same, with the comparison and the shift turned round (`ge_iff`, `half`).
-/
import Mathlib.Tactic.Ring
import Mathlib.Data.BitVec
import Ariane.Lib.Sizes

namespace Ariane
namespace Lib

/-- `q` and `r` are the quotient and the remainder of `a` by `d`. -/
structure LongDivision (a d q r : ℕ) : Prop where
  eq : a = q * d + r
  lt : r < d

namespace LongDivision

variable {a d q r : ℕ}

theorem start (h : a < d) : LongDivision a d 0 a := ⟨by rw [Nat.zero_mul, Nat.zero_add], h⟩

theorem halve (h : LongDivision a (2 * d) q r) :
    LongDivision a d (2 * q + (decide (d ≤ r)).toNat) (if d ≤ r then r - d else r) := by
  obtain ⟨heq, hlt⟩ := h
  have hdouble : q * (2 * d) = 2 * q * d := by ring
  by_cases hle : d ≤ r
  · rw [if_pos hle, decide_eq_true hle, Bool.toNat_true]
    refine ⟨?_, by omega⟩
    rw [Nat.add_mul, Nat.one_mul, ← hdouble]
    omega
  · rw [if_neg hle, decide_eq_false hle, Bool.toNat_false, Nat.add_zero]
    exact ⟨by rw [← hdouble, heq], by omega⟩

theorem div (h : LongDivision a d q r) : a / d = q := by
  have hpos : 0 < d := Nat.zero_lt_of_lt h.lt
  rw [h.eq, Nat.mul_comm, Nat.mul_add_div hpos, Nat.div_eq_of_lt h.lt, Nat.add_zero]

theorem mod (h : LongDivision a d q r) : a % d = r := by
  rw [h.eq, Nat.mul_comm, Nat.mul_add_mod, Nat.mod_eq_of_lt h.lt]

theorem rem_le (h : LongDivision a d q r) : r ≤ a := by
  rw [h.eq]
  exact Nat.le_add_left r (q * d)

end LongDivision

/-! ### Signs and magnitudes -/

variable {w : ℕ}

/-- A number, or its two's complement. -/
def signed (w : ℕ) (neg : Bool) (n : ℕ) : BitVec w := if neg then -BitVec.ofNat w n else BitVec.ofNat w n

theorem toNat_signed_false (n : ℕ) : (signed w false n).toNat = n % 2 ^ w := BitVec.toNat_ofNat n w

theorem toNat_signed_true {n : ℕ} (h : n ≤ 2 ^ w) : (signed w true n).toNat = (2 ^ w - n) % 2 ^ w := by
  rw [signed, if_pos rfl, BitVec.toNat_neg, BitVec.toNat_ofNat]
  rcases h.lt_or_eq with hlt | rfl
  · rw [Nat.mod_eq_of_lt hlt]
  · rw [Nat.mod_self, Nat.sub_zero, Nat.mod_self, Nat.sub_self, Nat.zero_mod]

theorem signed_sub (neg : Bool) {r d : ℕ} (h : d ≤ r) :
    signed w neg r - signed w neg d = signed w neg (r - d) := by
  have hsub : BitVec.ofNat w r - BitVec.ofNat w d = BitVec.ofNat w (r - d) := by
    rw [BitVec.sub_eq_iff_eq_add, ← BitVec.ofNat_add, Nat.sub_add_cancel h]
  cases neg with
  | false => exact hsub
  | true =>
    simp only [signed, if_true]
    rw [← hsub]
    ring

theorem signed_shiftLeft (neg : Bool) (m n : ℕ) : signed w neg m <<< n = signed w neg (m * 2 ^ n) := by
  have hshift (x : BitVec w) : x <<< n = x * BitVec.ofNat w (2 ^ n) := by
    apply BitVec.eq_of_toNat_eq
    rw [BitVec.toNat_shiftLeft, BitVec.toNat_mul, BitVec.toNat_ofNat, Nat.shiftLeft_eq, Nat.mul_mod_mod]
  have hmul : BitVec.ofNat w (m * 2 ^ n) = BitVec.ofNat w m * BitVec.ofNat w (2 ^ n) := BitVec.ofNat_mul ..
  rw [hshift]
  cases neg with
  | false => exact hmul.symm
  | true =>
    simp only [signed, if_true]
    rw [hmul, BitVec.neg_mul]

/-- The next bit of a number. -/
theorem shiftConcat_ofNat (q : ℕ) (b : Bool) :
    (BitVec.ofNat w q).shiftConcat b = BitVec.ofNat w (2 * q + b.toNat) := by
  apply BitVec.eq_of_toNat_eq
  rw [BitVec.toNat_shiftConcat, BitVec.toNat_ofNat, BitVec.toNat_ofNat, Nat.shiftLeft_eq, pow_one,
    Nat.mul_comm 2 q, Nat.add_mod, Nat.mod_mul_mod, ← Nat.add_mod]

/-- The bit of the quotient: a remainder that is not zero is compared, the other way round if
both are negated. -/
theorem ge_iff (neg : Bool) {r d : ℕ} (hr : r < 2 ^ w) (hpos : 0 < d) (hd : d ≤ 2 ^ w)
    (hlt : neg = false → d < 2 ^ w) :
    ((signed w neg r == signed w neg d || ((signed w neg d).ult (signed w neg r) ^^ neg)) &&
      signed w neg r != 0) = decide (d ≤ r) := by
  have hne : (signed w neg r != 0) = true ↔ (signed w neg r).toNat ≠ 0 := by
    rw [bne_iff_ne, ne_eq, BitVec.toNat_eq]
    simp
  rw [Bool.eq_iff_iff, Bool.and_eq_true, Bool.or_eq_true, beq_iff_eq, hne, decide_eq_true_eq,
    BitVec.toNat_eq, BitVec.ult]
  cases neg with
  | false =>
    rw [toNat_signed_false, toNat_signed_false, Nat.mod_eq_of_lt hr, Nat.mod_eq_of_lt (hlt rfl),
      Bool.xor_false, decide_eq_true_eq]
    omega
  | true =>
    have hdm : (2 ^ w - d) % 2 ^ w = 2 ^ w - d := Nat.mod_eq_of_lt (by omega)
    rw [toNat_signed_true hr.le, toNat_signed_true hd, hdm, Bool.xor_true, Bool.not_eq_true',
      decide_eq_false_iff_not]
    rcases Nat.eq_zero_or_pos r with rfl | hr0
    · rw [Nat.sub_zero, Nat.mod_self]
      omega
    · rw [Nat.mod_eq_of_lt (show 2 ^ w - r < 2 ^ w by omega)]
      omega

/-- Half of an even number that is not zero, the sign shifted in. -/
theorem half (neg : Bool) {d : ℕ} (hpos : 0 < d) (hd : 2 * d ≤ 2 ^ w) (hlt : neg = false → 2 * d < 2 ^ w) :
    (BitVec.ofBool neg).setWidth w <<< (w - 1) ||| signed w neg (2 * d) >>> 1 = signed w neg d := by
  obtain ⟨v, rfl⟩ : ∃ v, w = v + 1 := by
    refine Nat.exists_eq_succ_of_ne_zero fun h => ?_
    rw [h] at hd
    omega
  have hpow : 2 ^ (v + 1) = 2 * 2 ^ v := by rw [pow_succ]; ring
  have hv : 0 < 2 ^ v := Nat.two_pow_pos v
  apply BitVec.eq_of_toNat_eq
  rw [BitVec.toNat_or, BitVec.toNat_ushiftRight, BitVec.toNat_shiftLeft, BitVec.toNat_setWidth,
    BitVec.toNat_ofBool, Nat.add_sub_cancel, Nat.shiftRight_eq_div_pow, pow_one, Nat.shiftLeft_eq]
  cases neg with
  | false =>
    have hlt' := hlt rfl
    have hz : false.toNat % 2 ^ (v + 1) * 2 ^ v % 2 ^ (v + 1) = 0 := by simp
    rw [toNat_signed_false, toNat_signed_false, hz, Nat.zero_or, Nat.mod_eq_of_lt hlt',
      Nat.mod_eq_of_lt (show d < 2 ^ (v + 1) by omega)]
    omega
  | true =>
    have hd' : d ≤ 2 ^ v := by omega
    have htop : 1 % 2 ^ (v + 1) * 2 ^ v % 2 ^ (v + 1) = 2 ^ v := by
      rw [Nat.mod_eq_of_lt (show 1 < 2 ^ (v + 1) by omega), Nat.one_mul, Nat.mod_eq_of_lt (by omega)]
    have hhalf : (2 ^ (v + 1) - 2 * d) % 2 ^ (v + 1) / 2 = 2 ^ v - d := by
      rw [Nat.mod_eq_of_lt (by omega)]
      omega
    have hor := Nat.two_pow_add_eq_or_of_lt (show 2 ^ v - d < 2 ^ v by omega) 1
    rw [Nat.mul_one] at hor
    rw [toNat_signed_true hd, toNat_signed_true (by omega), Bool.toNat_true, htop, hhalf, ← hor,
      Nat.mod_eq_of_lt (by omega)]
    omega

end Lib
end Ariane

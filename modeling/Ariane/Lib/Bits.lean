/-
# Bits of words

`maskWrite mask q w` is a register `q` after a write of `w` of which only the
bits of `mask` take effect. A bit outside the mask keeps the register's value
(`getLsbD_maskWrite`), and so does a field outside it
(`extractLsb'_maskWrite`). Fields are compared bit by bit
(`extractLsb'_eq_of_getLsbD`). An arithmetic right shifter with one more bit does the other
shifts too, the left one on reversed words (`reverse_shiftRight_reverse`).
-/
import Mathlib.Data.BitVec
import Ariane.Lib.Sizes

namespace Ariane
namespace Lib

variable {n : ℕ}

/-- `w` on the bits of `mask`, `q` elsewhere. -/
def maskWrite (mask q w : BitVec n) : BitVec n := (q &&& ~~~mask) ||| (w &&& mask)

theorem getLsbD_maskWrite (mask q w : BitVec n) (k : ℕ) : (maskWrite mask q w).getLsbD k =
    if mask.getLsbD k then w.getLsbD k else q.getLsbD k := by
  by_cases hk : k < n
  · simp only [maskWrite, BitVec.getLsbD_or, BitVec.getLsbD_and, BitVec.getLsbD_not, hk, decide_true,
      Bool.true_and]
    cases mask.getLsbD k <;> simp
  · have hk' : n ≤ k := by omega
    simp [BitVec.getLsbD_of_ge _ k hk']

theorem toNat_append_eq {m : ℕ} (x : BitVec m) (y : BitVec n) : (x ++ y).toNat = x.toNat * 2 ^ n + y.toNat := by
  rw [BitVec.toNat_append, ← Nat.shiftLeft_add_eq_or_of_lt y.isLt, Nat.shiftLeft_eq]

theorem append_inj {m : ℕ} {x x' : BitVec m} {y y' : BitVec n} (h : x ++ y = x' ++ y') : x = x' ∧ y = y' := by
  have hl := congrArg (BitVec.extractLsb' n m) h
  have hr := congrArg (BitVec.setWidth n) h
  rw [BitVec.extractLsb'_append_eq_left, BitVec.extractLsb'_append_eq_left] at hl
  rw [BitVec.setWidth_append_eq_right, BitVec.setWidth_append_eq_right] at hr
  exact ⟨hl, hr⟩

/-- A field outside the mask keeps the register's value. -/
theorem extractLsb'_maskWrite (mask q w : BitVec n) (a l : ℕ)
    (h : ∀ k < l, mask.getLsbD (a + k) = false) :
    (maskWrite mask q w).extractLsb' a l = q.extractLsb' a l := by
  apply BitVec.eq_of_getLsbD_eq
  intro k hk
  simp only [BitVec.getLsbD_extractLsb', getLsbD_maskWrite, h k hk, Bool.false_eq_true, ↓reduceIte]

/-- A field within the mask takes the value of the write. -/
theorem extractLsb'_maskWrite_of_mem (mask q w : BitVec n) (a l : ℕ)
    (h : ∀ k < l, mask.getLsbD (a + k) = true) :
    (maskWrite mask q w).extractLsb' a l = w.extractLsb' a l := by
  apply BitVec.eq_of_getLsbD_eq
  intro k hk
  simp only [BitVec.getLsbD_extractLsb', getLsbD_maskWrite, h k hk, ↓reduceIte]

theorem maskWrite_self (mask q : BitVec n) : maskWrite mask q q = q := by
  apply BitVec.eq_of_getLsbD_eq
  intro k _
  rw [getLsbD_maskWrite, ite_self]

/-- A field of a word, bit by bit. -/
theorem extractLsb'_eq_of_getLsbD {w : BitVec n} {a l : ℕ} {v : BitVec l}
    (h : ∀ k < l, w.getLsbD (a + k) = v.getLsbD k) : w.extractLsb' a l = v := by
  apply BitVec.eq_of_getLsbD_eq
  intro k hk
  rw [BitVec.getLsbD_extractLsb', h k hk, decide_eq_true hk, Bool.true_and]

/-- A field of a field. -/
theorem extractLsb'_extractLsb' (w : BitVec n) {a l b m : ℕ} (h : b + m ≤ l) :
    (w.extractLsb' a l).extractLsb' b m = w.extractLsb' (a + b) m := by
  apply extractLsb'_eq_of_getLsbD
  intro k hk
  have hl : b + k < l := by omega
  rw [BitVec.getLsbD_extractLsb', BitVec.getLsbD_extractLsb', decide_eq_true hl, decide_eq_true hk,
    Nat.add_assoc]

/-! ### One shifter for all shifts -/

section Shift

variable (a : BitVec n) (k : ℕ)

/-- A right shift with one more bit on top fills with that bit. -/
theorem getLsbD_shiftRight_append (s : Bool) {j : ℕ} (hj : j < n) :
    (((BitVec.ofBool s ++ a).sshiftRight k).extractLsb' 0 n).getLsbD j =
      if k + j < n then a.getLsbD (k + j) else s := by
  have hmsb : (BitVec.ofBool s ++ a).msb = s := by
    simp [BitVec.msb_append]
  have hj' : ¬1 + n ≤ j := by omega
  rw [BitVec.getLsbD_extractLsb', BitVec.getLsbD_sshiftRight, hmsb, decide_eq_true hj, Nat.zero_add,
    decide_eq_false hj', BitVec.getLsbD_append]
  by_cases h : k + j < n
  · have h' : k + j < 1 + n := by omega
    simp [h, h']
  · have h0 : k + j < 1 + n → k + j - n = 0 := by omega
    by_cases h' : k + j < 1 + n
    · simp [h, h', h0 h']
    · simp [h, h']

theorem shiftRight_logical :
    ((BitVec.ofBool false ++ a).sshiftRight k).extractLsb' 0 n = a >>> k := by
  apply BitVec.eq_of_getLsbD_eq
  intro j hj
  rw [getLsbD_shiftRight_append a k _ hj, BitVec.getLsbD_ushiftRight]
  by_cases h : k + j < n
  · rw [if_pos h]
  · rw [if_neg h, BitVec.getLsbD_of_ge _ _ (by omega)]

theorem shiftRight_arithmetic :
    ((BitVec.ofBool a.msb ++ a).sshiftRight k).extractLsb' 0 n = a.sshiftRight k := by
  apply BitVec.eq_of_getLsbD_eq
  intro j hj
  rw [getLsbD_shiftRight_append a k _ hj, BitVec.getLsbD_sshiftRight]
  have hn : ¬n ≤ j := by omega
  simp [hn]

/-- A left shift is a right shift of the reversed word, reversed. -/
theorem reverse_shiftRight_reverse : (a.reverse >>> k).reverse = a <<< k := by
  apply BitVec.eq_of_getLsbD_eq
  intro j hj
  rw [BitVec.getLsbD_reverse, BitVec.getMsbD_eq_getLsbD, BitVec.getLsbD_ushiftRight,
    BitVec.getLsbD_reverse, BitVec.getMsbD_eq_getLsbD, BitVec.getLsbD_shiftLeft]
  by_cases h : j < k
  · have hk : ¬k + (n - 1 - j) < n := by omega
    simp [h, hk]
  · have hk : k + (n - 1 - j) < n := by omega
    have he : n - 1 - (k + (n - 1 - j)) = j - k := by omega
    simp [h, hk, hj, he]

end Shift
end Lib
end Ariane

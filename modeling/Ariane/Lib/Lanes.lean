/-
# Byte lanes

A word of `m` bytes is written lane by lane: `writeLanes be old new` takes the bytes that `be`
enables from `new` and the others from `old` (`getLsbD_writeLanes`, `byte_writeLanes`).

Data that is rotated to its lanes before the write and shifted back after the read comes back
in its low bits, if the lanes from the rotation on are enabled (`getLsbD_shiftRight_writeLanes`).
A word filled up from the left is a sign or zero extension (`fill_append_msb`,
`fill_append_false`).
-/
import Ariane.Lib.Bits

namespace Ariane
namespace Lib

variable {m n : ℕ}

/-- The bits of the bytes that `be` enables. -/
def laneMask : {m : ℕ} → BitVec m → BitVec (8 * m)
  | 0, _ => 0
  | m + 1, be => (BitVec.fill 8 (be.getLsbD m) ++ laneMask (be.setWidth m)).cast (Nat.add_comm _ _)

theorem getLsbD_laneMask : ∀ {m : ℕ} (be : BitVec m) (j : ℕ),
    (laneMask be).getLsbD j = be.getLsbD (j / 8)
  | 0, be, j => by rw [BitVec.getLsbD_of_ge _ _ (Nat.zero_le _), BitVec.getLsbD_of_ge _ _ (Nat.zero_le _)]
  | m + 1, be, j => by
    rw [laneMask, BitVec.getLsbD_cast, BitVec.getLsbD_append]
    by_cases hj : j < 8 * m
    · have hm : j / 8 < m := by omega
      rw [if_pos hj, getLsbD_laneMask, BitVec.getLsbD_setWidth, decide_eq_true hm, Bool.true_and]
    · rw [if_neg hj, BitVec.getLsbD_fill]
      by_cases h8 : j - 8 * m < 8
      · have hm : j / 8 = m := by omega
        rw [decide_eq_true h8, Bool.and_true, hm]
      · rw [decide_eq_false h8, Bool.and_false, BitVec.getLsbD_of_ge be (j / 8) (by omega)]

/-- `new` in the lanes of `be`, `old` in the others. -/
def writeLanes (be : BitVec m) (old new : BitVec (8 * m)) : BitVec (8 * m) :=
  maskWrite (laneMask be) old new

theorem getLsbD_writeLanes (be : BitVec m) (old new : BitVec (8 * m)) (j : ℕ) :
    (writeLanes be old new).getLsbD j =
      if be.getLsbD (j / 8) then new.getLsbD j else old.getLsbD j := by
  rw [writeLanes, getLsbD_maskWrite, getLsbD_laneMask]

/-- Lane `k` of a word. -/
def byte (k : ℕ) (w : BitVec n) : BitVec 8 := w.extractLsb' (8 * k) 8

theorem byte_writeLanes (be : BitVec m) (old new : BitVec (8 * m)) (k : ℕ) :
    byte k (writeLanes be old new) = if be.getLsbD k then byte k new else byte k old := by
  apply BitVec.eq_of_getLsbD_eq
  intro j hj
  have hk : (8 * k + j) / 8 = k := by omega
  simp only [byte, BitVec.getLsbD_extractLsb', getLsbD_writeLanes, hk]
  split <;> simp only [BitVec.getLsbD_extractLsb']

/-- What is rotated to the lanes from `k` on and written there is shifted back by a read. -/
theorem getLsbD_shiftRight_writeLanes {be : BitVec m} {k l : ℕ} (hl : k + l ≤ m)
    (hbe : ∀ i < l, be.getLsbD (k + i) = true) (old v : BitVec (8 * m)) {j : ℕ} (hj : j < 8 * l) :
    (writeLanes be old (v.rotateLeft (8 * k)) >>> (8 * k)).getLsbD j = v.getLsbD j := by
  have hlane : (8 * k + j) / 8 = k + j / 8 := by omega
  have hlt : 8 * k + j < 8 * m := by omega
  have hk : 8 * k < 8 * m := by omega
  have hge : ¬8 * k + j < 8 * k := by omega
  rw [BitVec.getLsbD_ushiftRight, getLsbD_writeLanes, hlane, hbe (j / 8) (by omega), if_pos rfl,
    BitVec.getLsbD_rotateLeft_of_le hk, decide_eq_false hge, cond_false, decide_eq_true hlt,
    Bool.true_and, Nat.add_sub_cancel_left]

theorem byte_rotateLeft {k l : ℕ} (hk : k < m) (hl : l < m) (w : BitVec (8 * m)) :
    byte k (w.rotateLeft (8 * l)) = byte ((k + m - l) % m) w := by
  apply BitVec.eq_of_getLsbD_eq
  intro j hj
  have hr : 8 * l % (8 * m) = 8 * l := Nat.mod_eq_of_lt (by omega)
  simp only [byte, BitVec.getLsbD_extractLsb', hj, decide_true, Bool.true_and, BitVec.getLsbD_rotateLeft, hr]
  by_cases hlt : k < l
  · have hmod : (k + m - l) % m = k + m - l := Nat.mod_eq_of_lt (by omega)
    have hbit : 8 * k + j < 8 * l := by omega
    have hsum : 8 * m - 8 * l + (8 * k + j) = 8 * (k + m - l) + j := by omega
    rw [decide_eq_true hbit, cond_true, hmod, hsum]
  · have hmod : (k + m - l) % m = k - l := by
      rw [show k + m - l = (k - l) + m by omega, Nat.add_mod_right, Nat.mod_eq_of_lt (by omega)]
    have hbit : ¬8 * k + j < 8 * l := by omega
    have hin : 8 * k + j < 8 * m := by omega
    have hsub : 8 * k + j - 8 * l = 8 * (k - l) + j := by omega
    rw [decide_eq_false hbit, cond_false, decide_eq_true hin, Bool.true_and, hmod, hsub]

/-- The low bytes of a word. -/
theorem byte_setWidth {k l : ℕ} (hk : k < l) (w : BitVec n) : byte k (w.setWidth (8 * l)) = byte k w := by
  apply BitVec.eq_of_getLsbD_eq
  intro j hj
  simp only [byte, BitVec.getLsbD_extractLsb', BitVec.getLsbD_setWidth]
  rw [decide_eq_true (by omega : 8 * k + j < 8 * l), Bool.true_and]

/-! ### Filling up a word -/

theorem setWidth_signExtend (h : n ≤ m) (x : BitVec n) : (x.signExtend m).setWidth n = x := by
  apply BitVec.eq_of_getLsbD_eq
  intro j hj
  rw [BitVec.getLsbD_setWidth, BitVec.getLsbD_signExtend, decide_eq_true hj, decide_eq_true (by omega), if_pos hj,
    Bool.true_and, Bool.true_and]

theorem fill_append_msb (x : BitVec m) : BitVec.fill n x.msb ++ x = x.signExtend (n + m) := by
  apply BitVec.eq_of_getLsbD_eq
  intro j hj
  rw [BitVec.getLsbD_append, BitVec.getLsbD_signExtend, decide_eq_true hj, Bool.true_and]
  by_cases h : j < m
  · rw [if_pos h, if_pos h]
  · rw [if_neg h, if_neg h, BitVec.getLsbD_fill, decide_eq_true (by omega), Bool.and_true]

theorem fill_append_false (x : BitVec m) : BitVec.fill n false ++ x = x.setWidth (n + m) := by
  apply BitVec.eq_of_getLsbD_eq
  intro j hj
  rw [BitVec.getLsbD_append, BitVec.getLsbD_setWidth, decide_eq_true hj, Bool.true_and]
  by_cases h : j < m
  · rw [if_pos h]
  · rw [if_neg h, BitVec.getLsbD_fill, Bool.false_and, BitVec.getLsbD_of_ge x j (by omega)]

end Lib
end Ariane

/-
# Descents in a tree of bits

A complete binary tree of depth `d` keeps a bit in each of its nodes, level by level. The bits lead
from the root to one of the `2 ^ d` leaves (`descend`), and a leaf is the one they lead to when they
agree with the leaf's number all the way down (`Points`).

* `existsUnique_points`: the bits lead to exactly one leaf;
* `not_points_of_root`: a root that leads away from a leaf leads away from it whatever is below.
-/
import Mathlib.Data.Nat.Bitwise
import Mathlib.Logic.ExistsUnique
import Ariane.Lib.Sizes

namespace Ariane
namespace Lib
namespace Descent

/-- The node above the leaf `i` on level `lvl`. -/
def node (d lvl i : ℕ) : ℕ := 2 ^ lvl - 1 + i >>> (d - lvl)

/-- The side of that node the leaf is on. -/
def side (d lvl i : ℕ) : Bool := i.testBit (d - lvl - 1)

/-- The bits lead to the leaf. -/
def Points (d : ℕ) (tree : ℕ → Bool) (i : ℕ) : Prop := ∀ lvl < d, tree (node d lvl i) = side d lvl i

/-- Where the bits lead on level `lvl`. -/
def descend (tree : ℕ → Bool) : ℕ → ℕ
  | 0 => 0
  | lvl + 1 => 2 * descend tree lvl + (tree (2 ^ lvl - 1 + descend tree lvl)).toNat

variable {d lvl i : ℕ} {tree : ℕ → Bool}

theorem descend_lt (tree : ℕ → Bool) : ∀ lvl, descend tree lvl < 2 ^ lvl
  | 0 => by simp [descend]
  | lvl + 1 => by
    have ih := descend_lt tree lvl
    have hbit := Bool.toNat_le (tree (2 ^ lvl - 1 + descend tree lvl))
    simp only [descend, pow_succ]
    omega

/-- One level further down a leaf's number has one bit more. -/
theorem shiftRight_split (h : lvl < d) :
    i >>> (d - (lvl + 1)) = 2 * (i >>> (d - lvl)) + (side d lvl i).toNat := by
  obtain ⟨m, hm⟩ : ∃ m, d - lvl = m + 1 := ⟨d - lvl - 1, by omega⟩
  have hm' : d - (lvl + 1) = m := by omega
  rw [side, hm, hm', Nat.add_sub_cancel, Nat.shiftRight_succ, Nat.toNat_testBit, Nat.shiftRight_eq_div_pow]
  omega

/-- A leaf the bits lead to is below every node they pass. -/
theorem Points.shiftRight (h : Points d tree i) (hi : i < 2 ^ d) :
    ∀ lvl ≤ d, i >>> (d - lvl) = descend tree lvl
  | 0, _ => by rw [Nat.sub_zero, Nat.shiftRight_eq_div_pow, Nat.div_eq_of_lt hi, descend]
  | lvl + 1, hlvl => by
    have ih := Points.shiftRight h hi lvl (by omega)
    have hside := h lvl (by omega)
    rw [node, ih] at hside
    rw [shiftRight_split (by omega), ih, ← hside, descend]

theorem Points.eq_descend (h : Points d tree i) (hi : i < 2 ^ d) : i = descend tree d := by
  have hlast := h.shiftRight hi d le_rfl
  rwa [Nat.sub_self, Nat.shiftRight_zero] at hlast

theorem shiftRight_descend (tree : ℕ → Bool) (lvl : ℕ) :
    ∀ m, descend tree (lvl + m) >>> m = descend tree lvl
  | 0 => rfl
  | m + 1 => by
    have hbit := Bool.toNat_le (tree (2 ^ (lvl + m) - 1 + descend tree (lvl + m)))
    have hhalf : descend tree (lvl + m + 1) / 2 = descend tree (lvl + m) := by
      rw [descend]
      omega
    calc descend tree (lvl + m + 1) >>> (m + 1) = (descend tree (lvl + m + 1) / 2) >>> m := by
          rw [Nat.add_comm m, Nat.shiftRight_add, Nat.shiftRight_one]
      _ = descend tree (lvl + m) >>> m := by rw [hhalf]
      _ = descend tree lvl := shiftRight_descend tree lvl m

theorem points_descend (d : ℕ) (tree : ℕ → Bool) : Points d tree (descend tree d) := by
  intro lvl hlvl
  have habove (k : ℕ) (hk : k ≤ d) : descend tree d >>> (d - k) = descend tree k := by
    have h := shiftRight_descend tree k (d - k)
    rwa [Nat.add_sub_cancel' hk] at h
  have hsplit := shiftRight_split (i := descend tree d) hlvl
  rw [habove _ hlvl, habove _ hlvl.le, descend] at hsplit
  rw [node, habove _ hlvl.le]
  have hbit := Nat.add_left_cancel hsplit
  revert hbit
  cases tree (2 ^ lvl - 1 + descend tree lvl) <;> cases side d lvl (descend tree d) <;> decide

/-- The bits lead to exactly one leaf. -/
theorem existsUnique_points (d : ℕ) (tree : ℕ → Bool) : ∃! i, i < 2 ^ d ∧ Points d tree i :=
  ⟨descend tree d, ⟨descend_lt tree d, points_descend d tree⟩, fun _ h => h.2.eq_descend h.1⟩

theorem node_zero (hi : i < 2 ^ d) : node d 0 i = 0 := by
  simp [node, Nat.shiftRight_eq_div_pow, Nat.div_eq_of_lt hi]

/-- Below the root no node is the root. -/
theorem node_pos (h : 0 < lvl) : 0 < node d lvl i := by
  have hpow : 2 ≤ 2 ^ lvl := Nat.le_self_pow h.ne' 2
  have hnode : 2 ^ lvl - 1 ≤ node d lvl i := Nat.le_add_right _ _
  omega

theorem not_points_of_root (hd : 0 < d) (hi : i < 2 ^ d) (h : tree 0 = !side d 0 i) :
    ¬Points d tree i := by
  intro hp
  have hroot := hp 0 hd
  rw [node_zero hi, h] at hroot
  exact Bool.not_ne_self _ hroot

end Descent
end Lib
end Ariane

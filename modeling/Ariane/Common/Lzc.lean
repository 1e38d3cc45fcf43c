/-
# The zero counter

`lzc.sv` of `common_cells`, for any width. The nodes of the tree are numbered as in the source, two
inputs below each node of the last level. A node hands up the index of its left child where that child
sees a bit, and of its right child otherwise.

* `counts_zeros`: the count is the position of the first bit, and what it is without a bit;
* `cells_count`: the counters of the caches and of the divider are this tree.

The comment of the source has the count at `WIDTH - 1` without a bit. That is so for a width of a power
of two and for one less; for any other width the last node is beyond the vector, and the count is zero.
-/
import Ariane.Dcache.Pkg
import Ariane.Execute.Serdiv

namespace Ariane
namespace Lzc

variable {n : ℕ}

/-! ### The module -/

/-- `NUM_LEVELS`. -/
def numLevels (n : ℕ) : ℕ := Nat.clog 2 n

/-- `in_tmp`: reversed to count from the most significant bit. -/
def inTmp (mode : Bool) (inI : Fin n → Bool) (k : Fin n) : Bool := if mode then inI k.rev else inI k

/-- `index_lut`. -/
def indexLut (n j : ℕ) : BitVec (numLevels n) := BitVec.ofNat (numLevels n) j

section Tree

variable (v : Fin n → Bool)

/-- A bit of the vector. -/
def bit (j : ℕ) : Bool := if h : j < n then v ⟨j, h⟩ else false

/-- `sel_nodes`, for node `l` that is `h` levels above the last one. -/
def selNode : ℕ → ℕ → Bool
  | 0, k =>
    if k * 2 < n - 1 then bit v (k * 2) || bit v (k * 2 + 1)
    else if k * 2 = n - 1 then bit v (k * 2)
    else false
  | h + 1, l => selNode h (l * 2) || selNode h (l * 2 + 1)

/-- `index_nodes`. -/
def indexNode : ℕ → ℕ → BitVec (numLevels n)
  | 0, k =>
    if k * 2 < n - 1 then if bit v (k * 2) then indexLut n (k * 2) else indexLut n (k * 2 + 1)
    else if k * 2 = n - 1 then indexLut n (k * 2)
    else 0
  | h + 1, l => if selNode v h (l * 2) then indexNode h (l * 2) else indexNode h (l * 2 + 1)

end Tree

structure Out (n : ℕ) where
  cnt : BitVec (numLevels n)
  empty : Bool

def lzc (mode : Bool) (inI : Fin n → Bool) : Out n where
  cnt := if 0 < numLevels n then indexNode (inTmp mode inI) (numLevels n - 1) 0 else 0
  empty := if 0 < numLevels n then !selNode (inTmp mode inI) (numLevels n - 1) 0 else !Dcache.any inI

/-! ### The tree -/

section Nodes

variable {v : Fin n → Bool}

theorem le_two_pow_numLevels (n : ℕ) : n ≤ 2 ^ numLevels n := Nat.le_pow_clog (by decide) n

theorem toNat_indexLut {j : ℕ} (h : j < n) : (indexLut n j).toNat = j := by
  rw [indexLut, BitVec.toNat_ofNat]
  exact Nat.mod_eq_of_lt (h.trans_le (le_two_pow_numLevels n))

theorem bit_iff {j : ℕ} : bit v j = true ↔ ∃ k : Fin n, k.val = j ∧ v k = true := by
  unfold bit
  split
  · rename_i hj
    constructor
    · exact fun h => ⟨⟨j, hj⟩, rfl, h⟩
    · rintro ⟨k, rfl, h⟩
      exact h
  · rename_i hj
    refine iff_of_false Bool.false_ne_true ?_
    rintro ⟨k, rfl, -⟩
    exact hj k.isLt

theorem bit_beyond {j : ℕ} (h : n ≤ j) : bit v j = false := by
  rw [bit, dif_neg (by omega)]

/-- Beyond the vector there is no bit, so the last level need not know where it ends. -/
theorem selNode_last (l : ℕ) : selNode v 0 l = (bit v (l * 2) || bit v (l * 2 + 1)) := by
  rw [selNode]
  split
  · rfl
  · rw [@bit_beyond n v (l * 2 + 1) (by omega), Bool.or_false]
    split
    · rfl
    · rw [bit_beyond (by omega)]

theorem div_step (k h : ℕ) : k / 2 ^ (h + 1) = k / 2 ^ h / 2 := by
  rw [pow_succ, Nat.div_div_eq_div_mul]

/-- A node sees the bits below it. -/
theorem selNode_iff : ∀ h l : ℕ,
    selNode v h l = true ↔ ∃ k : Fin n, k.val / 2 ^ (h + 1) = l ∧ v k = true
  | 0, l => by
    simp only [selNode_last, Bool.or_eq_true, bit_iff, Nat.zero_add, pow_one]
    constructor
    · rintro (⟨k, hk, hv⟩ | ⟨k, hk, hv⟩) <;> exact ⟨k, by omega, hv⟩
    · rintro ⟨k, hk, hv⟩
      have hcase : k.val = l * 2 ∨ k.val = l * 2 + 1 := by omega
      exact hcase.imp (fun h => ⟨k, h, hv⟩) (fun h => ⟨k, h, hv⟩)
  | h + 1, l => by
    simp only [selNode, Bool.or_eq_true, selNode_iff h, div_step _ (h + 1)]
    constructor
    · rintro (⟨k, hk, hv⟩ | ⟨k, hk, hv⟩) <;> exact ⟨k, by omega, hv⟩
    · rintro ⟨k, hk, hv⟩
      have hcase : k.val / 2 ^ (h + 1) = l * 2 ∨ k.val / 2 ^ (h + 1) = l * 2 + 1 := by omega
      exact hcase.imp (fun h => ⟨k, h, hv⟩) (fun h => ⟨k, h, hv⟩)

/-- The first bit below node `l` that is `h` levels above the last one. -/
def First (v : Fin n → Bool) (h l : ℕ) (m : Fin n) : Prop :=
  v m = true ∧ m.val / 2 ^ (h + 1) = l ∧ ∀ k : Fin n, k.val / 2 ^ (h + 1) = l → v k = true → m ≤ k

/-- The first bit below the left child comes before all bits below the right one. -/
theorem First.left {h l : ℕ} {m : Fin n} (hm : First v h (l * 2) m) : First v (h + 1) l m := by
  obtain ⟨hv, hl, hle⟩ := hm
  refine ⟨hv, by rw [div_step, hl]; omega, fun k hk hvk => ?_⟩
  rw [div_step] at hk
  have hcase : k.val / 2 ^ (h + 1) = l * 2 ∨ m.val / 2 ^ (h + 1) < k.val / 2 ^ (h + 1) := by omega
  rcases hcase with heq | hlt
  · exact hle k heq hvk
  · exact (Nat.lt_of_div_lt_div hlt).le

/-- Without a bit below the left child the first one is below the right child. -/
theorem First.right {h l : ℕ} {m : Fin n} (hs : selNode v h (l * 2) = false)
    (hm : First v h (l * 2 + 1) m) : First v (h + 1) l m := by
  obtain ⟨hv, hl, hle⟩ := hm
  refine ⟨hv, by rw [div_step, hl]; omega, fun k hk hvk => hle k ?_ hvk⟩
  have hnot : ¬k.val / 2 ^ (h + 1) = l * 2 := by
    intro heq
    exact Bool.false_ne_true (hs.symm.trans ((selNode_iff h _).2 ⟨k, heq, hvk⟩))
  rw [div_step] at hk
  omega

/-- A node of the last level that sees a bit hands up the first one. -/
theorem indexNode_last {l : ℕ} (hs : selNode v 0 l = true) :
    ∃ m : Fin n, (indexNode v 0 l).toNat = m ∧ First v 0 l m := by
  rw [selNode_last, Bool.or_eq_true] at hs
  by_cases hb : bit v (l * 2) = true
  · obtain ⟨m, hm, hv⟩ := bit_iff.1 hb
    have hlt := m.isLt
    refine ⟨m, ?_, hv, by rw [zero_add, pow_one]; omega, fun k hk _ => ?_⟩
    · rw [indexNode, if_pos hb]
      split
      · rw [toNat_indexLut (by omega), hm]
      · rw [if_pos (by omega), toNat_indexLut (by omega), hm]
    · rw [zero_add, pow_one] at hk
      exact Fin.le_def.2 (by omega)
  · obtain ⟨m, hm, hv⟩ := bit_iff.1 (hs.resolve_left hb)
    have hlt := m.isLt
    refine ⟨m, ?_, hv, by rw [zero_add, pow_one]; omega, fun k hk hvk => ?_⟩
    · rw [indexNode, if_pos (by omega), if_neg hb, toNat_indexLut (by omega), hm]
    · have hne : ¬k.val = l * 2 := fun heq => hb (bit_iff.2 ⟨k, heq, hvk⟩)
      rw [zero_add, pow_one] at hk
      exact Fin.le_def.2 (by omega)

/-- A node that sees a bit hands up the first one. -/
theorem indexNode_first : ∀ h l : ℕ, selNode v h l = true →
    ∃ m : Fin n, (indexNode v h l).toNat = m ∧ First v h l m
  | 0, _, hs => indexNode_last hs
  | h + 1, l, hs => by
    rw [indexNode]
    by_cases hleft : selNode v h (l * 2) = true
    · obtain ⟨m, hm, hf⟩ := indexNode_first h _ hleft
      rw [if_pos hleft]
      exact ⟨m, hm, hf.left⟩
    · rw [selNode, Bool.or_eq_true] at hs
      obtain ⟨m, hm, hf⟩ := indexNode_first h _ (hs.resolve_left hleft)
      rw [if_neg hleft]
      exact ⟨m, hm, hf.right (Bool.eq_false_iff.2 hleft)⟩

/-- A node that sees no bit hands up what the last node below it does. -/
theorem indexNode_none : ∀ h l : ℕ, selNode v h l = false →
    indexNode v h l = indexNode v 0 ((l + 1) * 2 ^ h - 1)
  | 0, l, _ => by rw [pow_zero, Nat.mul_one, Nat.add_sub_cancel]
  | h + 1, l, hs => by
    rw [selNode, Bool.or_eq_false_iff] at hs
    have hidx : (l * 2 + 1 + 1) * 2 ^ h = (l + 1) * 2 ^ (h + 1) := by ring
    calc
      indexNode v (h + 1) l = indexNode v h (l * 2 + 1) := by
        rw [indexNode, if_neg (Bool.eq_false_iff.1 hs.1)]
      _ = indexNode v 0 ((l * 2 + 1 + 1) * 2 ^ h - 1) := indexNode_none h _ hs.2
      _ = indexNode v 0 ((l + 1) * 2 ^ (h + 1) - 1) := by rw [hidx]

/-- The widths for which the count is at its maximum without a bit. -/
def Full (n : ℕ) : Prop := n = 2 ^ numLevels n ∨ n + 1 = 2 ^ numLevels n

instance (n : ℕ) : Decidable (Full n) := inferInstanceAs (Decidable (_ ∨ _))

/-- The last node is above the last bits of the vector, or beyond it. -/
theorem toNat_indexNode_last (hl : 0 < numLevels n) (hno : ∀ k, v k = false) :
    (indexNode v 0 (2 ^ (numLevels n - 1) - 1)).toNat = if Full n then n - 1 else 0 := by
  have hle := le_two_pow_numLevels n
  have hn : n ≠ 0 := by
    rintro rfl
    simp [numLevels] at hl
  have hpow : 2 ^ numLevels n = 2 ^ (numLevels n - 1) * 2 := by
    rw [← pow_succ, Nat.sub_add_cancel hl]
  have hpos := Nat.two_pow_pos (numLevels n - 1)
  have hbit (j : ℕ) : ¬bit v j = true := by
    rw [bit_iff]
    rintro ⟨k, -, hk⟩
    exact Bool.false_ne_true ((hno k).symm.trans hk)
  have hfull : Full n ↔ n = 2 ^ (numLevels n - 1) * 2 ∨ n + 1 = 2 ^ (numLevels n - 1) * 2 := by
    rw [Full, hpow]
  rw [indexNode, if_neg (hbit _)]
  rw [hpow] at hle
  generalize 2 ^ (numLevels n - 1) = p at hle hpos hfull ⊢
  split
  · rw [toNat_indexLut (by omega), if_pos (hfull.2 (by omega))]
    omega
  · split
    · rw [toNat_indexLut (by omega), if_pos (hfull.2 (by omega))]
      omega
    · rw [if_neg (mt hfull.1 (by omega))]
      rfl

end Nodes

/-! ### What it counts -/

section Count

variable {mode : Bool} {inI : Fin n → Bool}

theorem exists_inTmp : (∃ k, inTmp mode inI k = true) ↔ ∃ k, inI k = true := by
  cases mode with
  | false => exact Iff.rfl
  | true =>
    constructor
    · rintro ⟨k, hk⟩
      exact ⟨k.rev, hk⟩
    · rintro ⟨k, hk⟩
      exact ⟨k.rev, by rwa [inTmp, if_pos rfl, Fin.rev_rev]⟩

/-- Below the root is the whole vector. -/
theorem below_root (hl : 0 < numLevels n) (k : Fin n) : k.val / 2 ^ (numLevels n - 1 + 1) = 0 := by
  rw [Nat.sub_add_cancel hl]
  exact Nat.div_eq_of_lt (k.isLt.trans_le (le_two_pow_numLevels n))

theorem selNode_root {v : Fin n → Bool} (hl : 0 < numLevels n) :
    selNode v (numLevels n - 1) 0 = true ↔ ∃ k, v k = true := by
  rw [selNode_iff]
  exact exists_congr fun k => and_iff_right (below_root hl k)

theorem empty_eq_false : (lzc mode inI).empty = false ↔ ∃ k, inI k = true := by
  rw [← @exists_inTmp n mode, lzc]
  split
  · rename_i hl
    rw [Bool.not_eq_false', selNode_root hl]
  · rw [Bool.not_eq_false', Dcache.any_eq_true, exists_inTmp]

/-- A vector of one bit has no tree. -/
theorem le_one_of_numLevels (h : ¬0 < numLevels n) : n ≤ 1 := by
  have hle := le_two_pow_numLevels n
  rwa [Nat.eq_zero_of_not_pos h] at hle

theorem cnt_tree (hl : 0 < numLevels n) :
    (lzc mode inI).cnt = indexNode (inTmp mode inI) (numLevels n - 1) 0 := if_pos hl

theorem cnt_single (hl : ¬0 < numLevels n) : (lzc mode inI).cnt.toNat = 0 := by
  rw [lzc, if_neg hl]
  rfl

/-- With a bit the count is the position of the first one. -/
theorem cnt_first (h : ∃ k, inI k = true) : ∃ m : Fin n, (lzc mode inI).cnt.toNat = m ∧
    inTmp mode inI m = true ∧ ∀ j < m, inTmp mode inI j = false := by
  rw [← @exists_inTmp n mode] at h
  by_cases hl : 0 < numLevels n
  · obtain ⟨m, hm, hv, -, hle⟩ := indexNode_first _ _ ((selNode_root hl).2 h)
    refine ⟨m, by rw [cnt_tree hl, hm], hv, fun j hj => Bool.eq_false_iff.2 fun hvj => ?_⟩
    exact absurd (hle j (below_root hl j) hvj) (not_le.2 hj)
  · have hn := le_one_of_numLevels hl
    obtain ⟨m, hv⟩ := h
    have hlt := m.isLt
    exact ⟨m, by rw [cnt_single hl]; omega, hv, fun j hj => absurd (Fin.lt_def.1 hj) (by omega)⟩

/-- Without a bit the count depends on the width only. -/
theorem cnt_none (h : ¬∃ k, inI k = true) :
    (lzc mode inI).cnt.toNat = if Full n then n - 1 else 0 := by
  rw [← @exists_inTmp n mode] at h
  by_cases hl : 0 < numLevels n
  · have hs : selNode (inTmp mode inI) (numLevels n - 1) 0 = false :=
      Bool.eq_false_iff.2 (mt (selNode_root hl).1 h)
    have hno (k : Fin n) : inTmp mode inI k = false := Bool.eq_false_iff.2 fun hk => h ⟨k, hk⟩
    rw [cnt_tree hl, indexNode_none _ _ hs, zero_add, Nat.one_mul]
    exact toNat_indexNode_last hl hno
  · have hn := le_one_of_numLevels hl
    rw [cnt_single hl]
    split <;> omega

/-- `empty_o` says that there is no bit. Where there is one, the count is the number of zeros before the
first one, from the least or the most significant bit as the mode says. Where there is none, it is one less
than the width if the width is a power of two or one less than that, and zero otherwise. -/
theorem counts_zeros (mode : Bool) (inI : Fin n → Bool) :
    ((lzc mode inI).empty = true ↔ ∀ k, inI k = false) ∧
    ((lzc mode inI).empty = false → ∃ m : Fin n, (lzc mode inI).cnt.toNat = m ∧
      inTmp mode inI m = true ∧ ∀ j < m, inTmp mode inI j = false) ∧
    ((lzc mode inI).empty = true → (lzc mode inI).cnt.toNat = if Full n then n - 1 else 0) := by
  have hno : (lzc mode inI).empty = true ↔ ¬∃ k, inI k = true := by
    rw [← @empty_eq_false n mode inI, Bool.not_eq_false]
  refine ⟨hno.trans ?_, fun h => cnt_first (empty_eq_false.1 h), fun h => cnt_none (hno.1 h)⟩
  simp only [not_exists, Bool.not_eq_true]

end Count

/-! ### The counters of the other modules -/

section Cells

/-- The counter of the caches. -/
theorem cells_count {v : Fin (n + 1) → Bool} (h : Full (n + 1) ∨ ∃ k, v k = true) :
    (lzc false v).cnt.toNat = Dcache.lzc v := by
  unfold Dcache.lzc
  by_cases hex : ∃ k, v k = true
  · obtain ⟨m, hm, hv, hlt⟩ := @cnt_first _ false v hex
    have hfind : (List.finRange (n + 1)).find? v = some m := by
      rw [← List.ofFn_id, List.find?_ofFn_eq_some]
      exact ⟨hv, m, rfl, fun j hj => Bool.eq_false_iff.1 (hlt j hj)⟩
    rw [hfind, hm, Option.getD_some]
  · have hfind : (List.finRange (n + 1)).find? v = none :=
      List.find?_eq_none.2 fun k _ hk => hex ⟨k, hk⟩
    rw [hfind, cnt_none hex, if_pos (h.resolve_right hex), Option.getD_none]

/-- The counter of the divider. -/
theorem divider_count {x : BitVec n} (h : Full n ∨ ¬x = 0) :
    (@lzc n true fun k => x.getLsbD k).cnt.toNat = Serdiv.lzc x := by
  have hbit (k : Fin n) : inTmp true (fun k : Fin n => x.getLsbD k) k = x.getMsbD k := by
    rw [inTmp, if_pos rfl, Fin.val_rev, BitVec.getMsbD_eq_getLsbD, decide_eq_true k.isLt, Bool.true_and,
      Nat.add_comm, Nat.sub_sub]
  unfold Serdiv.lzc
  by_cases hex : ∃ k : Fin n, x.getLsbD k = true
  · obtain ⟨m, hm, hv, hlt⟩ := @cnt_first _ true (fun k : Fin n => x.getLsbD k) hex
    have hfind : (List.range n).find? x.getMsbD = some m.val := by
      refine List.find?_range_eq_some.2 ⟨by rwa [← hbit], List.mem_range.2 m.isLt, fun j hj => ?_⟩
      have hj' := hlt ⟨j, hj.trans m.isLt⟩ hj
      rw [hbit] at hj'
      simpa using hj'
    rw [hfind, hm, Option.getD_some]
  · have hzero : x = 0 := by
      apply BitVec.eq_of_getLsbD_eq
      intro j hj
      rw [BitVec.ofNat_eq_ofNat, BitVec.getLsbD_zero]
      exact Bool.eq_false_iff.2 fun hx => hex ⟨⟨j, hj⟩, hx⟩
    have hfind : (List.range n).find? x.getMsbD = none := by
      rw [List.find?_eq_none, hzero]
      simp
    rw [hfind, cnt_none hex, if_pos (h.resolve_right (not_not.2 hzero)), Option.getD_none]

end Cells

end Lzc
end Ariane

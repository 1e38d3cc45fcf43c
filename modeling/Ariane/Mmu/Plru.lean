/-
# The replacement of TLB entries

The tree of `plru_replacement` in `src/tlb.sv` (`plruNext`, `replaceEn`) is a `Lib.Descent`: the
entry it leads to is the one that is replaced, and a hit turns every node above its entry away from
it. One of them is the root, which no hit on the same entry turns back and which decides on its own.

* `replaceEn_unique`: the tree leads to one entry at most, whatever the size;
* `existsUnique_replaceEn`: to exactly one, if the size is a power of two;
* `replacement_correct`: not to the one that was hit last.
-/
import Ariane.Lib.Descent
import Ariane.Lib.Machine
import Ariane.Mmu.Tlb

namespace Ariane
namespace Tlb

open Lib

variable {n N : ℕ}

def machine : Machine (Regs n N) (In n) := ⟨fun s => s = reset, next⟩

/-- `lu_hit[k] & lu_access_i`. -/
def looksUp (s : Regs n N) (i : In n) (k : Fin N) : Bool :=
  (s.tags k).hit i.luAsid i.luVaddr && i.luAccess

/-! ### The entry that is replaced -/

theorem replaceEn_iff {s : Regs n N} {k : Fin N} :
    replaceEn s k = true ↔ Descent.Points (Nat.clog 2 N) s.plruTree k := by
  unfold replaceEn Descent.Points
  simp only [List.all_eq_true, List.mem_range, beq_iff_eq]
  rfl

theorem lt_two_pow (k : Fin N) : k.val < 2 ^ Nat.clog 2 N :=
  k.isLt.trans_le (Nat.le_pow_clog (by omega) N)

/-- The tree leads to one entry: the assertion on `replace_en`. -/
theorem replaceEn_unique {s : Regs n N} {j k : Fin N} (hj : replaceEn s j = true)
    (hk : replaceEn s k = true) : j = k := by
  have hj' := (replaceEn_iff.1 hj).eq_descend (lt_two_pow j)
  have hk' := (replaceEn_iff.1 hk).eq_descend (lt_two_pow k)
  exact Fin.ext (hj'.trans hk'.symm)

/-- In a TLB of `2 ^ d` entries it leads to one. -/
theorem existsUnique_replaceEn (hN : N.isPowerOfTwo) (s : Regs n N) : ∃! k, replaceEn s k = true := by
  obtain ⟨d, rfl⟩ := hN
  have hd : Nat.clog 2 (2 ^ d) = d := Nat.clog_pow 2 d (by omega)
  obtain ⟨i, ⟨hi, hp⟩, hunique⟩ := Descent.existsUnique_points d s.plruTree
  refine ⟨⟨i, hi⟩, ?_, fun k hk => Fin.ext (hunique k ⟨k.isLt, ?_⟩)⟩
  · show replaceEn s _ = true
    rwa [replaceEn_iff, hd]
  · change replaceEn s k = true at hk
    rwa [replaceEn_iff, hd] at hk

/-! ### The root -/

/-- The root leads away from the entry. -/
def Spared (s : Regs n N) (k : Fin N) : Prop := s.plruTree 0 = !plruBit N 0 k

theorem Spared.replaceEn {s : Regs n N} {k : Fin N} (h : Spared s k) (hN : 1 < N) :
    replaceEn s k = false := by
  rw [← Bool.not_eq_true, replaceEn_iff]
  exact Descent.not_points_of_root (Nat.clog_pos (by omega) hN) (lt_two_pow k) h

/-- Of the nodes above an entry the one on level 0 is the root, and no other is. -/
theorem foldl_touch_zero (i : Fin N) : ∀ (lvls : List ℕ) (tree : ℕ → Bool),
    lvls.foldl (fun tree lvl nd => if nd = plruNode N lvl i then !plruBit N lvl i else tree nd) tree 0 =
      if 0 ∈ lvls then !plruBit N 0 i else tree 0
  | [], _ => by simp
  | lvl :: lvls, tree => by
    rw [List.foldl_cons, foldl_touch_zero i lvls]
    by_cases hmem : 0 ∈ lvls
    · rw [if_pos hmem, if_pos (List.mem_cons_of_mem lvl hmem)]
    · rw [if_neg hmem]
      rcases Nat.eq_zero_or_pos lvl with rfl | hpos
      · have hroot : plruNode N 0 i = 0 := Descent.node_zero (lt_two_pow i)
        rw [if_pos hroot.symm, if_pos List.mem_cons_self]
      · have hbelow : 0 < plruNode N lvl i := Descent.node_pos hpos
        have hne : 0 ∉ lvl :: lvls := by simp [hmem, hpos.ne]
        rw [if_neg hbelow.ne, if_neg hne]

theorem plruTouch_zero (hN : 1 < N) (tree : ℕ → Bool) (i : Fin N) :
    plruTouch N tree i 0 = !plruBit N 0 i := by
  rw [plruTouch, foldl_touch_zero, if_pos (List.mem_range.2 (Nat.clog_pos (by omega) hN))]

/-- Where only one entry is hit, the root turns away from that one. -/
theorem foldl_plru_zero (hN : 1 < N) {s : Regs n N} {i : In n} {k : Fin N}
    (h : ∀ j, looksUp s i j = true → j = k) : ∀ (ks : List (Fin N)) (tree : ℕ → Bool),
    ks.foldl (fun tree j => if looksUp s i j then plruTouch N tree j else tree) tree 0 =
      if k ∈ ks ∧ looksUp s i k = true then !plruBit N 0 k else tree 0
  | [], _ => by simp
  | j :: ks, tree => by
    rw [List.foldl_cons, foldl_plru_zero hN h ks]
    by_cases hlast : k ∈ ks ∧ looksUp s i k = true
    · rw [if_pos hlast, if_pos ⟨List.mem_cons_of_mem j hlast.1, hlast.2⟩]
    · rw [if_neg hlast]
      by_cases hj : looksUp s i j = true
      · obtain rfl := h j hj
        rw [if_pos hj, plruTouch_zero hN, if_pos ⟨List.mem_cons_self, hj⟩]
      · have hne : ¬(k ∈ j :: ks ∧ looksUp s i k = true) := by
          rintro ⟨hmem, hk⟩
          rcases List.mem_cons.1 hmem with rfl | hmem
          · exact hj hk
          · exact hlast ⟨hmem, hk⟩
        rw [if_neg hj, if_neg hne]

section Step

variable {s : Regs n N} {i : In n} {k : Fin N}

theorem next_zero (hN : 1 < N) (h : ∀ j, looksUp s i j = true → j = k) :
    (next s i).plruTree 0 = if looksUp s i k = true then !plruBit N 0 k else s.plruTree 0 := by
  calc (next s i).plruTree 0
      = if k ∈ List.finRange N ∧ looksUp s i k = true then !plruBit N 0 k else s.plruTree 0 :=
        foldl_plru_zero hN h _ _
    _ = if looksUp s i k = true then !plruBit N 0 k else s.plruTree 0 := by simp [List.mem_finRange]

/-- A hit on one entry spares it. -/
theorem spared_of_looksUp (hN : 1 < N) (h : ∀ j, looksUp s i j = true ↔ j = k) :
    Spared (next s i) k := by
  rw [Spared, next_zero hN fun j => (h j).1, if_pos ((h k).2 rfl)]

/-- It stays spared until another entry is hit. -/
theorem Spared.next (hN : 1 < N) (hs : Spared s k) (h : ∀ j, looksUp s i j = true → j = k) :
    Spared (Tlb.next s i) k := by
  rw [Spared, next_zero hN h]
  split
  · rfl
  · exact hs

end Step

/-! ### The cycles -/

/-- What the replacement owes from a state on: one entry is selected; an update without a flush
overwrites that one and no other; and an entry that a lookup has hit alone is not it in any state
until another one is hit. -/
structure Replacement (s : Regs n N) : Prop where
  one : ∃! k, replaceEn s k = true
  update : ∀ i u, i.flush = false → i.update = some u → ∃ k, (∀ j, replaced s i j = true ↔ j = k) ∧
    (next s i).tags k = tagOf u ∧ (next s i).content k = u.content ∧
    ∀ j, j ≠ k → (next s i).tags j = s.tags j ∧ (next s i).content j = s.content j
  spares : ∀ i k, (∀ j, looksUp s i j = true ↔ j = k) → ∀ js,
    machine.Steps (fun t j => ∀ l, looksUp t j l = true → l = k) (next s i) js →
    machine.Always (fun t => replaceEn t k = false ∧ ∀ j, replaced t j k = false) (next s i) js

theorem update_of_unique {s : Regs n N} (h : ∃! k, replaceEn s k = true) {i : In n} {u : Ptw.TlbUpdate n}
    (hf : i.flush = false) (hu : i.update = some u) : ∃ k, (∀ j, replaced s i j = true ↔ j = k) ∧
    (next s i).tags k = tagOf u ∧ (next s i).content k = u.content ∧
    ∀ j, j ≠ k → (next s i).tags j = s.tags j ∧ (next s i).content j = s.content j := by
  obtain ⟨k, hk, huniq⟩ := h
  have hiff (j : Fin N) : replaced s i j = true ↔ j = k := by
    simp only [replaced, hf, hu, Bool.not_false, Option.isSome_some, Bool.true_and]
    exact ⟨huniq j, fun hj => hj ▸ hk⟩
  obtain ⟨u', hu', htag, hcontent⟩ := next_of_replaced ((hiff k).2 rfl)
  obtain rfl := Option.some.inj (hu.symm.trans hu')
  refine ⟨k, hiff, htag, hcontent, fun j hj => ?_⟩
  have hr : replaced s i j = false := Bool.eq_false_of_not_eq_true fun hr => hj ((hiff j).1 hr)
  refine ⟨?_, content_next hr⟩
  rw [tags_next hr, hf]
  simp

/-- **Pseudo-LRU replacement.** In every state of a TLB whose size is a power of two. -/
theorem replacement_correct (hN : N.isPowerOfTwo) (h1 : 1 < N) (s : Regs n N) : Replacement s := by
  have hone := existsUnique_replaceEn hN s
  refine ⟨hone, fun i u hf hu => update_of_unique hone hf hu, fun i k hk js hjs => ?_⟩
  have hspared : machine.Always (fun t => Spared t k) (next s i) js :=
    Machine.always_of_steps (fun t j ht hj => ht.next h1 hj) js _ (spared_of_looksUp h1 hk) hjs
  refine hspared.mono (fun t ht => ?_)
  have hnot := ht.replaceEn h1
  exact ⟨hnot, fun j => by rw [replaced, hnot, Bool.and_false]⟩

theorem replacement_correct_four : Replacement (reset : Regs 1 4) :=
  replacement_correct ⟨2, rfl⟩ (by decide) reset

end Tlb
end Ariane

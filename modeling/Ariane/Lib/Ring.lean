/-
# Rings of `2 ^ w` slots

A ring is a memory indexed by `w`-bit pointers that wrap. `contents mem r n` are the
`n` slots from the pointer `r` on, oldest first. As long as `n` is at most `2 ^ w`
these slots are distinct, so an update of another slot does not show in them
(`contents_update_of_le`), and an update of the slot behind them appends
(`contents_push`).

`Holds dead mem r l` says that the slots from `r` on hold the list `l` and that every
other slot is dead. A push behind the list, a pop in front of it and a change of every
slot in place keep it.
-/
import Mathlib.Data.BitVec
import Mathlib.Logic.Function.Basic
import Mathlib.Data.Set.Card
import Mathlib.Order.Interval.Finset.Nat
import Ariane.Lib.Sizes

namespace Ariane
namespace Lib
namespace Ring

variable {α : Type} {w : ℕ}

/-- The `n` slots from `r` on. -/
def contents (mem : BitVec w → α) (r : BitVec w) (n : ℕ) : List α :=
  (List.range n).map fun i => mem (r + BitVec.ofNat w i)

@[simp] theorem length_contents (mem : BitVec w → α) (r : BitVec w) (n : ℕ) :
    (contents mem r n).length = n := by
  simp [contents]

@[simp] theorem contents_zero (mem : BitVec w → α) (r : BitVec w) : contents mem r 0 = [] := rfl

theorem getElem_contents (mem : BitVec w → α) (r : BitVec w) {n i : ℕ}
    (h : i < (contents mem r n).length) : (contents mem r n)[i] = mem (r + BitVec.ofNat w i) := by
  simp [contents]

theorem slot_succ (r : BitVec w) (i : ℕ) :
    r + BitVec.ofNat w (i + 1) = r + 1 + BitVec.ofNat w i := by
  rw [BitVec.ofNat_add, BitVec.add_assoc, BitVec.add_comm (BitVec.ofNat w i)]
  rfl

/-- The oldest slot first. -/
theorem contents_succ (mem : BitVec w → α) (r : BitVec w) (n : ℕ) :
    contents mem r (n + 1) = mem r :: contents mem (r + 1) n := by
  refine List.ext_getElem (by simp) fun i h _ => ?_
  cases i with
  | zero => simp [getElem_contents]
  | succ i => rw [List.getElem_cons_succ, getElem_contents, getElem_contents, slot_succ]

/-- The youngest slot last. -/
theorem contents_succ_last (mem : BitVec w → α) (r : BitVec w) (n : ℕ) :
    contents mem r (n + 1) = contents mem r n ++ [mem (r + BitVec.ofNat w n)] := by
  simp [contents, List.range_succ]

theorem contents_congr {mem mem' : BitVec w → α} {r : BitVec w} {n : ℕ}
    (h : ∀ i < n, mem (r + BitVec.ofNat w i) = mem' (r + BitVec.ofNat w i)) :
    contents mem r n = contents mem' r n :=
  List.map_congr_left fun i hi => h i (List.mem_range.1 hi)

/-- How far a slot is from the read pointer. -/
theorem toNat_slot_sub (r : BitVec w) {i : ℕ} (h : i < 2 ^ w) :
    (r + BitVec.ofNat w i - r).toNat = i := by
  rw [BitVec.add_comm, BitVec.add_sub_cancel, BitVec.toNat_ofNat, Nat.mod_eq_of_lt h]

theorem slot_of_toNat_sub (r k : BitVec w) : r + BitVec.ofNat w (k - r).toNat = k := by
  rw [BitVec.ofNat_toNat, BitVec.setWidth_eq, BitVec.add_comm, BitVec.sub_add_cancel]

/-- A slot behind the contents is none of them. -/
theorem contents_update_of_le {mem : BitVec w → α} {r k : BitVec w} {n : ℕ} (hn : n ≤ 2 ^ w)
    (h : n ≤ (k - r).toNat) (e : α) :
    contents (Function.update mem k e) r n = contents mem r n := by
  refine contents_congr fun i hi => Function.update_of_ne ?_ e mem
  rintro rfl
  rw [toNat_slot_sub r (by omega)] at h
  omega

/-- The slot behind the contents joins them. -/
theorem contents_push {mem : BitVec w → α} {r : BitVec w} {n : ℕ} (hn : n < 2 ^ w) (e : α) :
    contents (Function.update mem (r + BitVec.ofNat w n) e) r (n + 1) = contents mem r n ++ [e] := by
  have hslot : n ≤ (r + BitVec.ofNat w n - r).toNat := (toNat_slot_sub r hn).ge
  rw [contents_succ_last, contents_update_of_le hn.le hslot, Function.update_self]

theorem toNat_sub_ne_zero {r k : BitVec w} (h : k ≠ r) : (k - r).toNat ≠ 0 := by
  intro h0
  apply h
  rw [← slot_of_toNat_sub r k, h0]
  simp

/-- The distance to a slot from the next read pointer. -/
theorem toNat_sub_succ {r k : BitVec w} (h : k ≠ r) : (k - (r + 1)).toNat = (k - r).toNat - 1 := by
  obtain ⟨d, hd⟩ := Nat.exists_eq_succ_of_ne_zero (toNat_sub_ne_zero h)
  have hlt : d < 2 ^ w := by
    have := (k - r).isLt
    omega
  have hk : k = r + 1 + BitVec.ofNat w d := by
    rw [← slot_succ, ← Nat.succ_eq_add_one, ← hd, slot_of_toNat_sub]
  calc (k - (r + 1)).toNat = (r + 1 + BitVec.ofNat w d - (r + 1)).toNat := by rw [← hk]
    _ = d := toNat_slot_sub (r + 1) hlt
    _ = (k - r).toNat - 1 := by omega

/-- The slot just left is the last one of the next round. -/
theorem toNat_sub_succ_self (r : BitVec w) : (r - (r + 1)).toNat = 2 ^ w - 1 := by
  have hlt : 2 ^ w - 1 < 2 ^ w := Nat.sub_lt (Nat.two_pow_pos w) Nat.one_pos
  have hr : r + 1 + BitVec.ofNat w (2 ^ w - 1) = r := by
    rw [← slot_succ, Nat.sub_add_cancel Nat.one_le_two_pow]
    apply BitVec.eq_of_toNat_eq
    rw [BitVec.toNat_add, BitVec.toNat_ofNat, Nat.mod_self, Nat.add_zero, Nat.mod_eq_of_lt r.isLt]
  calc (r - (r + 1)).toNat = (r + 1 + BitVec.ofNat w (2 ^ w - 1) - (r + 1)).toNat := by rw [hr]
    _ = 2 ^ w - 1 := toNat_slot_sub (r + 1) hlt

/-- There are `n` slots within `n` of the read pointer. -/
theorem ncard_slots (r : BitVec w) {n : ℕ} (hn : n ≤ 2 ^ w) : {k | (k - r).toNat < n}.ncard = n := by
  have himage : {k | (k - r).toNat < n} = (fun i => r + BitVec.ofNat w i) '' Set.Iio n := by
    ext k
    constructor
    · intro hk
      exact ⟨(k - r).toNat, hk, slot_of_toNat_sub r k⟩
    · rintro ⟨i, hi, rfl⟩
      have hi' : i < n := hi
      show (r + BitVec.ofNat w i - r).toNat < n
      rw [toNat_slot_sub r (by omega)]
      exact hi
  have hinj : Set.InjOn (fun i => r + BitVec.ofNat w i) (Set.Iio n) := by
    intro i hi j hj hij
    have hi' : i < n := hi
    have hj' : j < n := hj
    rw [← toNat_slot_sub r (show i < 2 ^ w by omega), ← toNat_slot_sub r (show j < 2 ^ w by omega)]
    exact congrArg (fun k => (k - r).toNat) hij
  rw [himage, hinj.ncard_image, ← Finset.coe_Iio, Set.ncard_coe_finset, Nat.card_Iio]

/-! ### A ring that holds a list -/

/-- The slots from `r` on hold `l`, and the other slots are dead. -/
structure Holds (dead : α → Prop) (mem : BitVec w → α) (r : BitVec w) (l : List α) : Prop where
  le : l.length ≤ 2 ^ w
  contents : Ring.contents mem r l.length = l
  rest : ∀ k, l.length ≤ (k - r).toNat → dead (mem k)

namespace Holds

variable {dead : α → Prop} {mem : BitVec w → α} {r : BitVec w} {l : List α}

theorem nil (h : ∀ k, dead (mem k)) (r : BitVec w) : Holds dead mem r [] :=
  ⟨Nat.zero_le _, rfl, fun k _ => h k⟩

theorem getElem (h : Holds dead mem r l) {i : ℕ} (hi : i < l.length) :
    mem (r + BitVec.ofNat w i) = l[i] := by
  have hlen : i < (Ring.contents mem r l.length).length := by simpa using hi
  rw [← getElem_contents mem r hlen]
  exact List.getElem_of_eq h.contents hlen

theorem head {e : α} (h : Holds dead mem r (e :: l)) : mem r = e := by
  have hc := h.contents
  rw [List.length_cons, contents_succ] at hc
  exact (List.cons.inj hc).1

/-- A slot that is not dead is one of the list. -/
theorem lt_of_not_dead (h : Holds dead mem r l) {k : BitVec w} (hk : ¬dead (mem k)) :
    (k - r).toNat < l.length := by
  by_contra hn
  exact hk (h.rest k (Nat.le_of_not_lt hn))

theorem push (h : Holds dead mem r l) (hlt : l.length < 2 ^ w) (e : α) :
    Holds dead (Function.update mem (r + BitVec.ofNat w l.length) e) r (l ++ [e]) where
  le := by
    rw [List.length_append, List.length_singleton]
    exact hlt
  contents := by
    rw [List.length_append, List.length_singleton, contents_push hlt, h.contents]
  rest := by
    intro k hk
    rw [List.length_append, List.length_singleton] at hk
    have hne : k ≠ r + BitVec.ofNat w l.length := by
      rintro rfl
      rw [toNat_slot_sub r hlt] at hk
      omega
    rw [Function.update_of_ne hne]
    exact h.rest k (by omega)

theorem pop {e e' : α} (h : Holds dead mem r (e :: l)) (he : dead e') :
    Holds dead (Function.update mem r e') (r + 1) l where
  le := by
    have := h.le
    rw [List.length_cons] at this
    omega
  contents := by
    have hc := h.contents
    have hle := h.le
    rw [List.length_cons] at hle
    rw [List.length_cons, contents_succ] at hc
    -- the slot freed is one round ahead of the new read pointer
    have hself : l.length ≤ (r - (r + 1)).toNat := by
      rw [toNat_sub_succ_self]
      omega
    rw [contents_update_of_le (by omega) hself]
    exact (List.cons.inj hc).2
  rest := by
    intro k hk
    by_cases hkr : k = r
    · rw [hkr, Function.update_self]
      exact he
    · have hd := toNat_sub_succ hkr
      have h0 := toNat_sub_ne_zero hkr
      rw [Function.update_of_ne hkr]
      refine h.rest k ?_
      rw [List.length_cons]
      omega

/-- Another memory, slot by slot. -/
theorem of_getElem {mem' : BitVec w → α} {l' : List α} (hle : l'.length ≤ 2 ^ w)
    (hget : ∀ i (hi : i < l'.length), mem' (r + BitVec.ofNat w i) = l'[i])
    (hrest : ∀ k, l'.length ≤ (k - r).toNat → dead (mem' k)) : Holds dead mem' r l' where
  le := hle
  contents := by
    refine List.ext_getElem (by simp) fun i hi hi' => ?_
    rw [getElem_contents, hget i hi']
  rest := hrest

end Holds

end Ring
end Lib
end Ariane

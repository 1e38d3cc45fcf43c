/-
# Draining a table

A table holds a list of items at each of `2 ^ n` indices. A walk takes the indices in order and
the items of each one by one: what it meets is `items`. With nothing left below the index it is
at, it takes off the head of `items` (`items_pop`), and the items are met in the order of the
indices (`pairwise_items`).

What an item stores is a partial function. In a list of stores the last one at a place counts
(`storeAll_of_last`), and a place of none of them keeps what it had (`storeAll_of_none`).
-/
import Mathlib.Data.List.Nodup
import Mathlib.Order.Basic
import Ariane.Lib.Sizes

namespace Ariane
namespace Lib
namespace Drain

variable {n : ℕ} {α β γ : Type}

/-! ### The walk -/

def indices (n : ℕ) : List (BitVec n) := (List.range (2 ^ n)).map (BitVec.ofNat n)

theorem mem_indices (k : BitVec n) : k ∈ indices n :=
  List.mem_map.2 ⟨k.toNat, List.mem_range.2 k.isLt, by simp⟩

theorem pairwise_indices : (indices n).Pairwise (· < ·) := by
  rw [indices, List.pairwise_map]
  refine List.pairwise_lt_range.imp_of_mem fun {a b} ha hb hlt => ?_
  rw [BitVec.lt_def, BitVec.toNat_ofNat, BitVec.toNat_ofNat, Nat.mod_eq_of_lt (List.mem_range.1 ha),
    Nat.mod_eq_of_lt (List.mem_range.1 hb)]
  exact hlt

theorem indices_split (k : BitVec n) :
    ∃ l r, indices n = l ++ k :: r ∧ (∀ i ∈ l, i < k) ∧ ∀ i ∈ r, k < i := by
  obtain ⟨l, r, h⟩ := List.append_of_mem (mem_indices k)
  have hp := pairwise_indices (n := n)
  rw [h, List.pairwise_append, List.pairwise_cons] at hp
  obtain ⟨-, ⟨hr, -⟩, hl⟩ := hp
  exact ⟨l, r, h, fun i hi => hl i hi k List.mem_cons_self, hr⟩

theorem le_allOnes (k : BitVec n) : k ≤ BitVec.allOnes n := by
  rw [BitVec.le_def, BitVec.toNat_allOnes]
  exact Nat.le_sub_one_of_lt k.isLt

/-- What is below the next index is done with this one. -/
theorem le_of_lt_add_one {i k : BitVec n} (hk : k ≠ BitVec.allOnes n) (h : i < k + 1) : i ≤ k := by
  have hne : k.toNat ≠ 2 ^ n - 1 := fun hc => hk (BitVec.eq_of_toNat_eq (by rw [hc, BitVec.toNat_allOnes]))
  have hlt := k.isLt
  rw [BitVec.lt_def, BitVec.toNat_add, show (1 : BitVec n) = BitVec.ofNat n 1 from rfl, BitVec.toNat_ofNat] at h
  rw [BitVec.le_def]
  rcases Nat.eq_zero_or_pos n with rfl | hn
  · omega
  · have h1 : 1 < 2 ^ n := Nat.one_lt_two_pow (Nat.pos_iff_ne_zero.1 hn)
    rw [Nat.mod_eq_of_lt h1, Nat.mod_eq_of_lt (by omega)] at h
    omega

def items (f : BitVec n → List α) : List α := (indices n).flatMap f

theorem mem_items {f : BitVec n → List α} {x : α} : x ∈ items f ↔ ∃ k, x ∈ f k := by
  rw [items, List.mem_flatMap]
  exact ⟨fun ⟨k, _, h⟩ => ⟨k, h⟩, fun ⟨k, h⟩ => ⟨k, mem_indices k, h⟩⟩

theorem items_eq_nil {f : BitVec n → List α} (h : ∀ k, f k = []) : items f = [] :=
  List.flatMap_eq_nil_iff.2 fun k _ => h k

/-- The walk takes off the first item of the index it is at. -/
theorem items_pop {f f' : BitVec n → List α} {k : BitVec n} {x : α} (hlt : ∀ i < k, f i = [])
    (hk : f k = x :: f' k) (hne : ∀ i, i ≠ k → f' i = f i) : items f = x :: items f' := by
  obtain ⟨l, r, hsplit, hl, hr⟩ := indices_split k
  have hbefore : l.flatMap f = [] := List.flatMap_eq_nil_iff.2 fun i hi => hlt i (hl i hi)
  have hbefore' : l.flatMap f' = [] :=
    List.flatMap_eq_nil_iff.2 fun i hi => (hne i (BitVec.ne_of_lt (hl i hi))).trans (hlt i (hl i hi))
  have hafter : r.flatMap f' = r.flatMap f :=
    List.flatMap_congr fun i hi => hne i (BitVec.ne_of_lt (hr i hi)).symm
  rw [items, items, hsplit, List.flatMap_append, List.flatMap_append, List.flatMap_cons, List.flatMap_cons,
    hbefore, hbefore', hafter, hk]
  rfl

/-- Items are met in the order of the indices. -/
theorem pairwise_items {R : α → α → Prop} {f : BitVec n → List α} (hf : ∀ k, (f k).Pairwise R)
    (hlt : ∀ i j, i < j → ∀ x ∈ f i, ∀ y ∈ f j, R x y) : (items f).Pairwise R := by
  rw [items, List.pairwise_flatMap]
  exact ⟨fun k _ => hf k, pairwise_indices.imp fun {i j} h => hlt i j h⟩

/-- The first of the items that `p` holds of, and the rest. -/
theorem filter_eq_cons {p : α → Bool} {l : List α} [DecidableEq α] (hnd : l.Nodup) {x : α} (h : l.find? p = some x) :
    l.filter p = x :: l.filter fun y => p y && y != x := by
  obtain ⟨hx, as, bs, rfl, has⟩ := List.find?_eq_some_iff_append.1 h
  have hne (y) (hy : y ∈ bs) : y ≠ x := by
    rintro rfl
    exact (List.nodup_cons.1 hnd.of_append_right).1 hy
  have hnil (q : α → Bool) (hq : ∀ y ∈ as, q y = false) : as.filter q = [] :=
    List.filter_eq_nil_iff.2 fun y hy => by simp [hq y hy]
  have hrest : bs.filter (fun y => p y && y != x) = bs.filter p :=
    List.filter_congr fun y hy => by simp [hne y hy]
  rw [List.filter_append, List.filter_append, List.filter_cons_of_pos hx,
    List.filter_cons_of_neg (by simp), hrest, hnil p fun y hy => by simpa using has y hy,
    hnil _ fun y hy => by simp [show p y = false by simpa using has y hy]]
  rfl

/-! ### Stores -/

def store (m : α → β) (f : α → Option β) : α → β := fun a => (f a).getD (m a)

def storeAll (m : α → β) (fs : List (α → Option β)) : α → β := fs.foldl store m

theorem storeAll_append (m : α → β) (fs gs : List (α → Option β)) :
    storeAll m (fs ++ gs) = storeAll (storeAll m fs) gs := List.foldl_append

theorem storeAll_of_none {a : α} : ∀ (fs : List (α → Option β)) (m : α → β), (∀ f ∈ fs, f a = none) →
    storeAll m fs a = m a
  | [], _, _ => rfl
  | f :: fs, m, h => by
    have hf : store m f a = m a := by rw [store, h f List.mem_cons_self, Option.getD_none]
    exact (storeAll_of_none fs (store m f) fun g hg => h g (List.mem_cons_of_mem _ hg)).trans hf

/-- The last store at a place counts. -/
theorem storeAll_of_last {a : α} {b : β} {f : α → Option β} {fs gs : List (α → Option β)} (hf : f a = some b)
    (hgs : ∀ g ∈ gs, g a = none) (m : α → β) : storeAll m (fs ++ f :: gs) a = b := by
  rw [storeAll_append]
  calc storeAll (storeAll m fs) (f :: gs) a = storeAll (store (storeAll m fs) f) gs a := rfl
    _ = store (storeAll m fs) f a := storeAll_of_none gs _ hgs
    _ = b := by rw [store, hf, Option.getD_some]

/-- What is in memory when the items of a list have been stored: an item that no later one hides
is there, and a place of no item is as before. -/
theorem storeAll_map {R : γ → γ → Prop} {g : γ → α → Option β} {l : List γ} (hp : l.Pairwise R) (m : α → β) (a : α) :
    ((∀ x ∈ l, g x a = none) → storeAll m (l.map g) a = m a) ∧
      ∀ x ∈ l, ∀ b, g x a = some b → (∀ y ∈ l, R x y → g y a = none) → storeAll m (l.map g) a = b := by
  refine ⟨fun h => storeAll_of_none _ m ?_, fun x hx b hb hlater => ?_⟩
  · intro f hf
    obtain ⟨x, hx, rfl⟩ := List.mem_map.1 hf
    exact h x hx
  · obtain ⟨as, bs, rfl⟩ := List.append_of_mem hx
    have hafter := (List.pairwise_cons.1 (List.pairwise_append.1 hp).2.1).1
    rw [List.map_append, List.map_cons]
    refine storeAll_of_last hb (fun f hf => ?_) m
    obtain ⟨y, hy, rfl⟩ := List.mem_map.1 hf
    exact hlater y (List.mem_append_right _ (List.mem_cons_of_mem _ hy)) (hafter y hy)

end Drain
end Lib
end Ariane

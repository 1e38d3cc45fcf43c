/-
# Sv39

The address translation of the privileged architecture with three levels of page
tables, the accessed and dirty bits managed by software: the entries a walk reads, in
order, the leaf it finds, and the accesses the leaf permits. Levels are numbered as in
the architecture, from 2 for the root down to 0.
-/
import Mathlib.Data.BitVec
import Ariane.Lib.Sizes

namespace Ariane
namespace Sv39

/-! ### Page-table entries -/

section Fields

variable (p : BitVec 64)

def v : Bool := p.getLsbD 0
def r : Bool := p.getLsbD 1
def w : Bool := p.getLsbD 2
def x : Bool := p.getLsbD 3
def g : Bool := p.getLsbD 5
def a : Bool := p.getLsbD 6
def d : Bool := p.getLsbD 7
def ppn : BitVec 44 := p.extractLsb' 10 44

/-- Not valid, or writable without being readable. -/
def invalid : Bool := !v p || !r p && w p

/-- An entry that ends the walk. -/
def isLeaf : Bool := r p || x p

end Fields

/-- The virtual page number of a level. -/
def vpn (va : BitVec 64) (i : ℕ) : BitVec 9 := va.extractLsb' (12 + 9 * i) 9

/-- The address of the entry: `base × PAGESIZE + vpn[i] × PTESIZE`. -/
def pteAddr (base : BitVec 44) (va : BitVec 64) (i : ℕ) : BitVec 56 :=
  base.setWidth 56 * 4096 + (vpn va i).setWidth 56 * 8

/-! ### The walk -/

/-- A leaf, its level, and whether a level above it is global. -/
structure Leaf where
  level : ℕ
  pte : BitVec 64
  global : Bool
deriving DecidableEq, Repr

/-- The addresses read, and the leaf unless the walk faults. -/
structure Walk where
  reads : List (BitVec 56)
  leaf : Option Leaf
deriving DecidableEq, Repr

variable (mem : BitVec 56 → BitVec 64) (va : BitVec 64)

/-- From level `i` with the table at `base` on. -/
def walk : ℕ → BitVec 44 → Bool → Walk
  | i, base, global =>
    let addr := pteAddr base va i
    let pte := mem addr
    if invalid pte then ⟨[addr], none⟩
    else if isLeaf pte then ⟨[addr], some ⟨i, pte, global⟩⟩
    else
      match i with
      | 0 => ⟨[addr], none⟩
      | i + 1 =>
        let rest := walk i (ppn pte) (global || g pte)
        ⟨addr :: rest.reads, rest.leaf⟩

/-- What an entry does to a walk. -/
theorem walk_cases (i : ℕ) (base : BitVec 44) (global : Bool) :
    let addr := pteAddr base va i
    let pte := mem addr
    (invalid pte = true ∧ walk mem va i base global = ⟨[addr], none⟩) ∨
      (invalid pte = false ∧ isLeaf pte = true ∧
        walk mem va i base global = ⟨[addr], some ⟨i, pte, global⟩⟩) ∨
      (invalid pte = false ∧ isLeaf pte = false ∧ i = 0 ∧ walk mem va i base global = ⟨[addr], none⟩) ∨
      (invalid pte = false ∧ isLeaf pte = false ∧ ∃ k, i = k + 1 ∧
        walk mem va i base global =
          ⟨addr :: (walk mem va k (ppn pte) (global || g pte)).reads,
            (walk mem va k (ppn pte) (global || g pte)).leaf⟩) := by
  intro addr pte
  cases hinv : invalid pte with
  | true =>
    refine .inl ⟨rfl, ?_⟩
    unfold walk
    exact if_pos hinv
  | false =>
    have hinv' : ¬invalid (mem (pteAddr base va i)) = true := Bool.eq_false_iff.1 hinv
    cases hleaf : isLeaf pte with
    | true =>
      refine .inr (.inl ⟨rfl, rfl, ?_⟩)
      unfold walk
      exact (if_neg hinv').trans (if_pos hleaf)
    | false =>
      have hleaf' : ¬isLeaf (mem (pteAddr base va i)) = true := Bool.eq_false_iff.1 hleaf
      cases i with
      | zero =>
        refine .inr (.inr (.inl ⟨rfl, rfl, rfl, ?_⟩))
        unfold walk
        exact (if_neg hinv').trans (if_neg hleaf')
      | succ k =>
        refine .inr (.inr (.inr ⟨rfl, rfl, k, rfl, ?_⟩))
        rw [walk]
        exact (if_neg hinv').trans (if_neg hleaf')

theorem reads_walk (i : ℕ) (base : BitVec 44) (global : Bool) :
    (walk mem va i base global).reads.length ≤ i + 1 := by
  induction i generalizing base global with
  | zero =>
    rcases walk_cases mem va 0 base global with
      ⟨-, h⟩ | ⟨-, -, h⟩ | ⟨-, -, -, h⟩ | ⟨-, -, k, hk, -⟩
    · simp [h]
    · simp [h]
    · simp [h]
    · omega
  | succ i ih =>
    rcases walk_cases mem va (i + 1) base global with
      ⟨-, h⟩ | ⟨-, -, h⟩ | ⟨-, -, -, h⟩ | ⟨-, -, k, hk, h⟩
    · simp [h]
    · simp [h]
    · simp [h]
    · obtain rfl : i = k := by omega
      rw [h]
      exact Nat.succ_le_succ (ih _ _)

/-! ### Permissions -/

/-- A fetch, a load or a store; `mxr` makes executable pages readable. -/
inductive Access
  | fetch
  | load (mxr : Bool)
  | store (mxr : Bool)
deriving DecidableEq, Repr

/-- A superpage is aligned to its size. -/
def Leaf.aligned (l : Leaf) : Bool := (ppn l.pte).toNat % 2 ^ (9 * l.level) == 0

/-- The access bits the leaf must have. -/
def Leaf.allows (l : Leaf) : Access → Bool
  | .fetch => x l.pte
  | .load mxr => r l.pte || x l.pte && mxr
  | .store _ => w l.pte && d l.pte

/-- The leaf lets the access through. -/
def Leaf.permits (l : Leaf) (acc : Access) : Bool := l.aligned && a l.pte && l.allows acc

/-- The leaf of a successful translation from the root `root`. -/
def translate (root : BitVec 44) (acc : Access) : Option Leaf :=
  (walk mem va 2 root false).leaf.filter (·.permits acc)

/-! ### Leaves and the pages they map -/

/-- A walk ends in a valid entry that is a leaf, on one of its levels. -/
theorem leaf_of_walk {i : ℕ} {base : BitVec 44} {global : Bool} {l : Leaf}
    (h : (walk mem va i base global).leaf = some l) :
    invalid l.pte = false ∧ isLeaf l.pte = true ∧ l.level ≤ i := by
  induction i generalizing base global with
  | zero =>
    rcases walk_cases mem va 0 base global with
      ⟨-, hw⟩ | ⟨hinv, hleaf, hw⟩ | ⟨-, -, -, hw⟩ | ⟨-, -, k, hk, -⟩
    · rw [hw] at h
      cases h
    · rw [hw] at h
      obtain rfl := Option.some.inj h
      exact ⟨hinv, hleaf, le_rfl⟩
    · rw [hw] at h
      cases h
    · omega
  | succ i ih =>
    rcases walk_cases mem va (i + 1) base global with
      ⟨-, hw⟩ | ⟨hinv, hleaf, hw⟩ | ⟨-, -, hk, -⟩ | ⟨-, -, k, hk, hw⟩
    · rw [hw] at h
      cases h
    · rw [hw] at h
      obtain rfl := Option.some.inj h
      exact ⟨hinv, hleaf, le_rfl⟩
    · omega
    · obtain rfl : i = k := by omega
      rw [hw] at h
      obtain ⟨hinv, hleaf, hl⟩ := ih h
      exact ⟨hinv, hleaf, Nat.le_succ_of_le hl⟩

theorem pteAddr_congr {va' : BitVec 64} {i : ℕ} (base : BitVec 44) (h : vpn va' i = vpn va i) :
    pteAddr base va' i = pteAddr base va i := by
  rw [pteAddr, pteAddr, h]

/-- Addresses that agree in the page numbers above the leaf have the same leaf. -/
theorem walk_congr {va' : BitVec 64} {i : ℕ} {base : BitVec 44} {global : Bool} {l : Leaf}
    (h : (walk mem va i base global).leaf = some l)
    (hvpn : ∀ k, l.level ≤ k → k ≤ i → vpn va' k = vpn va k) :
    (walk mem va' i base global).leaf = some l := by
  induction i generalizing base global with
  | zero =>
    have haddr := pteAddr_congr va base (hvpn 0 (leaf_of_walk mem va h).2.2 le_rfl)
    rw [walk, haddr]
    rwa [walk] at h
  | succ i ih =>
    have haddr := pteAddr_congr va base (hvpn (i + 1) (leaf_of_walk mem va h).2.2 le_rfl)
    rw [walk] at h ⊢
    rw [haddr]
    dsimp only at h ⊢
    split_ifs at h ⊢ with hinv hleaf
    · exact h
    · exact ih h fun k hk hki => hvpn k hk (Nat.le_succ_of_le hki)

/-- The physical address of a leaf: its page, and the virtual address within the page. -/
def Leaf.paddr (l : Leaf) (va : BitVec 64) : BitVec 64 :=
  (ppn l.pte).setWidth 64 * 4096 + (va.extractLsb' 0 (12 + 9 * l.level)).setWidth 64

end Sv39
end Ariane

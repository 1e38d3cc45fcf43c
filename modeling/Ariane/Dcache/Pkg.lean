/-
# The types of the write-through data cache

`include/wt_cache_pkg.sv`, and the cells of `common_cells` the cache is built from. The
sizes of the arrays are parameters (`Geom`), `ariane_pkg` has one choice of them
(`arianeGeom`). A physical address is the tag, the index of the line in its way, the
word in the line and the byte in the word; a 64-bit word is its eight byte lanes.

The order in which a round-robin arbiter serves its requesters is left open: `rrArb`
takes the preferred requester as an argument.
-/
import Mathlib.Data.Fintype.Pi
import Mathlib.Data.Fin.VecNotation
import Mathlib.Data.List.FinRange
import Ariane.Lib.Sizes

namespace Ariane
namespace Dcache

/-! ### Sizes and addresses -/

/-- The parameters of the cache, and which tags are in the cacheable regions
(`is_inside_cacheable_regions`). -/
structure Geom where
  tagWidth : ℕ
  clIdxWidth : ℕ
  wordWidth : ℕ
  setAssoc : ℕ
  wbufDepth : ℕ
  maxTx : ℕ
  axi64BitCompliant : Bool
  cacheable : BitVec tagWidth → Bool
  [setAssoc_ne : NeZero setAssoc]
  [wbufDepth_ne : NeZero wbufDepth]
  [maxTx_ne : NeZero maxTx]

attribute [instance] Geom.setAssoc_ne Geom.wbufDepth_ne Geom.maxTx_ne

/-- The sizes of `ariane_pkg` and `wt_cache_pkg`, with one cacheable region that holds
the main memory at `0x8000_0000`. -/
def arianeGeom : Geom where
  tagWidth := 44
  clIdxWidth := 8
  wordWidth := 1
  setAssoc := 8
  wbufDepth := 8
  maxTx := 4
  axi64BitCompliant := true
  cacheable := fun tag => 0x80000 ≤ tag && tag < 0xC0000

structure Line (g : Geom) where
  tag : BitVec g.tagWidth
  idx : BitVec g.clIdxWidth
deriving DecidableEq

/-- The address of a word, the `wtag` of the write buffer. -/
structure Wtag (g : Geom) extends Line g where
  word : BitVec g.wordWidth
deriving DecidableEq

structure Addr (g : Geom) extends Wtag g where
  byte : Fin 8
deriving DecidableEq

abbrev Word := Fin 8 → BitVec 8
abbrev Mask := Fin 8 → Bool
abbrev Ways (g : Geom) := Fin g.setAssoc → Bool

/-- A full cache line. -/
abbrev LineData (g : Geom) := BitVec g.wordWidth → Word

/-! ### Cells -/

section Cells

variable {n : ℕ}

/-- The reduction `|p`. -/
def any (p : Fin n → Bool) : Bool := decide (∃ k, p k = true)

@[simp] theorem any_eq_true {p : Fin n → Bool} : any p = true ↔ ∃ k, p k = true := by
  simp [any]

@[simp] theorem any_eq_false {p : Fin n → Bool} : any p = false ↔ ∀ k, p k = false := by
  simp [any]

variable [NeZero n]

/-- `lzc`, counting from the least significant bit; without a bit the count is at its
maximum. -/
def lzc (p : Fin n → Bool) : Fin n :=
  ((List.finRange n).find? p).getD ⟨n - 1, Nat.sub_lt (Nat.pos_of_neZero n) Nat.one_pos⟩

theorem lzc_spec {p : Fin n → Bool} (h : ∃ k, p k = true) : p (lzc p) = true := by
  obtain ⟨k, hk⟩ := h
  unfold lzc
  cases hf : (List.finRange n).find? p with
  | none => exact absurd hk (by simpa using List.find?_eq_none.1 hf k (List.mem_finRange k))
  | some j => exact List.find?_some hf

/-- The choice of `rr_arb_tree` when its round-robin counter prefers `pref`. -/
def rrArb (req : Fin n → Bool) (pref : Fin n) : Fin n := if req pref then pref else lzc req

theorem rrArb_spec {req : Fin n → Bool} (h : ∃ k, req k = true) (pref : Fin n) :
    req (rrArb req pref) = true := by
  unfold rrArb
  by_cases hp : req pref = true
  · rwa [if_pos hp]
  · rw [if_neg hp]
    exact lzc_spec h

/-- `dcache_way_bin2oh`. -/
def bin2oh (k : Fin n) : Fin n → Bool := fun j => j = k

end Cells

/-! ### Byte enables and transaction sizes -/

/-- The lanes a byte enable selects. -/
def lanes (be : BitVec 8) : Mask := fun k => be.getLsbD k

/-- `toByteEnable8`. -/
def toByteEnable8 (offset : Fin 8) (size : BitVec 2) : Mask := fun k =>
  if size = 0 then k = offset
  else if size = 1 then offset.val ≤ k.val && k.val < offset.val + 2
  else if size = 2 then offset.val ≤ k.val && k.val < offset.val + 4
  else true

/-- The lane of the data that `repData64` copies to lane `k`. -/
def repLane (offset : Fin 8) (size : BitVec 2) (k : Fin 8) : Fin 8 :=
  if size = 0 then offset
  else if size = 1 then offset + Fin.ofNat 8 (k % 2)
  else if size = 2 then offset + Fin.ofNat 8 (k % 4)
  else k

/-- `repData64`. -/
def repData64 (data : Word) (offset : Fin 8) (size : BitVec 2) : Word := fun k =>
  data (repLane offset size k)

/-- `toSize64`. -/
def toSize64 (be : Mask) : BitVec 2 :=
  if be = lanes 0b11111111 then 3
  else if be = lanes 0b00001111 ∨ be = lanes 0b11110000 then 2
  else if be = lanes 0b11000000 ∨ be = lanes 0b00110000 ∨ be = lanes 0b00001100 ∨
    be = lanes 0b00000011 then 1
  else 0

/-- `paddrSizeAlign`. -/
def paddrSizeAlign {g : Geom} (paddr : Addr g) (size : BitVec 3) : Addr g :=
  if size = 1 then { paddr with byte := Fin.ofNat 8 (paddr.byte / 2 * 2) }
  else if size = 2 then { paddr with byte := Fin.ofNat 8 (paddr.byte / 4 * 4) }
  else if size = 3 then { paddr with byte := 0 }
  else if size = 7 then { paddr with word := 0, byte := 0 }
  else paddr

/-- The bytes of its word that an aligned access of `size` at `byte` reaches. -/
def sizeMask (size : BitVec 3) (byte : Fin 8) : Mask := fun k =>
  k.val / 2 ^ size.toNat = byte.val / 2 ^ size.toNat

/-- More than a byte is sent only for a mask that is one aligned piece. -/
theorem toSize64_cases (be : Mask) :
    (∃ c ∈ [0b11111111#8, 0b00001111, 0b11110000, 0b11000000, 0b00110000, 0b00001100, 0b00000011],
      be = lanes c) ∨ toSize64 be = 0 := by
  unfold toSize64
  by_cases h3 : be = lanes 0b11111111
  · exact .inl ⟨_, by simp, h3⟩
  by_cases h2 : be = lanes 0b00001111 ∨ be = lanes 0b11110000
  · rcases h2 with h | h <;> exact .inl ⟨_, by simp, h⟩
  by_cases h1 : be = lanes 0b11000000 ∨ be = lanes 0b00110000 ∨ be = lanes 0b00001100 ∨
    be = lanes 0b00000011
  · rcases h1 with h | h | h | h <;> exact .inl ⟨_, by simp, h⟩
  rw [if_neg h3, if_neg h2, if_neg h1]
  exact .inr rfl

/-- A transaction has an aligned address, carries bytes out of `be`, each on its own
lane. -/
theorem tx_lane (be : Mask) (h : ∃ k, be k = true) (k : Fin 8) :
    sizeMask ((toSize64 be).setWidth 3) (lzc be) k = toByteEnable8 (lzc be) (toSize64 be) k ∧
      (toByteEnable8 (lzc be) (toSize64 be) k = true →
        be k = true ∧ repLane (lzc be) (toSize64 be) k = k) := by
  rcases toSize64_cases be with ⟨c, hc, rfl⟩ | hs
  · clear h
    revert k c
    decide
  -- a byte on its own, the first of them
  have hb := lzc_spec h
  rw [hs]
  refine ⟨?_, fun hk => ?_⟩
  · simp [sizeMask, toByteEnable8, Fin.ext_iff]
  · have : k = lzc be := by simpa [toByteEnable8] using hk
    subst this
    exact ⟨hb, by simp [repLane]⟩

end Dcache
end Ariane

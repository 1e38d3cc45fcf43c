/-
# The memory of the instruction cache

What the cache asks the memory for, and what the memory returns: a line, or where an address is not
cacheable its word, which comes at an offset of its own. Whatever was asked, the offset that
`wt_icache` keeps finds the word at the fetched address (`Asks.word`).
-/
import Ariane.Icache.WtIcache
import Ariane.Lib.Bits

namespace Ariane
namespace Icache

/-! ### Requests and what they return -/

/-- The memory at a time: its lines. -/
abbrev Mem := BitVec 52 → BitVec 128

/-- The 32 bits at an address, whose last two bits are ignored. -/
def wordAt (m : Mem) (p : BitVec 56) : BitVec 32 :=
  (m (p.extractLsb' 4 52)).extractLsb' (8 * (p.extractLsb' 2 2 ++ 0#2).toNat) 32

/-- `p` has the page offset of `v`. -/
def SamePage (p : BitVec 56) (v : BitVec 64) : Prop := p.extractLsb' 2 10 = v.extractLsb' 2 10

/-- A request to the memory, and when it was made. -/
structure Request where
  paddr : BitVec 56
  nc : Bool
  asked : ℕ

/-- What comes back for a request: the line, or where it is not cacheable the 64-bit word at the low end
(AXI), the 32-bit word replicated (OpenPiton). -/
def Request.Returns (c : Cfg) (m : Mem) (r : Request) (data : BitVec 128) : Prop :=
  if r.nc then
    if c.axi64BitCompliant then
      data.extractLsb' 0 64 = (m (r.paddr.extractLsb' 4 52)).extractLsb' (64 * (r.paddr.extractLsb' 3 1).toNat) 64
    else ∀ k < 4, data.extractLsb' (32 * k) 32 = wordAt m r.paddr
  else data = m (r.paddr.extractLsb' 4 52)

/-! ### Words of a line -/

section Words

variable {p : BitVec 56} {v : BitVec 64}

theorem SamePage.getLsbD (h : SamePage p v) {k : ℕ} (hk : k < 10) : p.getLsbD (2 + k) = v.getLsbD (2 + k) := by
  have := congrArg (·.getLsbD k) h
  simpa [hk] using this

theorem SamePage.line (h : SamePage p v) : p.extractLsb' 12 44 ++ index v = p.extractLsb' 4 52 := by
  ext k hk
  simp only [index, BitVec.getElem_append, BitVec.getElem_extractLsb']
  split
  · have := h.getLsbD (k := 2 + k) (by omega)
    grind
  · congr 1
    omega

theorem SamePage.offset (h : SamePage p v) : offset v = p.extractLsb' 2 2 ++ 0#2 := by
  rw [Icache.offset]
  congr 1
  ext k hk
  simpa using (h.getLsbD (by omega)).symm

/-- The word of a line at the offset of the address is the word at the address. -/
theorem SamePage.word (h : SamePage p v) (m : Mem) :
    (m (p.extractLsb' 12 44 ++ index v)).extractLsb' (8 * (Icache.offset v).toNat) 32 = wordAt m p := by
  rw [h.line, h.offset, wordAt]

/-- The request for the word at `p`, and the offset at which the word is expected in what returns. -/
structure Asks (c : Cfg) (r : Request) (v : BitVec 64) (p : BitVec 56) (off : BitVec 4) : Prop where
  paddr : r.paddr = p.extractLsb' 12 44 ++
    (if r.nc then if c.axi64BitCompliant then v.extractLsb' 3 9 ++ 0#3 else v.extractLsb' 2 10 ++ 0#2
    else index v ++ 0#4)
  off : off = if r.nc && c.axi64BitCompliant then Icache.offset v &&& 4 else Icache.offset v

/-- The offsets of a line, in its 32-bit words. -/
theorem offset_words (v : BitVec 64) : 8 * (offset v).toNat = 32 * (v.extractLsb' 2 2).toNat := by
  unfold offset
  generalize v.extractLsb' 2 2 = o
  revert o
  decide

/-- The offset in the upper or lower half of a line. -/
theorem offset_half (v : BitVec 64) :
    64 * (v.extractLsb' 3 1).toNat + 8 * (offset v &&& 4).toNat = 8 * (offset v).toNat ∧
      8 * (offset v &&& 4).toNat + 32 ≤ 64 := by
  have h : v.extractLsb' 3 1 = (v.extractLsb' 2 2).extractLsb' 1 1 :=
    (Lib.extractLsb'_extractLsb' v (by omega : 1 + 1 ≤ 2)).symm
  unfold offset
  rw [h]
  generalize v.extractLsb' 2 2 = o
  revert o
  decide

/-- Every request is in the line of the address. -/
theorem Asks.line {c : Cfg} {r : Request} {off : BitVec 4} (ha : Asks c r v p off) :
    r.paddr.extractLsb' 4 52 = p.extractLsb' 12 44 ++ index v := by
  rw [ha.paddr]
  ext k hk
  split_ifs <;> simp only [index, BitVec.getElem_extractLsb', BitVec.getLsbD_append] <;> grind

theorem Asks.word {c : Cfg} {r : Request} {off : BitVec 4} {m : Mem} {data : BitVec 128} (ha : Asks c r v p off)
    (h : SamePage p v) (hr : r.Returns c m data) : data.extractLsb' (8 * off.toNat) 32 = wordAt m p := by
  rw [ha.off]
  unfold Request.Returns at hr
  rw [ha.line] at hr
  cases hnc : r.nc with
  | false =>
    rw [hnc, if_neg Bool.false_ne_true] at hr
    rw [hr, ← h.word m, Bool.false_and, if_neg Bool.false_ne_true]
  | true =>
    rw [hnc, if_pos rfl] at hr
    cases hx : c.axi64BitCompliant with
    | false =>
      rw [hx, if_neg Bool.false_ne_true] at hr
      have hword : wordAt m r.paddr = wordAt m p := by
        have hoff : r.paddr.extractLsb' 2 2 ++ 0#2 = offset v := by
          rw [ha.paddr, hnc, hx]
          unfold offset
          congr 1
          ext k hk
          simp only [BitVec.getElem_extractLsb', BitVec.getLsbD_append]
          grind
        rw [← h.word m, wordAt, ha.line, hoff]
      rw [Bool.and_false, if_neg Bool.false_ne_true, offset_words, hr _ (v.extractLsb' 2 2).isLt, hword]
    | true =>
      rw [hx, if_pos rfl] at hr
      have hb : r.paddr.extractLsb' 3 1 = v.extractLsb' 3 1 := by
        rw [ha.paddr, hnc, hx]
        ext k hk
        simp only [BitVec.getElem_extractLsb', BitVec.getLsbD_append]
        grind
      obtain ⟨hadd, hle⟩ := offset_half v
      rw [Bool.and_self, if_pos rfl, ← h.word m, ← hadd, ← hb]
      rw [← Lib.extractLsb'_extractLsb' _ hle, ← hr, Lib.extractLsb'_extractLsb' _ hle, Nat.zero_add]

end Words

end Icache
end Ariane

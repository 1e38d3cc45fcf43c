/-
# The memory management unit

`src/mmu.sv`: the two TLBs, the page-table walker and the answers to the fetch interface,
given in the cycle of the request, and to the load-store unit, given one cycle later.
-/
import Ariane.Mmu.Tlb
import Ariane.Pkg

namespace Ariane
namespace Mmu

open Riscv
open Lib (Machine)

/-- `ASID_WIDTH`, the entries of the TLBs, and `is_inside_execute_regions`. -/
structure Params where
  asidWidth : ℕ
  instrTlbEntries : ℕ
  dataTlbEntries : ℕ
  executeRegion : BitVec 64 → Bool

variable {P : Params}

/-! ### The module -/

structure In (P : Params) where
  flush : Bool
  flushTlb : Bool
  enableTranslation : Bool
  enLdStTranslation : Bool
  fetchReq : Bool
  fetchVaddr : BitVec 64
  misalignedEx : Exn
  lsuReq : Bool
  lsuVaddr : BitVec 64
  lsuIsStore : Bool
  privLvl : PrivLvl
  ldStPrivLvl : PrivLvl
  sum : Bool
  mxr : Bool
  satpPpn : BitVec 44
  asid : BitVec P.asidWidth
  dataGnt : Bool
  dataRvalid : Bool
  dataRdata : BitVec 64

structure Regs (P : Params) where
  itlb : Tlb.Regs P.asidWidth P.instrTlbEntries
  dtlb : Tlb.Regs P.asidWidth P.dataTlbEntries
  ptw : Ptw.Regs P.asidWidth
  lsuVaddr : BitVec 64
  lsuReq : Bool
  misalignedEx : Exn
  dtlbPte : BitVec 64
  dtlbHit : Bool
  lsuIsStore : Bool
  dtlbIs2M : Bool
  dtlbIs1G : Bool

def reset : Regs P :=
  ⟨Tlb.reset, Tlb.reset, Ptw.reset, 0, false, Exn.none, 0, false, false, false, false⟩

variable (s : Regs P) (i : In P)

/-- The lookups of the cycle. -/
def itlbLookup : Tlb.Lookup := Tlb.translation s.itlb i.asid i.fetchVaddr
def dtlbLookup : Tlb.Lookup := Tlb.translation s.dtlb i.asid i.lsuVaddr

def ptwIn : Ptw.In P.asidWidth where
  flush := i.flush
  enableTranslation := i.enableTranslation
  enLdStTranslation := i.enLdStTranslation
  lsuIsStore := i.lsuIsStore
  dataGnt := i.dataGnt
  dataRvalid := i.dataRvalid
  dataRdata := i.dataRdata
  asid := i.asid
  itlbAccess := i.fetchReq
  itlbHit := (itlbLookup s i).hit
  itlbVaddr := i.fetchVaddr
  dtlbAccess := i.lsuReq
  dtlbHit := (dtlbLookup s i).hit
  dtlbVaddr := i.lsuVaddr
  satpPpn := i.satpPpn
  mxr := i.mxr

def itlbIn : Tlb.In P.asidWidth where
  flush := i.flushTlb
  update :=
    if (Ptw.comb s.ptw (ptwIn s i)).itlbUpdateValid then some (Ptw.tlbUpdate s.ptw) else none
  luAccess := i.fetchReq
  luAsid := i.asid
  luVaddr := i.fetchVaddr

def dtlbIn : Tlb.In P.asidWidth where
  flush := i.flushTlb
  update :=
    if (Ptw.comb s.ptw (ptwIn s i)).dtlbUpdateValid then some (Ptw.tlbUpdate s.ptw) else none
  luAccess := i.lsuReq
  luAsid := i.asid
  luVaddr := i.lsuVaddr

def next : Regs P where
  itlb := Tlb.next s.itlb (itlbIn s i)
  dtlb := Tlb.next s.dtlb (dtlbIn s i)
  ptw := Ptw.next s.ptw (ptwIn s i)
  lsuVaddr := i.lsuVaddr
  lsuReq := i.lsuReq
  misalignedEx := { i.misalignedEx with valid := i.misalignedEx.valid && i.lsuReq }
  dtlbPte := (dtlbLookup s i).content
  dtlbHit := (dtlbLookup s i).hit
  lsuIsStore := i.lsuIsStore
  dtlbIs2M := (dtlbLookup s i).is2M
  dtlbIs1G := (dtlbLookup s i).is1G

def machine (P : Params) : Machine (Regs P) (In P) := ⟨(· = reset), next⟩

/-! ### The answers -/

/-- The bits `[63:38]` of an address are all equal. -/
def canonical (va : BitVec 64) : Bool :=
  va.extractLsb' 38 26 == BitVec.allOnes 26 || va.extractLsb' 38 26 == 0

/-- The physical address of an entry: the page number, with the bits of a larger page
taken from the virtual address. -/
def paddrOf (pte : BitVec 64) (is2M is1G : Bool) (va : BitVec 64) : BitVec 64 :=
  let ppn := Sv39.ppn pte
  let ppn := if is2M then ppn.extractLsb' 9 35 ++ va.extractLsb' 12 9 else ppn
  let ppn := if is1G then ppn.extractLsb' 18 26 ++ va.extractLsb' 12 18 else ppn
  (ppn ++ va.extractLsb' 0 12).setWidth 64

/-- `pte.u`. -/
def user (pte : BitVec 64) : Bool := pte.getLsbD 4

/-- `update_vaddr`, 39 bits of it. -/
def updateVaddr : BitVec 64 := (s.ptw.vaddr.extractLsb' 0 39).setWidth 64

def ptwActive : Bool := s.ptw.state != .idle

/-- `icache_areq_o`. -/
structure FetchAnswer where
  valid : Bool
  paddr : BitVec 64
  exception : Exn
deriving DecidableEq, Repr

def iaccessErr : Bool :=
  i.fetchReq && (i.privLvl == privLvlU && !user (itlbLookup s i).content ||
    i.privLvl == privLvlS && user (itlbLookup s i).content)

/-- `fetch_paddr`. -/
def fetchPaddr : BitVec 64 :=
  if i.enableTranslation then
    paddrOf (itlbLookup s i).content (itlbLookup s i).is2M (itlbLookup s i).is1G i.fetchVaddr
  else i.fetchVaddr

/-- The process `instr_interface`, before the check of the execute regions. -/
def fetchTranslate : FetchAnswer :=
  if i.enableTranslation then
    let ex : Exn :=
      if i.fetchReq && !canonical i.fetchVaddr then ⟨instrAccessFault, i.fetchVaddr, true⟩ else Exn.none
    if (itlbLookup s i).hit then
      ⟨i.fetchReq, fetchPaddr s i,
        if iaccessErr s i then ⟨instrPageFault, i.fetchVaddr, true⟩ else ex⟩
    else if ptwActive s && s.ptw.isInstr then
      ⟨(Ptw.comb s.ptw (ptwIn s i)).ptwError, fetchPaddr s i, ⟨instrPageFault, updateVaddr s, true⟩⟩
    else ⟨false, fetchPaddr s i, ex⟩
  else ⟨i.fetchReq, fetchPaddr s i, Exn.none⟩

def fetchAnswer : FetchAnswer :=
  if P.executeRegion (fetchPaddr s i) then fetchTranslate s i
  else { fetchTranslate s i with exception := ⟨instrAccessFault, fetchPaddr s i, true⟩ }

/-- `lsu_dtlb_hit_o`. -/
def lsuDtlbHit : Bool := if i.enLdStTranslation then (dtlbLookup s i).hit else true

/-- `lsu_valid_o`, `lsu_paddr_o` and `lsu_exception_o`. -/
structure LsuAnswer where
  valid : Bool
  paddr : BitVec 64
  exception : Exn
deriving DecidableEq, Repr

def daccessErr : Bool :=
  i.ldStPrivLvl == privLvlS && !i.sum && user s.dtlbPte || i.ldStPrivLvl == privLvlU && !user s.dtlbPte

/-- The process `data_interface`. -/
def lsuAnswer : LsuAnswer :=
  if i.enLdStTranslation && !s.misalignedEx.valid then
    let paddr := paddrOf s.dtlbPte s.dtlbIs2M s.dtlbIs1G s.lsuVaddr
    if s.dtlbHit && s.lsuReq then
      ⟨true, paddr,
        if s.lsuIsStore then
          if !Sv39.w s.dtlbPte || daccessErr s i || !Sv39.d s.dtlbPte then
            ⟨storePageFault, s.lsuVaddr, true⟩
          else s.misalignedEx
        else if daccessErr s i then ⟨loadPageFault, s.lsuVaddr, true⟩
        else s.misalignedEx⟩
    else if ptwActive s && !s.ptw.isInstr && (Ptw.comb s.ptw (ptwIn s i)).ptwError then
      ⟨true, paddr, ⟨if s.lsuIsStore then storePageFault else loadPageFault, updateVaddr s, true⟩⟩
    else ⟨false, paddr, s.misalignedEx⟩
  else ⟨s.lsuReq, s.lsuVaddr, s.misalignedEx⟩

/-! ### Offsets -/

theorem offset_paddrOf (pte : BitVec 64) (is2M is1G : Bool) (va : BitVec 64) :
    (paddrOf pte is2M is1G va).extractLsb' 0 12 = va.extractLsb' 0 12 := by
  apply Lib.extractLsb'_eq_of_getLsbD
  intro k hk
  unfold paddrOf
  dsimp only
  rw [BitVec.getLsbD_setWidth, BitVec.getLsbD_append]
  have hk' : k < 64 := by omega
  simp [hk, hk']

variable {s : Regs P} {i : In P} in
/-- A translation leaves the offset in the page as it is. -/
theorem offset_lsuAnswer : (lsuAnswer s i).paddr.extractLsb' 0 12 = s.lsuVaddr.extractLsb' 0 12 := by
  unfold lsuAnswer
  dsimp only
  split_ifs
  all_goals first | exact offset_paddrOf _ _ _ _ | rfl

end Mmu
end Ariane

/-
# The instruction cache

`src/cache_subsystem/wt_icache.sv` with the sizes of `ariane_pkg`: four ways of 256 lines of 16
bytes, indexed by the page offset, so that only the tag waits for the address translation.

The two memories of a way are synchronous: what is requested in one cycle is at the output in the
next, with the old contents also where it is written. `rnd_way`, the number of the `lfsr_8bit`, is an
input, and `miss_o`, which only counts, is left out.
-/
import Ariane.Dcache.Pkg
import Ariane.Lib.Machine
import Ariane.Pkg

namespace Ariane
namespace Icache

open Dcache (any lzc)

/-! ### Ports -/

/-- `ArianeCfg`: whether the AXI bus is 64 bits wide, and `is_inside_cacheable_regions` of a tag. -/
structure Cfg where
  axi64BitCompliant : Bool
  cacheable : BitVec 44 → Bool

/-- `state_e`. -/
inductive State
  | flush | idle | read | miss | tlbMiss | killAtrans | killMiss
deriving DecidableEq, Repr

/-- `icache_rtrn_t`. -/
inductive Rtrn
  | invReq (vld all : Bool) (idx : BitVec 12) (way : BitVec 3)
  | ifillAck (data : BitVec 128)
deriving DecidableEq

structure In where
  flush : Bool
  en : Bool
  fetchValid : Bool
  fetchPaddr : BitVec 64
  fetchException : Exn
  req : Bool
  killS1 : Bool
  killS2 : Bool
  vaddr : BitVec 64
  rtrn : Option Rtrn
  ack : Bool
  rndWay : Fin 4

/-- A word of a tag memory. -/
structure TagEntry where
  vld : Bool
  tag : BitVec 44
deriving DecidableEq

structure Regs where
  state : State
  cacheEn : Bool
  cmpEn : Bool
  flush : Bool
  flushCnt : BitVec 8
  vaddr : BitVec 64
  clOffset : BitVec 4
  clTag : BitVec 44
  replWayOh : Fin 4 → Bool
  tags : BitVec 8 → Fin 4 → TagEntry
  lines : BitVec 8 → Fin 4 → BitVec 128
  tagRdata : Fin 4 → TagEntry
  clRdata : Fin 4 → BitVec 128

/-- The registers at reset: the memories and their outputs hold anything. -/
structure IsReset (s : Regs) : Prop where
  state : s.state = .idle
  cacheEn : s.cacheEn = false
  cmpEn : s.cmpEn = false
  flush : s.flush = false
  flushCnt : s.flushCnt = 0
  vaddr : s.vaddr = 0
  clOffset : s.clOffset = 0
  clTag : s.clTag = 0
  replWayOh : s.replWayOh = fun _ => false

/-- The index of an address: `[ICACHE_INDEX_WIDTH-1:ICACHE_OFFSET_WIDTH]`. -/
def index (a : BitVec 64) : BitVec 8 := a.extractLsb' 4 8

/-- `{vaddr>>2, 2'b0}`, cut to the offset. -/
def offset (a : BitVec 64) : BitVec 4 := a.extractLsb' 2 2 ++ 0#2

/-- `icache_way_bin2oh`. -/
def bin2oh (k : Fin 4) : Fin 4 → Bool := fun j => j = k

/-! ### A cycle -/

section Cycle

variable (c : Cfg) (s : Regs) (i : In)

/-- `cl_tag_d`. -/
def clTagD : BitVec 44 := if i.fetchValid then i.fetchPaddr.extractLsb' 12 44 else s.clTag

/-- `paddr_is_nc`. -/
def paddrIsNc : Bool := !s.cacheEn || !c.cacheable (clTagD s i)

/-- `cl_hit`. -/
def clHit (j : Fin 4) : Bool := (s.tagRdata j).tag == clTagD s i && (s.tagRdata j).vld

/-- `flush_d` before the end of a flush. -/
def flushReq : Bool := s.flush || i.flush

/-- `flush_done`. -/
def flushDone : Bool := s.flushCnt = 255

/-- `inv_en`. -/
def invEn : Bool :=
  match i.rtrn with
  | some (.invReq ..) => true
  | _ => false

/-- The data of `ICACHE_IFILL_ACK`. -/
def ifill : Option (BitVec 128) :=
  match i.rtrn with
  | some (.ifillAck data) => some data
  | _ => none

/-- What `p_fsm` assigns. -/
structure Fsm where
  stateD : State
  cacheEnD : Bool
  flushEn : Bool
  cmpEnD : Bool
  cacheRden : Bool
  cacheWren : Bool
  flushD : Bool
  ready : Bool
  fetchReq : Bool
  valid : Bool
  memDataReq : Bool

/-- The default assignments. -/
def defaults : Fsm where
  stateD := s.state
  cacheEnD := s.cacheEn && i.en
  flushEn := false
  cmpEnD := false
  cacheRden := false
  cacheWren := false
  flushD := flushReq s i
  ready := false
  fetchReq := false
  valid := false
  memDataReq := false

def fsmFlush : Fsm :=
  if flushDone s then { defaults s i with flushEn := true, stateD := .idle, flushD := false, cacheEnD := i.en }
  else { defaults s i with flushEn := true }

def fsmIdle : Fsm :=
  let d := { defaults s i with cmpEnD := s.cacheEn }
  if flushReq s i || i.en && !s.cacheEn then { d with stateD := .flush }
  else
    let ready := i.rtrn.isNone
    { d with
      ready := ready
      cacheRden := ready && i.req
      stateD := if i.killS1 then .idle else if ready && i.req then .read else .idle }

def fsmRead : Fsm :=
  let d := { defaults s i with stateD := .tlbMiss, fetchReq := true, cmpEnD := s.cacheEn, cacheRden := s.cacheEn }
  if i.fetchValid then
    if flushReq s i then { d with stateD := .idle }
    else if any (clHit s i) && s.cacheEn || i.fetchException.valid then
      let ready := i.rtrn.isNone
      { d with
        valid := !i.killS2
        ready := ready
        stateD := if i.killS1 then .idle else if ready && i.req then .read else .idle }
    else if i.killS2 then { d with stateD := .idle }
    else
      { d with
        cmpEnD := false
        memDataReq := true
        stateD := if i.ack then .miss else .tlbMiss }
  else if i.killS2 || flushReq s i then { d with stateD := .killAtrans }
  else d

def fsmTlbMiss : Fsm :=
  let d := { defaults s i with fetchReq := true, cmpEnD := s.cacheEn, cacheRden := s.cacheEn }
  if i.fetchValid then
    if i.killS2 || flushReq s i then { d with stateD := .idle }
    else if i.fetchException.valid then { d with valid := true, stateD := .idle }
    else if i.rtrn.isNone then { d with stateD := .read }
    else d
  else if i.killS2 || flushReq s i then { d with stateD := .killAtrans }
  else d

def fsmMiss : Fsm :=
  if (ifill i).isSome then
    if !(i.killS2 || flushReq s i) then
      { defaults s i with stateD := .idle, valid := true, cacheWren := !paddrIsNc c s i }
    else { defaults s i with stateD := .idle }
  else if i.killS2 || flushReq s i then { defaults s i with stateD := .killMiss }
  else defaults s i

def fsmKillAtrans : Fsm :=
  { defaults s i with fetchReq := true, stateD := if i.fetchValid then .idle else .killAtrans }

def fsmKillMiss : Fsm :=
  { defaults s i with stateD := if (ifill i).isSome then .idle else .killMiss }

/-- `p_fsm`. -/
def fsm : Fsm :=
  match s.state with
  | .flush => fsmFlush s i
  | .idle => fsmIdle s i
  | .read => fsmRead s i
  | .miss => fsmMiss c s i
  | .tlbMiss => fsmTlbMiss s i
  | .killAtrans => fsmKillAtrans s i
  | .killMiss => fsmKillMiss s i

/-- A request is accepted. -/
def accepts : Bool := (fsm c s i).ready && i.req

/-- `vaddr_d`. -/
def vaddrD : BitVec 64 := if accepts c s i then i.vaddr else s.vaddr

/-- `cl_offset_d`. -/
def clOffsetD : BitVec 4 :=
  if accepts c s i then offset i.vaddr
  else if c.axi64BitCompliant && paddrIsNc c s i && (fsm c s i).memDataReq then s.clOffset &&& 4
  else s.clOffset

/-- `vld_rdata`. -/
def vldRdata (j : Fin 4) : Bool := (s.tagRdata j).vld

/-- `repl_way`. -/
def replWay : Fin 4 := if any (fun j => !vldRdata s j) then lzc (fun j => !vldRdata s j) else i.rndWay

/-- `hit_idx`. -/
def hitIdx : Fin 4 := lzc (clHit s i)

/-- `dreq_o.data`. -/
def dataO : BitVec 32 :=
  (if s.cmpEn then s.clRdata (hitIdx s i) else (ifill i).getD 0).extractLsb' (8 * s.clOffset.toNat) 32

/-- `dreq_o.ex`. -/
def exO : Exn := i.fetchException

/-- `areq_o.fetch_vaddr`. -/
def fetchVaddr : BitVec 64 := s.vaddr >>> 2 <<< 2

/-- `vld_addr`. -/
def vldAddr : BitVec 8 :=
  if (fsm c s i).flushEn then s.flushCnt
  else
    match i.rtrn with
    | some (.invReq _ _ idx _) => idx.extractLsb' 4 8
    | _ => index (vaddrD c s i)

/-- `vld_req`. -/
def vldReq : Fin 4 → Bool :=
  if (fsm c s i).flushEn || (fsm c s i).cacheRden then fun _ => true
  else
    match i.rtrn with
    | some (.invReq vld all _ way) =>
      if all then fun _ => true else if vld then bin2oh ⟨way.toNat % 4, Nat.mod_lt _ (by decide)⟩ else s.replWayOh
    | _ => s.replWayOh

/-- `vld_we`. -/
def vldWe : Bool := (fsm c s i).cacheWren || invEn i || (fsm c s i).flushEn

/-- `cl_req`. -/
def clReq : Fin 4 → Bool :=
  if (fsm c s i).cacheRden then fun _ => true
  else if (fsm c s i).cacheWren then s.replWayOh
  else fun _ => false

/-- `icache_req_t`: the line, or the aligned word where the address is not cacheable. -/
def memPaddr : BitVec 56 :=
  clTagD s i ++
    (if paddrIsNc c s i then
      if c.axi64BitCompliant then s.vaddr.extractLsb' 3 9 ++ 0#3 else s.vaddr.extractLsb' 2 10 ++ 0#2
    else index s.vaddr ++ 0#4)

/-- The registers after an edge. -/
def next : Regs where
  state := (fsm c s i).stateD
  cacheEn := (fsm c s i).cacheEnD
  cmpEn := (fsm c s i).cmpEnD
  flush := (fsm c s i).flushD
  flushCnt := if flushDone s then 0 else if (fsm c s i).flushEn then s.flushCnt + 1 else s.flushCnt
  vaddr := vaddrD c s i
  clOffset := clOffsetD c s i
  clTag := clTagD s i
  replWayOh := if s.cmpEn then bin2oh (replWay s i) else s.replWayOh
  tags x j :=
    if vldReq c s i j && vldWe c s i && x == vldAddr c s i then ⟨(fsm c s i).cacheWren, s.clTag⟩ else s.tags x j
  lines x j :=
    if clReq c s i j && (fsm c s i).cacheWren && x == index (vaddrD c s i) then (ifill i).getD 0
    else s.lines x j
  tagRdata j := if vldReq c s i j then s.tags (vldAddr c s i) j else s.tagRdata j
  clRdata j := if clReq c s i j then s.lines (index (vaddrD c s i)) j else s.clRdata j

end Cycle

/-! ### What the control logic does -/

section Control

variable {c : Cfg} {s : Regs} {i : In}

theorem flushEn_iff : (fsm c s i).flushEn = true ↔ s.state = .flush := by
  cases hs : s.state <;>
    simp only [fsm, hs, fsmFlush, fsmIdle, fsmRead, fsmMiss, fsmTlbMiss, fsmKillAtrans, fsmKillMiss, defaults]
  all_goals (try split_ifs) <;> simp

/-- The cache is enabled only by the end of a flush. -/
theorem of_cacheEnD (h : (fsm c s i).cacheEnD = true) :
    s.state = .flush ∧ flushDone s = true ∨ s.cacheEn = true := by
  cases hs : s.state <;>
    simp only [fsm, hs, fsmFlush, fsmIdle, fsmRead, fsmMiss, fsmTlbMiss, fsmKillAtrans, fsmKillMiss, defaults] at h
  all_goals (try split_ifs at h) <;> simp_all

/-- A line is written only at the end of a miss. -/
theorem of_cacheWren (h : (fsm c s i).cacheWren = true) :
    s.state = .miss ∧ (ifill i).isSome = true ∧ paddrIsNc c s i = false ∧ (fsm c s i).cacheRden = false := by
  cases hs : s.state <;>
    simp only [fsm, hs, fsmFlush, fsmIdle, fsmRead, fsmMiss, fsmTlbMiss, fsmKillAtrans, fsmKillMiss, defaults] at h ⊢
  all_goals (try split_ifs at h ⊢) <;> simp_all

/-- A fetch is accepted only where no other waits. -/
theorem of_ready (h : (fsm c s i).ready = true) : s.state = .idle ∨ s.state = .read := by
  cases hs : s.state <;>
    simp only [fsm, hs, fsmFlush, fsmIdle, fsmRead, fsmMiss, fsmTlbMiss, fsmKillAtrans, fsmKillMiss, defaults] at h
  all_goals (try split_ifs at h) <;> simp_all

/-- The memory is asked only for what the cache does not have. -/
theorem of_memDataReq (h : (fsm c s i).memDataReq = true) :
    s.state = .read ∧ i.fetchValid = true ∧ i.fetchException.valid = false := by
  cases hs : s.state <;>
    simp only [fsm, hs, fsmFlush, fsmIdle, fsmRead, fsmMiss, fsmTlbMiss, fsmKillAtrans, fsmKillMiss, defaults] at h
  all_goals (try split_ifs at h) <;> simp_all

/-- The three sources of a response. -/
theorem of_valid (h : (fsm c s i).valid = true) :
    i.killS2 = false ∧ flushReq s i = false ∧
      (s.state = .read ∧ i.fetchValid = true ∧
          (i.fetchException.valid = false → any (clHit s i) = true ∧ s.cacheEn = true) ∨
        s.state = .tlbMiss ∧ i.fetchException.valid = true ∨ s.state = .miss ∧ (ifill i).isSome = true) := by
  cases hs : s.state <;>
    simp only [fsm, hs, fsmFlush, fsmIdle, fsmRead, fsmMiss, fsmTlbMiss, fsmKillAtrans, fsmKillMiss, defaults] at h
  all_goals (try split_ifs at h) <;> simp_all
  all_goals grind

/-- Only a state that shows its request asks for a translation. -/
theorem fetchReq_miss (h : s.state = .miss) : (fsm c s i).fetchReq = false := by
  simp only [fsm, h, fsmMiss, defaults]
  split_ifs <;> rfl

theorem of_stateD_flush (h : (fsm c s i).stateD = .flush) :
    s.state = .flush ∧ flushDone s = false ∨ s.state = .idle := by
  cases hs : s.state <;>
    simp only [fsm, hs, fsmFlush, fsmIdle, fsmRead, fsmMiss, fsmTlbMiss, fsmKillAtrans, fsmKillMiss, defaults] at h
  all_goals (try split_ifs at h) <;> simp_all

/-- What is looked up in the next cycle is read now, for the fetch that is accepted now or for the one
that has waited for its translation. -/
theorem of_stateD_read (h : (fsm c s i).stateD = .read) :
    i.rtrn = none ∧ (s.cacheEn = true → (fsm c s i).cmpEnD = true ∧ (fsm c s i).cacheRden = true) ∧
      (accepts c s i = true ∧ i.killS1 = false ∧ (s.state = .idle ∨ s.state = .read) ∨
        s.state = .tlbMiss ∧ i.killS2 = false ∧ accepts c s i = false ∧ (fsm c s i).valid = false) := by
  unfold accepts
  cases hs : s.state <;>
    simp only [fsm, hs, fsmFlush, fsmIdle, fsmRead, fsmMiss, fsmTlbMiss, fsmKillAtrans, fsmKillMiss, defaults] at h ⊢
  all_goals (try split_ifs at h ⊢) <;> simp_all

theorem of_stateD_tlbMiss (h : (fsm c s i).stateD = .tlbMiss) :
    (s.state = .read ∨ s.state = .tlbMiss) ∧ i.killS2 = false ∧ accepts c s i = false ∧
      (fsm c s i).valid = false := by
  unfold accepts
  cases hs : s.state <;>
    simp only [fsm, hs, fsmFlush, fsmIdle, fsmRead, fsmMiss, fsmTlbMiss, fsmKillAtrans, fsmKillMiss, defaults] at h ⊢
  all_goals (try split_ifs at h ⊢) <;> simp_all

theorem of_stateD_miss (h : (fsm c s i).stateD = .miss) :
    i.killS2 = false ∧ accepts c s i = false ∧ (fsm c s i).valid = false ∧ (fsm c s i).cmpEnD = false ∧
      (s.state = .read ∧ (fsm c s i).memDataReq = true ∧ i.ack = true ∨ s.state = .miss ∧ ifill i = none) := by
  unfold accepts
  cases hs : s.state <;>
    simp only [fsm, hs, fsmFlush, fsmIdle, fsmRead, fsmMiss, fsmTlbMiss, fsmKillAtrans, fsmKillMiss, defaults] at h ⊢
  all_goals (try split_ifs at h ⊢) <;> simp_all

end Control

end Icache
end Ariane

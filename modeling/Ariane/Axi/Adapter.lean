/-
# The AXI adapter of the caches

`src/cache_subsystem/wt_axi_adapter.sv` and the `axi_shim` it talks through. The two caches
share one AXI port: requests wait in a FIFO each, an arbiter picks one, and its tid waits in
a FIFO of its own for the response. Read bursts are put together in a shift register per
cache, write responses wait in a FIFO for a cycle in which the data cache gets nothing else.

Ids on the bus: bit 0 is set for the data cache, bit 1 for its atomics. A FIFO is a list, and
an empty one shows a default where the source shows what it held last. The arbiter with
`LockIn` keeps its choice in a register (`arbLock`).
-/
import Ariane.Dcache.Pkg
import Ariane.Lsu.Lsu

namespace Ariane
namespace Axi

open Lsu (AmoOp)

/-- The parameters of the adapter: the lines of the caches in words, the depth of the
FIFOs and the width of a tid. -/
structure Cfg where
  icacheWords : ℕ
  dcacheWords : ℕ
  reqFifoDepth : ℕ
  metaFifoDepth : ℕ
  tidWidth : ℕ
  [icacheWords_ne : NeZero icacheWords]
  [dcacheWords_ne : NeZero dcacheWords]
  [metaFifoDepth_ne : NeZero metaFifoDepth]

attribute [instance] Cfg.icacheWords_ne Cfg.dcacheWords_ne Cfg.metaFifoDepth_ne

/-- The adapter of `wt_cache_subsystem`. -/
def arianeCfg : Cfg := ⟨2, 2, 2, 4, 2⟩

variable {c : Cfg}

/-! ### Messages -/

abbrev Word := BitVec 64

/-- `dcache_out_t`. -/
inductive Rtype
  | storeReq | loadReq | atomicReq | intReq
deriving DecidableEq, Repr

/-- `dcache_in_t`. -/
inductive RtrnType
  | invReq | storeAck | loadAck | atomicAck | intAck
deriving DecidableEq, Repr

structure IcacheReq (c : Cfg) where
  paddr : BitVec 64
  nc : Bool
  tid : BitVec c.tidWidth
deriving DecidableEq

structure DcacheReq (c : Cfg) where
  rtype : Rtype
  size : BitVec 3
  paddr : BitVec 64
  data : Word
  tid : BitVec c.tidWidth
  amoOp : AmoOp
deriving DecidableEq

/-- The return messages; those of the instruction cache are all of the type
`ICACHE_IFILL_ACK`. -/
structure IcacheRtrn (c : Cfg) where
  tid : BitVec c.tidWidth
  data : Fin c.icacheWords → Word
deriving DecidableEq

structure DcacheRtrn (c : Cfg) where
  rtype : RtrnType
  invAll : Bool
  invIdx : BitVec 12
  tid : BitVec c.tidWidth
  data : Fin c.dcacheWords → Word
deriving DecidableEq

/-! ### `axi_shim` -/

inductive WrState
  | idle | waitAwReady | waitLastWReady | waitLastWReadyAwReady | waitAwReadyBurst
deriving DecidableEq, Repr

structure Shim where
  wrState : WrState
  wrCnt : ℕ
deriving DecidableEq, Repr

structure ShimOut where
  wrStateD : WrState
  awValid : Bool
  wValid : Bool
  wrGnt : Bool
  wrCntEn : Bool
  wrCntClr : Bool
deriving DecidableEq, Repr

/-- `p_axi_write_fsm`, for a request of `blen + 1` words. -/
def Shim.write (s : Shim) (wrReq : Bool) (blen : ℕ) (awReady wReady : Bool) : ShimOut :=
  let o : ShimOut := ⟨s.wrState, false, false, false, false, false⟩
  let done : Bool := s.wrCnt == blen
  match s.wrState with
  | .idle =>
    if !wrReq then o
    else if blen = 0 then
      { o with
        awValid := true, wValid := true, wrCntClr := true, wrGnt := awReady && wReady
        wrStateD :=
          if !awReady && wReady then .waitAwReady else if awReady && !wReady then .waitLastWReady else .idle }
    else
      { o with
        awValid := true, wValid := true, wrCntEn := wReady
        wrStateD := if awReady then .waitLastWReady else if wReady then .waitLastWReadyAwReady else .idle }
  | .waitAwReady | .waitAwReadyBurst =>
    { o with awValid := true, wrGnt := awReady, wrStateD := if awReady then .idle else s.wrState }
  | .waitLastWReadyAwReady =>
    let o := { o with awValid := true, wValid := true }
    match awReady, wReady with
    | false, true => if done then { o with wrStateD := .waitAwReadyBurst, wrCntClr := true } else { o with wrCntEn := true }
    | true, false => { o with wrStateD := .waitLastWReady }
    | true, true =>
      if done then { o with wrStateD := .idle, wrGnt := true, wrCntClr := true }
      else { o with wrStateD := .waitLastWReady, wrCntEn := true }
    | false, false => o
  | .waitLastWReady =>
    let o := { o with wValid := true }
    if !wReady then o
    else if done then { o with wrStateD := .idle, wrCntClr := true, wrGnt := true }
    else { o with wrCntEn := true }

def Shim.next (s : Shim) (o : ShimOut) : Shim :=
  ⟨o.wrStateD, if o.wrCntClr then 0 else if o.wrCntEn then s.wrCnt + 1 else s.wrCnt⟩

/-! ### Registers -/

structure Regs (c : Cfg) where
  icacheFifo : List (IcacheReq c)
  dcacheFifo : List (DcacheReq c)
  arbLock : Option Bool
  rdIcacheId : List (BitVec c.tidWidth)
  rdDcacheId : List (BitVec c.tidWidth)
  wrDcacheId : List (BitVec c.tidWidth)
  /-- The write responses, with `wr_exokay` and their id. -/
  bFifo : List (Bool × BitVec 4)
  icacheFirst : Bool
  dcacheFirst : Bool
  icacheShift : Fin c.icacheWords → Word
  dcacheShift : Fin c.dcacheWords → Word
  icacheVld : Bool
  icacheTid : BitVec c.tidWidth
  dcacheVld : Bool
  dcacheTid : BitVec c.tidWidth
  dcacheType : RtrnType
  dcacheInvAll : Bool
  dcacheInvIdx : BitVec 12
  amoOff : Fin 8
  amoGenR : Bool
  shim : Shim

def reset : Regs c where
  icacheFifo := []
  dcacheFifo := []
  arbLock := none
  rdIcacheId := []
  rdDcacheId := []
  wrDcacheId := []
  bFifo := []
  icacheFirst := true
  dcacheFirst := true
  icacheShift _ := 0
  dcacheShift _ := 0
  icacheVld := false
  icacheTid := 0
  dcacheVld := false
  dcacheTid := 0
  dcacheType := .loadAck
  dcacheInvAll := false
  dcacheInvIdx := 0
  amoOff := 0
  amoGenR := false
  shim := ⟨.idle, 0⟩

structure In (c : Cfg) where
  icacheReq : Bool
  icacheData : IcacheReq c
  dcacheReq : Bool
  dcacheData : DcacheReq c
  /-- The choice of the arbiter between two requests. -/
  pref : Bool
  arReady : Bool
  awReady : Bool
  wReady : Bool
  rValid : Bool
  rId : BitVec 4
  rData : Word
  rLast : Bool
  bValid : Bool
  bId : BitVec 4
  bExokay : Bool

/-! ### Requests -/

section Request

variable (s : Regs c) (i : In c)

def icacheAck : Bool := i.icacheReq && decide (s.icacheFifo.length < c.reqFifoDepth)
def dcacheAck : Bool := i.dcacheReq && decide (s.dcacheFifo.length < c.reqFifoDepth)

def arbReqI : Bool := !s.icacheFifo.isEmpty && decide (s.rdIcacheId.length < c.metaFifoDepth)

def arbReqD : Bool :=
  !s.dcacheFifo.isEmpty && decide (s.wrDcacheId.length < c.metaFifoDepth) &&
    decide (s.rdDcacheId.length < c.metaFifoDepth)

def arbReq : Bool := arbReqI s || arbReqD s

/-- `arb_idx`: the data cache is served. -/
def arbIdx : Bool := s.arbLock.getD (!arbReqI s || arbReqD s && i.pref)

def icacheData : IcacheReq c := s.icacheFifo.headD ⟨0, false, 0⟩
def dcacheData : DcacheReq c := s.dcacheFifo.headD ⟨.loadReq, 0, 0, 0, 0, .none⟩

/-- The request that is decoded is one of the data cache, of the type. -/
def serves (r : Rtype) : Bool := arbReq s && arbIdx s i && (dcacheData s).rtype == r

def servesAmo (op : AmoOp) : Bool := serves s i .atomicReq && (dcacheData s).amoOp == op

def axiRdReq : Bool := arbReq s && !arbIdx s i || serves s i .loadReq || servesAmo s i .lr

def axiWrReq : Bool := serves s i .storeReq || serves s i .atomicReq && !servesAmo s i .lr

/-- `axi_rd_id_in` and `axi_wr_id_in`. -/
def axiRdId : BitVec 4 := if servesAmo s i .lr then 3 else if arbIdx s i then 1 else 0
def axiWrId : BitVec 4 := if serves s i .atomicReq then 3 else if arbIdx s i then 1 else 0

/-- The words of the burst, less one. -/
def axiRdBlen : ℕ :=
  if arbIdx s i then (if (dcacheData s).size.getLsbD 2 then c.dcacheWords - 1 else 0)
  else if (icacheData s).nc then 0 else c.icacheWords - 1

def axiRdAddr : BitVec 64 := if arbIdx s i then (dcacheData s).paddr else (icacheData s).paddr
def axiRdSize : BitVec 2 := if arbIdx s i then (dcacheData s).size.extractLsb' 0 2 else 3
def axiRdLock : Bool := servesAmo s i .lr

def axiWrAddr : BitVec 64 := (dcacheData s).paddr
def axiWrSize : BitVec 2 := (dcacheData s).size.extractLsb' 0 2
def axiWrLock : Bool := servesAmo s i .sc

/-- An atomic clear needs the mask of the bits that stay. -/
def axiWrData : Word := if servesAmo s i .and then ~~~(dcacheData s).data else (dcacheData s).data

def axiWrBe : Dcache.Mask :=
  if axiWrReq s i then
    Dcache.toByteEnable8 ((dcacheData s).paddr.extractLsb' 0 3).toFin ((dcacheData s).size.extractLsb' 0 2)
  else fun _ => false

/-- `axi_wr_atop`: `ATOP_ATOMICLOAD`, little endian. -/
def atop : AmoOp → BitVec 6
  | .none | .lr | .sc => 0
  | .swap => 0b110000
  | .add => 0b100000
  | .and => 0b100001
  | .or => 0b100011
  | .xor => 0b100010
  | .max => 0b100100
  | .maxu => 0b100110
  | .min => 0b100101
  | .minu => 0b100111

def axiWrAtop : BitVec 6 := if serves s i .atomicReq then atop (dcacheData s).amoOp else 0

def shimOut : ShimOut := s.shim.write (axiWrReq s i) 0 i.awReady i.wReady

def axiRdGnt : Bool := axiRdReq s i && i.arReady
def axiWrGnt : Bool := (shimOut s i).wrGnt
def arbGnt : Bool := axiRdGnt s i || axiWrGnt s i

def arbAckI : Bool := arbGnt s i && !arbIdx s i
def arbAckD : Bool := arbGnt s i && arbIdx s i

/-- An atomic sends the cache an invalidation when it goes out. -/
def invalidate : Bool := serves s i .atomicReq && arbGnt s i

/-- Where the result of a store-conditional goes. -/
def scOff (r : DcacheReq c) : Fin 8 :=
  let off := (r.paddr.extractLsb' 0 3).toFin
  match r.size.extractLsb' 0 2 with
  | 0 => off
  | 1 => Fin.ofNat 8 (off.val / 2 * 2)
  | 2 => Fin.ofNat 8 (off.val / 4 * 4)
  | _ => 0

def amoOffD : Fin 8 := if servesAmo s i .sc then scOff (dcacheData s) else 0

def amoGenRD : Bool := if serves s i .atomicReq then !servesAmo s i .sc else s.amoGenR

end Request

/-! ### Responses -/

section Response

variable (s : Regs c) (i : In c)

/-- `axi_wr_rdy` and `axi_rd_rdy`. -/
def bReady : Bool := decide (s.bFifo.length < c.metaFifoDepth)
def rReady : Bool := !invalidate s i

/-- The write responses of this cycle, the new one at the end: the FIFO falls through. -/
def bWaiting : List (Bool × BitVec 4) := s.bFifo ++ if i.bValid && bReady s then [(i.bExokay, i.bId)] else []

def icacheRdEn : Bool := i.rValid && i.rId == 0 && rReady s i
def icacheVldD : Bool := icacheRdEn s i && i.rLast

/-- What `p_axi_rtrn_decode` does for the data cache. -/
structure Rtrn where
  rtype : RtrnType := .loadAck
  vld : Bool := false
  rdEn : Bool := false
  rdPop : Bool := false
  wrPop : Bool := false
  bPop : Bool := false
  scRtrn : Bool := false
deriving DecidableEq

def rtrn : Rtrn :=
  if invalidate s i then { rtype := .invReq, vld := true }
  else if i.rValid && i.rId.getLsbD 0 && rReady s i then
    if i.rId.getLsbD 1 then
      { rtype := .atomicAck, vld := i.rLast, rdEn := true
        wrPop := !s.wrDcacheId.isEmpty && i.rLast, rdPop := s.wrDcacheId.isEmpty && i.rLast }
    else { vld := i.rLast, rdEn := true, rdPop := i.rLast }
  else
    match bWaiting s i with
    | [] => {}
    | (_, id) :: _ =>
      if id.getLsbD 1 then
        -- an atomic with an R beat has returned with it, or will
        if s.amoGenR then { rtype := .atomicAck, bPop := true }
        else { rtype := .atomicAck, vld := true, wrPop := true, bPop := true, scRtrn := true }
      else { rtype := .storeAck, vld := true, wrPop := true, bPop := true }

/-- `wr_exokay`. -/
def wrExokay : Bool := ((bWaiting s i).headD (false, 0)).1

/-- A read shift register with a new word: a first word goes to both ends. -/
def shiftIn {n : ℕ} [NeZero n] (q : Fin n → Word) (first : Bool) (d : Word) : Fin n → Word := fun k =>
  if first && k == 0 then d else if h : k.val + 1 < n then q ⟨k.val + 1, h⟩ else d

/-- The result of a store-conditional, a bit at its offset. -/
def scWord (off : Fin 8) (exokay : Bool) : Word := if exokay then 0 else 1 <<< (off.val * 8)

def dcacheShiftD : Fin c.dcacheWords → Word :=
  if (rtrn s i).rdEn then shiftIn s.dcacheShift s.dcacheFirst i.rData
  else if (rtrn s i).scRtrn then Function.update s.dcacheShift 0 (scWord s.amoOff (wrExokay s i))
  else s.dcacheShift

/-- `dcache_rtrn_tid_d`. -/
def dcacheTidD : BitVec c.tidWidth :=
  if (rtrn s i).wrPop then s.wrDcacheId.headD 0 else s.rdDcacheId.headD 0

end Response

/-! ### One clock cycle -/

/-- A FIFO that may be read and written in one cycle. -/
def fifo {α : Type} (q : List α) (pop : Bool) (push : Option α) (depth : ℕ) : List α :=
  (if pop then q.tail else q) ++ if q.length < depth then push.toList else []

def next (s : Regs c) (i : In c) : Regs c where
  icacheFifo := fifo s.icacheFifo (arbAckI s i) (if icacheAck s i then some i.icacheData else none) c.reqFifoDepth
  dcacheFifo := fifo s.dcacheFifo (arbAckD s i) (if dcacheAck s i then some i.dcacheData else none) c.reqFifoDepth
  arbLock := if (s.arbLock.isSome || arbReq s) && !arbGnt s i then some (arbIdx s i) else none
  rdIcacheId :=
    fifo s.rdIcacheId (icacheVldD s i) (if arbAckI s i && axiRdGnt s i then some (icacheData s).tid else none) c.metaFifoDepth
  rdDcacheId :=
    fifo s.rdDcacheId (rtrn s i).rdPop (if arbAckD s i && axiRdGnt s i then some (dcacheData s).tid else none) c.metaFifoDepth
  wrDcacheId :=
    fifo s.wrDcacheId (rtrn s i).wrPop (if arbAckD s i && axiWrGnt s i then some (dcacheData s).tid else none) c.metaFifoDepth
  bFifo := if (rtrn s i).bPop then (bWaiting s i).tail else bWaiting s i
  icacheFirst := if icacheRdEn s i then i.rLast else s.icacheFirst
  dcacheFirst := if (rtrn s i).rdEn then i.rLast else s.dcacheFirst
  icacheShift := if icacheRdEn s i then shiftIn s.icacheShift s.icacheFirst i.rData else s.icacheShift
  dcacheShift := dcacheShiftD s i
  icacheVld := icacheVldD s i
  icacheTid := s.rdIcacheId.headD 0
  dcacheVld := (rtrn s i).vld
  dcacheTid := dcacheTidD s i
  dcacheType := (rtrn s i).rtype
  dcacheInvAll := invalidate s i
  dcacheInvIdx := if invalidate s i then (dcacheData s).paddr.extractLsb' 0 12 else 0
  amoOff := amoOffD s i
  amoGenR := amoGenRD s i
  shim := s.shim.next (shimOut s i)

/-- The messages to the caches, out of registers. -/
def icacheRtrnO (s : Regs c) : Option (IcacheRtrn c) :=
  if s.icacheVld then some ⟨s.icacheTid, s.icacheShift⟩ else none

def dcacheRtrnO (s : Regs c) : Option (DcacheRtrn c) :=
  if s.dcacheVld then some ⟨s.dcacheType, s.dcacheInvAll, s.dcacheInvIdx, s.dcacheTid, s.dcacheShift⟩ else none

end Axi
end Ariane

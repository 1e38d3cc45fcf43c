/-
# The load-store unit

`src/load_store_unit.sv` with the bypass FIFO in it, `src/load_unit.sv`, `src/store_unit.sv`
and `src/amo_buffer.sv`, around the store buffer. The request the FIFO presents goes to the
load unit or to the store unit, both translate through the MMU, and the load unit asks the
store buffer for stores to the same word of a page.

The answers of the MMU (`dtlb_hit`, and the address and the exception for the request of
the cycle before) and those of the data cache are inputs. Left out are the data path of a
load behind the cache and the misalignment check, whose outcome is part of the exception.
-/
import Ariane.Core.StoreBuffer
import Ariane.Pkg

namespace Ariane
namespace Lsu

open StoreBuffer (word)

/-! ### The bypass FIFO -/

/-- `lsu_ctrl_t`. -/
structure LsuCtrl where
  valid : Bool
  vaddr : BitVec 64
  data : BitVec 64
  be : BitVec 8
  fu : Fu
  operator : FuOp
  transId : BitVec 3
deriving DecidableEq, Repr

def LsuCtrl.zero : LsuCtrl := ⟨false, 0, 0, 0, .none, .add, 0⟩

/-- `lsu_bypass`. -/
structure Bypass where
  mem : BitVec 1 → LsuCtrl
  readPtr : BitVec 1
  writePtr : BitVec 1
  statusCnt : BitVec 2

namespace Bypass

def reset : Bypass := ⟨fun _ => LsuCtrl.zero, 0, 0, 0⟩

variable (b : Bypass)

def empty : Bool := b.statusCnt == 0

/-- `ready_o`. -/
def readyO : Bool := b.empty

/-- `lsu_ctrl_o`. -/
def lsuCtrlO (req : LsuCtrl) : LsuCtrl := if b.empty then req else b.mem b.readPtr

def push (req : LsuCtrl) : Bypass where
  mem := Function.update b.mem b.writePtr req
  readPtr := b.readPtr
  writePtr := b.writePtr + 1
  statusCnt := b.statusCnt + 1

/-- The slot `r` is invalid from now on. -/
def pop (r : BitVec 1) : Bypass where
  mem := Function.update b.mem r { b.mem r with valid := false }
  readPtr := b.readPtr + 1
  writePtr := b.writePtr
  statusCnt := b.statusCnt - 1

def next (flush : Bool) (req : LsuCtrl) (popLd popSt : Bool) : Bypass :=
  let n := if req.valid then b.push req else b
  let n := if popLd then n.pop b.readPtr else n
  let n := if popSt then n.pop b.readPtr else n
  let n := if popSt && popLd then { n with mem := fun _ => LsuCtrl.zero } else n
  if flush then reset else n

end Bypass

/-! ### The load unit -/

inductive LoadState
  | idle | waitGnt | sendTag | waitPageOffset | abortTransaction | waitTranslation | waitFlush
deriving DecidableEq, Repr

/-- `load_data_q`. -/
structure LoadData where
  transId : BitVec 3
  addressOffset : BitVec 3
  operator : FuOp
deriving DecidableEq, Repr

structure LoadRegs where
  state : LoadState
  loadData : LoadData
deriving DecidableEq, Repr

structure LoadIn where
  flush : Bool
  valid : Bool
  ctrl : LsuCtrl
  ex : Exn
  dtlbHit : Bool
  pageOffsetMatches : Bool
  dataGnt : Bool
  dataRvalid : Bool

/-- The outputs of `load_control`. -/
structure LoadOut where
  stateD : LoadState
  translationReq : Bool
  dataReq : Bool
  killReq : Bool
  tagValid : Bool
  popLd : Bool
deriving DecidableEq, Repr

namespace Load

variable (s : LoadRegs) (i : LoadIn)

def defaults : LoadOut := ⟨s.state, false, false, false, false, false⟩

/-- A request to the cache is up: the tag follows in the next cycle if the grant comes
with a hit in the DTLB. -/
def request (o : LoadOut) : LoadOut :=
  let o := { o with dataReq := true }
  if i.dataGnt then
    if i.dtlbHit then { o with stateD := .sendTag, popLd := true }
    else { o with stateD := .abortTransaction }
  else { o with stateD := .waitGnt }

/-- A new load: it waits for stores to the same word. -/
def newLoad (o : LoadOut) : LoadOut :=
  if i.valid then
    let o := { o with translationReq := true }
    if i.pageOffsetMatches then { o with stateD := .waitPageOffset } else request i o
  else o

/-- The cases of `load_control`. -/
def stateCase : LoadOut :=
  let o := defaults s
  match s.state with
  | .idle => newLoad i o
  | .waitPageOffset => if i.pageOffsetMatches then o else { o with stateD := .waitGnt }
  | .abortTransaction => { o with killReq := true, tagValid := true, stateD := .waitTranslation }
  | .waitTranslation =>
    let o := { o with translationReq := true }
    if i.dtlbHit then { o with stateD := .waitGnt } else o
  | .waitGnt => request i { o with translationReq := true }
  | .sendTag =>
    let o := newLoad i { o with tagValid := true, stateD := .idle }
    if i.ex.valid then { o with killReq := true } else o
  | .waitFlush => { o with killReq := true, tagValid := true, stateD := .idle }

/-- `load_control`. -/
def control : LoadOut :=
  let o := stateCase s i
  let o :=
    if i.ex.valid && i.valid then
      { o with stateD := .idle, popLd := if i.dataRvalid then o.popLd else true }
    else o
  if i.flush then { o with stateD := .waitFlush } else o

/-- `load_data_d`. -/
def loadDataD : LoadData :=
  if (control s i).popLd && !i.ex.valid then
    ⟨i.ctrl.transId, i.ctrl.vaddr.extractLsb' 0 3, i.ctrl.operator⟩
  else s.loadData

def next : LoadRegs := ⟨(control s i).stateD, loadDataD s i⟩

/-- `rvalid_output`: `valid_o` and `trans_id_o`. -/
def rvalidOutput : Bool × BitVec 3 :=
  let valid := i.dataRvalid && s.state != .waitFlush && (!(control s i).killReq || i.ex.valid)
  if i.valid && i.ex.valid && !i.dataRvalid then (true, i.ctrl.transId)
  else if s.state = .waitTranslation then (false, s.loadData.transId)
  else (valid, s.loadData.transId)

end Load

/-! ### The store unit -/

/-- `amo_t`, as far as the store unit makes it. -/
inductive AmoOp
  | none | lr | sc | swap | add | and | or | xor | max | maxu | min | minu
deriving DecidableEq, Repr

/-- `amo_op_d`. -/
def amoOpOf : FuOp → AmoOp
  | .amoLrw | .amoLrd => .lr
  | .amoScw | .amoScd => .sc
  | .amoSwapw | .amoSwapd => .swap
  | .amoAddw | .amoAddd => .add
  | .amoAndw | .amoAndd => .and
  | .amoOrw | .amoOrd => .or
  | .amoXorw | .amoXord => .xor
  | .amoMaxw | .amoMaxd => .max
  | .amoMaxwu | .amoMaxdu => .maxu
  | .amoMinw | .amoMind => .min
  | .amoMinwu | .amoMindu => .minu
  | _ => .none

theorem amoOpOf_eq_none (op : FuOp) : amoOpOf op = .none ↔ op.isAmo = false := by
  cases op <;> decide

/-- `data_align`. -/
def dataAlign (addr : BitVec 3) (data : BitVec 64) : BitVec 64 := data.rotateLeft (8 * addr.toNat)

/-- `extract_transfer_size`. -/
def extractTransferSize : FuOp → BitVec 2
  | .lw | .lwu | .sw | .flw | .fsw | .amoLrw | .amoScw | .amoSwapw | .amoAddw | .amoAndw | .amoOrw
  | .amoXorw | .amoMaxw | .amoMaxwu | .amoMinw | .amoMinwu => 2
  | .lh | .lhu | .sh | .flh | .fsh => 1
  | .lb | .lbu | .sb | .flb | .fsb => 0
  | _ => 3

inductive StoreState
  | idle | validStore | waitTranslation | waitStoreReady
deriving DecidableEq, Repr

structure StoreRegs where
  state : StoreState
  stData : BitVec 64
  stBe : BitVec 8
  stDataSize : BitVec 2
  amoOp : AmoOp
  transId : BitVec 3
deriving DecidableEq, Repr

structure StoreIn where
  flush : Bool
  valid : Bool
  ctrl : LsuCtrl
  ex : Exn
  dtlbHit : Bool
  stReady : Bool

/-- The outputs of `store_control`. -/
structure StoreOut where
  stateD : StoreState
  translationReq : Bool
  validO : Bool
  stValid : Bool
  stValidWithoutFlush : Bool
  popSt : Bool
deriving DecidableEq, Repr

namespace Store

variable (s : StoreRegs) (i : StoreIn)

/-- A new store is taken if it is translated and there is room for it. -/
def newStore (o : StoreOut) : StoreOut :=
  let o := { o with stateD := .validStore, translationReq := true, popSt := true }
  let o := if i.dtlbHit then o else { o with stateD := .waitTranslation, popSt := false }
  if i.stReady then o else { o with stateD := .waitStoreReady, popSt := false }

/-- The cases of `store_control`. -/
def stateCase : StoreOut :=
  let o : StoreOut := ⟨s.state, false, false, false, false, false⟩
  match s.state with
  | .idle => if i.valid then newStore i o else o
  | .validStore =>
    let o := { o with validO := true, stValid := !i.flush, stValidWithoutFlush := true }
    if i.valid && !i.ctrl.operator.isAmo then newStore i o else { o with stateD := .idle }
  | .waitStoreReady =>
    let o := { o with translationReq := true }
    if i.stReady && i.dtlbHit then { o with stateD := .idle } else o
  | .waitTranslation =>
    let o := { o with translationReq := true }
    if i.dtlbHit then { o with stateD := .idle } else o

/-- `store_control`. -/
def control : StoreOut :=
  let o := stateCase s i
  let o :=
    if i.ex.valid && s.state != .idle then
      { o with popSt := true, stValid := false, stateD := .idle, validO := true }
    else o
  if i.flush then { o with stateD := .idle } else o

def next : StoreRegs where
  state := (control s i).stateD
  stData :=
    if i.ctrl.operator.isAmo then i.ctrl.data else dataAlign (i.ctrl.vaddr.extractLsb' 0 3) i.ctrl.data
  stBe := i.ctrl.be
  stDataSize := extractTransferSize i.ctrl.operator
  amoOp := amoOpOf i.ctrl.operator
  transId := i.ctrl.transId

end Store

/-! ### The AMO buffer -/

/-- `amo_op_t`. -/
structure AmoData where
  op : AmoOp
  paddr : BitVec 64
  data : BitVec 64
  size : BitVec 2
deriving DecidableEq, Repr

/-- `amo_buffer`: a FIFO of depth 1. -/
structure AmoBuffer where
  full : Bool
  mem : AmoData
deriving DecidableEq, Repr

/-- `amo_req_t`. -/
structure AmoReq where
  req : Bool
  amoOp : AmoOp
  size : BitVec 2
  operandA : BitVec 64
  operandB : BitVec 64
deriving DecidableEq, Repr

def AmoBuffer.reset : AmoBuffer := ⟨false, ⟨.none, 0, 0, 0⟩⟩

/-- It is flushed only if no AMO commits. -/
def AmoBuffer.next (b : AmoBuffer) (flush validCommit : Bool) (push : Option AmoData) (ack : Bool) :
    AmoBuffer :=
  let n : AmoBuffer :=
    match push with
    | some d => if b.full then b else ⟨true, d⟩
    | none => b
  let n := if ack && b.full then { n with full := false } else n
  if flush && !validCommit then { n with full := false } else n

/-! ### The unit -/

variable {w : ℕ}

structure Regs (w : ℕ) where
  bypass : Bypass
  ld : LoadRegs
  st : StoreRegs
  sb : StoreBuffer.Regs w
  amo : AmoBuffer
  /-- `lsu_vaddr_q` of the MMU. -/
  mmuVaddr : BitVec 64

def reset : Regs w where
  bypass := Bypass.reset
  ld := ⟨.idle, ⟨0, 0, .add⟩⟩
  st := ⟨.idle, 0, 0, 0, .none, 0⟩
  sb := StoreBuffer.reset
  amo := AmoBuffer.reset
  mmuVaddr := 0

/-- `req` is the request of the issue stage, `dtlbHit`, `paddr` and `ex` are the answers of
the MMU, and the rest are the ports of the cache. -/
structure In where
  flush : Bool
  commit : Bool
  amoValidCommit : Bool
  amoResp : AmoResp
  req : LsuCtrl
  dtlbHit : Bool
  paddr : BitVec 64
  ex : Exn
  ldGnt : Bool
  ldRvalid : Bool
  stGnt : Bool

variable (s : Regs w) (i : In)

/-- `lsu_ctrl`. -/
def ctrl : LsuCtrl := s.bypass.lsuCtrlO i.req

def ldValid : Bool := (ctrl s i).fu == .load && (ctrl s i).valid
def stValid : Bool := (ctrl s i).fu == .store && (ctrl s i).valid

/-- `ready_o` of the store buffer. -/
def sbReady : Bool := StoreBuffer.readyO s.sb ⟨i.flush, i.commit, false, ⟨0, 0, 0, 0⟩, i.stGnt⟩

def storeIn : StoreIn := ⟨i.flush, stValid s i, ctrl s i, i.ex, i.dtlbHit, sbReady s i && !s.amo.full⟩

def storeOut : StoreOut := Store.control s.st (storeIn s i)

/-- `store_buffer_valid` and `amo_buffer_valid`. -/
def sbValid : Bool := (storeOut s i).stValid && s.st.amoOp == .none
def amoValid : Bool := (storeOut s i).stValid && s.st.amoOp != .none

def sbIn : StoreBuffer.In :=
  ⟨i.flush, i.commit, sbValid s i, ⟨i.paddr, s.st.stData, s.st.stBe, s.st.stDataSize⟩, i.stGnt⟩

/-- `page_offset_matches`. -/
def pageOffsetMatches : Bool :=
  StoreBuffer.pageOffsetMatchesO s.sb (storeOut s i).stValidWithoutFlush i.paddr (ctrl s i).vaddr

def loadIn : LoadIn :=
  ⟨i.flush, ldValid s i, ctrl s i, i.ex, i.dtlbHit, pageOffsetMatches s i, i.ldGnt, i.ldRvalid⟩

def loadOut : LoadOut := Load.control s.ld (loadIn s i)

/-- `mmu_vaddr`. -/
def mmuVaddrD : BitVec 64 :=
  match (ctrl s i).fu with
  | .load | .store => (ctrl s i).vaddr
  | _ => 0

/-- `amo_req_o`. -/
def amoReqO : AmoReq where
  req := StoreBuffer.noStPendingO s.sb && i.amoValidCommit && s.amo.full
  amoOp := s.amo.mem.op
  size := s.amo.mem.size
  operandA := s.amo.mem.paddr
  operandB := s.amo.mem.data

def next : Regs w where
  bypass := s.bypass.next i.flush i.req (loadOut s i).popLd (storeOut s i).popSt
  ld := Load.next s.ld (loadIn s i)
  st := Store.next s.st (storeIn s i)
  sb := StoreBuffer.next s.sb (sbIn s i)
  amo := s.amo.next i.flush i.amoValidCommit
    (if amoValid s i then some ⟨s.st.amoOp, i.paddr, s.st.stData, s.st.stDataSize⟩ else none)
    i.amoResp.ack
  mmuVaddr := mmuVaddrD s i

end Lsu
end Ariane

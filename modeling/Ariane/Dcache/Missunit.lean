/-
# The miss unit of the data cache

`src/cache_subsystem/wt_dcache_missunit.sv`: the only way to memory. One read may be
outstanding, its miss status holding register (`Mshr`) tells where its line goes; stores pass
while it is, unless they are to the same line. The unit writes the lines that come in,
invalidates, and clears one set in a cycle in the state `FLUSH`, in which it starts. Atomics go
out when the write buffer is empty and no read is outstanding.

The way the replacement picks at random (`rndWay`) and the counter of the back-off after a
failed store-conditional (`scBackoffOver`) are inputs; the fields of the register nothing
reads are left out.
-/
import Ariane.Dcache.Wbuffer
import Ariane.Axi.Adapter

namespace Ariane
namespace Dcache

open Axi (Rtype RtrnType)

variable {g : Geom}

/-! ### Messages -/

/-- `cache_inval_t`. -/
structure Inval (g : Geom) where
  vld : Bool
  all : Bool
  idx : BitVec g.clIdxWidth
  way : Fin g.setAssoc

/-- `dcache_req_t`. -/
structure MemReq (g : Geom) where
  rtype : Rtype
  size : BitVec 3
  way : Fin g.setAssoc
  paddr : Addr g
  data : Word
  nc : Bool
  tid : Fin g.maxTx
  amoOp : Lsu.AmoOp

/-- `dcache_rtrn_t`. -/
structure MemRtrn (g : Geom) where
  rtype : RtrnType
  data : LineData g
  inv : Inval g
  tid : Fin g.maxTx

/-- `amo_req_t`. -/
structure AmoReq (g : Geom) where
  req : Bool
  amoOp : Lsu.AmoOp
  size : BitVec 2
  operandA : Addr g
  operandB : Word

/-- `RdAmoTxId`, the id of reads and atomics. -/
def rdAmoTxId : Fin g.maxTx := Fin.ofNat g.maxTx 1

namespace Missunit

/-! ### Registers -/

inductive State
  | idle | drain | amo | flush | storeWait | loadWait | amoWait
deriving DecidableEq, Repr

/-- `mshr_t`. -/
structure Mshr (g : Geom) where
  paddr : Addr g
  nc : Bool
  replWay : Fin g.setAssoc
  missPortIdx : Fin 3

structure Regs (g : Geom) where
  state : State
  cnt : BitVec g.clIdxWidth
  enable : Bool
  flushAck : Bool
  mshrVld : Bool
  mshrVldQ1 : Bool
  mshr : Mshr g
  rdrdCollision : Fin 3 → Bool
  missReqMasked : Fin 3 → Bool
  amoReq : Bool
  storesInflight : ℕ

def reset : Regs g where
  state := .flush
  cnt := 0
  enable := false
  flushAck := false
  mshrVld := false
  mshrVldQ1 := false
  mshr := ⟨⟨⟨⟨0, 0⟩, 0⟩, 0⟩, false, 0, 0⟩
  rdrdCollision _ := false
  missReqMasked _ := false
  amoReq := false
  storesInflight := 0

/-- What a port asks of the miss unit. -/
structure Port (g : Geom) where
  req : Bool
  nc : Bool
  we : Bool
  wdata : Word
  paddr : Addr g
  vldBits : Ways g
  size : BitVec 3
  id : Fin g.maxTx

structure In (g : Geom) where
  enable : Bool
  flush : Bool
  wbufferEmpty : Bool
  amo : AmoReq g
  port : Fin 3 → Port g
  txPaddr : Fin g.maxTx → Wtag g
  txVld : Fin g.maxTx → Bool
  rtrnVld : Bool
  rtrn : MemRtrn g
  dataAck : Bool
  rndWay : Fin g.setAssoc
  scBackoffOver : Bool

section Comb

variable (s : Regs g) (i : In g)

/-! ### Arbitration -/

def lockReqs : Bool := s.state == .storeWait || s.state == .loadWait
def maskReads : Bool := s.mshrVld || s.state == .drain

def missReqMaskedD : Fin 3 → Bool :=
  if lockReqs s then s.missReqMasked
  else if maskReads s then fun k => (i.port k).we && (i.port k).req
  else fun k => (i.port k).req

def missPortIdx : Fin 3 := lzc (missReqMaskedD s i)

/-- The port that is served. -/
def served : Port g := i.port (missPortIdx s i)

/-! ### Responses -/

def loadAck : Bool := i.rtrnVld && i.rtrn.rtype == .loadAck && s.mshrVld
def storeAck : Bool := i.rtrnVld && i.rtrn.rtype == .storeAck && decide (s.storesInflight ≠ 0)
def amoAck : Bool := i.rtrnVld && i.rtrn.rtype == .atomicAck && s.amoReq

def invVld : Bool := i.rtrnVld && i.rtrn.rtype == .invReq && (i.rtrn.inv.vld || i.rtrn.inv.all)
def invVldAll : Bool := i.rtrnVld && i.rtrn.rtype == .invReq && i.rtrn.inv.all

/-- `miss_rtrn_vld_o`. -/
def missRtrnVldO (k : Fin 3) : Bool :=
  loadAck s i && k == s.mshr.missPortIdx || storeAck s i && k == 2

/-- `amo_rtrn_mux`: the bus of 64 bits returns one word. -/
def amoRtrnMux : Word := i.rtrn.data (if g.axi64BitCompliant then 0 else i.amo.operandA.word)

/-- `amo_resp_o.result`: words are sign extended. -/
def amoResult : Word :=
  if i.amo.size = 2 then
    let half : Fin 8 := if 4 ≤ i.amo.operandA.byte.val then 4 else 0
    fun k =>
      if k.val < 4 then amoRtrnMux i (half + k)
      else if (amoRtrnMux i (half + 3)).msb then 0xff else 0
  else amoRtrnMux i

/-! ### Collisions -/

/-- A read to the line that is outstanding, or was in the cycle before. -/
def rdrdCollision (k : Fin 3) : Bool :=
  decide (s.mshr.paddr.toLine = (i.port k).paddr.toLine) && (s.mshrVld || s.mshrVldQ1)

def rdrdCollisionD (k : Fin 3) : Bool := (i.port k).req && (s.rdrdCollision k || rdrdCollision s i k)

/-- A write to the line that is outstanding. -/
def rdwrCollision : Bool := decide (s.mshr.paddr.toLine = (i.port 2).paddr.toLine) && s.mshrVld

/-- A read to a line of which a write is in flight. -/
def txRdwrCollision : Bool :=
  any fun t => decide ((served s i).paddr.toLine = (i.txPaddr t).toLine) && i.txVld t

/-! ### The main state machine -/

def flushDone : Bool := s.cnt == BitVec.allOnes g.clIdxWidth

structure Fsm where
  stateD : State
  flushAckO : Bool := false
  rtype : Rtype := .loadReq
  dataReq : Bool := false
  amoAckO : Bool := false
  replay : Bool := false
  enableD : Bool
  flushAckD : Bool
  mshrAllocate : Bool := false

/-- `p_fsm`. -/
def fsm : Fsm :=
  let o : Fsm := { stateD := s.state, enableD := s.enable && i.enable, flushAckD := s.flushAck }
  match s.state with
  | .idle =>
    if i.flush || i.enable && !s.enable then
      if i.wbufferEmpty && !s.mshrVld then { o with flushAckD := i.flush, stateD := .flush }
      else { o with stateD := .drain }
    else if i.amo.req then { o with stateD := if i.wbufferEmpty && !s.mshrVld then .amo else .drain }
    else if any (missReqMaskedD s i) then
      if (served s i).we then
        if rdwrCollision s i then o
        else { o with dataReq := true, rtype := .storeReq, stateD := if i.dataAck then .idle else .storeWait }
      else if !s.mshrVld || loadAck s i then
        if rdrdCollisionD s i (missPortIdx s i) then { o with replay := true }
        else if txRdwrCollision s i then o
        else { o with dataReq := true, mshrAllocate := i.dataAck, stateD := if i.dataAck then .idle else .loadWait }
      else o
    else o
  | .storeWait =>
    { o with dataReq := true, rtype := .storeReq, stateD := if i.dataAck then .idle else .storeWait }
  | .loadWait =>
    { o with dataReq := true, mshrAllocate := i.dataAck, stateD := if i.dataAck then .idle else .loadWait }
  | .drain =>
    let o := { o with stateD := if i.wbufferEmpty && !s.mshrVld then .idle else .drain }
    if any (missReqMaskedD s i) && !rdwrCollision s i then { o with dataReq := true, rtype := .storeReq } else o
  | .flush =>
    if flushDone s then
      { o with stateD := .idle, flushAckO := s.flushAck, flushAckD := false, enableD := i.enable }
    else o
  | .amo =>
    let o := { o with rtype := .atomicReq }
    if i.amo.amoOp != .lr || i.scBackoffOver then
      { o with dataReq := true, stateD := if i.dataAck then .amoWait else .amo }
    else o
  | .amoWait => { o with amoAckO := amoAck s i, stateD := if amoAck s i then .idle else .amoWait }

def flushEn : Bool := s.state == .flush
def amoSel : Bool := s.state == .amo || s.state == .amoWait

/-- `miss_ack_o` and `miss_replay_o`. -/
def missAckO (k : Fin 3) : Bool := !amoSel s && (fsm s i).dataReq && i.dataAck && k == missPortIdx s i
def missReplayO (k : Fin 3) : Bool := (fsm s i).replay && k == missPortIdx s i

/-! ### To memory -/

/-- The way a line goes to: the first free one, or one at random. -/
def replWay : Fin g.setAssoc :=
  if any fun j => !(served s i).vldBits j then lzc fun j => !(served s i).vldBits j else i.rndWay

/-- A word is sent on both halves. -/
def amoData : Word := fun k =>
  if i.amo.size = 2 then i.amo.operandB (Fin.ofNat 8 (k.val % 4)) else i.amo.operandB k

/-- `mem_data_o`. -/
def memDataO : MemReq g :=
  let size := if amoSel s then i.amo.size.setWidth 3 else (served s i).size
  { rtype := (fsm s i).rtype
    size := size
    way := if amoSel s then 0 else replWay s i
    paddr := paddrSizeAlign (if amoSel s then i.amo.operandA else (served s i).paddr) size
    data := if amoSel s then amoData i else (served s i).wdata
    nc := amoSel s || (served s i).nc
    tid := if amoSel s then rdAmoTxId else (served s i).id
    amoOp := if amoSel s then i.amo.amoOp else .none }

/-! ### Writes to the cache -/

/-- A line comes in for the cache. -/
def clWriteEn : Bool := loadAck s i && !s.mshr.nc

def wrClWeO : Ways g :=
  if flushEn s || invVldAll i then fun _ => true
  else if invVld i then bin2oh i.rtrn.inv.way
  else if clWriteEn s i then bin2oh s.mshr.replWay
  else fun _ => false

def wrClVldO : Bool := loadAck s i || any (wrClWeO s i)

def wrVldBitsO : Ways g :=
  if flushEn s || invVld i then fun _ => false
  else if clWriteEn s i then bin2oh s.mshr.replWay
  else fun _ => false

def wrClIdxO : BitVec g.clIdxWidth :=
  if flushEn s then s.cnt else if invVld i then i.rtrn.inv.idx else s.mshr.paddr.idx

/-! ### One clock cycle -/

def storeSent : Bool := (fsm s i).dataReq && i.dataAck && (fsm s i).rtype == .storeReq

def next : Regs g where
  state := (fsm s i).stateD
  cnt := if flushEn s then s.cnt + 1 else 0
  enable := (fsm s i).enableD
  flushAck := (fsm s i).flushAckD
  mshrVld := (fsm s i).mshrAllocate || !loadAck s i && s.mshrVld
  mshrVldQ1 := s.mshrVld
  mshr :=
    if (fsm s i).mshrAllocate then
      ⟨(served s i).paddr, (served s i).nc, replWay s i, missPortIdx s i⟩
    else s.mshr
  rdrdCollision := rdrdCollisionD s i
  missReqMasked := missReqMaskedD s i
  amoReq := i.amo.req
  storesInflight := s.storesInflight + (storeSent s i).toNat - (storeAck s i).toNat

end Comb

/-! ### What the state machine does -/

section Specs

variable {s : Regs g} {i : In g}

/-- A read is asked for: it is not to a line that is outstanding or was while it waited, nor
to one of which a write is in flight. -/
structure ReadMiss (s : Regs g) (i : In g) : Prop where
  state : s.state = .idle
  masked : missReqMaskedD s i (missPortIdx s i) = true
  read : (served s i).we = false
  room : s.mshrVld = false ∨ loadAck s i = true
  rdrd : rdrdCollisionD s i (missPortIdx s i) = false
  rdwr : txRdwrCollision s i = false
  fsm : fsm s i = { stateD := if i.dataAck then .idle else .loadWait, dataReq := true, mshrAllocate := i.dataAck
                    enableD := s.enable && i.enable, flushAckD := s.flushAck }

theorem fsm_idle (h : s.state = .idle) :
    ReadMiss s i ∨ ((fsm s i).mshrAllocate = false ∧ (fsm s i).stateD ≠ .loadWait ∧
      ((fsm s i).stateD = .flush → s.mshrVld = false) ∧ (fsm s i).enableD = (s.enable && i.enable)) := by
  by_cases hf : (i.flush || i.enable && !s.enable) = true
  · refine .inr ?_
    simp only [fsm, h, hf, if_true]
    split
    · simp_all
    · simp
  by_cases ha : i.amo.req = true
  · refine .inr ?_
    simp only [fsm, h, hf, ha, if_true, Bool.false_eq_true, if_false]
    split <;> simp
  by_cases hm : any (missReqMaskedD s i) = true
  swap
  · refine .inr ?_
    simp only [fsm, h, hf, ha, hm, Bool.false_eq_true, if_false]
    simp
  by_cases hw : (served s i).we = true
  · refine .inr ?_
    simp only [fsm, h, hf, ha, hm, hw, if_true, Bool.false_eq_true, if_false]
    split
    · simp
    · split <;> simp
  by_cases hv : (!s.mshrVld || loadAck s i) = true
  swap
  · refine .inr ?_
    simp only [fsm, h, hf, ha, hm, hw, hv, if_true, Bool.false_eq_true, if_false]
    simp
  by_cases hr : rdrdCollisionD s i (missPortIdx s i) = true
  · refine .inr ?_
    simp only [fsm, h, hf, ha, hm, hw, hv, hr, if_true, Bool.false_eq_true, if_false]
    simp
  by_cases ht : txRdwrCollision s i = true
  · refine .inr ?_
    simp only [fsm, h, hf, ha, hm, hw, hv, hr, ht, if_true, Bool.false_eq_true, if_false]
    simp
  · refine .inl ⟨h, lzc_spec (any_eq_true.1 hm), by simpa using hw, by simpa using hv, by simpa using hr, by simpa using ht, ?_⟩
    simp only [fsm, h, hf, ha, hm, hw, hv, hr, ht, if_true, Bool.false_eq_true, if_false]

theorem allocate_spec (h : (fsm s i).mshrAllocate = true) :
    i.dataAck = true ∧ (fsm s i).stateD = .idle ∧ (ReadMiss s i ∨ s.state = .loadWait) := by
  cases hs : s.state with
  | idle =>
    rcases fsm_idle (i := i) hs with hr | hn
    · rw [hr.fsm] at h
      have ha : i.dataAck = true := h
      exact ⟨ha, by simp [hr.fsm, ha], .inl hr⟩
    · simp [hn.1] at h
  | loadWait =>
    have ha : i.dataAck = true := by simpa [fsm, hs] using h
    exact ⟨ha, by simp [fsm, hs, ha], .inr rfl⟩
  | drain =>
    simp only [fsm, hs] at h
    split at h <;> simp at h
  | flush =>
    simp only [fsm, hs] at h
    split at h <;> simp at h
  | amo =>
    simp only [fsm, hs] at h
    split at h <;> simp at h
  | storeWait => simp [fsm, hs] at h
  | amoWait => simp [fsm, hs] at h

theorem loadWait_spec (h : (fsm s i).stateD = .loadWait) :
    i.dataAck = false ∧ (ReadMiss s i ∨ s.state = .loadWait) := by
  cases hs : s.state with
  | idle =>
    rcases fsm_idle (i := i) hs with hr | hn
    · refine ⟨?_, .inl hr⟩
      rw [hr.fsm] at h
      by_contra ha
      simp [ha] at h
    · exact absurd h hn.2.1
  | loadWait =>
    refine ⟨?_, .inr rfl⟩
    by_contra ha
    simp [fsm, hs, ha] at h
  | drain =>
    simp only [fsm, hs] at h
    split at h <;> split at h <;> simp at h
  | flush =>
    simp only [fsm, hs] at h
    split at h <;> simp at h
  | amo =>
    simp only [fsm, hs] at h
    split at h
    · split at h <;> simp at h
    · simp at h
  | storeWait =>
    simp only [fsm, hs] at h
    split at h <;> simp at h
  | amoWait =>
    simp only [fsm, hs] at h
    split at h <;> simp at h

theorem flush_spec (h : (fsm s i).stateD = .flush) :
    s.state = .idle ∧ s.mshrVld = false ∨ s.state = .flush ∧ flushDone s = false := by
  cases hs : s.state with
  | idle =>
    rcases fsm_idle (i := i) hs with hr | hn
    · rw [hr.fsm] at h
      by_cases ha : i.dataAck = true <;> simp [ha] at h
    · exact .inl ⟨rfl, hn.2.2.1 h⟩
  | flush =>
    refine .inr ⟨rfl, ?_⟩
    by_contra hd
    rw [Bool.not_eq_false] at hd
    simp [fsm, hs, hd] at h
  | drain =>
    simp only [fsm, hs] at h
    split at h <;> split at h <;> simp at h
  | amo =>
    simp only [fsm, hs] at h
    split at h
    · split at h <;> simp at h
    · simp at h
  | storeWait =>
    simp only [fsm, hs] at h
    split at h <;> simp at h
  | loadWait =>
    simp only [fsm, hs] at h
    split at h <;> simp at h
  | amoWait =>
    simp only [fsm, hs] at h
    split at h <;> simp at h

/-- The cache is enabled at the end of a flush only. -/
theorem enable_spec (h : (fsm s i).enableD = true) : s.enable = true ∨ s.state = .flush ∧ flushDone s = true := by
  cases hs : s.state with
  | idle =>
    rcases fsm_idle (i := i) hs with hr | hn
    · rw [hr.fsm] at h
      exact .inl ((Bool.and_eq_true _ _).mp h).1
    · rw [hn.2.2.2] at h
      exact .inl ((Bool.and_eq_true _ _).mp h).1
  | flush =>
    by_cases hd : flushDone s = true
    · exact .inr ⟨rfl, hd⟩
    · simp only [fsm, hs, hd, Bool.false_eq_true, if_false, Bool.and_eq_true] at h
      exact .inl h.1
  | drain =>
    simp only [fsm, hs] at h
    refine .inl ?_
    split at h <;> simp at h <;> exact h.1
  | amo =>
    simp only [fsm, hs] at h
    refine .inl ?_
    split at h <;> simp at h <;> exact h.1
  | storeWait =>
    simp only [fsm, hs, Bool.and_eq_true] at h
    exact .inl h.1
  | loadWait =>
    simp only [fsm, hs, Bool.and_eq_true] at h
    exact .inl h.1
  | amoWait =>
    simp only [fsm, hs, Bool.and_eq_true] at h
    exact .inl h.1

theorem clWriteEn_spec (h : clWriteEn s i = true) : loadAck s i = true ∧ s.mshrVld = true ∧ s.mshr.nc = false := by
  simp only [clWriteEn, Bool.and_eq_true, Bool.not_eq_true'] at h
  have hl := h.1
  simp only [loadAck, Bool.and_eq_true] at hl
  exact ⟨h.1, hl.2, h.2⟩

end Specs

end Missunit
end Dcache
end Ariane

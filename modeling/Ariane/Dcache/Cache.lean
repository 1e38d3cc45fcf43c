/-
# The write-through data cache

`src/cache_subsystem/wt_dcache.sv`: two read ports (`wt_dcache_ctrl.sv`), the write buffer on
the third port, the miss unit and the arrays (`wt_dcache_mem.sv`). A bank of the data array is
one word of every way; a read port reads its word in all ways and the tags of the set, and
compares in the next cycle. The memories are those of `SyncSpRamBeNx64.sv`: what they put out
is the content before the edge, held until the next access.

The signals between the units are functions of the registers and the inputs, in the order in
which they depend on each other; `next` puts them together.
-/
import Ariane.Dcache.Missunit

namespace Ariane
namespace Dcache

variable {g : Geom}

/-- A signal of each port: the read controllers, and the write buffer on the last one. -/
def ports {α : Type} (f : Fin 2 → α) (w : α) (k : Fin 3) : α := if h : k.val < 2 then f ⟨k.val, h⟩ else w

@[simp] theorem ports_castSucc {α : Type} (f : Fin 2 → α) (w : α) (k : Fin 2) : ports f w k.castSucc = f k :=
  dif_pos k.isLt

@[simp] theorem ports_two {α : Type} (f : Fin 2 → α) (w : α) : ports f w 2 = w := rfl

/-! ### Read ports -/

/-- `dcache_req_i_t`, as a read port uses it. -/
structure ReqPort (g : Geom) where
  dataReq : Bool
  idx : BitVec g.clIdxWidth
  word : BitVec g.wordWidth
  byte : Fin 8
  size : BitVec 2
  tag : BitVec g.tagWidth
  tagValid : Bool
  kill : Bool

namespace Ctrl

inductive State
  | idle | read | missReq | missWait | killMiss | killMissAck | replayReq | replayRead
deriving DecidableEq, Repr

structure Regs (g : Geom) where
  state : State
  paddr : Addr g
  size : BitVec 2
  vldData : Ways g
  rdReq : Bool
  rdAck : Bool

def reset : Regs g := ⟨.idle, ⟨⟨⟨0, 0⟩, 0⟩, 0⟩, 0, fun _ => false, false, false⟩

variable (s : Regs g) (r : ReqPort g)

/-- `rd_req_o`. -/
def rdReqO : Bool :=
  match s.state with
  | .idle => r.dataReq
  | .read | .replayRead | .replayReq => true
  | _ => false

def saveTag : Bool := s.state == .read && !r.kill && r.tagValid

/-- `rd_tag_o`. -/
def rdTagO : BitVec g.tagWidth := if saveTag s r then r.tag else s.paddr.tag

def missReqO : Bool := s.state == .missReq || s.state == .killMissAck

/-- Not cacheable: an address in I/O space, or the cache is disabled. -/
def missNcO (cacheEn : Bool) : Bool := !cacheEn || !g.cacheable s.paddr.tag

def missPort (cacheEn : Bool) : Missunit.Port g where
  req := missReqO s
  nc := missNcO s cacheEn
  we := false
  wdata := fun _ => 0
  paddr := s.paddr
  vldBits := s.vldData
  size := if missNcO s cacheEn then s.size.setWidth 3 else 7
  id := rdAmoTxId

structure In (g : Geom) where
  cacheEn : Bool
  missAck : Bool
  missReplay : Bool
  missRtrnVld : Bool
  wrClVld : Bool
  rdAck : Bool
  rdHitOh : Ways g
  rdVldBits : Ways g

structure Fsm where
  stateD : State
  rvalid : Bool := false
  gnt : Bool := false

/-- `p_fsm`. -/
def fsm (i : In g) : Fsm :=
  match s.state with
  | .idle => if r.dataReq && i.rdAck then { stateD := .read, gnt := true } else { stateD := .idle }
  | .read | .replayRead =>
    if r.kill then { stateD := .idle, rvalid := true }
    else if r.tagValid || s.state == .replayRead then
      if i.wrClVld || !s.rdAck then { stateD := .replayReq }
      else if any i.rdHitOh && i.cacheEn then
        -- the next request may follow at once
        if i.rdAck && r.dataReq then { stateD := .read, rvalid := true, gnt := true }
        else { stateD := .idle, rvalid := true }
      else { stateD := .missReq }
    else { stateD := s.state }
  | .missReq =>
    if r.kill then { stateD := if i.missAck then .killMiss else .killMissAck, rvalid := true }
    else if i.missReplay then { stateD := .replayReq }
    else if i.missAck then { stateD := .missWait }
    else { stateD := .missReq }
  | .missWait =>
    if r.kill then { stateD := if i.missRtrnVld then .idle else .killMiss, rvalid := true }
    else if i.missRtrnVld then { stateD := .idle, rvalid := true }
    else { stateD := .missWait }
  | .replayReq =>
    if r.kill then { stateD := .idle, rvalid := true }
    else if i.rdAck then { stateD := .replayRead }
    else { stateD := .replayReq }
  | .killMissAck =>
    if i.missReplay then { stateD := .idle }
    else if i.missAck then { stateD := .killMiss }
    else { stateD := .killMissAck }
  | .killMiss => if i.missRtrnVld then { stateD := .idle } else { stateD := .killMiss }

/-- The address, with the tag of this cycle and the index of a request that is granted. -/
def paddrD (i : In g) : Addr g :=
  if (fsm s r i).gnt then ⟨⟨⟨rdTagO s r, r.idx⟩, r.word⟩, r.byte⟩
  else { s.paddr with tag := rdTagO s r }

def next (i : In g) : Regs g where
  state := (fsm s r i).stateD
  paddr := paddrD s r i
  size := if (fsm s r i).gnt then r.size else s.size
  vldData := if s.rdReq then i.rdVldBits else s.vldData
  rdReq := rdReqO s r
  rdAck := i.rdAck

end Ctrl

/-! ### Arrays -/

namespace Mem

/-- A word of the tag memory. -/
structure TagEntry (g : Geom) where
  vld : Bool
  tag : BitVec g.tagWidth

structure Regs (g : Geom) where
  tags : BitVec g.clIdxWidth → Fin g.setAssoc → TagEntry g
  banks : BitVec g.clIdxWidth → Fin g.setAssoc → LineData g
  tagRdata : Fin g.setAssoc → TagEntry g
  bankRdata : BitVec g.wordWidth → Fin g.setAssoc → Word
  bankIdxQ : BitVec g.clIdxWidth
  bankOffQ : BitVec g.wordWidth
  vldSelQ : Fin 3
  cmpEnQ : Bool

/-- The registers at reset: the memories hold anything. -/
structure IsReset (s : Regs g) : Prop where
  bankIdxQ : s.bankIdxQ = 0
  bankOffQ : s.bankOffQ = 0
  vldSelQ : s.vldSelQ = 0
  cmpEnQ : s.cmpEnQ = false

/-- The write of a line, and of a word. -/
structure LineWrite (g : Geom) where
  vld : Bool
  nc : Bool
  we : Ways g
  tag : BitVec g.tagWidth
  idx : BitVec g.clIdxWidth
  off : BitVec g.wordWidth
  data : LineData g
  dataBe : Bool
  vldBits : Ways g

structure WordWrite (g : Geom) where
  req : Ways g
  wtag : Wtag g
  data : Word
  be : Mask

section Arbiter

variable (rdReq : Fin 3 → Bool) (pref : Fin 3) (cl : LineWrite g)

/-- The read controllers go before the write buffer. -/
def rdReqMasked : Fin 3 → Bool :=
  if any fun k => rdReq k && k != 2 then fun k => rdReq k && k != 2 else rdReq

def vldSelD : Fin 3 := rrArb (rdReqMasked rdReq) pref

/-- `rd_ack_o`: nothing is read while a line is written. -/
def rdAckO (k : Fin 3) : Bool := !cl.vld && rdReqMasked rdReq k && k == vldSelD rdReq pref

def rdAcked : Bool := any (rdReqMasked rdReq) && !cl.vld

end Arbiter

/-- A whole line is written, or ways of a set. -/
def LineWrite.writes (cl : LineWrite g) : Bool := cl.vld && any cl.we

section Comb

variable (s : Regs g) (rdReq : Fin 3 → Bool) (pref : Fin 3) (rdIdx : Fin 3 → BitVec g.clIdxWidth)
  (rdOff : Fin 3 → BitVec g.wordWidth) (cl : LineWrite g) (wr : WordWrite g)

/-- Only the write buffer does a tag lookup. -/
def rdTagOnly (k : Fin 3) : Bool := k == 2

def wrAckO : Bool :=
  let sel := vldSelD rdReq pref
  !cl.writes && any wr.req &&
    (rdTagOnly sel || !(rdAckO rdReq pref cl sel && rdOff sel == wr.wtag.word))

def vldAddr : BitVec g.clIdxWidth := if cl.vld then cl.idx else rdIdx (vldSelD rdReq pref)
def bankOffD : BitVec g.wordWidth := if cl.vld then cl.off else rdOff (vldSelD rdReq pref)

def vldReq : Ways g := if cl.vld then cl.we else fun _ => rdAcked rdReq cl

/-! ### Hits and the data of a read -/

def rdHitOhO (rdTag : Fin 3 → BitVec g.tagWidth) : Ways g := fun j =>
  decide (rdTag s.vldSelQ = (s.tagRdata j).tag) && (s.tagRdata j).vld && s.cmpEnQ

def rdVldBitsO : Ways g := fun j => (s.tagRdata j).vld

/-- The word that is looked up in the write buffer. -/
def wbufferCmpAddr (rdTag : Fin 3 → BitVec g.tagWidth) : Wtag g :=
  if cl.vld then ⟨⟨cl.tag, cl.idx⟩, cl.off⟩ else ⟨⟨rdTag s.vldSelQ, s.bankIdxQ⟩, s.bankOffQ⟩

def wbufferHitOh (wbuffer : Fin g.wbufDepth → Wbuffer.Entry g) (a : Wtag g) (k : Fin g.wbufDepth) : Bool :=
  any (wbuffer k).valid && decide ((wbuffer k).wtag = a)

/-- The bytes of a word, with those of the write buffer over them. -/
def overlay (wbuffer : Fin g.wbufDepth → Wbuffer.Entry g) (a : Wtag g) (d : Word) : Word := fun b =>
  let e := wbuffer (lzc (wbufferHitOh wbuffer a))
  if any (wbufferHitOh wbuffer a) && e.valid b then e.data b else d b

/-- `wr_cl_off`: a response on the bus of 64 bits that is not cached is one word. -/
def wrClOff : BitVec g.wordWidth := if g.axi64BitCompliant && cl.nc then 0 else cl.off

def rdDataO (rdTag : Fin 3 → BitVec g.tagWidth) (wbuffer : Fin g.wbufDepth → Wbuffer.Entry g) : Word :=
  overlay wbuffer (wbufferCmpAddr s cl rdTag)
    (if cl.vld then cl.data (wrClOff cl) else s.bankRdata s.bankOffQ (lzc (rdHitOhO s rdTag)))

/-! ### One clock cycle -/

/-- The access of a bank, with its address. -/
def bankReq (w : BitVec g.wordWidth) : Option (BitVec g.clIdxWidth) :=
  let sel := vldSelD rdReq pref
  if cl.writes then some cl.idx
  else if rdAcked rdReq cl && !rdTagOnly sel && rdOff sel == w then some (rdIdx sel)
  else if wrAckO rdReq pref rdOff cl wr && wr.wtag.word == w then some wr.wtag.idx
  else none

def nextTags (x : BitVec g.clIdxWidth) (j : Fin g.setAssoc) : TagEntry g :=
  if cl.vld && cl.we j && x == cl.idx then ⟨cl.vldBits j, cl.tag⟩ else s.tags x j

def nextBanks (x : BitVec g.clIdxWidth) (j : Fin g.setAssoc) (w : BitVec g.wordWidth) : Word := fun b =>
  if cl.writes then
    if cl.we j && cl.dataBe && x == cl.idx then cl.data w b else s.banks x j w b
  else if wrAckO rdReq pref rdOff cl wr && wr.req j && x == wr.wtag.idx && w == wr.wtag.word && wr.be b then
    wr.data b
  else s.banks x j w b

def next : Regs g where
  tags := nextTags s cl
  banks := nextBanks s rdReq pref rdOff cl wr
  tagRdata := fun j => if vldReq rdReq cl j then s.tags (vldAddr rdReq pref rdIdx cl) j else s.tagRdata j
  bankRdata := fun w j =>
    match bankReq rdReq pref rdIdx rdOff cl wr w with
    | some x => s.banks x j w
    | none => s.bankRdata w j
  bankIdxQ := vldAddr rdReq pref rdIdx cl
  bankOffQ := bankOffD rdReq pref rdOff cl
  vldSelQ := vldSelD rdReq pref
  cmpEnQ := any (vldReq rdReq cl) && !cl.vld

end Comb

end Mem

/-! ### The cache -/

/-- The port of the store unit. -/
structure StorePort (g : Geom) where
  dataReq : Bool
  wtag : Wtag g
  dataBe : Mask
  dataWdata : Word

structure Regs (g : Geom) where
  ctrl : Fin 2 → Ctrl.Regs g
  miss : Missunit.Regs g
  wbuf : Wbuffer.Regs g
  mem : Mem.Regs g

structure In (g : Geom) where
  enable : Bool
  flush : Bool
  amo : AmoReq g
  port : Fin 2 → ReqPort g
  store : StorePort g
  rtrnVld : Bool
  rtrn : MemRtrn g
  dataAck : Bool
  rndWay : Fin g.setAssoc
  scBackoffOver : Bool
  /-- Whom the arbiters prefer. -/
  wbufPref : Wbuffer.Prefs g
  rdPref : Fin 3

section Comb

variable (s : Regs g) (i : In g)

/-! ### Miss unit -/

def wbufPort : Missunit.Port g where
  req := Wbuffer.missReqO s.wbuf
  nc := s.wbuf.ncPending
  we := true
  wdata := Wbuffer.missWdataO s.wbuf i.wbufPref
  paddr := Wbuffer.missPaddrO s.wbuf i.wbufPref
  vldBits := fun _ => false
  size := (Wbuffer.missSizeO s.wbuf i.wbufPref).setWidth 3
  id := Wbuffer.txId s.wbuf i.wbufPref

def missIn : Missunit.In g where
  enable := i.enable
  flush := i.flush
  wbufferEmpty := Wbuffer.emptyO s.wbuf
  amo := i.amo
  port := ports (fun k => Ctrl.missPort (s.ctrl k) s.miss.enable) (wbufPort s i)
  txPaddr := fun t => (s.wbuf.wbuffer (s.wbuf.txStat t).ptr).wtag
  txVld := fun t => (s.wbuf.txStat t).vld
  rtrnVld := i.rtrnVld
  rtrn := i.rtrn
  dataAck := i.dataAck
  rndWay := i.rndWay
  scBackoffOver := i.scBackoffOver

@[simp] theorem missIn_castSucc (k : Fin 2) :
    (missIn s i).port k.castSucc = Ctrl.missPort (s.ctrl k) s.miss.enable := by
  simp [missIn]

@[simp] theorem missIn_two : (missIn s i).port 2 = wbufPort s i := rfl

def lineWrite : Mem.LineWrite g where
  vld := Missunit.wrClVldO s.miss (missIn s i)
  nc := s.miss.mshr.nc
  we := Missunit.wrClWeO s.miss (missIn s i)
  tag := s.miss.mshr.paddr.tag
  idx := Missunit.wrClIdxO s.miss (missIn s i)
  off := s.miss.mshr.paddr.word
  data := i.rtrn.data
  dataBe := Missunit.clWriteEn s.miss (missIn s i)
  vldBits := Missunit.wrVldBitsO s.miss (missIn s i)

/-! ### Reads -/

def rdReq : Fin 3 → Bool := ports (fun k => Ctrl.rdReqO (s.ctrl k) (i.port k)) (Wbuffer.rdReqO s.wbuf)

def rdAck (k : Fin 3) : Bool := Mem.rdAckO (rdReq s i) i.rdPref (lineWrite s i) k

def rdTag : Fin 3 → BitVec g.tagWidth := ports (fun k => Ctrl.rdTagO (s.ctrl k) (i.port k)) s.wbuf.rdTagQ

def rdHitOh : Ways g := Mem.rdHitOhO s.mem (rdTag s i)

def rdData : Word := Mem.rdDataO s.mem (lineWrite s i) (rdTag s i) s.wbuf.wbuffer

def ctrlIn (k : Fin 2) : Ctrl.In g where
  cacheEn := s.miss.enable
  missAck := Missunit.missAckO s.miss (missIn s i) k.castSucc
  missReplay := Missunit.missReplayO s.miss (missIn s i) k.castSucc
  missRtrnVld := Missunit.missRtrnVldO s.miss (missIn s i) k.castSucc
  wrClVld := (lineWrite s i).vld
  rdAck := rdAck s i k.castSucc
  rdHitOh := rdHitOh s i
  rdVldBits := Mem.rdVldBitsO s.mem

/-- The address of the read of a port: `rd_idx_o` and `rd_off_o`. -/
def rdAddr : Fin 3 → Wtag g :=
  ports (fun k => (Ctrl.paddrD (s.ctrl k) (i.port k) (ctrlIn s i k)).toWtag) (Wbuffer.rdTagD s.wbuf i.wbufPref)

/-! ### Writes -/

def wordWrite : Mem.WordWrite g where
  req := Wbuffer.wrReqO s.wbuf
  wtag := Wbuffer.wrTagO s.wbuf
  data := Wbuffer.wrDataO s.wbuf
  be := Wbuffer.wrDataBeO s.wbuf

def wrAck : Bool :=
  Mem.wrAckO (rdReq s i) i.rdPref (fun k => (rdAddr s i k).word) (lineWrite s i) (wordWrite s)

def wbufIn : Wbuffer.In g where
  cacheEn := s.miss.enable
  dataReq := i.store.dataReq
  wtag := i.store.wtag
  dataBe := i.store.dataBe
  dataWdata := i.store.dataWdata
  missAck := Missunit.missAckO s.miss (missIn s i) 2
  rtrnVld := Missunit.missRtrnVldO s.miss (missIn s i) 2
  rtrnId := i.rtrn.tid
  rdAck := rdAck s i 2
  rdHitOh := rdHitOh s i
  wrClVld := (lineWrite s i).vld
  wrClIdx := (lineWrite s i).idx
  wrAck := wrAck s i
  pref := i.wbufPref

def next : Regs g where
  ctrl := fun k => Ctrl.next (s.ctrl k) (i.port k) (ctrlIn s i k)
  miss := Missunit.next s.miss (missIn s i)
  wbuf := Wbuffer.next s.wbuf (wbufIn s i)
  mem :=
    Mem.next s.mem (rdReq s i) i.rdPref (fun k => (rdAddr s i k).idx) (fun k => (rdAddr s i k).word)
      (lineWrite s i) (wordWrite s)

end Comb

/-- The state after reset: the memories hold anything. -/
structure IsReset (s : Regs g) : Prop where
  ctrl : s.ctrl = fun _ => Ctrl.reset
  miss : s.miss = Missunit.reset
  wbuf : s.wbuf = Wbuffer.reset
  mem : Mem.IsReset s.mem

def cache (g : Geom) : Lib.Machine (Regs g) (In g) := ⟨IsReset, next⟩

end Dcache
end Ariane

/-
# The write buffer of the data cache

`src/cache_subsystem/wt_dcache_wbuffer.sv`: entries of one word with a state for every byte,
transactions that send aligned pieces of a word to memory, and the lookup that tells whether
a word has to be written to the cache when memory has it. Several blocks of the source assign
to an entry in one cycle; each is one function here (`checked`, `inval`, `evictBytes`,
`sendBytes`, `writeBytes`), in the order of the source.

An arbiter with `LockIn` keeps its choice until it is granted: the choice is a register
(`dirtyLock`, `txLock`). The FIFO of returned ids is a list.
-/
import Ariane.Dcache.Pkg
import Ariane.Lib.Machine

namespace Ariane
namespace Dcache
namespace Wbuffer

variable {g : Geom}

/-! ### Registers -/

/-- `wbuffer_t`. -/
structure Entry (g : Geom) where
  wtag : Wtag g
  data : Word
  dirty : Mask
  valid : Mask
  txblock : Mask
  checked : Bool
  hitOh : Ways g

/-- `tx_stat_t`. -/
structure TxStat (g : Geom) where
  vld : Bool
  be : Mask
  ptr : Fin g.wbufDepth

structure Regs (g : Geom) where
  wbuffer : Fin g.wbufDepth → Entry g
  txStat : Fin g.maxTx → TxStat g
  ncPending : Bool
  checkPtrQ : Fin g.wbufDepth
  checkPtrQ1 : Fin g.wbufDepth
  checkEnQ : Bool
  checkEnQ1 : Bool
  rdTagQ : BitVec g.tagWidth
  rdHitOhQ : Ways g
  wrClVldQ : Bool
  wrClIdxQ : BitVec g.clIdxWidth
  /-- The FIFO of returned ids and the locks of the arbiters. -/
  rtrnIds : List (Fin g.maxTx)
  dirtyLock : Option (Fin g.wbufDepth)
  txLock : Option (Fin g.maxTx)

def Entry.zero : Entry g := ⟨⟨⟨0, 0⟩, 0⟩, fun _ => 0, fun _ => false, fun _ => false, fun _ => false, false, fun _ => false⟩

def reset : Regs g where
  wbuffer _ := Entry.zero
  txStat _ := ⟨false, fun _ => false, 0⟩
  ncPending := false
  checkPtrQ := 0
  checkPtrQ1 := 0
  checkEnQ := false
  checkEnQ1 := false
  rdTagQ := 0
  rdHitOhQ _ := false
  wrClVldQ := false
  wrClIdxQ := 0
  rtrnIds := []
  dirtyLock := none
  txLock := none

/-- Whom the arbiters prefer in a cycle. -/
structure Prefs (g : Geom) where
  tx : Fin g.maxTx
  dirty : Fin g.wbufDepth
  check : Fin g.wbufDepth

structure In (g : Geom) where
  cacheEn : Bool
  dataReq : Bool
  wtag : Wtag g
  dataBe : Mask
  dataWdata : Word
  missAck : Bool
  rtrnVld : Bool
  rtrnId : Fin g.maxTx
  rdAck : Bool
  rdHitOh : Ways g
  wrClVld : Bool
  wrClIdx : BitVec g.clIdxWidth
  wrAck : Bool
  pref : Prefs g

/-! ### Transactions -/

section Outputs

variable (s : Regs g) (p : Prefs g)

/-- The dirty bytes of an entry that may be sent: none while a part of it is in flight. -/
def bdirty (k : Fin g.wbufDepth) : Mask := fun b =>
  !any (s.wbuffer k).txblock && (s.wbuffer k).dirty b && (s.wbuffer k).valid b

def dirty (k : Fin g.wbufDepth) : Bool := any (bdirty s k)
def valid (k : Fin g.wbufDepth) : Bool := any (s.wbuffer k).valid
def tocheck (k : Fin g.wbufDepth) : Bool := !(s.wbuffer k).checked && valid s k

def emptyO : Bool := !any (valid s)

def dirtyPtr : Fin g.wbufDepth := s.dirtyLock.getD (rrArb (dirty s) p.dirty)

def txFree (t : Fin g.maxTx) : Bool := !(s.txStat t).vld

def txId : Fin g.maxTx := s.txLock.getD (rrArb (txFree s) p.tx)

/-- `miss_req_o`. -/
def missReqO : Bool := any (dirty s) && any (txFree s)

def bdirtyOff : Fin 8 := lzc (bdirty s (dirtyPtr s p))

def missSizeO : BitVec 2 := toSize64 (bdirty s (dirtyPtr s p))

def missPaddrO : Addr g := ⟨(s.wbuffer (dirtyPtr s p)).wtag, bdirtyOff s p⟩

def missWdataO : Word := repData64 (s.wbuffer (dirtyPtr s p)).data (bdirtyOff s p) (missSizeO s p)

/-- The bytes of a transaction. -/
def txBe : Mask := toByteEnable8 (bdirtyOff s p) (missSizeO s p)

/-! ### Returned transactions and lookups -/

def rtrnId : Fin g.maxTx := s.rtrnIds.headD 0
def rtrnPtr : Fin g.wbufDepth := (s.txStat (rtrnId s)).ptr

/-- The bytes written to the cache: not those written to the buffer while in flight. -/
def wrDataBeO : Mask := fun b => (s.txStat (rtrnId s)).be b && !(s.wbuffer (rtrnPtr s)).dirty b

/-- A transaction has returned, and it is known whether the cache has the word. -/
def returned : Bool := !s.rtrnIds.isEmpty && (s.wbuffer (rtrnPtr s)).checked

/-- The word has to be written to the cache. -/
def wrNeeded : Bool := any (wrDataBeO s) && any (s.wbuffer (rtrnPtr s)).hitOh

def wrReqO : Ways g := fun j => returned s && wrNeeded s && (s.wbuffer (rtrnPtr s)).hitOh j

def wrTagO : Wtag g := (s.wbuffer (rtrnPtr s)).wtag
def wrDataO : Word := (s.wbuffer (rtrnPtr s)).data

def evict (wrAck : Bool) : Bool := returned s && (!wrNeeded s || wrAck)

def checkPtrD : Fin g.wbufDepth := rrArb (tocheck s) p.check

/-- `rd_req_o`, and the address of the lookup. -/
def rdReqO : Bool := any (tocheck s)
def rdTagD : Wtag g := (s.wbuffer (checkPtrD s p)).wtag

end Outputs

/-! ### The port of the store unit -/

section Next

variable (s : Regs g) (i : In g)

def hitOh (k : Fin g.wbufDepth) : Bool := valid s k && decide ((s.wbuffer k).wtag = i.wtag)

def full : Bool := !any fun k => !valid s k

/-- The entry of the word, or the first free one. -/
def wrPtr : Fin g.wbufDepth := if any (hitOh s i) then lzc (hitOh s i) else lzc fun k => !valid s k

def addrIsNc : Bool := !i.cacheEn || !g.cacheable i.wtag.tag

/-- `req_port_o.data_gnt`: a word that is not cacheable waits until the buffer is empty,
and what follows it as well. -/
def dataGntO : Bool :=
  i.dataReq && (any (hitOh s i) || !full s) && (emptyO s || !(addrIsNc i || s.ncPending))

/-! ### Entries -/

def invalHit (k : Fin g.wbufDepth) : Bool :=
  valid s k && (i.wrClVld && decide ((s.wbuffer k).wtag.idx = i.wrClIdx) ||
    s.wrClVldQ && decide ((s.wbuffer k).wtag.idx = s.wrClIdxQ))

/-- The lookup of two cycles ago returns. -/
def checked (k : Fin g.wbufDepth) (e : Entry g) : Entry g :=
  if s.checkEnQ1 && k == s.checkPtrQ1 && valid s k then { e with checked := true, hitOh := s.rdHitOhQ } else e

/-- A line of the set of the word is written. -/
def inval (k : Fin g.wbufDepth) (e : Entry g) : Entry g :=
  if invalHit s i k then { e with checked := false } else e

/-- The bytes of a returned transaction leave, unless they were written again. -/
def evictBytes (k : Fin g.wbufDepth) (e : Entry g) : Entry g :=
  if evict s i.wrAck && k == rtrnPtr s then
    let be := (s.txStat (rtrnId s)).be
    let v : Mask := fun b => e.valid b && !(be b && !(s.wbuffer k).dirty b)
    { e with
      txblock := fun b => e.txblock b && !be b
      valid := v
      checked := e.checked && any v }
  else e

/-- A transaction is sent. -/
def sends : Bool := missReqO s && i.missAck

def sendBytes (k : Fin g.wbufDepth) (e : Entry g) : Entry g :=
  if sends s i && k == dirtyPtr s i.pref then
    { e with
      dirty := fun b => e.dirty b && !txBe s i.pref b
      txblock := fun b => e.txblock b || txBe s i.pref b }
  else e

def writeBytes (k : Fin g.wbufDepth) (e : Entry g) : Entry g :=
  if dataGntO s i && k == wrPtr s i then
    { e with
      checked := false
      wtag := i.wtag
      valid := fun b => e.valid b || i.dataBe b
      dirty := fun b => e.dirty b || i.dataBe b
      data := fun b => if i.dataBe b then i.dataWdata b else e.data b }
  else e

/-- `p_buffer`. -/
def nextEntry (k : Fin g.wbufDepth) : Entry g :=
  writeBytes s i k (sendBytes s i k (evictBytes s i k (inval s i k (checked s k (s.wbuffer k)))))

/-- `p_tx_stat`. -/
def nextTx (t : Fin g.maxTx) : TxStat g :=
  if sends s i && t == txId s i.pref then ⟨true, txBe s i.pref, dirtyPtr s i.pref⟩
  else if evict s i.wrAck && t == rtrnId s then { s.txStat t with vld := false }
  else s.txStat t

def next : Regs g where
  wbuffer := nextEntry s i
  txStat := nextTx s i
  ncPending := if dataGntO s i then addrIsNc i else s.ncPending
  checkPtrQ := checkPtrD s i.pref
  checkPtrQ1 := s.checkPtrQ
  checkEnQ := rdReqO s && i.rdAck
  checkEnQ1 := s.checkEnQ
  rdTagQ := (rdTagD s i.pref).tag
  rdHitOhQ := i.rdHitOh
  wrClVldQ := i.wrClVld
  wrClIdxQ := i.wrClIdx
  rtrnIds :=
    (if evict s i.wrAck then s.rtrnIds.tail else s.rtrnIds) ++
      if i.rtrnVld && s.rtrnIds.length < g.maxTx then [i.rtrnId] else []
  dirtyLock := if (s.dirtyLock.isSome || any (dirty s)) && !sends s i then some (dirtyPtr s i.pref) else none
  txLock := if (s.txLock.isSome || any (txFree s)) && !sends s i then some (txId s i.pref) else none

end Next

end Wbuffer
end Dcache
end Ariane

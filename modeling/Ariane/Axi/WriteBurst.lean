/-
# The write bursts of the AXI engines

`axi_shim` (`src/axi_shim.sv`), of which `Adapter.lean` has the state machine of the write
channel, and `axi_adapter` (`src/axi_adapter.sv`), with its reads. Both say in their state which
of the two write channels is still to come, and count the words up or down. Both follow what has
been taken of the burst (`shimAt`, `adapterAt`), so `Lib.Burst.transfers` holds of both.

The counter of `axi_adapter` wraps; that of `axi_shim` stays within the burst and is a number.
A burst of a whole line goes only to an adapter whose lines have more than one word: the adapters
of single words get `SINGLE_REQ`.
-/
import Ariane.Axi.Adapter
import Ariane.Lib.Burst
import Mathlib.Data.Nat.Log

namespace Ariane
namespace Axi
namespace WriteBurst

open Lib (Machine)
open Lib.Burst (Engine Job Offer Sent)

/-! ### The channels -/

structure Aw (w : ℕ) where
  addr : BitVec 64
  size : BitVec 3
  len : BitVec 8
  burst : BitVec 2
  id : BitVec w
  lock : Bool
  atop : BitVec 6
deriving DecidableEq

structure W where
  data : Word
  strb : BitVec 8
  last : Bool
deriving DecidableEq

/-- The beats of a burst of `len + 1` words: the last one is marked. -/
def beats (len : ℕ) (data : ℕ → Word) (be : ℕ → BitVec 8) : List W :=
  (List.range (len + 1)).map fun k => ⟨data k, be k, k == len⟩

theorem length_beats (len : ℕ) (data : ℕ → Word) (be : ℕ → BitVec 8) : (beats len data be).length = len + 1 := by
  simp [beats]

theorem getElem?_beats {len k : ℕ} (h : k ≤ len) (data : ℕ → Word) (be : ℕ → BitVec 8) :
    (beats len data be)[k]? = some ⟨data k, be k, k == len⟩ := by
  rw [beats, List.getElem?_map, List.getElem?_range (Nat.lt_succ_of_le h)]
  rfl

theorem getElem?_beats_end (len : ℕ) (data : ℕ → Word) (be : ℕ → BitVec 8) :
    (beats len data be)[len + 1]? = none :=
  List.getElem?_eq_none (length_beats len data be).le

/-! ### `axi_shim` -/

/-- A write request: a burst of `blen + 1` of the `n` words, an AXI burst at most. -/
structure WrReq (n w : ℕ) where
  addr : BitVec 64
  data : ℕ → Word
  be : ℕ → BitVec 8
  blen : ℕ
  size : BitVec 2
  id : BitVec w
  lock : Bool
  atop : BitVec 6
  blen_lt : blen < n
  blen_lt_axi : blen < 256

structure ShimIn (n w : ℕ) where
  wrReq : Bool
  wr : WrReq n w
  awReady : Bool
  wReady : Bool

variable {n w : ℕ}

def shimAw (r : WrReq n w) : Aw w where
  addr := r.addr
  size := r.size.setWidth 3
  len := BitVec.ofNat 8 r.blen
  burst := if r.blen = 0 then 0 else 1
  id := r.id
  lock := r.lock
  atop := r.atop

/-- What the write channels of the shim show. -/
def shimOffer (s : Shim) (i : ShimIn n w) : Offer (Aw w) W :=
  let o := s.write i.wrReq i.wr.blen i.awReady i.wReady
  { aw := if o.awValid then some (shimAw i.wr) else none
    w := if o.wValid then some ⟨i.wr.data s.wrCnt, i.wr.be s.wrCnt, s.wrCnt == i.wr.blen⟩ else none
    gnt := o.wrGnt }

def shimJob (r : WrReq n w) : Job (Aw w) W := ⟨shimAw r, beats r.blen r.data r.be⟩

def shim (n w : ℕ) : Engine Shim (ShimIn n w) (WrReq n w) (Aw w) W where
  init s := s = ⟨.idle, 0⟩
  next s i := s.next (s.write i.wrReq i.wr.blen i.awReady i.wReady)
  offer := shimOffer
  req i := if i.wrReq then some i.wr else none
  job r := some (shimJob r)
  busy _ := false
  awReady := ShimIn.awReady
  wReady := ShimIn.wReady

/-- What a state of the shim says of the burst. -/
def shimAt (s : Shim) (held : Option (WrReq n w)) (m : Sent) : Prop :=
  match s.wrState with
  | .idle => s.wrCnt = 0 ∧ m = Sent.start
  | .waitAwReady => ∃ r ∈ held, r.blen = 0 ∧ s.wrCnt = 0 ∧ m = ⟨false, 1⟩
  | .waitAwReadyBurst => ∃ r ∈ held, s.wrCnt = 0 ∧ m = ⟨false, r.blen + 1⟩
  | .waitLastWReadyAwReady => ∃ r ∈ held, s.wrCnt ≤ r.blen ∧ m = ⟨false, s.wrCnt⟩
  | .waitLastWReady => ∃ r ∈ held, s.wrCnt ≤ r.blen ∧ m = ⟨true, s.wrCnt⟩

theorem shim_req {i : ShimIn n w} {r : WrReq n w} (h : (shim n w).req i = some r) : i.wrReq = true ∧ i.wr = r := by
  change (if i.wrReq then some i.wr else none) = some r at h
  split at h
  · rename_i hr
    exact ⟨hr, Option.some.inj h⟩
  · cases h

/-- A word of the burst is offered until it is taken, and the burst is done with its last word and
its address. -/
theorem offer_beats (a : Aw w) (len : ℕ) (data : ℕ → Word) (be : ℕ → BitVec 8) {k : ℕ} (h : k ≤ len)
    (sent awReady wReady : Bool) :
    let j : Job (Aw w) W := ⟨a, beats len data be⟩
    let m : Sent := ⟨sent, k⟩
    m.offer j awReady wReady = ⟨if sent then none else some a, some ⟨data k, be k, k == len⟩,
        (sent || awReady) && wReady && k == len⟩ ∧
      m.next j awReady wReady = if (sent || awReady) && wReady && k == len then Sent.start
        else ⟨sent || awReady, if wReady then k + 1 else k⟩ := by
  have hlt : k < len + 1 := Nat.lt_succ_of_le h
  have hdone : (Sent.take ⟨sent, k⟩ (⟨a, beats len data be⟩ : Job (Aw w) W) awReady wReady).done ⟨a, beats len data be⟩ =
      ((sent || awReady) && wReady && k == len) := by
    cases wReady with
    | false =>
      have hne : k ≠ len + 1 := hlt.ne
      simp [Sent.take, Sent.done, length_beats, hne]
    | true => simp [Sent.take, Sent.done, length_beats, hlt]
  refine ⟨?_, ?_⟩
  · rw [Sent.offer, hdone, getElem?_beats h]
  · rw [Sent.next, hdone]
    simp [Sent.take, length_beats, hlt]

/-- When all the words have been taken, the address is left. -/
theorem offer_beats_end (a : Aw w) (len : ℕ) (data : ℕ → Word) (be : ℕ → BitVec 8) (awReady wReady : Bool) :
    let j : Job (Aw w) W := ⟨a, beats len data be⟩
    let m : Sent := ⟨false, len + 1⟩
    m.offer j awReady wReady = ⟨some a, none, awReady⟩ ∧
      m.next j awReady wReady = if awReady then Sent.start else m := by
  have hdone : (Sent.take ⟨false, len + 1⟩ (⟨a, beats len data be⟩ : Job (Aw w) W) awReady wReady).done
      ⟨a, beats len data be⟩ = awReady := by
    simp [Sent.take, Sent.done, length_beats]
  refine ⟨?_, ?_⟩
  · rw [Sent.offer, hdone, getElem?_beats_end]
    rfl
  · rw [Sent.next, hdone]
    cases awReady <;> simp [Sent.take, length_beats]

theorem shim_follows : (shim n w).Follows shimAt where
  init s h := by
    obtain rfl : s = ⟨.idle, 0⟩ := h
    exact ⟨rfl, rfl⟩
  active s held m i j hR hh hj := by
    obtain ⟨hreq, rfl⟩ : i.wrReq = true ∧ shimJob i.wr = j := by
      obtain ⟨r, hr, hjr⟩ := Option.bind_eq_some_iff.1 (show ((shim n w).req i).bind _ = some j from hj)
      obtain ⟨hreq, rfl⟩ := shim_req hr
      exact ⟨hreq, Option.some.inj hjr⟩
    have hheld : (shim n w).heldD s i = if (shimOffer s i).gnt then none else some i.wr := by
      change (if (shimOffer s i).gnt || false then none else if i.wrReq then some i.wr else none) = _
      rw [hreq, if_pos rfl, Bool.or_false]
    have hr (r) (h : r ∈ held) : r = i.wr := (shim_req (hh r h)).2.symm
    rw [hheld]
    change shimOffer s i = m.offer (shimJob i.wr) i.awReady i.wReady ∧
      shimAt (s.next (s.write i.wrReq i.wr.blen i.awReady i.wReady)) _ (m.next (shimJob i.wr) i.awReady i.wReady) ∧
        (_ → false = false)
    obtain ⟨st, cnt⟩ := s
    cases st with
    | idle =>
      obtain ⟨rfl, rfl⟩ : cnt = 0 ∧ m = Sent.start := hR
      obtain ⟨ho, hn⟩ := offer_beats (shimAw i.wr) i.wr.blen i.wr.data i.wr.be (Nat.zero_le _) false i.awReady i.wReady
      rw [shimJob, Sent.start, ho, hn]
      by_cases hb : i.wr.blen = 0
      · cases har : i.awReady <;> cases hwr : i.wReady <;>
          simp [shimOffer, Shim.write, Shim.next, shimAt, hreq, hb, Sent.start, har, hwr]
      · have hpos : 1 ≤ i.wr.blen := Nat.one_le_iff_ne_zero.2 hb
        cases har : i.awReady <;> cases hwr : i.wReady <;>
          simp [shimOffer, Shim.write, Shim.next, shimAt, hreq, hb, Ne.symm hb, hpos, Sent.start, har, hwr]
    | waitAwReady =>
      obtain ⟨r, hm, hb, rfl, rfl⟩ : ∃ r ∈ held, r.blen = 0 ∧ cnt = 0 ∧ m = ⟨false, 1⟩ := hR
      rw [hr r hm] at hb
      obtain ⟨ho, hn⟩ := offer_beats_end (shimAw i.wr) 0 i.wr.data i.wr.be i.awReady i.wReady
      rw [Nat.zero_add] at ho hn
      rw [shimJob, hb, ho, hn]
      cases har : i.awReady <;> simp [shimOffer, Shim.write, Shim.next, shimAt, hb, Sent.start, har]
    | waitAwReadyBurst =>
      obtain ⟨r, hm, rfl, rfl⟩ : ∃ r ∈ held, cnt = 0 ∧ m = ⟨false, r.blen + 1⟩ := hR
      rw [hr r hm]
      obtain ⟨ho, hn⟩ := offer_beats_end (shimAw i.wr) i.wr.blen i.wr.data i.wr.be i.awReady i.wReady
      rw [shimJob, ho, hn]
      cases har : i.awReady <;> simp [shimOffer, Shim.write, Shim.next, shimAt, Sent.start, har]
    | waitLastWReadyAwReady =>
      obtain ⟨r, hm, hle, rfl⟩ : ∃ r ∈ held, cnt ≤ r.blen ∧ m = ⟨false, cnt⟩ := hR
      rw [hr r hm] at hle
      obtain ⟨ho, hn⟩ := offer_beats (shimAw i.wr) i.wr.blen i.wr.data i.wr.be hle false i.awReady i.wReady
      rw [shimJob, ho, hn]
      cases har : i.awReady <;> cases hwr : i.wReady <;> by_cases hb : cnt = i.wr.blen <;>
        simp [shimOffer, Shim.write, Shim.next, shimAt, hb, Sent.start, har, hwr] <;> omega
    | waitLastWReady =>
      obtain ⟨r, hm, hle, rfl⟩ : ∃ r ∈ held, cnt ≤ r.blen ∧ m = ⟨true, cnt⟩ := hR
      rw [hr r hm] at hle
      obtain ⟨ho, hn⟩ := offer_beats (shimAw i.wr) i.wr.blen i.wr.data i.wr.be hle true i.awReady i.wReady
      rw [shimJob, ho, hn]
      cases hwr : i.wReady <;> by_cases hb : cnt = i.wr.blen <;>
        simp [shimOffer, Shim.write, Shim.next, shimAt, hb, Sent.start, hwr] <;> omega
  idle s held m i hR hh hj := by
    have hreq : i.wrReq = false := by
      by_contra hreq
      rw [Bool.not_eq_false] at hreq
      have hj' : ((if i.wrReq then some i.wr else none).bind fun r => some (shimJob r)) = none := hj
      simp [hreq] at hj'
    have hno (r) (h : r ∈ held) : False := by
      have := (shim_req (hh r h)).1
      rw [hreq] at this
      cases this
    obtain ⟨st, cnt⟩ := s
    cases st with
    | idle =>
      obtain ⟨rfl, rfl⟩ : cnt = 0 ∧ m = Sent.start := hR
      simp [shim, shimOffer, Shim.write, Shim.next, shimAt, hreq]
    | waitAwReady => exact (hno _ hR.choose_spec.1).elim
    | waitAwReadyBurst => exact (hno _ hR.choose_spec.1).elim
    | waitLastWReadyAwReady => exact (hno _ hR.choose_spec.1).elim
    | waitLastWReady => exact (hno _ hR.choose_spec.1).elim

/-! ### `axi_adapter` -/

/-- The parameters: the words of a line (`DATA_WIDTH / 64`), which one AXI burst takes, and how
reads go. -/
structure AdCfg where
  words : ℕ
  idWidth : ℕ
  criticalWordFirst : Bool
  cachelineByteOffset : ℕ
  words_pos : 0 < words
  words_le : words ≤ 256

/-- `ad_req_t`. -/
inductive AdType
  | singleReq | cacheLineReq
deriving DecidableEq, Repr

variable {c : AdCfg}

/-- A request. A burst is of a line of more than one word. -/
structure AdReq (c : AdCfg) where
  type : AdType
  addr : BitVec 64
  we : Bool
  wdata : ℕ → Word
  be : ℕ → BitVec 8
  size : BitVec 2
  id : BitVec c.idWidth
  line : type = .cacheLineReq → 1 < c.words

inductive AdState
  | idle | waitBValid | waitAwReady | waitLastWReady | waitLastWReadyAwReady | waitAwReadyBurst | waitRValid
  | waitRValidMultiple | completeRead
deriving DecidableEq, Repr

structure AdRegs (c : AdCfg) where
  state : AdState
  cnt : ℕ
  cacheLine : ℕ → Word
  addrOffset : ℕ
  id : BitVec c.idWidth

structure AdIn (c : AdCfg) where
  req : Bool
  r : AdReq c
  awReady : Bool
  wReady : Bool
  arReady : Bool
  bValid : Bool
  bId : BitVec c.idWidth
  rValid : Bool
  rId : BitVec c.idWidth
  rData : Word
  rLast : Bool

structure Ar (w : ℕ) where
  addr : BitVec 64
  size : BitVec 3
  len : BitVec 8
  burst : BitVec 2
  id : BitVec w
deriving DecidableEq

/-- The outputs of `axi_fsm`, and the registers' next values. -/
structure AdOut (c : AdCfg) where
  aw : Option (Aw c.idWidth)
  w : Option W
  ar : Option (Ar c.idWidth)
  bReady : Bool
  rReady : Bool
  gnt : Bool
  valid : Bool
  id : BitVec c.idWidth
  criticalWordValid : Bool
  stateD : AdState
  cntD : ℕ
  cacheLineD : ℕ → Word
  addrOffsetD : ℕ
  idD : BitVec c.idWidth

namespace AdCfg

variable (c : AdCfg)

/-- `BURST_SIZE`. -/
def burstSize : ℕ := c.words - 1

/-- `ADDR_INDEX`. -/
def addrIndex : ℕ := if 0 < Nat.clog 2 c.words then Nat.clog 2 c.words else 1

/-- The counter, one down. -/
def decr (k : ℕ) : ℕ := (k + (2 ^ c.addrIndex - 1)) % 2 ^ c.addrIndex

theorem words_le_two_pow : c.words ≤ 2 ^ c.addrIndex := by
  have hclog := Nat.le_pow_clog (b := 2) (by decide) c.words
  unfold addrIndex
  split
  · exact hclog
  · rename_i h
    rw [Nat.eq_zero_of_not_pos h] at hclog
    exact hclog.trans (by decide)

theorem decr_eq {k : ℕ} (hk : 0 < k) (hle : k ≤ c.burstSize) : c.decr k = k - 1 := by
  have hw := c.words_le_two_pow
  have hlt : k < 2 ^ c.addrIndex := by
    have := c.words_pos
    unfold burstSize at hle
    omega
  rw [decr, show k + (2 ^ c.addrIndex - 1) = (k - 1) + 2 ^ c.addrIndex by omega, Nat.add_mod_right,
    Nat.mod_eq_of_lt (by omega)]

end AdCfg

def AdType.burst (t : AdType) : BitVec 2 := if t = .singleReq then 0 else 1

def adAw (r : AdReq c) (len : ℕ) : Aw c.idWidth :=
  ⟨r.addr, r.size.setWidth 3, BitVec.ofNat 8 len, r.type.burst, r.id, false, 0⟩

def adAr (r : AdReq c) (len : ℕ) : Ar c.idWidth where
  addr :=
    if c.criticalWordFirst || r.type = .singleReq then r.addr
    else r.addr &&& ~~~(BitVec.ofNat 64 (2 ^ c.cachelineByteOffset - 1))
  size := r.size.setWidth 3
  len := BitVec.ofNat 8 len
  burst := if r.type = .singleReq then 0 else if c.criticalWordFirst then 2 else 1
  id := r.id

/-- `index`: the place of the word that is read. -/
def readIndex (s : AdRegs c) : ℕ :=
  let k := c.burstSize + (2 ^ c.addrIndex - s.cnt)
  (if c.criticalWordFirst then s.addrOffset + k else k) % 2 ^ c.addrIndex

/-- `axi_fsm`. -/
def axiFsm (s : AdRegs c) (i : AdIn c) : AdOut c :=
  let o : AdOut c := ⟨none, none, none, false, false, false, false, i.rId, false, s.state, s.cnt, s.cacheLine, s.addrOffset, s.id⟩
  let r := i.r
  let single := decide (r.type = .singleReq)
  let word (last : Bool) : W := ⟨r.wdata (c.burstSize - s.cnt), r.be (c.burstSize - s.cnt), last⟩
  match s.state with
  | .idle =>
    let o := { o with cntD := 0 }
    if !i.req then o
    else if r.we then
      if single then
        { o with
          aw := some (adAw r 0), w := some ⟨r.wdata 0, r.be 0, true⟩, gnt := i.awReady && i.wReady
          stateD :=
            match i.awReady, i.wReady with
            | true, true => .waitBValid
            | false, true => .waitAwReady
            | true, false => .waitLastWReady
            | false, false => .idle }
      else
        { o with
          aw := some (adAw r c.burstSize), w := some ⟨r.wdata 0, r.be 0, false⟩
          cntD := if i.wReady then c.decr c.burstSize else c.burstSize
          stateD :=
            match i.awReady, i.wReady with
            | true, _ => .waitLastWReady
            | false, true => .waitLastWReadyAwReady
            | false, false => .idle }
    else
      let len := if single then 0 else c.burstSize
      { o with
        ar := some (adAr r len), gnt := i.arReady, cntD := len
        stateD := if i.arReady then (if single then .waitRValid else .waitRValidMultiple) else .idle
        addrOffsetD := if i.arReady then (r.addr.extractLsb' 3 c.addrIndex).toNat else s.addrOffset }
  | .waitAwReady =>
    let o := { o with aw := some (adAw r 0) }
    if i.awReady then { o with gnt := true, stateD := .waitBValid } else o
  | .waitLastWReadyAwReady =>
    let last := s.cnt == 0
    let o := { o with
      aw := some (adAw r c.burstSize)
      w := some (if single then ⟨r.wdata 0, r.be 0, last⟩ else word last) }
    match i.awReady, i.wReady with
    | false, true => if s.cnt = 0 then { o with stateD := .waitAwReadyBurst } else { o with cntD := c.decr s.cnt }
    | true, false => { o with stateD := .waitLastWReady }
    | true, true =>
      if s.cnt = 0 then { o with stateD := .waitBValid, gnt := true }
      else { o with stateD := .waitLastWReady, cntD := c.decr s.cnt }
    | false, false => o
  | .waitAwReadyBurst =>
    let o := { o with aw := some (adAw r c.burstSize) }
    if i.awReady then { o with gnt := true, stateD := .waitBValid } else o
  | .waitLastWReady =>
    let last := s.cnt == 0
    let o := { o with w := some (if single then ⟨r.wdata 0, r.be 0, last⟩ else word last) }
    if s.cnt = 0 then if i.wReady then { o with stateD := .waitBValid, gnt := true } else o
    else if i.wReady then { o with cntD := c.decr s.cnt } else o
  | .waitBValid =>
    let o := { o with bReady := true, id := i.bId }
    if i.bValid then { o with stateD := .idle, valid := true } else o
  | .waitRValid | .waitRValidMultiple =>
    let o := { o with rReady := true }
    let multiple := s.state == .waitRValidMultiple
    if i.rValid then
      { o with
        criticalWordValid :=
          if c.criticalWordFirst then multiple && s.cnt == c.burstSize else readIndex s == s.addrOffset
        idD := if i.rLast then i.rId else s.id
        stateD := if i.rLast then .completeRead else s.state
        cacheLineD := Function.update s.cacheLine (if multiple then readIndex s else 0) i.rData
        cntD := c.decr s.cnt }
    else o
  | .completeRead => { o with valid := true, stateD := .idle, id := s.id }

def AdRegs.next (s : AdRegs c) (i : AdIn c) : AdRegs c :=
  let o := axiFsm s i
  ⟨o.stateD, o.cntD, o.cacheLineD, o.addrOffsetD, o.idD⟩

def AdRegs.reset : AdRegs c := ⟨.idle, 0, fun _ => 0, 0, 0⟩

/-- The words of a burst, less one. -/
def adLen (r : AdReq c) : ℕ := if r.type = .singleReq then 0 else c.burstSize

def adWrite (r : AdReq c) : Job (Aw c.idWidth) W := ⟨adAw r (adLen r), beats (adLen r) r.wdata r.be⟩

/-- The burst of a write request. -/
def adJob (r : AdReq c) : Option (Job (Aw c.idWidth) W) := if r.we then some (adWrite r) else none

/-- The adapter waits for a response. -/
def AdState.busy : AdState → Bool
  | .waitBValid | .waitRValid | .waitRValidMultiple | .completeRead => true
  | _ => false

def adapter (c : AdCfg) : Engine (AdRegs c) (AdIn c) (AdReq c) (Aw c.idWidth) W where
  init s := s = AdRegs.reset
  next := AdRegs.next
  offer s i := ⟨(axiFsm s i).aw, (axiFsm s i).w, (axiFsm s i).gnt⟩
  req i := if i.req then some i.r else none
  job := adJob
  busy s := s.state.busy
  awReady := AdIn.awReady
  wReady := AdIn.wReady

/-- What a state of the adapter says of the burst. -/
def adapterAt (s : AdRegs c) (held : Option (AdReq c)) (m : Sent) : Prop :=
  match s.state with
  | .waitAwReady => ∃ r ∈ held, r.we = true ∧ r.type = .singleReq ∧ m = ⟨false, 1⟩
  | .waitAwReadyBurst => ∃ r ∈ held, r.we = true ∧ r.type = .cacheLineReq ∧ m = ⟨false, c.burstSize + 1⟩
  | .waitLastWReadyAwReady => ∃ r ∈ held, r.we = true ∧ r.type = .cacheLineReq ∧ s.cnt ≤ c.burstSize ∧
      m = ⟨false, c.burstSize - s.cnt⟩
  | .waitLastWReady => ∃ r ∈ held, r.we = true ∧ s.cnt ≤ adLen r ∧ m = ⟨true, adLen r - s.cnt⟩
  | _ => m = Sent.start

theorem adapter_req {i : AdIn c} {r : AdReq c} (h : (adapter c).req i = some r) : i.req = true ∧ i.r = r := by
  change (if i.req then some i.r else none) = some r at h
  split at h
  · rename_i hr
    exact ⟨hr, Option.some.inj h⟩
  · cases h

theorem adapter_follows : (adapter c).Follows adapterAt where
  init s h := by
    obtain rfl : s = AdRegs.reset := h
    rfl
  active s held m i j hR hh hj := by
    obtain ⟨hbusy, hreq, hwe, rfl⟩ : s.state.busy = false ∧ i.req = true ∧ i.r.we = true ∧ adWrite i.r = j := by
      have hj' : (if s.state.busy then none else ((adapter c).req i).bind adJob) = some j := hj
      split at hj'
      · cases hj'
      · rename_i hb
        obtain ⟨r, hr, hjr⟩ := Option.bind_eq_some_iff.1 hj'
        obtain ⟨hreq, rfl⟩ := adapter_req hr
        unfold adJob at hjr
        split at hjr
        · rename_i hwe
          exact ⟨Bool.eq_false_of_not_eq_true hb, hreq, hwe, Option.some.inj hjr⟩
        · cases hjr
    have hr (r) (h : r ∈ held) : r = i.r := (adapter_req (hh r h)).2.symm
    have hheld : (adapter c).heldD s i = if (axiFsm s i).gnt then none else some i.r := by
      change (if (axiFsm s i).gnt || s.state.busy then none else if i.req then some i.r else none) = _
      rw [hreq, hbusy, if_pos rfl, Bool.or_false]
    rw [hheld]
    change (⟨(axiFsm s i).aw, (axiFsm s i).w, (axiFsm s i).gnt⟩ : Offer (Aw c.idWidth) W) =
        m.offer (adWrite i.r) i.awReady i.wReady ∧
      adapterAt (s.next i) (if (axiFsm s i).gnt then none else some i.r) (m.next (adWrite i.r) i.awReady i.wReady) ∧
        ((axiFsm s i).gnt = false → (s.next i).state.busy = false)
    obtain ⟨st, cnt, line, off, id⟩ := s
    cases st with
    | idle =>
      obtain rfl : m = Sent.start := hR
      obtain ⟨ho, hn⟩ := offer_beats (adAw i.r (adLen i.r)) (adLen i.r) i.r.wdata i.r.be (Nat.zero_le _) false
        i.awReady i.wReady
      rw [adWrite, Sent.start, ho, hn]
      cases ht : i.r.type with
      | singleReq =>
        have hl : adLen i.r = 0 := if_pos ht
        rw [hl]
        cases har : i.awReady <;> cases hwr : i.wReady <;>
          simp [axiFsm, AdRegs.next, adapterAt, AdState.busy, hreq, hwe, ht, hl, har, hwr, Sent.start]
      | cacheLineReq =>
        have hl : adLen i.r = c.burstSize := if_neg (by rw [ht]; decide)
        have hpos : 0 < c.burstSize := Nat.sub_pos_of_lt (i.r.line ht)
        have hdec := c.decr_eq hpos le_rfl
        rw [hl]
        cases har : i.awReady <;> cases hwr : i.wReady <;>
          simp [axiFsm, AdRegs.next, adapterAt, AdState.busy, hreq, hwe, ht, hl, har, hwr, hdec, hpos.ne, Sent.start] <;>
          omega
    | waitAwReady =>
      obtain ⟨r, hm, -, ht, rfl⟩ : ∃ r ∈ held, r.we = true ∧ r.type = .singleReq ∧ m = ⟨false, 1⟩ := hR
      rw [hr r hm] at ht
      have hl : adLen i.r = 0 := if_pos ht
      obtain ⟨ho, hn⟩ := offer_beats_end (adAw i.r 0) 0 i.r.wdata i.r.be i.awReady i.wReady
      rw [Nat.zero_add] at ho hn
      rw [adWrite, hl, ho, hn]
      cases har : i.awReady <;> simp [axiFsm, AdRegs.next, adapterAt, AdState.busy, ht, hwe, har, Sent.start]
    | waitAwReadyBurst =>
      obtain ⟨r, hm, -, ht, rfl⟩ :
        ∃ r ∈ held, r.we = true ∧ r.type = .cacheLineReq ∧ m = ⟨false, c.burstSize + 1⟩ := hR
      rw [hr r hm] at ht
      have hl : adLen i.r = c.burstSize := if_neg (by rw [ht]; decide)
      obtain ⟨ho, hn⟩ := offer_beats_end (adAw i.r c.burstSize) c.burstSize i.r.wdata i.r.be i.awReady i.wReady
      rw [adWrite, hl, ho, hn]
      cases har : i.awReady <;> simp [axiFsm, AdRegs.next, adapterAt, AdState.busy, ht, hwe, har, Sent.start]
    | waitLastWReadyAwReady =>
      obtain ⟨r, hm, -, ht, hle, rfl⟩ : ∃ r ∈ held, r.we = true ∧ r.type = .cacheLineReq ∧ cnt ≤ c.burstSize ∧
        m = ⟨false, c.burstSize - cnt⟩ := hR
      rw [hr r hm] at ht
      have hl : adLen i.r = c.burstSize := if_neg (by rw [ht]; decide)
      obtain ⟨ho, hn⟩ := offer_beats (adAw i.r c.burstSize) c.burstSize i.r.wdata i.r.be (Nat.sub_le c.burstSize cnt) false
        i.awReady i.wReady
      have hlast : (c.burstSize - cnt == c.burstSize) = (cnt == 0) := by
        rw [Bool.eq_iff_iff, beq_iff_eq, beq_iff_eq]
        have := Nat.sub_pos_of_lt (i.r.line ht)
        unfold AdCfg.burstSize at hle ⊢
        omega
      rw [adWrite, hl, ho, hn, hlast]
      by_cases h0 : cnt = 0
      · cases har : i.awReady <;> cases hwr : i.wReady <;>
          simp [axiFsm, AdRegs.next, adapterAt, AdState.busy, ht, hwe, hl, har, hwr, h0, Sent.start]
      · have hdec := c.decr_eq (Nat.pos_of_ne_zero h0) hle
        cases har : i.awReady <;> cases hwr : i.wReady <;>
          simp [axiFsm, AdRegs.next, adapterAt, AdState.busy, ht, hwe, hl, har, hwr, h0, hdec] <;> omega
    | waitLastWReady =>
      obtain ⟨r, hm, -, hle, rfl⟩ : ∃ r ∈ held, r.we = true ∧ cnt ≤ adLen r ∧ m = ⟨true, adLen r - cnt⟩ := hR
      rw [hr r hm] at hle ⊢
      obtain ⟨ho, hn⟩ := offer_beats (adAw i.r (adLen i.r)) (adLen i.r) i.r.wdata i.r.be (Nat.sub_le (adLen i.r) cnt) true
        i.awReady i.wReady
      have hlast : (adLen i.r - cnt == adLen i.r) = (cnt == 0) := by
        rw [Bool.eq_iff_iff, beq_iff_eq, beq_iff_eq]
        omega
      rw [adWrite, ho, hn, hlast]
      cases ht : i.r.type with
      | singleReq =>
        have hl : adLen i.r = 0 := if_pos ht
        rw [hl] at hle ⊢
        obtain rfl := Nat.le_zero.1 hle
        cases hwr : i.wReady <;> simp [axiFsm, AdRegs.next, adapterAt, AdState.busy, ht, hwe, hl, hwr, Sent.start]
      | cacheLineReq =>
        have hl : adLen i.r = c.burstSize := if_neg (by rw [ht]; decide)
        rw [hl] at hle ⊢
        by_cases h0 : cnt = 0
        · cases hwr : i.wReady <;> simp [axiFsm, AdRegs.next, adapterAt, AdState.busy, ht, hwe, hl, hwr, h0, Sent.start]
        · have hdec := c.decr_eq (Nat.pos_of_ne_zero h0) hle
          cases hwr : i.wReady <;>
            simp [axiFsm, AdRegs.next, adapterAt, AdState.busy, ht, hwe, hl, hwr, h0, hdec] <;> omega
    | waitBValid => cases hbusy
    | waitRValid => cases hbusy
    | waitRValidMultiple => cases hbusy
    | completeRead => cases hbusy
  idle s held m i hR hh hj := by
    have hj' : (if s.state.busy then none else ((adapter c).req i).bind adJob) = none := hj
    have hno (hb : s.state.busy = false) (r) (h : r ∈ held) (hwe : r.we = true) : False := by
      rw [hb, if_neg Bool.false_ne_true, hh r h, Option.bind_some, adJob, if_pos hwe] at hj'
      cases hj'
    -- without a write nothing is offered
    have hread (hb : s.state.busy = false) : i.req = true → i.r.we = false := by
      intro hreq
      by_contra hwe
      have hreq' : (adapter c).req i = some i.r := if_pos hreq
      rw [hb, if_neg Bool.false_ne_true, hreq', Option.bind_some, adJob, if_pos (by simpa using hwe)] at hj'
      cases hj'
    change (axiFsm s i).aw = none ∧ (axiFsm s i).w = none ∧ m = Sent.start ∧ adapterAt (s.next i) _ Sent.start ∧
      ((axiFsm s i).gnt = true → ∃ r, (if i.req then some i.r else none) = some r ∧ adJob r = none)
    obtain ⟨st, cnt, line, off, id⟩ := s
    cases st with
    | waitAwReady => exact (hno rfl _ hR.choose_spec.1 hR.choose_spec.2.1).elim
    | waitAwReadyBurst => exact (hno rfl _ hR.choose_spec.1 hR.choose_spec.2.1).elim
    | waitLastWReadyAwReady => exact (hno rfl _ hR.choose_spec.1 hR.choose_spec.2.1).elim
    | waitLastWReady => exact (hno rfl _ hR.choose_spec.1 hR.choose_spec.2.1).elim
    | idle =>
      obtain rfl : m = Sent.start := hR
      have hwe := hread rfl
      cases hreq : i.req with
      | false => simp [axiFsm, AdRegs.next, adapterAt, hreq]
      | true =>
        cases har : i.arReady <;> cases ht : i.r.type <;>
          simp [axiFsm, AdRegs.next, adapterAt, adJob, hreq, hwe hreq, har, ht]
    | waitBValid =>
      obtain rfl : m = Sent.start := hR
      cases hb : i.bValid <;> simp [axiFsm, AdRegs.next, adapterAt, hb]
    | waitRValid =>
      obtain rfl : m = Sent.start := hR
      cases hv : i.rValid <;> cases hl : i.rLast <;> simp [axiFsm, AdRegs.next, adapterAt, hv, hl]
    | waitRValidMultiple =>
      obtain rfl : m = Sent.start := hR
      cases hv : i.rValid <;> cases hl : i.rLast <;> simp [axiFsm, AdRegs.next, adapterAt, hv, hl]
    | completeRead =>
      obtain rfl : m = Sent.start := hR
      simp [axiFsm, AdRegs.next, adapterAt]

/-! ### The result -/

/-- The length of a burst is the one on the bus, and its last beat is marked. -/
structure Marked {w : ℕ} (j : Job (Aw w) W) : Prop where
  len : j.beats.length = j.aw.len.toNat + 1
  last : ∀ k b, j.beats[k]? = some b → (b.last = true ↔ k + 1 = j.beats.length)

theorem marked_beats {w len : ℕ} {a : Aw w} {data : ℕ → Word} {be : ℕ → BitVec 8} (ha : a.len = BitVec.ofNat 8 len)
    (hlen : len < 256) : Marked ⟨a, beats len data be⟩ where
  len := by rw [ha, length_beats, BitVec.toNat_ofNat, Nat.mod_eq_of_lt hlen]
  last k b hb := by
    have hk : k < (beats len data be).length := (List.getElem?_eq_some_iff.1 hb).1
    rw [length_beats] at hk ⊢
    rw [getElem?_beats (Nat.le_of_lt_succ hk)] at hb
    rw [← Option.some.inj hb, beq_iff_eq, Nat.add_right_cancel_iff]

theorem marked_shimJob (r : WrReq n w) : Marked (shimJob r) := marked_beats rfl r.blen_lt_axi

theorem marked_adWrite (r : AdReq c) : Marked (adWrite r) := by
  refine marked_beats rfl ?_
  have hle := c.words_le
  have hpos := c.words_pos
  unfold adLen AdCfg.burstSize
  split <;> omega

/-- **Write bursts.** Each engine, whatever the lengths and whichever channel is ready when, sends
each write once, the beats in order and the last one marked, and grants it with the last
handshake. -/
theorem bursts_once :
    (∀ (n w : ℕ) (t₀ : Lib.Burst.Tracked Shim (WrReq n w) (Aw w) W) (is : List (ShimIn n w)),
      (Lib.Burst.tracked (shim n w)).init t₀ →
      (Lib.Burst.tracked (shim n w)).Steps (Lib.Burst.Held (shim n w)) t₀ is →
      (Lib.Burst.tracked (shim n w)).Steps (Lib.Burst.Transfers (shim n w)) t₀ is) ∧
    (∀ (c : AdCfg) (t₀ : Lib.Burst.Tracked (AdRegs c) (AdReq c) (Aw c.idWidth) W) (is : List (AdIn c)),
      (Lib.Burst.tracked (adapter c)).init t₀ →
      (Lib.Burst.tracked (adapter c)).Steps (Lib.Burst.Held (adapter c)) t₀ is →
      (Lib.Burst.tracked (adapter c)).Steps (Lib.Burst.Transfers (adapter c)) t₀ is) ∧
    (∀ (n w : ℕ) (r : WrReq n w), Marked (shimJob r)) ∧ ∀ (c : AdCfg) (r : AdReq c), Marked (adWrite r) :=
  ⟨fun _ _ t₀ is h0 => Lib.Burst.transfers shim_follows t₀ h0 is,
    fun _ t₀ is h0 => Lib.Burst.transfers adapter_follows t₀ h0 is, fun _ _ => marked_shimJob, fun _ => marked_adWrite⟩

/-- Three words, of which the shim sends two before their address is taken. -/
def lateAw : List (ShimIn 4 4) :=
  let wr : WrReq 4 4 := ⟨0x80000000, fun k => BitVec.ofNat 64 k, fun _ => 0xff, 2, 3, 1, false, 0, by decide, by decide⟩
  [⟨true, wr, false, true⟩, ⟨true, wr, false, true⟩, ⟨true, wr, true, false⟩, ⟨true, wr, false, true⟩]

def lineCfg : AdCfg := ⟨2, 4, false, 4, Nat.two_pos, by decide⟩

/-- A line of two words, whose address is taken with the first word. -/
def lineWrite : List (AdIn lineCfg) :=
  let r : AdReq lineCfg := ⟨.cacheLineReq, 0x80000000, true, fun k => BitVec.ofNat 64 k, fun _ => 0xff, 3, 12, fun _ => by decide⟩
  [⟨true, r, false, false, false, false, 0, false, 0, 0, false⟩,
    ⟨true, r, true, true, false, false, 0, false, 0, 0, false⟩,
    ⟨true, r, false, true, false, false, 0, false, 0, 0, false⟩,
    ⟨false, r, false, false, false, true, 12, false, 0, 0, false⟩]

theorem bursts_once_late :
    (Lib.Burst.tracked (shim 4 4)).Steps (Lib.Burst.Transfers (shim 4 4))
      ⟨⟨.idle, 0⟩, none, [], [], none, none, 0, 0⟩ lateAw ∧
    (Lib.Burst.tracked (adapter lineCfg)).Steps (Lib.Burst.Transfers (adapter lineCfg))
      ⟨AdRegs.reset, none, [], [], none, none, 0, 0⟩ lineWrite := by
  refine ⟨bursts_once.1 4 4 _ _ ⟨rfl, rfl, rfl, rfl, rfl, rfl, rfl, rfl⟩ ?_,
    bursts_once.2.1 lineCfg _ _ ⟨rfl, rfl, rfl, rfl, rfl, rfl, rfl, rfl⟩ ?_⟩
  · exact ⟨fun _ h => (nomatch h), fun _ h => h, fun _ h => h, fun _ h => h, trivial⟩
  · exact ⟨fun _ h => (nomatch h), fun _ h => h, fun _ h => h, fun _ h => (nomatch h), trivial⟩

end WriteBurst
end Axi
end Ariane

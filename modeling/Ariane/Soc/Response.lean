/-
# Denied requests

The response block of a master (`axi_response_block.sv`) joins its address decoders with the
allocators that give the answers: `axi_BR_allocator.sv` for reads, `axi_BW_allocator.sv` for
writes, and `axi_address_decoder_DW.sv` that routes the write data. A request that goes to no
port is answered by the allocator itself, with `DECERR`.

The requests that were denied and the answers that were taken are logged (`ReadLog`,
`WriteLog`). Along a run whose edges fit, what was taken and what is owed is what was asked
for, and nothing of a denied request reaches a port (`denied_answered`). An edge that does not
fit is one of the ways the block goes wrong: the length of a read's answer is compared with the
length on the live channel, its last flag is the arbiter's while the master is not ready, a new
request is taken while a single answer still waits, and write data are taken by the port of an
old write while no destination is known.
-/
import Ariane.Soc.AccessCtrl
import Ariane.Soc.Decoders
import Ariane.Lib.Fifo
import Ariane.Lib.Machine

namespace Ariane
namespace Soc

open Riscv Lib

/-! ### Outstanding transactions -/

/-- `outstanding_counter`, which saturates at both ends. -/
def countOutstanding (c : BitVec 10) (incr decr : Bool) : BitVec 10 :=
  match incr, decr with
  | false, true => if c = 0 then 0 else c - 1
  | true, false => if c = BitVec.allOnes 10 then c else c + 1
  | _, _ => c

/-- `RESP_DECERR`. -/
def respDecerr : BitVec 2 := 3

/-! ### The read allocator -/

/-- A beat of the read channel. -/
structure RBeat where
  id : BitVec 4
  data : BitVec 64
  resp : BitVec 2
  last : Bool
deriving DecidableEq, Repr

/-- `CS` of the read allocator. -/
inductive BrState
  | operative | goError | errorSingle | errorBurst
deriving DecidableEq, Repr

/-- The registers of the read decoder and the read allocator. -/
structure Reads where
  ar : ArState
  br : BrState
  counterBurst : BitVec 8
  errorLen : BitVec 8
  errorId : BitVec 4
  outstanding : BitVec 10
deriving DecidableEq

/-- The pins of the read side. `arb` is the beat of the arbiter of the ports' answers. -/
structure RIn where
  conn : Periph → Bool
  req : AxReq
  arready : Periph → Bool
  arbValid : Bool
  arb : RBeat
  rready : Bool

namespace Reads

def reset : Reads := ⟨.operative, .operative, 0, 0, 0, 0⟩

/-- `outstanding_trans_o`. -/
def outstandingTrans (s : Reads) : Bool := s.outstanding != 0

/-- The allocator gives an answer of its own. -/
def answering (s : Reads) : Bool := s.br == .errorSingle || s.br == .errorBurst

/-- The beat of an error. -/
def errorBeat (id : BitVec 4) (last : Bool) : RBeat := ⟨id, 0xDEADBEEFDEADBEEF, respDecerr, last⟩

/-- `rvalid_o`. -/
def rvalidO (s : Reads) (i : RIn) : Bool := s.answering || i.arbValid

/-- The beat on the read channel. A burst's `rlast_o` is the arbiter's until the master is
ready, and then compares with the length on the request channel. -/
def rbeatO (s : Reads) (i : RIn) : RBeat :=
  match s.br with
  | .errorSingle => errorBeat s.errorId true
  | .errorBurst =>
    errorBeat s.errorId (if i.rready then !decide (s.counterBurst < i.req.len) else i.arb.last)
  | _ => i.arb

/-- `arb_rready`. -/
def arbRready (s : Reads) (i : RIn) : Bool := !s.answering && i.rready

/-- `error_gnt_o`. -/
def errorGnt (s : Reads) (i : RIn) : Bool :=
  match s.br with
  | .errorSingle => true
  | .errorBurst => i.rready && !decide (s.counterBurst < i.req.len)
  | _ => false

/-- `NS`. -/
def brNext (s : Reads) (i : RIn) : BrState :=
  match s.br with
  | .operative =>
    if arError i.conn i.req then
      if s.outstandingTrans then .goError else if i.req.len = 0 then .errorSingle else .errorBurst
    else .operative
  | .goError =>
    if s.outstandingTrans then .goError else if s.errorLen = 0 then .errorSingle else .errorBurst
  | .errorSingle => if i.rready then .operative else .errorSingle
  | .errorBurst =>
    if i.rready then if s.counterBurst < i.req.len then .errorBurst else .operative else .errorBurst

/-- `CounterBurstNS`. -/
def counterBurstNext (s : Reads) (i : RIn) : BitVec 8 :=
  match s.br with
  | .errorBurst =>
    if i.rready then if s.counterBurst < i.req.len then s.counterBurst + 1 else 0 else s.counterBurst
  | _ => 0

/-- The request is sampled for its answer. -/
def sample (s : Reads) (i : RIn) : Bool := sampleArdata s.ar i.conn i.req

/-- `arready_o`. -/
def arreadyO (s : Reads) (i : RIn) : Bool := Soc.arreadyO s.ar i.conn i.req i.arready (s.errorGnt i)

/-- The read side after an edge. -/
def next (s : Reads) (i : RIn) : Reads where
  ar := s.ar.next i.conn i.req s.outstandingTrans (s.errorGnt i)
  br := s.brNext i
  counterBurst := s.counterBurstNext i
  errorLen := if s.sample i then i.req.len else s.errorLen
  errorId := if s.sample i then i.req.id else s.errorId
  outstanding := countOutstanding s.outstanding (arIncr s.ar i.conn i.req i.arready)
    (i.arbValid && s.arbRready i && i.arb.last)

end Reads

/-! ### The answers to reads -/

/-- The `n + 1` beats of an answer. -/
def errorBeats (id : BitVec 4) : ℕ → List RBeat
  | 0 => [Reads.errorBeat id true]
  | n + 1 => Reads.errorBeat id false :: errorBeats id n

@[simp] theorem length_errorBeats (id : BitVec 4) (n : ℕ) : (errorBeats id n).length = n + 1 := by
  induction n with
  | zero => rfl
  | succ n ih => rw [errorBeats, List.length_cons, ih]

/-- The first beat of an answer is the last one if there is only one. -/
theorem errorBeats_eq_cons (id : BitVec 4) (n : ℕ) :
    ∃ l, errorBeats id n = Reads.errorBeat id (decide (n = 0)) :: l := by
  cases n with
  | zero => exact ⟨[], rfl⟩
  | succ n => exact ⟨errorBeats id n, rfl⟩

/-- What the block still owes. -/
def Reads.pending (s : Reads) : List RBeat :=
  match s.br with
  | .operative => []
  | .goError => errorBeats s.errorId s.errorLen.toNat
  | .errorSingle => errorBeats s.errorId 0
  | .errorBurst => errorBeats s.errorId (s.errorLen.toNat - s.counterBurst.toNat)

/-- The read side with the answers that the denied requests have to get, and those the master
has taken. -/
structure ReadLog where
  regs : Reads
  expected : List RBeat
  taken : List RBeat

def ReadLog.next (s : ReadLog) (i : RIn) : ReadLog where
  regs := s.regs.next i
  expected := s.expected ++ if s.regs.sample i then errorBeats i.req.id i.req.len.toNat else []
  taken := s.taken ++ if s.regs.answering && i.rready then [s.regs.rbeatO i] else []

/-- The edge is none at which the read side goes wrong.

* `single`: no denied read comes while a single answer waits and the decoder is open again;
* `length`: a burst's end is decided as the length of its own request would;
* `last`: while the master is not ready, the arbiter's last flag is the answer's. -/
structure ReadFit (s : Reads) (i : RIn) : Prop where
  single : s.br = .errorSingle → s.ar = .operative → arError i.conn i.req = false
  length : s.br = .errorBurst → i.rready = true →
    (s.counterBurst < i.req.len ↔ s.counterBurst < s.errorLen)
  last : s.br = .errorBurst → i.rready = false → i.arb.last = decide (s.counterBurst = s.errorLen)

/-- The read side keeps the law at an edge.

* `logged`: a request whose answer is logged is one that is accepted and that no port may get;
* `contained`: a port that sees the request has its address, and the master may use it;
* `forwarded`: a request that is not denied goes to all such ports while the decoder is open;
* `answered`: the answers taken and those owed are those of the denied requests;
* `presented`: the beat of an answer on the channel is the next one that is owed;
* `stable`: a beat that is not taken stays;
* `passed`: else the channel is the arbiter's, and an answer holds the arbiter. -/
structure ReadLaw (s : ReadLog) (i : RIn) : Prop where
  logged : s.regs.sample i = true ↔ (i.req.valid && s.regs.arreadyO i) = true ∧
    ∀ j, matchRegion i.req.addr j = true → i.conn j = false
  contained : ∀ j, arvalidO s.regs.ar i.conn i.req j = true →
    matchRegion i.req.addr j = true ∧ i.conn j = true
  forwarded : s.regs.ar = .operative → arError i.conn i.req = false →
    ∀ j, arvalidO s.regs.ar i.conn i.req j = (i.req.valid && selected i.conn i.req.addr j)
  answered : s.expected = s.taken ++ s.regs.pending
  presented : s.regs.answering = true → s.regs.rvalidO i = true ∧
    ∃ l, s.regs.pending = s.regs.rbeatO i :: l
  stable : s.regs.answering = true → i.rready = false →
    (s.next i).regs.answering = true ∧ (s.next i).regs.pending = s.regs.pending
  passed : if s.regs.answering then s.regs.arbRready i = false
    else s.regs.rvalidO i = i.arbValid ∧ s.regs.rbeatO i = i.arb ∧ s.regs.arbRready i = i.rready

/-- The decoder and the allocator are in step. -/
def Reads.InStep (s : Reads) : Prop :=
  match s.br with
  | .operative => s.ar = .operative
  | .goError => s.ar = .error
  | .errorSingle => s.ar = .error → s.outstanding = 0
  | .errorBurst => s.ar = .error ∧ s.outstanding = 0 ∧ s.counterBurst ≤ s.errorLen

structure ReadInv (s : ReadLog) : Prop where
  answered : s.expected = s.taken ++ s.regs.pending
  inStep : s.regs.InStep

variable {s : ReadLog} {i : RIn}

/-- In the error state nothing is sent, so nothing new becomes outstanding. -/
theorem arIncr_error (conn : Periph → Bool) (r : AxReq) (ready : Periph → Bool) :
    arIncr .error conn r ready = false := by
  simp [arIncr, arvalidO]

theorem countOutstanding_zero (decr : Bool) : countOutstanding 0 false decr = 0 := by
  cases decr <;> rfl

/-- A denied read is not sent. -/
theorem arIncr_of_arError {cs : ArState} {conn : Periph → Bool} {r : AxReq} (h : arError conn r = true)
    (ready : Periph → Bool) : arIncr cs conn r ready = false := by
  simp [arIncr, arvalidO, h]

/-- An answer that starts is of one beat, or of more. -/
theorem starts (t : Reads) (h : t.br = if t.errorLen = 0 then .errorSingle else .errorBurst)
    (hc : t.counterBurst = 0) (har : t.ar = .error) (hout : t.outstanding = 0) :
    t.pending = errorBeats t.errorId t.errorLen.toNat ∧ t.InStep := by
  by_cases hl : t.errorLen = 0
  · rw [if_pos hl] at h
    refine ⟨by rw [Reads.pending, h, hl]; rfl, ?_⟩
    rw [Reads.InStep, h]
    exact fun _ => hout
  · rw [if_neg hl] at h
    refine ⟨by rw [Reads.pending, h, hc]; rfl, ?_⟩
    rw [Reads.InStep, h, hc]
    exact ⟨har, hout, BitVec.le_def.2 (Nat.zero_le _)⟩

theorem outstanding_eq_zero {t : Reads} (h : t.outstandingTrans = false) : t.outstanding = 0 := by
  simpa [Reads.outstandingTrans] using h

theorem ReadInv.next_operative (h : ReadInv s) (hs : s.regs.br = .operative) : ReadInv (s.next i) := by
  have har : s.regs.ar = .operative := by
    have hin := h.inStep
    rwa [Reads.InStep, hs] at hin
  have hans : s.expected = s.taken := by rw [h.answered, Reads.pending, hs, List.append_nil]
  have hnans : s.regs.answering = false := by simp [Reads.answering, hs]
  have hcnt : (s.regs.next i).counterBurst = 0 := by simp [Reads.next, Reads.counterBurstNext, hs]
  have htaken : (s.next i).taken = s.taken := by simp [ReadLog.next, hnans]
  cases herr : arError i.conn i.req with
  | false =>
    have hsample : s.regs.sample i = false := by simp [Reads.sample, sampleArdata, herr]
    have hbr : (s.regs.next i).br = .operative := by simp [Reads.next, Reads.brNext, hs, herr]
    constructor
    · rw [htaken, ← hans, Reads.pending]
      simp [ReadLog.next, hsample, hbr]
    · rw [Reads.InStep, show (s.next i).regs.br = .operative from hbr]
      simp [ReadLog.next, Reads.next, ArState.next, har, herr]
  | true =>
    have hsample : s.regs.sample i = true := by simp [Reads.sample, sampleArdata, har, herr]
    have harn : (s.regs.next i).ar = .error := by simp [Reads.next, ArState.next, har, herr]
    have hlen : (s.regs.next i).errorLen = i.req.len := by simp [Reads.next, hsample]
    have hid : (s.regs.next i).errorId = i.req.id := by simp [Reads.next, hsample]
    have hbr : (s.regs.next i).br = if s.regs.outstandingTrans then .goError
        else if i.req.len = 0 then .errorSingle else .errorBurst := by
      simp [Reads.next, Reads.brNext, hs, herr]
    have hstart : (s.regs.next i).pending = errorBeats i.req.id i.req.len.toNat ∧ (s.regs.next i).InStep := by
      cases hout : s.regs.outstandingTrans with
      | true =>
        rw [hout, if_pos rfl] at hbr
        exact ⟨by rw [Reads.pending, hbr, hid, hlen], by rw [Reads.InStep, hbr]; exact harn⟩
      | false =>
        rw [hout, if_neg Bool.false_ne_true, ← hlen] at hbr
        have hzero : (s.regs.next i).outstanding = 0 := by
          simp only [Reads.next, arIncr_of_arError herr, outstanding_eq_zero hout, countOutstanding_zero]
        rw [← hid, ← hlen]
        exact starts _ hbr hcnt harn hzero
    refine ⟨?_, hstart.2⟩
    rw [htaken, ← hans, show (s.next i).regs.pending = _ from hstart.1]
    simp [ReadLog.next, hsample]

theorem ReadInv.next_goError (h : ReadInv s) (hs : s.regs.br = .goError) : ReadInv (s.next i) := by
  have har : s.regs.ar = .error := by
    have hin := h.inStep
    rwa [Reads.InStep, hs] at hin
  have hans : s.expected = s.taken ++ errorBeats s.regs.errorId s.regs.errorLen.toNat := by
    rw [h.answered, Reads.pending, hs]
  have hnans : s.regs.answering = false := by simp [Reads.answering, hs]
  have hsample : s.regs.sample i = false := by simp [Reads.sample, sampleArdata, har]
  have hcnt : (s.regs.next i).counterBurst = 0 := by simp [Reads.next, Reads.counterBurstNext, hs]
  have hlen : (s.regs.next i).errorLen = s.regs.errorLen := by simp [Reads.next, hsample]
  have hid : (s.regs.next i).errorId = s.regs.errorId := by simp [Reads.next, hsample]
  have hgnt : s.regs.errorGnt i = false := by simp [Reads.errorGnt, hs]
  have harn : (s.regs.next i).ar = .error := by simp [Reads.next, ArState.next, har, hgnt]
  have hbr : (s.regs.next i).br = if s.regs.outstandingTrans then .goError
      else if s.regs.errorLen = 0 then .errorSingle else .errorBurst := by
    simp [Reads.next, Reads.brNext, hs]
  have hstart : (s.regs.next i).pending = errorBeats s.regs.errorId s.regs.errorLen.toNat ∧
      (s.regs.next i).InStep := by
    cases hout : s.regs.outstandingTrans with
    | true =>
      rw [hout, if_pos rfl] at hbr
      exact ⟨by rw [Reads.pending, hbr, hid, hlen], by rw [Reads.InStep, hbr]; exact harn⟩
    | false =>
      rw [hout, if_neg Bool.false_ne_true, ← hlen] at hbr
      have hzero : (s.regs.next i).outstanding = 0 := by
        simp only [Reads.next, har, arIncr_error, outstanding_eq_zero hout, countOutstanding_zero]
      rw [← hid, ← hlen]
      exact starts _ hbr hcnt harn hzero
  refine ⟨?_, hstart.2⟩
  rw [show (s.next i).regs.pending = _ from hstart.1]
  simp [ReadLog.next, hsample, hnans, hans]

theorem ReadInv.next_errorSingle (h : ReadInv s) (hf : ReadFit s.regs i) (hs : s.regs.br = .errorSingle) :
    ReadInv (s.next i) := by
  have hzero : s.regs.ar = .error → s.regs.outstanding = 0 := by
    have hin := h.inStep
    rwa [Reads.InStep, hs] at hin
  have hans : s.expected = s.taken ++ [Reads.errorBeat s.regs.errorId true] := by
    rw [h.answered, Reads.pending, hs]
    rfl
  have hanswering : s.regs.answering = true := by simp [Reads.answering, hs]
  have hbeat : s.regs.rbeatO i = Reads.errorBeat s.regs.errorId true := by simp [Reads.rbeatO, hs]
  have hsample : s.regs.sample i = false := by
    cases har : s.regs.ar with
    | operative => simp [Reads.sample, sampleArdata, hf.single hs har]
    | error => simp [Reads.sample, sampleArdata, har]
  have hid : (s.regs.next i).errorId = s.regs.errorId := by simp [Reads.next, hsample]
  have hgnt : s.regs.errorGnt i = true := by simp [Reads.errorGnt, hs]
  -- the decoder opens with the first cycle of the answer
  have harn : (s.regs.next i).ar = .operative := by
    cases har : s.regs.ar with
    | operative => simp [Reads.next, ArState.next, har, hf.single hs har]
    | error => simp [Reads.next, ArState.next, har, hgnt, Reads.outstandingTrans, hzero har]
  cases hr : i.rready with
  | true =>
    have hbr : (s.regs.next i).br = .operative := by simp [Reads.next, Reads.brNext, hs, hr]
    constructor
    · rw [show (s.next i).regs.pending = [] by rw [Reads.pending, show (s.next i).regs.br = _ from hbr]]
      simp [ReadLog.next, hsample, hanswering, hr, hbeat, hans]
    · rw [Reads.InStep, show (s.next i).regs.br = _ from hbr]
      exact harn
  | false =>
    have hbr : (s.regs.next i).br = .errorSingle := by simp [Reads.next, Reads.brNext, hs, hr]
    constructor
    · have hpend : (s.next i).regs.pending = [Reads.errorBeat s.regs.errorId true] := by
        rw [Reads.pending, show (s.next i).regs.br = _ from hbr, show (s.next i).regs.errorId = _ from hid]
        rfl
      rw [hpend]
      simp [ReadLog.next, hsample, hr, hans]
    · rw [Reads.InStep, show (s.next i).regs.br = _ from hbr]
      intro har'
      rw [show (s.next i).regs.ar = _ from harn] at har'
      cases har'

theorem ReadInv.next_errorBurst (h : ReadInv s) (hf : ReadFit s.regs i) (hs : s.regs.br = .errorBurst) :
    ReadInv (s.next i) := by
  obtain ⟨har, hzero, hle⟩ : s.regs.ar = .error ∧ s.regs.outstanding = 0 ∧
      s.regs.counterBurst ≤ s.regs.errorLen := by
    have hin := h.inStep
    rwa [Reads.InStep, hs] at hin
  have hans : s.expected =
      s.taken ++ errorBeats s.regs.errorId (s.regs.errorLen.toNat - s.regs.counterBurst.toNat) := by
    rw [h.answered, Reads.pending, hs]
  have hanswering : s.regs.answering = true := by simp [Reads.answering, hs]
  have hsample : s.regs.sample i = false := by simp [Reads.sample, sampleArdata, har]
  have hlen : (s.regs.next i).errorLen = s.regs.errorLen := by simp [Reads.next, hsample]
  have hid : (s.regs.next i).errorId = s.regs.errorId := by simp [Reads.next, hsample]
  have hexp : (s.next i).expected = s.expected := by simp [ReadLog.next, hsample]
  have hout : (s.regs.next i).outstanding = 0 := by
    simp only [Reads.next, har, arIncr_error, hzero, countOutstanding_zero]
  have harn (hg : s.regs.errorGnt i = false) : (s.regs.next i).ar = .error := by
    simp [Reads.next, ArState.next, har, hg]
  have hpend (hb : (s.regs.next i).br = .errorBurst) : (s.next i).regs.pending =
      errorBeats s.regs.errorId (s.regs.errorLen.toNat - (s.regs.next i).counterBurst.toNat) := by
    rw [Reads.pending, show (s.next i).regs.br = _ from hb, show (s.next i).regs.errorId = _ from hid,
      show (s.next i).regs.errorLen = _ from hlen]
    rfl
  cases hr : i.rready with
  | false =>
    have hbr : (s.regs.next i).br = .errorBurst := by simp [Reads.next, Reads.brNext, hs, hr]
    have hcnt : (s.regs.next i).counterBurst = s.regs.counterBurst := by
      simp [Reads.next, Reads.counterBurstNext, hs, hr]
    constructor
    · rw [hpend hbr, hexp, hcnt, hans]
      simp [ReadLog.next, hr]
    · rw [Reads.InStep, show (s.next i).regs.br = _ from hbr]
      refine ⟨harn (by simp [Reads.errorGnt, hs, hr]), hout, ?_⟩
      rw [show (s.next i).regs.counterBurst = _ from hcnt, show (s.next i).regs.errorLen = _ from hlen]
      exact hle
  | true =>
    by_cases hlt : s.regs.counterBurst < i.req.len
    · -- a beat before the last
      have hlt' := (hf.length hs hr).1 hlt
      rw [BitVec.lt_def] at hlt'
      have hmax := s.regs.errorLen.isLt
      have hbr : (s.regs.next i).br = .errorBurst := by simp [Reads.next, Reads.brNext, hs, hr, hlt]
      have hcnt : (s.regs.next i).counterBurst = s.regs.counterBurst + 1 := by
        simp [Reads.next, Reads.counterBurstNext, hs, hr, hlt]
      have hsucc : (s.regs.counterBurst + 1).toNat = s.regs.counterBurst.toNat + 1 := by
        have h1 : (1 : BitVec 8).toNat = 1 := rfl
        rw [BitVec.toNat_add, h1, Nat.mod_eq_of_lt (by omega)]
      have hbeat : s.regs.rbeatO i = Reads.errorBeat s.regs.errorId false := by
        simp [Reads.rbeatO, hs, hr, hlt]
      constructor
      · obtain ⟨n, hn⟩ : ∃ n, s.regs.errorLen.toNat - s.regs.counterBurst.toNat = n + 1 :=
          ⟨s.regs.errorLen.toNat - s.regs.counterBurst.toNat - 1, by omega⟩
        have hn' : s.regs.errorLen.toNat - (s.regs.counterBurst.toNat + 1) = n := by omega
        rw [hpend hbr, hexp, hcnt, hsucc, hn', hans, hn, errorBeats]
        simp [ReadLog.next, hanswering, hr, hbeat]
      · rw [Reads.InStep, show (s.next i).regs.br = _ from hbr]
        refine ⟨harn (by simp [Reads.errorGnt, hs, hr, hlt]), hout, ?_⟩
        rw [show (s.next i).regs.counterBurst = _ from hcnt, show (s.next i).regs.errorLen = _ from hlen,
          BitVec.le_def, hsucc]
        omega
    · -- the last beat
      have hnlt : ¬s.regs.counterBurst < s.regs.errorLen := fun h' => hlt ((hf.length hs hr).2 h')
      rw [BitVec.lt_def] at hnlt
      have hbr : (s.regs.next i).br = .operative := by simp [Reads.next, Reads.brNext, hs, hr, hlt]
      have hgnt : s.regs.errorGnt i = true := by simp [Reads.errorGnt, hs, hr, hlt]
      have hbeat : s.regs.rbeatO i = Reads.errorBeat s.regs.errorId true := by
        simp [Reads.rbeatO, hs, hr, hlt]
      have hn : s.regs.errorLen.toNat - s.regs.counterBurst.toNat = 0 := by omega
      constructor
      · rw [hexp, hans, hn, Reads.pending, show (s.next i).regs.br = _ from hbr, errorBeats]
        simp [ReadLog.next, hanswering, hr, hbeat]
      · rw [Reads.InStep, show (s.next i).regs.br = _ from hbr]
        simp [ReadLog.next, Reads.next, ArState.next, har, hgnt, Reads.outstandingTrans, hzero]

theorem ReadInv.next (h : ReadInv s) (hf : ReadFit s.regs i) : ReadInv (s.next i) := by
  cases hs : s.regs.br with
  | operative => exact h.next_operative hs
  | goError => exact h.next_goError hs
  | errorSingle => exact h.next_errorSingle hf hs
  | errorBurst => exact h.next_errorBurst hf hs

/-- Nothing is sampled while an answer is on the channel. -/
theorem sample_of_answering (h : ReadInv s) (hf : ReadFit s.regs i) (ha : s.regs.answering = true) :
    s.regs.sample i = false := by
  cases har : s.regs.ar with
  | error => simp [Reads.sample, sampleArdata, har]
  | operative =>
    cases hs : s.regs.br with
    | operative => simp [Reads.answering, hs] at ha
    | goError => simp [Reads.answering, hs] at ha
    | errorSingle => simp [Reads.sample, sampleArdata, hf.single hs har]
    | errorBurst =>
      have hin := h.inStep
      rw [Reads.InStep, hs] at hin
      rw [har] at hin
      cases hin.1

/-- The beat on the channel is the next one owed. -/
theorem rbeatO_eq (h : ReadInv s) (hf : ReadFit s.regs i) (ha : s.regs.answering = true) :
    ∃ l, s.regs.pending = s.regs.rbeatO i :: l := by
  cases hs : s.regs.br with
  | operative => simp [Reads.answering, hs] at ha
  | goError => simp [Reads.answering, hs] at ha
  | errorSingle => exact ⟨[], by rw [Reads.pending, Reads.rbeatO, hs]; rfl⟩
  | errorBurst =>
    have hin := h.inStep
    rw [Reads.InStep, hs] at hin
    have hle := hin.2.2
    rw [BitVec.le_def] at hle
    obtain ⟨l, hl⟩ := errorBeats_eq_cons s.regs.errorId
      (s.regs.errorLen.toNat - s.regs.counterBurst.toNat)
    have hlast : (if i.rready then !decide (s.regs.counterBurst < i.req.len) else i.arb.last) =
        decide (s.regs.errorLen.toNat - s.regs.counterBurst.toNat = 0) := by
      have hlt : s.regs.counterBurst < s.regs.errorLen ↔
          ¬s.regs.errorLen.toNat - s.regs.counterBurst.toNat = 0 := by
        rw [BitVec.lt_def]
        omega
      have heq : s.regs.counterBurst = s.regs.errorLen ↔
          s.regs.errorLen.toNat - s.regs.counterBurst.toNat = 0 := by
        rw [← BitVec.toNat_inj]
        omega
      cases hr : i.rready with
      | true =>
        rw [if_pos rfl, decide_eq_decide.2 ((hf.length hs hr).trans hlt), decide_not, Bool.not_not]
      | false => rw [if_neg Bool.false_ne_true, hf.last hs hr, decide_eq_decide.2 heq]
    refine ⟨l, ?_⟩
    simp only [Reads.pending, Reads.rbeatO, hs]
    rw [hlast]
    exact hl

/-- What is sampled is a denied request that is accepted. -/
theorem Reads.sample_iff (r : Reads) (i : RIn) : r.sample i = true ↔ (i.req.valid && r.arreadyO i) = true ∧
    ∀ j, matchRegion i.req.addr j = true → i.conn j = false := by
  rw [← unmatched_eq_true_iff]
  simp only [Reads.sample, sampleArdata, Reads.arreadyO, Soc.arreadyO, arError]
  cases r.ar with
  | error => simp [show (ArState.error == .operative) = false from rfl]
  | operative =>
    rw [show (ArState.operative == .operative) = true from rfl]
    cases i.req.valid <;> cases unmatched i.conn i.req.addr <;> simp

/-- An invariant and an edge that fits give the law. -/
theorem ReadInv.law (h : ReadInv s) (hf : ReadFit s.regs i) : ReadLaw s i := by
  refine ⟨s.regs.sample_iff i, fun j hj => ?_, fun har herr j => ?_, h.answered, fun ha => ?_, fun ha hr => ?_, ?_⟩
  · simp only [arvalidO, selected, Bool.and_eq_true] at hj
    exact hj.2.2
  · simp [arvalidO, har, herr]
  · exact ⟨by rw [Reads.rvalidO, ha, Bool.true_or], rbeatO_eq h hf ha⟩
  · have hnext := (h.next hf).answered
    have hexp : (s.next i).expected = s.expected := by
      simp [ReadLog.next, sample_of_answering h hf ha]
    have htaken : (s.next i).taken = s.taken := by simp [ReadLog.next, hr]
    rw [hexp, htaken, h.answered] at hnext
    refine ⟨?_, (List.append_cancel_left hnext).symm⟩
    cases hs : s.regs.br with
    | operative => simp [Reads.answering, hs] at ha
    | goError => simp [Reads.answering, hs] at ha
    | errorSingle => simp [ReadLog.next, Reads.answering, Reads.next, Reads.brNext, hs, hr]
    | errorBurst => simp [ReadLog.next, Reads.answering, Reads.next, Reads.brNext, hs, hr]
  · cases ha : s.regs.answering with
    | true => simp [Reads.arbRready, ha]
    | false =>
      refine ⟨by rw [Reads.rvalidO, ha, Bool.false_or], ?_, by simp [Reads.arbRready, ha]⟩
      cases hs : s.regs.br with
      | operative => simp [Reads.rbeatO, hs]
      | goError => simp [Reads.rbeatO, hs]
      | errorSingle => simp [Reads.answering, hs] at ha
      | errorBurst => simp [Reads.answering, hs] at ha

/-! ### Reads are answered in time -/

/-- The read side gets what its answer waits for: the answers of the ports that are still due,
then the master. -/
def ReadLog.served (s : ReadLog) (i : RIn) : Bool :=
  match s.regs.br with
  | .operative => false
  | .goError => !s.regs.outstandingTrans
  | _ => i.rready

/-- How many such cycles the first `n` answers still take. -/
def ReadLog.due (n : ℕ) (s : ReadLog) : ℕ :=
  if s.taken.length < n then (n - s.taken.length) + (s.regs.br == .goError).toNat else 0

theorem taken_next (s : ReadLog) (i : RIn) :
    (s.next i).taken.length = s.taken.length + (s.regs.answering && i.rready).toNat := by
  simp only [ReadLog.next, List.length_append]
  cases s.regs.answering && i.rready <;> rfl

/-- While an answer is owed, no other one begins. -/
theorem not_goError_next {n : ℕ} (h : ReadInv s) (hn : n ≤ s.expected.length)
    (hlt : s.taken.length < n) (hs : s.regs.br ≠ .goError) : (s.next i).regs.br ≠ .goError := by
  cases hbr : s.regs.br with
  | operative =>
    have hans := h.answered
    rw [Reads.pending, hbr, List.append_nil] at hans
    rw [hans] at hn
    omega
  | goError => exact absurd hbr hs
  | errorSingle =>
    simp only [ReadLog.next, Reads.next, Reads.brNext, hbr]
    split <;> simp
  | errorBurst =>
    simp only [ReadLog.next, Reads.next, Reads.brNext, hbr]
    split
    · split <;> simp
    · simp

theorem expected_le_next (s : ReadLog) (i : RIn) : s.expected.length ≤ (s.next i).expected.length := by
  simp [ReadLog.next]

theorem due_next_le {n : ℕ} (h : ReadInv s) (hn : n ≤ s.expected.length) :
    (s.next i).due n ≤ s.due n := by
  have ht := taken_next s i
  unfold ReadLog.due
  by_cases hlt : s.taken.length < n
  · rw [if_pos hlt]
    by_cases hg : s.regs.br = .goError
    · have hle : ((s.next i).regs.br == .goError).toNat ≤ 1 := Bool.toNat_le _
      have hone : (s.regs.br == .goError).toNat = 1 := by rw [hg]; rfl
      split <;> omega
    · have hz : ((s.next i).regs.br == .goError).toNat = 0 := by
        rw [beq_eq_false_iff_ne.2 (not_goError_next h hn hlt hg)]
        rfl
      split <;> omega
  · rw [if_neg (by omega)]
    exact Nat.zero_le _

theorem due_next_lt {n : ℕ} (h : ReadInv s) (hn : n ≤ s.expected.length) (hp : s.served i = true)
    (hd : s.due n ≠ 0) : (s.next i).due n < s.due n := by
  have ht := taken_next s i
  unfold ReadLog.due at hd ⊢
  have hlt : s.taken.length < n := by
    by_contra hge
    exact hd (if_neg hge)
  rw [if_pos hlt]
  cases hbr : s.regs.br with
  | operative => simp [ReadLog.served, hbr] at hp
  | goError =>
    have hout : s.regs.outstandingTrans = false := by simpa [ReadLog.served, hbr] using hp
    have hz : ((s.next i).regs.br == .goError) = false := by
      simp only [ReadLog.next, Reads.next, Reads.brNext, hbr, hout, Bool.false_eq_true, if_false]
      split <;> rfl
    have hone : (BrState.goError == BrState.goError).toNat = 1 := rfl
    rw [hz, Bool.toNat_false, hone]
    split <;> omega
  | errorSingle =>
    have hr : i.rready = true := by simpa [ReadLog.served, hbr] using hp
    have hz := not_goError_next (i := i) h hn hlt (by simp [hbr])
    have ha : s.regs.answering = true := by simp [Reads.answering, hbr]
    rw [ha, hr, Bool.and_self, Bool.toNat_true] at ht
    rw [beq_eq_false_iff_ne.2 hz, Bool.toNat_false]
    split <;> omega
  | errorBurst =>
    have hr : i.rready = true := by simpa [ReadLog.served, hbr] using hp
    have hz := not_goError_next (i := i) h hn hlt (by simp [hbr])
    have ha : s.regs.answering = true := by simp [Reads.answering, hbr]
    rw [ha, hr, Bool.and_self, Bool.toNat_true] at ht
    rw [beq_eq_false_iff_ne.2 hz, Bool.toNat_false]
    split <;> omega

/-! ### The write allocator and the write data -/

/-- `CS` of the write allocator. -/
inductive BwState
  | operative | errorSingle
deriving DecidableEq, Repr

/-- A response of the write channel. -/
structure BResp where
  id : BitVec 4
  resp : BitVec 2
deriving DecidableEq, Repr

/-- Ports that a write's data go to. -/
abbrev Dest := Periph → Bool

/-- The registers of the write decoder, the FIFO of the destinations and the write allocator. -/
structure Writes where
  aw : AwState
  dest : Fifo 3 Dest
  bw : BwState
  errorId : BitVec 4
  outstanding : BitVec 10

/-- The pins of the write side. -/
structure WIn where
  conn : Periph → Bool
  req : AxReq
  awready : Periph → Bool
  wvalid : Bool
  wlast : Bool
  wready : Periph → Bool
  arbValid : Bool
  arb : BResp
  bready : Bool

/-- A port that the write goes to takes its address. -/
def WIn.granted (i : WIn) : Bool :=
  i.req.valid && Periph.all.any fun j => i.awready j && selected i.conn i.req.addr j

/-- The write is denied. -/
def WIn.denied (i : WIn) : Bool := i.req.valid && unmatched i.conn i.req.addr

namespace Writes

def reset : Writes := ⟨.operative, Fifo.reset fun _ => false, .operative, 0, 0⟩

/-- `grant_FIFO_DEST_o`. -/
def grantFifo (s : Writes) : Bool := !s.dest.full

def outstandingTrans (s : Writes) : Bool := s.outstanding != 0

/-- `wready_o`; the output of an empty FIFO is an old destination. -/
def wreadyO (s : Writes) (i : WIn) : Bool :=
  handleError s.aw || Periph.all.any fun j => i.wready j && s.dest.out j

/-- `wvalid_o`. -/
def wvalidO (s : Writes) (i : WIn) (j : Periph) : Bool :=
  !handleError s.aw && (i.wvalid && !s.dest.empty) && s.dest.out j

/-- `wdata_error_completed_o`. -/
def wdataErrorCompleted (s : Writes) (i : WIn) : Bool := handleError s.aw && (i.wlast && i.wvalid)

/-- `pop_from_DEST_FIFO`. -/
def popDest (s : Writes) (i : WIn) : Bool := i.wlast && i.wvalid && s.wreadyO i && !s.dest.empty

/-- `bvalid_o`. -/
def bvalidO (s : Writes) (i : WIn) : Bool := s.bw == .errorSingle || i.arbValid

/-- The response on the write channel. -/
def brespO (s : Writes) (i : WIn) : BResp :=
  match s.bw with
  | .errorSingle => ⟨s.errorId, respDecerr⟩
  | .operative => i.arb

/-- `arb_bready`. -/
def arbBready (s : Writes) (i : WIn) : Bool := s.bw == .operative && i.bready

/-- `error_gnt_o`. -/
def errorGnt (s : Writes) : Bool := s.bw == .errorSingle

/-- The request is sampled for its answer. -/
def sample (s : Writes) (i : WIn) : Bool := sampleAwdata s.aw i.conn i.req s.grantFifo

/-- The request is accepted. -/
def accepts (s : Writes) (i : WIn) : Bool :=
  i.req.valid && awreadyO s.aw i.conn i.req i.awready s.grantFifo s.errorGnt

/-- `push_DEST_o`. -/
def push (s : Writes) (i : WIn) : Bool :=
  pushDest s.aw i.conn i.req i.awready s.grantFifo s.errorGnt

/-- `incr_req_o`. -/
def incr (s : Writes) (i : WIn) : Bool := awIncr s.aw i.conn i.req i.awready s.grantFifo

/-- The write side after an edge. -/
def next (s : Writes) (i : WIn) : Writes where
  aw := s.aw.next i.conn i.req s.grantFifo s.outstandingTrans (s.wdataErrorCompleted i) s.errorGnt
  dest := s.dest.next false (if s.push i then some (destO i.req) else none) (s.popDest i)
  bw :=
    match s.bw with
    | .operative => if awErrorReq s.aw && !s.outstandingTrans then .errorSingle else .operative
    | .errorSingle => if i.bready then .operative else .errorSingle
  errorId := if s.sample i then i.req.id else s.errorId
  outstanding := countOutstanding s.outstanding (s.incr i) (s.bvalidO i && i.bready)

end Writes

/-! ### The answers to writes -/

/-- The answer the block still owes. -/
def Writes.pending (s : Writes) : List (BitVec 4) :=
  if s.aw = .operative ∧ s.bw = .operative then [] else [s.errorId]

/-- The write side with the answers that the denied requests have to get, those the master
has taken, the bursts of data that are due with the ports they go to (`none` for a denied
request), and the number of writes whose data are complete and whose response is due. -/
structure WriteLog where
  regs : Writes
  expected : List (BitVec 4)
  taken : List (BitVec 4)
  bursts : List (Option Dest)
  owed : ℕ

/-- The burst an accepted request adds. -/
def Writes.burst (s : Writes) (i : WIn) : List (Option Dest) :=
  if s.sample i then [none] else if s.push i then [some (selected i.conn i.req.addr)] else []

/-- A last beat of data is taken. -/
def Writes.lastTaken (s : Writes) (i : WIn) : Bool := i.wvalid && s.wreadyO i && i.wlast

def WriteLog.next (s : WriteLog) (i : WIn) : WriteLog where
  regs := s.regs.next i
  expected := s.expected ++ if s.regs.sample i then [i.req.id] else []
  taken := s.taken ++ if s.regs.bw = .errorSingle ∧ i.bready = true then [s.regs.errorId] else []
  bursts := (if s.regs.lastTaken i then s.bursts.tail else s.bursts) ++ s.regs.burst i
  owed := s.owed + (s.regs.popDest i).toNat - (s.regs.arbBready i && i.arbValid).toNat

/-- The ports respond to a write only after its data. -/
structure WriteEnv (s : WriteLog) (i : WIn) : Prop where
  response : s.regs.bw = .operative → i.arbValid = true → i.bready = true → 0 < s.owed

/-- The write decoder takes requests. -/
def Writes.isOpen (s : Writes) : Bool := s.aw == .operative && s.grantFifo

/-- The edge is none at which the write side goes wrong.

* `single`: while an answer is on the channel no port takes a write, and no denied write comes
  unless the answer is taken;
* `data`: while no destination is known, no port that the old one names takes data;
* `full`: the counter does not saturate;
* `connected`: every port that has the address of a write that is taken is connected. -/
structure WriteFit (s : Writes) (i : WIn) : Prop where
  single : s.bw = .errorSingle → s.aw = .operative →
    i.granted = false ∧ (i.bready = false → i.denied = false)
  data : i.wvalid = true → s.dest.empty = true → s.aw ≠ .acceptWdata →
    ∀ j, i.wready j = true → s.dest.out j = false
  full : s.isOpen = true → i.granted = true → s.outstanding ≠ BitVec.allOnes 10
  connected : s.isOpen = true → i.granted = true →
    ∀ j, matchRegion i.req.addr j = true → i.conn j = true

/-- The write side keeps the law at an edge.

* `logged`, `contained`, `forwarded`: as for reads, for the address;
* `shown`, `data`: a port that sees data is one the burst that is due goes to, and data that are taken
  go to all of those;
* `answered`, `presented`: as for reads; an answer comes when the data of its request are
  complete;
* `stable`, `passed`: as for reads. -/
structure WriteLaw (s : WriteLog) (i : WIn) : Prop where
  logged : s.regs.sample i = true ↔ s.regs.accepts i = true ∧
    ∀ j, matchRegion i.req.addr j = true → i.conn j = false
  contained : ∀ j, awvalidO s.regs.aw i.conn i.req s.regs.grantFifo j = true →
    matchRegion i.req.addr j = true ∧ i.conn j = true
  forwarded : s.regs.aw = .operative → s.regs.grantFifo = true →
    awError i.conn i.req s.regs.grantFifo = false →
    ∀ j, awvalidO s.regs.aw i.conn i.req s.regs.grantFifo j = (i.req.valid && selected i.conn i.req.addr j)
  shown : ∀ j, s.regs.wvalidO i j = true → ∃ d l, s.bursts = some d :: l ∧ d j = true
  data : i.wvalid = true → s.regs.wreadyO i = true →
    ∃ b l, s.bursts = b :: l ∧ ∀ j, s.regs.wvalidO i j = (b.getD fun _ => false) j
  answered : s.expected = s.taken ++ s.regs.pending
  presented : s.regs.bw = .errorSingle → s.regs.bvalidO i = true ∧
    s.regs.brespO i = ⟨s.regs.errorId, respDecerr⟩ ∧ s.regs.pending = [s.regs.errorId] ∧ none ∉ s.bursts
  stable : s.regs.bw = .errorSingle → i.bready = false →
    (s.next i).regs.bw = .errorSingle ∧ (s.next i).regs.pending = s.regs.pending
  passed : if s.regs.bw = .errorSingle then s.regs.arbBready i = false
    else s.regs.bvalidO i = i.arbValid ∧ s.regs.brespO i = i.arb ∧ s.regs.arbBready i = i.bready

/-- The burst of a denied request whose data are still due. -/
def Writes.denied (s : Writes) : List (Option Dest) :=
  if s.aw = .completePending ∨ s.aw = .acceptWdata then [none] else []

/-- The decoder, the FIFO and the allocator are in step. -/
structure WriteInv (s : WriteLog) : Prop where
  answered : s.expected = s.taken ++ s.regs.pending
  bursts : s.bursts = s.regs.dest.contents.map some ++ s.regs.denied
  outstanding : s.regs.outstanding.toNat = s.owed + s.regs.dest.contents.length
  quiet : s.regs.aw = .acceptWdata ∨ s.regs.aw = .completeErrorResp ∨ s.regs.bw = .errorSingle →
    s.regs.outstanding = 0
  single : s.regs.bw = .errorSingle → s.regs.aw = .operative ∨ s.regs.aw = .completeErrorResp

variable {t : WriteLog} {k : WIn}

/-- While an answer is on the channel it is the one owed. -/
theorem pending_of_single {w : Writes} (hs : w.bw = .errorSingle) : w.pending = [w.errorId] :=
  if_neg fun hb => by rw [hs] at hb; exact nomatch hb.2

/-- Outside the open state nothing is accepted. -/
theorem closed (h : t.regs.aw ≠ .operative) :
    t.regs.sample k = false ∧ t.regs.push k = false ∧ t.regs.incr k = false := by
  refine ⟨?_, ?_, ?_⟩
  · simp [Writes.sample, sampleAwdata, h]
  · simp [Writes.push, pushDest, awreadyO, h]
  · simp [Writes.incr, awIncr, awvalidO, h]

/-- What a port takes is not denied. -/
theorem not_denied_of_granted (h : k.granted = true) : k.denied = false := by
  simp only [WIn.granted, Bool.and_eq_true, List.any_eq_true] at h
  obtain ⟨-, j, -, -, hj⟩ := h
  rw [WIn.denied, unmatched_eq_false_of_selected hj, Bool.and_false]

theorem sample_eq : t.regs.sample k = (t.regs.isOpen && k.denied) := by
  rw [Writes.sample, sampleAwdata, awError, Writes.isOpen, WIn.denied, Bool.and_assoc]

/-- A port counts a write when it takes it. -/
theorem incr_eq : t.regs.incr k = (t.regs.isOpen && k.granted) := by
  have hany : t.regs.incr k = (t.regs.isOpen && !k.denied && k.granted) := by
    rw [Bool.eq_iff_iff]
    simp only [Writes.incr, awIncr, awvalidO, awError, Writes.isOpen, WIn.denied, WIn.granted,
      List.any_eq_true, Bool.and_eq_true, Bool.not_eq_true', Bool.and_eq_false_iff]
    constructor
    · rintro ⟨j, hj, ⟨⟨ho, herr⟩, hg, hv, hs⟩, hr⟩
      refine ⟨⟨⟨ho, hg⟩, ?_⟩, hv, j, hj, hr, hs⟩
      rcases herr with h | h
      · rw [hg] at h
        cases h
      · exact h
    · rintro ⟨⟨⟨ho, hg⟩, hd⟩, hv, j, hj, hr, hs⟩
      exact ⟨j, hj, ⟨⟨ho, .inr hd⟩, hg, hv, hs⟩, hr⟩
  rw [hany]
  cases hg : k.granted with
  | false => simp
  | true => simp [not_denied_of_granted hg]

/-- A destination is pushed exactly when a port takes the address. -/
theorem push_eq : t.regs.push k = (t.regs.isOpen && k.granted) := by
  cases hd : k.denied with
  | true =>
    have hg : k.granted = false := by
      by_contra hg
      rw [not_denied_of_granted (Bool.eq_true_of_not_eq_false hg)] at hd
      cases hd
    have hd' : (k.req.valid && unmatched k.conn k.req.addr) = true := hd
    rw [hg, Bool.and_false, Writes.push, pushDest, awreadyO, awError, hd']
    cases t.regs.grantFifo <;> simp
  | false =>
    have hd' : (k.req.valid && unmatched k.conn k.req.addr) = false := hd
    rw [Writes.push, pushDest, awreadyO, awError, hd', Writes.isOpen, WIn.granted]
    cases hv : k.req.valid with
    | false => simp
    | true =>
      rw [hv, Bool.true_and] at hd'
      simp [hd', Bool.and_assoc]

theorem grantFifo_of_push (h : t.regs.push k = true) : t.regs.dest.full = false := by
  rw [push_eq] at h
  simp only [Writes.isOpen, Writes.grantFifo, Bool.and_eq_true, Bool.not_eq_true'] at h
  exact h.1.2

theorem WriteInv.nothing_owed (h : WriteInv t) (h0 : t.regs.outstanding = 0) :
    t.owed = 0 ∧ t.regs.dest.contents = [] := by
  have hn := h.outstanding
  rw [h0] at hn
  change 0 = _ at hn
  exact ⟨by omega, List.length_eq_zero_iff.1 (by omega)⟩

/-- While an answer is on the channel no port takes a write. -/
theorem single_not_granted (hf : WriteFit t.regs k) (hs : t.regs.bw = .errorSingle) :
    (t.regs.isOpen && k.granted) = false := by
  by_cases haw : t.regs.aw = .operative
  · rw [(hf.single hs haw).1, Bool.and_false]
  · simp [Writes.isOpen, haw]

/-- While an answer waits no write is denied. -/
theorem single_not_denied (hf : WriteFit t.regs k) (hs : t.regs.bw = .errorSingle) (hr : k.bready = false) :
    t.regs.sample k = false := by
  rw [sample_eq]
  by_cases haw : t.regs.aw = .operative
  · rw [(hf.single hs haw).2 hr, Bool.and_false]
  · simp [Writes.isOpen, haw]

/-- How the counter counts. -/
theorem toNat_countOutstanding (c : BitVec 10) (incr decr : Bool) (hi : incr = true → c ≠ BitVec.allOnes 10)
    (hd : decr = true → c ≠ 0) :
    (countOutstanding c incr decr).toNat + decr.toNat = c.toNat + incr.toNat := by
  have hlt := c.isLt
  have hone : (1 : BitVec 10).toNat = 1 := rfl
  cases incr with
  | false =>
    cases decr with
    | false => rfl
    | true =>
      have hne := hd rfl
      have hpos : c.toNat ≠ 0 := fun h0 => hne (BitVec.eq_of_toNat_eq h0)
      simp only [countOutstanding, if_neg hne, BitVec.toNat_sub, Bool.toNat_true, Bool.toNat_false]
      omega
  | true =>
    cases decr with
    | false =>
      have hne := hi rfl
      have hmax : c.toNat ≠ 1023 := fun h => hne (BitVec.eq_of_toNat_eq h)
      simp only [countOutstanding, if_neg hne, BitVec.toNat_add, Bool.toNat_true, Bool.toNat_false]
      omega
    | true => rfl

/-- The destinations after an edge. -/
theorem contents_dest_next (t : WriteLog) (k : WIn) : (t.next k).regs.dest.contents =
    (if t.regs.popDest k then t.regs.dest.contents.tail else t.regs.dest.contents) ++
      if t.regs.push k then [destO k.req] else [] := by
  simp only [WriteLog.next, Writes.next, Fifo.contents_next, Bool.false_eq_true, if_false]
  cases hp : t.regs.push k with
  | false => simp
  | true => simp [grantFifo_of_push hp]

/-- Only a burst that has a destination takes it along. -/
theorem not_empty_of_popDest (h : t.regs.popDest k = true) : t.regs.dest.contents ≠ [] := by
  intro hc
  rw [← Fifo.empty_iff] at hc
  simp [Writes.popDest, hc] at h

theorem WriteInv.next_outstanding (h : WriteInv t) (hf : WriteFit t.regs k) (he : WriteEnv t k) :
    (t.next k).regs.outstanding.toNat = (t.next k).owed + (t.next k).regs.dest.contents.length := by
  have hn := h.outstanding
  have hlen : (t.next k).regs.dest.contents.length + (t.regs.popDest k).toNat =
      t.regs.dest.contents.length + (t.regs.push k).toNat := by
    have hpush : (if t.regs.push k then [destO k.req] else []).length = (t.regs.push k).toNat := by
      cases t.regs.push k <;> rfl
    rw [contents_dest_next, List.length_append, hpush]
    cases hpop : t.regs.popDest k with
    | false =>
      rw [Bool.toNat_false]
      simp only [Bool.false_eq_true, if_false]
      omega
    | true =>
      have hpos := List.length_pos_iff.2 (not_empty_of_popDest hpop)
      rw [Bool.toNat_true, if_pos rfl, List.length_tail]
      omega
  have howed : (t.next k).owed = t.owed + (t.regs.popDest k).toNat - (t.regs.arbBready k && k.arbValid).toNat :=
    rfl
  cases hs : t.regs.bw with
  | operative =>
    have hdecr : (t.regs.bvalidO k && k.bready) = (t.regs.arbBready k && k.arbValid) := by
      rw [Writes.bvalidO, Writes.arbBready, hs]
      cases k.bready <;> simp [show (BwState.operative == .errorSingle) = false from rfl]
    have hout : (t.next k).regs.outstanding =
        countOutstanding t.regs.outstanding (t.regs.push k) (t.regs.arbBready k && k.arbValid) := by
      simp only [WriteLog.next, Writes.next, incr_eq, push_eq, hdecr]
    have hdue : (t.regs.arbBready k && k.arbValid) = true → 0 < t.owed := by
      intro hd
      simp only [Writes.arbBready, Bool.and_eq_true] at hd
      exact he.response hs hd.2 hd.1.2
    have hcount := toNat_countOutstanding t.regs.outstanding (t.regs.push k) (t.regs.arbBready k && k.arbValid)
      (fun hp => by
        rw [push_eq, Bool.and_eq_true] at hp
        exact hf.full hp.1 hp.2) (fun hd h0 => by
        have := hdue hd
        rw [h0] at hn
        change 0 = _ at hn
        omega)
    rw [hout, howed]
    cases hd : (t.regs.arbBready k && k.arbValid) with
    | false =>
      rw [hd] at hcount
      simp only [Bool.toNat_false] at hcount ⊢
      omega
    | true =>
      have := hdue hd
      rw [hd] at hcount
      simp only [Bool.toNat_true] at hcount ⊢
      omega
  | errorSingle =>
    have h0 := h.quiet (.inr (.inr hs))
    obtain ⟨hz, hc⟩ := h.nothing_owed h0
    have hpush : t.regs.push k = false := by rw [push_eq, single_not_granted hf hs]
    have hincr : t.regs.incr k = false := by rw [incr_eq, single_not_granted hf hs]
    have hpop : t.regs.popDest k = false := by
      by_contra hp
      exact not_empty_of_popDest (Bool.eq_true_of_not_eq_false hp) hc
    have harb : t.regs.arbBready k = false := by simp [Writes.arbBready, hs]
    have hout : (t.next k).regs.outstanding = 0 := by
      simp only [WriteLog.next, Writes.next, hincr, h0, countOutstanding_zero]
    rw [hpop, hpush, hc] at hlen
    rw [howed, hout, hz, hpop, harb]
    simp only [List.length_nil, Bool.toNat_false] at hlen
    change 0 = _
    simp only [Bool.toNat_false, Bool.false_and]
    omega

theorem awError_eq (haw : t.regs.aw = .operative) :
    awError k.conn k.req t.regs.grantFifo = t.regs.sample k := by
  simp [Writes.sample, sampleAwdata, haw]

/-- A denied write has no destination. -/
theorem burst_of_sample (h : t.regs.sample k = true) : t.regs.burst k = [none] ∧ t.regs.push k = false := by
  refine ⟨if_pos h, ?_⟩
  rw [sample_eq, Bool.and_eq_true] at h
  rw [push_eq]
  by_contra hp
  have hg := Bool.eq_true_of_not_eq_false hp
  rw [Bool.and_eq_true] at hg
  rw [not_denied_of_granted hg.2] at h
  cases h.2

/-- The destination that is stored is the one of the address. -/
theorem burst_of_not_sample (hf : WriteFit t.regs k) (h : t.regs.sample k = false) :
    t.regs.burst k = (if t.regs.push k then [destO k.req] else []).map some := by
  rw [Writes.burst, h, if_neg Bool.false_ne_true]
  cases hp : t.regs.push k with
  | false => rfl
  | true =>
    rw [push_eq, Bool.and_eq_true] at hp
    have hsel : selected k.conn k.req.addr = destO k.req := by
      funext j
      cases hd : destO k.req j with
      | false => rw [selected, show matchRegion k.req.addr j = false from hd, Bool.false_and]
      | true => rw [selected, show matchRegion k.req.addr j = true from hd, hf.connected hp.1 hp.2 j hd]; rfl
    rw [hsel]
    rfl

/-- With a destination, a last beat takes it along. -/
theorem lastTaken_eq (h : t.regs.dest.contents ≠ []) : t.regs.lastTaken k = t.regs.popDest k := by
  have he : t.regs.dest.empty = false := by
    rwa [Bool.eq_false_iff, Ne, Fifo.empty_iff]
  rw [Writes.lastTaken, Writes.popDest, he]
  cases k.wvalid <;> cases k.wlast <;> simp

theorem popDest_of_empty (h : t.regs.dest.contents = []) : t.regs.popDest k = false := by
  by_contra hp
  exact not_empty_of_popDest (Bool.eq_true_of_not_eq_false hp) h

/-- While no destination is known no data are taken. -/
theorem not_wreadyO (hf : WriteFit t.regs k) (hv : k.wvalid = true) (hc : t.regs.dest.contents = [])
    (haw : t.regs.aw ≠ .acceptWdata) : t.regs.wreadyO k = false := by
  have hold := hf.data hv (Fifo.empty_iff.2 hc) haw
  rw [Writes.wreadyO, handleError, beq_eq_false_iff_ne.2 haw, Bool.false_or, List.any_eq_false]
  intro j _ hj
  rw [Bool.and_eq_true] at hj
  rw [hold j hj.1] at hj
  cases hj.2

/-- What the data do to the bursts that have a destination. -/
theorem tail_bursts (h : WriteInv t) (hf : WriteFit t.regs k) (haw : t.regs.aw ≠ .acceptWdata) :
    (if t.regs.lastTaken k then t.bursts.tail else t.bursts) =
      (if t.regs.popDest k then t.regs.dest.contents.tail else t.regs.dest.contents).map some ++
        t.regs.denied := by
  rw [h.bursts]
  by_cases hc : t.regs.dest.contents = []
  · have hlast : t.regs.lastTaken k = false := by
      rw [Writes.lastTaken]
      cases hv : k.wvalid with
      | false => rfl
      | true => rw [not_wreadyO hf hv hc haw]; rfl
    rw [hlast, popDest_of_empty hc]
    rfl
  · rw [lastTaken_eq hc]
    obtain ⟨x, l, hl⟩ := List.exists_cons_of_ne_nil hc
    rw [hl]
    cases t.regs.popDest k <;> rfl

theorem WriteInv.next_bursts (h : WriteInv t) (hf : WriteFit t.regs k) :
    (t.next k).bursts = (t.next k).regs.dest.contents.map some ++ (t.next k).regs.denied := by
  have hb : (t.next k).bursts = (if t.regs.lastTaken k then t.bursts.tail else t.bursts) ++ t.regs.burst k := rfl
  rw [hb, contents_dest_next]
  cases haw : t.regs.aw with
  | operative =>
    have hden : t.regs.denied = [] := by simp [Writes.denied, haw]
    rw [tail_bursts h hf (by rw [haw]; nofun), hden, List.append_nil, List.map_append, List.append_assoc]
    congr 1
    cases hs : t.regs.sample k with
    | true =>
      have hden' : (t.next k).regs.denied = [none] := by
        rw [← awError_eq haw] at hs
        simp [Writes.denied, WriteLog.next, Writes.next, AwState.next, haw, hs]
      rw [(burst_of_sample hs).1, (burst_of_sample hs).2, hden']
      rfl
    | false =>
      have hden' : (t.next k).regs.denied = [] := by
        rw [← awError_eq haw] at hs
        simp [Writes.denied, WriteLog.next, Writes.next, AwState.next, haw, hs]
      rw [burst_of_not_sample hf hs, hden', List.append_nil]
  | completePending =>
    have hcl := closed (k := k) (t := t) (by rw [haw]; nofun)
    have hden : t.regs.denied = [none] := by simp [Writes.denied, haw]
    have hden' : (t.next k).regs.denied = [none] := by
      simp only [Writes.denied, WriteLog.next, Writes.next, AwState.next, haw]
      split <;> rfl
    rw [tail_bursts h hf (by rw [haw]; nofun), burst_of_not_sample hf hcl.1, hcl.2.1, hden, hden']
    simp
  | acceptWdata =>
    have hcl := closed (k := k) (t := t) (by rw [haw]; nofun)
    obtain ⟨-, hc⟩ := h.nothing_owed (h.quiet (.inl haw))
    have hden : t.regs.denied = [none] := by simp [Writes.denied, haw]
    have hlast : t.regs.lastTaken k = t.regs.wdataErrorCompleted k := by
      simp only [Writes.lastTaken, Writes.wdataErrorCompleted, Writes.wreadyO, handleError, haw]
      cases k.wvalid <;> cases k.wlast <;> rfl
    rw [h.bursts, burst_of_not_sample hf hcl.1, hcl.2.1, hc, hden, hlast]
    simp only [Writes.denied, WriteLog.next, Writes.next, AwState.next, haw]
    cases t.regs.wdataErrorCompleted k <;> cases t.regs.popDest k <;> rfl
  | completeErrorResp =>
    have hcl := closed (k := k) (t := t) (by rw [haw]; nofun)
    obtain ⟨-, hc⟩ := h.nothing_owed (h.quiet (.inr (.inl haw)))
    have hden : t.regs.denied = [] := by simp [Writes.denied, haw]
    have hden' : (t.next k).regs.denied = [] := by
      simp only [Writes.denied, WriteLog.next, Writes.next, AwState.next, haw]
      split <;> rfl
    rw [tail_bursts h hf (by rw [haw]; nofun), burst_of_not_sample hf hcl.1, hcl.2.1, hden, hden', hc]
    simp

/-- While the data of a denied request are taken, and while its answer is due, nothing becomes
outstanding. -/
theorem WriteInv.next_quiet (h : WriteInv t) (hf : WriteFit t.regs k)
    (hq : (t.next k).regs.aw = .acceptWdata ∨ (t.next k).regs.aw = .completeErrorResp ∨
      (t.next k).regs.bw = .errorSingle) : (t.next k).regs.outstanding = 0 := by
  have hzero (hi : t.regs.incr k = false) (h0 : t.regs.outstanding = 0) : (t.next k).regs.outstanding = 0 := by
    simp only [WriteLog.next, Writes.next, hi, h0, countOutstanding_zero]
  cases hs : t.regs.bw with
  | errorSingle =>
    exact hzero (by rw [incr_eq, single_not_granted hf hs]) (h.quiet (.inr (.inr hs)))
  | operative =>
    cases haw : t.regs.aw with
    | operative =>
      simp only [WriteLog.next, Writes.next, AwState.next, haw, hs, awErrorReq] at hq
      exfalso
      rcases hq with hq | hq | hq
      · split at hq <;> simp at hq
      · split at hq <;> simp at hq
      · simp [show (AwState.operative == .completeErrorResp) = false from rfl] at hq
    | completePending =>
      refine hzero (closed (by rw [haw]; nofun)).2.2 ?_
      by_contra hne
      have hout : t.regs.outstandingTrans = true := by simpa [Writes.outstandingTrans] using hne
      simp [WriteLog.next, Writes.next, AwState.next, haw, hs, awErrorReq, hout] at hq
    | acceptWdata => exact hzero (closed (by rw [haw]; nofun)).2.2 (h.quiet (.inl haw))
    | completeErrorResp => exact hzero (closed (by rw [haw]; nofun)).2.2 (h.quiet (.inr (.inl haw)))

/-- An answer is on the channel from the end of the data on, and the decoder opens with it. -/
theorem WriteInv.next_single (h : WriteInv t) (hf : WriteFit t.regs k)
    (hs' : (t.next k).regs.bw = .errorSingle) :
    (t.next k).regs.aw = .operative ∨ (t.next k).regs.aw = .completeErrorResp := by
  cases hs : t.regs.bw with
  | operative =>
    have hgnt : t.regs.errorGnt = false := by rw [Writes.errorGnt, hs]; rfl
    have haw : t.regs.aw = .completeErrorResp := by
      by_contra hne
      simp [WriteLog.next, Writes.next, hs, awErrorReq, hne] at hs'
    refine .inr ?_
    simp [WriteLog.next, Writes.next, AwState.next, haw, hgnt]
  | errorSingle =>
    have hgnt : t.regs.errorGnt = true := by rw [Writes.errorGnt, hs]; rfl
    have hr : k.bready = false := by
      by_contra hr
      simp [WriteLog.next, Writes.next, hs, Bool.eq_true_of_not_eq_false hr] at hs'
    refine .inl ?_
    rcases h.single hs with haw | haw
    · have herr := single_not_denied hf hs hr
      rw [← awError_eq haw] at herr
      simp [WriteLog.next, Writes.next, AwState.next, haw, herr]
    · simp [WriteLog.next, Writes.next, AwState.next, haw, hgnt]

theorem WriteInv.next_answered (h : WriteInv t) (hf : WriteFit t.regs k) :
    (t.next k).expected = (t.next k).taken ++ (t.next k).regs.pending := by
  have hans := h.answered
  cases hs : t.regs.bw with
  | operative =>
    have htaken : (t.next k).taken = t.taken := by simp [WriteLog.next, hs]
    have hgnt : t.regs.errorGnt = false := by rw [Writes.errorGnt, hs]; rfl
    by_cases haw : t.regs.aw = .operative
    · have hpend : t.regs.pending = [] := if_pos ⟨haw, hs⟩
      rw [hpend, List.append_nil] at hans
      rw [htaken]
      cases herr : t.regs.sample k with
      | true =>
        have haw' : (t.next k).regs.aw ≠ .operative := by
          rw [← awError_eq haw] at herr
          simp [WriteLog.next, Writes.next, AwState.next, haw, herr]
        rw [Writes.pending, if_neg fun hb => haw' hb.1]
        simp [WriteLog.next, Writes.next, herr, hans]
      | false =>
        have haw' : (t.next k).regs.aw = .operative := by
          rw [← awError_eq haw] at herr
          simp [WriteLog.next, Writes.next, AwState.next, haw, herr]
        have hs' : (t.next k).regs.bw = .operative := by
          simp [WriteLog.next, Writes.next, awErrorReq, hs, haw, show
            (AwState.operative == .completeErrorResp) = false from rfl]
        rw [Writes.pending, if_pos ⟨haw', hs'⟩]
        simp [WriteLog.next, herr, hans]
    · have hcl := closed (k := k) haw
      have hpend : t.regs.pending = [t.regs.errorId] := if_neg fun hb => haw hb.1
      have haw' : (t.next k).regs.aw ≠ .operative := by
        simp only [WriteLog.next, Writes.next, hgnt]
        cases haw0 : t.regs.aw with
        | operative => exact absurd haw0 haw
        | completePending => simp only [AwState.next]; split <;> nofun
        | acceptWdata => simp only [AwState.next]; split <;> nofun
        | completeErrorResp => simp [AwState.next]
      rw [htaken, Writes.pending, if_neg fun hb => haw' hb.1]
      rw [hpend] at hans
      simp [WriteLog.next, Writes.next, hcl.1, hans]
  | errorSingle =>
    have hpend := pending_of_single hs
    have hgnt : t.regs.errorGnt = true := by rw [Writes.errorGnt, hs]; rfl
    rw [hpend] at hans
    -- unless a denied write comes, the decoder is open after the edge
    have hopen (herr : t.regs.sample k = false) : (t.next k).regs.aw = .operative := by
      rcases h.single hs with haw | haw
      · rw [← awError_eq haw] at herr
        simp [WriteLog.next, Writes.next, AwState.next, haw, herr]
      · simp [WriteLog.next, Writes.next, AwState.next, haw, hgnt]
    cases hr : k.bready with
    | true =>
      have htaken : (t.next k).taken = t.taken ++ [t.regs.errorId] := by simp [WriteLog.next, hs, hr]
      have hs' : (t.next k).regs.bw = .operative := by simp [WriteLog.next, Writes.next, hs, hr]
      rw [htaken, ← hans]
      cases herr : t.regs.sample k with
      | true =>
        have haw : t.regs.aw = .operative := by
          by_contra hne
          rw [(closed hne).1] at herr
          cases herr
        have haw' : (t.next k).regs.aw ≠ .operative := by
          have herr' := herr
          rw [← awError_eq haw] at herr'
          simp [WriteLog.next, Writes.next, AwState.next, haw, herr']
        rw [Writes.pending, if_neg fun hb => haw' hb.1]
        simp [WriteLog.next, Writes.next, herr]
      | false =>
        rw [Writes.pending, if_pos ⟨hopen herr, hs'⟩]
        simp [WriteLog.next, herr]
    | false =>
      have herr := single_not_denied hf hs hr
      have hs' : (t.next k).regs.bw = .errorSingle := by simp [WriteLog.next, Writes.next, hs, hr]
      have hid : (t.next k).regs.errorId = t.regs.errorId := by simp [WriteLog.next, Writes.next, herr]
      rw [pending_of_single hs']
      simpa [WriteLog.next, hr, herr, hans] using hid.symm

theorem WriteInv.next (h : WriteInv t) (hf : WriteFit t.regs k) (he : WriteEnv t k) : WriteInv (t.next k) :=
  ⟨h.next_answered hf, h.next_bursts hf, h.next_outstanding hf he, h.next_quiet hf, h.next_single hf⟩

/-- What is sampled is a denied request that is accepted. -/
theorem Writes.sample_iff (w : Writes) (k : WIn) : w.sample k = true ↔ w.accepts k = true ∧
    ∀ j, matchRegion k.req.addr j = true → k.conn j = false := by
  rw [← unmatched_eq_true_iff]
  simp only [Writes.sample, sampleAwdata, Writes.accepts, awreadyO, awError]
  cases (w.aw == .operative) <;> cases w.grantFifo <;> cases k.req.valid <;>
    cases unmatched k.conn k.req.addr <;> simp

/-- Data that are on a port's channel are those of the burst that is due. -/
theorem WriteInv.shown (h : WriteInv t) (he : t.regs.dest.empty = false) :
    ∃ l, t.bursts = some t.regs.dest.out :: l := by
  obtain ⟨l, hl⟩ := Fifo.contents_eq_cons he
  exact ⟨l.map some ++ t.regs.denied, by rw [h.bursts, hl]; rfl⟩

theorem WriteInv.data (h : WriteInv t) (hf : WriteFit t.regs k) (hv : k.wvalid = true)
    (hr : t.regs.wreadyO k = true) :
    ∃ b l, t.bursts = b :: l ∧ ∀ j, t.regs.wvalidO k j = (b.getD fun _ => false) j := by
  by_cases haw : t.regs.aw = .acceptWdata
  · obtain ⟨-, hc⟩ := h.nothing_owed (h.quiet (.inl haw))
    refine ⟨none, [], ?_, fun j => ?_⟩
    · rw [h.bursts, hc]
      simp [Writes.denied, haw]
    · simp [Writes.wvalidO, handleError, haw]
  · have he : t.regs.dest.empty = false := by
      by_contra he
      have hc := Fifo.empty_iff.1 (Bool.eq_true_of_not_eq_false he)
      rw [not_wreadyO hf hv hc haw] at hr
      cases hr
    obtain ⟨l, hl⟩ := h.shown he
    refine ⟨_, l, hl, fun j => ?_⟩
    simp [Writes.wvalidO, handleError, beq_eq_false_iff_ne.2 haw, hv, he]

/-- An invariant and an edge that fits give the law. -/
theorem WriteInv.law (h : WriteInv t) (hf : WriteFit t.regs k) : WriteLaw t k := by
  refine ⟨t.regs.sample_iff k, fun j hj => ?_, fun haw hg herr j => ?_, fun j hj => ?_, h.data hf, h.answered,
    fun hs => ?_, fun hs hr => ?_, ?_⟩
  · simp only [awvalidO, selected, Bool.and_eq_true] at hj
    exact hj.2.2.2
  · rw [awvalidO, herr, haw, hg]
    simp
  · simp only [Writes.wvalidO, Bool.and_eq_true, Bool.not_eq_true'] at hj
    obtain ⟨l, hl⟩ := h.shown hj.1.2.2
    exact ⟨_, l, hl, hj.2⟩
  · refine ⟨by simp [Writes.bvalidO, hs], by simp [Writes.brespO, hs], pending_of_single hs, ?_⟩
    · obtain ⟨-, hc⟩ := h.nothing_owed (h.quiet (.inr (.inr hs)))
      rw [h.bursts, hc]
      rcases h.single hs with haw | haw
      · simp [Writes.denied, haw]
      · simp [Writes.denied, haw]
  · have hs' : (t.next k).regs.bw = .errorSingle := by simp [WriteLog.next, Writes.next, hs, hr]
    have hnext := h.next_answered hf
    have hexp : (t.next k).expected = t.expected := by
      simp [WriteLog.next, single_not_denied hf hs hr]
    have htaken : (t.next k).taken = t.taken := by simp [WriteLog.next, hr]
    rw [hexp, htaken, h.answered] at hnext
    exact ⟨hs', (List.append_cancel_left hnext).symm⟩
  · cases hs : t.regs.bw with
    | operative =>
      rw [if_neg (by decide)]
      simp [Writes.bvalidO, Writes.brespO, Writes.arbBready, hs, show
        (BwState.operative == .errorSingle) = false from rfl]
    | errorSingle =>
      rw [if_pos rfl]
      simp [Writes.arbBready, hs]

/-! ### Writes are answered in time -/

/-- The write side gets what its answer waits for: the responses of the ports that are still
due, then the data of the denied request, then the master. -/
def WriteLog.served (t : WriteLog) (k : WIn) : Bool :=
  match t.regs.bw, t.regs.aw with
  | .errorSingle, _ => k.bready
  | .operative, .operative => false
  | .operative, .completePending => !t.regs.outstandingTrans
  | .operative, .acceptWdata => k.wvalid && k.wlast
  | .operative, .completeErrorResp => true

/-- How many such cycles an answer takes. -/
def Writes.stage (w : Writes) : ℕ :=
  match w.bw, w.aw with
  | .errorSingle, _ => 1
  | .operative, .operative => 0
  | .operative, .completePending => 4
  | .operative, .acceptWdata => 3
  | .operative, .completeErrorResp => 2

/-- No answer is owed if none takes any. -/
theorem pending_of_stage {w : Writes} (h : w.stage = 0) : w.pending = [] := by
  refine if_pos ?_
  cases hs : w.bw with
  | operative =>
    cases haw : w.aw with
    | operative => exact ⟨rfl, rfl⟩
    | completePending => simp [Writes.stage, hs, haw] at h
    | acceptWdata => simp [Writes.stage, hs, haw] at h
    | completeErrorResp => simp [Writes.stage, hs, haw] at h
  | errorSingle => simp [Writes.stage, hs] at h

/-- How many such cycles the first `n` answers still take. -/
def WriteLog.due (n : ℕ) (t : WriteLog) : ℕ := if t.taken.length < n then t.regs.stage else 0

/-- One edge takes an answer no further away, and one that serves it takes it nearer. -/
theorem stage_next (h : WriteInv t) (hs : t.regs.bw = .operative) (haw : t.regs.aw ≠ .operative) :
    (t.next k).regs.stage + (t.served k).toNat ≤ t.regs.stage := by
  have hgnt : t.regs.errorGnt = false := by rw [Writes.errorGnt, hs]; rfl
  have hbw : (t.next k).regs.bw =
      if awErrorReq t.regs.aw && !t.regs.outstandingTrans then .errorSingle else .operative := by
    simp [WriteLog.next, Writes.next, hs]
  have haw' : (t.next k).regs.aw = t.regs.aw.next k.conn k.req t.regs.grantFifo t.regs.outstandingTrans
    (t.regs.wdataErrorCompleted k) false := by simp [WriteLog.next, Writes.next, hgnt]
  cases hst : t.regs.aw with
  | operative => exact absurd hst haw
  | completePending =>
    have hreq : awErrorReq .completePending = false := rfl
    simp only [hst, AwState.next, hreq, Bool.false_and, Bool.false_eq_true, if_false] at hbw haw'
    cases hout : t.regs.outstandingTrans <;>
      simp [Writes.stage, WriteLog.served, hs, hst, hbw, haw', hout]
  | acceptWdata =>
    have hreq : awErrorReq .acceptWdata = false := rfl
    simp only [hst, AwState.next, hreq, Bool.false_and, Bool.false_eq_true, if_false] at hbw haw'
    have hdone : t.regs.wdataErrorCompleted k = (k.wvalid && k.wlast) := by
      rw [Writes.wdataErrorCompleted, handleError, hst, Bool.and_comm k.wvalid]
      rfl
    rw [hdone] at haw'
    cases hd : (k.wvalid && k.wlast) <;>
      simp [Writes.stage, WriteLog.served, hs, hst, hbw, haw', hd]
  | completeErrorResp =>
    have hout : t.regs.outstandingTrans = false := by
      rw [Writes.outstandingTrans, h.quiet (.inr (.inl hst))]
      rfl
    simp [hst, awErrorReq, hout] at hbw
    simp [Writes.stage, WriteLog.served, hs, hst, hbw]

theorem writes_taken_next (t : WriteLog) (k : WIn) :
    (t.next k).taken.length = t.taken.length + (t.regs.bw == .errorSingle && k.bready).toNat := by
  simp only [WriteLog.next, List.length_append]
  by_cases hb : t.regs.bw = .errorSingle ∧ k.bready = true
  · rw [if_pos hb, hb.1, hb.2]
    rfl
  · rw [if_neg hb]
    cases hs : t.regs.bw with
    | operative => rfl
    | errorSingle =>
      have hr : k.bready = false := by
        by_contra hr
        exact hb ⟨hs, Bool.eq_true_of_not_eq_false hr⟩
      rw [hr]
      rfl

theorem writes_due_next {n : ℕ} (h : WriteInv t) (hn : n ≤ t.expected.length) :
    (t.next k).due n ≤ t.due n ∧ (t.served k = true → t.due n ≠ 0 → (t.next k).due n < t.due n) := by
  have ht := writes_taken_next t k
  have hans := congrArg List.length h.answered
  rw [List.length_append] at hans
  unfold WriteLog.due
  by_cases hlt : t.taken.length < n
  · rw [if_pos hlt]
    cases hs : t.regs.bw with
    | operative =>
      have haw : t.regs.aw ≠ .operative := by
        intro haw
        rw [Writes.pending, if_pos ⟨haw, hs⟩, List.length_nil] at hans
        omega
      have hstage := stage_next (k := k) h hs haw
      refine ⟨?_, fun hp hd => ?_⟩
      · split <;> omega
      · rw [hp, Bool.toNat_true] at hstage
        split <;> omega
    | errorSingle =>
      rw [pending_of_single hs, List.length_singleton] at hans
      have hone : t.regs.stage = 1 := by simp [Writes.stage, hs]
      rw [hs, show (BwState.errorSingle == .errorSingle) = true from rfl, Bool.true_and] at ht
      rw [hone]
      cases hr : k.bready with
      | true =>
        rw [hr, Bool.toNat_true] at ht
        rw [if_neg (by omega)]
        exact ⟨Nat.zero_le _, fun _ _ => Nat.one_pos⟩
      | false =>
        have hs' : (t.next k).regs.stage = 1 := by simp [WriteLog.next, Writes.next, Writes.stage, hs, hr]
        refine ⟨?_, fun hp => ?_⟩
        · rw [hs']
          split <;> omega
        · simp [WriteLog.served, hs, hr] at hp
  · rw [if_neg hlt, if_neg (by omega)]
    exact ⟨le_refl _, fun _ h0 => absurd rfl h0⟩

theorem writes_expected_le_next (t : WriteLog) (k : WIn) : t.expected.length ≤ (t.next k).expected.length := by
  simp [WriteLog.next]

/-! ### The response block of a master -/

/-- The pins of a response block, with the matrix and the level the connectivity is made of. -/
structure BlockIn where
  ac : Fin nrSlaves → Periph → BitVec 4
  privLvl : PrivLvl
  ar : AxReq
  arready : Periph → Bool
  rArbValid : Bool
  rArb : RBeat
  rready : Bool
  aw : AxReq
  awready : Periph → Bool
  wvalid : Bool
  wlast : Bool
  wready : Periph → Bool
  bArbValid : Bool
  bArb : BResp
  bready : Bool

/-- The pins of the read side of master `m`. -/
def BlockIn.reads (i : BlockIn) (m : Fin nrSlaves) : RIn :=
  ⟨connectivityMap i.ac i.privLvl m, i.ar, i.arready, i.rArbValid, i.rArb, i.rready⟩

/-- The pins of the write side of master `m`. -/
def BlockIn.writes (i : BlockIn) (m : Fin nrSlaves) : WIn :=
  ⟨connectivityMap i.ac i.privLvl m, i.aw, i.awready, i.wvalid, i.wlast, i.wready, i.bArbValid, i.bArb,
    i.bready⟩

/-- `axi_response_block` of a master, with its logs. -/
structure Block where
  reads : ReadLog
  writes : WriteLog

def Block.reset : Block := ⟨⟨Reads.reset, [], []⟩, ⟨Writes.reset, [], [], [], 0⟩⟩

/-- The response block of master `m`. -/
def blockMachine (m : Fin nrSlaves) : Machine Block BlockIn where
  init s := s = Block.reset
  next s i := ⟨s.reads.next (i.reads m), s.writes.next (i.writes m)⟩

/-- The ports keep the protocol, and the edge is none at which the block goes wrong. -/
structure BlockFit (m : Fin nrSlaves) (s : Block) (i : BlockIn) : Prop where
  reads : ReadFit s.reads.regs (i.reads m)
  writes : WriteFit s.writes.regs (i.writes m)
  env : WriteEnv s.writes (i.writes m)

/-- Both sides keep their law. -/
structure BlockLaw (m : Fin nrSlaves) (s : Block) (i : BlockIn) : Prop where
  reads : ReadLaw s.reads (i.reads m)
  writes : WriteLaw s.writes (i.writes m)

/-- What is denied up to `s` is answered once what it waits for has come often enough. -/
structure AnsweredInTime (m : Fin nrSlaves) (s : Block) (is : List BlockIn) : Prop where
  reads : s.reads.due s.reads.expected.length ≤
      (blockMachine m).count (fun u i => u.reads.served (i.reads m)) s is →
    s.reads.expected <+: ((blockMachine m).run s is).reads.taken
  writes : s.writes.due s.writes.expected.length ≤
      (blockMachine m).count (fun u i => u.writes.served (i.writes m)) s is →
    s.writes.expected <+: ((blockMachine m).run s is).writes.taken

structure BlockInv (s : Block) : Prop where
  reads : ReadInv s.reads
  writes : WriteInv s.writes

variable {m : Fin nrSlaves} {b : Block}

theorem BlockInv.reset : BlockInv Block.reset where
  reads := ⟨rfl, rfl⟩
  writes := ⟨rfl, rfl, rfl, fun _ => rfl, nofun⟩

theorem BlockInv.next {i : BlockIn} (h : BlockInv b) (hf : BlockFit m b i) :
    BlockInv ((blockMachine m).next b i) :=
  ⟨h.reads.next hf.reads, h.writes.next hf.writes hf.env⟩

/-- A log that grows, and all of whose first entries were taken, was taken. -/
theorem prefix_of_length {α : Type} {e e' l p : List α} (hpre : e <+: e') (he : e' = l ++ p)
    (hlen : e.length ≤ l.length) : e <+: l :=
  List.prefix_of_prefix_length_le hpre (he ▸ List.prefix_append l p) hlen

theorem reads_expected_grows (m : Fin nrSlaves) : ∀ (is : List BlockIn) (b : Block),
    b.reads.expected <+: ((blockMachine m).run b is).reads.expected
  | [], _ => List.prefix_refl _
  | i :: is, b => (List.prefix_append _ _).trans (reads_expected_grows m is ((blockMachine m).next b i))

theorem writes_expected_grows (m : Fin nrSlaves) : ∀ (is : List BlockIn) (b : Block),
    b.writes.expected <+: ((blockMachine m).run b is).writes.expected
  | [], _ => List.prefix_refl _
  | i :: is, b => (List.prefix_append _ _).trans (writes_expected_grows m is ((blockMachine m).next b i))

theorem BlockInv.answeredInTime (h : BlockInv b) {is : List BlockIn}
    (hs : (blockMachine m).Steps (BlockFit m) b is) : AnsweredInTime m b is := by
  have hend := Machine.run_inv (fun s i hi hf => BlockInv.next (m := m) (i := i) hi hf) is b h hs
  constructor
  · intro hc
    have hdue := Machine.run_measure (M := blockMachine m)
      (P := fun u => BlockInv u ∧ b.reads.expected.length ≤ u.reads.expected.length)
      (p := fun u i => u.reads.served (i.reads m)) (μ := fun u => u.reads.due b.reads.expected.length)
      (fun u i hu hf => ⟨hu.1.next hf, hu.2.trans (expected_le_next u.reads (i.reads m))⟩)
      (fun u i hu _ => due_next_le hu.1.reads hu.2)
      (fun u i hu _ hp hd => due_next_lt hu.1.reads hu.2 hp hd) is b ⟨h, le_refl _⟩ hs hc
    refine prefix_of_length (reads_expected_grows m is b) hend.reads.answered ?_
    by_contra hlt
    rw [ReadLog.due, if_pos (by omega)] at hdue
    omega
  · intro hc
    have hdue := Machine.run_measure (M := blockMachine m)
      (P := fun u => BlockInv u ∧ b.writes.expected.length ≤ u.writes.expected.length)
      (p := fun u i => u.writes.served (i.writes m)) (μ := fun u => u.writes.due b.writes.expected.length)
      (fun u i hu hf => ⟨hu.1.next hf, hu.2.trans (writes_expected_le_next u.writes (i.writes m))⟩)
      (fun u i hu _ => (writes_due_next hu.1.writes hu.2).1)
      (fun u i hu _ hp hd => (writes_due_next hu.1.writes hu.2).2 hp hd) is b ⟨h, le_refl _⟩ hs hc
    refine prefix_of_length (writes_expected_grows m is b) hend.writes.answered ?_
    by_contra hlt
    rw [WriteLog.due, if_pos (by omega)] at hdue
    have hlen := (writes_expected_grows m is b).length_le
    rw [hend.writes.answered, pending_of_stage hdue, List.append_nil] at hlen
    omega

/-- For every master, and in every run whose edges fit, whatever the matrix, the levels and the
timing are: no port sees anything of a denied request, every denied request is answered once, in
order and with what it asked for, other traffic goes through, and no answer is kept back. -/
theorem denied_answered (m : Fin nrSlaves) (is : List BlockIn)
    (h : (blockMachine m).Steps (BlockFit m) Block.reset is) :
    (blockMachine m).Steps (BlockLaw m) Block.reset is ∧
      ∀ pre post, is = pre ++ post → AnsweredInTime m ((blockMachine m).run Block.reset pre) post := by
  have hstep (b : Block) (i : BlockIn) (hi : BlockInv b) (hf : BlockFit m b i) :
      BlockInv ((blockMachine m).next b i) := hi.next hf
  refine ⟨Machine.steps_of_inv hstep (fun b i hi hf => ⟨hi.reads.law hf.reads, hi.writes.law hf.writes⟩) is _
    BlockInv.reset h, ?_⟩
  rintro pre post rfl
  rw [Machine.steps_append] at h
  exact (Machine.run_inv hstep pre _ BlockInv.reset h.1).answeredInTime h.2

instance decidableReadFit (s : Reads) (i : RIn) : Decidable (ReadFit s i) :=
  decidable_of_iff ((s.br = .errorSingle → s.ar = .operative → arError i.conn i.req = false) ∧
    (s.br = .errorBurst → i.rready = true → (s.counterBurst < i.req.len ↔ s.counterBurst < s.errorLen)) ∧
    (s.br = .errorBurst → i.rready = false → i.arb.last = decide (s.counterBurst = s.errorLen)))
    ⟨fun h => ⟨h.1, h.2.1, h.2.2⟩, fun h => ⟨h.single, h.length, h.last⟩⟩

instance decidableWriteFit (s : Writes) (i : WIn) : Decidable (WriteFit s i) :=
  decidable_of_iff ((s.bw = .errorSingle → s.aw = .operative →
      i.granted = false ∧ (i.bready = false → i.denied = false)) ∧
    (i.wvalid = true → s.dest.empty = true → s.aw ≠ .acceptWdata →
      ∀ j ∈ Periph.all, i.wready j = true → s.dest.out j = false) ∧
    (s.isOpen = true → i.granted = true → s.outstanding ≠ BitVec.allOnes 10) ∧
    (s.isOpen = true → i.granted = true →
      ∀ j ∈ Periph.all, matchRegion i.req.addr j = true → i.conn j = true))
    ⟨fun h => ⟨h.1, fun hv he ha j => h.2.1 hv he ha j j.mem_all, h.2.2.1,
      fun ho hg j => h.2.2.2 ho hg j j.mem_all⟩,
     fun h => ⟨h.single, fun hv he ha j _ => h.data hv he ha j, h.full, fun ho hg j _ => h.connected ho hg j⟩⟩

instance decidableBlockFit (m : Fin nrSlaves) (b : Block) (i : BlockIn) : Decidable (BlockFit m b i) :=
  decidable_of_iff (ReadFit b.reads.regs (i.reads m) ∧ WriteFit b.writes.regs (i.writes m) ∧
    (b.writes.regs.bw = .operative → (i.writes m).arbValid = true → (i.writes m).bready = true →
      0 < b.writes.owed))
    ⟨fun h => ⟨h.1, h.2.1, ⟨h.2.2⟩⟩, fun h => ⟨h.reads, h.writes, h.env.response⟩⟩

/-- A master that may use no peripheral, with a read of `len + 1` beats and a write. -/
def deniedIn (valid : Bool) (len : BitVec 8) : BlockIn where
  ac _ _ := 0
  privLvl := privLvlU
  ar := ⟨valid, 0x80000000, len, 5⟩
  arready _ := true
  rArbValid := false
  rArb := ⟨0, 0, 0, false⟩
  rready := true
  aw := ⟨valid, 0x80000000, 0, 3⟩
  awready _ := true
  wvalid := true
  wlast := true
  wready _ := true
  bArbValid := false
  bArb := ⟨0, 0⟩
  bready := true

/-- A read of two beats and a write, both denied and both answered. -/
theorem denied_answered_both :
    (blockMachine 1).Steps (BlockLaw 1) Block.reset (deniedIn true 1 :: List.replicate 4 (deniedIn false 1)) ∧
      ((blockMachine 1).run Block.reset (deniedIn true 1 :: List.replicate 4 (deniedIn false 1))).reads.taken =
        errorBeats 5 1 ∧
      ((blockMachine 1).run Block.reset (deniedIn true 1 :: List.replicate 4 (deniedIn false 1))).writes.taken =
        [3] :=
  ⟨(denied_answered 1 _ (by decide +kernel)).1, by decide +kernel, by decide +kernel⟩

/-- A denied read of four beats is answered with one if the length is gone from the channel
when the answer begins. -/
theorem denied_truncated : ¬(blockMachine 1).Steps (BlockLaw 1) Block.reset
    [deniedIn true 3, deniedIn false 0, deniedIn false 0] := by
  rintro ⟨-, -, h, -⟩
  exact absurd h.reads.answered (by decide +kernel)

end Soc
end Ariane

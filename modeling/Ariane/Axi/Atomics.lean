/-
# Atomics through the AXI adapter

The miss unit sends one LR, SC or AMO at a time and waits for its `DCACHE_ATOMIC_ACK`. `Served`
is the adapter on its bus with the atomics so far, numbered, and the numbers of those whose
read beat and whose write response are still to be taken: the slave answers the atomics in
order, all of them have the id 3.

An LR or an AMO returns with its read beat, an SC with its write response; the adapter drops
the write response of an AMO. Two registers tell it what a write response is for, and neither
is kept long enough. `amo_gen_r_q` is that of the atomic sent last, so an SC that goes out
before the response of an AMO was taken returns with that response. `amo_off_q` is cleared one
cycle after the SC went out, so the failure of an SC to an upper word is reported in the lower
one, and reads as success. Without these two, every atomic returns once, with its own response
(`atomics_answered`).
-/
import Ariane.Axi.Slave

namespace Ariane
namespace Axi
namespace Atomics

open Lib (Machine)

variable {c : Cfg}

/-- The result of an atomic out of the first word of the message, as the miss unit takes it:
the word of a 32-bit atomic is sign extended. -/
def amoResult (r : DcacheReq c) (d : Word) : Word :=
  if r.size.extractLsb' 0 2 = 2 then
    (if r.paddr.getLsbD 2 then d.extractLsb' 32 32 else d.extractLsb' 0 32).signExtend 64
  else d

/-! ### Atomics in order -/

structure Served (c : Cfg) where
  adapter : Regs c
  slave : Slave c
  accepted : List (DcacheReq c)
  /-- The number of `DCACHE_ATOMIC_ACK`s. -/
  acks : ℕ
  /-- The atomics whose read beat, and those whose write response, was not taken yet. -/
  rs : List ℕ
  bs : List ℕ
  /-- A store-conditional was on the write channel in the cycle before. -/
  scLast : Bool

/-- An acknowledgement is made. -/
def ackD (s : Regs c) (i : In c) : Bool := (rtrn s i).vld && (rtrn s i).rtype == .atomicAck

namespace Served

variable (t : Served c) (i : In c)

/-- The number of the atomic at the head of the FIFO. -/
def headNum : ℕ := t.accepted.length - t.adapter.dcacheFifo.length

/-- The read beat of an atomic is taken. -/
def rTaken : Bool := Slave.rBeat t.adapter i && i.rId == 3#4 && i.rLast

def bTaken : Bool := (rtrn t.adapter i).bPop

def next : Served c where
  adapter := Axi.next t.adapter i
  slave := t.slave.next t.adapter i
  accepted := t.accepted ++ if dcacheAck t.adapter i then [i.dcacheData] else []
  acks := t.acks + (ackD t.adapter i).toNat
  rs := (if t.rTaken i then t.rs.tail else t.rs) ++
    if axiRdGnt t.adapter i && arbIdx t.adapter i || axiWrGnt t.adapter i && (dcacheData t.adapter).hasR then
      [t.headNum] else []
  bs := (if t.bTaken i then t.bs.tail else t.bs) ++ if axiWrGnt t.adapter i then [t.headNum] else []
  scLast := servesAmo t.adapter i .sc

/-- The atomic that waits for its acknowledgement. -/
def cur : Option (DcacheReq c) := t.accepted[t.acks]?

end Served

def servedReset : Served c := ⟨reset, Slave.reset, [], 0, [], [], false⟩

def served (c : Cfg) : Machine (Served c) (In c) := ⟨(· = servedReset), Served.next⟩

/-- The slave is an AXI slave, and the data cache sends atomics, one at a time. -/
structure OneAtATime (t : Served c) (i : In c) : Prop where
  legal : Legal t.slave i
  atomic : i.dcacheReq = true → i.dcacheData.rtype = .atomicReq ∧ i.dcacheData.amoOp ≠ .none ∧
    i.dcacheData.size.getLsbD 2 = false
  one : i.dcacheReq = true → t.acks = t.accepted.length

/-- The response that decides the atomic has come: the read beat of an LR or an AMO, the
write response of an SC. -/
def OwnCame (t : Served c) (i : In c) (r : DcacheReq c) : Prop :=
  if r.amoOp = .sc then bWaiting t.adapter i ≠ [] ∧ t.bs.head? = some t.acks
  else (i.rValid = true ∧ i.rId = 3#4) ∧ t.rs.head? = some t.acks

/-- What the message of the acknowledgement says. -/
def ResultOk (t : Served c) (i : In c) (r : DcacheReq c) : Prop :=
  if r.amoOp = .sc then amoResult r (dcacheShiftD t.adapter i 0) = 0 ↔ wrExokay t.adapter i = true
  else dcacheShiftD t.adapter i 0 = i.rData

/-- An acknowledgement is made exactly when the response of the atomic that waits for one has
come, and has its result; the atomic waits for nothing but the bus. -/
def Acknowledges (t : Served c) (i : In c) : Prop :=
  match t.cur with
  | none => ackD t.adapter i = false
  | some r => (ackD t.adapter i = true ↔ OwnCame t i r) ∧ (ackD t.adapter i = true → ResultOk t i r) ∧
      (t.adapter.dcacheFifo ≠ [] → arbReqD t.adapter = true)

/-- The adapter keeps track: while an SC is on the write channel no write response of an
earlier atomic is owed, or the last one is here and the SC is not accepted yet; and the
failure of an SC to an upper word comes in the cycle after the SC went out. -/
structure Timely (t : Served c) (i : In c) : Prop where
  drained : servesAmo t.adapter i .sc = true →
    t.bs = [] ∨ t.bs.length = 1 ∧ bWaiting t.adapter i ≠ [] ∧ arbGnt t.adapter i = false
  offset : ∀ r, t.cur = some r → r.amoOp = .sc → OwnCame t i r → wrExokay t.adapter i = false →
    r.size.extractLsb' 0 2 = 2 → r.paddr.getLsbD 2 = true → t.scLast = true

section Decidable

variable (t : Served c) (i : In c) (r : DcacheReq c)

instance : Decidable (OneAtATime t i) :=
  decidable_of_iff (Legal t.slave i ∧ (i.dcacheReq = true → i.dcacheData.rtype = .atomicReq ∧
      i.dcacheData.amoOp ≠ .none ∧ i.dcacheData.size.getLsbD 2 = false) ∧
      (i.dcacheReq = true → t.acks = t.accepted.length))
    ⟨fun h => ⟨h.1, h.2.1, h.2.2⟩, fun h => ⟨h.legal, h.atomic, h.one⟩⟩

instance : Decidable (OwnCame t i r) :=
  inferInstanceAs (Decidable (if r.amoOp = .sc then bWaiting t.adapter i ≠ [] ∧ t.bs.head? = some t.acks
    else (i.rValid = true ∧ i.rId = 3#4) ∧ t.rs.head? = some t.acks))

instance : Decidable (ResultOk t i r) :=
  inferInstanceAs (Decidable (if r.amoOp = .sc then
      amoResult r (dcacheShiftD t.adapter i 0) = 0 ↔ wrExokay t.adapter i = true
    else dcacheShiftD t.adapter i 0 = i.rData))

instance : Decidable (Acknowledges t i) :=
  match h : t.cur with
  | none => decidable_of_iff (ackD t.adapter i = false) (by simp [Acknowledges, h])
  | some r => decidable_of_iff ((ackD t.adapter i = true ↔ OwnCame t i r) ∧ (ackD t.adapter i = true → ResultOk t i r) ∧
      (t.adapter.dcacheFifo ≠ [] → arbReqD t.adapter = true)) (by simp [Acknowledges, h])

instance : Decidable (Timely t i) :=
  decidable_of_iff ((servesAmo t.adapter i .sc = true →
      t.bs = [] ∨ t.bs.length = 1 ∧ bWaiting t.adapter i ≠ [] ∧ arbGnt t.adapter i = false) ∧
      ∀ r ∈ t.cur, r.amoOp = .sc → OwnCame t i r → wrExokay t.adapter i = false →
        r.size.extractLsb' 0 2 = 2 → r.paddr.getLsbD 2 = true → t.scLast = true)
    ⟨fun h => ⟨h.1, h.2⟩, fun h => ⟨h.drained, h.offset⟩⟩

end Decidable

/-! ### The invariant -/

/-- No atomic, one in the FIFO, one that waits for its read beat, an SC that waits for its
write response. -/
inductive Phase (t : Served c) : Prop
  | idle (len : t.acks = t.accepted.length) (fifo : t.adapter.dcacheFifo = []) (reads : t.slave.reads 3#4 = [])
      (rs : t.rs = []) (older : ∀ m ∈ t.bs, m < t.acks) (gen : t.bs ≠ [] → t.adapter.amoGenR = true)
  | queued (r : DcacheReq c) (cur : t.cur = some r) (len : t.acks + 1 = t.accepted.length)
      (fifo : t.adapter.dcacheFifo = [r]) (reads : t.slave.reads 3#4 = []) (rs : t.rs = [])
      (older : ∀ m ∈ t.bs, m < t.acks) (gen : t.bs ≠ [] → t.adapter.amoGenR = true)
  | read (r : DcacheReq c) (cur : t.cur = some r) (op : r.amoOp ≠ .sc) (len : t.acks + 1 = t.accepted.length)
      (fifo : t.adapter.dcacheFifo = []) (reads : t.slave.reads 3#4 = [(.data r, 0)]) (rs : t.rs = [t.acks])
      (older : ∀ m ∈ t.bs, m ≤ t.acks) (gen : t.adapter.amoGenR = true)
  | write (r : DcacheReq c) (cur : t.cur = some r) (op : r.amoOp = .sc) (len : t.acks + 1 = t.accepted.length)
      (fifo : t.adapter.dcacheFifo = []) (reads : t.slave.reads 3#4 = []) (rs : t.rs = []) (bs : t.bs = [t.acks])
      (gen : t.adapter.amoGenR = false) (off : t.adapter.amoOff = 0 ∨ t.adapter.amoOff = scOff r)
      (last : t.scLast = true → t.adapter.amoOff = scOff r)

structure Inv (t : Served c) : Prop where
  bus : Bus t.adapter t.slave
  reads : ∀ id, id ≠ 0#4 → id ≠ 3#4 → t.slave.reads id = []
  writes : ∀ id, id ≠ 3#4 → t.slave.writes id = []
  beats : t.slave.beats 3#4 = []
  first : t.adapter.dcacheFirst = true
  bIds : ∀ x ∈ t.adapter.bFifo, x.2 = 3#4
  bLen : t.adapter.bFifo.length + (t.slave.writes 3#4).length = t.bs.length
  atomic : ∀ r ∈ t.accepted, r.rtype = .atomicReq ∧ r.amoOp ≠ .none ∧ r.size.getLsbD 2 = false
  ids : t.adapter.rdDcacheId.length + t.adapter.wrDcacheId.length + t.adapter.dcacheFifo.length + t.acks =
    t.accepted.length
  rdIds : ∀ r, t.cur = some r → r.amoOp = .sc → t.adapter.rdDcacheId = []
  phase : Phase t

theorem inv_reset : Inv (c := c) servedReset where
  bus := bus_reset
  reads _ _ _ := rfl
  writes _ _ := rfl
  beats := rfl
  first := rfl
  bIds x hx := by simp [servedReset, reset] at hx
  bLen := rfl
  atomic r hr := by simp [servedReset] at hr
  ids := rfl
  rdIds _ _ _ := rfl
  phase := .idle rfl rfl rfl rfl (by simp [servedReset]) (by simp [servedReset])

/-! ### A cycle in which no atomic is served -/

section Unserved

variable {s : Regs c} {v : Slave c} {i : In c}

theorem not_serves (hs : (arbReq s && arbIdx s i) = false) (r : Rtype) : serves s i r = false := by
  simp [serves, hs]

theorem not_invalidate (hs : (arbReq s && arbIdx s i) = false) : invalidate s i = false := by
  simp [invalidate, not_serves hs]

theorem not_wrGnt (h : Bus s v) (hs : (arbReq s && arbIdx s i) = false) : axiWrGnt s i = false := by
  by_contra hw
  obtain ⟨hD, hi, -⟩ := h.wrGnt_spec (by simpa using hw)
  simp [arbReq, hD, hi] at hs

theorem not_rdGnt (hs : (arbReq s && arbIdx s i) = false) : (axiRdGnt s i && arbIdx s i) = false := by
  by_contra hn
  simp only [Bool.not_eq_false, Bool.and_eq_true] at hn
  have ha : arbReq s = false := by simpa [hn.2] using hs
  simp [axiRdGnt, axiRdReq, servesAmo, serves, ha] at hn

theorem arb_of_fifo (h : Bus s v) (hf : s.dcacheFifo = []) : (arbReq s && arbIdx s i) = false := by
  by_contra hn
  simp only [Bool.not_eq_false, Bool.and_eq_true] at hn
  have := (h.arb_spec hn.1).1 hn.2
  simp [arbReqD, hf] at this

end Unserved

namespace Inv

variable {t : Served c} {i : In c}

/-- An atomic has one read beat. -/
theorem single (h : Inv t) (x : Req c × ℕ) (hx : x ∈ t.slave.reads 3#4) : x.2 = 0 := by
  rcases h.phase with ⟨-, -, hr⟩ | ⟨-, -, -, -, hr⟩ | ⟨r, -, -, -, -, hr⟩ | ⟨-, -, -, -, -, hr⟩
  · simp [hr] at hx
  · simp [hr] at hx
  · rw [hr, List.mem_singleton] at hx
    rw [hx]
  · simp [hr] at hx

theorem rId_cases (h : Inv t) (hl : Legal t.slave i) (hv : i.rValid = true) : i.rId = 0#4 ∨ i.rId = 3#4 := by
  by_contra hn
  rw [not_or] at hn
  obtain ⟨x, xs, hx, -⟩ := hl.r hv
  rw [h.reads _ hn.1 hn.2] at hx
  exact absurd hx (by simp)

theorem bWaiting_id (h : Inv t) (hl : Legal t.slave i) (x : Bool × BitVec 4) (hm : x ∈ bWaiting t.adapter i) :
    x.2 = 3#4 := by
  simp only [bWaiting, List.mem_append] at hm
  rcases hm with hm | hm
  · exact h.bIds x hm
  · split at hm
    · rename_i hc
      simp only [Bool.and_eq_true] at hc
      rw [List.mem_singleton.1 hm]
      by_contra hn
      exact hl.b hc.1 (h.writes _ hn)
    · simp at hm

/-- A write response that waits is one of an atomic that is owed one. -/
theorem bs_of_waiting (h : Inv t) (hl : Legal t.slave i) (hw : bWaiting t.adapter i ≠ []) : t.bs ≠ [] := by
  rw [← List.length_pos_iff, ← h.bLen]
  by_cases hf : t.adapter.bFifo = []
  · have hv : i.bValid = true := by
      by_contra hv
      simp [bWaiting, hf, hv] at hw
    have hid : i.bId = 3#4 := h.bWaiting_id hl (i.bExokay, i.bId) (by
      by_contra hm
      refine hw ?_
      simp only [bWaiting, hf, List.nil_append] at hm ⊢
      split at hm
      · simp at hm
      · rename_i hc
        exact if_neg hc)
    have := List.length_pos_iff.2 (hid ▸ hl.b hv)
    omega
  · have := List.length_pos_iff.2 hf
    omega

/-- What the adapter takes when it sends no atomic: the read beat of one, a write response,
or nothing. -/
theorem rtrn_cases (h : Inv t) (hl : Legal t.slave i) (hinv : invalidate t.adapter i = false) :
    (t.rTaken i = true ∧ t.slave.reads 3#4 ≠ [] ∧ i.rValid = true ∧ i.rId = 3#4 ∧ t.bTaken i = false ∧
      ackD t.adapter i = true ∧ (rtrn t.adapter i).rdEn = true ∧
      (rtrn t.adapter i).rdPop = t.adapter.wrDcacheId.isEmpty ∧
      (rtrn t.adapter i).wrPop = !t.adapter.wrDcacheId.isEmpty) ∨
    (t.rTaken i = false ∧ (i.rValid = true → i.rId = 0#4) ∧ t.bTaken i = false ∧ ackD t.adapter i = false ∧
      bWaiting t.adapter i = [] ∧ (rtrn t.adapter i).rdPop = false ∧ (rtrn t.adapter i).wrPop = false) ∨
    (t.rTaken i = false ∧ (i.rValid = true → i.rId = 0#4) ∧ t.bTaken i = true ∧ t.bs ≠ [] ∧
      ackD t.adapter i = (!t.adapter.amoGenR) ∧ (rtrn t.adapter i).rdEn = false ∧
      (rtrn t.adapter i).scRtrn = (!t.adapter.amoGenR) ∧ bWaiting t.adapter i ≠ [] ∧
      (rtrn t.adapter i).rdPop = false ∧ (rtrn t.adapter i).wrPop = !t.adapter.amoGenR) := by
  have hrdy : rReady t.adapter i = true := by simp [rReady, hinv]
  by_cases hr : i.rValid = true ∧ i.rId = 3#4
  · obtain ⟨hv, hid⟩ := hr
    obtain ⟨x, xs, hx, hlast⟩ := hl.r hv
    rw [hid] at hx hlast
    have hlast : i.rLast = true := by simpa [h.beats, h.single x (by simp [hx])] using hlast
    have hrt : rtrn t.adapter i = { rtype := .atomicAck, vld := i.rLast, rdEn := true
                                    wrPop := !t.adapter.wrDcacheId.isEmpty && i.rLast
                                    rdPop := t.adapter.wrDcacheId.isEmpty && i.rLast } := by
      simp [rtrn, hinv, hv, hid, hrdy]
    exact .inl ⟨by simp [Served.rTaken, Slave.rBeat, hv, hrdy, hid, hlast], by simp [hx], hv, hid,
      by simp [Served.bTaken, hrt], by simp [ackD, hrt, hlast], by simp [hrt], by simp [hrt, hlast],
      by simp [hrt, hlast]⟩
  · have h0 : i.rValid = true → i.rId = 0#4 := fun hv =>
      (h.rId_cases hl hv).resolve_right fun h3 => hr ⟨hv, h3⟩
    have hnr : t.rTaken i = false := by
      by_contra hn
      simp only [Served.rTaken, Slave.rBeat, Bool.not_eq_false, Bool.and_eq_true, beq_iff_eq] at hn
      exact hr ⟨hn.1.1.1, hn.1.2⟩
    have hodd : (i.rValid && i.rId.getLsbD 0 && rReady t.adapter i) = false := by
      cases hv : i.rValid
      · rfl
      · simp [h0 hv]
    refine .inr ?_
    cases hw : bWaiting t.adapter i with
    | nil =>
      have hrt : rtrn t.adapter i = {} := by
        simp only [rtrn, hinv, hodd, hw, Bool.false_eq_true, if_false]
      exact .inl ⟨hnr, h0, by simp [Served.bTaken, hrt], by simp [ackD, hrt], rfl, by simp [hrt], by simp [hrt]⟩
    | cons x xs =>
      have hid := h.bWaiting_id hl x (by simp [hw])
      have hbs := h.bs_of_waiting hl (by simp [hw])
      obtain ⟨e, id⟩ := x
      simp only at hid
      subst hid
      refine .inr ⟨hnr, h0, ?_⟩
      cases hg : t.adapter.amoGenR with
      | true =>
        have hrt : rtrn t.adapter i = { rtype := .atomicAck, bPop := true } := by
          simp only [rtrn, hinv, hodd, hw, hg, Bool.false_eq_true, if_false, if_true]
          rfl
        exact ⟨by simp [Served.bTaken, hrt], hbs, by simp [ackD, hrt], by simp [hrt], by simp [hrt], by simp,
          by simp [hrt], by simp [hrt]⟩
      | false =>
        have hrt : rtrn t.adapter i =
            { rtype := .atomicAck, vld := true, wrPop := true, bPop := true, scRtrn := true } := by
          simp only [rtrn, hinv, hodd, hw, hg, Bool.false_eq_true, if_false]
          rfl
        exact ⟨by simp [Served.bTaken, hrt], hbs, by simp [ackD, hrt], by simp [hrt], by simp [hrt], by simp,
          by simp [hrt], by simp [hrt]⟩

/-! ### What every cycle keeps -/

/-- What the adapter serves for the data cache is the atomic in its FIFO. -/
theorem served_spec (h : Inv t) (hs : (arbReq t.adapter && arbIdx t.adapter i) = true) :
    t.adapter.dcacheFifo = [dcacheData t.adapter] ∧ t.cur = some (dcacheData t.adapter) ∧
      serves t.adapter i .atomicReq = true ∧ (dcacheData t.adapter).amoOp ≠ .none ∧
      (dcacheData t.adapter).size.getLsbD 2 = false := by
  obtain ⟨ha, hi⟩ := (Bool.and_eq_true _ _).mp hs
  have hD := (h.bus.arb_spec ha).1 hi
  have hne : t.adapter.dcacheFifo ≠ [] := fun hn => by simp [arbReqD, hn] at hD
  rcases h.phase with ⟨-, hf, -⟩ | ⟨r, hc, -, hf, -⟩ | ⟨-, -, -, -, hf, -⟩ | ⟨-, -, -, -, hf, -⟩
  · exact absurd hf hne
  · have hd : dcacheData t.adapter = r := by simp [dcacheData, hf]
    obtain ⟨hr, hop, hsz⟩ := h.atomic r (List.mem_of_getElem? hc)
    rw [hd]
    exact ⟨hf, hc, by simp [serves, ha, hi, hd, hr], hop, hsz⟩
  · exact absurd hf hne
  · exact absurd hf hne

theorem served_of_wr (h : Inv t) (hw : axiWrGnt t.adapter i = true) : (arbReq t.adapter && arbIdx t.adapter i) = true := by
  obtain ⟨hD, hi, -⟩ := h.bus.wrGnt_spec hw
  simp [arbReq, hD, hi]

theorem done_eq (h : Inv t) : t.slave.done t.adapter i =
    if axiWrGnt t.adapter i then [(3#4, dcacheData t.adapter)] else [] := by
  rw [h.bus.done_eq]
  split
  · rename_i hw
    have hr := (h.served_spec (h.served_of_wr hw)).2.2.1
    simp only [serves, Bool.and_eq_true, beq_iff_eq] at hr
    simp [wrId, hr.2]
  · rfl

/-- A read of the data cache is an LR. -/
theorem lr_of_rd (h : Inv t) (hr : axiRdGnt t.adapter i = true) (hi : arbIdx t.adapter i = true) :
    servesAmo t.adapter i .lr = true := by
  have ha : arbReq t.adapter = true := by
    by_contra hn
    simp [axiRdGnt, axiRdReq, servesAmo, serves, hn] at hr
  have hat := (h.served_spec (i := i) (by simp [ha, hi])).2.2.1
  have hld : serves t.adapter i .loadReq = false := by
    simp only [serves, Bool.and_eq_true, beq_iff_eq] at hat
    simp [serves, hat.2]
  simp only [axiRdGnt, axiRdReq, hi, hld, Bool.not_true, Bool.and_false, Bool.or_false, Bool.false_or,
    Bool.and_eq_true] at hr
  exact hr.1

theorem not_wr_of_rd (h : Inv t) (hr : axiRdGnt t.adapter i = true) (hi : arbIdx t.adapter i = true) :
    axiWrGnt t.adapter i = false := by
  have hlr := h.lr_of_rd hr hi
  by_contra hw
  have := (h.bus.wrGnt_spec (by simpa using hw)).2.2
  simp only [servesAmo, serves, Bool.and_eq_true, beq_iff_eq] at hlr
  simp [DcacheReq.isWrite, hlr.1.2, hlr.2] at this

theorem next_reads (h : Inv t) (id : BitVec 4) (h0 : id ≠ 0#4) (h3 : id ≠ 3#4) :
    (t.slave.next t.adapter i).reads id = [] := by
  have hrd : (axiRdGnt t.adapter i && axiRdId t.adapter i == id) = false := by
    by_contra hn
    simp only [Bool.not_eq_false, Bool.and_eq_true, beq_iff_eq] at hn
    cases hi : arbIdx t.adapter i with
    | true => exact h3 (by rw [← hn.2, axiRdId, if_pos (h.lr_of_rd hn.1 hi)]; rfl)
    | false =>
      have hlr : servesAmo t.adapter i .lr = false := by simp [servesAmo, serves, hi]
      exact h0 (by rw [← hn.2]; simp [axiRdId, hlr, hi])
  simp only [Slave.next, h.done_eq, h.reads id h0 h3, hrd, Bool.false_eq_true, if_false]
  split <;> split <;> simp [show ¬3#4 = id from h3.symm]

theorem next_reads3 (h : Inv t) : (t.slave.next t.adapter i).reads 3#4 =
    (if t.rTaken i then (t.slave.reads 3#4).tail else t.slave.reads 3#4) ++
      if axiRdGnt t.adapter i && arbIdx t.adapter i || axiWrGnt t.adapter i && (dcacheData t.adapter).hasR then
        [(.data (dcacheData t.adapter), 0)] else [] := by
  simp only [Slave.next, h.done_eq, Served.rTaken, List.append_assoc]
  congr 1
  cases hi : arbIdx t.adapter i with
  | false =>
    have hw : axiWrGnt t.adapter i = false := by
      by_contra hw
      simp [(h.bus.wrGnt_spec (by simpa using hw)).2.1] at hi
    have hlr : servesAmo t.adapter i .lr = false := by simp [servesAmo, serves, hi]
    simp [hw, axiRdId, hlr, hi]
  | true =>
    cases hr : axiRdGnt t.adapter i with
    | false => cases hw : axiWrGnt t.adapter i <;> cases hh : (dcacheData t.adapter).hasR <;> simp [hh]
    | true =>
      have hlr := h.lr_of_rd hr hi
      have hs : (arbReq t.adapter && arbIdx t.adapter i) = true := by
        simp only [servesAmo, serves, Bool.and_eq_true] at hlr
        simp [hlr.1.1.1, hi]
      have hsz := (h.served_spec hs).2.2.2.2
      have hw := h.not_wr_of_rd hr hi
      have hlen : axiRdBlen t.adapter i = 0 := by
        rw [axiRdBlen, if_pos hi, hsz]
        rfl
      simp [hw, axiRdId, hlr, Slave.reader, hi, hlen]

theorem next_writes (h : Inv t) (id : BitVec 4) (h3 : id ≠ 3#4) : (t.slave.next t.adapter i).writes id = [] := by
  simp only [Slave.next, h.done_eq, h.writes id h3]
  split <;> split <;> simp [show ¬3#4 = id from h3.symm]

theorem next_bLen (h : Inv t) (hl : Legal t.slave i) :
    (Axi.next t.adapter i).bFifo.length + ((t.slave.next t.adapter i).writes 3#4).length = (t.next i).bs.length := by
  -- a response that comes in goes from the slave to the FIFO
  have hin : (bWaiting t.adapter i).length +
      (if Slave.bBeat t.adapter i && i.bId == 3#4 then (t.slave.writes 3#4).tail else t.slave.writes 3#4).length =
        t.bs.length := by
    rw [← h.bLen]
    change (t.adapter.bFifo ++ if Slave.bBeat t.adapter i then _ else _).length + _ = _
    cases hb : Slave.bBeat t.adapter i with
    | false => simp
    | true =>
      have hv := ((Bool.and_eq_true _ _).mp hb).1
      have hid : i.bId = 3#4 := by
        by_contra hn
        exact hl.b hv (h.writes _ hn)
      obtain ⟨r, q, hq⟩ := List.exists_cons_of_ne_nil (hid ▸ hl.b hv)
      simp [hid, hq]
      omega
  have hpop : t.bTaken i = true → bWaiting t.adapter i ≠ [] := fun hp hw => by
    simp only [Served.bTaken, rtrn, hw] at hp
    split at hp
    · simp at hp
    · split at hp
      · split at hp <;> simp at hp
      · simp at hp
  have hout : (Axi.next t.adapter i).bFifo = if t.bTaken i then (bWaiting t.adapter i).tail else bWaiting t.adapter i := rfl
  have hwr : ((t.slave.next t.adapter i).writes 3#4).length =
      (if Slave.bBeat t.adapter i && i.bId == 3#4 then (t.slave.writes 3#4).tail else t.slave.writes 3#4).length +
        (axiWrGnt t.adapter i).toNat := by
    simp only [Slave.next, h.done_eq, List.length_append]
    congr 1
    cases axiWrGnt t.adapter i <;> simp
  have hbs : (t.next i).bs.length = (if t.bTaken i then t.bs.tail else t.bs).length + (axiWrGnt t.adapter i).toNat := by
    simp only [Served.next, List.length_append]
    congr 1
    cases axiWrGnt t.adapter i <;> simp
  rw [hout, hwr, hbs]
  cases hp : t.bTaken i with
  | false =>
    simp only [Bool.false_eq_true, if_false]
    omega
  | true =>
    have := List.length_pos_iff.2 (hpop hp)
    simp only [if_true, List.length_tail]
    omega

theorem next_beats (h : Inv t) (hl : Legal t.slave i) : (t.slave.next t.adapter i).beats 3#4 = [] := by
  simp only [Slave.next]
  split
  · rename_i hc
    simp only [Slave.rBeat, Bool.and_eq_true, beq_iff_eq] at hc
    obtain ⟨x, xs, hx, hlast⟩ := hl.r hc.1.1
    rw [hc.2] at hx hlast
    rw [h.beats, h.single x (by simp [hx])] at hlast
    simp [hlast]
  · exact h.beats

theorem next_bIds (h : Inv t) (hl : Legal t.slave i) (x : Bool × BitVec 4) (hx : x ∈ (Axi.next t.adapter i).bFifo) :
    x.2 = 3#4 := by
  refine h.bWaiting_id hl x ?_
  simp only [Axi.next] at hx
  split at hx
  · exact List.mem_of_mem_tail hx
  · exact hx

theorem next_first (h : Inv t) (hl : Legal t.slave i) : (Axi.next t.adapter i).dcacheFirst = true := by
  simp only [Axi.next]
  split
  · rename_i hen
    -- a word for the data cache is the read beat of an atomic
    have hc : i.rValid = true ∧ i.rId.getLsbD 0 = true := by
      by_contra hn
      have hodd : (i.rValid && i.rId.getLsbD 0 && rReady t.adapter i) = false := by
        simp only [not_and, Bool.not_eq_true] at hn
        cases hv : i.rValid
        · rfl
        · simp only [hn hv, Bool.and_false, Bool.false_and]
      simp only [rtrn, hodd] at hen
      split at hen
      · simp at hen
      · simp only [Bool.false_eq_true, if_false] at hen
        split at hen
        · simp at hen
        · split at hen
          · split at hen <;> simp at hen
          · simp at hen
    have hid : i.rId = 3#4 := (h.rId_cases hl hc.1).resolve_left fun h0 => by simp [h0] at hc
    obtain ⟨x, xs, hx, hlast⟩ := hl.r hc.1
    rw [hid] at hx hlast
    rw [hlast, h.beats, h.single x (by simp [hx])]
    rfl
  · exact h.first

theorem next_atomic (h : Inv t) (ho : OneAtATime t i) (r : DcacheReq c) (hr : r ∈ (t.next i).accepted) :
    r.rtype = .atomicReq ∧ r.amoOp ≠ .none ∧ r.size.getLsbD 2 = false := by
  simp only [Served.next, List.mem_append] at hr
  rcases hr with hr | hr
  · exact h.atomic r hr
  · split at hr
    · rename_i ha
      rw [List.mem_singleton.1 hr]
      exact ho.atomic ((Bool.and_eq_true _ _).mp ha).1
    · simp at hr

/-! ### Phases -/

/-- What a cycle that serves no atomic leaves. -/
theorem next_unserved (h : Inv t) (hs : (arbReq t.adapter && arbIdx t.adapter i) = false) :
    (t.next i).rs = (if t.rTaken i then t.rs.tail else t.rs) ∧
    (t.next i).bs = (if t.bTaken i then t.bs.tail else t.bs) ∧
    (t.next i).slave.reads 3#4 = (if t.rTaken i then (t.slave.reads 3#4).tail else t.slave.reads 3#4) ∧
    (t.next i).adapter.dcacheFifo = t.adapter.dcacheFifo ++ (if dcacheAck t.adapter i then [i.dcacheData] else []) ∧
    (t.next i).adapter.amoGenR = t.adapter.amoGenR ∧ (t.next i).adapter.amoOff = 0 ∧ (t.next i).scLast = false := by
  have hw := not_wrGnt h.bus hs
  have hr := not_rdGnt (i := i) hs
  have hsv := not_serves (i := i) hs
  have hack : arbAckD t.adapter i = false := by
    simp only [arbAckD, arbGnt, hw, Bool.or_false]
    exact hr
  refine ⟨by simp [Served.next, hw, hr], by simp [Served.next, hw], ?_, ?_, ?_, ?_, ?_⟩
  · change (t.slave.next t.adapter i).reads 3#4 = _
    rw [h.next_reads3, hr, hw]
    simp
  · change (Axi.next t.adapter i).dcacheFifo = _
    rw [dcacheFifo_next, hack]
    rfl
  · simp [Served.next, Axi.next, amoGenRD, hsv]
  · simp [Served.next, Axi.next, amoOffD, servesAmo, hsv]
  · simp [Served.next, servesAmo, hsv]

/-- An atomic comes only if none waits. -/
theorem not_ack_of_cur (ho : OneAtATime t i) (hlen : t.acks + 1 = t.accepted.length) : dcacheAck t.adapter i = false := by
  by_contra ha
  have ha : dcacheAck t.adapter i = true := by simpa using ha
  have := ho.one ((Bool.and_eq_true _ _).mp ha).1
  omega

theorem bs_next (hbs : (t.next i).bs = if t.bTaken i then t.bs.tail else t.bs) {m : ℕ}
    (hm : m ∈ (t.next i).bs) : m ∈ t.bs := by
  rw [hbs] at hm
  split at hm
  · exact List.mem_of_mem_tail hm
  · exact hm

theorem cur_next (hna : dcacheAck t.adapter i = false) (hk : ackD t.adapter i = false) : (t.next i).cur = t.cur := by
  simp [Served.cur, Served.next, hna, hk]

/-! ### The FIFOs of the tids -/

theorem served_of_ack (h : Inv t) (ha : arbAckD t.adapter i = true) : (arbReq t.adapter && arbIdx t.adapter i) = true := by
  by_contra hn
  have hs : (arbReq t.adapter && arbIdx t.adapter i) = false := by simpa using hn
  have hr := not_rdGnt hs
  simp only [arbAckD, arbGnt, not_wrGnt h.bus hs, Bool.or_false] at ha
  exact absurd ha (by rw [hr]; decide)

theorem next_tids (h : Inv t) :
    (t.next i).adapter.rdDcacheId =
      (if (rtrn t.adapter i).rdPop then t.adapter.rdDcacheId.tail else t.adapter.rdDcacheId) ++
        (if arbAckD t.adapter i && axiRdGnt t.adapter i then [(dcacheData t.adapter).tid] else []) ∧
    (t.next i).adapter.wrDcacheId =
      (if (rtrn t.adapter i).wrPop then t.adapter.wrDcacheId.tail else t.adapter.wrDcacheId) ++
        (if arbAckD t.adapter i && axiWrGnt t.adapter i then [(dcacheData t.adapter).tid] else []) := by
  have hroom : arbAckD t.adapter i = true →
      t.adapter.rdDcacheId.length < c.metaFifoDepth ∧ t.adapter.wrDcacheId.length < c.metaFifoDepth := fun ha => by
    obtain ⟨hq, hi⟩ := (Bool.and_eq_true _ _).mp (h.served_of_ack ha)
    have hD := (h.bus.arb_spec hq).1 hi
    simp only [arbReqD, Bool.and_eq_true, decide_eq_true_eq] at hD
    exact ⟨hD.2, hD.1.2⟩
  exact ⟨fifo_push (fun hp => (hroom ((Bool.and_eq_true _ _).mp hp).1).1) _ _,
    fifo_push (fun hp => (hroom ((Bool.and_eq_true _ _).mp hp).1).2) _ _⟩

/-- While an atomic is in the FIFO no tid waits. -/
theorem tids_of_fifo (h : Inv t) (hne : t.adapter.dcacheFifo ≠ []) :
    t.adapter.rdDcacheId = [] ∧ t.adapter.wrDcacheId = [] := by
  have hids := h.ids
  rcases h.phase with ⟨-, hf, -⟩ | ⟨r, -, len, hf, -⟩ | ⟨-, -, -, -, hf, -⟩ | ⟨-, -, -, -, hf, -⟩
  · exact absurd hf hne
  · rw [hf, List.length_singleton] at hids
    exact ⟨List.length_eq_zero_iff.1 (by omega), List.length_eq_zero_iff.1 (by omega)⟩
  · exact absurd hf hne
  · exact absurd hf hne

/-- An atomic in the FIFO sees no tid leave its FIFO. -/
theorem pops_of_fifo (h : Inv t) (hl : Legal t.slave i) (hne : t.adapter.dcacheFifo ≠ []) :
    (rtrn t.adapter i).rdPop = false ∧ (rtrn t.adapter i).wrPop = false ∧ ackD t.adapter i = false := by
  cases hinv : invalidate t.adapter i with
  | true => simp [rtrn, ackD, hinv]
  | false =>
    rcases h.phase with ⟨-, hf, -⟩ | ⟨r, -, -, -, hrd, -, -, gen⟩ | ⟨-, -, -, -, hf, -⟩ | ⟨-, -, -, -, hf, -⟩
    · exact absurd hf hne
    · rcases h.rtrn_cases hl hinv with ⟨-, hr, -⟩ | ⟨-, -, -, hk, -, hp⟩ | ⟨-, -, -, hb, hk, -, -, -, hp⟩
      · exact absurd hrd hr
      · exact ⟨hp.1, hp.2, hk⟩
      · rw [gen hb] at hk hp
        exact ⟨hp.1, hp.2, hk⟩
    · exact absurd hf hne
    · exact absurd hf hne

theorem not_ackD_of_fifo (h : Inv t) (hf : t.adapter.dcacheFifo = []) : arbAckD t.adapter i = false := by
  by_contra ha
  have hs := arb_of_fifo (i := i) h.bus hf
  simp [h.served_of_ack (by simpa using ha)] at hs

theorem next_rdIds (h : Inv t) (ho : OneAtATime t i) (r : DcacheReq c) (hc : (t.next i).cur = some r)
    (hsc : r.amoOp = .sc) : (t.next i).adapter.rdDcacheId = [] := by
  have hids := h.ids
  rw [h.next_tids.1]
  cases h.phase with
  | idle len fifo =>
    have hrd : t.adapter.rdDcacheId = [] := List.length_eq_zero_iff.1 (by omega)
    simp [h.not_ackD_of_fifo fifo, hrd]
  | queued q cur len fifo =>
    have hf : t.adapter.dcacheFifo ≠ [] := by simp [fifo]
    obtain ⟨hp, -, hk⟩ := h.pops_of_fifo ho.legal hf
    rw [cur_next (not_ack_of_cur ho len) hk, cur, Option.some.injEq] at hc
    have hpush : (arbAckD t.adapter i && axiRdGnt t.adapter i) = false := by
      by_contra hn
      simp only [Bool.not_eq_false, Bool.and_eq_true, arbAckD] at hn
      have hlr := h.lr_of_rd hn.2 hn.1.2
      simp [servesAmo, dcacheData, fifo, hc, hsc] at hlr
    simp [hp, hpush, (h.tids_of_fifo hf).1]
  | read q cur op len fifo =>
    -- the atomic that waits next is this one or none
    exfalso
    have hna := not_ack_of_cur ho len
    cases hk : ackD t.adapter i with
    | false =>
      rw [cur_next hna hk, cur, Option.some.injEq] at hc
      exact op (hc ▸ hsc)
    | true => simp [Served.cur, Served.next, hna, hk, len] at hc
  | write q cur op len fifo => simp [h.not_ackD_of_fifo fifo, h.rdIds q cur op]

/-- A tid leaves its FIFO with the acknowledgement. -/
theorem pops_of_ack (h : Inv t) (hl : Legal t.slave i) :
    (if (rtrn t.adapter i).rdPop then t.adapter.rdDcacheId.tail else t.adapter.rdDcacheId).length +
      (if (rtrn t.adapter i).wrPop then t.adapter.wrDcacheId.tail else t.adapter.wrDcacheId).length +
      (ackD t.adapter i).toNat = t.adapter.rdDcacheId.length + t.adapter.wrDcacheId.length := by
  have hids := h.ids
  by_cases hf : t.adapter.dcacheFifo = []
  · rcases h.rtrn_cases hl (not_invalidate (arb_of_fifo h.bus hf)) with
      ⟨-, hr, -, -, -, hk, -, hrp, hwp⟩ | ⟨-, -, -, hk, -, hrp, hwp⟩ | ⟨-, -, -, hb, hk, -, -, -, hrp, hwp⟩
    · have hlen : t.acks + 1 = t.accepted.length := by
        rcases h.phase with ⟨-, -, hn⟩ | ⟨-, -, -, -, hn⟩ | ⟨-, -, -, len, -⟩ | ⟨-, -, -, -, -, hn⟩
        · exact absurd hn hr
        · exact absurd hn hr
        · exact len
        · exact absurd hn hr
      rw [hf, List.length_nil] at hids
      rw [hrp, hwp, hk]
      cases hw : t.adapter.wrDcacheId with
      | nil =>
        simp only [hw, List.length_nil] at hids
        simp
        omega
      | cons x xs => simp; omega
    · simp [hrp, hwp, hk]
    · cases hg : t.adapter.amoGenR with
      | true => simp [hrp, hwp, hk, hg]
      | false =>
        rcases h.phase with ⟨-, -, -, -, -, gen⟩ | ⟨-, -, -, -, -, -, -, gen⟩ | ⟨-, -, -, -, -, -, -, -, gen⟩ |
          ⟨r, cur, op, len, -⟩
        · simp [gen hb] at hg
        · simp [gen hb] at hg
        · simp [gen] at hg
        · have hrd := h.rdIds r cur op
          simp only [hf, hrd, List.length_nil] at hids
          simp only [hrp, hwp, hk, hg, hrd, Bool.not_false, if_true, Bool.false_eq_true, if_false, List.length_tail,
            Bool.toNat_true, List.length_nil]
          omega
  · obtain ⟨hrp, hwp, hk⟩ := h.pops_of_fifo hl hf
    simp [hrp, hwp, hk]

theorem next_ids (h : Inv t) (ho : OneAtATime t i) :
    (t.next i).adapter.rdDcacheId.length + (t.next i).adapter.wrDcacheId.length +
      (t.next i).adapter.dcacheFifo.length + (t.next i).acks = (t.next i).accepted.length := by
  have hids := h.ids
  have hpops := h.pops_of_ack ho.legal
  -- a request that goes out leaves its tid with one of the two
  have hpush : (if arbAckD t.adapter i && axiRdGnt t.adapter i then [(dcacheData t.adapter).tid] else []).length +
      (if arbAckD t.adapter i && axiWrGnt t.adapter i then [(dcacheData t.adapter).tid] else []).length +
      (if arbAckD t.adapter i then t.adapter.dcacheFifo.tail else t.adapter.dcacheFifo).length =
        t.adapter.dcacheFifo.length := by
    cases ha : arbAckD t.adapter i with
    | false => simp
    | true =>
      have hf : t.adapter.dcacheFifo ≠ [] := fun hf => by simp [h.not_ackD_of_fifo hf] at ha
      have hpos := List.length_pos_iff.2 hf
      obtain ⟨hg, hi⟩ := (Bool.and_eq_true _ _).mp ha
      cases hr : axiRdGnt t.adapter i with
      | true =>
        simp [h.not_wr_of_rd hr hi]
        omega
      | false =>
        have hw : axiWrGnt t.adapter i = true := by simpa [arbGnt, hr] using hg
        simp [hw]
        omega
  have hff : (t.next i).adapter.dcacheFifo = (if arbAckD t.adapter i then t.adapter.dcacheFifo.tail
      else t.adapter.dcacheFifo) ++ if dcacheAck t.adapter i then [i.dcacheData] else [] := dcacheFifo_next _ _
  have hacks : (t.next i).acks = t.acks + (ackD t.adapter i).toNat := rfl
  have hacc : (t.next i).accepted = t.accepted ++ if dcacheAck t.adapter i then [i.dcacheData] else [] := rfl
  rw [h.next_tids.1, h.next_tids.2, hff, hacks, hacc]
  simp only [List.length_append]
  omega

/-! ### Steps -/

theorem step_idle (h : Inv t) (ho : OneAtATime t i) (len : t.acks = t.accepted.length)
    (fifo : t.adapter.dcacheFifo = []) (reads : t.slave.reads 3#4 = []) (rs : t.rs = [])
    (older : ∀ m ∈ t.bs, m < t.acks) (gen : t.bs ≠ [] → t.adapter.amoGenR = true) :
    Acknowledges t i ∧ Phase (t.next i) := by
  have hs := arb_of_fifo (i := i) h.bus fifo
  obtain ⟨nrs, nbs, nrd, nff, ngen, -, -⟩ := h.next_unserved hs
  have hcur : t.cur = none := by simp [Served.cur, len]
  -- a write response is one of an AMO
  obtain ⟨hnr, hk⟩ : t.rTaken i = false ∧ ackD t.adapter i = false := by
    rcases h.rtrn_cases ho.legal (not_invalidate hs) with ⟨-, hr, -⟩ | ⟨hnr, -, -, hk, -⟩ | ⟨hnr, -, -, hb, hk, -⟩
    · exact absurd reads hr
    · exact ⟨hnr, hk⟩
    · exact ⟨hnr, by rw [hk, gen hb]; rfl⟩
  refine ⟨by simp [Acknowledges, hcur, hk], ?_⟩
  have hacks : (t.next i).acks = t.acks := by simp [Served.next, hk]
  have holder : ∀ m ∈ (t.next i).bs, m < (t.next i).acks := fun m hm => hacks ▸ older m (bs_next nbs hm)
  have hgen : (t.next i).bs ≠ [] → (t.next i).adapter.amoGenR = true := fun hne => by
    obtain ⟨m, hm⟩ := List.exists_mem_of_ne_nil _ hne
    rw [ngen]
    exact gen (List.ne_nil_of_mem (bs_next nbs hm))
  rw [hnr] at nrs nrd
  cases ha : dcacheAck t.adapter i with
  | false =>
    refine .idle ?_ (by simp [nff, fifo, ha]) (by simpa [reads] using nrd) (by simpa [rs] using nrs) holder hgen
    rw [hacks, len]
    simp [Served.next, ha]
  | true =>
    refine .queued i.dcacheData ?_ ?_ (by simp [nff, fifo, ha]) (by simpa [reads] using nrd)
      (by simpa [rs] using nrs) holder hgen
    · simp [Served.cur, len, Served.next, ha, hk]
    · simp [len, Served.next, ha, hk]

/-- An atomic that waits in the FIFO. -/
theorem step_queued (h : Inv t) (ho : OneAtATime t i) (ht : Timely t i) {r : DcacheReq c} (cur : t.cur = some r)
    (len : t.acks + 1 = t.accepted.length) (fifo : t.adapter.dcacheFifo = [r]) (reads : t.slave.reads 3#4 = [])
    (rs : t.rs = []) (older : ∀ m ∈ t.bs, m < t.acks) (gen : t.bs ≠ [] → t.adapter.amoGenR = true) :
    Acknowledges t i ∧ Phase (t.next i) := by
  have hna := not_ack_of_cur ho len
  have hown : ¬OwnCame t i r := by
    unfold OwnCame
    split
    · rintro ⟨-, hb⟩
      exact absurd (older _ (List.mem_of_mem_head? hb)) (Nat.lt_irrefl _)
    · simp [rs]
  have hreq : arbReqD t.adapter = true := by
    have hids := h.ids
    have hpos : 0 < c.metaFifoDepth := Nat.pos_of_neZero _
    rw [fifo, List.length_singleton] at hids
    simp only [arbReqD, fifo, List.isEmpty_cons, Bool.not_false, Bool.true_and, Bool.and_eq_true, decide_eq_true_eq]
    omega
  have hlen : (t.next i).accepted = t.accepted := by simp [Served.next, hna]
  have hnum : t.headNum = t.acks := by
    rw [Served.headNum, fifo, ← len]
    simp
  cases hs : arbReq t.adapter && arbIdx t.adapter i with
  | false =>
    obtain ⟨nrs, nbs, nrd, nff, ngen, -, -⟩ := h.next_unserved hs
    obtain ⟨hnr, hk⟩ : t.rTaken i = false ∧ ackD t.adapter i = false := by
      rcases h.rtrn_cases ho.legal (not_invalidate hs) with ⟨-, hr, -⟩ | ⟨hnr, -, -, hk, -⟩ | ⟨hnr, -, -, hb, hk, -⟩
      · exact absurd reads hr
      · exact ⟨hnr, hk⟩
      · exact ⟨hnr, by rw [hk, gen hb]; rfl⟩
    have hacks : (t.next i).acks = t.acks := by simp [Served.next, hk]
    refine ⟨by simp [Acknowledges, cur, hk, hown, hreq], .queued r ((cur_next hna hk).trans cur) (by rw [hacks, len, hlen])
      (by simp [nff, fifo, hna]) (by simpa [hnr, reads] using nrd) (by simpa [hnr, rs] using nrs) ?_ ?_⟩
    · exact fun m hm => hacks ▸ older m (bs_next nbs hm)
    · intro hne
      obtain ⟨m, hm⟩ := List.exists_mem_of_ne_nil _ hne
      rw [ngen]
      exact gen (List.ne_nil_of_mem (bs_next nbs hm))
  | true =>
    obtain ⟨-, -, hat, hop, -⟩ := h.served_spec hs
    have hd : dcacheData t.adapter = r := by simp [dcacheData, fifo]
    rw [hd] at hop
    have hsa : ∀ op, servesAmo t.adapter i op = (r.amoOp == op) := fun op => by simp [servesAmo, hat, hd]
    have ngen : (t.next i).adapter.amoGenR = !(r.amoOp == .sc) := by
      simp [Served.next, Axi.next, amoGenRD, hat, hsa]
    obtain ⟨-, hi⟩ := (Bool.and_eq_true _ _).mp hs
    cases hg : arbGnt t.adapter i with
    | false =>
      -- the atomic is not taken, and an SC finds no response that waits
      have hinv : invalidate t.adapter i = false := by simp [invalidate, hg]
      obtain ⟨hr, hw⟩ := Bool.or_eq_false_iff.1 hg
      obtain ⟨hnr, hk, hb⟩ : t.rTaken i = false ∧ ackD t.adapter i = false ∧
          (bWaiting t.adapter i ≠ [] → t.bTaken i = true) := by
        rcases h.rtrn_cases ho.legal hinv with ⟨-, hr, -⟩ | ⟨hnr, -, -, hk, hw, -⟩ | ⟨hnr, -, hb, hne, hk, -⟩
        · exact absurd reads hr
        · exact ⟨hnr, hk, fun hn => absurd hw hn⟩
        · exact ⟨hnr, by rw [hk, gen hne]; rfl, fun _ => hb⟩
      have hacks : (t.next i).acks = t.acks := by simp [Served.next, hk]
      have nbs : (t.next i).bs = if t.bTaken i then t.bs.tail else t.bs := by simp [Served.next, hw]
      refine ⟨by simp [Acknowledges, cur, hk, hown, hreq], .queued r ((cur_next hna hk).trans cur) (by rw [hacks, len, hlen])
        ?_ ?_ (by simp [Served.next, hnr, rs, hr, hw]) (fun m hm => hacks ▸ older m (bs_next nbs hm)) ?_⟩
      · change (Axi.next t.adapter i).dcacheFifo = _
        simp [dcacheFifo_next, arbAckD, hg, hna, fifo]
      · change (t.slave.next t.adapter i).reads 3#4 = _
        simp [h.next_reads3, hnr, reads, hr, hw]
      · intro hne
        rw [ngen]
        by_contra hsc
        have hsc : r.amoOp = .sc := by simpa using hsc
        refine hne ?_
        rw [nbs]
        rcases ht.drained (by simp [hsa, hsc]) with hnil | ⟨hone, hwait, -⟩
        · simp [hnil]
        · rw [hb hwait, if_pos rfl, ← List.length_eq_zero_iff, List.length_tail, hone]
    | true =>
      have hinv : invalidate t.adapter i = true := by simp [invalidate, hat, hg]
      have hrt : rtrn t.adapter i = { rtype := .invReq, vld := true } := by simp [rtrn, hinv]
      have hnr : t.rTaken i = false := by simp [Served.rTaken, Slave.rBeat, rReady, hinv]
      have hnb : t.bTaken i = false := by simp [Served.bTaken, hrt]
      have hk : ackD t.adapter i = false := by simp [ackD, hrt]
      have hacks : (t.next i).acks = t.acks := by simp [Served.next, hk]
      have hcur := (cur_next hna hk).trans cur
      have nff : (t.next i).adapter.dcacheFifo = [] := by
        change (Axi.next t.adapter i).dcacheFifo = _
        simp [dcacheFifo_next, arbAckD, hg, hi, hna, fifo]
      have nbs : (t.next i).bs = t.bs ++ if axiWrGnt t.adapter i then [t.acks] else [] := by
        simp [Served.next, hnb, hnum]
      have nlen : (t.next i).acks + 1 = (t.next i).accepted.length := by rw [hacks, len, hlen]
      have nrd : (t.next i).slave.reads 3#4 =
          if axiRdGnt t.adapter i || axiWrGnt t.adapter i && r.hasR then [(.data r, 0)] else [] := by
        change (t.slave.next t.adapter i).reads 3#4 = _
        simp [h.next_reads3, hnr, reads, hi, hd]
      have nrs : (t.next i).rs =
          if axiRdGnt t.adapter i || axiWrGnt t.adapter i && r.hasR then [(t.next i).acks] else [] := by
        rw [hacks]
        simp [Served.next, hnr, rs, hi, hd, hnum]
      refine ⟨by simp [Acknowledges, cur, hk, hown, hreq], ?_⟩
      by_cases hsc : r.amoOp = .sc
      · have hr : axiRdGnt t.adapter i = false := by
          by_contra hr
          have := h.lr_of_rd (by simpa using hr) hi
          simp [hsa, hsc] at this
        have hw : axiWrGnt t.adapter i = true := by simpa [arbGnt, hr] using hg
        have hnoR : r.hasR = false := by simp [DcacheReq.hasR, hsc, atop]
        have hdr : t.bs = [] := (ht.drained (by simp [hsa, hsc])).resolve_right fun hn => by simp [hg] at hn
        have hoff : (t.next i).adapter.amoOff = scOff r := by
          simp [Served.next, Axi.next, amoOffD, hsa, hsc, hd]
        exact .write r hcur hsc nlen nff (by simpa [hr, hnoR] using nrd) (by simpa [hr, hnoR] using nrs)
          (by rw [nbs, hdr, hw, hacks]; rfl) (by simp [ngen, hsc]) (.inr hoff) fun _ => hoff
      · have hback : (axiRdGnt t.adapter i || axiWrGnt t.adapter i && r.hasR) = true := by
          cases hr : axiRdGnt t.adapter i with
          | true => rfl
          | false =>
            have hw : axiWrGnt t.adapter i = true := by simpa [arbGnt, hr] using hg
            have hwr := (h.bus.wrGnt_spec hw).2.2
            simp only [serves, Bool.and_eq_true, beq_iff_eq] at hat
            rw [hd] at hwr hat
            simp only [DcacheReq.isWrite, hat.2] at hwr
            simp only [hw, DcacheReq.hasR, hat.2]
            revert hop hsc hwr
            cases r.amoOp <;> decide
        rw [hback] at nrd nrs
        refine .read r hcur hsc nlen nff nrd nrs (fun m hm => ?_) (by simp [ngen, hsc])
        rw [nbs, List.mem_append] at hm
        rcases hm with hm | hm
        · exact hacks ▸ (older m hm).le
        · split at hm
          · rw [List.mem_singleton.1 hm, hacks]
          · simp at hm

/-- An LR or an AMO that waits for its read beat. -/
theorem step_read (h : Inv t) (ho : OneAtATime t i) {r : DcacheReq c} (cur : t.cur = some r) (op : r.amoOp ≠ .sc)
    (len : t.acks + 1 = t.accepted.length) (fifo : t.adapter.dcacheFifo = [])
    (reads : t.slave.reads 3#4 = [(.data r, 0)]) (rs : t.rs = [t.acks]) (older : ∀ m ∈ t.bs, m ≤ t.acks)
    (gen : t.adapter.amoGenR = true) : Acknowledges t i ∧ Phase (t.next i) := by
  have hs := arb_of_fifo (i := i) h.bus fifo
  obtain ⟨nrs, nbs, nrd, nff, ngen, -, -⟩ := h.next_unserved hs
  have hna := not_ack_of_cur ho len
  have hlen : (t.next i).accepted = t.accepted := by simp [Served.next, hna]
  have hown : OwnCame t i r ↔ i.rValid = true ∧ i.rId = 3#4 := by simp [OwnCame, op, rs]
  rw [hna, fifo] at nff
  rcases h.rtrn_cases ho.legal (not_invalidate hs) with ⟨hr, -, hv, hid, hb, hk, hen, -⟩ | hno | ⟨hnr, h0, -, -, hk, -⟩
  · have hacks : (t.next i).acks = t.acks + 1 := by simp [Served.next, hk]
    rw [hr, reads] at nrd
    rw [hr, rs] at nrs
    rw [hb] at nbs
    refine ⟨?_, .idle (by rw [hacks, len, hlen]) nff nrd nrs (fun m hm => ?_) fun _ => ngen.trans gen⟩
    · simp only [Acknowledges, cur, hk, hown, hv, hid, and_self, true_and, forall_const, ResultOk, op, if_false]
      simp [dcacheShiftD, hen, shiftIn, h.first, fifo]
    · rw [nbs] at hm
      have := older m hm
      omega
  all_goals
    obtain ⟨hnr, h0, hk⟩ : t.rTaken i = false ∧ (i.rValid = true → i.rId = 0#4) ∧ ackD t.adapter i = false := by
      first
      | exact ⟨hno.1, hno.2.1, hno.2.2.2.1⟩
      | exact ⟨hnr, h0, by rw [hk, gen]; rfl⟩
    have hnot : ¬OwnCame t i r := fun hc => by
      have hc := hown.1 hc
      simp [h0 hc.1] at hc
    have hacks : (t.next i).acks = t.acks := by simp [Served.next, hk]
    rw [hnr, reads] at nrd
    rw [hnr, rs] at nrs
    refine ⟨by simp [Acknowledges, cur, hk, hnot, fifo], .read r ((cur_next hna hk).trans cur) op (by rw [hacks, len, hlen])
      nff nrd (by rw [nrs, hacks]; rfl) (fun m hm => ?_) (ngen.trans gen)⟩
    exact hacks ▸ older m (bs_next nbs hm)

/-- The offset of a word: the upper one or the lower one. -/
theorem scOff_word {r : DcacheReq c} (h : r.size.extractLsb' 0 2 = 2) :
    scOff r = if r.paddr.getLsbD 2 then 4 else 0 := by
  have key : ∀ p : BitVec 3, Fin.ofNat 8 (p.toFin.val / 4 * 4) = if p.getLsbD 2 then (4 : Fin 8) else 0 := by decide
  have hb : (r.paddr.extractLsb' 0 3).getLsbD 2 = r.paddr.getLsbD 2 := by simp
  simp only [scOff, h]
  rw [← hb]
  exact key _

/-- The result of an SC reads as its response, if the response found its offset. -/
theorem sc_result {r : DcacheReq c} {off : Fin 8} {e : Bool} (h0 : off = 0 ∨ off = scOff r)
    (h : e = false → r.size.extractLsb' 0 2 = 2 → r.paddr.getLsbD 2 = true → off = scOff r) :
    amoResult r (scWord off e) = 0 ↔ e = true := by
  have words : ∀ o : Fin 8, scWord o false ≠ 0 := by decide
  cases e with
  | true =>
    simp only [scWord, if_true, iff_true, amoResult]
    split <;> try split
    all_goals rfl
  | false =>
    simp only [Bool.false_eq_true, iff_false, amoResult]
    by_cases hsz : r.size.extractLsb' 0 2 = 2
    · have hoff : scOff r = if r.paddr.getLsbD 2 then 4 else 0 := scOff_word hsz
      by_cases hup : r.paddr.getLsbD 2 = true
      · rw [h rfl hsz hup, hoff, if_pos hsz, if_pos hup, if_pos hup]
        decide
      · rw [hoff, if_neg hup, or_self] at h0
        rw [h0, if_pos hsz, if_neg hup]
        decide
    · rw [if_neg hsz]
      exact words off

/-- An SC that waits for its write response. -/
theorem step_write (h : Inv t) (ho : OneAtATime t i) (ht : Timely t i) {r : DcacheReq c} (cur : t.cur = some r)
    (op : r.amoOp = .sc) (len : t.acks + 1 = t.accepted.length) (fifo : t.adapter.dcacheFifo = [])
    (reads : t.slave.reads 3#4 = []) (rs : t.rs = []) (bs : t.bs = [t.acks]) (gen : t.adapter.amoGenR = false)
    (off : t.adapter.amoOff = 0 ∨ t.adapter.amoOff = scOff r) (last : t.scLast = true → t.adapter.amoOff = scOff r) :
    Acknowledges t i ∧ Phase (t.next i) := by
  have hs := arb_of_fifo (i := i) h.bus fifo
  obtain ⟨nrs, nbs, nrd, nff, ngen, noff, nlast⟩ := h.next_unserved hs
  have hna := not_ack_of_cur ho len
  have hlen : (t.next i).accepted = t.accepted := by simp [Served.next, hna]
  have hown : OwnCame t i r ↔ bWaiting t.adapter i ≠ [] := by simp [OwnCame, op, bs]
  rw [hna, fifo] at nff
  rcases h.rtrn_cases ho.legal (not_invalidate hs) with ⟨-, hr, -⟩ | ⟨hnr, -, hnb, hk, hw, -⟩ | ⟨hnr, -, hb, -, hk, hen, hsc, hw, -⟩
  · exact absurd reads hr
  · have hacks : (t.next i).acks = t.acks := by simp [Served.next, hk]
    rw [hnr, reads] at nrd
    rw [hnr, rs] at nrs
    rw [hnb, bs] at nbs
    exact ⟨by simp [Acknowledges, cur, hk, hown, hw, fifo], .write r ((cur_next hna hk).trans cur) op (by rw [hacks, len, hlen])
      nff nrd nrs (by rw [nbs, hacks]; rfl) (ngen.trans gen) (.inl noff) fun hl => by simp [nlast] at hl⟩
  · rw [gen] at hk hsc
    have hacks : (t.next i).acks = t.acks + 1 := by simp [Served.next, hk]
    rw [hnr, reads] at nrd
    rw [hnr, rs] at nrs
    rw [hb, bs] at nbs
    refine ⟨?_, .idle (by rw [hacks, len, hlen]) nff nrd nrs (by simp [nbs]) (by simp [nbs])⟩
    simp only [Acknowledges, cur, hk, hown, ResultOk, op, if_true, Bool.not_false, true_iff, forall_const, fifo]
    refine ⟨hw, ?_, fun hne => absurd rfl hne⟩
    simp only [dcacheShiftD, hen, hsc, Bool.false_eq_true, if_false, Bool.not_false, if_true, Function.update_self]
    exact sc_result off fun he hsz hup => last (ht.offset r cur op (hown.2 hw) he hsz hup)

theorem next_inv (h : Inv t) (ho : OneAtATime t i) (ht : Timely t i) : Acknowledges t i ∧ Inv (t.next i) := by
  have hstep : Acknowledges t i ∧ Phase (t.next i) := by
    cases h.phase with
    | idle len fifo reads rs older gen => exact h.step_idle ho len fifo reads rs older gen
    | queued r cur len fifo reads rs older gen => exact h.step_queued ho ht cur len fifo reads rs older gen
    | read r cur op len fifo reads rs older gen => exact h.step_read ho cur op len fifo reads rs older gen
    | write r cur op len fifo reads rs bs gen off last =>
      exact h.step_write ho ht cur op len fifo reads rs bs gen off last
  exact ⟨hstep.1, h.bus.next, h.next_reads, h.next_writes, h.next_beats ho.legal, h.next_first ho.legal,
    h.next_bIds ho.legal, h.next_bLen ho.legal, h.next_atomic ho, h.next_ids ho, h.next_rdIds ho, hstep.2⟩

end Inv

/-! ### Whole runs -/

/-- **Atomics through the adapter.** In a run in which the adapter keeps track of the write
responses, every atomic gets its acknowledgement with the response that is its own, once, and
with its result. -/
theorem atomics_answered (t₀ : Served c) (h0 : (served c).init t₀) (is : List (In c))
    (h : (served c).Steps (fun t i => OneAtATime t i ∧ Timely t i) t₀ is) :
    (served c).Steps Acknowledges t₀ is := by
  have hinv : Inv t₀ := by
    rw [show t₀ = _ from h0]
    exact inv_reset
  exact Machine.steps_of_inv (fun t i ht hok => (ht.next_inv hok.1 hok.2).2)
    (fun t i ht hok => (ht.next_inv hok.1 hok.2).1) is t₀ hinv h

section Runs

/-- A cycle in which the slave is ready for everything and says nothing. -/
def ready : In arianeCfg :=
  { icacheReq := false, icacheData := ⟨0x80000000, false, 1⟩, dcacheReq := false
    dcacheData := ⟨.atomicReq, 2, 0x80001004, 7, 2, .sc⟩, pref := false
    arReady := true, awReady := true, wReady := true, rValid := false, rId := 3, rData := 5, rLast := true
    bValid := false, bId := 3, bExokay := false }

def sendAmo (op : Lsu.AmoOp) : In arianeCfg :=
  { ready with dcacheReq := true, dcacheData := ⟨.atomicReq, 2, 0x80001004, 7, 2, op⟩ }

def readBeat : In arianeCfg := { ready with rValid := true }

def writeResponse (exokay : Bool) : In arianeCfg := { ready with bValid := true, bExokay := exokay }

/-- An LR, an SC that succeeds, an AMO and, after both of its responses, an SC that fails. -/
def inTime : List (In arianeCfg) :=
  [sendAmo .lr, ready, readBeat, sendAmo .sc, ready, ready, writeResponse true,
    sendAmo .add, ready, writeResponse false, readBeat, sendAmo .sc, ready, writeResponse false, ready]

theorem atomics_answered_inTime :
    (served arianeCfg).Steps (fun t i => OneAtATime t i ∧ Timely t i) servedReset inTime ∧
      (served arianeCfg).Steps Acknowledges servedReset inTime :=
  have h : (served arianeCfg).Steps (fun t i => OneAtATime t i ∧ Timely t i) servedReset inTime := by decide +kernel
  ⟨h, atomics_answered _ rfl inTime h⟩

/-- An SC to an upper word whose failure comes two cycles after it went out. -/
def lateFailure : List (In arianeCfg) := [sendAmo .sc, ready, ready, writeResponse false]

/-- An SC that goes out before the write response of the AMO in front of it. -/
def overtaken : List (In arianeCfg) :=
  [sendAmo .add, ready, readBeat, sendAmo .sc, ready, writeResponse false]

/-- The failure is read as success, and the response of the AMO is taken for that of the SC. -/
theorem sc_misreported :
    ((served arianeCfg).Steps OneAtATime servedReset lateFailure ∧
      ¬(served arianeCfg).Steps Acknowledges servedReset lateFailure) ∧
    ((served arianeCfg).Steps OneAtATime servedReset overtaken ∧
      ¬(served arianeCfg).Steps Acknowledges servedReset overtaken) := by
  decide +kernel

end Runs

end Atomics
end Axi
end Ariane

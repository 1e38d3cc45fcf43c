/-
# The bus behind the adapter

`Slave` is what an AXI slave owes: per id the reads it has accepted, in order, with the words
it has delivered of the oldest, and the writes whose address and data it has accepted. It
answers what it has accepted, in the order of each id and whenever it likes (`Legal`).

`Bus` is what the adapter keeps between two cycles: a choice of the arbiter stands until it is
granted, and a write that waits for one of its channels is the request that was chosen.
-/
import Ariane.Axi.Adapter
import Ariane.Lib.Machine

namespace Ariane
namespace Axi

variable {c : Cfg}

/-! ### The slave -/

inductive Req (c : Cfg)
  | ifill (r : IcacheReq c)
  | data (r : DcacheReq c)
deriving DecidableEq

def Req.tid : Req c → BitVec c.tidWidth
  | .ifill r => r.tid
  | .data r => r.tid

structure Slave (c : Cfg) where
  /-- The reads, each with `len`, and the words delivered of the oldest. -/
  reads : BitVec 4 → List (Req c × ℕ)
  beats : BitVec 4 → List Word
  /-- Addresses that wait for their data, data that wait for their address. -/
  aws : List (BitVec 4 × DcacheReq c)
  ws : ℕ
  writes : BitVec 4 → List (DcacheReq c)

def Slave.reset : Slave c := ⟨fun _ => [], fun _ => [], [], 0, fun _ => []⟩

/-- The atomic is one with an R beat. -/
def DcacheReq.hasR (r : DcacheReq c) : Bool := r.rtype == .atomicReq && atop r.amoOp != 0

namespace Slave

variable (v : Slave c) (s : Regs c) (i : In c)

def rBeat : Bool := i.rValid && rReady s i
def bBeat : Bool := i.bValid && bReady s
def awBeat : Bool := (shimOut s i).awValid && i.awReady
def wBeat : Bool := (shimOut s i).wValid && i.wReady && s.shim.wrCnt == 0

def awsD : List (BitVec 4 × DcacheReq c) :=
  v.aws ++ if awBeat s i then [(axiWrId s i, dcacheData s)] else []

def wsD : ℕ := v.ws + if wBeat s i then 1 else 0

/-- The writes that are complete with this cycle. -/
def done : List (BitVec 4 × DcacheReq c) := (v.awsD s i).take (v.wsD s i)

/-- The request of a read. -/
def reader : Req c := if arbIdx s i then .data (dcacheData s) else .ifill (icacheData s)

def next : Slave c where
  reads := fun id =>
    (if rBeat s i && i.rId == id && i.rLast then (v.reads id).tail else v.reads id) ++
      (if axiRdGnt s i && axiRdId s i == id then [(reader s i, axiRdBlen s i)] else []) ++
      ((v.done s i).filter fun x => x.1 == id && x.2.hasR).map fun x => (.data x.2, 0)
  beats := fun id =>
    if rBeat s i && i.rId == id then (if i.rLast then [] else v.beats id ++ [i.rData]) else v.beats id
  aws := (v.awsD s i).drop (v.wsD s i)
  ws := v.wsD s i - (v.awsD s i).length
  writes := fun id =>
    (if bBeat s i && i.bId == id then (v.writes id).tail else v.writes id) ++
      ((v.done s i).filter fun x => x.1 == id).map Prod.snd

end Slave

/-- The slave answers what it has accepted, the last word of a burst is marked. -/
structure Legal (v : Slave c) (i : In c) : Prop where
  r : i.rValid = true → ∃ x xs, v.reads i.rId = x :: xs ∧ i.rLast = decide ((v.beats i.rId).length = x.2)
  b : i.bValid = true → v.writes i.bId ≠ []

/-- The check of a word that comes in. -/
def Slave.expects (v : Slave c) (i : In c) : Bool :=
  match v.reads i.rId with
  | [] => false
  | x :: _ => i.rLast == decide ((v.beats i.rId).length = x.2)

instance (v : Slave c) (i : In c) : Decidable (Legal v i) :=
  decidable_of_iff ((i.rValid = true → v.expects i = true) ∧ (i.bValid = true → v.writes i.bId ≠ [])) <| by
    have hr : v.expects i = true ↔
        ∃ x xs, v.reads i.rId = x :: xs ∧ i.rLast = decide ((v.beats i.rId).length = x.2) := by
      unfold Slave.expects
      cases v.reads i.rId <;> simp
    exact ⟨fun h => ⟨fun hv => hr.1 (h.1 hv), h.2⟩, fun h => ⟨fun hv => hr.2 (h.r hv), h.b⟩⟩

/-! ### FIFOs -/

theorem length_fifo_le {α : Type} (q : List α) (pop : Bool) (d : ℕ) : (fifo q pop none d).length ≤ q.length := by
  unfold fifo
  split <;> simp

/-- A FIFO that is written only while it has room. -/
theorem fifo_push {α : Type} {q : List α} {push : Bool} {d : ℕ} (h : push = true → q.length < d)
    (pop : Bool) (x : α) : fifo q pop (if push then some x else none) d =
      (if pop then q.tail else q) ++ if push then [x] else [] := by
  unfold fifo
  cases push with
  | false => simp
  | true => simp [h rfl]

theorem icacheFifo_next (s : Regs c) (i : In c) : (next s i).icacheFifo =
    (if arbAckI s i then s.icacheFifo.tail else s.icacheFifo) ++ if icacheAck s i then [i.icacheData] else [] :=
  fifo_push (fun ha => by simpa [icacheAck] using ((Bool.and_eq_true _ _).mp ha).2) _ _

theorem dcacheFifo_next (s : Regs c) (i : In c) : (next s i).dcacheFifo =
    (if arbAckD s i then s.dcacheFifo.tail else s.dcacheFifo) ++ if dcacheAck s i then [i.dcacheData] else [] :=
  fifo_push (fun ha => by simpa [dcacheAck] using ((Bool.and_eq_true _ _).mp ha).2) _ _

/-! ### Choices that stand -/

/-- The id of a write. -/
def wrId (r : DcacheReq c) : BitVec 4 := if r.rtype = .atomicReq then 3 else 1

/-- The request goes to the write channel. -/
def DcacheReq.isWrite (r : DcacheReq c) : Bool :=
  r.rtype == .storeReq || r.rtype == .atomicReq && r.amoOp != .lr

structure Bus (s : Regs c) (v : Slave c) : Prop where
  lockI : s.arbLock = some false → arbReqI s = true
  lockD : s.arbLock = some true → arbReqD s = true
  cnt : s.shim.wrCnt = 0
  shim : (s.shim.wrState = .idle ∧ v.aws = [] ∧ v.ws = 0) ∨
    (s.arbLock = some true ∧ (dcacheData s).isWrite = true ∧
      (s.shim.wrState = .waitAwReady ∧ v.aws = [] ∧ v.ws = 1 ∨
        s.shim.wrState = .waitLastWReady ∧ v.aws = [(wrId (dcacheData s), dcacheData s)] ∧ v.ws = 0))

theorem bus_reset : Bus (c := c) reset Slave.reset := by
  constructor <;> simp [reset, Slave.reset]

namespace Bus

variable {s : Regs c} {v : Slave c} {i : In c}

/-- The arbiter serves a cache that has a request. -/
theorem arb_spec (h : Bus s v) (ha : arbReq s = true) :
    (arbIdx s i = true → arbReqD s = true) ∧ (arbIdx s i = false → arbReqI s = true) := by
  unfold arbIdx
  cases hl : s.arbLock with
  | none =>
    simp only [arbReq, Bool.or_eq_true] at ha
    cases hI : arbReqI s <;> simp_all
  | some b => cases b <;> simp [h.lockI, h.lockD, hl]

theorem axiWrReq_eq : axiWrReq s i = (arbReq s && arbIdx s i && (dcacheData s).isWrite) := by
  simp only [axiWrReq, servesAmo, serves, DcacheReq.isWrite]
  by_cases ht : (dcacheData s).rtype = .atomicReq
  · cases arbReq s && arbIdx s i <;> simp [ht, bne]
  · cases arbReq s && arbIdx s i <;> simp [beq_false_of_ne ht]

/-- A write does not use the read channel. -/
theorem axiRdReq_of_wr (hr : axiWrReq s i = true) : axiRdReq s i = false := by
  rw [axiWrReq_eq] at hr
  simp only [Bool.and_eq_true] at hr
  obtain ⟨⟨ha, hi⟩, hw⟩ := hr
  simp only [axiRdReq, servesAmo, serves, ha, hi]
  revert hw
  unfold DcacheReq.isWrite
  cases (dcacheData s).rtype <;> simp +decide [bne]

theorem axiWrId_eq (ha : (arbReq s && arbIdx s i) = true) : axiWrId s i = wrId (dcacheData s) := by
  obtain ⟨ha, hi⟩ := (Bool.and_eq_true _ _).mp ha
  simp only [axiWrId, wrId, serves, ha, hi, Bool.true_and, beq_iff_eq, if_true]

/-- A write that waits is the one that is served. -/
theorem waiting (h : Bus s v) (hl : s.arbLock = some true) : (arbReq s && arbIdx s i) = true := by
  simp [arbReq, arbIdx, h.lockD hl, hl]

/-- The channels of a write of one word. -/
theorem shimOut_spec (h : Bus s v) :
    (s.shim.wrState = .idle ∧ v.aws = [] ∧ v.ws = 0 ∧ axiWrReq s i = false ∧
      shimOut s i = ⟨.idle, false, false, false, false, false⟩) ∨
    (axiWrReq s i = true ∧ v.aws = [] ∧ v.ws = 0 ∧ shimOut s i =
      ⟨if !i.awReady && i.wReady then .waitAwReady else if i.awReady && !i.wReady then .waitLastWReady else .idle,
        true, true, i.awReady && i.wReady, false, true⟩) ∨
    (axiWrReq s i = true ∧ v.aws = [] ∧ v.ws = 1 ∧ shimOut s i =
      ⟨if i.awReady then .idle else .waitAwReady, true, false, i.awReady, false, false⟩) ∨
    (axiWrReq s i = true ∧ v.aws = [(wrId (dcacheData s), dcacheData s)] ∧ v.ws = 0 ∧ shimOut s i =
      ⟨if i.wReady then .idle else .waitLastWReady, false, true, i.wReady, false, i.wReady⟩) := by
  rcases h.shim with ⟨hst, ha, hw⟩ | ⟨hl, hwr, hst⟩
  · by_cases hr : axiWrReq s i = true
    · refine .inr (.inl ⟨hr, ha, hw, ?_⟩)
      simp only [shimOut, Shim.write, hst, hr, Bool.not_true, Bool.false_eq_true, if_false, if_true]
    · refine .inl ⟨hst, ha, hw, by simpa using hr, ?_⟩
      simp only [shimOut, Shim.write, hst, hr, Bool.not_false, if_true]
  · have hr : axiWrReq s i = true := by rw [axiWrReq_eq, h.waiting hl, hwr, Bool.and_self]
    rcases hst with ⟨hst, ha, hw⟩ | ⟨hst, ha, hw⟩
    · refine .inr (.inr (.inl ⟨hr, ha, hw, ?_⟩))
      simp only [shimOut, Shim.write, hst]
    · refine .inr (.inr (.inr ⟨hr, ha, hw, ?_⟩))
      cases hrd : i.wReady <;> simp [shimOut, Shim.write, hst, hrd, h.cnt]

/-- A granted write is the request at the head of the FIFO of the data cache. -/
theorem wrGnt_spec (h : Bus s v) (hg : axiWrGnt s i = true) :
    arbReqD s = true ∧ arbIdx s i = true ∧ (dcacheData s).isWrite = true := by
  have hr : axiWrReq s i = true := by
    rcases h.shimOut_spec (i := i) with ⟨-, -, -, -, ho⟩ | ⟨hr, -⟩ | ⟨hr, -⟩ | ⟨hr, -⟩
    · simp [axiWrGnt, ho] at hg
    all_goals exact hr
  rw [axiWrReq_eq] at hr
  simp only [Bool.and_eq_true] at hr
  exact ⟨(h.arb_spec hr.1.1).1 hr.1.2, hr.1.2, hr.2⟩

/-- A write is complete for the slave when it is granted. -/
theorem done_eq (h : Bus s v) : v.done s i =
    if axiWrGnt s i then [(wrId (dcacheData s), dcacheData s)] else [] := by
  have hid : axiWrReq s i = true → axiWrId s i = wrId (dcacheData s) := fun hr => by
    rw [axiWrReq_eq, Bool.and_eq_true] at hr
    exact axiWrId_eq hr.1
  rcases h.shimOut_spec (i := i) with ⟨-, ha, hw, -, ho⟩ | ⟨hr, ha, hw, ho⟩ | ⟨hr, ha, hw, ho⟩ | ⟨hr, ha, hw, ho⟩ <;>
    cases hA : i.awReady <;> cases hW : i.wReady <;>
    simp [Slave.done, Slave.awsD, Slave.wsD, Slave.awBeat, Slave.wBeat, axiWrGnt, h.cnt, *]

end Bus

/-! ### One edge -/

section Edge

variable {s : Regs c} {i : In c}

/-- A cache that was not served keeps its request. -/
theorem arbReqI_next (h : arbReqI s = true) (hn : arbAckI s i = false) :
    arbReqI (next s i) = true := by
  simp only [arbReqI, Bool.and_eq_true, Bool.not_eq_true', List.isEmpty_eq_false_iff, decide_eq_true_eq] at h ⊢
  constructor
  · simp [next, hn, fifo, h.1]
  · have := length_fifo_le s.rdIcacheId (icacheVldD s i) c.metaFifoDepth
    simp only [next, hn, Bool.false_and, Bool.false_eq_true, if_false]
    omega

theorem dcacheData_next (h : arbReqD s = true) (hn : arbAckD s i = false) :
    arbReqD (next s i) = true ∧ dcacheData (next s i) = dcacheData s := by
  simp only [arbReqD, Bool.and_eq_true, Bool.not_eq_true', List.isEmpty_eq_false_iff, decide_eq_true_eq] at h ⊢
  obtain ⟨⟨hne, hw⟩, hr⟩ := h
  have h1 := length_fifo_le s.wrDcacheId (rtrn s i).wrPop c.metaFifoDepth
  have h2 := length_fifo_le s.rdDcacheId (rtrn s i).rdPop c.metaFifoDepth
  obtain ⟨r, q, hq⟩ := List.exists_cons_of_ne_nil hne
  refine ⟨⟨⟨?_, ?_⟩, ?_⟩, ?_⟩
  · simp [next, hn, fifo, hne]
  · simp only [next, hn, Bool.false_and, Bool.false_eq_true, if_false]
    omega
  · simp only [next, hn, Bool.false_and, Bool.false_eq_true, if_false]
    omega
  · simp [dcacheData, next, hn, fifo, hq]

end Edge

theorem arbLock_next {s : Regs c} {v : Slave c} {i : In c} (h : Bus s v) {b : Bool}
    (hl : (next s i).arbLock = some b) : arbGnt s i = false ∧ arbIdx s i = b ∧ arbReq s = true := by
  simp only [next] at hl
  split at hl
  · rename_i hc
    simp only [Bool.and_eq_true, Bool.or_eq_true, Bool.not_eq_true', Option.isSome_iff_exists] at hc
    refine ⟨hc.2, by simpa using hl, ?_⟩
    rcases hc.1 with ⟨x, hx⟩ | ha
    · cases x
      · simp [arbReq, h.lockI hx]
      · simp [arbReq, h.lockD hx]
    · exact ha
  · exact absurd hl (by simp)

/-- A choice that is not granted stands. -/
theorem lock_of_wait {s : Regs c} {i : In c} (ha : (arbReq s && arbIdx s i) = true)
    (hg : arbGnt s i = false) : (next s i).arbLock = some true := by
  obtain ⟨ha, hi⟩ := (Bool.and_eq_true _ _).mp ha
  simp [next, ha, hi, hg]

theorem Bus.next {s : Regs c} {v : Slave c} {i : In c} (h : Bus s v) : Bus (next s i) (v.next s i) where
  lockI hl := by
    obtain ⟨hg, hi, ha⟩ := arbLock_next h hl
    exact arbReqI_next ((h.arb_spec ha).2 hi) (by simp [arbAckI, hg])
  lockD hl := by
    obtain ⟨hg, hi, ha⟩ := arbLock_next h hl
    exact (dcacheData_next ((h.arb_spec ha).1 hi) (by simp [arbAckD, hg])).1
  cnt := by
    change (s.shim.next (shimOut s i)).wrCnt = 0
    rcases h.shimOut_spec (i := i) with ⟨-, -, -, -, ho⟩ | ⟨-, -, -, ho⟩ | ⟨-, -, -, ho⟩ | ⟨-, -, -, ho⟩ <;>
      simp [Shim.next, ho, h.cnt]
  shim := by
    have hst : (Axi.next s i).shim.wrState = (shimOut s i).wrStateD := rfl
    have hid : axiWrReq s i = true → axiWrId s i = wrId (dcacheData s) := fun hr => by
      rw [axiWrReq_eq, Bool.and_eq_true] at hr
      exact axiWrId_eq hr.1
    have hwr : axiWrReq s i = true → (dcacheData s).isWrite = true := fun hr => by
      rw [axiWrReq_eq, Bool.and_eq_true] at hr
      exact hr.2
    -- a write that is not granted waits, and stays at the head
    have hwait : axiWrReq s i = true → axiWrGnt s i = false →
        (Axi.next s i).arbLock = some true ∧ dcacheData (Axi.next s i) = dcacheData s := by
      intro hr hg
      have hr' := hr
      rw [axiWrReq_eq, Bool.and_eq_true] at hr'
      have hgnt : arbGnt s i = false := by simp [arbGnt, axiRdGnt, axiRdReq_of_wr hr, hg]
      obtain ⟨ha, hi⟩ := (Bool.and_eq_true _ _).mp hr'.1
      exact ⟨lock_of_wait hr'.1 hgnt, (dcacheData_next ((h.arb_spec ha).1 hi) (by simp [arbAckD, hgnt])).2⟩
    rcases h.shimOut_spec (i := i) with ⟨-, ha, hw, -, ho⟩ | ⟨hr, ha, hw, ho⟩ | ⟨hr, ha, hw, ho⟩ | ⟨hr, ha, hw, ho⟩ <;>
      rw [hst] <;> cases hA : i.awReady <;> cases hW : i.wReady <;>
      simp [Slave.next, Slave.awsD, Slave.wsD, Slave.awBeat, Slave.wBeat, axiWrGnt, h.cnt, *]

end Axi
end Ariane

/-
# The back end: commit stage, CSR file and controller

The three are wired as in `ariane.sv`. The CSR file answers the operation the
commit stage asks for in the same cycle, and the commit stage acts on the
answer: the request is what the commit stage drives before it has an answer
(`csrReq`), and the answer to the settled inputs is the same one
(`csrException_settles`).

Of the controller the two registers are kept, `fence_active_q` and the
registered `flush_dcache_o`; its flush outputs go to the front end, which is
not part of this machine. The instructions on the commit ports are free
inputs.
-/
import Ariane.Core.CommitStage
import Ariane.Csr.Cycle

namespace Ariane
namespace Core

open Riscv Lib

/-! ### The machine -/

structure State where
  csr : Csr.Regs
  fenceActive : Bool
  flushDcache : Bool

/-- What the rest of the core and the pins give to the back end in a cycle. -/
structure In where
  commitInstr : Fin 2 → ScoreboardEntry
  amoResp : AmoResp
  commitLsuReady : Bool
  noStPending : Bool
  flushDcacheAck : Bool
  csrAddr : BitVec 12
  timeIrq : Bool
  bootAddr : BitVec 64
  hartId : BitVec 64
  irq : BitVec 2
  ipi : Bool
  debugReq : Bool
  perfData : BitVec 64

/-- A cycle with nothing to commit. -/
def In.idle : In where
  commitInstr _ := ScoreboardEntry.empty
  amoResp := ⟨false, 0⟩
  commitLsuReady := true
  noStPending := true
  flushDcacheAck := false
  csrAddr := 0
  timeIrq := false
  bootAddr := 0
  hartId := 0
  irq := 0
  ipi := false
  debugReq := false
  perfData := 0

/-- `halt_o` of the controller. -/
def halt (c : State) : Bool := c.csr.wfi || c.fenceActive

/-- The commit stage's inputs, given the CSR file's answer. -/
def commitIn (c : State) (x : In) (rdata : BitVec 64) (ex : Exn) : Commit.In where
  halt := halt c
  flushDcache := c.flushDcache
  singleStep := c.csr.dcsr.step
  commitInstr := x.commitInstr
  amoResp := x.amoResp
  csrRdata := rdata
  csrException := ex
  commitLsuReady := x.commitLsuReady
  noStPending := x.noStPending

/-- The CSR file's inputs, given the commit stage's. -/
def csrInOf (x : In) (k : Commit.In) : Csr.In where
  timeIrq := x.timeIrq
  commitInstr := x.commitInstr
  commitAck p := if p = 0 then (Commit.commit k).ack0 else (Commit.commit k).ack1
  bootAddr := x.bootAddr
  hartId := x.hartId
  ex := Commit.exceptionO k
  csrOp := (Commit.commit k).csrOp
  csrAddr := x.csrAddr
  csrWdata := (Commit.commit k).csrWdata
  dirtyFpState := Commit.dirtyFpStateO k
  csrWriteFflags := (Commit.commit k).csrWriteFflags
  pc := (x.commitInstr 0).pc
  irq := x.irq
  ipi := x.ipi
  debugReq := x.debugReq
  perfData := x.perfData

/-- The request to the CSR file, before it has answered. -/
def csrReq (c : State) (x : In) : Csr.In := csrInOf x (commitIn c x 0 Exn.none)

/-- The settled inputs of the commit stage. -/
def commitOf (cfg : Cfg) (c : State) (x : In) : Commit.In :=
  commitIn c x (Csr.csrRdataO c.csr (csrReq c x)) (Csr.csrExceptionO cfg c.csr (csrReq c x))

/-- The settled inputs of the CSR file. -/
def csrIn (cfg : Cfg) (c : State) (x : In) : Csr.In := csrInOf x (commitOf cfg c x)

/-- The outputs of the commit stage. -/
def out (cfg : Cfg) (c : State) (x : In) : Commit.Out := Commit.commit (commitOf cfg c x)

/-- `fence_active_d`. A write-through data cache is never flushed. -/
def fenceActiveD (cfg : Cfg) (c : State) (x : In) : Bool :=
  if cfg.wtDcache then c.fenceActive
  else if x.flushDcacheAck && c.fenceActive then false
  else if (out cfg c x).fence || (out cfg c x).fenceI then true
  else c.fenceActive

/-- `flush_dcache`. -/
def flushDcacheD (cfg : Cfg) (c : State) (x : In) : Bool :=
  !cfg.wtDcache && ((out cfg c x).fence || (out cfg c x).fenceI ||
    (!(x.flushDcacheAck && c.fenceActive) && c.fenceActive))

def next (cfg : Cfg) (c : State) (x : In) : State where
  csr := Csr.next cfg c.csr (csrIn cfg c x)
  fenceActive := fenceActiveD cfg c x
  flushDcache := flushDcacheD cfg c x

def reset : State := ⟨Csr.reset, false, false⟩

def machine (cfg : Cfg) : Machine State In := ⟨(· = reset), next cfg⟩

variable {cfg : Cfg} {c : State} {x : In}

/-! ### The answer of the CSR file -/

/-- The first instruction asks the CSR file for something. -/
def csrCommits (c : State) (x : In) : Bool :=
  !halt c && (x.commitInstr 0).valid && !(x.commitInstr 0).ex.valid && (x.commitInstr 0).fu == .csr

theorem csrCommits_eq (c : State) (x : In) (r : BitVec 64) (e : Exn) :
    Commit.csrCommits (commitIn c x r e) = csrCommits c x := by
  simp only [Commit.csrCommits, Commit.mayCommit, csrCommits, Commit.instr0, commitIn]
  cases halt c <;> simp

theorem csrIn_csrOp (cfg : Cfg) (c : State) (x : In) : (csrIn cfg c x).csrOp =
    if csrCommits c x then (x.commitInstr 0).op else .add := by
  have h := Commit.commit_csrOp (commitOf cfg c x)
  rw [commitOf, csrCommits_eq] at h
  exact h

theorem csrReq_csrOp (c : State) (x : In) : (csrReq c x).csrOp =
    if csrCommits c x then (x.commitInstr 0).op else .add := by
  have h := Commit.commit_csrOp (commitIn c x 0 Exn.none)
  rw [csrCommits_eq] at h
  exact h

/-- The answer to the settled inputs is the answer to the request. -/
theorem csrException_settles (cfg : Cfg) (c : State) (x : In) :
    Csr.csrExceptionO cfg c.csr (csrIn cfg c x) = Csr.csrExceptionO cfg c.csr (csrReq c x) := by
  have hop : (csrIn cfg c x).csrOp = (csrReq c x).csrOp := by rw [csrIn_csrOp, csrReq_csrOp]
  by_cases hc : csrCommits c x = true
  · refine Csr.csrExceptionO_congr hop rfl ?_ rfl rfl
    have h1 := Commit.commit_csrWdata (commitOf cfg c x) (by rw [commitOf, csrCommits_eq, hc])
    have h2 := Commit.commit_csrWdata (commitIn c x 0 Exn.none) (by rw [csrCommits_eq, hc])
    exact h1.trans h2.symm
  · have hadd : (csrReq c x).csrOp = .add := by rw [csrReq_csrOp, if_neg hc]
    rw [Csr.csrExceptionO_of_not_access, Csr.csrExceptionO_of_not_access]
    · rw [hadd]; rfl
    · rw [hop, hadd]; rfl

/-- The CSR file refuses only accesses of a CSR instruction on the first port. -/
theorem access_of_csrException (h : (commitOf cfg c x).csrException.valid = true) :
    csrCommits c x = true ∧ (x.commitInstr 0).op.isCsrAccess = true := by
  have hacc : (csrReq c x).csrOp.isCsrAccess = true := by
    by_contra hn
    rw [Bool.not_eq_true] at hn
    have h0 : (commitOf cfg c x).csrException = Exn.none := Csr.csrExceptionO_of_not_access hn
    rw [h0] at h
    cases h
  rw [csrReq_csrOp] at hacc
  by_cases hc : csrCommits c x = true
  · rw [if_pos hc] at hacc
    exact ⟨hc, hacc⟩
  · rw [if_neg hc] at hacc
    cases hacc

/-! ### Flushes halt the core -/

theorem flush_halts_next (cfg : Cfg) (c : State) (x : In) :
    (next cfg c x).flushDcache = true → (next cfg c x).fenceActive = true := by
  intro hfl
  have hfl' : flushDcacheD cfg c x = true := hfl
  show fenceActiveD cfg c x = true
  unfold flushDcacheD at hfl'
  unfold fenceActiveD
  by_cases hwt : cfg.wtDcache = true
  · simp [hwt] at hfl'
  rw [Bool.not_eq_true] at hwt
  by_cases hfe : ((out cfg c x).fence || (out cfg c x).fenceI) = true
  · -- a fence retires only while the core is not halted
    have hm := Commit.mayCommit_of_fence _ hfe
    have hact : c.fenceActive = false := by
      simp only [Commit.mayCommit, commitOf, commitIn, halt, Bool.and_eq_true, Bool.not_eq_true',
        Bool.or_eq_false_iff] at hm
      exact hm.2.2
    simp [hwt, hfe, hact]
  · rw [Bool.not_eq_true] at hfe
    simp only [hwt, hfe, Bool.not_false, Bool.true_and, Bool.false_or, Bool.and_eq_true,
      Bool.not_eq_true', Bool.and_eq_false_iff] at hfl'
    obtain ⟨hack, hact⟩ := hfl'
    have hack' : x.flushDcacheAck = false := by
      rcases hack with h | h
      · exact h
      · rw [h] at hact
        cases hact
    simp [hwt, hfe, hact, hack']

/-- While the data cache is being flushed the core is halted. -/
theorem flush_halts (hc : (machine cfg).Reachable c) : c.flushDcache = true → halt c = true := by
  have hinv : c.flushDcache = true → c.fenceActive = true := by
    refine hc.inv (P := fun c => c.flushDcache = true → c.fenceActive = true) ?_ ?_
    · rintro s rfl h
      cases h
    · intro s i _
      exact flush_halts_next cfg s i
  intro h
  simp [halt, hinv h]

/-! ### Exceptions -/

/-- In a cycle that takes an exception nothing retires and nothing is written. -/
theorem exception_cycle (hc : (machine cfg).Reachable c) (h : (csrIn cfg c x).ex.valid = true) :
    (csrIn cfg c x).commitAck 0 = false ∧
      Csr.ctxWritten c.csr (csrIn cfg c x) = Csr.ctx c.csr ∧
      (csrIn cfg c x).csrOp.isReturn = false := by
  have hcsr (hv : (commitOf cfg c x).csrException.valid = true) :
      Commit.csrCommits (commitOf cfg c x) = true ∧
        (Commit.instr0 (commitOf cfg c x)).op.isCsrAccess = true := by
    obtain ⟨h1, h2⟩ := access_of_csrException hv
    exact ⟨by rw [commitOf, csrCommits_eq, h1], h2⟩
  refine ⟨Commit.ack0_of_exception _ (fun hf => flush_halts hc hf) hcsr h, ?_⟩
  obtain ⟨-, -, ⟨hex, -⟩ | ⟨-, hexc, -⟩⟩ := Commit.exceptionO_cases _ h
  · -- the instruction brought the exception along: the CSR file is not asked
    have hex' : (x.commitInstr 0).ex.valid = true := hex
    have hop : (csrIn cfg c x).csrOp = .add := by
      rw [csrIn_csrOp, if_neg]
      simp [csrCommits, hex']
    exact ⟨Csr.ctxWritten_of_not_access (by rw [hop]; rfl), by rw [hop]; rfl⟩
  · -- the CSR file refused the access
    obtain ⟨hcc, hop⟩ := access_of_csrException hexc
    refine ⟨Csr.ctxWritten_of_exception cfg ?_, ?_⟩
    · rw [csrException_settles]
      exact hexc
    · rw [csrIn_csrOp, if_pos hcc]
      cases hi : (x.commitInstr 0).op <;> first | rfl | (rw [hi] at hop; cases hop)

end Core
end Ariane

/-
# A CSR access that faults

A refused access raises its exception in one of three processes of `csr_regfile.sv`, and only
the privilege check gates the write. The other two leave nothing behind either: a register
that refuses to be read refuses to be written (`updWrite_of_exception`). So the edge is that
of a cycle without an access, with the trap entered on top (`fault_atomic`), and the commit
stage writes no register.

The edge of a cycle without an access is not quite idle. Outside debug mode `dcsr.prv` takes
the privilege level, which is a change after a return (`fault_not_idle`), and the first edge
after reset loads `mtvec` and the widths in `mstatus`.
-/
import Ariane.Core.Trap
import Ariane.Csr.WriteRead

namespace Ariane

open Riscv Lib

namespace Csr

variable {cfg : Cfg} {s : Regs} {i : In}

/-! ### The edge -/

/-- `en_ld_st_translation_d`. -/
def ldStTranslation (s : Regs) : Bool :=
  mprv s && s.satp.mode == modeSv39 && s.mstatus.mpp != privLvlM || enTranslationO s

/-- What moves by itself: the cycle counter, the lines of the platform in `mip`, the summary
bit, and three registers that are no CSRs. -/
def freeRunning (s : Regs) (i : In) : Regs :=
  { s with
    cycle := if s.debugMode then s.cycle else s.cycle + 1
    mip := lines i s.mip
    mstatus := { s.mstatus with sd := s.mstatus.xs == Xs.dirty || s.mstatus.fs == Xs.dirty }
    enLdStTranslation := ldStTranslation s
    mtvecRstLoad := false
    wfi := wfiNext s i }

/-- The edge of a cycle without an access: in addition `dcsr.prv` follows the privilege level
outside debug mode, and the first edge after reset loads the boot vector and the widths. -/
def quietEdge (s : Regs) (i : In) : Regs :=
  { freeRunning s i with
    dcsr := if s.debugMode then s.dcsr else { s.dcsr with prv := privLvlO s }
    mtvec := if s.mtvecRstLoad then i.bootAddr + 0x40 else s.mtvec
    mstatus := { (freeRunning s i).mstatus with sxl := xlen64, uxl := xlen64 } }

/-- `r` with the trap of the cycle entered. -/
def enterTrap (s : Regs) (i : In) (r : Regs) : Regs :=
  if s.debugMode then r
  else
    match trapMode s i with
    | .m => { r with
        privLvl := privLvlM
        mcause := i.ex.cause
        mepc := i.pc
        mtval := i.ex.tval
        mstatus := { r.mstatus with mie := false, mpie := s.mstatus.mie, mpp := s.privLvl } }
    | .s => { r with
        privLvl := privLvlS
        scause := i.ex.cause
        sepc := i.pc
        stval := i.ex.tval
        mstatus := { r.mstatus with sie := false, spie := s.mstatus.sie, spp := s.privLvl.getLsbD 0 } }

/-! ### The refused access -/

/-- An exception of the register file is an illegal instruction, raised by an access. -/
theorem csrExceptionO_valid (h : (csrExceptionO cfg s i).valid = true) :
    i.csrOp.isCsrAccess = true ∧ (csrExceptionO cfg s i).cause = illegalInstr := by
  constructor
  · by_contra hn
    rw [csrExceptionO_of_not_access (Bool.eq_false_iff.2 hn)] at h
    cases h
  · unfold csrExceptionO at h ⊢
    split
    · rfl
    · rename_i hc
      rw [if_neg hc] at h
      cases h

/-- A refused write assigns nothing but its exception, and a flush. -/
theorem csrWriteReg_of_refused {r : CsrReg} {w : BitVec 64} (h : csrReadReg s i r = none ∨
    (csrWriteReg cfg s w (updDefaults s i) r).updateAccessException = true) :
    ∃ f e, csrWriteReg cfg s w (updDefaults s i) r =
      { updDefaults s i with flush := f, updateAccessException := e } := by
  have hfp {v : BitVec 64} {f : Fcsr} (h : fpRead s v = none ∨
      (fpWrite s (updDefaults s i) f).updateAccessException = true) :
      fpWrite s (updDefaults s i) f = { updDefaults s i with flush := false, updateAccessException := true } := by
    unfold fpRead fpWrite at *
    by_cases hoff : s.mstatus.fs = Xs.off
    · rw [if_pos hoff]
      rfl
    · rw [if_neg hoff, if_neg hoff] at h
      rcases h with h | h <;> cases h
  cases r with
  | fflags => exact ⟨false, true, hfp h⟩
  | frm => exact ⟨false, true, hfp h⟩
  | fcsr => exact ⟨false, true, hfp h⟩
  | ftran => exact ⟨false, true, hfp h⟩
  | satp =>
    by_cases htvm : privLvlO s = privLvlS ∧ s.mstatus.tvm = true
    · exact ⟨true, true, by simp only [csrWriteReg, if_pos htvm]⟩
    · simp only [csrReadReg, csrWriteReg, if_neg htvm] at h
      rcases h with h | h
      · cases h
      · split at h <;> cases h
  | mvendorid | marchid | mimpid | mhartid => exact ⟨false, true, rfl⟩
  | _ => rcases h with h | h <;> cases h

/-- The write of a cycle whose access is refused. -/
theorem updWrite_of_exception (h : (csrExceptionO cfg s i).valid = true) :
    ∃ f e, updWrite cfg s i (updDefaults s i) =
      { updDefaults s i with flush := f, updateAccessException := e } := by
  by_cases hw : ∃ r, Writes s i r
  · obtain ⟨r, hr⟩ := hw
    rw [updWrite_of_writes hr]
    exact csrWriteReg_of_refused (refused_of_writes hr h)
  · unfold updWrite
    split
    · rename_i hwe
      split
      · rename_i r hr
        exact absurd ⟨r, hwe, hr⟩ hw
      · exact ⟨false, true, rfl⟩
    · exact ⟨false, false, rfl⟩

/-- A cycle that takes the exception of a refused access: nothing retires with it. -/
structure Faults (cfg : Cfg) (s : Regs) (i : In) : Prop where
  refused : (csrExceptionO cfg s i).valid = true
  valid : i.ex.valid = true
  cause : i.ex.cause = illegalInstr
  ack : i.commitAck 0 = false ∧ i.commitAck 1 = false
  dirty : i.dirtyFpState = false
  fflags : i.csrWriteFflags = false

theorem perfWeO_of_faults (h : Faults cfg s i) : perfWeO cfg s i = false := by
  obtain ⟨f, e, hw⟩ := updWrite_of_exception h.refused
  have houts := congrArg Prod.snd (writeOuts_csrUpdate cfg s i)
  rw [hw] at houts
  exact houts

theorem instretNext_of_valid (h : i.ex.valid = true) : instretNext s i = s.instret := by
  simp [instretNext, h]

theorem next_of_faults (h : Faults cfg s i) : next cfg s i = enterTrap s i (quietEdge s i) := by
  obtain ⟨f, e, hw⟩ := updWrite_of_exception h.refused
  obtain ⟨hacc, -⟩ := csrExceptionO_valid h.refused
  have hret (u : Upd) : updReturn s i u = u := by
    unfold updReturn
    cases hi : i.csrOp <;> first | rfl | (rw [hi] at hacc; cases hacc)
  have hff (u : Upd) : updFflags s i u = u := by simp [updFflags, h.fflags]
  have hdbg (u : Upd) : updDebug cfg s i u = { u with
      setDebugPc := (updDebug cfg s i u).setDebugPc
      d.dcsr := if s.debugMode then u.d.dcsr else { u.d.dcsr with prv := privLvlO s } } := by
    have hb : (illegalInstr == breakpoint) = false := by decide
    have hq : (illegalInstr == debugRequest) = false := by decide
    by_cases hd : s.debugMode = true
    · simp [updDebug, hd]
    · rw [Bool.not_eq_true] at hd
      simp [updDebug, updSingleStep, updDebugReq, updEbreak, hd, h.cause, h.ack.1, hb, hq]
  have hne : (illegalInstr != debugRequest) = true := by decide
  have htaken : trapTaken s i = !s.debugMode := by
    rw [trapTaken, h.cause, hne, h.valid, Bool.and_true, Bool.and_true]
  have hinst : (if s.debugMode then s.instret else instretNext s i) = s.instret := by
    rw [instretNext_of_valid h.valid, ite_self]
  have hdef : (updDefaults s i).d = { s with
      cycle := if s.debugMode then s.cycle else s.cycle + 1
      mtvec := if s.mtvecRstLoad then i.bootAddr + 0x40 else s.mtvec } := by
    simp only [updDefaults, hinst, enableCycleCount, if_true]
  have hdirty : (updDefaults s i).dirtyFpStateCsr = false := rfl
  have hmprv (u : Upd) : (updMprv s u).d = { u.d with enLdStTranslation := ldStTranslation s } := by
    unfold updMprv ldStTranslation
    cases hc : (mprv s && s.satp.mode == modeSv39 && s.mstatus.mpp != privLvlM) <;> simp
  rw [next, csrUpdate, hret, hmprv, hdbg, hff, hw]
  by_cases hd : s.debugMode = true
  · rw [hd, Bool.not_true] at htaken
    simp [updTrap, htaken, enterTrap, quietEdge, freeRunning, updIrq, updStatus, lines, hdef, hd,
      hdirty, h.dirty, fpPresent]
  · rw [Bool.not_eq_true] at hd
    rw [hd, Bool.not_false] at htaken
    simp only [updTrap, htaken, if_true, enterTrap, hd, Bool.false_eq_true, if_false, trapToPrivLvl_eq]
    cases hm : trapMode s i with
    | m =>
      have hlvl : Mode.m.lvl ≠ privLvlS := by decide
      simp only [if_neg hlvl, hdef, updIrq, updStatus, hdirty, h.dirty, fpPresent, trapTval, zeroTval,
        quietEdge, freeRunning, lines, hd, Bool.and_false, Bool.or_false, Bool.false_and,
        Bool.false_eq_true, if_false]
      rfl
    | s =>
      have hlvl : Mode.s.lvl = privLvlS := rfl
      simp only [if_pos hlvl, hdef, updIrq, updStatus, hdirty, h.dirty, fpPresent, trapTval, zeroTval,
        quietEdge, freeRunning, lines, hd, Bool.and_false, Bool.or_false, Bool.false_and,
        Bool.false_eq_true, if_false]

end Csr

namespace Commit

variable (x : In)

/-- A CSR access the CSR file refuses writes no register. -/
theorem writes_of_csrException (hf : x.flushDcache = true → x.halt = true) (hc : csrCommits x = true)
    (hop : (instr0 x).op.isCsrAccess = true) (h : x.csrException.valid = true) :
    (commit x).weGpr0 = false ∧ (commit x).weGpr1 = false ∧ (commit x).weFpr0 = false ∧
      (commit x).weFpr1 = false ∧ (commit x).csrWriteFflags = false := by
  obtain ⟨hm, hfu⟩ := (csrCommits_iff x).1 hc
  have hflush := flushDcache_of_mayCommit x hf hm
  have hne := FuOp.not_fence_of_csr (.inl hop)
  have hfpr : (instr0 x).op.isRdFpr = false := by
    cases ho : (instr0 x).op <;> first | rfl | (rw [ho] at hop; cases hop)
  rw [commit, commitPort1_of_csr x _ hfu, commitPort0, if_pos hm]
  simp [commitAmo, commitFence, commitFenceI, commitSfence, commitCsr, commitFpu, commitStore, commitWe,
    defaults, hne, hfu, h, hflush, hfpr, Fu.isFpu]

/-- The exception of a refused access is that of the CSR file. -/
theorem exceptionO_cause_of_csrException (hc : csrCommits x = true)
    (hop : (instr0 x).op.isCsrAccess = true) (h : x.csrException.valid = true) :
    (exceptionO x).cause = x.csrException.cause := by
  obtain ⟨hm, -⟩ := (csrCommits_iff x).1 hc
  have hex : (instr0 x).ex.valid = false := by
    simp only [mayCommit, Bool.and_eq_true, Bool.not_eq_true'] at hm
    exact hm.1.2
  obtain ⟨-, -, ⟨hown, -⟩ | ⟨-, -, he⟩⟩ := exceptionO_cases x (exceptionO_of_csrException x hc hop h)
  · rw [hown] at hex
    cases hex
  · rw [he]

end Commit

namespace Core

variable {cfg : Cfg} {c : State} {x : In}

/-- The cycle ends in the exception of the CSR file. -/
def CsrFaults (cfg : Cfg) (c : State) (x : In) : Prop :=
  (Csr.csrExceptionO cfg c.csr (csrIn cfg c x)).valid = true

instance : Decidable (CsrFaults cfg c x) := by unfold CsrFaults; infer_instance

/-- The performance counters after the edge. -/
def perfNext (cfg : Cfg) (c : State) (x : In) (j : Csr.PerfIn) (p : Csr.Perf) : Csr.Perf :=
  let i := csrIn cfg c x
  let u := Csr.csrUpdate cfg c.csr i
  Csr.perfNext c.csr.debugMode (Csr.perfEvent j i u.eret) u.perfWe (Csr.perfAddrO i) u.perfData p

/-- A fault leaves the CSR file to `edge`, with the trap entered, strobes no counter and writes
no register. -/
structure Atomic (edge : Csr.Regs → Csr.In → Csr.Regs) (cfg : Cfg) (c : State) (x : In)
    (j : Csr.PerfIn) (p : Csr.Perf) : Prop where
  csr : (next cfg c x).csr = Csr.enterTrap c.csr (csrIn cfg c x) (edge c.csr (csrIn cfg c x))
  perfWe : Csr.perfWeO cfg c.csr (csrIn cfg c x) = false
  perf : ∀ n, perfNext cfg c x j p n = p n ∨
    Csr.perfEvent j (csrIn cfg c x) (Csr.eretO cfg c.csr (csrIn cfg c x)) n = true ∧
      perfNext cfg c x j p n = p n + 1
  ack : (out cfg c x).ack0 = false ∧ (out cfg c x).ack1 = false
  gpr : (out cfg c x).weGpr0 = false ∧ (out cfg c x).weGpr1 = false
  fpr : (out cfg c x).weFpr0 = false ∧ (out cfg c x).weFpr1 = false

/-- What the CSR file sees of a cycle whose access it refuses. -/
theorem faults_of_csrFaults (hc : (machine cfg).Reachable c) (h : CsrFaults cfg c x) :
    Csr.Faults cfg c.csr (csrIn cfg c x) := by
  have hex : (commitOf cfg c x).csrException.valid = true := by
    rw [CsrFaults, csrException_settles] at h
    exact h
  obtain ⟨hcc, hop⟩ := access_of_csrException hex
  have hcc' : Commit.csrCommits (commitOf cfg c x) = true := by rw [commitOf, csrCommits_eq, hcc]
  have hflush : (commitOf cfg c x).flushDcache = true → (commitOf cfg c x).halt = true := flush_halts hc
  have hack := Commit.ack0_of_csrException _ hflush hcc' hop hex
  have hack1 : (Commit.commit (commitOf cfg c x)).ack1 = false := by
    rw [Bool.eq_false_iff]
    intro h1
    rw [(Commit.ack0_of_ack1 _ h1).1] at hack
    cases hack
  have hw := Commit.writes_of_csrException _ hflush hcc' hop hex
  constructor
  · exact h
  · exact Commit.exceptionO_of_csrException _ hcc' hop hex
  · refine (Commit.exceptionO_cause_of_csrException _ hcc' hop hex).trans ?_
    have hcause := (Csr.csrExceptionO_valid h).2
    rw [csrException_settles] at hcause
    exact hcause
  · exact ⟨hack, hack1⟩
  · show Commit.dirtyFpStateO (commitOf cfg c x) = false
    simp [Commit.dirtyFpStateO, hack, hack1]
  · exact hw.2.2.2.2

/-- A CSR access. -/
def In.access (op : FuOp) (r : CsrReg) : In := { In.csr op with csrAddr := r.addr }

end Core
end Ariane

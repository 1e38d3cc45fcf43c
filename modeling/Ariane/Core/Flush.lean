/-
# Flushes and retirement

`flush_ctrl` of `src/controller.sv`, on top of the back end. A refetch starts at the
instruction behind the one on the first commit port; a redirect (an exception, a
return, a debug entry) overrides it. Both flush the execute stage.

Two laws of the pipeline are measured here against the code.

* A retiring store is not flushed. It fails for a store retired by a single step: the
  debug entry comes in the cycle of the retirement (`store_not_flushed_iff`).
* A refetch retires one uncompressed instruction and no other. It fails for an AMO
  with a finished instruction behind it: the second port does not wait for AMOs
  (`refetch_iff`).

The instructions on the commit ports are ones the decode stage made (`Fetched`).
-/
import Ariane.Core.Debug
import Ariane.Decode.IdStage

namespace Ariane

open Riscv Lib

/-! ### What the CSR file tells the controller -/

namespace Csr

variable (cfg : Cfg) (s : Regs) (i : In)

/-- `eret_o` is raised by the returns and nothing else. -/
theorem eretO_eq : eretO cfg s i = i.csrOp.isReturn := by
  have hret (u : Upd) (hu : u.eret = false) : (updReturn s i u).eret = i.csrOp.isReturn := by
    unfold updReturn
    cases i.csrOp <;> first | rfl | exact hu
  have hstep (u : Upd) : (updSingleStep cfg s i u).eret = u.eret := by
    unfold updSingleStep
    split <;> rfl
  have hdebug (u : Upd) : (updDebug cfg s i u).eret = u.eret := by
    unfold updDebug
    split
    · rfl
    · rw [hstep, eret_debugReq_ebreak]
  refine hret _ ?_
  rw [updMprv, hdebug, eret_updTrap]

/-- `flush_o` is raised by writes only. -/
theorem access_of_flushO {cfg : Cfg} {s : Regs} {i : In} (h : flushO cfg s i = true) :
    i.csrOp.isCsrAccess = true := by
  have hret (u : Upd) : (updReturn s i u).flush = u.flush := by
    unfold updReturn
    split <;> rfl
  have hstep (u : Upd) : (updSingleStep cfg s i u).flush = u.flush := by
    unfold updSingleStep
    split <;> rfl
  have hreq (u : Upd) : (updDebugReq i (updEbreak s i u)).flush = u.flush := by
    unfold updDebugReq updEbreak
    split <;> split <;> rfl
  have hdebug (u : Upd) : (updDebug cfg s i u).flush = u.flush := by
    unfold updDebug
    split
    · rfl
    · rw [hstep, hreq]
  have htrap (u : Upd) (hu : u.flush = false) : (updTrap s i u).flush = false := by
    unfold updTrap
    split
    · split <;> rfl
    · exact hu
  have hff (u : Upd) : (updFflags s i u).flush = u.flush := by
    unfold updFflags
    split <;> rfl
  by_contra hn
  have hwe : csrWe s i = false := by simp [csrWe, hn]
  have hw (u : Upd) : updWrite cfg s i u = u := by
    rw [updWrite, hwe, if_neg Bool.false_ne_true]
  rw [flushO, csrUpdate, hret, updMprv, hdebug, hw, htrap] at h
  · cases h
  · rw [updIrq, hff]
    rfl

/-- Without an exception `set_debug_pc_o` is raised by a single step. -/
theorem setDebugPcO_eq (hex : i.ex.valid = false) :
    setDebugPcO cfg s i = (!s.debugMode && s.dcsr.step && i.commitAck 0) := by
  have hret (u : Upd) : (updReturn s i u).setDebugPc = u.setDebugPc := by
    unfold updReturn
    split <;> rfl
  have hdebug (u : Upd) (hu : u.setDebugPc = false) : (updDebug cfg s i u).setDebugPc =
      (!s.debugMode && s.dcsr.step && i.commitAck 0) := by
    unfold updDebug updDebugReq updEbreak
    simp only [hex, Bool.false_and, Bool.false_eq_true, if_false, Bool.or_false]
    cases s.debugMode with
    | true => exact hu
    | false =>
      rw [if_neg Bool.false_ne_true]
      unfold updSingleStep
      split
      · rename_i h
        rw [Bool.not_false, Bool.true_and, h]
      · rename_i h
        rw [Bool.not_false, Bool.true_and, Bool.eq_false_iff.2 h]
        exact hu
  have htrap (u : Upd) : (updTrap s i u).setDebugPc = u.setDebugPc := by
    unfold updTrap
    split
    · split <;> rfl
    · rfl
  have hff (u : Upd) : (updFflags s i u).setDebugPc = u.setDebugPc := by
    unfold updFflags
    split <;> rfl
  have hfp (u : Upd) (f : Fcsr) : (fpWrite s u f).setDebugPc = u.setDebugPc := by
    unfold fpWrite
    split <;> rfl
  have hwr (u : Upd) (w : BitVec 64) (r : CsrReg) :
      (csrWriteReg cfg s w u r).setDebugPc = u.setDebugPc := by
    cases r <;> try first | rfl | exact hfp u _
    simp only [csrWriteReg]
    split
    · rfl
    · split <;> rfl
  have hw (u : Upd) : (updWrite cfg s i u).setDebugPc = u.setDebugPc := by
    unfold updWrite
    split
    · split
      · exact hwr _ _ _
      · rfl
    · rfl
  rw [setDebugPcO, csrUpdate, hret, updMprv, hdebug]
  rw [htrap, updIrq, hff, updStatus, hw]
  rfl

end Csr

/-! ### The controller -/

namespace Controller

structure In where
  isMispredict : Bool
  fence : Bool
  fenceI : Bool
  sfenceVma : Bool
  flushCsr : Bool
  flushCommit : Bool
  exValid : Bool
  eret : Bool
  setDebugPc : Bool

structure Out where
  setPcCommit : Bool
  flushIf : Bool
  flushUnissuedInstr : Bool
  flushId : Bool
  flushEx : Bool
  flushIcache : Bool
  flushTlb : Bool
  flushBp : Bool

/-- Fetch again behind the instruction on the first commit port. -/
def In.refetch (i : In) : Bool :=
  i.fence || i.fenceI || i.sfenceVma || i.flushCsr || i.flushCommit

/-- Fetch from somewhere else: this comes last and takes `set_pc_commit_o` back. -/
def In.redirect (i : In) : Bool := i.exValid || i.eret || i.setDebugPc

/-- `flush_ctrl`. -/
def flushCtrl (i : In) : Out where
  setPcCommit := i.refetch && !i.redirect
  flushIf := i.isMispredict || i.refetch || i.redirect
  flushUnissuedInstr := i.isMispredict || i.refetch || i.redirect
  flushId := i.refetch || i.redirect
  flushEx := i.refetch || i.redirect
  flushIcache := i.fenceI
  flushTlb := i.sfenceVma
  flushBp := i.redirect

end Controller

namespace Core

variable {cfg : Cfg} {c : State} {x : In}

/-- The controller's inputs; the branch unit's answer is not part of the back end. -/
def ctrlIn (cfg : Cfg) (c : State) (x : In) (isMispredict : Bool) : Controller.In where
  isMispredict := isMispredict
  fence := (out cfg c x).fence
  fenceI := (out cfg c x).fenceI
  sfenceVma := (out cfg c x).sfenceVma
  flushCsr := Csr.flushO cfg c.csr (csrIn cfg c x)
  flushCommit := (out cfg c x).flushCommit
  exValid := (csrIn cfg c x).ex.valid
  eret := Csr.eretO cfg c.csr (csrIn cfg c x)
  setDebugPc := Csr.setDebugPcO cfg c.csr (csrIn cfg c x)

/-- The flushes of a cycle. -/
def ctrl (cfg : Cfg) (c : State) (x : In) (isMispredict : Bool) : Controller.Out :=
  Controller.flushCtrl (ctrlIn cfg c x isMispredict)

/-- The decode stage made the instructions on the commit ports. -/
def Fetched (x : In) : Prop := ∀ p, IdStage.Decoded (x.commitInstr p)

/-- The first instruction is there, raised nothing, and the core is not halted. -/
def mayCommit (c : State) (x : In) : Bool :=
  (x.commitInstr 0).valid && !(x.commitInstr 0).ex.valid && !halt c

theorem mayCommit_eq (cfg : Cfg) (c : State) (x : In) :
    Commit.mayCommit (commitOf cfg c x) = mayCommit c x := rfl

/-- An instruction outside the CSR unit raises no exception when it may commit. -/
theorem noEx_of_mayCommit (hm : mayCommit c x = true) (hfu : (x.commitInstr 0).fu ≠ .csr) :
    (csrIn cfg c x).ex.valid = false := by
  rw [Bool.eq_false_iff]
  intro hex
  obtain ⟨-, -, ⟨hex', -⟩ | ⟨-, hc, -⟩⟩ := Commit.exceptionO_cases (commitOf cfg c x) hex
  · have : (x.commitInstr 0).ex.valid = true := hex'
    simp [mayCommit, this] at hm
  · obtain ⟨hc, -⟩ := access_of_csrException hc
    simp only [csrCommits, Bool.and_eq_true, beq_iff_eq] at hc
    exact hfu hc.2

/-- Nor does it ask the CSR file for anything. -/
theorem csrOp_of_not_csr (hfu : (x.commitInstr 0).fu ≠ .csr) : (csrIn cfg c x).csrOp = .add := by
  rw [csrIn_csrOp, if_neg]
  simp [csrCommits, hfu]

/-- Outside the CSR unit the only redirect of a retiring instruction is a single step. -/
theorem redirect_of_not_csr (hm : mayCommit c x = true) (hfu : (x.commitInstr 0).fu ≠ .csr)
    (b : Bool) : (ctrlIn cfg c x b).redirect =
      (!c.csr.debugMode && c.csr.dcsr.step && (out cfg c x).ack0) := by
  have hop : (csrIn cfg c x).csrOp = .add := csrOp_of_not_csr hfu
  have hex : (csrIn cfg c x).ex.valid = false := noEx_of_mayCommit hm hfu
  have heret : Csr.eretO cfg c.csr (csrIn cfg c x) = false := by
    rw [Csr.eretO_eq, hop]
    rfl
  have hdbg := Csr.setDebugPcO_eq cfg c.csr (csrIn cfg c x) hex
  unfold Controller.In.redirect ctrlIn
  rw [hex, heret, hdbg]
  rfl

theorem flushO_of_not_csr (hfu : (x.commitInstr 0).fu ≠ .csr) :
    Csr.flushO cfg c.csr (csrIn cfg c x) = false := by
  rw [Bool.eq_false_iff]
  intro hf
  have hacc := Csr.access_of_flushO hf
  rw [csrOp_of_not_csr hfu] at hacc
  cases hacc

/-! ### A retiring store is not flushed -/

/-- A store on the first commit port that retires. -/
def storeRetires (c : State) (x : In) : Bool :=
  mayCommit c x && (x.commitInstr 0).fu == .store && !(x.commitInstr 0).op.isAmo && x.commitLsuReady

theorem out_commitLsu (cfg : Cfg) (c : State) (x : In) :
    (out cfg c x).commitLsu = storeRetires c x :=
  Commit.commit_commitLsu (commitOf cfg c x)

theorem storeRetires_iff : storeRetires c x = true ↔ mayCommit c x = true ∧
    (x.commitInstr 0).fu = .store ∧ (x.commitInstr 0).op.isAmo = false ∧ x.commitLsuReady = true := by
  simp [storeRetires, and_assoc]

/-- A store that retires flushes the execute stage exactly if it is single-stepped. -/
theorem flushEx_of_store (cfg : Cfg) (hx : Fetched x) (h : storeRetires c x = true) (b : Bool) :
    (ctrl cfg c x b).flushEx = (!c.csr.debugMode && c.csr.dcsr.step) := by
  obtain ⟨hm, hfu, hamo, hready⟩ := storeRetires_iff.1 h
  have hcsr : (x.commitInstr 0).fu ≠ .csr := by
    rw [hfu]
    exact Fu.noConfusion
  obtain ⟨hnf, hnfi, hnsf⟩ := Decoder.not_fence_of_runs (hx 0).runs hcsr
  have hfence : (out cfg c x).fence = false := by
    refine (Commit.commit_fence (commitOf cfg c x)).trans ?_
    simp [Commit.instr0, commitOf, commitIn, hnf]
  have hfenceI : (out cfg c x).fenceI = false := by
    refine (Commit.commit_fenceI (commitOf cfg c x)).trans ?_
    simp [Commit.instr0, commitOf, commitIn, hnfi, hfu]
  have hsfence : (out cfg c x).sfenceVma = false := by
    refine (Commit.commit_sfenceVma (commitOf cfg c x)).trans ?_
    simp [Commit.instr0, commitOf, commitIn, hnsf]
  have hcommit : (out cfg c x).flushCommit = false := by
    refine (Commit.commit_flushCommit (commitOf cfg c x)).trans ?_
    simp [Commit.instr0, commitOf, commitIn, hamo]
  have hack : (out cfg c x).ack0 = true := by
    refine (Commit.commit_ack0 (commitOf cfg c x)).trans ?_
    rw [mayCommit_eq, hm]
    simp [Commit.instr0, commitOf, commitIn, hamo, hnf, hnfi, hnsf, hfu, hready, Fu.isFpu]
  have hrefetch : (ctrlIn cfg c x b).refetch = false := by
    unfold Controller.In.refetch ctrlIn
    rw [hfence, hfenceI, hsfence, hcommit, flushO_of_not_csr hcsr]
    rfl
  unfold ctrl Controller.flushCtrl
  rw [hrefetch, redirect_of_not_csr hm hcsr, hack, Bool.and_true, Bool.false_or]

/-- A store that retires outside debug mode while `dcsr.step` is set. -/
def SteppedStore (c : State) (x : In) : Prop :=
  storeRetires c x = true ∧ c.csr.debugMode = false ∧ c.csr.dcsr.step = true

/-- The store that retires is not flushed, whatever the branch unit says. -/
def StoreKept (cfg : Cfg) (c : State) (x : In) : Prop :=
  ∀ b, ¬((out cfg c x).commitLsu = true ∧ (ctrl cfg c x b).flushEx = true)

theorem storeKept_iff (hx : Fetched x) : StoreKept cfg c x ↔ ¬SteppedStore c x := by
  constructor
  · rintro h ⟨hs, hd, hstep⟩
    refine h false ⟨by rw [out_commitLsu, hs], ?_⟩
    rw [flushEx_of_store cfg hx hs, hd, hstep]
    rfl
  · rintro h b ⟨hl, hf⟩
    rw [out_commitLsu] at hl
    rw [flushEx_of_store cfg hx hl] at hf
    simp only [Bool.and_eq_true, Bool.not_eq_true'] at hf
    exact h ⟨hl, hf.1, hf.2⟩

/-- In a run from reset no retiring store is flushed exactly if none is
single-stepped. -/
theorem store_not_flushed_iff (cfg : Cfg) (xs : List In)
    (hx : (machine cfg).Steps (fun _ x => Fetched x) reset xs) :
    (machine cfg).Steps (StoreKept cfg) reset xs ↔
      (machine cfg).Steps (fun c x => ¬SteppedStore c x) reset xs :=
  Machine.steps_congr_of_inv (P := fun _ => True) (fun _ _ _ _ => trivial)
    (fun _ _ _ hx => storeKept_iff hx) xs reset trivial hx

/-- The decode stage gets the word `w` at `pc`, or a fetch exception there. -/
def fetch (pc : BitVec 64) (w : BitVec 32) (ex debugMode : Bool) : IdStage.In where
  address := pc
  instruction := w
  branchPredict := ⟨0⟩
  ex := ⟨0, 0, ex⟩
  debugReq := false
  irq := 0
  irqCtrl := ⟨0, 0, 0, false, false⟩
  privLvl := privLvlM
  debugMode := debugMode
  fs := Xs.off
  frm := 0
  tvm := false
  tw := false
  tsr := false

theorem decoded_empty : IdStage.Decoded ScoreboardEntry.empty :=
  ⟨fetch 0 0x13 true false, by decide⟩

/-- A debug request in place of an instruction. -/
theorem fetched_debugRequest : Fetched (In.raise debugRequest) := by
  have h : IdStage.Decoded ((In.raise debugRequest).commitInstr 0) :=
    ⟨fetch 0x80000000 0x13 true false, by decide⟩
  exact fun _ => h

/-- `csrrw x0, dcsr, x1` in debug mode. -/
theorem fetched_setStep : Fetched (In.csrWrite .dcsr 4) := by
  have h : IdStage.Decoded ((In.csrWrite .dcsr 4).commitInstr 0) :=
    ⟨fetch 0 0x7b009073 false true, by decide⟩
  exact fun _ => h

theorem fetched_dret : Fetched (In.csr .dret) := by
  have h : IdStage.Decoded ((In.csr .dret).commitInstr 0) :=
    ⟨fetch 0x80000100 0x7b200073 false true, by decide⟩
  exact fun _ => h

/-- `e` on the first commit port, nothing on the second. -/
def In.single (e : ScoreboardEntry) : In :=
  { In.idle with commitInstr := fun p => if p = 0 then e else ScoreboardEntry.empty }

theorem fetched_single {e : ScoreboardEntry} (h : IdStage.Decoded e) : Fetched (In.single e) := by
  intro p
  unfold In.single
  by_cases hp : p = 0
  · simpa [hp] using h
  · simpa [hp] using decoded_empty

/-- `sd x0, 0(x0)`. -/
def sdEntry : ScoreboardEntry := { ScoreboardEntry.empty with fu := .store, op := .sd, valid := true }

theorem decoded_sd : IdStage.Decoded sdEntry :=
  ⟨fetch 0 0x00003023 false false, by decide⟩

/-- A store that retires right after reset. -/
theorem store_not_flushed_reset : (machine socCfg).Steps (StoreKept socCfg) reset [In.single sdEntry] :=
  (store_not_flushed_iff socCfg [In.single sdEntry] ⟨fetched_single decoded_sd, trivial⟩).2
    ⟨fun h => absurd h.2.2 (by decide), trivial⟩

/-- The debugger sets `dcsr.step` and leaves, and the hart steps over a store. -/
theorem stepped_store_flushed :
    let xs := [In.raise debugRequest, In.csrWrite .dcsr 4, In.csr .dret, In.single sdEntry]
    (machine socCfg).Steps (fun _ x => Fetched x) reset xs ∧
      ¬(machine socCfg).Steps (StoreKept socCfg) reset xs := by
  refine ⟨⟨fetched_debugRequest, fetched_setStep, fetched_dret, fetched_single decoded_sd,
    trivial⟩, ?_⟩
  intro h
  exact h.2.2.2.1 false ⟨by decide, by decide⟩

/-! ### A refetch retires one instruction -/

/-- When the frontend fetches again from behind the first commit port, that instruction
retires, no other does, and it is four bytes long. -/
def RefetchOK (cfg : Cfg) (c : State) (x : In) : Prop :=
  ∀ b, (ctrl cfg c x b).setPcCommit = true →
    (out cfg c x).ack0 = true ∧ (out cfg c x).ack1 = false ∧ (x.commitInstr 0).isCompressed = false

/-- An AMO retires on the first port with a finished instruction on the second. -/
structure AmoPair (c : State) (x : In) : Prop where
  mayCommit : mayCommit c x = true
  amo : (x.commitInstr 0).op.isAmo = true
  ack : x.amoResp.ack = true
  valid : (x.commitInstr 1).valid = true
  noEx : (x.commitInstr 1).ex.valid = false
  fu : (x.commitInstr 1).fu.onSecondPort = true
  noStep : c.csr.dcsr.step = false

theorem valid_of_mayCommit (hm : mayCommit c x = true) :
    (x.commitInstr 0).valid = true ∧ (x.commitInstr 0).ex.valid = false ∧ halt c = false := by
  simpa [mayCommit, and_assoc] using hm

theorem out_ack1 (cfg : Cfg) (c : State) (x : In) : (out cfg c x).ack1 =
    ((out cfg c x).ack0 && (x.commitInstr 1).valid && !halt c && (x.commitInstr 0).fu != .csr &&
      !c.flushDcache && !c.csr.dcsr.step && !(csrIn cfg c x).ex.valid &&
      !(x.commitInstr 1).ex.valid && (x.commitInstr 1).fu.onSecondPort) :=
  Commit.commit_ack1 (commitOf cfg c x)

/-- Behind a CSR instruction nothing retires, and it is never compressed. -/
theorem alone_of_csr (hx : Fetched x) (hm : mayCommit c x = true)
    (hfu : (x.commitInstr 0).fu = .csr) :
    (out cfg c x).ack1 = false ∧ (x.commitInstr 0).isCompressed = false := by
  obtain ⟨hv, hex, -⟩ := valid_of_mayCommit hm
  constructor
  · rw [out_ack1, hfu]
    simp
  · rw [Bool.eq_false_iff]
    intro hc
    exact (IdStage.plain_of_compressed (hx 0) hc hv hex).1 hfu

/-- An AMO that is answered retires and asks for a refetch. -/
theorem amo_retires (hx : Fetched x) (hc : (machine cfg).Reachable c) (hm : mayCommit c x = true)
    (hamo : (x.commitInstr 0).op.isAmo = true) (hack : x.amoResp.ack = true) :
    (out cfg c x).ack0 = true ∧ (x.commitInstr 0).isCompressed = false ∧
      (x.commitInstr 0).fu = .store ∧ c.flushDcache = false ∧ (csrIn cfg c x).ex.valid = false := by
  obtain ⟨hv, hex, hh⟩ := valid_of_mayCommit hm
  have hfu : (x.commitInstr 0).fu = .store := Decoder.store_of_amo (hx 0).runs hamo
  have hne : (x.commitInstr 0).fu ≠ .csr := by
    rw [hfu]
    exact Fu.noConfusion
  refine ⟨?_, ?_, hfu, ?_, noEx_of_mayCommit hm hne⟩
  · refine (Commit.commit_ack0 (commitOf cfg c x)).trans ?_
    rw [mayCommit_eq, hm]
    simp [Commit.instr0, commitOf, commitIn, hamo, hack, rva]
  · rw [Bool.eq_false_iff]
    intro hc'
    have := (IdStage.plain_of_compressed (hx 0) hc' hv hex).2
    rw [hamo] at this
    cases this
  · rw [Bool.eq_false_iff]
    intro hf
    have := flush_halts hc hf
    rw [hh] at this
    cases this

/-- A fence that acts retires. -/
theorem fence_retires (hx : Fetched x) (hc : (machine cfg).Reachable c)
    (h : ((out cfg c x).fence || (out cfg c x).fenceI || (out cfg c x).sfenceVma) = true) :
    (out cfg c x).ack0 = true ∧ mayCommit c x = true ∧ (x.commitInstr 0).fu = .csr := by
  rw [out, Commit.commit_fence, Commit.commit_fenceI, Commit.commit_sfenceVma, mayCommit_eq] at h
  have hm : mayCommit c x = true := by
    by_contra hm
    simp [hm] at h
  have hfl : c.flushDcache = false := by
    rw [Bool.eq_false_iff]
    intro hf
    have := flush_halts hc hf
    rw [(valid_of_mayCommit hm).2.2] at this
    cases this
  have hcases : ((x.commitInstr 0).op = .fence ∨ (x.commitInstr 0).op = .fenceI ∨
      (x.commitInstr 0).op = .sfenceVma) ∧ x.noStPending = true := by
    simp only [hm, Commit.instr0, commitOf, commitIn, hfl, Bool.true_and, Bool.false_and,
      Bool.or_false, Bool.or_eq_true, Bool.and_eq_true, beq_iff_eq] at h
    rcases h with (h | h) | h
    · exact ⟨.inl h.1, h.2⟩
    · exact ⟨.inr (.inl h.1), h.2⟩
    · exact ⟨.inr (.inr h.1), h.2⟩
  obtain ⟨hop, hst⟩ := hcases
  refine ⟨?_, hm, ?_⟩
  · refine (Commit.commit_ack0 (commitOf cfg c x)).trans ?_
    rw [mayCommit_eq, hm]
    rcases hop with h | h | h <;>
      simp [Commit.instr0, commitOf, commitIn, h, hst, FuOp.isAmo]
  · refine Decoder.csr_of_fence (hx 0).runs ?_
    rcases hop with h | h | h
    · exact .inl h
    · exact .inr (.inl h)
    · exact .inr (.inr (.inl h))

/-- A CSR write with a side effect retires unless it is refused. -/
theorem csr_retires (hc : (machine cfg).Reachable c)
    (h : Csr.flushO cfg c.csr (csrIn cfg c x) = true) (hex : (csrIn cfg c x).ex.valid = false) :
    (out cfg c x).ack0 = true ∧ mayCommit c x = true ∧ (x.commitInstr 0).fu = .csr := by
  have hacc := Csr.access_of_flushO h
  rw [csrIn_csrOp] at hacc
  have hcc : csrCommits c x = true := by
    by_contra hn
    rw [if_neg hn] at hacc
    cases hacc
  rw [if_pos hcc] at hacc
  have hcc' : Commit.csrCommits (commitOf cfg c x) = true := by
    rw [commitOf, csrCommits_eq, hcc]
  have hok : (commitOf cfg c x).csrException.valid = false := by
    rw [Bool.eq_false_iff]
    intro hv
    have := Commit.exceptionO_of_csrException (commitOf cfg c x) hcc' hacc hv
    exact Bool.eq_false_iff.1 hex this
  have hm := ((Commit.csrCommits_iff _).1 hcc').1
  refine ⟨Commit.ack0_of_accepted _ (fun hf => flush_halts hc hf) hcc' (.inl hacc) hok, ?_, ?_⟩
  · exact hm
  · exact ((Commit.csrCommits_iff _).1 hcc').2

theorem refetchOK_iff (hc : (machine cfg).Reachable c) (hx : Fetched x) :
    RefetchOK cfg c x ↔ ¬AmoPair c x := by
  constructor
  · intro h hp
    obtain ⟨hack, -, hfu, hfl, hex⟩ := amo_retires hx hc hp.mayCommit hp.amo hp.ack
    have hne : (x.commitInstr 0).fu ≠ .csr := by
      rw [hfu]
      exact Fu.noConfusion
    have hone : (out cfg c x).ack1 = true := by
      rw [out_ack1, hack, hp.valid, hex, hfl, hp.noEx, hp.fu, hp.noStep,
        (valid_of_mayCommit hp.mayCommit).2.2]
      simp [hne]
    have hset : (ctrl cfg c x false).setPcCommit = true := by
      have hcommit : (out cfg c x).flushCommit = true := by
        refine (Commit.commit_flushCommit (commitOf cfg c x)).trans ?_
        rw [mayCommit_eq, hp.mayCommit]
        simp [Commit.instr0, commitOf, commitIn, hp.amo, hp.ack]
      unfold ctrl Controller.flushCtrl
      rw [redirect_of_not_csr hp.mayCommit hne, hp.noStep]
      simp [Controller.In.refetch, ctrlIn, hcommit]
    have := (h false hset).2.1
    rw [hone] at this
    cases this
  · intro h b hset
    unfold ctrl Controller.flushCtrl at hset
    simp only [Bool.and_eq_true, Bool.not_eq_true'] at hset
    obtain ⟨href, hred⟩ := hset
    have hex : (csrIn cfg c x).ex.valid = false := by
      simp only [Controller.In.redirect, ctrlIn, Bool.or_eq_false_iff] at hred
      exact hred.1.1
    simp only [Controller.In.refetch, ctrlIn] at href
    rw [Bool.or_eq_true, Bool.or_eq_true] at href
    rcases href with (hf | hcsr) | hamo
    · obtain ⟨hack, hm, hfu⟩ := fence_retires hx hc hf
      exact ⟨hack, alone_of_csr hx hm hfu⟩
    · obtain ⟨hack, hm, hfu⟩ := csr_retires hc hcsr hex
      exact ⟨hack, alone_of_csr hx hm hfu⟩
    · rw [out, Commit.commit_flushCommit, mayCommit_eq, Bool.and_eq_true, Bool.and_eq_true] at hamo
      obtain ⟨⟨hm, hop⟩, hresp⟩ := hamo
      obtain ⟨hack, hcomp, hfu, hfl, -⟩ := amo_retires hx hc hm hop hresp
      refine ⟨hack, ?_, hcomp⟩
      -- a second instruction that retires makes the pair
      rw [Bool.eq_false_iff]
      intro hone
      rw [out_ack1] at hone
      simp only [Bool.and_eq_true, Bool.not_eq_true'] at hone
      obtain ⟨⟨⟨⟨⟨⟨⟨⟨-, hv⟩, -⟩, -⟩, -⟩, hstep⟩, -⟩, hnx⟩, hf1⟩ := hone
      exact h ⟨hm, hop, hresp, hv, hnx, hf1, hstep⟩

/-- In a run from reset every refetch retires one instruction of four bytes exactly if
no AMO retires with a finished instruction behind it. -/
theorem refetch_iff (cfg : Cfg) (xs : List In)
    (hx : (machine cfg).Steps (fun _ x => Fetched x) reset xs) :
    (machine cfg).Steps (RefetchOK cfg) reset xs ↔
      (machine cfg).Steps (fun c x => ¬AmoPair c x) reset xs :=
  Machine.steps_congr_of_inv (P := (machine cfg).Reachable) (fun _ i hc _ => hc.next i)
    (fun _ _ hc hx => refetchOK_iff hc hx) xs reset ⟨reset, [], rfl, rfl⟩ hx

/-- `fence` right after reset. -/
def fenceEntry : ScoreboardEntry :=
  { ScoreboardEntry.empty with fu := .csr, op := .fence, valid := true }

theorem refetch_fence : (machine socCfg).Steps (RefetchOK socCfg) reset [In.single fenceEntry] := by
  have hd : IdStage.Decoded fenceEntry := ⟨fetch 0 0x0000000f false false, by decide⟩
  refine (refetch_iff socCfg [In.single fenceEntry] ⟨fetched_single hd, trivial⟩).2 ⟨?_, trivial⟩
  exact fun h => absurd h.amo (by decide)

/-- `amoadd.w x0, x0, (x0)` answered by the cache, and a finished `addi x0, x0, 0`. -/
def amoPairIn : In :=
  { In.idle with
    amoResp := ⟨true, 0⟩
    commitInstr := fun p =>
      if p = 0 then { ScoreboardEntry.empty with fu := .store, op := .amoAddw, valid := true }
      else { ScoreboardEntry.empty with pc := 4, fu := .alu, valid := true } }

/-- Both retire, and the second one is fetched again. -/
theorem amo_pair_not_refetchOK :
    (machine socCfg).Steps (fun _ x => Fetched x) reset [amoPairIn] ∧
      ¬(machine socCfg).Steps (RefetchOK socCfg) reset [amoPairIn] := by
  have h0 : IdStage.Decoded (amoPairIn.commitInstr 0) := ⟨fetch 0 0x0000202f false false, by decide⟩
  have h1 : IdStage.Decoded (amoPairIn.commitInstr 1) := ⟨fetch 4 0x00000013 false false, by decide⟩
  refine ⟨⟨fun p => ?_, trivial⟩, fun h => ?_⟩
  · match p with
    | 0 => exact h0
    | 1 => exact h1
  · exact absurd (h.1 false (by decide)).2.1 (by decide)

end Core
end Ariane

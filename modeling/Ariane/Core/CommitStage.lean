/-
# The commit stage

`src/commit_stage.sv`, two commit ports. The process `commit` is a block of
assignments on its outputs (`Out`); each paragraph of the source is one
definition, composed in the source's order. `exception_handling` reads
`amo_valid_commit_o`, which only the first port assigns, and the second port
reads `exception_o`: the three are evaluated in that order.

What the rest of the core relies on: the CSR file is asked for the operation of
a CSR instruction on the first port and nothing else (`commit_csrOp`), and an
instruction that raises an exception does not retire (`ack0_of_exception`).
-/
import Ariane.Pkg

namespace Ariane
namespace Commit

/-- The inputs of one cycle (`x` is the source's `x_i`). -/
structure In where
  halt : Bool
  flushDcache : Bool
  singleStep : Bool
  commitInstr : Fin 2 → ScoreboardEntry
  amoResp : AmoResp
  csrRdata : BitVec 64
  csrException : Exn
  commitLsuReady : Bool
  noStPending : Bool

/-- The outputs of the process `commit`; a suffix is the commit port. -/
structure Out where
  ack0 : Bool
  ack1 : Bool
  wdata0 : BitVec 64
  wdata1 : BitVec 64
  weGpr0 : Bool
  weGpr1 : Bool
  weFpr0 : Bool
  weFpr1 : Bool
  csrOp : FuOp
  csrWdata : BitVec 64
  csrWriteFflags : Bool
  commitLsu : Bool
  commitCsr : Bool
  amoValidCommit : Bool
  fenceI : Bool
  fence : Bool
  sfenceVma : Bool
  flushCommit : Bool

variable (x : In)

/-- The instruction on the first port. -/
def instr0 : ScoreboardEntry := x.commitInstr 0

/-- The instruction on the second port. -/
def instr1 : ScoreboardEntry := x.commitInstr 1

/-! ### The first port -/

def defaults : Out where
  ack0 := false
  ack1 := false
  wdata0 := if x.amoResp.ack then x.amoResp.result else (instr0 x).result
  wdata1 := (instr1 x).result
  weGpr0 := false
  weGpr1 := false
  weFpr0 := false
  weFpr1 := false
  csrOp := .add
  csrWdata := 0
  csrWriteFflags := false
  commitLsu := false
  commitCsr := false
  amoValidCommit := false
  fenceI := false
  fence := false
  sfenceVma := false
  flushCommit := false

/-- The first instruction is there, raised nothing, and the core is not halted. -/
def mayCommit : Bool := (instr0 x).valid && !(instr0 x).ex.valid && !x.halt

def commitWe (o : Out) : Out :=
  if (instr0 x).op.isRdFpr then { o with ack0 := true, weFpr0 := true }
  else { o with ack0 := true, weGpr0 := true }

/-- A store stalls while the store buffer is full. -/
def commitStore (o : Out) : Out :=
  if (instr0 x).fu = .store ∧ (instr0 x).op.isAmo = false then
    if x.commitLsuReady then { o with ack0 := true, commitLsu := true }
    else { o with ack0 := false }
  else o

/-- The flags an FPU instruction carries in its exception cause. -/
def fpuFlags (e : ScoreboardEntry) : BitVec 64 := (e.ex.cause.extractLsb' 0 5).setWidth 64

def commitFpu (o : Out) : Out :=
  if (instr0 x).fu.isFpu then
    { o with csrWdata := fpuFlags (instr0 x), csrWriteFflags := true, ack0 := true }
  else o

def commitCsr (o : Out) : Out :=
  if (instr0 x).fu = .csr then
    if x.csrException.valid then
      { o with csrOp := (instr0 x).op, csrWdata := (instr0 x).result, ack0 := false, weGpr0 := false }
    else
      { o with
        csrOp := (instr0 x).op
        csrWdata := (instr0 x).result
        commitCsr := true
        wdata0 := x.csrRdata
        ack0 := true }
  else o

def commitSfence (o : Out) : Out :=
  if (instr0 x).op = .sfenceVma then { o with sfenceVma := x.noStPending, ack0 := x.noStPending }
  else o

def commitFenceI (o : Out) : Out :=
  if (instr0 x).op = .fenceI ∨ (x.flushDcache = true ∧ (instr0 x).fu ≠ .store) then
    { o with ack0 := x.noStPending, fenceI := x.noStPending }
  else o

def commitFence (o : Out) : Out :=
  if (instr0 x).op = .fence then { o with ack0 := x.noStPending, fence := x.noStPending } else o

def commitAmo (o : Out) : Out :=
  if rva && (instr0 x).op.isAmo then
    { o with
      ack0 := x.amoResp.ack
      flushCommit := x.amoResp.ack
      amoValidCommit := true
      weGpr0 := x.amoResp.ack }
  else o

def commitPort0 : Out :=
  if mayCommit x then
    commitAmo x <| commitFence x <| commitFenceI x <| commitSfence x <| commitCsr x <|
      commitFpu x <| commitStore x <| commitWe x <| defaults x
  else defaults x

/-! ### Exceptions -/

/-- `exception_handling`: an exception the instruction brought along wins over
one of the CSR file; a halted core takes none. -/
def exceptionO : Exn :=
  let csr : Exn :=
    if x.csrException.valid && !(commitPort0 x).amoValidCommit then
      { x.csrException with tval := (instr0 x).ex.tval }
    else Exn.none
  let ex : Exn :=
    if (instr0 x).valid then if (instr0 x).ex.valid then (instr0 x).ex else csr else Exn.none
  if x.halt then { ex with valid := false } else ex

/-! ### The second port -/

def commitPort1 (o : Out) : Out :=
  if o.ack0 && (instr1 x).valid && !x.halt && (instr0 x).fu != .csr && !x.flushDcache &&
      !x.singleStep && !(exceptionO x).valid && !(instr1 x).ex.valid &&
      (instr1 x).fu.onSecondPort then
    let o : Out :=
      if (instr1 x).op.isRdFpr then { o with weFpr1 := true, ack1 := true }
      else { o with weGpr1 := true, ack1 := true }
    if (instr1 x).fu.isFpu then
      { o with
        csrWdata :=
          if o.csrWriteFflags then fpuFlags (instr0 x) ||| fpuFlags (instr1 x)
          else fpuFlags (instr1 x)
        csrWriteFflags := true }
    else o
  else o

/-- The process `commit`. -/
def commit : Out := commitPort1 x (commitPort0 x)

/-- `dirty_fp_state_o`. -/
def dirtyFpStateO : Bool :=
  (commit x).ack0 && ((instr0 x).fu.isFpu || (instr0 x).op.isRdFpr) ||
    (commit x).ack1 && ((instr1 x).fu.isFpu || (instr1 x).op.isRdFpr)

/-! ### What the CSR file sees -/

/-- The first port holds a CSR instruction that may commit. -/
def csrCommits : Bool := mayCommit x && (instr0 x).fu == .csr

theorem csrCommits_iff : csrCommits x = true ↔ mayCommit x = true ∧ (instr0 x).fu = .csr := by
  simp [csrCommits]

/-- Nothing commits while the cache is being flushed, if that halts the core. -/
theorem flushDcache_of_mayCommit (hf : x.flushDcache = true → x.halt = true)
    (hm : mayCommit x = true) : x.flushDcache = false := by
  rw [Bool.eq_false_iff]
  intro hfl
  simp [mayCommit, hf hfl] at hm

theorem commitPort1_csrOp (o : Out) : (commitPort1 x o).csrOp = o.csrOp := by
  unfold commitPort1
  split
  · split <;> split <;> rfl
  · rfl

theorem commitPort1_ack0 (o : Out) : (commitPort1 x o).ack0 = o.ack0 := by
  unfold commitPort1
  split
  · split <;> split <;> rfl
  · rfl

theorem commitPort1_of_csr (o : Out) (h : (instr0 x).fu = .csr) : commitPort1 x o = o := by
  unfold commitPort1
  rw [if_neg]
  simp [h]

/-- The outputs the fences and the AMOs leave alone. -/
theorem fences_keep (o : Out) :
    let o' := commitAmo x <| commitFence x <| commitFenceI x <| commitSfence x o
    o'.csrOp = o.csrOp ∧ o'.csrWdata = o.csrWdata ∧ o'.ack1 = o.ack1 := by
  unfold commitAmo commitFence commitFenceI commitSfence
  split <;> split <;> split <;> split <;> exact ⟨rfl, rfl, rfl⟩

/-- The outputs the paragraphs before the CSR logic leave alone. -/
theorem before_keep (o : Out) :
    let o' := commitFpu x <| commitStore x <| commitWe x o
    o'.csrOp = o.csrOp ∧ o'.ack1 = o.ack1 := by
  have hwe (o : Out) : (commitWe x o).csrOp = o.csrOp ∧ (commitWe x o).ack1 = o.ack1 := by
    unfold commitWe
    split <;> exact ⟨rfl, rfl⟩
  have hst (o : Out) : (commitStore x o).csrOp = o.csrOp ∧ (commitStore x o).ack1 = o.ack1 := by
    unfold commitStore
    split
    · split <;> exact ⟨rfl, rfl⟩
    · exact ⟨rfl, rfl⟩
  have hfp (o : Out) : (commitFpu x o).csrOp = o.csrOp ∧ (commitFpu x o).ack1 = o.ack1 := by
    unfold commitFpu
    split <;> exact ⟨rfl, rfl⟩
  exact ⟨by rw [(hfp _).1, (hst _).1, (hwe _).1], by rw [(hfp _).2, (hst _).2, (hwe _).2]⟩

/-- The operation on the CSR file: that of a CSR instruction on the first port. -/
theorem commit_csrOp : (commit x).csrOp = if csrCommits x then (instr0 x).op else .add := by
  rw [commit, commitPort1_csrOp, commitPort0, csrCommits]
  by_cases hm : mayCommit x = true
  · rw [if_pos hm, (fences_keep x _).1, hm, Bool.true_and, commitCsr]
    by_cases hf : (instr0 x).fu = .csr
    · rw [if_pos hf, if_pos (beq_iff_eq.2 hf)]
      split <;> rfl
    · rw [if_neg hf, (before_keep x _).1, if_neg (by simpa using hf)]
      rfl
  · rw [if_neg hm, if_neg (by simp [hm])]
    rfl

theorem commit_csrWdata (h : csrCommits x = true) : (commit x).csrWdata = (instr0 x).result := by
  obtain ⟨hm, hf⟩ := (csrCommits_iff x).1 h
  rw [commit, commitPort1_of_csr x _ hf, commitPort0, if_pos hm, (fences_keep x _).2.1, commitCsr,
    if_pos hf]
  split <;> rfl

/-! ### Exceptions and retirement -/

/-- Where an exception of the commit stage comes from. -/
theorem exceptionO_cases (h : (exceptionO x).valid = true) :
    x.halt = false ∧ (instr0 x).valid = true ∧
      ((instr0 x).ex.valid = true ∧ exceptionO x = (instr0 x).ex ∨
        (instr0 x).ex.valid = false ∧ x.csrException.valid = true ∧
          exceptionO x = { x.csrException with tval := (instr0 x).ex.tval }) := by
  have hhalt : x.halt = false := by
    rw [Bool.eq_false_iff]
    intro hh
    simp [exceptionO, hh] at h
  have hvalid : (instr0 x).valid = true := by
    by_contra hv
    simp [exceptionO, hhalt, hv, Exn.none] at h
  refine ⟨hhalt, hvalid, ?_⟩
  by_cases hex : (instr0 x).ex.valid = true
  · exact .inl ⟨hex, by simp [exceptionO, hhalt, hvalid, hex]⟩
  · rw [Bool.not_eq_true] at hex
    refine .inr ⟨hex, ?_⟩
    by_cases hc : (x.csrException.valid && !(commitPort0 x).amoValidCommit) = true
    · refine ⟨(Bool.and_eq_true_iff.1 hc).1, ?_⟩
      simp [exceptionO, hhalt, hvalid, hex, hc]
    · simp [exceptionO, hhalt, hvalid, hex, hc, Exn.none] at h

/-- A CSR access the CSR file refuses does not retire. -/
theorem ack0_of_csrException (hf : x.flushDcache = true → x.halt = true)
    (hc : csrCommits x = true) (hop : (instr0 x).op.isCsrAccess = true)
    (h : x.csrException.valid = true) : (commit x).ack0 = false := by
  obtain ⟨hm, hfu⟩ := (csrCommits_iff x).1 hc
  have hflush := flushDcache_of_mayCommit x hf hm
  have hne := FuOp.not_fence_of_csr (.inl hop)
  rw [commit, commitPort1_ack0, commitPort0, if_pos hm]
  simp [commitAmo, commitFence, commitFenceI, commitSfence, commitCsr, hne, hfu, h, hflush]

/-- An instruction that raises an exception does not retire. -/
theorem ack0_of_exception (hf : x.flushDcache = true → x.halt = true)
    (hcsr : x.csrException.valid = true → csrCommits x = true ∧ (instr0 x).op.isCsrAccess = true)
    (h : (exceptionO x).valid = true) : (commit x).ack0 = false := by
  obtain ⟨-, -, ⟨hex, -⟩ | ⟨-, hc, -⟩⟩ := exceptionO_cases x h
  · have hm : mayCommit x = false := by simp [mayCommit, hex]
    rw [commit, commitPort1_ack0, commitPort0, hm]
    rfl
  · obtain ⟨hcc, hop⟩ := hcsr hc
    exact ack0_of_csrException x hf hcc hop hc

/-- A CSR access or a return that the CSR file accepts retires. -/
theorem ack0_of_accepted (hf : x.flushDcache = true → x.halt = true) (hc : csrCommits x = true)
    (hop : (instr0 x).op.isCsrAccess = true ∨ (instr0 x).op.isReturn = true)
    (h : x.csrException.valid = false) : (commit x).ack0 = true := by
  obtain ⟨hm, hfu⟩ := (csrCommits_iff x).1 hc
  have hflush := flushDcache_of_mayCommit x hf hm
  have hne := FuOp.not_fence_of_csr hop
  rw [commit, commitPort1_ack0, commitPort0, if_pos hm]
  simp [commitAmo, commitFence, commitFenceI, commitSfence, commitCsr, hne, hfu, h, hflush]

/-- A refused CSR access is an exception of the commit stage. -/
theorem exceptionO_of_csrException (hc : csrCommits x = true)
    (hop : (instr0 x).op.isCsrAccess = true) (h : x.csrException.valid = true) :
    (exceptionO x).valid = true := by
  obtain ⟨hm, hfu⟩ := (csrCommits_iff x).1 hc
  obtain ⟨⟨hv, hex⟩, hh⟩ : ((instr0 x).valid = true ∧ (instr0 x).ex.valid = false) ∧ x.halt = false := by
    simpa [mayCommit] using hm
  have hne := FuOp.not_fence_of_csr (.inl hop)
  have hwe (o : Out) : (commitWe x o).amoValidCommit = o.amoValidCommit := by
    unfold commitWe
    split <;> rfl
  have hamo : (commitPort0 x).amoValidCommit = false := by
    rw [commitPort0, if_pos hm]
    by_cases hflush : x.flushDcache = true
    · simp [commitAmo, commitFence, commitFenceI, commitSfence, commitCsr, commitFpu, commitStore,
        hne, hfu, h, hflush, hwe, defaults, Fu.isFpu]
    · simp [commitAmo, commitFence, commitFenceI, commitSfence, commitCsr, commitFpu, commitStore,
        hne, hfu, h, hflush, hwe, defaults, Fu.isFpu]
  simp [exceptionO, hh, hv, hex, h, hamo]

theorem commitPort0_ack1 : (commitPort0 x).ack1 = false := by
  have hcsr (o : Out) : (commitCsr x o).ack1 = o.ack1 := by
    unfold commitCsr
    split
    · split <;> rfl
    · rfl
  unfold commitPort0
  split
  · rw [(fences_keep x _).2.2, hcsr, (before_keep x _).2]
    rfl
  · rfl

/-- The second port retires only behind the first, and never while stepping. -/
theorem ack0_of_ack1 (h : (commit x).ack1 = true) : (commit x).ack0 = true ∧ x.singleStep = false := by
  rw [commit, commitPort1_ack0]
  unfold commit commitPort1 at h
  split at h
  · next hc =>
    simp only [Bool.and_eq_true, Bool.not_eq_true'] at hc
    exact ⟨hc.1.1.1.1.1.1.1.1, hc.1.1.1.2⟩
  · rw [commitPort0_ack1] at h
    cases h

/-- A fence acts only when the first instruction may commit. -/
theorem mayCommit_of_fence (h : ((commit x).fence || (commit x).fenceI) = true) :
    mayCommit x = true := by
  have h1 (o : Out) : (commitPort1 x o).fence = o.fence ∧ (commitPort1 x o).fenceI = o.fenceI := by
    unfold commitPort1
    split
    · split <;> split <;> exact ⟨rfl, rfl⟩
    · exact ⟨rfl, rfl⟩
  by_contra hm
  rw [commit, (h1 _).1, (h1 _).2, commitPort0, if_neg hm] at h
  cases h

/-! ### The outputs, one by one -/

/-- The outputs the second port leaves alone. -/
theorem commitPort1_keep (o : Out) :
    (commitPort1 x o).commitLsu = o.commitLsu ∧ (commitPort1 x o).commitCsr = o.commitCsr ∧
      (commitPort1 x o).fence = o.fence ∧ (commitPort1 x o).fenceI = o.fenceI ∧
      (commitPort1 x o).sfenceVma = o.sfenceVma ∧ (commitPort1 x o).flushCommit = o.flushCommit ∧
      (commitPort1 x o).weGpr0 = o.weGpr0 ∧ (commitPort1 x o).weFpr0 = o.weFpr0 := by
  unfold commitPort1
  split
  · split <;> split <;> exact ⟨rfl, rfl, rfl, rfl, rfl, rfl, rfl, rfl⟩
  · exact ⟨rfl, rfl, rfl, rfl, rfl, rfl, rfl, rfl⟩

/-- The first instruction retires unless its class stalls it. -/
theorem commit_ack0 : (commit x).ack0 = (mayCommit x &&
    if rva && (instr0 x).op.isAmo then x.amoResp.ack
    else if (instr0 x).op = .fence then x.noStPending
    else if (instr0 x).op = .fenceI ∨ (x.flushDcache = true ∧ (instr0 x).fu ≠ .store) then x.noStPending
    else if (instr0 x).op = .sfenceVma then x.noStPending
    else if (instr0 x).fu = .csr then !x.csrException.valid
    else if (instr0 x).fu.isFpu then true
    else if (instr0 x).fu = .store ∧ (instr0 x).op.isAmo = false then x.commitLsuReady
    else true) := by
  rw [commit, commitPort1_ack0]
  unfold commitPort0 commitAmo commitFence commitFenceI commitSfence commitCsr commitFpu commitStore
    commitWe
  simp only [apply_ite Out.ack0, defaults]
  cases mayCommit x
  · rfl
  · cases x.csrException.valid <;> cases x.commitLsuReady <;> simp

theorem commit_commitLsu : (commit x).commitLsu =
    (mayCommit x && (instr0 x).fu == .store && !(instr0 x).op.isAmo && x.commitLsuReady) := by
  rw [commit, (commitPort1_keep x _).1]
  unfold commitPort0 commitAmo commitFence commitFenceI commitSfence commitCsr commitFpu commitStore
    commitWe
  simp only [apply_ite Out.commitLsu, defaults]
  cases mayCommit x
  · rfl
  · cases (instr0 x).op.isAmo <;> cases x.commitLsuReady <;> cases (instr0 x).fu <;> simp

theorem commit_fence : (commit x).fence =
    (mayCommit x && (instr0 x).op == .fence && x.noStPending) := by
  rw [commit, (commitPort1_keep x _).2.2.1]
  unfold commitPort0 commitAmo commitFence commitFenceI commitSfence commitCsr commitFpu commitStore
    commitWe
  simp only [apply_ite Out.fence, defaults]
  cases mayCommit x
  · rfl
  · by_cases h : (instr0 x).op = .fence <;> simp [h]

theorem commit_fenceI : (commit x).fenceI = (mayCommit x &&
    ((instr0 x).op == .fenceI || x.flushDcache && (instr0 x).fu != .store) && x.noStPending) := by
  rw [commit, (commitPort1_keep x _).2.2.2.1]
  unfold commitPort0 commitAmo commitFence commitFenceI commitSfence commitCsr commitFpu commitStore
    commitWe
  simp only [apply_ite Out.fenceI, defaults]
  cases mayCommit x
  · rfl
  · by_cases h : (instr0 x).op = .fenceI ∨ (x.flushDcache = true ∧ (instr0 x).fu ≠ .store)
    · have h' : ((instr0 x).op == .fenceI || x.flushDcache && (instr0 x).fu != .store) = true := by
        simpa using h
      simp [h, h']
    · have h' : ((instr0 x).op == .fenceI || x.flushDcache && (instr0 x).fu != .store) = false := by
        simpa using h
      simp [h, h']

theorem commit_sfenceVma : (commit x).sfenceVma =
    (mayCommit x && (instr0 x).op == .sfenceVma && x.noStPending) := by
  rw [commit, (commitPort1_keep x _).2.2.2.2.1]
  unfold commitPort0 commitAmo commitFence commitFenceI commitSfence commitCsr commitFpu commitStore
    commitWe
  simp only [apply_ite Out.sfenceVma, defaults]
  cases mayCommit x
  · rfl
  · by_cases h : (instr0 x).op = .sfenceVma <;> simp [h]

theorem commit_flushCommit : (commit x).flushCommit =
    (mayCommit x && (instr0 x).op.isAmo && x.amoResp.ack) := by
  rw [commit, (commitPort1_keep x _).2.2.2.2.2.1]
  unfold commitPort0 commitAmo commitFence commitFenceI commitSfence commitCsr commitFpu commitStore
    commitWe
  simp only [apply_ite Out.flushCommit, defaults]
  cases mayCommit x
  · rfl
  · cases (instr0 x).op.isAmo <;> simp [rva]

theorem commit_commitCsr : (commit x).commitCsr =
    (mayCommit x && (instr0 x).fu == .csr && !x.csrException.valid) := by
  rw [commit, (commitPort1_keep x _).2.1]
  unfold commitPort0 commitAmo commitFence commitFenceI commitSfence commitCsr commitFpu commitStore
    commitWe
  simp only [apply_ite Out.commitCsr, defaults]
  cases mayCommit x
  · rfl
  · by_cases h : (instr0 x).fu = .csr <;> cases x.csrException.valid <;> simp [h]

theorem commit_weGpr0 : (commit x).weGpr0 = (mayCommit x &&
    if (instr0 x).op.isAmo then x.amoResp.ack
    else !(instr0 x).op.isRdFpr && !((instr0 x).fu == .csr && x.csrException.valid)) := by
  rw [commit, (commitPort1_keep x _).2.2.2.2.2.2.1]
  unfold commitPort0 commitAmo commitFence commitFenceI commitSfence commitCsr commitFpu commitStore
    commitWe
  simp only [apply_ite Out.weGpr0, defaults]
  cases mayCommit x
  · rfl
  · by_cases h : (instr0 x).fu = .csr <;> cases x.csrException.valid <;>
      cases (instr0 x).op.isAmo <;> cases (instr0 x).op.isRdFpr <;> simp [h, rva]

theorem commit_weFpr0 : (commit x).weFpr0 = (mayCommit x && (instr0 x).op.isRdFpr) := by
  rw [commit, (commitPort1_keep x _).2.2.2.2.2.2.2]
  unfold commitPort0 commitAmo commitFence commitFenceI commitSfence commitCsr commitFpu commitStore
    commitWe
  simp only [apply_ite Out.weFpr0, defaults]
  cases mayCommit x
  · rfl
  · cases (instr0 x).op.isRdFpr <;> simp

theorem commitPort0_fflags : (commitPort0 x).csrWriteFflags = (mayCommit x && (instr0 x).fu.isFpu) ∧
    ((commitPort0 x).csrWriteFflags = true → (commitPort0 x).csrWdata = fpuFlags (instr0 x)) := by
  unfold commitPort0 commitAmo commitFence commitFenceI commitSfence commitCsr commitFpu commitStore
    commitWe
  simp only [apply_ite Out.csrWriteFflags, apply_ite Out.csrWdata, defaults]
  cases mayCommit x
  · simp
  · by_cases h : (instr0 x).fu = .csr
    · simp [h, Fu.isFpu]
    · cases (instr0 x).fu.isFpu <;> simp [h]

/-- What the second port writes when it retires. -/
theorem commitPort1_writes : (commit x).weGpr1 = ((commit x).ack1 && !(instr1 x).op.isRdFpr) ∧
    (commit x).weFpr1 = ((commit x).ack1 && (instr1 x).op.isRdFpr) := by
  have h0 : (commitPort0 x).weGpr1 = false ∧ (commitPort0 x).weFpr1 = false := by
    unfold commitPort0 commitAmo commitFence commitFenceI commitSfence commitCsr commitFpu
      commitStore commitWe
    simp only [apply_ite Out.weGpr1, apply_ite Out.weFpr1, defaults]
    simp
  have h1 := commitPort0_ack1 x
  unfold commit commitPort1
  split
  · cases (instr1 x).op.isRdFpr <;> cases (instr1 x).fu.isFpu <;> simp [h0]
  · simp [h0, h1]

/-- The second instruction retires behind the first one. -/
theorem commit_ack1 : (commit x).ack1 = ((commit x).ack0 && (instr1 x).valid && !x.halt &&
    (instr0 x).fu != .csr && !x.flushDcache && !x.singleStep && !(exceptionO x).valid &&
    !(instr1 x).ex.valid && (instr1 x).fu.onSecondPort) := by
  rw [commit, commitPort1_ack0]
  unfold commitPort1
  split
  · rename_i h
    rw [h]
    split <;> split <;> rfl
  · rename_i h
    rw [commitPort0_ack1]
    exact (Bool.eq_false_iff.2 h).symm

/-- The flags the second port adds. -/
theorem commit_fflags :
    (commit x).csrWriteFflags =
      ((commitPort0 x).csrWriteFflags || (commit x).ack1 && (instr1 x).fu.isFpu) ∧
    (commit x).csrWdata = if (commit x).ack1 && (instr1 x).fu.isFpu then
      (if (commitPort0 x).csrWriteFflags then fpuFlags (instr0 x) ||| fpuFlags (instr1 x)
        else fpuFlags (instr1 x))
      else (commitPort0 x).csrWdata := by
  have h1 := commitPort0_ack1 x
  unfold commit commitPort1
  split
  · cases (instr1 x).op.isRdFpr <;> cases (instr1 x).fu.isFpu <;> simp
  · simp [h1]

end Commit
end Ariane

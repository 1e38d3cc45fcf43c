/-
# Single step

DRET with `dcsr.step` set is to run one instruction and to come back: cycles in
which nothing retires or traps (`Quiet`), then one in which the stepped
instruction does (`Stepped`), and right after it debug mode again, with the
address of the next instruction in `dpc` and its level in `dcsr.prv`
(`StepOK`).

The CSR file comes back when the first commit port retires. An instruction that
traps does not retire, so the step runs on into the handler; and the block that
stores `dpc` reads `eret` before the returns assign it, so after MRET and SRET
it stores the address and the level of an instruction that simply follows.
`single_step_iff` says that this is all that goes wrong.
-/
import Ariane.Core.Debug
import Ariane.Core.Branch

namespace Ariane
namespace Core

open Riscv Lib
open Csr (Mode EntersDebug)
open Branch (FuData isaTarget writeBack)

variable {cfg : Cfg} {c : State} {x y : In}

/-! ### The law -/

/-- Nothing retires and nothing traps. -/
def Quiet (cfg : Cfg) (c : State) (x : In) : Prop :=
  (out cfg c x).ack0 = false ∧ (csrIn cfg c x).ex.valid = false

/-- An instruction retires or traps, and it is not an interrupt or a debug entry
that happens to it. -/
structure Stepped (cfg : Cfg) (c : State) (y : In) : Prop where
  event : (out cfg c y).ack0 = true ∨ (csrIn cfg c y).ex.valid = true
  noIrq : (csrIn cfg c y).ex.valid = true → (csrIn cfg c y).ex.cause.getLsbD 63 = false
  noDebug : (csrIn cfg c y).ex.valid = true → ¬EntersDebug c.csr (csrIn cfg c y)

/-- The pc after the instruction on the first port, by the instruction set; `e`
is its entry before write back and `d` its operands. -/
def archNextPc (cfg : Cfg) (d : FuData) (e : ScoreboardEntry) (c : State) (y : In) : BitVec 64 :=
  if (csrIn cfg c y).ex.valid then Csr.trapVectorBaseO cfg c.csr (csrIn cfg c y)
  else match (csrIn cfg c y).csrOp with
    | .mret => c.csr.mepc
    | .sret => c.csr.sepc
    | .dret => c.csr.dpc
    | _ => if (y.commitInstr 0).fu = .ctrlFlow then isaTarget d e else (y.commitInstr 0).nextPc

/-- The step ends: one instruction, debug mode again, with what it resumes at. -/
structure StepOK (cfg : Cfg) (d : FuData) (e : ScoreboardEntry) (c : State) (y : In) : Prop where
  debugMode : (next cfg c y).csr.debugMode = true
  one : (out cfg c y).ack1 = false
  dpc : (next cfg c y).csr.dpc = archNextPc cfg d e c y
  prv : (next cfg c y).csr.dcsr.prv = (next cfg c y).csr.privLvl

/-- The stepped instruction raises nothing, is not a DRET, and if it is another
return it goes to the following instruction at the same level. -/
structure StepClean (cfg : Cfg) (c : State) (y : In) : Prop where
  noEx : (csrIn cfg c y).ex.valid = false
  noDret : (csrIn cfg c y).csrOp ≠ .dret
  ret : ∀ T : Mode, (csrIn cfg c y).csrOp = T.ret →
    ((Csr.trapCsrs c.csr).get T).epc = (y.commitInstr 0).nextPc ∧
      ((Csr.statusStacks c.csr.mstatus).get T).pp = c.csr.privLvl

/-! ### Quiet cycles -/

/-- In a quiet cycle the CSR file is asked for nothing it would do. -/
theorem quiet_csrOp (hc : (machine cfg).Reachable c) (hq : Quiet cfg c x) :
    (csrIn cfg c x).csrOp.isCsrAccess = false ∧ (csrIn cfg c x).csrOp.isReturn = false := by
  obtain ⟨hack, hex⟩ := hq
  rw [csrIn_csrOp]
  by_cases hcc : csrCommits c x = true
  · rw [if_pos hcc]
    have hcc' : Commit.csrCommits (commitOf cfg c x) = true := by rw [commitOf, csrCommits_eq, hcc]
    have hnex : (commitOf cfg c x).csrException.valid = false := by
      rw [Bool.eq_false_iff]
      intro hv
      have h := Commit.exceptionO_of_csrException _ hcc' (access_of_csrException hv).2 hv
      have h' : (csrIn cfg c x).ex.valid = true := h
      rw [hex] at h'
      cases h'
    by_contra hn
    have hop : (x.commitInstr 0).op.isCsrAccess = true ∨ (x.commitInstr 0).op.isReturn = true := by
      cases h1 : (x.commitInstr 0).op.isCsrAccess
      · cases h2 : (x.commitInstr 0).op.isReturn
        · exact absurd ⟨h1, h2⟩ hn
        · exact .inr rfl
      · exact .inl rfl
    have h := Commit.ack0_of_accepted _ (fun hf => flush_halts hc hf) hcc' hop hnex
    have h' : (out cfg c x).ack0 = true := h
    rw [hack] at h'
    cases h'
  · rw [if_neg hcc]
    exact ⟨rfl, rfl⟩

/-- While stepping: outside debug mode, with `dcsr.step` set. -/
def Stepping (c : State) : Prop := c.csr.debugMode = false ∧ c.csr.dcsr.step = true

theorem stepping_quiet (hc : (machine cfg).Reachable c) (h : Stepping c) (hq : Quiet cfg c x) :
    Stepping (next cfg c x) := by
  obtain ⟨hd, hstep⟩ := h
  obtain ⟨hacc, hret⟩ := quiet_csrOp hc hq
  have hack : (csrIn cfg c x).commitAck 0 = false := hq.1
  have hw : Csr.ctxWritten c.csr (csrIn cfg c x) = Csr.ctx c.csr := Csr.ctxWritten_of_not_access hacc
  have ht : Csr.trapTaken c.csr (csrIn cfg c x) = false := by simp [Csr.trapTaken, hq.2]
  have hctx : Csr.ctx (next cfg c x).csr =
      { Csr.ctx c.csr with dcsr := { c.csr.dcsr with prv := Csr.privLvlO c.csr } } := by
    show Csr.ctx (Csr.next cfg c.csr (csrIn cfg c x)) = _
    rw [Csr.ctx_next, hw, Csr.ctxTrap, ht, Csr.ctxReturn_of_not_return hret]
    simp only [Csr.ctxDebug, Csr.ctxSingleStep, Csr.ctxDebugReq, Csr.ctxEbreak, hd, hack, hq.2,
      Bool.and_false, Bool.false_and, Bool.false_eq_true, if_false]
    rfl
  refine ⟨(congrArg Csr.Ctx.debugMode hctx).trans hd, ?_⟩
  exact (congrArg (fun z => (Csr.Ctx.dcsr z).step) hctx).trans hstep

/-- DRET with `dcsr.step` starts a step. -/
theorem stepping_dret (hdbg : c.csr.debugMode = true) (hstep : c.csr.dcsr.step = true)
    (hop : (csrIn cfg c x).csrOp = .dret) : Stepping (next cfg c x) := by
  have hw : Csr.ctxWritten c.csr (csrIn cfg c x) = Csr.ctx c.csr :=
    Csr.ctxWritten_of_not_access (by rw [hop]; rfl)
  have hctx : Csr.ctx (next cfg c x).csr =
      { Csr.ctx c.csr with privLvl := c.csr.dcsr.prv, debugMode := false } := by
    show Csr.ctx (Csr.next cfg c.csr (csrIn cfg c x)) = _
    have ht : Csr.trapTaken c.csr (csrIn cfg c x) = false := by simp [Csr.trapTaken, hdbg]
    rw [Csr.ctx_next, hw, Csr.ctxTrap, ht, Csr.ctxDebug, if_pos hdbg]
    simp only [Csr.ctxReturn, hop]
    rfl
  exact ⟨congrArg Csr.Ctx.debugMode hctx,
    (congrArg (fun z => (Csr.Ctx.dcsr z).step) hctx).trans hstep⟩

/-- A step goes on over quiet cycles. -/
theorem stepping_run : ∀ (xs : List In) (c : State), (machine cfg).Reachable c → Stepping c →
    (machine cfg).Steps (Quiet cfg) c xs → Stepping ((machine cfg).run c xs)
  | [], _, _, h, _ => h
  | x :: xs, c, hc, h, hs =>
    stepping_run xs (next cfg c x) (hc.next x) (stepping_quiet hc h hs.1) hs.2

/-! ### The stepped instruction -/

/-- A trap does not end the step. -/
theorem not_debugMode_of_trap (hc : (machine cfg).Reachable c) (h : Stepping c)
    (hs : Stepped cfg c y) (hex : (csrIn cfg c y).ex.valid = true) :
    (next cfg c y).csr.debugMode = false := by
  obtain ⟨hack, hw, hret⟩ := exception_cycle hc hex
  exact Csr.debugMode_next_of_trap cfg h.1 hex (hs.noDebug hex) hack hw hret

/-- The debug registers after an instruction that retires while stepping. -/
theorem retire_next (h : Stepping c) (hack : (out cfg c y).ack0 = true) :
    (next cfg c y).csr.dpc = Csr.stepDpc cfg c.csr (csrIn cfg c y) ∧
      (next cfg c y).csr.dcsr.prv = c.csr.privLvl ∧
      ((csrIn cfg c y).csrOp ≠ .dret → (next cfg c y).csr.debugMode = true) := by
  obtain ⟨hd, hstep⟩ := h
  have hack' : (csrIn cfg c y).commitAck 0 = true := hack
  have hO : Csr.privLvlO c.csr = c.csr.privLvl := by simp [Csr.privLvlO, hd]
  have hdbg (z : Csr.Ctx) : (Csr.ctxDebug cfg c.csr (csrIn cfg c y) z).dpc =
      Csr.stepDpc cfg c.csr (csrIn cfg c y) ∧
      (Csr.ctxDebug cfg c.csr (csrIn cfg c y) z).debugMode = true := by
    simp only [Csr.ctxDebug, Csr.ctxSingleStep, hd, hstep, hack', Bool.and_self, Bool.false_eq_true,
      if_false, if_true, and_self]
  have hctx := Csr.ctx_next cfg c.csr (csrIn cfg c y)
  refine ⟨?_, ?_, ?_⟩
  · refine (congrArg Csr.Ctx.dpc hctx).trans ?_
    rw [Csr.ctxReturn_dpc]
    exact (hdbg _).1
  · refine (congrArg (fun z => (Csr.Ctx.dcsr z).prv) hctx).trans ?_
    simp only [Csr.ctxReturn_dcsr, Csr.ctxDebug_prv, hd, hO, Bool.false_eq_true, if_false]
  · intro hne
    refine (congrArg Csr.Ctx.debugMode hctx).trans ?_
    unfold Csr.ctxReturn
    split
    · exact (hdbg _).2
    · exact (hdbg _).2
    · next h => exact absurd h hne
    · exact (hdbg _).2

/-- The privilege level after an instruction that neither traps nor returns. -/
theorem privLvl_next (hex : (csrIn cfg c y).ex.valid = false)
    (hret : (csrIn cfg c y).csrOp.isReturn = false) :
    (next cfg c y).csr.privLvl = c.csr.privLvl := by
  have ht : Csr.trapTaken c.csr (csrIn cfg c y) = false := by simp [Csr.trapTaken, hex]
  refine (congrArg Csr.Ctx.privLvl (Csr.ctx_next cfg c.csr (csrIn cfg c y))).trans ?_
  rw [Csr.ctxReturn_of_not_return hret, Csr.ctxDebug_privLvl, Csr.ctxTrap, ht]
  exact Csr.ctxWritten_privLvl c.csr (csrIn cfg c y)

/-- A return is a CSR instruction, so the step stores the pc behind it. -/
theorem stepDpc_of_ret {T : Mode} (hex : (csrIn cfg c y).ex.valid = false)
    (h : (csrIn cfg c y).csrOp = T.ret) :
    Csr.stepDpc cfg c.csr (csrIn cfg c y) = (y.commitInstr 0).nextPc := by
  have hfu : (y.commitInstr 0).fu = .csr := by
    have hcc : csrCommits c y = true := by
      by_contra hn
      rw [csrIn_csrOp, if_neg hn] at h
      cases T <;> cases h
    simp only [csrCommits, Bool.and_eq_true, beq_iff_eq] at hcc
    exact hcc.2
  have hne : ¬((csrIn cfg c y).commitInstr 0).fu = .ctrlFlow := by
    show ¬(y.commitInstr 0).fu = .ctrlFlow
    rw [hfu]
    decide
  rw [Csr.stepDpc, if_neg hne, hex]
  rfl

theorem archNextPc_of_ret {T : Mode} (d : FuData) (e : ScoreboardEntry)
    (hex : (csrIn cfg c y).ex.valid = false) (h : (csrIn cfg c y).csrOp = T.ret) :
    archNextPc cfg d e c y = ((Csr.trapCsrs c.csr).get T).epc := by
  unfold archNextPc
  rw [hex, h]
  cases T <;> rfl

/-- Of an instruction that neither traps nor returns the step stores the
architectural next pc. -/
theorem stepDpc_eq_archNextPc {d : FuData} {e : ScoreboardEntry}
    (hex : (csrIn cfg c y).ex.valid = false) (hret : (csrIn cfg c y).csrOp.isReturn = false)
    (hwb : (y.commitInstr 0).fu = .ctrlFlow → y.commitInstr 0 = writeBack d e) :
    Csr.stepDpc cfg c.csr (csrIn cfg c y) = archNextPc cfg d e c y := by
  have harch : archNextPc cfg d e c y =
      if (y.commitInstr 0).fu = .ctrlFlow then isaTarget d e else (y.commitInstr 0).nextPc := by
    unfold archNextPc
    rw [hex]
    cases hi : (csrIn cfg c y).csrOp <;> first | rfl | (rw [hi] at hret; cases hret)
  rw [harch, Csr.stepDpc, hex]
  show (if (y.commitInstr 0).fu = .ctrlFlow then (y.commitInstr 0).bp.predictAddress
    else (y.commitInstr 0).nextPc) = _
  by_cases hcf : (y.commitInstr 0).fu = .ctrlFlow
  · rw [if_pos hcf, if_pos hcf, hwb hcf, Branch.predictAddress_writeBack]
  · rw [if_neg hcf, if_neg hcf]

/-- What a step over one instruction does is what the law says exactly when the
instruction raises nothing, is not a DRET, and if it is another return goes to the
following instruction at the same level. -/
theorem stepOK_iff {d : FuData} {e : ScoreboardEntry} (hc : (machine cfg).Reachable c)
    (h : Stepping c) (hs : Stepped cfg c y)
    (hwb : (y.commitInstr 0).fu = .ctrlFlow → y.commitInstr 0 = writeBack d e) :
    StepOK cfg d e c y ↔ StepClean cfg c y := by
  constructor
  · intro hok
    have hex : (csrIn cfg c y).ex.valid = false := by
      rw [Bool.eq_false_iff]
      intro hex
      have hd := not_debugMode_of_trap hc h hs hex
      rw [hok.debugMode] at hd
      cases hd
    have hack : (out cfg c y).ack0 = true := by
      rcases hs.event with hack | hex'
      · exact hack
      · rw [hex] at hex'
        cases hex'
    obtain ⟨hdpc, hprv, -⟩ := retire_next h hack
    refine ⟨hex, ?_, ?_⟩
    · intro hdret
      have hd : (next cfg c y).csr.debugMode = false := (Csr.dret_next cfg c.csr hdret).1
      rw [hok.debugMode] at hd
      cases hd
    · intro T hT
      have hres := Csr.resumed_of_ret cfg c.csr hT
      constructor
      · rw [← archNextPc_of_ret d e hex hT, ← hok.dpc, hdpc, stepDpc_of_ret hex hT]
      · have hpp : (next cfg c y).csr.privLvl = _ := hres.privLvl
        rw [← hprv, hok.prv, hpp]
        rfl
  · rintro ⟨hex, hdret, hT⟩
    have hack : (out cfg c y).ack0 = true := by
      rcases hs.event with hack | hex'
      · exact hack
      · rw [hex] at hex'
        cases hex'
    obtain ⟨hdpc, hprv, hmode⟩ := retire_next h hack
    have hone : (out cfg c y).ack1 = false := by
      rw [Bool.eq_false_iff]
      intro h1
      have hstep : c.csr.dcsr.step = false := (Commit.ack0_of_ack1 _ h1).2
      rw [h.2] at hstep
      cases hstep
    rcases Csr.return_cases (csrIn cfg c y).csrOp with hr | ⟨T, hr⟩ | hr
    · exact absurd hr hdret
    · obtain ⟨hepc, hpp⟩ := hT T hr
      refine ⟨hmode hdret, hone, ?_, ?_⟩
      · rw [hdpc, stepDpc_of_ret hex hr, archNextPc_of_ret d e hex hr, hepc]
      · have hlvl : (next cfg c y).csr.privLvl = _ := (Csr.resumed_of_ret cfg c.csr hr).privLvl
        rw [hprv, hlvl]
        exact hpp.symm
    · refine ⟨hmode hdret, hone, ?_, ?_⟩
      · rw [hdpc, stepDpc_eq_archNextPc hex hr hwb]
      · rw [hprv, privLvl_next hex hr]

/-- The single-step law: out of any reachable state in debug mode, DRET with
`dcsr.step`, then quiet cycles, then the stepped instruction. The law holds of the
step exactly when the stepped instruction is clean. -/
theorem single_step_iff {d : FuData} {e : ScoreboardEntry} (xs : List In)
    (hc : (machine cfg).Reachable c) (hdbg : c.csr.debugMode = true)
    (hstep : c.csr.dcsr.step = true) (hop : (csrIn cfg c x).csrOp = .dret)
    (hq : (machine cfg).Steps (Quiet cfg) (next cfg c x) xs)
    (hs : Stepped cfg ((machine cfg).run (next cfg c x) xs) y)
    (hwb : (y.commitInstr 0).fu = .ctrlFlow → y.commitInstr 0 = writeBack d e) :
    StepOK cfg d e ((machine cfg).run (next cfg c x) xs) y ↔
      StepClean cfg ((machine cfg).run (next cfg c x) xs) y := by
  have hc1 : (machine cfg).Reachable (next cfg c x) := hc.next x
  have h1 := stepping_dret hdbg hstep hop
  exact stepOK_iff (hc1.run xs) (stepping_run xs _ hc1 h1 hq) hs hwb

/-- A debugger has halted the hart and set `dcsr.step`. -/
def stepState : State := (machine socCfg).run reset [In.raise debugRequest, In.csrWrite .dcsr 4]

/-- ALU instructions on both commit ports. -/
def In.alu : In :=
  { In.idle with
    commitInstr := fun p =>
      { ScoreboardEntry.empty with pc := if p = 0 then 0x80000000 else 0x80000004, fu := .alu, valid := true } }

/-- A step over an ALU instruction. -/
theorem single_step_alu : StepOK socCfg ⟨0, 0, 0⟩ ScoreboardEntry.empty
    ((machine socCfg).run (next socCfg stepState (In.csr .dret)) []) In.alu := by
  refine (single_step_iff [] ⟨reset, _, rfl, rfl⟩ (by decide) (by decide) (by decide) trivial
    ⟨.inl (by decide), fun h => absurd h (by decide), fun h => absurd h (by decide)⟩
    (fun h => absurd h (by decide))).2 ⟨by decide, by decide, ?_⟩
  intro T hT
  cases T <;> exact absurd hT (by decide)

/-- A step over an illegal instruction does not come back to debug mode. -/
theorem single_step_illegal_not_ok :
    (machine socCfg).Reachable stepState ∧ stepState.csr.debugMode = true ∧
      stepState.csr.dcsr.step = true ∧ (csrIn socCfg stepState (In.csr .dret)).csrOp = .dret ∧
      Stepped socCfg (next socCfg stepState (In.csr .dret)) (In.raise illegalInstr) ∧
      ∀ d e, ¬StepOK socCfg d e (next socCfg stepState (In.csr .dret)) (In.raise illegalInstr) := by
  refine ⟨⟨reset, _, rfl, rfl⟩, by decide, by decide, by decide, ⟨.inr (by decide), ?_, ?_⟩, ?_⟩
  · decide
  · decide
  · intro d e h
    exact absurd h.debugMode (by decide)

end Core
end Ariane

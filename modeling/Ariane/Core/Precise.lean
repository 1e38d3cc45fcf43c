/-
# Precise, in-order commit

What the commit stage does with the two oldest instructions (`Commit.Precise`): the
second retires only behind the first; an instruction that is missing, excepts or is
halted leaves no trace; an exception is reported exactly for the oldest instruction,
and nothing retires with it. The stage relies on its neighbours for two things
(`Commit.Wired`), which the back end provides (`wired_commitOf`).

The flags of floating-point instructions go to `fcsr` as they retire. Along a run
`fcsr.fflags` is what software last wrote there and the flags of the instructions
retired since (`fflags_run`).
-/
import Ariane.Core.Flush

namespace Ariane

open Riscv Lib

/-! ### The commit stage -/

namespace Commit

/-- The CSR file refuses only accesses of a CSR instruction that may commit, and a
flush of the data cache halts the core. -/
structure Wired (x : In) : Prop where
  csr : x.csrException.valid = true → csrCommits x = true ∧ (instr0 x).op.isCsrAccess = true
  flush : x.flushDcache = true → x.halt = true

/-- The first instruction is missing, excepts or is halted. -/
def Blocked0 (x : In) : Prop :=
  (instr0 x).valid = false ∨ (instr0 x).ex.valid = true ∨ x.csrException.valid = true ∨ x.halt = true

/-- The second instruction is missing, excepts or is halted. -/
def Blocked1 (x : In) : Prop :=
  (instr1 x).valid = false ∨ (instr1 x).ex.valid = true ∨ x.halt = true

structure Precise (x : In) : Prop where
  inOrder : (commit x).ack1 = true → (commit x).ack0 = true
  ack0 : Blocked0 x → (commit x).ack0 = false
  noWrite0 : Blocked0 x → (commit x).weGpr0 = false ∧ (commit x).weFpr0 = false
  noCommit0 : Blocked0 x → (commit x).commitLsu = false ∧ (commit x).commitCsr = false
  ack1 : Blocked1 x → (commit x).ack1 = false
  noWrite1 : Blocked1 x → (commit x).weGpr1 = false ∧ (commit x).weFpr1 = false
  exception : (exceptionO x).valid = true ↔ x.halt = false ∧ (instr0 x).valid = true ∧
    ((instr0 x).ex.valid = true ∨ x.csrException.valid = true)
  alone : (exceptionO x).valid = true → (commit x).ack0 = false ∧ (commit x).ack1 = false

variable {x : In}

/-- A blocked instruction may not commit, or is a CSR access that is refused. -/
theorem Wired.blocked0 (hw : Wired x) (h : Blocked0 x) : mayCommit x = false ∨
    x.csrException.valid = true ∧ (instr0 x).fu = .csr ∧ (instr0 x).op.isCsrAccess = true := by
  rcases h with h | h | h | h
  · exact .inl (by simp [mayCommit, h])
  · exact .inl (by simp [mayCommit, h])
  · obtain ⟨hc, hop⟩ := hw.csr h
    exact .inr ⟨h, ((csrCommits_iff x).1 hc).2, hop⟩
  · exact .inl (by simp [mayCommit, h])

/-- A CSR access has no floating-point destination. -/
theorem not_rdFpr_of_csrAccess {op : FuOp} (h : op.isCsrAccess = true) : op.isRdFpr = false := by
  cases op <;> first | rfl | cases h

theorem Wired.ack0 (hw : Wired x) (h : Blocked0 x) : (commit x).ack0 = false := by
  rcases hw.blocked0 h with hm | ⟨hex, -, hop⟩
  · rw [commit_ack0, hm, Bool.false_and]
  · exact ack0_of_csrException x hw.flush (hw.csr hex).1 hop hex

theorem ack1_of_blocked (h : Blocked1 x) : (commit x).ack1 = false := by
  rw [commit_ack1]
  rcases h with h | h | h <;> simp [h]

theorem Wired.exception (hw : Wired x) : (exceptionO x).valid = true ↔
    x.halt = false ∧ (instr0 x).valid = true ∧
      ((instr0 x).ex.valid = true ∨ x.csrException.valid = true) := by
  constructor
  · intro h
    obtain ⟨hh, hv, ⟨hex, -⟩ | ⟨-, hc, -⟩⟩ := exceptionO_cases x h
    · exact ⟨hh, hv, .inl hex⟩
    · exact ⟨hh, hv, .inr hc⟩
  · rintro ⟨hh, hv, hex | hc⟩
    · simp [exceptionO, hh, hv, hex]
    · obtain ⟨hcc, hop⟩ := hw.csr hc
      exact exceptionO_of_csrException x hcc hop hc

/-- The commit stage is precise. -/
theorem Wired.precise (hw : Wired x) : Precise x where
  inOrder h := (ack0_of_ack1 x h).1
  ack0 := hw.ack0
  noWrite0 h := by
    rw [commit_weGpr0, commit_weFpr0]
    rcases hw.blocked0 h with hm | ⟨hex, hfu, hop⟩
    · simp [hm]
    · have hamo := (FuOp.not_fence_of_csr (.inl hop)).2.2.2
      simp [hamo, hfu, hex, not_rdFpr_of_csrAccess hop]
  noCommit0 h := by
    rw [commit_commitLsu, commit_commitCsr]
    rcases hw.blocked0 h with hm | ⟨hex, hfu, -⟩
    · simp [hm]
    · simp [hfu, hex]
  ack1 := ack1_of_blocked
  noWrite1 h := by
    rw [(commitPort1_writes x).1, (commitPort1_writes x).2, ack1_of_blocked h]
    exact ⟨rfl, rfl⟩
  exception := hw.exception
  alone h := by
    have hb : Blocked0 x := by
      obtain ⟨-, -, hex | hc⟩ := hw.exception.1 h
      · exact .inr (.inl hex)
      · exact .inr (.inr (.inl hc))
    refine ⟨hw.ack0 hb, ?_⟩
    rw [commit_ack1, hw.ack0 hb]
    rfl

/-- The flags of an instruction of the floating-point unit. -/
def flags (e : ScoreboardEntry) : BitVec 5 := if e.fu.isFpu then e.ex.cause.extractLsb' 0 5 else 0

/-- The flags of the instructions that retire. -/
def retiredFlags (x : In) : BitVec 5 :=
  (if (commit x).ack0 then flags (instr0 x) else 0) ||| (if (commit x).ack1 then flags (instr1 x) else 0)

theorem extract_fpuFlags (e : ScoreboardEntry) :
    (fpuFlags e).extractLsb' 0 5 = e.ex.cause.extractLsb' 0 5 := by
  unfold fpuFlags
  ext i hi
  simp [hi]
  omega

/-- An instruction of the floating-point unit retires as soon as it may. -/
theorem ack0_of_fpu (hw : Wired x) (hr : Decoder.runs (instr0 x).fu (instr0 x).op = true)
    (hm : mayCommit x = true) (hf : (instr0 x).fu.isFpu = true) : (commit x).ack0 = true := by
  have hfl := flushDcache_of_mayCommit x hw.flush hm
  have hcsr : (instr0 x).fu ≠ .csr := by
    intro h
    rw [h] at hf
    cases hf
  have hamo : (instr0 x).op.isAmo = false := by
    rw [Bool.eq_false_iff]
    intro h
    rw [Decoder.store_of_amo hr h] at hf
    cases hf
  obtain ⟨hnf, hnfi, hnsf⟩ := Decoder.not_fence_of_runs hr hcsr
  rw [commit_ack0, hm]
  simp [hamo, hnf, hnfi, hnsf, hfl, hcsr, hf]

/-- What the commit stage writes to `fflags` are the flags of the instructions that
retire, and without such a write they have none. -/
theorem fflags_commit (hw : Wired x) (hr : Decoder.runs (instr0 x).fu (instr0 x).op = true) :
    if (commit x).csrWriteFflags then (commit x).csrWdata.extractLsb' 0 5 = retiredFlags x
    else retiredFlags x = 0 := by
  have hport0 : (if (commit x).ack0 then flags (instr0 x) else 0) =
      if (commitPort0 x).csrWriteFflags then (instr0 x).ex.cause.extractLsb' 0 5 else 0 := by
    rw [(commitPort0_fflags x).1]
    unfold flags
    cases hf : (instr0 x).fu.isFpu with
    | false => simp
    | true =>
      cases hm : mayCommit x with
      | false => simp [commit_ack0, hm]
      | true => simp [ack0_of_fpu hw hr hm hf]
  have hport1 : (if (commit x).ack1 then flags (instr1 x) else 0) =
      if (commit x).ack1 && (instr1 x).fu.isFpu then (instr1 x).ex.cause.extractLsb' 0 5 else 0 := by
    unfold flags
    cases (commit x).ack1 <;> cases (instr1 x).fu.isFpu <;> rfl
  have hdata := (commitPort0_fflags x).2
  rw [retiredFlags, hport0, hport1, (commit_fflags x).1, (commit_fflags x).2]
  cases h0 : (commitPort0 x).csrWriteFflags <;> cases h1 : (commit x).ack1 && (instr1 x).fu.isFpu
  · simp
  · simp [extract_fpuFlags]
  · simp [hdata h0, extract_fpuFlags]
  · simp [BitVec.extractLsb'_or, extract_fpuFlags]

end Commit

/-! ### The flags in the CSR file -/

namespace Csr

/-- What an accepted CSR write puts in `fflags`. -/
def fflagsWritten (s : Regs) (i : In) : Option (BitVec 5) :=
  if csrWe s i = true ∧ s.mstatus.fs ≠ Xs.off then
    match CsrReg.ofAddr i.csrAddr with
    | some .fflags => some ((csrWdata s i).extractLsb' 0 5)
    | some .fcsr => some ((csrWdata s i).extractLsb' 0 5)
    | _ => none
  else none

/-- Behind the write only the flags of retiring instructions touch `fcsr`. -/
theorem fcsr_csrUpdate (cfg : Cfg) (s : Regs) (i : In) : (csrUpdate cfg s i).d.fcsr =
    (updFflags s i (updWrite cfg s i (updDefaults s i))).d.fcsr := by
  have hret (u : Upd) : (updReturn s i u).d.fcsr = u.d.fcsr := by
    unfold updReturn
    split <;> rfl
  have hstep (u : Upd) : (updSingleStep cfg s i u).d.fcsr = u.d.fcsr := by
    unfold updSingleStep
    split <;> rfl
  have hreq (u : Upd) : (updDebugReq i (updEbreak s i u)).d.fcsr = u.d.fcsr := by
    unfold updDebugReq updEbreak
    split <;> split <;> rfl
  have hdebug (u : Upd) : (updDebug cfg s i u).d.fcsr = u.d.fcsr := by
    unfold updDebug
    split
    · rfl
    · rw [hstep, hreq]
  have htrap (u : Upd) : (updTrap s i u).d.fcsr = u.d.fcsr := by
    unfold updTrap
    split
    · split <;> rfl
    · rfl
  have hff (u : Upd) : (updFflags s i (updStatus s i u)).d.fcsr = (updFflags s i u).d.fcsr := by
    unfold updFflags
    split <;> rfl
  rw [csrUpdate, hret, updMprv, hdebug, htrap, updIrq, hff]

theorem fflags_updWrite (cfg : Cfg) (s : Regs) (i : In) :
    (updWrite cfg s i (updDefaults s i)).d.fcsr.fflags = (fflagsWritten s i).getD s.fcsr.fflags := by
  have hfp (u : Upd) (f : Fcsr) :
      (fpWrite s u f).d.fcsr = if s.mstatus.fs = Xs.off then u.d.fcsr else f := by
    unfold fpWrite
    split <;> rfl
  unfold updWrite fflagsWritten
  by_cases hwe : csrWe s i = true
  · rw [if_pos hwe]
    by_cases hfs : s.mstatus.fs = Xs.off
    · -- the unit is off: a write to its registers is refused
      rw [if_neg (fun h => h.2 hfs)]
      split
      · rename_i r _
        cases r with
        | fflags => rw [csrWriteReg, hfp, if_pos hfs]; rfl
        | frm => rw [csrWriteReg, hfp, if_pos hfs]; rfl
        | fcsr => rw [csrWriteReg, hfp, if_pos hfs]; rfl
        | ftran => rw [csrWriteReg, hfp, if_pos hfs]; rfl
        | satp =>
          simp only [csrWriteReg]
          split
          · rfl
          · split <;> rfl
        | _ => rfl
      · rfl
    · rw [if_pos ⟨hwe, hfs⟩]
      cases CsrReg.ofAddr i.csrAddr with
      | none => rfl
      | some r =>
        cases r with
        | fflags => simp only [csrWriteReg, hfp, if_neg hfs]; rfl
        | frm => simp only [csrWriteReg, hfp, if_neg hfs]; rfl
        | fcsr => simp only [csrWriteReg, hfp, if_neg hfs]; rfl
        | ftran => simp only [csrWriteReg, hfp, if_neg hfs]; rfl
        | satp =>
          simp only [csrWriteReg]
          split
          · rfl
          · split <;> rfl
        | _ => rfl
  · rw [if_neg hwe, if_neg (fun h => hwe h.1)]
    rfl

theorem fflags_next (cfg : Cfg) (s : Regs) (i : In) : (next cfg s i).fcsr.fflags =
    if i.csrWriteFflags then i.csrWdata.extractLsb' 0 5 ||| s.fcsr.fflags
    else (fflagsWritten s i).getD s.fcsr.fflags := by
  have h : (next cfg s i).fcsr = (csrUpdate cfg s i).d.fcsr := rfl
  rw [h, fcsr_csrUpdate, updFflags]
  split
  · rfl
  · exact fflags_updWrite cfg s i

end Csr

/-! ### The back end -/

namespace Core

variable {cfg : Cfg} {c : State} {x : In}

/-- The CSR file and the controller wire the commit stage as it relies on. -/
theorem wired_commitOf (hc : (machine cfg).Reachable c) (x : In) : Commit.Wired (commitOf cfg c x) where
  csr h := by
    obtain ⟨h1, h2⟩ := access_of_csrException h
    exact ⟨by rw [commitOf, csrCommits_eq, h1], h2⟩
  flush := flush_halts hc

/-- The flags of the instructions that retire in a cycle. -/
def retiredFlags (cfg : Cfg) (c : State) (x : In) : BitVec 5 := Commit.retiredFlags (commitOf cfg c x)

/-- Flags are written only while the first port holds no CSR instruction. -/
theorem not_csr_of_fflags (h : (out cfg c x).csrWriteFflags = true) : (x.commitInstr 0).fu ≠ .csr := by
  intro hfu
  have h' := h
  rw [out, (Commit.commit_fflags _).1, (Commit.commitPort0_fflags _).1, Commit.commit_ack1] at h'
  simp [Commit.instr0, commitOf, commitIn, hfu, Fu.isFpu] at h'

theorem fflags_step (hc : (machine cfg).Reachable c) (hx : Fetched x) :
    (next cfg c x).csr.fcsr.fflags =
      (Csr.fflagsWritten c.csr (csrIn cfg c x)).getD c.csr.fcsr.fflags ||| retiredFlags cfg c x := by
  have hn : (next cfg c x).csr.fcsr.fflags = _ := Csr.fflags_next cfg c.csr (csrIn cfg c x)
  have hcommit := Commit.fflags_commit (wired_commitOf hc x) (hx 0).runs
  have hwf : (csrIn cfg c x).csrWriteFflags = (Commit.commit (commitOf cfg c x)).csrWriteFflags := rfl
  have hwd : (csrIn cfg c x).csrWdata = (Commit.commit (commitOf cfg c x)).csrWdata := rfl
  rw [hn, hwf, hwd, retiredFlags]
  by_cases hw : (Commit.commit (commitOf cfg c x)).csrWriteFflags = true
  · have hnone : Csr.fflagsWritten c.csr (csrIn cfg c x) = none := by
      have hop : (csrIn cfg c x).csrOp = .add := csrOp_of_not_csr (not_csr_of_fflags hw)
      have hwe : Csr.csrWe c.csr (csrIn cfg c x) = false := by
        rw [Csr.csrWe, hop]
        rfl
      rw [Csr.fflagsWritten, if_neg]
      rw [hwe]
      exact fun h => Bool.false_ne_true h.1
    rw [if_pos hw] at hcommit ⊢
    rw [hcommit, hnone, Option.getD_none, BitVec.or_comm]
  · rw [if_neg hw] at hcommit ⊢
    rw [hcommit]
    exact BitVec.or_zero.symm

/-- `fflags` after a run that starts with `f`: what software writes, and the flags of
the instructions that retire. -/
def accruedFlags (cfg : Cfg) : State → BitVec 5 → List In → BitVec 5
  | _, f, [] => f
  | c, f, x :: xs => accruedFlags cfg (next cfg c x)
      ((Csr.fflagsWritten c.csr (csrIn cfg c x)).getD f ||| retiredFlags cfg c x) xs

theorem fflags_run : ∀ (xs : List In) {c : State}, (machine cfg).Reachable c →
    (machine cfg).Steps (fun _ x => Fetched x) c xs →
    ((machine cfg).run c xs).csr.fcsr.fflags = accruedFlags cfg c c.csr.fcsr.fflags xs
  | [], _, _, _ => rfl
  | x :: xs, c, hc, hs => by
    have ih := fflags_run xs (hc.next x) hs.2
    have hstep := fflags_step hc hs.1
    rw [Machine.run_cons]
    exact ih.trans (congrArg (fun f => accruedFlags cfg (next cfg c x) f xs) hstep)

/-- **Precise commit.** However the commit stage is driven, as long as its neighbours
keep to the wiring, it is precise; the back end keeps to it in every reachable state;
and along every run `fflags` accrues the flags of the instructions that retire. -/
theorem precise_commit (cfg : Cfg) :
    (∀ x, Commit.Wired x → Commit.Precise x) ∧
      (∀ c x, (machine cfg).Reachable c → Commit.Wired (commitOf cfg c x)) ∧
      ∀ c xs, (machine cfg).Reachable c → (machine cfg).Steps (fun _ x => Fetched x) c xs →
        ((machine cfg).run c xs).csr.fcsr.fflags = accruedFlags cfg c c.csr.fcsr.fflags xs :=
  ⟨fun _ hw => hw.precise, fun _ x hc => wired_commitOf hc x, fun _ xs hc hs => fflags_run xs hc hs⟩

/-- `fadd.s f0, f0, f0` that raised two flags. -/
def faddEntry : ScoreboardEntry :=
  { ScoreboardEntry.empty with fu := .fpu, op := .fadd, valid := true, ex := ⟨5, 0, false⟩ }

/-- The addition retires right after reset. -/
theorem precise_commit_fadd :
    Commit.Precise (commitOf socCfg reset (In.single faddEntry)) ∧
      ((machine socCfg).run reset [In.single faddEntry]).csr.fcsr.fflags = 5 := by
  have hd : IdStage.Decoded faddEntry :=
    ⟨{ fetch 0 0x00000053 false false with fs := Xs.initial }, by decide⟩
  have hreach : (machine socCfg).Reachable reset := ⟨reset, [], rfl, rfl⟩
  obtain ⟨hprecise, hwired, hflags⟩ := precise_commit socCfg
  refine ⟨hprecise _ (hwired reset _ hreach), ?_⟩
  rw [hflags reset [In.single faddEntry] hreach ⟨fetched_single hd, trivial⟩]
  decide

end Core
end Ariane

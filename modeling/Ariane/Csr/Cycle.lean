/-
# One cycle of the CSR register file

What one clock edge does to the registers that traps, returns and debug entry
share, stated register by register so that no later proof opens `csrUpdate`
again. They are the context `ctx`. A cycle acts on it in four layers, a later
one over an earlier one (`ctx_next`): the CSR write, the trap, the debug entry,
the return.

The trap CSRs and the interrupt stack of machine mode and of supervisor mode
are two copies of one thing; `Mode` says which copy.
-/
import Ariane.Csr.Regfile

namespace Ariane
namespace Csr

open Riscv Lib

/-! ### The two modes that take traps -/

/-- A mode that takes traps. -/
inductive Mode
  | m | s
deriving DecidableEq, Repr

namespace Mode

def lvl : Mode → PrivLvl
  | .m => privLvlM
  | .s => privLvlS

/-- The instruction that returns from the mode. -/
def ret : Mode → FuOp
  | .m => .mret
  | .s => .sret

def other : Mode → Mode
  | .m => .s
  | .s => .m

end Mode

/-- One copy for machine mode and one for supervisor mode. -/
@[ext] structure PerMode (α : Type) where
  m : α
  s : α

namespace PerMode

variable {α : Type}

def get (x : PerMode α) : Mode → α
  | .m => x.m
  | .s => x.s

def set (x : PerMode α) : Mode → α → PerMode α
  | .m, a => { x with m := a }
  | .s, a => { x with s := a }

@[simp] theorem get_set (x : PerMode α) (T : Mode) (a : α) : (x.set T a).get T = a := by
  cases T <;> rfl

@[simp] theorem get_set_other (x : PerMode α) (T : Mode) (a : α) :
    (x.set T a).get T.other = x.get T.other := by
  cases T <;> rfl

end PerMode

/-- `xepc`, `xcause` and `xtval`. -/
structure TrapCsrs where
  epc : BitVec 64
  cause : BitVec 64
  tval : BitVec 64
deriving DecidableEq, Repr

/-- `xIE`, `xPIE` and `xPP` of `mstatus`. -/
structure Stack where
  ie : Bool
  pie : Bool
  pp : PrivLvl
deriving DecidableEq, Repr

def trapCsrs (r : Regs) : PerMode TrapCsrs where
  m := ⟨r.mepc, r.mcause, r.mtval⟩
  s := ⟨r.sepc, r.scause, r.stval⟩

/-- The stacks in `mstatus`; `spp` has one bit. -/
def statusStacks (x : Status) : PerMode Stack where
  m := ⟨x.mie, x.mpie, x.mpp⟩
  s := ⟨x.sie, x.spie, 0#1 ++ BitVec.ofBool x.spp⟩

variable {cfg : Cfg} {s : Regs} {i : In}

/-- The mode the trap of the cycle goes to. -/
def trapMode (s : Regs) (i : In) : Mode := if trapToPrivLvl s i = privLvlS then .s else .m

/-- The trap of the cycle goes to mode `T`. -/
def TrapsTo (s : Regs) (i : In) (T : Mode) : Prop := trapTaken s i = true ∧ trapMode s i = T

instance (T : Mode) : Decidable (TrapsTo s i T) := by unfold TrapsTo; infer_instance

theorem trapToPrivLvl_eq (s : Regs) (i : In) : trapToPrivLvl s i = (trapMode s i).lvl := by
  unfold trapMode trapToPrivLvl
  split
  · by_cases h : privLvlO s = privLvlM
    · rw [if_pos h]; rfl
    · rw [if_neg h]; rfl
  · rfl

/-! ### The write of a cycle -/

/-- The cycle writes register `r`. -/
def Writes (s : Regs) (i : In) (r : CsrReg) : Prop :=
  csrWe s i = true ∧ CsrReg.ofAddr i.csrAddr = some r

instance (r : CsrReg) : Decidable (Writes s i r) := by unfold Writes; infer_instance

theorem updWrite_of_writes {r : CsrReg} (h : Writes s i r) (u : Upd) :
    updWrite cfg s i u = csrWriteReg cfg s (csrWdata s i) u r := by
  unfold updWrite
  rw [if_pos h.1, h.2]

/-- A write to a floating-point register changes `fcsr` at most. -/
theorem fpWrite_d (s : Regs) (u : Upd) (f : Fcsr) :
    ∃ g, (fpWrite s u f).d = { u.d with fcsr := g } := by
  unfold fpWrite
  split
  · exact ⟨u.d.fcsr, rfl⟩
  · exact ⟨f, rfl⟩

/-- A write to `satp` changes `satp` at most. -/
theorem csrWriteReg_satp_d (cfg : Cfg) (s : Regs) (w : BitVec 64) (u : Upd) :
    ∃ p, (csrWriteReg cfg s w u .satp).d = { u.d with satp := p } := by
  simp only [csrWriteReg]
  split
  · exact ⟨u.d.satp, rfl⟩
  · split
    · exact ⟨_, rfl⟩
    · exact ⟨u.d.satp, rfl⟩

/-! ### What `sstatus` can change -/

theorem toBits_mpp (x : Status) : x.toBits.extractLsb' 11 2 = x.mpp := by
  simp (disch := omega) only [Status.toBits, BitVec.extractLsb'_append_eq_of_le,
    BitVec.extractLsb'_append_eq_of_add_le, BitVec.extractLsb'_eq_self, Nat.reduceSub]

theorem toBits_mpie (x : Status) : x.toBits.getLsbD 7 = x.mpie := by
  simp only [Status.toBits, BitVec.getLsbD_append]
  simp

theorem toBits_mie (x : Status) : x.toBits.getLsbD 3 = x.mie := by
  simp only [Status.toBits, BitVec.getLsbD_append]
  simp

/-- A write of `sstatus` keeps the stack of machine mode: `mpp`, `mpie` and `mie`
are outside its mask. -/
theorem statusStacks_sstatusOfWrite (s : Regs) (w : BitVec 64) :
    (statusStacks (sstatusOfWrite s w)).m = (statusStacks s.mstatus).m := by
  have hmpp : (sstatusOfWrite s w).mpp = s.mstatus.mpp := by
    have h : (sstatusOfWrite s w).mpp =
        (maskWrite smodeStatusWriteMask s.mstatus.toBits w).extractLsb' 11 2 := rfl
    rw [h, extractLsb'_maskWrite _ _ _ 11 2 (by decide), toBits_mpp]
  have hmpie : (sstatusOfWrite s w).mpie = s.mstatus.mpie := by
    have h : (sstatusOfWrite s w).mpie =
        (maskWrite smodeStatusWriteMask s.mstatus.toBits w).getLsbD 7 := rfl
    have hmask : smodeStatusWriteMask.getLsbD 7 = false := by decide
    rw [h, getLsbD_maskWrite, hmask, ← toBits_mpie s.mstatus]
    rfl
  have hmie : (sstatusOfWrite s w).mie = s.mstatus.mie := by
    have h : (sstatusOfWrite s w).mie =
        (maskWrite smodeStatusWriteMask s.mstatus.toBits w).getLsbD 3 := rfl
    have hmask : smodeStatusWriteMask.getLsbD 3 = false := by decide
    rw [h, getLsbD_maskWrite, hmask, ← toBits_mie s.mstatus]
    rfl
  simp only [statusStacks, hmpp, hmpie, hmie]

/-! ### The context a trap, a return or a debug entry acts on -/

/-- What traps, returns and debug entry save, change and restore. -/
@[ext] structure Ctx where
  privLvl : PrivLvl
  trap : PerMode TrapCsrs
  stack : PerMode Stack
  debugMode : Bool
  dcsr : Dcsr
  dpc : BitVec 64

def ctx (r : Regs) : Ctx where
  privLvl := r.privLvl
  trap := trapCsrs r
  stack := statusStacks r.mstatus
  debugMode := r.debugMode
  dcsr := r.dcsr
  dpc := r.dpc

/-- The context after a write of `w` to a register. -/
def ctxWrite (s : Regs) (w : BitVec 64) (x : Ctx) : CsrReg → Ctx
  | .mstatus => { x with stack := statusStacks (mstatusOfWrite w) }
  | .sstatus => { x with stack := statusStacks (sstatusOfWrite s w) }
  | .mepc => { x with trap.m.epc := w.extractLsb' 1 63 ++ 0#1 }
  | .mcause => { x with trap.m.cause := w }
  | .mtval => { x with trap.m.tval := w }
  | .sepc => { x with trap.s.epc := w.extractLsb' 1 63 ++ 0#1 }
  | .scause => { x with trap.s.cause := w }
  | .stval => { x with trap.s.tval := w }
  | .dcsr => { x with dcsr := dcsrOfWrite s w }
  | .dpc => { x with dpc := w }
  | _ => x

/-- The context after the write of the cycle. -/
def ctxWritten (s : Regs) (i : In) : Ctx :=
  match (if csrWe s i then CsrReg.ofAddr i.csrAddr else none) with
  | some r => ctxWrite s (csrWdata s i) (ctx s) r
  | none => ctx s

/-- The write of the cycle, if there is one, and no write. -/
theorem ctxWritten_cases (s : Regs) (i : In) :
    (∃ r, Writes s i r ∧ ctxWritten s i = ctxWrite s (csrWdata s i) (ctx s) r) ∨
      ctxWritten s i = ctx s := by
  unfold ctxWritten Writes
  by_cases hw : csrWe s i = true
  · rw [if_pos hw]
    cases CsrReg.ofAddr i.csrAddr with
    | none => exact .inr rfl
    | some r => exact .inl ⟨r, ⟨hw, rfl⟩, rfl⟩
  · rw [if_neg hw]
    exact .inr rfl

/-- No write reaches the privilege level. -/
theorem ctxWritten_privLvl (s : Regs) (i : In) : (ctxWritten s i).privLvl = s.privLvl := by
  rcases ctxWritten_cases s i with ⟨r, -, hx⟩ | hx
  · rw [hx]
    cases r <;> rfl
  · rw [hx]
    rfl

/-- The level a trap to `T` saves: `spp` keeps the low bit. -/
def savedPriv : Mode → PrivLvl → PrivLvl
  | .m, p => p
  | .s, p => 0#1 ++ BitVec.ofBool (p.getLsbD 0)

/-- The context `x` after a trap to `T` out of the registers `s`. -/
def ctxEnter (s : Regs) (i : In) (T : Mode) (x : Ctx) : Ctx :=
  { x with
    privLvl := T.lvl
    trap := x.trap.set T ⟨i.pc, i.ex.cause, trapTval i.ex⟩
    stack := x.stack.set T ⟨false, ((ctx s).stack.get T).ie, savedPriv T s.privLvl⟩ }

/-- The context after the trap of the cycle. -/
def ctxTrap (s : Regs) (i : In) (x : Ctx) : Ctx :=
  if trapTaken s i then ctxEnter s i (trapMode s i) x else x

def ctxEbreak (s : Regs) (i : In) (x : Ctx) : Ctx :=
  if i.ex.valid && i.ex.cause == breakpoint then
    { x with
      debugMode := (ebreakBit s.dcsr (privLvlO s)).getD x.debugMode
      dpc := i.pc
      dcsr := { x.dcsr with cause := 1 } }
  else x

def ctxDebugReq (i : In) (x : Ctx) : Ctx :=
  if i.ex.valid && i.ex.cause == debugRequest then
    { x with dpc := i.pc, debugMode := true, dcsr := { x.dcsr with cause := 3 } }
  else x

/-- The pc a single step stores. -/
def stepDpc (cfg : Cfg) (s : Regs) (i : In) : BitVec 64 :=
  if (i.commitInstr 0).fu = .ctrlFlow then (i.commitInstr 0).bp.predictAddress
  else if i.ex.valid then trapVectorBaseO cfg s i
  else (i.commitInstr 0).nextPc

def ctxSingleStep (cfg : Cfg) (s : Regs) (i : In) (x : Ctx) : Ctx :=
  if s.dcsr.step && i.commitAck 0 then
    { x with dpc := stepDpc cfg s i, debugMode := true, dcsr := { x.dcsr with cause := 4 } }
  else x

/-- The context after the debug entry of the cycle. -/
def ctxDebug (cfg : Cfg) (s : Regs) (i : In) (x : Ctx) : Ctx :=
  if s.debugMode then x
  else
    ctxSingleStep cfg s i <| ctxDebugReq i <| ctxEbreak s i
      { x with dcsr := { x.dcsr with prv := privLvlO s } }

/-- The context after a return from `T`. -/
def ctxLeave (s : Regs) (T : Mode) (x : Ctx) : Ctx :=
  { x with
    privLvl := ((ctx s).stack.get T).pp
    stack := x.stack.set T ⟨((ctx s).stack.get T).pie, true, privLvlU⟩ }

/-- The context after the return of the cycle. -/
def ctxReturn (s : Regs) (i : In) (x : Ctx) : Ctx :=
  match i.csrOp with
  | .mret => ctxLeave s .m x
  | .sret => ctxLeave s .s x
  | .dret => { x with privLvl := s.dcsr.prv, debugMode := false }
  | _ => x

/-! What each layer leaves alone. -/

@[simp] theorem ctxTrap_dcsr (s : Regs) (i : In) (x : Ctx) : (ctxTrap s i x).dcsr = x.dcsr := by
  unfold ctxTrap
  split <;> rfl

@[simp] theorem ctxTrap_dpc (s : Regs) (i : In) (x : Ctx) : (ctxTrap s i x).dpc = x.dpc := by
  unfold ctxTrap
  split <;> rfl

@[simp] theorem ctxTrap_debugMode (s : Regs) (i : In) (x : Ctx) :
    (ctxTrap s i x).debugMode = x.debugMode := by
  unfold ctxTrap
  split <;> rfl

/-- Debug entry touches `dcsr`, `dpc` and the mode only. -/
theorem ctxDebug_eq (cfg : Cfg) (s : Regs) (i : In) (x : Ctx) :
    ∃ d c p, ctxDebug cfg s i x = { x with debugMode := d, dcsr := c, dpc := p } := by
  unfold ctxDebug ctxSingleStep ctxDebugReq ctxEbreak
  by_cases hd : s.debugMode = true
  · rw [if_pos hd]
    exact ⟨x.debugMode, x.dcsr, x.dpc, rfl⟩
  · rw [if_neg hd]
    split <;> split <;> split <;> exact ⟨_, _, _, rfl⟩

@[simp] theorem ctxDebug_privLvl (cfg : Cfg) (s : Regs) (i : In) (x : Ctx) :
    (ctxDebug cfg s i x).privLvl = x.privLvl := by
  obtain ⟨d, c, p, h⟩ := ctxDebug_eq cfg s i x
  rw [h]

@[simp] theorem ctxDebug_trap (cfg : Cfg) (s : Regs) (i : In) (x : Ctx) :
    (ctxDebug cfg s i x).trap = x.trap := by
  obtain ⟨d, c, p, h⟩ := ctxDebug_eq cfg s i x
  rw [h]

@[simp] theorem ctxDebug_stack (cfg : Cfg) (s : Regs) (i : In) (x : Ctx) :
    (ctxDebug cfg s i x).stack = x.stack := by
  obtain ⟨d, c, p, h⟩ := ctxDebug_eq cfg s i x
  rw [h]

@[simp] theorem ctxDebug_prv (cfg : Cfg) (s : Regs) (i : In) (x : Ctx) :
    (ctxDebug cfg s i x).dcsr.prv = if s.debugMode then x.dcsr.prv else privLvlO s := by
  unfold ctxDebug ctxSingleStep ctxDebugReq ctxEbreak
  by_cases hd : s.debugMode = true
  · rw [if_pos hd, if_pos hd]
  · rw [if_neg hd, if_neg hd]
    split <;> split <;> split <;> rfl

@[simp] theorem ctxReturn_trap (s : Regs) (i : In) (x : Ctx) : (ctxReturn s i x).trap = x.trap := by
  unfold ctxReturn
  split <;> rfl

@[simp] theorem ctxReturn_dcsr (s : Regs) (i : In) (x : Ctx) : (ctxReturn s i x).dcsr = x.dcsr := by
  unfold ctxReturn
  split <;> rfl

@[simp] theorem ctxReturn_dpc (s : Regs) (i : In) (x : Ctx) : (ctxReturn s i x).dpc = x.dpc := by
  unfold ctxReturn
  split <;> rfl

theorem ctxReturn_of_not_return (h : i.csrOp.isReturn = false) (x : Ctx) : ctxReturn s i x = x := by
  unfold ctxReturn
  cases hi : i.csrOp <;> first | rfl | (rw [hi] at h; cases h)

/-! ### The blocks of `csr_update` on the context -/

theorem ctx_fpWrite (s : Regs) (u : Upd) (f : Fcsr) : ctx (fpWrite s u f).d = ctx u.d := by
  obtain ⟨g, hg⟩ := fpWrite_d s u f
  rw [hg]; rfl

theorem ctx_csrWriteReg (s : Regs) (w : BitVec 64) (u : Upd) (r : CsrReg) :
    ctx (csrWriteReg cfg s w u r).d = ctxWrite s w (ctx u.d) r := by
  cases r with
  | satp =>
    obtain ⟨p, hp⟩ := csrWriteReg_satp_d cfg s w u
    rw [hp]; rfl
  | fflags => exact ctx_fpWrite s u _
  | frm => exact ctx_fpWrite s u _
  | fcsr => exact ctx_fpWrite s u _
  | ftran => exact ctx_fpWrite s u _
  | _ => rfl

theorem ctx_updWrite (s : Regs) (i : In) :
    ctx (updWrite cfg s i (updDefaults s i)).d = ctxWritten s i := by
  unfold updWrite ctxWritten
  by_cases hw : csrWe s i = true
  · rw [if_pos hw, if_pos hw]
    cases CsrReg.ofAddr i.csrAddr with
    | none => rfl
    | some r => exact ctx_csrWriteReg s _ _ r
  · rw [if_neg hw, if_neg hw]
    rfl

theorem ctx_updFflags (s : Regs) (i : In) (u : Upd) : ctx (updFflags s i u).d = ctx u.d := by
  unfold updFflags
  split <;> rfl

theorem ctx_updTrap (s : Regs) (i : In) (u : Upd) :
    ctx (updTrap s i u).d = ctxTrap s i (ctx u.d) := by
  have hlvl := trapToPrivLvl_eq s i
  unfold updTrap ctxTrap
  by_cases ht : trapTaken s i = true
  · rw [if_pos ht, if_pos ht]
    by_cases hS : trapToPrivLvl s i = privLvlS
    · have hm : trapMode s i = .s := if_pos hS
      rw [if_pos hS, hm]
      rfl
    · have hm : trapMode s i = .m := if_neg hS
      rw [if_neg hS, hlvl, hm]
      rfl
  · rw [if_neg ht, if_neg ht]

theorem ctx_updEbreak (s : Regs) (i : In) (u : Upd) :
    ctx (updEbreak s i u).d = ctxEbreak s i (ctx u.d) := by
  unfold updEbreak ctxEbreak
  split <;> rfl

theorem ctx_updDebugReq (i : In) (u : Upd) :
    ctx (updDebugReq i u).d = ctxDebugReq i (ctx u.d) := by
  unfold updDebugReq ctxDebugReq
  split <;> rfl

theorem ctx_updSingleStep (s : Regs) (i : In) (u : Upd) (hu : u.eret = false) :
    ctx (updSingleStep cfg s i u).d = ctxSingleStep cfg s i (ctx u.d) := by
  unfold updSingleStep ctxSingleStep stepDpc
  rw [hu]
  split <;> rfl

theorem ctx_updReturn (s : Regs) (i : In) (u : Upd) :
    ctx (updReturn s i u).d = ctxReturn s i (ctx u.d) := by
  have hU : privLvlU = 0#1 ++ BitVec.ofBool false := by decide
  unfold updReturn ctxReturn
  cases i.csrOp with
  | sret => simp only [ctxLeave, hU]; rfl
  | _ => rfl

theorem eret_csrWriteReg (s : Regs) (w : BitVec 64) (u : Upd) (r : CsrReg) :
    (csrWriteReg cfg s w u r).eret = u.eret := by
  have hfp (f : Fcsr) : (fpWrite s u f).eret = u.eret := by unfold fpWrite; split <;> rfl
  cases r <;> try first | rfl | exact hfp _
  simp only [csrWriteReg]
  split
  · rfl
  · split <;> rfl

theorem eret_updWrite (s : Regs) (i : In) : (updWrite cfg s i (updDefaults s i)).eret = false := by
  unfold updWrite
  split
  · split
    · rw [eret_csrWriteReg]; rfl
    · rfl
  · rfl

/-- Nothing before the returns raises `eret`. -/
theorem eret_updTrap (s : Regs) (i : In) : (updTrap s i <| updIrq i <| updFflags s i <|
    updStatus s i <| updWrite cfg s i <| updDefaults s i).eret = false := by
  have hf (u : Upd) : (updFflags s i u).eret = u.eret := by unfold updFflags; split <;> rfl
  have ht (u : Upd) : (updTrap s i u).eret = u.eret := by
    unfold updTrap
    split
    · split <;> rfl
    · rfl
  rw [ht, ← @eret_updWrite cfg s i]
  exact hf _

theorem eret_debugReq_ebreak (s : Regs) (i : In) (u : Upd) :
    (updDebugReq i (updEbreak s i u)).eret = u.eret := by
  unfold updDebugReq updEbreak
  split <;> split <;> rfl

theorem ctx_updDebug (s : Regs) (i : In) (u : Upd) (hu : u.eret = false) :
    ctx (updDebug cfg s i u).d = ctxDebug cfg s i (ctx u.d) := by
  unfold updDebug ctxDebug
  by_cases hd : s.debugMode = true
  · rw [if_pos hd, if_pos hd]
  · rw [if_neg hd, if_neg hd, ctx_updSingleStep, ctx_updDebugReq, ctx_updEbreak]
    · rfl
    · rw [eret_debugReq_ebreak]
      exact hu

/-- One cycle on the context: the write, the trap, the debug entry, the return. -/
theorem ctx_next (cfg : Cfg) (s : Regs) (i : In) : ctx (next cfg s i) =
    ctxReturn s i (ctxDebug cfg s i (ctxTrap s i (ctxWritten s i))) := by
  have hfinal : ctx (next cfg s i) = ctx (csrUpdate cfg s i).d := rfl
  have hmprv (u : Upd) : ctx (updMprv s u).d = ctx u.d := rfl
  have hirq (u : Upd) : ctx (updIrq i u).d = ctx u.d := rfl
  have hstat (u : Upd) : ctx (updStatus s i u).d = ctx u.d := rfl
  rw [hfinal, csrUpdate, ctx_updReturn, hmprv, ctx_updDebug _ _ _ (eret_updTrap s i), ctx_updTrap,
    hirq, ctx_updFflags, hstat, ctx_updWrite]

/-! ### What only the write drives -/

theorem getLsbD_setBit (w : BitVec 64) (n : ℕ) (b : Bool) (k : ℕ) :
    (setBit w n b).getLsbD k = if k = n then decide (k < 64) && b else w.getLsbD k := by
  by_cases hk : k < 64
  · by_cases hn : k = n
    · subst hn
      cases b <;> simp [setBit, hk]
    · have hlt : k < n ∨ n < k := by omega
      rcases hlt with h | h
      · simp [setBit, hk, hn, h]
      · have hnot : ¬k < n := by omega
        have h0 : k - n ≠ 0 := by omega
        cases b <;> simp [setBit, hk, hn, hnot, h0]
  · have hk' : 64 ≤ k := by omega
    simp [BitVec.getLsbD_of_ge _ k hk', hk]

/-- The bits of `mip` that the platform drives. -/
def platformBits : BitVec 64 := mipMsip ||| mipMtip ||| mipMeip

theorem setBit_and_platformBits {n : ℕ} (hn : platformBits.getLsbD n = true) (x : BitVec 64) (b : Bool) :
    setBit x n b &&& ~~~platformBits = x &&& ~~~platformBits := by
  apply BitVec.eq_of_getLsbD_eq
  intro k hk
  rw [BitVec.getLsbD_and, BitVec.getLsbD_and, BitVec.getLsbD_not, getLsbD_setBit]
  by_cases h : k = n
  · rw [h, hn]
    simp
  · rw [if_neg (by simpa using h)]

/-- `u` without what the parts of `csr_update` after `updStatus` assign. -/
def Upd.early (u : Upd) : Upd :=
  { u with
    eret := false
    flush := false
    setDebugPc := false
    d := { u.d with
      privLvl := 0
      fcsr := { u.d.fcsr with fflags := 0 }
      debugMode := false
      dcsr := { u.d.dcsr with prv := 0, cause := 0 }
      dpc := 0
      mstatus := { u.d.mstatus with
        mie := false, mpie := false, mpp := 0, sie := false, spie := false, spp := false }
      mip := u.d.mip &&& ~~~platformBits
      mepc := 0
      mcause := 0
      mtval := 0
      sepc := 0
      scause := 0
      stval := 0
      enLdStTranslation := false } }

theorem early_csrUpdate (cfg : Cfg) (s : Regs) (i : In) : (csrUpdate cfg s i).early =
    (updStatus s i (updWrite cfg s i (updDefaults s i))).early := by
  have hret (u : Upd) : (updReturn s i u).early = u.early := by
    unfold updReturn
    split <;> rfl
  have hstep (u : Upd) : (updSingleStep cfg s i u).early = u.early := by
    unfold updSingleStep
    split <;> rfl
  have hreq (u : Upd) : (updDebugReq i u).early = u.early := by
    unfold updDebugReq
    split <;> rfl
  have hebr (u : Upd) : (updEbreak s i u).early = u.early := by
    unfold updEbreak
    split <;> rfl
  have hdbg (u : Upd) : (updDebug cfg s i u).early = u.early := by
    unfold updDebug
    split
    · rfl
    · rw [hstep, hreq, hebr]
      rfl
  have htrap (u : Upd) : (updTrap s i u).early = u.early := by
    unfold updTrap
    split
    · split <;> rfl
    · rfl
  have hff (u : Upd) : (updFflags s i u).early = u.early := by
    unfold updFflags
    split <;> rfl
  have hmprv (u : Upd) : (updMprv s u).early = u.early := rfl
  have hirq (u : Upd) : (updIrq i u).early = u.early := by
    have hmip : (updIrq i u).d.mip &&& ~~~platformBits = u.d.mip &&& ~~~platformBits := by
      simp only [updIrq]
      rw [setBit_and_platformBits (by decide), setBit_and_platformBits (by decide),
        setBit_and_platformBits (by decide)]
    rw [Upd.early, hmip]
    rfl
  rw [csrUpdate, hret, hmprv, hdbg, htrap, hirq, hff]

/-- The outputs of `csr_update` that only the write assigns. -/
def writeOuts (u : Upd) : Bool × Bool := (u.updateAccessException, u.perfWe)

theorem writeOuts_csrUpdate (cfg : Cfg) (s : Regs) (i : In) :
    writeOuts (csrUpdate cfg s i) = writeOuts (updWrite cfg s i (updDefaults s i)) := by
  have h := congrArg writeOuts (early_csrUpdate cfg s i)
  exact h

/-! ### Refused operations -/

theorem csrWe_of_not_access (h : i.csrOp.isCsrAccess = false) : csrWe s i = false := by
  simp [csrWe, h]

theorem ctxWritten_of_not_access (h : i.csrOp.isCsrAccess = false) : ctxWritten s i = ctx s := by
  simp [ctxWritten, csrWe_of_not_access h]

/-- Only a CSR access raises an exception in the CSR file. -/
theorem csrExceptionO_of_not_access (h : i.csrOp.isCsrAccess = false) :
    csrExceptionO cfg s i = Exn.none := by
  have hu : (csrUpdate cfg s i).updateAccessException = false := by
    have hw := congrArg Prod.fst (writeOuts_csrUpdate cfg s i)
    unfold updWrite at hw
    rw [csrWe_of_not_access h] at hw
    exact hw
  simp [csrExceptionO, hu, readAccessException, csrRead, privilegeViolation, h]

/-- A write that raises an exception was refused by the register it went to. -/
theorem refused_of_writes {r : CsrReg} (hw : Writes s i r)
    (h : (csrExceptionO cfg s i).valid = true) : csrReadReg s i r = none ∨
      (csrWriteReg cfg s (csrWdata s i) (updDefaults s i) r).updateAccessException = true := by
  have hv : privilegeViolation s i = false := by
    have hwe := hw.1
    simp only [csrWe, Bool.and_eq_true, Bool.not_eq_true'] at hwe
    exact hwe.2
  have hu := congrArg Prod.fst (writeOuts_csrUpdate cfg s i)
  rw [updWrite_of_writes hw] at hu
  by_contra hn
  rw [not_or, Bool.not_eq_true] at hn
  have hu' : (csrUpdate cfg s i).updateAccessException = false := hu.trans hn.2
  have hr : readAccessException s i = false := by
    simp only [readAccessException, csrReadAddr, hw.2, Option.bind_some]
    cases hread : csrReadReg s i r with
    | none => exact absurd hread hn.1
    | some w => simp
  simp [csrExceptionO, hu', hr, hv, Exn.none] at h

/-- A refused write leaves the context as it is. -/
theorem ctxWritten_of_exception (cfg : Cfg) (h : (csrExceptionO cfg s i).valid = true) :
    ctxWritten s i = ctx s := by
  rcases ctxWritten_cases s i with ⟨r, hr, hx⟩ | hx
  · rw [hx]
    have hrefused := refused_of_writes hr h
    cases r <;> first | rfl | (rcases hrefused with h | h <;> cases h)
  · exact hx

/-- Whether a write is refused does not depend on what is assigned before it. -/
theorem csrWriteReg_refused (cfg : Cfg) (s : Regs) (w : BitVec 64) {u u' : Upd}
    (h : u.updateAccessException = u'.updateAccessException) (r : CsrReg) :
    (csrWriteReg cfg s w u r).updateAccessException =
      (csrWriteReg cfg s w u' r).updateAccessException := by
  have hfp (f f' : Fcsr) :
      (fpWrite s u f).updateAccessException = (fpWrite s u' f').updateAccessException := by
    unfold fpWrite
    split
    · rfl
    · exact h
  cases r with
  | fflags => exact hfp _ _
  | frm => exact hfp _ _
  | fcsr => exact hfp _ _
  | ftran => exact hfp _ _
  | satp =>
    simp only [csrWriteReg]
    split
    · rfl
    · split <;> exact h
  | _ => first | exact h | rfl

/-- What the CSR file answers depends on the request and the pins it reads. -/
theorem csrExceptionO_congr {i' : In} (hop : i'.csrOp = i.csrOp) (ha : i'.csrAddr = i.csrAddr)
    (hw : i'.csrWdata = i.csrWdata) (hh : i'.hartId = i.hartId) (hp : i'.perfData = i.perfData) :
    csrExceptionO cfg s i' = csrExceptionO cfg s i := by
  have hviol : privilegeViolation s i' = privilegeViolation s i := by
    simp only [privilegeViolation, hop, ha]
  have hread : csrRead s i' = csrRead s i := by simp only [csrRead, hop, hviol]
  have hwe : csrWe s i' = csrWe s i := by simp only [csrWe, hop, hviol]
  have hreg : csrReadReg s i' = csrReadReg s i := by
    funext r
    cases r <;> first | rfl | simp only [csrReadReg, hh, hp]
  have haddr : csrReadAddr s i' = csrReadAddr s i := by rw [csrReadAddr, ha, hreg, csrReadAddr]
  have hdata : csrWdata s i' = csrWdata s i := by
    simp only [csrWdata, csrRdata, hop, hw, hread, haddr]
  have hupd : (csrUpdate cfg s i').updateAccessException =
      (csrUpdate cfg s i).updateAccessException := by
    have h1 := congrArg Prod.fst (writeOuts_csrUpdate cfg s i)
    have h2 := congrArg Prod.fst (writeOuts_csrUpdate cfg s i')
    refine h2.trans (Eq.trans ?_ h1.symm)
    simp only [updWrite, hwe, ha, hdata, writeOuts]
    split
    · split
      · apply csrWriteReg_refused
        rfl
      · rfl
    · rfl
  have hracc : readAccessException s i' = readAccessException s i := by
    simp only [readAccessException, haddr, hread]
  rw [csrExceptionO, hupd, hracc, hviol, csrExceptionO]

end Csr
end Ariane

/-
# What supervisor mode can reach

`sstatus`, `sie` and `sip` are views of `mstatus`, `mie` and `mip`: a write through a view
moves the bits of the view and no others (`ViewLaw`). In supervisor and user mode nothing else
leads to the state of machine mode, except that the privilege check of `csr_regfile.sv` lets
every mode write `mcause`. So between two traps to machine mode its state is as it was exactly
if no such write changes `mcause`: `supervisor_frame_iff`.

The performance counters run on. They are as they were but for the events they counted.
-/
import Ariane.Csr.WriteRead

namespace Ariane
namespace Csr

open Riscv Lib

/-! ### The state of machine mode -/

/-- `mstatus` without the bits a supervisor writes and the summary bit. -/
def machineStatus (m : Status) : Status :=
  Status.ofBits (maskWrite (smodeStatusWriteMask ||| sstatus64Sd) m.toBits 0)

theorem machineStatus_eq (m : Status) : machineStatus m = { m with
    sd := false, mxr := false, sum := false, fs := 0, spp := false, spie := false, sie := false } := by
  have h : machineStatus m = { Status.ofBits m.toBits with
      sd := false, mxr := false, sum := false, fs := 0, spp := false, spie := false, sie := false } := by
    apply Status.ext <;> first
      | exact extractLsb'_maskWrite _ _ _ _ _ (by decide)
      | exact extractLsb'_maskWrite_of_mem _ _ _ _ _ (by decide)
      | exact getLsbD_maskWrite _ _ _ _
  rw [h, Status.ofBits_toBits]

/-- The registers only machine mode writes, but for those of a trap. -/
def machineRegs (r : Regs) : BitVec 64 × BitVec 64 × BitVec 64 × BitVec 64 × BitVec 64 × BitVec 64 :=
  (r.medeleg, r.mideleg, r.mtvec, r.mscratch, r.dcache, r.icache)

/-- `t` has the state of machine mode that `s` has. -/
structure Frame (s t : Regs) : Prop where
  mstatus : machineStatus t.mstatus = machineStatus s.mstatus
  mie : ∀ k, s.mideleg.getLsbD k = false → t.mie.getLsbD k = s.mie.getLsbD k
  mip : ∀ k, platformBits.getLsbD k = false → (k = irqSSoft → s.mideleg.getLsbD k = false) →
    t.mip.getLsbD k = s.mip.getLsbD k
  regs : machineRegs t = machineRegs s
  mepc : t.mepc = s.mepc
  mcause : t.mcause = s.mcause
  mtval : t.mtval = s.mtval

theorem Frame.refl (s : Regs) : Frame s s := ⟨rfl, fun _ _ => rfl, fun _ _ _ => rfl, rfl, rfl, rfl, rfl⟩

theorem Frame.mideleg {s t : Regs} (h : Frame s t) : t.mideleg = s.mideleg :=
  congrArg (fun x => x.2.1) h.regs

theorem Frame.trans {s t u : Regs} (h : Frame s t) (h' : Frame t u) : Frame s u where
  mstatus := h'.mstatus.trans h.mstatus
  mie k hk := (h'.mie k (h.mideleg ▸ hk)).trans (h.mie k hk)
  mip k hk hs := (h'.mip k hk (fun he => h.mideleg ▸ hs he)).trans (h.mip k hk hs)
  regs := h'.regs.trans h.regs
  mepc := h'.mepc.trans h.mepc
  mcause := h'.mcause.trans h.mcause
  mtval := h'.mtval.trans h.mtval

/-- The counter `n` counts an event in the cycle. -/
def counted (cfg : Cfg) (n : Fin 14) (s : Sys) (i : SysIn) : Bool :=
  !s.csr.debugMode && perfEvent i.perf i.csr (eretO cfg s.csr (s.pins i)) n

/-- After the inputs `is` the state of machine mode is as it was, and the counters have counted
their events. -/
structure Confined (cfg : Cfg) (s : Sys) (is : List SysIn) : Prop where
  frame : Frame s.csr ((sysMachine cfg).run s is).csr
  perf : ∀ n, ((sysMachine cfg).run s is).perf n =
    s.perf n + BitVec.ofNat 64 ((sysMachine cfg).count (counted cfg n) s is)

/-! ### The views -/

/-- A permitted write through a view, beside a read in its place: the register behind the view
is all that differs, and of it only the bits of the view move. -/
structure ViewLaw (cfg : Cfg) (s : Sys) (i : SysIn) : Prop where
  sstatus : Access cfg s i .sstatus → ∃ m, s.next cfg i = { s.next cfg i.reading with csr.mstatus := m } ∧
    machineStatus m = machineStatus s.csr.mstatus
  sie : Access cfg s i .sie → ∃ w, s.next cfg i = { s.next cfg i.reading with csr.mie := w } ∧
    ∀ k, s.csr.mideleg.getLsbD k = false → w.getLsbD k = s.csr.mie.getLsbD k
  sip : Access cfg s i .sip → ∃ w, s.next cfg i = { s.next cfg i.reading with csr.mip := w } ∧
    ∀ k, platformBits.getLsbD k = false → (k = irqSSoft → s.csr.mideleg.getLsbD k = false) →
      w.getLsbD k = s.csr.mip.getLsbD k

/-- The cycle belongs to supervisor or user mode, and no trap to machine mode ends it. The
decoder lets no MRET and no DRET through there. -/
structure Supervised (s : Sys) (i : SysIn) : Prop where
  debugMode : s.csr.debugMode = false
  privLvl : s.csr.privLvl = privLvlS ∨ s.csr.privLvl = privLvlU
  noTrap : ¬TrapsTo s.csr (s.pins i) .m
  noMret : i.csr.csrOp ≠ .mret
  noDret : i.csr.csrOp ≠ .dret

/-- A write of `mcause` puts back what the register holds. -/
def KeepsMcause (s : Sys) (i : SysIn) : Prop :=
  Writes s.csr (s.pins i) .mcause → s.wdata i = s.csr.mcause

/-- The first edge is past: the boot vector and the widths of `mstatus` are loaded. -/
structure Booted (r : Regs) : Prop where
  mtvecRstLoad : r.mtvecRstLoad = false
  sxl : r.mstatus.sxl = xlen64
  uxl : r.mstatus.uxl = xlen64

variable {cfg : Cfg} {s : Sys} {i : SysIn}

theorem booted_next (cfg : Cfg) (r : Regs) (j : In) : Booted (next cfg r j) := by
  have h := congrArg (fun u : Upd => (u.d.mstatus.sxl, u.d.mstatus.uxl)) (early_csrUpdate cfg r j)
  obtain ⟨hs, hu⟩ := Prod.mk.inj h
  exact ⟨rfl, hs, hu⟩

/-! ### A write through a view -/

theorem machineStatus_sstatusOfWrite (r : Regs) (w : BitVec 64) :
    machineStatus (sstatusOfWrite r w) = machineStatus r.mstatus := by
  rw [machineStatus_eq, machineStatus_eq, sstatusOfWrite_eq]

theorem machineStatus_statusEdge {r : Regs} (hb : Booted r) {m : Status}
    (h : machineStatus m = machineStatus r.mstatus) :
    machineStatus (statusEdge r.mstatus m) = machineStatus r.mstatus := by
  rw [machineStatus_eq, machineStatus_eq, Status.mk.injEq] at h
  rw [machineStatus_eq, machineStatus_eq, Status.mk.injEq]
  simp only [statusEdge, hb.sxl, hb.uxl]
  tauto

/-- A read in place of a write changes nothing else of the edge. -/
theorem calmNext_reading {r : CsrReg} (h : Access cfg s i r) (u : Upd) :
    calmNext s.csr i.reading.csr u = calmNext s.csr i.csr u := by
  have hop : (i.csr.csrOp == .wfi) = false := by
    have hwe := h.writes.1
    simp only [csrWe, Bool.and_eq_true] at hwe
    have hacc : i.csr.csrOp.isCsrAccess = true := hwe.1.1
    cases ho : i.csr.csrOp <;> first | rfl | (rw [ho] at hacc; cases hacc)
  have hwfi : wfiNext s.csr i.reading.csr = wfiNext s.csr i.csr := by
    have hread : (i.reading.csr.csrOp == .wfi) = false := rfl
    unfold wfiNext
    rw [hread, hop]
    rfl
  have hrest : calmNext s.csr i.reading.csr u =
      { calmNext s.csr i.csr u with wfi := wfiNext s.csr i.reading.csr } := rfl
  rw [hrest, hwfi]
  rfl

/-- The edge with the write beside that with the read. -/
theorem Access.next_eq {r : CsrReg} (h : Access cfg s i r)
    (hp : (csrWriteReg cfg s.csr (s.wdata i) (updDefaults s.csr i.csr) r).perfWe = false) :
    s.next cfg i = { s.next cfg i.reading with
      csr := calmNext s.csr i.csr (csrWriteReg cfg s.csr (s.wdata i) (updDefaults s.csr i.csr) r) } := by
  have hperf : (s.next cfg i).perf = (s.next cfg i.reading).perf := by
    rw [h.perf_next, perf_next_reading h.calm]
    dsimp only
    rw [hp]
    rfl
  dsimp only
  rw [← h.csr_next, ← hperf]

theorem csr_reading {r : CsrReg} (h : Access cfg s i r) :
    (s.next cfg i.reading).csr = calmNext s.csr i.csr (updDefaults s.csr i.csr) := by
  rw [csr_next_reading h.calm, calmNext_reading h]

theorem getLsbD_lines {k : ℕ} (hk : platformBits.getLsbD k = false) (j : In) (x : BitVec 64) :
    (lines j x).getLsbD k = x.getLsbD k := by
  have h : lines j x &&& ~~~platformBits = x &&& ~~~platformBits := by
    rw [lines, setBit_and_platformBits (by decide), setBit_and_platformBits (by decide),
      setBit_and_platformBits (by decide)]
  have hbit := congrArg (fun y => y.getLsbD k) h
  simp only [BitVec.getLsbD_and, BitVec.getLsbD_not, hk, Bool.not_false, Bool.and_true] at hbit
  by_cases h64 : k < 64
  · simpa [h64] using hbit
  · rw [BitVec.getLsbD_of_ge _ k (by omega), BitVec.getLsbD_of_ge _ k (by omega)]

/-- `sip` writes one bit, if it is delegated. -/
theorem getLsbD_ssip {d : BitVec 64} {k : ℕ} (h : k = irqSSoft → d.getLsbD k = false) :
    (mipSsip &&& d).getLsbD k = false := by
  rw [BitVec.getLsbD_and]
  by_cases he : k = irqSSoft
  · rw [h he, Bool.and_false]
  · have hval : mipSsip = BitVec.twoPow 64 irqSSoft := by decide
    have hone : mipSsip.getLsbD k = false := by
      rw [hval, BitVec.getLsbD_twoPow, decide_eq_false (Ne.symm he), Bool.and_false]
    rw [hone, Bool.false_and]

theorem viewLaw (hb : s.csr.mtvecRstLoad = false → Booted s.csr) : ViewLaw cfg s i := by
  constructor
  · intro h
    refine ⟨statusEdge s.csr.mstatus (sstatusOfWrite s.csr (s.wdata i)), ?_,
      machineStatus_statusEdge (hb h.booted) (machineStatus_sstatusOfWrite _ _)⟩
    rw [h.next_eq rfl]
    dsimp only
    rw [csr_reading h]
    rfl
  · intro h
    refine ⟨maskWrite s.csr.mideleg s.csr.mie (s.wdata i), ?_, fun k hk => ?_⟩
    · rw [h.next_eq rfl]
      dsimp only
      rw [csr_reading h]
      rfl
    · rw [getLsbD_maskWrite, hk]
      rfl
  · intro h
    refine ⟨lines i.csr (maskWrite (mipSsip &&& s.csr.mideleg) s.csr.mip (s.wdata i)), ?_, fun k hk hs => ?_⟩
    · rw [h.next_eq rfl]
      dsimp only
      rw [csr_reading h]
      rfl
    · rw [getLsbD_lines hk, getLsbD_maskWrite, getLsbD_ssip hs]
      rfl

/-! ### A cycle below machine mode -/

/-- The registers such a cycle can write: those of its levels, and `mcause`. -/
theorem writes_supervised {r : CsrReg} (h : Supervised s i) (hw : Writes s.csr (s.pins i) r) :
    r = .mcause ∨ csrPrivLvl r.addr = privLvlS ∨ csrPrivLvl r.addr = privLvlU := by
  have ha : i.csr.csrAddr = r.addr := (CsrReg.addr_of_ofAddr hw.2).symm
  by_cases hm : i.csr.csrAddr = CsrReg.mcause.addr
  · left
    have h1 : CsrReg.ofAddr CsrReg.mcause.addr = some r := hm ▸ hw.2
    rw [CsrReg.ofAddr_addr] at h1
    exact (Option.some.inj h1).symm
  · right
    have hv : privilegeViolation s.csr (s.pins i) = false := by
      have hwe := hw.1
      simp only [csrWe, Bool.and_eq_true, Bool.not_eq_true'] at hwe
      exact hwe.2
    have hacc : (s.pins i).csrOp.isCsrAccess = true := by
      have hwe := hw.1
      simp only [csrWe, Bool.and_eq_true] at hwe
      exact hwe.1.1
    have hO : privLvlO s.csr = s.csr.privLvl := by simp [privLvlO, h.debugMode]
    have haddr : (s.pins i).csrAddr = r.addr := ha
    rw [ha] at hm
    simp only [privilegeViolation, hacc, hO, haddr, Bool.true_and, Bool.or_eq_false_iff,
      beq_eq_false_iff_ne.2 hm, Bool.not_false, Bool.and_true, bne_eq_false_iff_eq] at hv
    have hlvl : ∀ p q : PrivLvl, (p = privLvlS ∨ p = privLvlU) → p &&& q = q → q = privLvlS ∨ q = privLvlU := by
      decide
    exact hlvl _ _ h.privLvl hv.1

/-- `mstatus` without what a supervisor writes, the stacks, and what every edge sets. -/
def quietStatus (m : Status) : Status :=
  { m with
    sd := false, sxl := 0, uxl := 0, mxr := false, sum := false, fs := 0
    mie := false, mpie := false, mpp := 0, sie := false, spie := false, spp := false }

/-- The write of the cycle spares the state of machine mode, as far as no trap has it. -/
structure Spared (r : Regs) (u : Upd) : Prop where
  regs : machineRegs u.d = machineRegs r
  status : quietStatus u.d.mstatus = quietStatus r.mstatus
  mie : ∀ k, r.mideleg.getLsbD k = false → u.d.mie.getLsbD k = r.mie.getLsbD k
  mip : ∀ k, (k = irqSSoft → r.mideleg.getLsbD k = false) → u.d.mip.getLsbD k = r.mip.getLsbD k
  perfWe : u.perfWe = false

theorem spared_defaults {r : Regs} (hb : r.mtvecRstLoad = false) (j : In) : Spared r (updDefaults r j) := by
  refine ⟨?_, rfl, fun _ _ => rfl, fun _ _ => rfl, rfl⟩
  simp [machineRegs, updDefaults, hb]

theorem spared_csrWriteReg {r : Regs} {u : Upd} {q : CsrReg} (hu : Spared r u) (w : BitVec 64)
    (hq : q = .mcause ∨ csrPrivLvl q.addr = privLvlS ∨ csrPrivLvl q.addr = privLvlU) :
    Spared r (csrWriteReg cfg r w u q) := by
  have hfp (f : Fcsr) : Spared r (fpWrite r u f) := by
    unfold fpWrite
    split
    · exact ⟨hu.regs, hu.status, hu.mie, hu.mip, hu.perfWe⟩
    · exact ⟨hu.regs, hu.status, hu.mie, hu.mip, hu.perfWe⟩
  have hsame {v : Upd} (h1 : machineRegs v.d = machineRegs u.d) (h2 : v.d.mstatus = u.d.mstatus)
      (h3 : v.d.mie = u.d.mie) (h4 : v.d.mip = u.d.mip) (h5 : v.perfWe = u.perfWe) : Spared r v :=
    ⟨h1.trans hu.regs, h2 ▸ hu.status, h3 ▸ hu.mie, h4 ▸ hu.mip, h5.trans hu.perfWe⟩
  cases q with
  | fflags => exact hfp _
  | frm => exact hfp _
  | fcsr => exact hfp _
  | ftran => exact hfp _
  | sstatus =>
    refine ⟨hu.regs, ?_, hu.mie, hu.mip, hu.perfWe⟩
    simp only [csrWriteReg, sstatusOfWrite_eq]
    rfl
  | sie =>
    refine ⟨hu.regs, hu.status, fun k hk => ?_, hu.mip, hu.perfWe⟩
    simp only [csrWriteReg, getLsbD_maskWrite, hk]
    rfl
  | sip =>
    refine ⟨hu.regs, hu.status, hu.mie, fun k hk => ?_, hu.perfWe⟩
    simp only [csrWriteReg, getLsbD_maskWrite, getLsbD_ssip hk]
    rfl
  | satp =>
    simp only [csrWriteReg]
    split
    · exact hsame rfl rfl rfl rfl rfl
    · split <;> exact hsame rfl rfl rfl rfl rfl
  | mhpmcounter n =>
    exfalso
    revert n
    decide
  | stvec | scounteren | sscratch | sepc | scause | stval | mcause => exact hsame rfl rfl rfl rfl rfl
  | _ => exact absurd hq (by decide)

theorem spared_updWrite (h : Supervised s i) (hb : s.csr.mtvecRstLoad = false) :
    Spared s.csr (updWrite cfg s.csr (s.pins i) (updDefaults s.csr (s.pins i))) := by
  have hd := spared_defaults hb (s.pins i)
  unfold updWrite
  split
  · rename_i hwe
    split
    · rename_i r hr
      exact spared_csrWriteReg hd _ (writes_supervised h ⟨hwe, hr⟩)
    · exact ⟨hd.regs, hd.status, hd.mie, hd.mip, hd.perfWe⟩
  · exact hd

/-- The trap registers and the stack of machine mode after such a cycle. -/
theorem ctx_supervised (h : Supervised s i) :
    (ctx (s.next cfg i).csr).stack.m = (statusStacks s.csr.mstatus).m ∧
      (ctx (s.next cfg i).csr).trap.m = { (trapCsrs s.csr).m with
        cause := if Writes s.csr (s.pins i) .mcause then s.wdata i else s.csr.mcause } := by
  have hret (x : Ctx) : (ctxReturn s.csr (s.pins i) x).stack.m = x.stack.m := by
    have hmret : (s.pins i).csrOp ≠ .mret := h.noMret
    unfold ctxReturn
    split
    · rename_i hop
      exact absurd hop hmret
    · rfl
    · rfl
    · rfl
  have htrap (x : Ctx) : (ctxTrap s.csr (s.pins i) x).stack.m = x.stack.m ∧
      (ctxTrap s.csr (s.pins i) x).trap.m = x.trap.m := by
    unfold ctxTrap
    split
    · rename_i ht
      cases hm : trapMode s.csr (s.pins i) with
      | m => exact absurd ⟨ht, hm⟩ h.noTrap
      | s => exact ⟨rfl, rfl⟩
    · exact ⟨rfl, rfl⟩
  have hnext : ctx (s.next cfg i).csr = _ := ctx_next cfg s.csr (s.pins i)
  rw [hnext, hret, ctxReturn_trap, ctxDebug_stack, ctxDebug_trap, (htrap _).1, (htrap _).2]
  rcases ctxWritten_cases s.csr (s.pins i) with ⟨r, hr, hx⟩ | hx
  · rw [hx]
    have hlvl := writes_supervised h hr
    have hiff : Writes s.csr (s.pins i) .mcause ↔ r = .mcause :=
      ⟨fun h' => Option.some.inj (hr.2.symm.trans h'.2), fun he => he ▸ hr⟩
    cases r with
    | mcause => rw [if_pos hr]; exact ⟨rfl, rfl⟩
    | sstatus =>
      rw [if_neg (by rw [hiff]; nofun)]
      exact ⟨statusStacks_sstatusOfWrite s.csr _, rfl⟩
    | mstatus | mepc | mtval => exact absurd hlvl (by decide)
    | _ => rw [if_neg (by rw [hiff]; nofun)]; exact ⟨rfl, rfl⟩
  · rw [hx]
    by_cases hw : Writes s.csr (s.pins i) .mcause
    · have hcause := congrArg (fun x : Ctx => x.trap.m.cause) hx
      have hwritten : ctxWritten s.csr (s.pins i) = ctxWrite s.csr (s.wdata i) (ctx s.csr) .mcause := by
        unfold ctxWritten
        rw [if_pos hw.1, hw.2]
        rfl
      rw [hwritten] at hcause
      rw [if_pos hw]
      exact ⟨rfl, by rw [show s.wdata i = s.csr.mcause from hcause]; rfl⟩
    · rw [if_neg hw]
      exact ⟨rfl, rfl⟩

/-- The frame of a cycle below machine mode, but for `mcause`. -/
theorem frame_of_mcause (h : Supervised s i) (hb : Booted s.csr)
    (hm : (s.next cfg i).csr.mcause = s.csr.mcause) : Frame s.csr (s.next cfg i).csr := by
  have hsp := @spared_updWrite cfg s i h hb.mtvecRstLoad
  obtain ⟨hstack, htrap⟩ := @ctx_supervised cfg s i h
  have hearly := early_csrUpdate cfg s.csr (s.pins i)
  have hbn := booted_next cfg s.csr (s.pins i)
  constructor
  · have hq : quietStatus (s.next cfg i).csr.mstatus = quietStatus s.csr.mstatus := by
      have hobs := congrArg (fun u : Upd => quietStatus u.d.mstatus) hearly
      exact Eq.trans hobs hsp.status
    have hst : Stack.mk (s.next cfg i).csr.mstatus.mie (s.next cfg i).csr.mstatus.mpie
        (s.next cfg i).csr.mstatus.mpp = Stack.mk s.csr.mstatus.mie s.csr.mstatus.mpie s.csr.mstatus.mpp := hstack
    obtain ⟨hmie, hmpie, hmpp⟩ := Stack.mk.inj hst
    have hsxl : (s.next cfg i).csr.mstatus.sxl = xlen64 := hbn.sxl
    have huxl : (s.next cfg i).csr.mstatus.uxl = xlen64 := hbn.uxl
    rw [quietStatus, quietStatus, Status.mk.injEq] at hq
    rw [machineStatus_eq, machineStatus_eq, Status.mk.injEq, hmie, hmpie, hmpp, hsxl, huxl, hb.sxl, hb.uxl]
    tauto
  · intro k hk
    have hobs := congrArg (fun u : Upd => u.d.mie.getLsbD k) hearly
    exact Eq.trans hobs (hsp.mie k hk)
  · intro k hp hk
    have hobs := congrArg (fun u : Upd => u.d.mip.getLsbD k) hearly
    have hclear (x : BitVec 64) : (x &&& ~~~platformBits).getLsbD k = x.getLsbD k := by
      rw [BitVec.getLsbD_and, BitVec.getLsbD_not, hp]
      by_cases h64 : k < 64
      · simp [h64]
      · rw [BitVec.getLsbD_of_ge x k (by omega), Bool.false_and]
    have hobs' : ((s.next cfg i).csr.mip &&& ~~~platformBits).getLsbD k =
        ((updWrite cfg s.csr (s.pins i) (updDefaults s.csr (s.pins i))).d.mip &&& ~~~platformBits).getLsbD k := hobs
    rw [hclear, hclear] at hobs'
    exact hobs'.trans (hsp.mip k hk)
  · have hobs := congrArg (fun u : Upd => machineRegs u.d) hearly
    exact Eq.trans hobs hsp.regs
  · exact congrArg TrapCsrs.epc htrap
  · exact hm
  · exact congrArg TrapCsrs.tval htrap

theorem perf_supervised (h : Supervised s i) (hb : Booted s.csr) (n : Fin 14) :
    (s.next cfg i).perf n = s.perf n + BitVec.ofNat 64 (counted cfg n s i).toNat := by
  have hwe : (csrUpdate cfg s.csr (s.pins i)).perfWe = false :=
    (congrArg Prod.snd (writeOuts_csrUpdate cfg s.csr (s.pins i))).trans
      (@spared_updWrite cfg s i h hb.mtvecRstLoad).perfWe
  have hnext : (s.next cfg i).perf n = if counted cfg n s i then s.perf n + 1 else s.perf n := by
    simp only [Sys.next, perfNext, hwe, Bool.false_and, Bool.false_eq_true, if_false, counted, eretO]
    rfl
  rw [hnext]
  cases counted cfg n s i
  · simp
  · rfl

/-- One cycle below machine mode is confined exactly if it keeps `mcause`. -/
theorem confined_iff (h : Supervised s i) (hb : Booted s.csr) : Confined cfg s [i] ↔ KeepsMcause s i := by
  have hcause := congrArg TrapCsrs.cause (@ctx_supervised cfg s i h).2
  have hcause' : (s.next cfg i).csr.mcause =
      if Writes s.csr (s.pins i) .mcause then s.wdata i else s.csr.mcause := hcause
  constructor
  · intro hc hw
    have hm : (s.next cfg i).csr.mcause = s.csr.mcause := hc.frame.mcause
    rw [hcause', if_pos hw] at hm
    exact hm
  · intro hk
    constructor
    · refine frame_of_mcause h hb ?_
      rw [hcause']
      split
      · rename_i hw
        exact hk hw
      · rfl
    · intro n
      exact perf_supervised h hb n

/-! ### Runs -/

theorem Confined.nil (cfg : Cfg) (s : Sys) : Confined cfg s [] :=
  ⟨Frame.refl s.csr, fun _ => (BitVec.add_zero _).symm⟩

theorem Confined.cons {is : List SysIn} (h : Confined cfg s [i]) (h' : Confined cfg (s.next cfg i) is) :
    Confined cfg s (i :: is) := by
  refine ⟨h.frame.trans h'.frame, fun n => ?_⟩
  have h1 : (s.next cfg i).perf n = s.perf n + BitVec.ofNat 64 ((counted cfg n s i).toNat + 0) := h.perf n
  have h2 : ((sysMachine cfg).run s (i :: is)).perf n = (s.next cfg i).perf n +
      BitVec.ofNat 64 ((sysMachine cfg).count (counted cfg n) (s.next cfg i) is) := h'.perf n
  have h3 : (sysMachine cfg).count (counted cfg n) s (i :: is) = (counted cfg n s i).toNat +
      (sysMachine cfg).count (counted cfg n) (s.next cfg i) is := rfl
  rw [h2, h1, h3, Nat.add_zero, BitVec.ofNat_add, BitVec.add_assoc]

/-- Machine mode until the first edge, booted from then on. -/
def BootInv (s : Sys) : Prop := s.csr = reset ∨ Booted s.csr

theorem Supervised.booted (h : Supervised s i) (hs : BootInv s) : Booted s.csr := by
  rcases hs with hs | hs
  · have hp := h.privLvl
    rw [hs] at hp
    exact absurd hp (by decide)
  · exact hs

theorem viewLaw_of_bootInv (hs : BootInv s) : ViewLaw cfg s i := by
  apply viewLaw
  intro hb
  rcases hs with hs | hs
  · rw [hs] at hb
    cases hb
  · exact hs

/-- In a run from reset every write through a view moves the bits of the view alone, and every
stretch below machine mode leaves the state of machine mode as it was, exactly if no write
from below changes `mcause`. -/
theorem supervisor_frame_iff (cfg : Cfg) (is : List SysIn) :
    (sysMachine cfg).Steps (ViewLaw cfg) ⟨reset, fun _ => 0⟩ is ∧
        (∀ pre mid post, is = pre ++ mid ++ post →
          (sysMachine cfg).Steps Supervised ((sysMachine cfg).run ⟨reset, fun _ => 0⟩ pre) mid →
          Confined cfg ((sysMachine cfg).run ⟨reset, fun _ => 0⟩ pre) mid) ↔
      (sysMachine cfg).Steps (fun s i => Supervised s i → KeepsMcause s i) ⟨reset, fun _ => 0⟩ is := by
  have hstep : ∀ s i, BootInv s → True → BootInv ((sysMachine cfg).next s i) :=
    fun s i _ _ => .inr (booted_next cfg s.csr (s.pins i))
  have htrue := Machine.steps_true (M := sysMachine cfg) is ⟨reset, fun _ => 0⟩
  have hview : (sysMachine cfg).Steps (ViewLaw cfg) ⟨reset, fun _ => 0⟩ is :=
    Machine.steps_of_inv hstep (fun s i hs _ => viewLaw_of_bootInv hs) is _ (.inl rfl) htrue
  have hstretch := @Machine.stretch_iff _ _ (sysMachine cfg) Supervised (fun s i => Confined cfg s [i])
    (Confined cfg) (Confined.nil cfg) (fun s i is h h' => h.cons h') (fun s i h => h) is ⟨reset, fun _ => 0⟩
  rw [and_iff_right hview, hstretch]
  refine Machine.steps_congr_of_inv hstep (fun s i hs _ => ?_) is _ (.inl rfl) htrue
  exact forall_congr' fun h => confined_iff h (h.booted hs)

/-- User mode writes `mcause`, right after it was entered. -/
theorem mcause_escapes : let is : List SysIn :=
      [⟨In.idle, PerfIn.idle⟩, ⟨In.op .mret, PerfIn.idle⟩, .op .csrWrite .mcause 5]
    ¬((sysMachine socCfg).Steps (ViewLaw socCfg) ⟨reset, fun _ => 0⟩ is ∧
      ∀ pre mid post, is = pre ++ mid ++ post →
        (sysMachine socCfg).Steps Supervised ((sysMachine socCfg).run ⟨reset, fun _ => 0⟩ pre) mid →
        Confined socCfg ((sysMachine socCfg).run ⟨reset, fun _ => 0⟩ pre) mid) := by
  rintro is ⟨-, h⟩
  have hc := h [⟨In.idle, PerfIn.idle⟩, ⟨In.op .mret, PerfIn.idle⟩] [.op .csrWrite .mcause 5] [] rfl
    ⟨⟨rfl, .inr rfl, by decide, by decide, by decide⟩, trivial⟩
  exact absurd hc.frame.mcause (by decide)

end Csr
end Ariane

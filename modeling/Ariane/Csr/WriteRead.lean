/-
# Writing and reading back a CSR

A CSR instruction writes a register of `csr_regfile.sv`, or through it a counter of
`perf_counters.sv`. This module runs the two together (`Sys`) and compares a run with the
write and the same run without it: the first is the second with one register patched
(`Patch`), all along the cycles in which nothing but ordinary instructions retires
(`Patched.next`).

What the register has to hold is said by itself, as a word (`legal`). The file holds it but
for two registers (`write_law_iff`): `minstret`, whose write goes to a variable that nothing
reads any more, and `dcsr`, whose write also sets `xdebugver` and `prv`.
-/
import Ariane.Csr.Cycle

namespace Ariane
namespace Csr

open Riscv Lib

/-! ### Bits of a written word -/

theorem extract_append_zero (w : BitVec 64) : w.extractLsb' 1 63 ++ 0#1 = setBit w 0 false := by
  apply BitVec.eq_of_getLsbD_eq
  intro k hk
  rw [getLsbD_setBit, BitVec.getLsbD_append]
  by_cases h0 : k = 0
  · simp [h0]
  · have h1 : ¬k < 1 := by omega
    have h2 : k - 1 < 63 := by omega
    have h3 : 1 + (k - 1) = k := by omega
    simp [h0, h2, h3]

theorem extract_append_mode (w : BitVec 64) :
    w.extractLsb' 2 62 ++ 0#1 ++ w.extractLsb' 0 1 = setBit w 1 false := by
  apply BitVec.eq_of_getLsbD_eq
  intro k hk
  rw [getLsbD_setBit, BitVec.getLsbD_append, BitVec.getLsbD_append]
  by_cases h0 : k = 0
  · simp [h0]
  · by_cases h1 : k = 1
    · simp [h1]
    · have h2 : ¬k < 1 := by omega
      have h3 : ¬k - 1 < 1 := by omega
      have h4 : k - 1 - 1 < 62 := by omega
      have h5 : 2 + (k - 1 - 1) = k := by omega
      simp [h1, h2, h3, h4, h5]

theorem extract_append_vectored (w : BitVec 64) :
    w.extractLsb' 8 56 ++ 0#7 ++ w.extractLsb' 0 1 = maskWrite 0xfe w 0 := by
  apply BitVec.eq_of_getLsbD_eq
  intro k hk
  rw [getLsbD_maskWrite, BitVec.getLsbD_append, BitVec.getLsbD_append]
  by_cases h8 : k < 8
  · have hcases : k = 0 ∨ k = 1 ∨ k = 2 ∨ k = 3 ∨ k = 4 ∨ k = 5 ∨ k = 6 ∨ k = 7 := by omega
    rcases hcases with rfl | rfl | rfl | rfl | rfl | rfl | rfl | rfl <;> simp
  · have hm : (0xfe#64).getLsbD k = false := by
      rw [BitVec.getLsbD_ofNat]
      have hb : (0xfe : ℕ).testBit k = false := Nat.testBit_lt_two_pow
        (lt_of_lt_of_le (by decide : 0xfe < 2 ^ 8) (Nat.pow_le_pow_right (by decide) (by omega)))
      simp [hb]
    have h1 : ¬k < 1 := by omega
    have h2 : ¬k - 1 < 7 := by omega
    have h3 : k - 1 - 7 < 56 := by omega
    have h4 : 8 + (k - 1 - 7) = k := by omega
    simp [hm, h1, h2, h3, h4]

theorem extract_append_fcsr (w : BitVec 64) :
    w.extractLsb' 5 3 ++ w.extractLsb' 0 5 = w.setWidth 8 := by
  apply BitVec.eq_of_getLsbD_eq
  intro k hk
  rw [BitVec.getLsbD_append]
  by_cases h5 : k < 5
  · simp [h5, hk]
  · have h3 : k - 5 < 3 := by omega
    have h4 : 5 + (k - 5) = k := by omega
    simp [h5, h3, h4, hk]

/-- The bits `sstatus` writes. -/
theorem ofBits_maskWrite_sstatus (q w : BitVec 64) :
    Status.ofBits (maskWrite smodeStatusWriteMask q w) = { Status.ofBits q with
      mxr := (Status.ofBits w).mxr
      sum := (Status.ofBits w).sum
      fs := (Status.ofBits w).fs
      spp := (Status.ofBits w).spp
      spie := (Status.ofBits w).spie
      sie := (Status.ofBits w).sie } := by
  apply Status.ext <;> first
    | exact extractLsb'_maskWrite _ _ _ _ _ (by decide)
    | exact extractLsb'_maskWrite_of_mem _ _ _ _ _ (by decide)
    | exact getLsbD_maskWrite _ _ _ _

/-! ### The performance counters -/

/-- `perf_counter_q`: the counters from `CSR_ML1_ICACHE_MISS` to `CSR_MIF_EMPTY`. -/
abbrev Perf := Fin 14 → BitVec 64

/-- The events the counters see beside the commit ports. -/
structure PerfIn where
  l1IcacheMiss : Bool
  l1DcacheMiss : Bool
  itlbMiss : Bool
  dtlbMiss : Bool
  resolvedValid : Bool
  resolvedMispredict : Bool
  sbFull : Bool
  ifEmpty : Bool

/-- A retiring instruction of the first commit port; the second counts nowhere. -/
def retires (i : In) (p : ScoreboardEntry → Bool) : Bool := i.commitAck 0 && p (i.commitInstr 0)

/-- The event of each counter, in the order of the counters. -/
def perfEvent (j : PerfIn) (i : In) (eret : Bool) : Fin 14 → Bool
  | 0 => j.l1IcacheMiss
  | 1 => j.l1DcacheMiss
  | 2 => j.itlbMiss
  | 3 => j.dtlbMiss
  | 4 => retires i fun e => e.fu = .load
  | 5 => retires i fun e => e.fu = .store
  | 6 => i.ex.valid
  | 7 => eret
  | 8 => retires i fun e => e.fu = .ctrlFlow
  | 9 => retires i fun e => e.fu = .ctrlFlow && e.op = .add && e.rd = 1
  | 10 => retires i fun e => e.op = .jalr && e.rd = 1
  | 11 => j.resolvedValid && j.resolvedMispredict
  | 12 => j.sbFull
  | 13 => j.ifEmpty

/-- The address of a counter, `CSR_ML1_ICACHE_MISS` being `0xB03`. -/
def perfAddr (n : Fin 14) : BitVec 5 := BitVec.ofNat 5 (n.val + 3)

/-- `perf_counters`: the events, then the write. -/
def perfNext (debugMode : Bool) (event : Fin 14 → Bool) (we : Bool) (addr : BitVec 5)
    (data : BitVec 64) (p : Perf) : Perf := fun n =>
  if we && addr = perfAddr n then data
  else if !debugMode && event n then p n + 1 else p n

/-- `data_o`. An index that no counter has reads as unknown in the source, as 0 here. -/
def perfDataO (p : Perf) (addr : BitVec 5) : BitVec 64 :=
  if h : 3 ≤ addr.toNat ∧ addr.toNat < 17 then p ⟨addr.toNat - 3, by omega⟩ else 0

/-- The register file and the counters. -/
structure Sys where
  csr : Regs
  perf : Perf

structure SysIn where
  csr : In
  perf : PerfIn

/-- The pins of the register file; `perf_data_i` comes from the counters. -/
def Sys.pins (s : Sys) (i : SysIn) : In := { i.csr with perfData := perfDataO s.perf (perfAddrO i.csr) }

def Sys.next (cfg : Cfg) (s : Sys) (i : SysIn) : Sys :=
  let u := csrUpdate cfg s.csr (s.pins i)
  { csr := Csr.next cfg s.csr (s.pins i)
    perf := perfNext s.csr.debugMode (perfEvent i.perf i.csr u.eret) u.perfWe (perfAddrO i.csr)
      u.perfData s.perf }

def sysMachine (cfg : Cfg) : Machine Sys SysIn := ⟨(· = ⟨reset, fun _ => 0⟩), Sys.next cfg⟩

/-! ### A cycle without trap, return and floating-point commit -/

/-- Nothing but the CSR access of the cycle, or an ordinary instruction, commits. -/
structure Calm (i : In) : Prop where
  ex : i.ex.valid = false
  fflags : i.csrWriteFflags = false
  dirty : i.dirtyFpState = false
  ret : i.csrOp.isReturn = false

/-- `mstatus` after an edge, before which it was `old` and to which the write gave `m`. -/
def statusEdge (old m : Status) : Status :=
  { m with
    sxl := xlen64
    uxl := xlen64
    sd := old.xs == Xs.dirty || old.fs == Xs.dirty }

/-- `mip` with the lines of the platform. -/
def lines (i : In) (x : BitVec 64) : BitVec 64 :=
  setBit (setBit (setBit x irqMExt (i.irq.getLsbD 0)) irqMSoft i.ipi) irqMTimer i.timeIrq

/-- The cycle enters debug mode after a single step. -/
def steps (s : Regs) (i : In) : Bool := !s.debugMode && s.dcsr.step && i.commitAck 0

/-- A calm edge after the write has made `u`. -/
def calmNext (s : Regs) (i : In) (u : Upd) : Regs :=
  { u.d with
    mstatus := statusEdge s.mstatus
      { u.d.mstatus with fs := if u.dirtyFpStateCsr then Xs.dirty else u.d.mstatus.fs }
    mip := lines i u.d.mip
    dcsr :=
      if s.debugMode then u.d.dcsr
      else { u.d.dcsr with
        prv := s.privLvl
        cause := if s.dcsr.step && i.commitAck 0 then 4 else u.d.dcsr.cause }
    dpc :=
      if steps s i then
        if (i.commitInstr 0).fu = .ctrlFlow then (i.commitInstr 0).bp.predictAddress
        else (i.commitInstr 0).nextPc
      else u.d.dpc
    debugMode := if steps s i then true else u.d.debugMode
    enLdStTranslation := (updMprv s u).d.enLdStTranslation
    mtvecRstLoad := false
    wfi := wfiNext s i }

/-- In debug mode a calm edge leaves the debug registers to the write. -/
theorem calmNext_of_debugMode {s : Regs} (hd : s.debugMode = true) (i : In) (u : Upd) :
    calmNext s i u = { calmNext s i u with
      dcsr := u.d.dcsr, dpc := u.d.dpc, debugMode := u.d.debugMode } := by
  simp [calmNext, steps, hd]

theorem updReturn_of_calm {s : Regs} {i : In} (h : Calm i) (u : Upd) : updReturn s i u = u := by
  have hr := h.ret
  unfold updReturn
  cases hi : i.csrOp <;> first | rfl | (rw [hi] at hr; cases hr)

theorem next_of_calm (cfg : Cfg) (s : Regs) {i : In} (h : Calm i) :
    next cfg s i = calmNext s i (updWrite cfg s i (updDefaults s i)) := by
  have hret (u : Upd) : updReturn s i u = u := updReturn_of_calm h u
  have htrap (u : Upd) : updTrap s i u = u := by simp [updTrap, trapTaken, h.ex]
  have hff (u : Upd) : updFflags s i u = u := by simp [updFflags, h.fflags]
  have heb (u : Upd) : updEbreak s i u = u := by simp [updEbreak, h.ex]
  have hreq (u : Upd) : updDebugReq i u = u := by simp [updDebugReq, h.ex]
  have heret := @eret_updWrite cfg s i
  rw [next, csrUpdate, hret, htrap, hff]
  generalize updWrite cfg s i (updDefaults s i) = u at heret ⊢
  by_cases hd : s.debugMode = true
  · simp [calmNext, updMprv, updDebug, updIrq, updStatus, statusEdge, lines, steps, hd, h.dirty, fpPresent]
  · by_cases hs : (s.dcsr.step && i.commitAck 0) = true
    · simp only [Bool.and_eq_true] at hs
      simp [calmNext, updMprv, updDebug, updIrq, updStatus, updSingleStep, statusEdge, lines, steps, hd,
        hs.1, hs.2, h.dirty, fpPresent, heb, hreq, h.ex, heret, privLvlO]
    · have hs' : ¬(s.dcsr.step = true ∧ i.commitAck 0 = true) := by simpa using hs
      simp [calmNext, updMprv, updDebug, updIrq, updStatus, updSingleStep, statusEdge, lines, steps, hd,
        hs', h.dirty, fpPresent, heb, hreq, privLvlO]

/-- What the counters and the controller see of a cycle. -/
def perfOuts (u : Upd) : Bool × Bool × BitVec 64 × Bool := (u.eret, u.perfWe, u.perfData, u.flush)

theorem perfOuts_of_calm (cfg : Cfg) (s : Regs) {i : In} (h : Calm i) :
    perfOuts (csrUpdate cfg s i) = perfOuts (updWrite cfg s i (updDefaults s i)) := by
  have hret (u : Upd) : updReturn s i u = u := updReturn_of_calm h u
  have htrap (u : Upd) : updTrap s i u = u := by simp [updTrap, trapTaken, h.ex]
  have hff (u : Upd) : updFflags s i u = u := by simp [updFflags, h.fflags]
  have hstep (u : Upd) : perfOuts (updSingleStep cfg s i u) = perfOuts u := by
    unfold updSingleStep
    split <;> rfl
  have hdbg (u : Upd) : perfOuts (updDebug cfg s i u) = perfOuts u := by
    have heb (u : Upd) : updEbreak s i u = u := by simp [updEbreak, h.ex]
    have hreq (u : Upd) : updDebugReq i u = u := by simp [updDebugReq, h.ex]
    unfold updDebug
    split
    · rfl
    · rw [hstep, hreq, heb]
      rfl
  have hmprv (u : Upd) : perfOuts (updMprv s u) = perfOuts u := rfl
  have hirq (u : Upd) : perfOuts (updIrq i u) = perfOuts u := rfl
  have hstat (u : Upd) : perfOuts (updStatus s i u) = perfOuts u := rfl
  rw [csrUpdate, hret, hmprv, hdbg, htrap, hirq, hff, hstat]

/-! ### The register a write patches -/

/-- One register of the system with another value. A write to a floating-point register
goes to `mstatus` too. -/
inductive Patch
  | none
  | fcsr (f : Fcsr) (m : Status)
  | dcsr (c : Dcsr)
  | dpc (x : BitVec 64)
  | dscratch0 (x : BitVec 64)
  | dscratch1 (x : BitVec 64)
  | mstatus (m : Status)
  | mie (x : BitVec 64)
  | mip (x : BitVec 64)
  | stvec (x : BitVec 64)
  | sscratch (x : BitVec 64)
  | sepc (x : BitVec 64)
  | scause (x : BitVec 64)
  | stval (x : BitVec 64)
  | satp (p : Satp)
  | medeleg (x : BitVec 64)
  | mideleg (x : BitVec 64)
  | mtvec (x : BitVec 64)
  | mscratch (x : BitVec 64)
  | mepc (x : BitVec 64)
  | mcause (x : BitVec 64)
  | mtval (x : BitVec 64)
  | cycle (x : BitVec 64)
  | perf (n : Fin 14) (x : BitVec 64)
  | dcache (x : BitVec 64)
  | icache (x : BitVec 64)

namespace Patch

/-- The register file with the patch. -/
def regs (s : Regs) : Patch → Regs
  | none => s
  | fcsr f m => { s with fcsr := f, mstatus := m }
  | dcsr c => { s with dcsr := c }
  | dpc x => { s with dpc := x }
  | dscratch0 x => { s with dscratch0 := x }
  | dscratch1 x => { s with dscratch1 := x }
  | mstatus m => { s with mstatus := m }
  | mie x => { s with mie := x }
  | mip x => { s with mip := x }
  | stvec x => { s with stvec := x }
  | sscratch x => { s with sscratch := x }
  | sepc x => { s with sepc := x }
  | scause x => { s with scause := x }
  | stval x => { s with stval := x }
  | satp p => { s with satp := p }
  | medeleg x => { s with medeleg := x }
  | mideleg x => { s with mideleg := x }
  | mtvec x => { s with mtvec := x }
  | mscratch x => { s with mscratch := x }
  | mepc x => { s with mepc := x }
  | mcause x => { s with mcause := x }
  | mtval x => { s with mtval := x }
  | cycle x => { s with cycle := x }
  | perf _ _ => s
  | dcache x => { s with dcache := x }
  | icache x => { s with icache := x }

/-- The counters with the patch. -/
def counters (p : Perf) : Patch → Perf
  | perf n x => Function.update p n x
  | _ => p

/-- The debug registers are written in debug mode only. -/
def debug : Patch → Bool
  | dcsr _ | dpc _ => true
  | _ => false

/-- What the patch becomes over a calm edge without a write. -/
def next (debugMode : Bool) (i : In) (event : Fin 14 → Bool) : Patch → Patch
  | fcsr f m => fcsr f (statusEdge m m)
  | mstatus m => mstatus (statusEdge m m)
  | mip x => mip (lines i x)
  | cycle x => cycle (if debugMode then x else x + 1)
  | perf n x => perf n (if !debugMode && event n then x + 1 else x)
  | p => p

end Patch

/-- `t` is `t₀` with the patch. Whether the core waits and whether it translates is no CSR. -/
structure Patched (p : Patch) (t t₀ : Sys) : Prop where
  csr : ∃ w e, t.csr = { p.regs t₀.csr with wfi := w, enLdStTranslation := e }
  perf : t.perf = p.counters t₀.perf

/-- A cycle between the write and the read: calm, and no CSR access. -/
structure Between (i : SysIn) : Prop where
  calm : Calm i.csr
  access : i.csr.csrOp.isCsrAccess = false

variable {cfg : Cfg} {s t t₀ : Sys} {i j : SysIn} {p : Patch} {r : CsrReg}

theorem Calm.pins (h : Calm i.csr) (s : Sys) : Calm (s.pins i) := ⟨h.ex, h.fflags, h.dirty, h.ret⟩

theorem updWrite_of_between (h : Between j) (t : Sys) :
    updWrite cfg t.csr (t.pins j) (updDefaults t.csr (t.pins j)) = updDefaults t.csr j.csr := by
  have hwe : csrWe t.csr (t.pins j) = false := csrWe_of_not_access h.access
  rw [updWrite, hwe]
  rfl

theorem csr_next_of_between (h : Between j) (t : Sys) :
    (t.next cfg j).csr = calmNext t.csr j.csr (updDefaults t.csr j.csr) := by
  have hnext := next_of_calm cfg t.csr (h.calm.pins t)
  rw [updWrite_of_between h] at hnext
  exact hnext

theorem perf_next_of_between (h : Between j) (t : Sys) :
    (t.next cfg j).perf = perfNext t.csr.debugMode (perfEvent j.perf j.csr false) false
      (perfAddrO j.csr) 0 t.perf := by
  have hout := perfOuts_of_calm cfg t.csr (h.calm.pins t)
  rw [updWrite_of_between h] at hout
  simp only [perfOuts, updDefaults, Prod.mk.injEq] at hout
  simp only [Sys.next, hout]

theorem Patched.next (hp : Patched p t t₀) (hj : Between j) (hrst : t₀.csr.mtvecRstLoad = false)
    (hd : p.debug = true → t₀.csr.debugMode = true) :
    Patched (p.next t₀.csr.debugMode j.csr (perfEvent j.perf j.csr false)) (t.next cfg j)
      (t₀.next cfg j) := by
  obtain ⟨⟨w, e, hcsr⟩, hperf⟩ := hp
  constructor
  · rw [csr_next_of_between hj, csr_next_of_between hj]
    refine ⟨wfiNext t.csr j.csr, (updMprv t.csr (updDefaults t.csr j.csr)).d.enLdStTranslation, ?_⟩
    rw [hcsr]
    cases p with
    | dcsr c => simp [calmNext, updDefaults, Patch.regs, Patch.next, steps, hd rfl]
    | dpc x => simp [calmNext, updDefaults, Patch.regs, Patch.next, steps, hd rfl]
    | mtvec x => simp [calmNext, updDefaults, Patch.regs, Patch.next, steps, instretNext, hrst]
    | _ => rfl
  · have hdbg : t.csr.debugMode = t₀.csr.debugMode := by rw [hcsr]; cases p <;> rfl
    rw [perf_next_of_between hj, perf_next_of_between hj, hdbg, hperf]
    cases p with
    | perf n x =>
      funext m
      by_cases hm : m = n
      · subst hm
        simp [Patch.counters, Patch.next, perfNext]
      · simp [Patch.counters, Patch.next, perfNext, hm]
    | _ => rfl

/-! ### The cycle of the write -/

/-- The patch of a write of `w`. -/
def writePatch (cfg : Cfg) (s : Regs) (i : In) (w : BitVec 64) : CsrReg → Patch
  | .fflags => .fcsr { s.fcsr with fflags := w.extractLsb' 0 5 } (dirtied s.mstatus)
  | .frm => .fcsr { s.fcsr with frm := w.extractLsb' 0 3 } (dirtied s.mstatus)
  | .fcsr => .fcsr { s.fcsr with frm := w.extractLsb' 5 3, fflags := w.extractLsb' 0 5 }
      (dirtied s.mstatus)
  | .ftran => .fcsr { s.fcsr with fprec := w.extractLsb' 0 7 } (dirtied s.mstatus)
  | .dcsr => .dcsr (dcsrOfWrite s w)
  | .dpc => .dpc w
  | .dscratch0 => .dscratch0 w
  | .dscratch1 => .dscratch1 w
  | .sstatus => .mstatus (statusEdge s.mstatus (sstatusOfWrite s w))
  | .sie => .mie (maskWrite s.mideleg s.mie w)
  | .sip => .mip (lines i (maskWrite (mipSsip &&& s.mideleg) s.mip w))
  | .stvec => .stvec (w.extractLsb' 2 62 ++ 0#1 ++ w.extractLsb' 0 1)
  | .sscratch => .sscratch w
  | .sepc => .sepc (w.extractLsb' 1 63 ++ 0#1)
  | .scause => .scause w
  | .stval => .stval w
  | .satp =>
    if (satpOfWrite cfg w).mode = modeOff ∨ (satpOfWrite cfg w).mode = modeSv39 then
      .satp (satpOfWrite cfg w)
    else .none
  | .mstatus => .mstatus (statusEdge s.mstatus (mstatusOfWrite w))
  | .medeleg => .medeleg (maskWrite medelegMask s.medeleg w)
  | .mideleg => .mideleg (maskWrite sipMask s.mideleg w)
  | .mie => .mie (maskWrite mieMask s.mie w)
  | .mtvec => .mtvec (mtvecOfWrite w)
  | .mscratch => .mscratch w
  | .mepc => .mepc (w.extractLsb' 1 63 ++ 0#1)
  | .mcause => .mcause w
  | .mtval => .mtval w
  | .mip => .mip (lines i (maskWrite sipMask s.mip w))
  | .mcycle => .cycle w
  | .mhpmcounter n => if h : n.val < 14 then .perf ⟨n.val, h⟩ w else .none
  | .dcache => .dcache ((w.extractLsb' 0 1).setWidth 64)
  | .icache => .icache ((w.extractLsb' 0 1).setWidth 64)
  | .tselect | .tdata1 | .tdata2 | .tdata3 | .scounteren | .misa | .mcounteren | .minstret
  | .mvendorid | .marchid | .mimpid | .mhartid => .none
where
  dirtied (m : Status) : Status := statusEdge m { m with fs := Xs.dirty }

/-- The value the write of the cycle has for its register. -/
def Sys.wdata (s : Sys) (i : SysIn) : BitVec 64 := csrWdata s.csr (s.pins i)

/-- The same cycle with a read in place of the write. -/
def SysIn.reading (i : SysIn) : SysIn := { i with csr.csrOp := .csrRead }

/-- The cycle writes `r`, and the CSR file takes the write. No instruction is there to write
in the cycle out of reset. -/
structure Access (cfg : Cfg) (s : Sys) (i : SysIn) (r : CsrReg) : Prop where
  writes : Writes s.csr (s.pins i) r
  granted : (csrExceptionO cfg s.csr (s.pins i)).valid = false
  calm : Calm i.csr
  booted : s.csr.mtvecRstLoad = false

theorem Access.not_refused (h : Access cfg s i r) : (csrWriteReg cfg s.csr (s.wdata i)
    (updDefaults s.csr (s.pins i)) r).updateAccessException = false := by
  have hg := h.granted
  have hu := congrArg Prod.fst (writeOuts_csrUpdate cfg s.csr (s.pins i))
  rw [updWrite_of_writes h.writes] at hu
  by_contra hn
  rw [Bool.not_eq_false] at hn
  simp only [writeOuts] at hu
  simp [csrExceptionO, hu.trans hn] at hg

theorem Access.csr_next (h : Access cfg s i r) : (s.next cfg i).csr = calmNext s.csr i.csr
    (csrWriteReg cfg s.csr (s.wdata i) (updDefaults s.csr i.csr) r) := by
  have hnext := next_of_calm cfg s.csr (h.calm.pins s)
  rw [updWrite_of_writes h.writes] at hnext
  exact hnext

theorem updWrite_reading (s : Sys) (i : SysIn) : updWrite cfg s.csr (s.pins i.reading)
    (updDefaults s.csr (s.pins i.reading)) = updDefaults s.csr i.csr := by
  have hwe : csrWe s.csr (s.pins i.reading) = false := by simp [csrWe, Sys.pins, SysIn.reading]
  rw [updWrite, hwe]
  rfl

theorem Calm.reading (h : Calm i.csr) : Calm i.reading.csr := ⟨h.ex, h.fflags, h.dirty, rfl⟩

theorem csr_next_reading (h : Calm i.csr) (s : Sys) :
    (s.next cfg i.reading).csr = calmNext s.csr i.reading.csr (updDefaults s.csr i.csr) := by
  have hnext := next_of_calm cfg s.csr (h.reading.pins s)
  rw [updWrite_reading] at hnext
  exact hnext

theorem perf_next_reading (h : Calm i.csr) (s : Sys) :
    (s.next cfg i.reading).perf = perfNext s.csr.debugMode (perfEvent i.perf i.csr false) false
      (perfAddrO i.csr) 0 s.perf := by
  have hout := perfOuts_of_calm cfg s.csr (h.reading.pins s)
  rw [updWrite_reading] at hout
  simp only [perfOuts, updDefaults, Prod.mk.injEq] at hout
  simp only [Sys.next, hout]
  rfl

theorem Access.perf_next (h : Access cfg s i r) :
    (s.next cfg i).perf =
      let u := csrWriteReg cfg s.csr (s.wdata i) (updDefaults s.csr i.csr) r
      perfNext s.csr.debugMode (perfEvent i.perf i.csr false) u.perfWe (perfAddrO i.csr)
        u.perfData s.perf := by
  have hout := perfOuts_of_calm cfg s.csr (h.calm.pins s)
  rw [updWrite_of_writes h.writes] at hout
  have heret := @eret_csrWriteReg cfg s.csr (csrWdata s.csr (s.pins i)) (updDefaults s.csr (s.pins i)) r
  simp only [perfOuts, Prod.mk.injEq] at hout
  simp only [Sys.next, hout, heret]
  rfl

theorem perfAddr_mhpmcounter (n : Fin 29) (m : Fin 14) :
    (CsrReg.mhpmcounter n).addr.extractLsb' 0 5 = perfAddr m ↔ n.val = m.val := by
  revert n m
  decide

/-- The debug registers take a write in debug mode only. -/
theorem debugMode_of_writes {s : Regs} {i : In} (h : Writes s i r)
    (hr : r.addr.extractLsb' 4 8 = 0x7b#8) : s.debugMode = true := by
  have ha : i.csrAddr = r.addr := (CsrReg.addr_of_ofAddr h.2).symm
  have hwe := h.1
  simp only [csrWe, Bool.and_eq_true, Bool.not_eq_true'] at hwe
  by_contra hd
  rw [Bool.not_eq_true] at hd
  have hv : privilegeViolation s i = true := by simp [privilegeViolation, hwe.1.1, ha, hr, hd]
  simp [hv] at hwe

theorem fpWrite_of_not_refused {s : Regs} {u : Upd} {f : Fcsr}
    (h : (fpWrite s u f).updateAccessException = false) :
    fpWrite s u f = { u with dirtyFpStateCsr := true, flush := true, d.fcsr := f } := by
  unfold fpWrite at h ⊢
  split at h
  · cases h
  · rename_i hfs
    exact if_neg hfs

theorem satp_of_not_refused {s : Regs} {w : BitVec 64} {u : Upd}
    (h : (csrWriteReg cfg s w u .satp).updateAccessException = false) :
    csrWriteReg cfg s w u .satp =
      if (satpOfWrite cfg w).mode = modeOff ∨ (satpOfWrite cfg w).mode = modeSv39 then
        { u with d.satp := satpOfWrite cfg w, flush := true }
      else { u with flush := true } := by
  simp only [csrWriteReg] at h ⊢
  split at h
  · cases h
  · rename_i htvm
    exact if_neg htvm

theorem Access.patched (h : Access cfg s i r) :
    Patched (writePatch cfg s.csr i.csr (s.wdata i) r) (s.next cfg i) (s.next cfg i.reading) := by
  have hr : (csrWriteReg cfg s.csr (s.wdata i)
      (updDefaults s.csr i.csr) r).updateAccessException = false := h.not_refused
  constructor
  · rw [h.csr_next, csr_next_reading h.calm]
    refine ⟨wfiNext s.csr i.csr, (updMprv s.csr (updDefaults s.csr i.csr)).d.enLdStTranslation, ?_⟩
    cases r with
    | fflags => rw [csrWriteReg, fpWrite_of_not_refused hr]; rfl
    | frm => rw [csrWriteReg, fpWrite_of_not_refused hr]; rfl
    | fcsr => rw [csrWriteReg, fpWrite_of_not_refused hr]; rfl
    | ftran => rw [csrWriteReg, fpWrite_of_not_refused hr]; rfl
    | dcsr =>
      have hd := debugMode_of_writes h.writes (by decide)
      rw [calmNext_of_debugMode hd i.csr, calmNext_of_debugMode hd i.reading.csr]
      rfl
    | dpc =>
      have hd := debugMode_of_writes h.writes (by decide)
      rw [calmNext_of_debugMode hd i.csr, calmNext_of_debugMode hd i.reading.csr]
      rfl
    | satp =>
      rw [satp_of_not_refused hr, writePatch]
      split <;> rfl
    | mhpmcounter n =>
      rw [writePatch]
      split <;> rfl
    | _ => rfl
  · rw [h.perf_next, perf_next_reading h.calm]
    cases r with
    | fflags => rw [csrWriteReg, fpWrite_of_not_refused hr]; rfl
    | frm => rw [csrWriteReg, fpWrite_of_not_refused hr]; rfl
    | fcsr => rw [csrWriteReg, fpWrite_of_not_refused hr]; rfl
    | ftran => rw [csrWriteReg, fpWrite_of_not_refused hr]; rfl
    | satp =>
      rw [satp_of_not_refused hr, writePatch]
      split <;> rfl
    | mhpmcounter n =>
      have ha : i.csr.csrAddr = (CsrReg.mhpmcounter n).addr := (CsrReg.addr_of_ofAddr h.writes.2).symm
      simp only [csrWriteReg, writePatch, perfAddrO, ha]
      funext m
      by_cases hn : n.val < 14
      · by_cases hm : m = ⟨n.val, hn⟩
        · subst hm
          simp [Patch.counters, perfNext, perfAddr_mhpmcounter, hn]
        · have hne : n.val ≠ m.val := fun he => hm (Fin.ext he.symm)
          simp [Patch.counters, perfNext, perfAddr_mhpmcounter, hn, hm, hne]
      · have hne : n.val ≠ m.val := by omega
        simp [Patch.counters, perfNext, perfAddr_mhpmcounter, hn, hne]
    | _ => rfl

/-! ### The run without the write -/

/-- What calm edges keep. -/
structure Kept (s t : Regs) : Prop where
  regs : t = { s with
    mstatus := t.mstatus
    mip := t.mip
    dcsr := t.dcsr
    dpc := t.dpc
    debugMode := t.debugMode
    cycle := t.cycle
    instret := t.instret
    enLdStTranslation := t.enLdStTranslation
    wfi := t.wfi }
  status : t.mstatus = { s.mstatus with sd := t.mstatus.sd, sxl := xlen64, uxl := xlen64 }
  debug : s.debugMode = true → t.debugMode = true ∧ t.dcsr = s.dcsr ∧ t.dpc = s.dpc

theorem kept_calmNext {s : Regs} (h : s.mtvecRstLoad = false) (i i' : In) :
    Kept s (calmNext s i (updDefaults s i')) := by
  constructor
  · simp [calmNext, updDefaults, h]
  · rfl
  · intro hd
    simp [calmNext, updDefaults, steps, hd]

theorem Kept.trans {s t u : Regs} (h : Kept s t) (h' : Kept t u) : Kept s u := by
  constructor
  · rw [h'.regs, h.regs]
  · rw [h'.status, h.status]
  · intro hd
    obtain ⟨hd1, hc1, hp1⟩ := h.debug hd
    obtain ⟨hd2, hc2, hp2⟩ := h'.debug hd1
    exact ⟨hd2, hc2.trans hc1, hp2.trans hp1⟩

theorem Kept.mtvecRstLoad {s t : Regs} (h : Kept s t) : t.mtvecRstLoad = s.mtvecRstLoad := by
  rw [h.regs]

theorem Kept.fcsr {s t : Regs} (h : Kept s t) : t.fcsr = s.fcsr := by
  rw [h.regs]

theorem Kept.mie {s t : Regs} (h : Kept s t) : t.mie = s.mie := by
  rw [h.regs]

theorem Kept.medeleg {s t : Regs} (h : Kept s t) : t.medeleg = s.medeleg := by
  rw [h.regs]

theorem Kept.mideleg {s t : Regs} (h : Kept s t) : t.mideleg = s.mideleg := by
  rw [h.regs]

theorem Kept.privLvl {s t : Regs} (h : Kept s t) : t.privLvl = s.privLvl := by
  rw [h.regs]

/-- The state after the cycles `js`. -/
def Sys.after (cfg : Cfg) (t : Sys) (js : List SysIn) : Sys := (sysMachine cfg).run t js

theorem kept_reading (h : Access cfg s i r) : Kept s.csr (s.next cfg i.reading).csr := by
  rw [csr_next_reading h.calm]
  exact kept_calmNext h.booted _ _

theorem kept_between (hj : Between j) (h : t₀.csr.mtvecRstLoad = false) :
    Kept t₀.csr (t₀.next cfg j).csr := by
  rw [csr_next_of_between hj]
  exact kept_calmNext h _ _

theorem kept_after (h0 : Kept s.csr t₀.csr) (hs : s.csr.mtvecRstLoad = false) :
    ∀ js : List SysIn, (∀ j ∈ js, Between j) → Kept s.csr (t₀.after cfg js).csr := by
  intro js
  induction js generalizing t₀ with
  | nil => exact fun _ => h0
  | cons j js ih =>
    intro hjs
    have hnext : Kept t₀.csr (t₀.next cfg j).csr :=
      kept_between (hjs j List.mem_cons_self) (h0.mtvecRstLoad.trans hs)
    exact ih (h0.trans hnext) fun k hk => hjs k (List.mem_cons_of_mem j hk)

/-- What a patch has become after the cycles `js` of the run without it. -/
def Patch.after (cfg : Cfg) (p : Patch) (t₀ : Sys) : List SysIn → Patch
  | [] => p
  | j :: js =>
    (p.next t₀.csr.debugMode j.csr (perfEvent j.perf j.csr false)).after cfg (t₀.next cfg j) js

theorem Patch.debug_next (p : Patch) (d : Bool) (i : In) (e : Fin 14 → Bool) :
    (p.next d i e).debug = p.debug := by
  cases p <;> rfl

theorem Patched.after (h0 : Kept s.csr t₀.csr) (hs : s.csr.mtvecRstLoad = false)
    (hd : p.debug = true → s.csr.debugMode = true) (hp : Patched p t t₀) :
    ∀ js : List SysIn, (∀ j ∈ js, Between j) →
      Patched (p.after cfg t₀ js) (t.after cfg js) (t₀.after cfg js) := by
  intro js
  induction js generalizing t t₀ p with
  | nil => exact fun _ => hp
  | cons j js ih =>
    intro hjs
    have hj := hjs j List.mem_cons_self
    have hkept : Kept s.csr (t₀.next cfg j).csr :=
      h0.trans (kept_between hj (h0.mtvecRstLoad.trans hs))
    have hnext := @Patched.next cfg _ _ _ _ hp hj (h0.mtvecRstLoad.trans hs) fun h => (h0.debug (hd h)).1
    refine ih hkept ?_ hnext fun k hk => hjs k (List.mem_cons_of_mem j hk)
    rwa [Patch.debug_next]

/-! ### What a register has to hold -/

/-- The value an instruction gives its register, from the one it had and its operand. -/
def rmw (op : FuOp) (old w : BitVec 64) : BitVec 64 :=
  match op with
  | .csrSet => old ||| w
  | .csrClear => old &&& ~~~w
  | _ => w

/-- The lower `n` bits of a word. -/
def low (n : ℕ) (w : BitVec 64) : BitVec 64 := (w.setWidth n).setWidth 64

/-- The summary bit. -/
def withSd (m : Status) : Status := { m with sd := m.xs == Xs.dirty || m.fs == Xs.dirty }

/-- `mstatus` with the fields of a word; the widths, `xs` and the user's interrupt bits are
hardwired. -/
def legalMstatus (m : Status) (w : BitVec 64) : Status :=
  withSd { Status.ofBits w with
    sxl := m.sxl
    uxl := m.uxl
    xs := m.xs
    upie := m.upie
    uie := m.uie }

/-- `mstatus` with the supervisor's fields of a word. -/
def legalSstatus (m : Status) (w : BitVec 64) : Status :=
  withSd { m with
    mxr := (Status.ofBits w).mxr
    sum := (Status.ofBits w).sum
    fs := (Status.ofBits w).fs
    spp := (Status.ofBits w).spp
    spie := (Status.ofBits w).spie
    sie := (Status.ofBits w).sie }

/-- `dcsr` with the fields of a word, but for the version, the level and what is not
supported. -/
def legalDcsr (c : Dcsr) (w : BitVec 64) : Dcsr :=
  { Dcsr.ofBits (w.extractLsb' 0 32) with
    xdebugver := c.xdebugver
    stopcount := c.stopcount
    stoptime := c.stoptime
    nmip := c.nmip
    prv := c.prv }

/-- What a register shows after a write of `w`, in a file that without the write would be
`o`. Registers that are read-only take no write. -/
def legal (cfg : Cfg) (o : Regs) (w : BitVec 64) : CsrReg → BitVec 64
  | .fflags => low 5 w
  | .frm => low 3 w
  | .fcsr => low 8 w
  | .ftran => low 7 w
  | .dcsr => (legalDcsr o.dcsr w).toBits.setWidth 64
  | .dpc | .dscratch0 | .dscratch1 | .sscratch | .scause | .stval | .mscratch | .mcause | .mtval => w
  | .sstatus => (legalSstatus o.mstatus w).toBits &&& smodeStatusReadMask
  | .sie => w &&& o.mideleg
  | .sip => maskWrite mipSsip o.mip w &&& o.mideleg
  | .stvec => setBit w 1 false
  | .sepc | .mepc => setBit w 0 false
  | .satp =>
    let p := { Satp.ofBits w with
      asid := (Satp.ofBits w).asid &&& BitVec.ofNat 16 (2 ^ cfg.asidWidth - 1) }
    if p.mode = modeOff ∨ p.mode = modeSv39 then p.toBits else o.satp.toBits
  | .mstatus => (legalMstatus o.mstatus w).toBits
  | .medeleg => maskWrite medelegMask o.medeleg w
  | .mideleg => maskWrite sipMask o.mideleg w
  | .mie => maskWrite mieMask o.mie w
  | .mip => maskWrite sipMask o.mip w
  | .mtvec => if w.getLsbD 0 then maskWrite 0xfe w 0 else setBit w 1 false
  | .dcache | .icache => low 1 w
  | .misa => isaCode
  | _ => 0

/-- The counter behind a register; from `CSR_MHPM_COUNTER_17` on there is none. -/
def Sys.counter (t : Sys) (n : Fin 29) : BitVec 64 := if h : n.val < 14 then t.perf ⟨n.val, h⟩ else 0

/-- What a read has to return after a write of `w`: `o` is the system without the write at
the read, `first` right after the edge. Counters count on from `w`. -/
def expected (cfg : Cfg) (first o : Sys) (w : BitVec 64) : CsrReg → BitVec 64
  | .mcycle => w + (o.csr.cycle - first.csr.cycle)
  | .minstret => w + (o.csr.instret - first.csr.instret)
  | .mhpmcounter n => w + (o.counter n - first.counter n)
  | r => legal cfg o.csr w r

/-- The external line a read of `mip` and `sip` shows too. -/
def shown (t : Regs) (j : In) (w : BitVec 64) : BitVec 64 :=
  if j.csrAddr = CsrReg.mip.addr then w ||| ((BitVec.ofBool (j.irq.getLsbD 1)).setWidth 64 <<< irqSExt)
  else if j.csrAddr = CsrReg.sip.addr then
    w ||| ((BitVec.ofBool (j.irq.getLsbD 1 && t.mideleg.getLsbD irqSExt)).setWidth 64 <<< irqSExt)
  else w

/-- The patch is of the register `r` is in, and of no more of it than `r` shows. A write to a
floating-point register marks `mstatus`. -/
def Patch.within (o : Regs) (r : CsrReg) : Patch → Prop
  | none => True
  | fcsr f m =>
    (r = .fflags ∧ f = { o.fcsr with fflags := f.fflags } ∨
      r = .frm ∧ f = { o.fcsr with frm := f.frm } ∨
      r = .fcsr ∧ f = { o.fcsr with frm := f.frm, fflags := f.fflags } ∨
      r = .ftran ∧ f = { o.fcsr with fprec := f.fprec }) ∧
      m = { o.mstatus with fs := Xs.dirty, sd := m.sd }
  | mstatus m =>
    r = .mstatus ∨ r = .sstatus ∧ m = { o.mstatus with
      mxr := m.mxr
      sum := m.sum
      fs := m.fs
      spp := m.spp
      spie := m.spie
      sie := m.sie
      sd := m.sd }
  | mie x => r = .mie ∨ r = .sie ∧ x &&& ~~~o.mideleg = o.mie &&& ~~~o.mideleg
  | mip x => r = .mip ∨ r = .sip ∧ x &&& ~~~o.mideleg = o.mip &&& ~~~o.mideleg
  | dcsr _ => r = .dcsr
  | dpc _ => r = .dpc
  | dscratch0 _ => r = .dscratch0
  | dscratch1 _ => r = .dscratch1
  | stvec _ => r = .stvec
  | sscratch _ => r = .sscratch
  | sepc _ => r = .sepc
  | scause _ => r = .scause
  | stval _ => r = .stval
  | satp _ => r = .satp
  | medeleg _ => r = .medeleg
  | mideleg _ => r = .mideleg
  | mtvec _ => r = .mtvec
  | mscratch _ => r = .mscratch
  | mepc _ => r = .mepc
  | mcause _ => r = .mcause
  | mtval _ => r = .mtval
  | cycle _ => r = .mcycle
  | perf n _ => ∃ m : Fin 29, r = .mhpmcounter m ∧ m.val = n.val
  | dcache _ => r = .dcache
  | icache _ => r = .icache

/-- The registers that count by themselves. -/
def counts : CsrReg → Bool
  | .mcycle | .minstret | .mhpmcounter _ => true
  | _ => false

/-- The floating-point registers. -/
def isFp : CsrReg → Bool
  | .fflags | .frm | .fcsr | .ftran => true
  | _ => false

/-- The value of `r` before the write of the cycle. -/
def Sys.old (s : Sys) (i : SysIn) (r : CsrReg) : BitVec 64 := (csrReadReg s.csr (s.pins i) r).getD 0

/-- The value the instruction of the cycle gives `r`. -/
def Sys.new (s : Sys) (i : SysIn) (r : CsrReg) : BitVec 64 :=
  rmw i.csr.csrOp (s.old i r) i.csr.csrWdata

/-- The read port in a cycle that reads. -/
def Sys.rdata (t : Sys) (j : SysIn) : BitVec 64 := csrRdataO t.csr (t.pins j)

/-- The law of a write to `r` in the cycle `i`.

* `readBack`: after any cycles in between, a read of `r` returns the new value, as far as
  `r` is writable; a write that flushes the pipeline has at least one cycle after it;
* `frame`: but for `r` and what it shares a register with, the run is the one without the
  write;
* `rewrite`: a write of the value read leaves that run as it is. -/
structure WriteLaw (cfg : Cfg) (s : Sys) (i : SysIn) (r : CsrReg) : Prop where
  readBack : ∀ js : List SysIn, (∀ j ∈ js, Between j) →
    (flushO cfg s.csr (s.pins i) = true → js ≠ []) →
    ∀ j : SysIn, j.csr.csrOp = .csrRead → j.csr.csrAddr = r.addr →
      ((s.next cfg i).after cfg js).rdata j = shown ((s.next cfg i).after cfg js).csr j.csr
        (expected cfg (s.next cfg i.reading) ((s.next cfg i.reading).after cfg js) (s.new i r) r)
  frame : ∀ js : List SysIn, (∀ j ∈ js, Between j) →
    ∃ p : Patch, p.within ((s.next cfg i.reading).after cfg js).csr r ∧
      Patched p ((s.next cfg i).after cfg js) ((s.next cfg i.reading).after cfg js)
  rewrite : s.new i r = s.old i r → counts r = false →
    ∀ js : List SysIn, (∀ j ∈ js, Between j) →
      ((s.next cfg i).after cfg js).csr.fcsr = ((s.next cfg i.reading).after cfg js).csr.fcsr ∧
      (isFp r = false →
        Patched .none ((s.next cfg i).after cfg js) ((s.next cfg i.reading).after cfg js))

/-- The writes that keep the law. -/
def Lawful (s : Sys) (i : SysIn) (r : CsrReg) : Prop :=
  (r = .minstret →
    s.new i r = if s.csr.debugMode then s.csr.instret else instretNext s.csr i.csr) ∧
  (r = .dcsr → s.csr.dcsr.xdebugver = 4 ∧ s.csr.dcsr.prv = s.csr.privLvl)

/-- No counter is behind the register. -/
def reserved : CsrReg → Bool
  | .mhpmcounter n => decide (14 ≤ n.val)
  | _ => false

/-! ### The values a register can have -/

theorem mtvecOfWrite_eq (w : BitVec 64) :
    mtvecOfWrite w = if w.getLsbD 0 then maskWrite 0xfe w 0 else setBit w 1 false := by
  rw [mtvecOfWrite, extract_append_vectored, extract_append_mode]

theorem sstatusOfWrite_eq (s : Regs) (w : BitVec 64) : sstatusOfWrite s w = { s.mstatus with
    mxr := (Status.ofBits w).mxr
    sum := (Status.ofBits w).sum
    fs := (Status.ofBits w).fs
    spp := (Status.ofBits w).spp
    spie := (Status.ofBits w).spie
    sie := (Status.ofBits w).sie } := by
  simp only [sstatusOfWrite, ofBits_maskWrite_sstatus, Status.ofBits_toBits, fpPresent, if_true]

/-- An instruction's pc is even, and the boot address is aligned. -/
structure Wired (i : In) : Prop where
  pc : i.pc.getLsbD 0 = false
  bootAddr : i.bootAddr.toNat % 4 = 0

theorem setBit_of_getLsbD {w : BitVec 64} {n : ℕ} (h : w.getLsbD n = false) :
    setBit w n false = w := by
  apply BitVec.eq_of_getLsbD_eq
  intro k _
  rw [getLsbD_setBit]
  split
  · rename_i hk
    rw [hk, h, Bool.and_false]
  · rfl

theorem setBit_setBit (w : BitVec 64) (n : ℕ) : setBit (setBit w n false) n false = setBit w n false :=
  setBit_of_getLsbD (by simp [getLsbD_setBit])

theorem maskWrite_maskWrite (m w : BitVec 64) : maskWrite m (maskWrite m w 0) 0 = maskWrite m w 0 := by
  apply BitVec.eq_of_getLsbD_eq
  intro k _
  simp only [getLsbD_maskWrite]
  split <;> rfl

theorem mtvecOfWrite_mtvecOfWrite (w : BitVec 64) : mtvecOfWrite (mtvecOfWrite w) = mtvecOfWrite w := by
  by_cases h : w.getLsbD 0 = true
  · have h1 : mtvecOfWrite w = maskWrite 0xfe w 0 := (mtvecOfWrite_eq w).trans (if_pos h)
    have h2 : (maskWrite 0xfe w 0).getLsbD 0 = true := by rw [getLsbD_maskWrite, h]; decide
    rw [h1, mtvecOfWrite_eq]
    exact (if_pos h2).trans (maskWrite_maskWrite _ _)
  · have h1 : mtvecOfWrite w = setBit w 1 false := (mtvecOfWrite_eq w).trans (if_neg h)
    have h2 : ¬(setBit w 1 false).getLsbD 0 = true := by rw [getLsbD_setBit]; simpa using h
    rw [h1, mtvecOfWrite_eq]
    exact (if_neg h2).trans (setBit_setBit w 1)

theorem mtvecOfWrite_boot {b : BitVec 64} (h : b.toNat % 4 = 0) : mtvecOfWrite (b + 0x40) = b + 0x40 := by
  have hn : (b + 0x40).toNat % 4 = 0 := by
    rw [BitVec.toNat_add]
    have : (0x40 : BitVec 64).toNat = 64 := rfl
    omega
  have h0 : (b + 0x40).getLsbD 0 = false := by
    rw [BitVec.getLsbD, Nat.testBit_zero]
    simp only [decide_eq_false_iff_not]
    omega
  have h1 : (b + 0x40).getLsbD 1 = false := by
    rw [BitVec.getLsbD, Nat.testBit_succ, Nat.testBit_zero]
    simp only [decide_eq_false_iff_not]
    omega
  rw [mtvecOfWrite_eq]
  exact (if_neg (by rw [h0]; decide)).trans (setBit_of_getLsbD h1)

theorem low_eq {n : ℕ} (h : n ≤ 64) (w : BitVec 64) : (w.extractLsb' 0 n).setWidth 64 = low n w := by
  rw [low, BitVec.setWidth_eq_extractLsb' h]

theorem low_low (n : ℕ) (w : BitVec 64) : low n (low n w) = low n w := by
  apply BitVec.eq_of_getLsbD_eq
  intro k _
  simp only [low, BitVec.getLsbD_setWidth]
  cases decide (k < n) <;> simp

theorem satpOfWrite_satpOfWrite (cfg : Cfg) (w : BitVec 64) :
    satpOfWrite cfg (satpOfWrite cfg w).toBits = satpOfWrite cfg w := by
  rw [satpOfWrite, Satp.ofBits_toBits]
  simp only [satpOfWrite, BitVec.and_assoc, BitVec.and_self]

/-- The registers that only a write changes. -/
def hard (s : Regs) : BitVec 64 × BitVec 64 × Satp × BitVec 64 × BitVec 64 × Xs × Bool × Bool :=
  (s.stvec, s.mtvec, s.satp, s.dcache, s.icache, s.mstatus.xs, s.mstatus.upie, s.mstatus.uie)

theorem hard_next (cfg : Cfg) (s : Regs) (i : In) :
    hard (next cfg s i) = hard (updWrite cfg s i (updDefaults s i)).d := by
  have h := congrArg (fun u : Upd => hard u.d) (early_csrUpdate cfg s i)
  exact h

/-- The registers that only a write changes hold what a write can leave. -/
structure HardOK (cfg : Cfg) (s : Regs) : Prop where
  xs : s.mstatus.xs = Xs.off
  upie : s.mstatus.upie = false
  uie : s.mstatus.uie = false
  stvec : setBit s.stvec 1 false = s.stvec
  mtvec : mtvecOfWrite s.mtvec = s.mtvec
  satp : satpOfWrite cfg s.satp.toBits = s.satp
  satpMode : s.satp.mode = modeOff ∨ s.satp.mode = modeSv39
  dcache : low 1 s.dcache = s.dcache
  icache : low 1 s.icache = s.icache

theorem HardOK.congr {s t : Regs} (h : HardOK cfg s) (ht : hard t = hard s) : HardOK cfg t := by
  simp only [hard, Prod.mk.injEq] at ht
  obtain ⟨h1, h2, h3, h4, h5, h6, h7, h8⟩ := ht
  constructor
  · rw [h6, h.xs]
  · rw [h7, h.upie]
  · rw [h8, h.uie]
  · rw [h1, h.stvec]
  · rw [h2, h.mtvec]
  · rw [h3, h.satp]
  · rw [h3]; exact h.satpMode
  · rw [h4, h.dcache]
  · rw [h5, h.icache]

theorem hardOK_csrWriteReg {s : Regs} {u : Upd} (hs : HardOK cfg s) (hu : HardOK cfg u.d)
    (w : BitVec 64) (r : CsrReg) : HardOK cfg (csrWriteReg cfg s w u r).d := by
  have hfp (f : Fcsr) : HardOK cfg (fpWrite s u f).d := by
    obtain ⟨g, hg⟩ := fpWrite_d s u f
    rw [hg]
    exact hu.congr rfl
  cases r with
  | fflags => exact hfp _
  | frm => exact hfp _
  | fcsr => exact hfp _
  | ftran => exact hfp _
  | sstatus =>
    simp only [csrWriteReg, sstatusOfWrite_eq]
    exact { hu with xs := hs.xs, upie := hs.upie, uie := hs.uie }
  | mstatus => exact { hu with xs := rfl, upie := rfl, uie := rfl }
  | stvec => exact { hu with stvec := by simp only [csrWriteReg, extract_append_mode, setBit_setBit] }
  | mtvec => exact { hu with mtvec := mtvecOfWrite_mtvecOfWrite w }
  | satp =>
    simp only [csrWriteReg]
    split
    · exact hu.congr rfl
    · split
      · rename_i hmode
        exact { hu with satp := satpOfWrite_satpOfWrite cfg w, satpMode := hmode }
      · exact hu.congr rfl
  | dcache =>
    refine { hu with dcache := ?_ }
    simp only [csrWriteReg, low_eq (by decide : 1 ≤ 64), low_low]
  | icache =>
    refine { hu with icache := ?_ }
    simp only [csrWriteReg, low_eq (by decide : 1 ≤ 64), low_low]
  | _ => exact hu.congr rfl

theorem hardOK_next {s : Regs} {i : In} (h : HardOK cfg s) (hi : Wired i) : HardOK cfg (next cfg s i) := by
  have hdef : HardOK cfg (updDefaults s i).d := by
    refine { h with mtvec := ?_ }
    simp only [updDefaults]
    split
    · exact mtvecOfWrite_boot hi.bootAddr
    · exact h.mtvec
  refine HardOK.congr ?_ (hard_next cfg s i)
  unfold updWrite
  split
  · split
    · exact hardOK_csrWriteReg h hdef _ _
    · exact hdef.congr rfl
  · exact hdef

/-- The fields of `dcsr` that are not supported. -/
def unsupported (c : Dcsr) : Bool × Bool × Bool := (c.nmip, c.stopcount, c.stoptime)

/-- The registers that traps and debug entries write hold what a write can leave. -/
structure CtxOK (x : Ctx) : Prop where
  epc : ∀ T, setBit (x.trap.get T).epc 0 false = (x.trap.get T).epc
  dcsr : unsupported x.dcsr = (false, false, false)

theorem ctxOK_written {s : Regs} {i : In} (h : CtxOK (ctx s)) : CtxOK (ctxWritten s i) := by
  rcases ctxWritten_cases s i with ⟨r, -, hx⟩ | hx
  · rw [hx]
    cases r with
    | dcsr => exact ⟨h.epc, rfl⟩
    | mepc =>
      refine ⟨fun T => ?_, h.dcsr⟩
      cases T with
      | m => simp only [ctxWrite, PerMode.get, extract_append_zero, setBit_setBit]
      | s => exact h.epc .s
    | sepc =>
      refine ⟨fun T => ?_, h.dcsr⟩
      cases T with
      | m => exact h.epc .m
      | s => simp only [ctxWrite, PerMode.get, extract_append_zero, setBit_setBit]
    | _ => exact ⟨fun T => by cases T; exacts [h.epc .m, h.epc .s], h.dcsr⟩
  · rw [hx]
    exact h

theorem ctxOK_trap {s : Regs} {i : In} {x : Ctx} (h : CtxOK x) (hi : Wired i) : CtxOK (ctxTrap s i x) := by
  unfold ctxTrap
  split
  · refine ⟨fun T => ?_, h.dcsr⟩
    have hT : T = trapMode s i ∨ T = (trapMode s i).other := by
      cases T <;> cases trapMode s i <;> simp [Mode.other]
    rcases hT with rfl | rfl
    · simp only [ctxEnter, PerMode.get_set]
      exact setBit_of_getLsbD hi.pc
    · simp only [ctxEnter, PerMode.get_set_other]
      exact h.epc _
  · exact h

theorem ctxOK_debug {s : Regs} {i : In} {x : Ctx} (h : CtxOK x) : CtxOK (ctxDebug cfg s i x) := by
  refine ⟨fun T => by rw [ctxDebug_trap]; exact h.epc T, ?_⟩
  rw [← h.dcsr]
  unfold ctxDebug ctxSingleStep ctxDebugReq ctxEbreak
  split
  · rfl
  · split <;> split <;> split <;> rfl

theorem ctxOK_next {s : Regs} {i : In} (h : CtxOK (ctx s)) (hi : Wired i) : CtxOK (ctx (next cfg s i)) := by
  rw [ctx_next]
  have hd := @ctxOK_debug cfg s i _ (ctxOK_trap (s := s) (ctxOK_written (i := i) h) hi)
  exact ⟨fun T => by rw [ctxReturn_trap]; exact hd.epc T, by rw [ctxReturn_dcsr]; exact hd.dcsr⟩

/-- Every register holds a value that a write of it keeps. -/
structure WellFormed (cfg : Cfg) (s : Regs) : Prop where
  hard : HardOK cfg s
  ctx : CtxOK (ctx s)

theorem wellFormed_reset (cfg : Cfg) : WellFormed cfg reset := by
  refine ⟨⟨rfl, rfl, rfl, by decide, by decide, ?_, Or.inl rfl, by decide, by decide⟩,
    ⟨fun T => by cases T <;> decide, rfl⟩⟩
  simp [satpOfWrite, reset, Satp.ofBits_toBits]

/-- The states of the runs from reset are well-formed. -/
theorem wellFormed_run (cfg : Cfg) (is : List SysIn) (hw : ∀ i ∈ is, Wired i.csr) :
    WellFormed cfg ((sysMachine cfg).run ⟨reset, fun _ => 0⟩ is).csr := by
  have hrun : ∀ (is : List SysIn) (s : Sys), WellFormed cfg s.csr → (∀ i ∈ is, Wired i.csr) →
      WellFormed cfg ((sysMachine cfg).run s is).csr := by
    intro is
    induction is with
    | nil => exact fun s hs _ => hs
    | cons i is ih =>
      intro s hs hw
      have hi : Wired (s.pins i) := ⟨(hw i List.mem_cons_self).pc, (hw i List.mem_cons_self).bootAddr⟩
      exact ih _ ⟨hardOK_next hs.hard hi, ctxOK_next hs.ctx hi⟩
        fun k hk => hw k (List.mem_cons_of_mem i hk)
  exact hrun is _ (wellFormed_reset cfg) hw

/-! ### A patch over the run -/

theorem Patch.after_of_fixed (h : ∀ d i e, p.next d i e = p) :
    ∀ (js : List SysIn) (t₀ : Sys), p.after cfg t₀ js = p := by
  intro js
  induction js with
  | nil => exact fun _ => rfl
  | cons j js ih =>
    intro t₀
    rw [Patch.after, h]
    exact ih _

theorem statusEdge_statusEdge (m : Status) :
    statusEdge (statusEdge m m) (statusEdge m m) = statusEdge m m := rfl

theorem Patch.after_mstatus (m : Status) : ∀ (js : List SysIn) (t₀ : Sys),
    (Patch.mstatus m).after cfg t₀ js = .mstatus (if js = [] then m else statusEdge m m) := by
  intro js
  induction js generalizing m with
  | nil => exact fun _ => rfl
  | cons j js ih =>
    intro t₀
    rw [Patch.after, Patch.next, ih, statusEdge_statusEdge, ite_self, if_neg (List.cons_ne_nil j js)]

theorem Patch.after_fcsr (f : Fcsr) (m : Status) : ∀ (js : List SysIn) (t₀ : Sys),
    (Patch.fcsr f m).after cfg t₀ js = .fcsr f (if js = [] then m else statusEdge m m) := by
  intro js
  induction js generalizing m with
  | nil => exact fun _ => rfl
  | cons j js ih =>
    intro t₀
    rw [Patch.after, Patch.next, ih, statusEdge_statusEdge, ite_self, if_neg (List.cons_ne_nil j js)]

theorem count_on (x a b : BitVec 64) : x + 1 + (a - (b + 1)) = x + (a - b) := by bv_omega

/-- A counter with a patch counts on as the one without it does. -/
theorem Patch.after_cycle : ∀ (js : List SysIn) (t₀ : Sys) (x : BitVec 64), (∀ j ∈ js, Between j) →
    (Patch.cycle x).after cfg t₀ js =
      .cycle (x + ((t₀.after cfg js).csr.cycle - t₀.csr.cycle)) := by
  intro js
  induction js with
  | nil =>
    intro t₀ x _
    simp [Patch.after, Sys.after]
  | cons j js ih =>
    intro t₀ x hjs
    have hcycle : (t₀.next cfg j).csr.cycle =
        if t₀.csr.debugMode then t₀.csr.cycle else t₀.csr.cycle + 1 := by
      rw [csr_next_of_between (hjs j List.mem_cons_self)]
      rfl
    rw [Patch.after, Patch.next, ih _ _ fun k hk => hjs k (List.mem_cons_of_mem j hk), hcycle]
    congr 1
    have hrun : t₀.after cfg (j :: js) = (t₀.next cfg j).after cfg js := rfl
    rw [hrun]
    split
    · rfl
    · exact count_on _ _ _

theorem Patch.after_perf (n : Fin 14) : ∀ (js : List SysIn) (t₀ : Sys) (x : BitVec 64),
    (∀ j ∈ js, Between j) → (Patch.perf n x).after cfg t₀ js =
      .perf n (x + ((t₀.after cfg js).perf n - t₀.perf n)) := by
  intro js
  induction js with
  | nil =>
    intro t₀ x _
    simp [Patch.after, Sys.after]
  | cons j js ih =>
    intro t₀ x hjs
    have hperf : (t₀.next cfg j).perf n =
        if !t₀.csr.debugMode && perfEvent j.perf j.csr false n then t₀.perf n + 1 else t₀.perf n := by
      rw [perf_next_of_between (hjs j List.mem_cons_self)]
      rfl
    rw [Patch.after, Patch.next, ih _ _ fun k hk => hjs k (List.mem_cons_of_mem j hk), hperf]
    congr 1
    have hrun : t₀.after cfg (j :: js) = (t₀.next cfg j).after cfg js := rfl
    rw [hrun]
    split
    · exact count_on _ _ _
    · rfl

/-- The lines of the platform are outside what software writes. -/
theorem lines_maskWrite (i : In) {m : BitVec 64} (hm : m &&& ~~~sipMask = 0) (x w : BitVec 64) :
    lines i (maskWrite m x w) = maskWrite m (lines i x) w := by
  have hbit (k : ℕ) (hk : sipMask.getLsbD k = false) (hlt : k < 64) : m.getLsbD k = false := by
    have h := congrArg (fun y => y.getLsbD k) hm
    simp only [BitVec.getLsbD_and, BitVec.getLsbD_not, hk, hlt, decide_true, Bool.not_false, Bool.and_true] at h
    exact h.trans BitVec.getLsbD_zero
  apply BitVec.eq_of_getLsbD_eq
  intro k hk
  simp only [lines, getLsbD_setBit, getLsbD_maskWrite]
  by_cases h7 : k = irqMTimer
  · rw [h7, hbit irqMTimer (by decide) (by decide)]
    simp
  · by_cases h3 : k = irqMSoft
    · rw [h3, hbit irqMSoft (by decide) (by decide)]
      simp
    · by_cases h11 : k = irqMExt
      · rw [h11, hbit irqMExt (by decide) (by decide)]
        simp
      · simp [h7, h3, h11]

theorem Patch.after_mip {m : BitVec 64} (hm : m &&& ~~~sipMask = 0) (w : BitVec 64) :
    ∀ (js : List SysIn) (t₀ : Sys), (∀ j ∈ js, Between j) →
      (Patch.mip (maskWrite m t₀.csr.mip w)).after cfg t₀ js =
        .mip (maskWrite m (t₀.after cfg js).csr.mip w) := by
  intro js
  induction js with
  | nil => exact fun _ _ => rfl
  | cons j js ih =>
    intro t₀ hjs
    have hmip : (t₀.next cfg j).csr.mip = lines j.csr t₀.csr.mip := by
      rw [csr_next_of_between (hjs j List.mem_cons_self)]
      rfl
    rw [Patch.after, Patch.next, lines_maskWrite _ hm, ← hmip]
    exact ih _ fun k hk => hjs k (List.mem_cons_of_mem j hk)

/-! ### Reading back -/

theorem maskWrite_and (m q w : BitVec 64) : maskWrite m q w &&& m = w &&& m := by
  apply BitVec.eq_of_getLsbD_eq
  intro k _
  rw [BitVec.getLsbD_and, BitVec.getLsbD_and, getLsbD_maskWrite]
  cases m.getLsbD k <;> simp

theorem maskWrite_and_and (a m q w : BitVec 64) : maskWrite (a &&& m) q w &&& m = maskWrite a q w &&& m := by
  apply BitVec.eq_of_getLsbD_eq
  intro k _
  rw [BitVec.getLsbD_and, BitVec.getLsbD_and, getLsbD_maskWrite, getLsbD_maskWrite, BitVec.getLsbD_and]
  cases m.getLsbD k <;> simp

theorem maskWrite_and_not {a m : BitVec 64} (ha : a &&& ~~~m = 0) (q w : BitVec 64) :
    maskWrite a q w &&& ~~~m = q &&& ~~~m := by
  apply BitVec.eq_of_getLsbD_eq
  intro k hk
  have h := congrArg (fun y => y.getLsbD k) ha
  simp only [BitVec.getLsbD_and, BitVec.getLsbD_not, hk, decide_true, Bool.true_and] at h ⊢
  rw [getLsbD_maskWrite]
  cases hm : m.getLsbD k with
  | true => simp
  | false =>
    have ha0 : a.getLsbD k = false := by
      rw [hm, Bool.not_false, Bool.and_true] at h
      exact h.trans BitVec.getLsbD_zero
    simp [ha0]

theorem and_mideleg_sub (m : BitVec 64) : (mipSsip &&& m) &&& ~~~m = 0 := by
  rw [BitVec.and_assoc, BitVec.and_not_self]
  exact BitVec.and_zero

theorem and_sub_sipMask (m : BitVec 64) : (mipSsip &&& m) &&& ~~~sipMask = 0 := by
  have h : mipSsip &&& ~~~sipMask = 0 := by decide
  rw [BitVec.and_assoc, BitVec.and_comm m, ← BitVec.and_assoc, h]
  exact BitVec.zero_and

/-- The new value is what the file takes for it. -/
theorem Access.new_eq (h : Access cfg s i r) : s.new i r = s.wdata i := by
  have hwe := h.writes.1
  have hread : csrRdata s.csr (s.pins i) = s.old i r := by
    have hr : csrRead s.csr (s.pins i) = true := by
      simp only [csrWe, Bool.and_eq_true] at hwe
      simp only [csrRead, hwe.1.1, hwe.2, Bool.and_true]
    simp only [csrRdata, hr, if_true, csrReadAddr, h.writes.2, Option.bind_some, Sys.old]
  have hop : (s.pins i).csrOp = i.csr.csrOp := rfl
  have hdata : (s.pins i).csrWdata = i.csr.csrWdata := rfl
  unfold Sys.new Sys.wdata rmw csrWdata
  rw [hop, hdata, hread]
  cases i.csr.csrOp <;> first | rfl | exact BitVec.or_comm _ _ | exact BitVec.and_comm _ _

/-- A read that the privilege check lets through. -/
theorem rdata_eq (hop : j.csr.csrOp = .csrRead) (ha : j.csr.csrAddr = r.addr)
    (hv : privilegeViolation t.csr (t.pins j) = false) :
    t.rdata j = shown t.csr j.csr ((csrReadReg t.csr (t.pins j) r).getD 0) := by
  have hr : csrRead t.csr (t.pins j) = true := by
    have hop' : (t.pins j).csrOp = .csrRead := hop
    simp only [csrRead, hv, hop', Bool.not_false, Bool.and_true]
    rfl
  have haddr : csrReadAddr t.csr (t.pins j) = csrReadReg t.csr (t.pins j) r := by
    have ha' : (t.pins j).csrAddr = r.addr := ha
    rw [csrReadAddr, ha', CsrReg.ofAddr_addr, Option.bind_some]
  have hdata : csrRdata t.csr (t.pins j) = (csrReadReg t.csr (t.pins j) r).getD 0 := by
    rw [csrRdata, hr, if_pos rfl, haddr]
  rw [← hdata]
  rfl

/-- In debug mode the core may access everything, and else as before. -/
theorem violation_of_kept {a b : Regs} {x y : In} (hlvl : b.privLvl = a.privLvl)
    (hdbg : a.debugMode = true → b.debugMode = true) (hx : x.csrOp.isCsrAccess = true)
    (ha : y.csrAddr = x.csrAddr) (hv : privilegeViolation a x = false) :
    privilegeViolation b y = false := by
  cases hb : b.debugMode with
  | true =>
    have hM : privLvlM &&& csrPrivLvl y.csrAddr = csrPrivLvl y.csrAddr := by
      generalize csrPrivLvl y.csrAddr = p
      revert p
      decide
    simp [privilegeViolation, privLvlO, hb, hM]
  | false =>
    have haf : a.debugMode = false := by
      by_contra hn
      rw [Bool.not_eq_false] at hn
      rw [hdbg hn] at hb
      cases hb
    simp only [privilegeViolation, privLvlO, haf, hx, Bool.true_and] at hv
    simp only [privilegeViolation, privLvlO, hb, ha, hlvl, hv, Bool.and_false]

theorem perfDataO_mhpmcounter (p : Perf) (n : Fin 29) (h : n.val < 14) :
    perfDataO p ((CsrReg.mhpmcounter n).addr.extractLsb' 0 5) = p ⟨n.val, h⟩ := by
  have hn : ∀ n : Fin 29, n.val < 14 →
      ((CsrReg.mhpmcounter n).addr.extractLsb' 0 5).toNat = n.val + 3 := by decide
  rw [perfDataO, dif_pos (by rw [hn n h]; omega)]
  congr 1
  exact Fin.ext (by simp only [hn n h]; omega)

theorem expected_of_not_counts {first o : Sys} {w : BitVec 64} (hc : counts r = false) :
    expected cfg first o w r = legal cfg o.csr w r := by
  cases r <;> first | rfl | cases hc

/-- The writes to these flush the pipeline. -/
def flushes : CsrReg → Bool
  | .fflags | .frm | .fcsr | .ftran | .sstatus | .satp | .mstatus => true
  | _ => false

theorem Access.flush (h : Access cfg s i r) : flushO cfg s.csr (s.pins i) = flushes r := by
  have hout := perfOuts_of_calm cfg s.csr (h.calm.pins s)
  have hr := h.not_refused
  rw [updWrite_of_writes h.writes] at hout
  simp only [perfOuts, Prod.mk.injEq] at hout
  rw [flushO, hout.2.2.2]
  change (csrWriteReg cfg s.csr (s.wdata i) (updDefaults s.csr (s.pins i)) r).flush = flushes r
  cases r with
  | fflags => rw [csrWriteReg, fpWrite_of_not_refused hr]; rfl
  | frm => rw [csrWriteReg, fpWrite_of_not_refused hr]; rfl
  | fcsr => rw [csrWriteReg, fpWrite_of_not_refused hr]; rfl
  | ftran => rw [csrWriteReg, fpWrite_of_not_refused hr]; rfl
  | satp =>
    rw [satp_of_not_refused hr]
    split <;> rfl
  | _ => rfl

section

variable (h : Access cfg s i r) (js : List SysIn) (hjs : ∀ j ∈ js, Between j)

include h hjs

theorem Access.kept : Kept s.csr ((s.next cfg i.reading).after cfg js).csr :=
  kept_after (kept_reading h) h.booted js hjs

theorem Access.patched_after :
    Patched ((writePatch cfg s.csr i.csr (s.wdata i) r).after cfg (s.next cfg i.reading) js)
      ((s.next cfg i).after cfg js) ((s.next cfg i.reading).after cfg js) := by
  refine h.patched.after (kept_reading h) h.booted (fun hd => ?_) js hjs
  cases r with
  | dcsr => exact debugMode_of_writes h.writes (by decide)
  | dpc => exact debugMode_of_writes h.writes (by decide)
  | satp =>
    simp only [writePatch] at hd
    split at hd <;> cases hd
  | mhpmcounter n =>
    simp only [writePatch] at hd
    split at hd <;> cases hd
  | _ => cases hd

theorem Access.privilegeViolation_after (ha : j.csr.csrAddr = r.addr) :
    privilegeViolation ((s.next cfg i).after cfg js).csr (((s.next cfg i).after cfg js).pins j) = false := by
  have hk := h.kept js hjs
  obtain ⟨⟨w, e, hcsr⟩, -⟩ := h.patched_after js hjs
  have hwe := h.writes.1
  simp only [csrWe, Bool.and_eq_true, Bool.not_eq_true'] at hwe
  have hlvl : ((s.next cfg i).after cfg js).csr.privLvl = s.csr.privLvl := by
    rw [← hk.privLvl, hcsr]
    generalize (writePatch cfg s.csr i.csr (s.wdata i) r).after cfg (s.next cfg i.reading) js = p
    cases p <;> rfl
  have hdbg : ((s.next cfg i).after cfg js).csr.debugMode =
      ((s.next cfg i.reading).after cfg js).csr.debugMode := by
    rw [hcsr]
    generalize (writePatch cfg s.csr i.csr (s.wdata i) r).after cfg (s.next cfg i.reading) js = p
    cases p <;> rfl
  refine violation_of_kept hlvl (fun hd => ?_) hwe.1.1 ?_ hwe.2
  · rw [hdbg]
    exact (hk.debug hd).1
  · exact ha.trans (CsrReg.addr_of_ofAddr h.writes.2)

/-- The register holds what it has to at the read. -/
theorem Access.readReg (hwf : WellFormed cfg s.csr) (hres : reserved r = false) (hl : Lawful s i r)
    (hne : flushes r = true → js ≠ []) (ha : j.csr.csrAddr = r.addr) :
    (csrReadReg ((s.next cfg i).after cfg js).csr (((s.next cfg i).after cfg js).pins j) r).getD 0 =
      expected cfg (s.next cfg i.reading) ((s.next cfg i.reading).after cfg js) (s.new i r) r := by
  have hk := h.kept js hjs
  obtain ⟨⟨w', e, hcsr⟩, hperf⟩ := h.patched_after js hjs
  have hr := h.not_refused
  have hnew := h.new_eq
  have hfirst : (s.next cfg i.reading).csr = calmNext s.csr i.reading.csr (updDefaults s.csr i.csr) :=
    csr_next_reading h.calm s
  have hmip : (s.next cfg i.reading).csr.mip = lines i.csr s.csr.mip := by rw [hfirst]; rfl
  rw [hnew]
  generalize s.wdata i = w at *
  cases r with
  | fflags =>
    have hjs' := hne rfl
    rw [csrReadReg, hcsr, writePatch, Patch.after_fcsr, if_neg hjs']
    exact low_eq (by decide) w
  | frm =>
    have hjs' := hne rfl
    rw [csrReadReg, hcsr, writePatch, Patch.after_fcsr, if_neg hjs']
    exact low_eq (by decide) w
  | fcsr =>
    have hjs' := hne rfl
    rw [csrReadReg, hcsr, writePatch, Patch.after_fcsr, if_neg hjs']
    exact congrArg (BitVec.setWidth 64) (extract_append_fcsr w)
  | ftran =>
    have hjs' := hne rfl
    rw [csrReadReg, hcsr, writePatch, Patch.after_fcsr, if_neg hjs']
    exact low_eq (by decide) w
  | sstatus =>
    have hjs' := hne rfl
    rw [csrReadReg, hcsr, writePatch, Patch.after_mstatus, if_neg hjs', expected_of_not_counts rfl,
      legal, hk.status, sstatusOfWrite_eq]
    rfl
  | mstatus =>
    have hjs' := hne rfl
    rw [csrReadReg, hcsr, writePatch, Patch.after_mstatus, if_neg hjs', expected_of_not_counts rfl,
      legal, hk.status]
    simp [Patch.regs, statusEdge, mstatusOfWrite, legalMstatus, withSd, fpPresent, hwf.hard.xs,
      hwf.hard.upie, hwf.hard.uie]
  | sie =>
    rw [csrReadReg, hcsr, writePatch, Patch.after_of_fixed fun _ _ _ => rfl]
    change maskWrite s.csr.mideleg s.csr.mie w &&& ((s.next cfg i.reading).after cfg js).csr.mideleg = _
    rw [← hk.mideleg]
    exact maskWrite_and _ _ _
  | sip =>
    rw [csrReadReg, hcsr, writePatch, lines_maskWrite _ (and_sub_sipMask _), ← hmip,
      Patch.after_mip (and_sub_sipMask _) w js _ hjs, ← hk.mideleg]
    exact maskWrite_and_and _ _ _ _
  | mip =>
    have hsip : sipMask &&& ~~~sipMask = 0 := by decide
    rw [csrReadReg, hcsr, writePatch, lines_maskWrite _ hsip, ← hmip, Patch.after_mip hsip w js _ hjs]
    rfl
  | satp =>
    have hno : ¬(privLvlO s.csr = privLvlS ∧ s.csr.mstatus.tvm = true) := by
      intro hs
      simp [csrWriteReg, hs] at hr
    have hfix : ∃ p : Option Satp, ((s.next cfg i).after cfg js).csr =
        { ((s.next cfg i.reading).after cfg js).csr with
          satp := p.getD ((s.next cfg i.reading).after cfg js).csr.satp
          wfi := w'
          enLdStTranslation := e } ∧
        (p.getD ((s.next cfg i.reading).after cfg js).csr.satp).toBits =
          legal cfg ((s.next cfg i.reading).after cfg js).csr w .satp := by
      rw [hcsr, writePatch, legal]
      by_cases hm : (satpOfWrite cfg w).mode = modeOff ∨ (satpOfWrite cfg w).mode = modeSv39
      · refine ⟨some (satpOfWrite cfg w), ?_, (if_pos hm).symm⟩
        rw [if_pos hm, Patch.after_of_fixed fun _ _ _ => rfl]
        rfl
      · refine ⟨none, ?_, (if_neg hm).symm⟩
        rw [if_neg hm, Patch.after_of_fixed fun _ _ _ => rfl]
        rfl
    obtain ⟨p, hT, hp⟩ := hfix
    have hno' : ¬(privLvlO ((s.next cfg i).after cfg js).csr = privLvlS ∧
        ((s.next cfg i).after cfg js).csr.mstatus.tvm = true) := by
      rw [hT]
      rintro ⟨hlvl, htvm⟩
      refine hno ⟨?_, by rw [hk.status] at htvm; exact htvm⟩
      cases hd : s.csr.debugMode with
      | true => simp [privLvlO, (hk.debug hd).1, privLvlM, privLvlS] at hlvl
      | false =>
        rw [privLvlO] at hlvl
        split at hlvl
        · simp [privLvlM, privLvlS] at hlvl
        · rw [privLvlO, hd, ← hk.privLvl]
          exact hlvl
    rw [csrReadReg, if_neg hno', hT, expected_of_not_counts rfl]
    exact hp
  | dcsr =>
    have hd := debugMode_of_writes h.writes (by decide)
    have hlegal : dcsrOfWrite s.csr w = legalDcsr s.csr.dcsr w := by
      have hun := hwf.ctx.dcsr
      simp only [unsupported, ctx, Prod.mk.injEq] at hun
      simp only [dcsrOfWrite, legalDcsr, (hl.2 rfl).1, (hl.2 rfl).2, hun]
    rw [csrReadReg, hcsr, writePatch, Patch.after_of_fixed fun _ _ _ => rfl, hlegal, ← (hk.debug hd).2.1]
    rfl
  | mcycle =>
    rw [csrReadReg, hcsr, writePatch, Patch.after_cycle js _ _ hjs]
    rfl
  | minstret =>
    have hw : w = (s.next cfg i.reading).csr.instret := by
      rw [← hnew, hl.1 rfl, hfirst]
      rfl
    rw [csrReadReg, hcsr, writePatch, Patch.after_of_fixed fun _ _ _ => rfl, hw]
    exact (add_sub_cancel _ _).symm
  | mhpmcounter n =>
    have hn : n.val < 14 := by simpa [reserved] using hres
    have hdata : (((s.next cfg i).after cfg js).pins j).perfData =
        ((s.next cfg i).after cfg js).perf ⟨n.val, hn⟩ := by
      change perfDataO _ (j.csr.csrAddr.extractLsb' 0 5) = _
      rw [ha, perfDataO_mhpmcounter _ n hn]
    rw [csrReadReg, hdata, hperf, writePatch, dif_pos hn, Patch.after_perf _ js _ _ hjs]
    simp [Patch.counters, expected, Sys.counter, hn]
  | mvendorid => cases hr
  | marchid => cases hr
  | mimpid => cases hr
  | mhartid => cases hr
  | tselect => rfl
  | tdata1 => rfl
  | tdata2 => rfl
  | tdata3 => rfl
  | scounteren => rfl
  | misa => rfl
  | mcounteren => rfl
  | stvec =>
    rw [csrReadReg, hcsr, writePatch, Patch.after_of_fixed fun _ _ _ => rfl, extract_append_mode]
    rfl
  | sepc =>
    rw [csrReadReg, hcsr, writePatch, Patch.after_of_fixed fun _ _ _ => rfl, extract_append_zero]
    rfl
  | mepc =>
    rw [csrReadReg, hcsr, writePatch, Patch.after_of_fixed fun _ _ _ => rfl, extract_append_zero]
    rfl
  | mtvec =>
    rw [csrReadReg, hcsr, writePatch, Patch.after_of_fixed fun _ _ _ => rfl, mtvecOfWrite_eq]
    rfl
  | dcache =>
    rw [csrReadReg, hcsr, writePatch, Patch.after_of_fixed fun _ _ _ => rfl, low_eq (by decide)]
    rfl
  | icache =>
    rw [csrReadReg, hcsr, writePatch, Patch.after_of_fixed fun _ _ _ => rfl, low_eq (by decide)]
    rfl
  | medeleg =>
    rw [csrReadReg, hcsr, writePatch, Patch.after_of_fixed fun _ _ _ => rfl, ← hk.medeleg]
    rfl
  | mideleg =>
    rw [csrReadReg, hcsr, writePatch, Patch.after_of_fixed fun _ _ _ => rfl, ← hk.mideleg]
    rfl
  | mie =>
    rw [csrReadReg, hcsr, writePatch, Patch.after_of_fixed fun _ _ _ => rfl, ← hk.mie]
    rfl
  | _ =>
    rw [csrReadReg, hcsr, writePatch, Patch.after_of_fixed fun _ _ _ => rfl]
    rfl

/-- The patch is of the register and what it shares one with. -/
theorem Access.within (hres : reserved r = false) :
    ((writePatch cfg s.csr i.csr (s.wdata i) r).after cfg (s.next cfg i.reading) js).within
      ((s.next cfg i.reading).after cfg js).csr r := by
  have hk := h.kept js hjs
  have hr := h.not_refused
  have hfirst : (s.next cfg i.reading).csr = calmNext s.csr i.reading.csr (updDefaults s.csr i.csr) :=
    csr_next_reading h.calm s
  have hmip : (s.next cfg i.reading).csr.mip = lines i.csr s.csr.mip := by rw [hfirst]; rfl
  have hmark : ∀ m, m = (if js = [] then writePatch.dirtied s.csr.mstatus
      else statusEdge (writePatch.dirtied s.csr.mstatus) (writePatch.dirtied s.csr.mstatus)) →
      m = { ((s.next cfg i.reading).after cfg js).csr.mstatus with fs := Xs.dirty, sd := m.sd } := by
    intro m hm
    rw [hk.status, hm]
    split <;> rfl
  generalize s.wdata i = w at *
  cases r with
  | fflags =>
    rw [writePatch, Patch.after_fcsr]
    exact ⟨Or.inl ⟨rfl, by rw [hk.fcsr]⟩, hmark _ rfl⟩
  | frm =>
    rw [writePatch, Patch.after_fcsr]
    exact ⟨Or.inr (Or.inl ⟨rfl, by rw [hk.fcsr]⟩), hmark _ rfl⟩
  | fcsr =>
    rw [writePatch, Patch.after_fcsr]
    exact ⟨Or.inr (Or.inr (Or.inl ⟨rfl, by rw [hk.fcsr]⟩)), hmark _ rfl⟩
  | ftran =>
    rw [writePatch, Patch.after_fcsr]
    exact ⟨Or.inr (Or.inr (Or.inr ⟨rfl, by rw [hk.fcsr]⟩)), hmark _ rfl⟩
  | sstatus =>
    rw [writePatch, Patch.after_mstatus, sstatusOfWrite_eq]
    refine Or.inr ⟨rfl, ?_⟩
    rw [hk.status]
    split <;> rfl
  | mstatus =>
    rw [writePatch, Patch.after_mstatus]
    exact Or.inl rfl
  | sie =>
    rw [writePatch, Patch.after_of_fixed fun _ _ _ => rfl]
    refine Or.inr ⟨rfl, ?_⟩
    rw [hk.mideleg, hk.mie]
    exact maskWrite_and_not (BitVec.and_not_self _) _ _
  | sip =>
    rw [writePatch, lines_maskWrite _ (and_sub_sipMask _), ← hmip,
      Patch.after_mip (and_sub_sipMask _) w js _ hjs]
    refine Or.inr ⟨rfl, ?_⟩
    rw [hk.mideleg]
    exact maskWrite_and_not (and_mideleg_sub _) _ _
  | mie =>
    rw [writePatch, Patch.after_of_fixed fun _ _ _ => rfl]
    exact Or.inl rfl
  | mip =>
    have hsip : sipMask &&& ~~~sipMask = 0 := by decide
    rw [writePatch, lines_maskWrite _ hsip, ← hmip, Patch.after_mip hsip w js _ hjs]
    exact Or.inl rfl
  | satp =>
    rw [writePatch]
    split
    · rw [Patch.after_of_fixed fun _ _ _ => rfl]
      rfl
    · rw [Patch.after_of_fixed fun _ _ _ => rfl]
      trivial
  | mcycle =>
    rw [writePatch, Patch.after_cycle js _ _ hjs]
    rfl
  | mhpmcounter n =>
    have hn : n.val < 14 := by simpa [reserved] using hres
    rw [writePatch, dif_pos hn, Patch.after_perf _ js _ _ hjs]
    exact ⟨n, rfl, rfl⟩
  | mvendorid => cases hr
  | marchid => cases hr
  | mimpid => cases hr
  | mhartid => cases hr
  | _ =>
    rw [writePatch, Patch.after_of_fixed fun _ _ _ => rfl]
    first | rfl | trivial

end

/-- A masked write of what a view shows. -/
theorem maskWrite_view {m v : BitVec 64} (hm : m &&& ~~~v = 0) (q : BitVec 64) : maskWrite m q (q &&& v) = q := by
  apply BitVec.eq_of_getLsbD_eq
  intro k hk
  have h := congrArg (fun y => y.getLsbD k) hm
  simp only [BitVec.getLsbD_and, BitVec.getLsbD_not, hk, decide_true, Bool.true_and] at h
  rw [getLsbD_maskWrite, BitVec.getLsbD_and]
  cases hv : v.getLsbD k with
  | true => simp
  | false =>
    have hm0 : m.getLsbD k = false := by
      rw [hv, Bool.not_false, Bool.and_true] at h
      exact h.trans BitVec.getLsbD_zero
    simp [hm0]

/-- A write of the value a register has patches nothing. -/
theorem writePatch_old (h : Access cfg s i r) (hwf : WellFormed cfg s.csr) (hl : Lawful s i r)
    (hc : counts r = false) (hf : isFp r = false) (hw : s.wdata i = s.old i r) :
    Patched .none (s.next cfg i) (s.next cfg i.reading) := by
  have hr := h.not_refused
  obtain ⟨⟨w', e, hcsr⟩, hperf⟩ := h.patched
  rw [hw] at hcsr hperf
  have hfirst : (s.next cfg i.reading).csr = calmNext s.csr i.reading.csr (updDefaults s.csr i.csr) :=
    csr_next_reading h.calm s
  have hk := kept_reading h
  have hnone : (writePatch cfg s.csr i.csr (s.old i r) r).regs (s.next cfg i.reading).csr =
      (s.next cfg i.reading).csr := by
    cases r with
    | fflags => cases hf
    | frm => cases hf
    | fcsr => cases hf
    | ftran => cases hf
    | mcycle => cases hc
    | minstret => cases hc
    | mhpmcounter n => cases hc
    | dcsr =>
      have hd := debugMode_of_writes h.writes (by decide)
      have hold : dcsrOfWrite s.csr (s.old i .dcsr) = s.csr.dcsr := by
        have hbits : (s.csr.dcsr.toBits.setWidth 64).extractLsb' 0 32 = s.csr.dcsr.toBits := by
          rw [← BitVec.setWidth_eq_extractLsb' (by decide), BitVec.setWidth_setWidth_of_le _ (by decide),
            BitVec.setWidth_eq]
        have hun := hwf.ctx.dcsr
        simp only [unsupported, ctx, Prod.mk.injEq] at hun
        change dcsrOfWrite s.csr (s.csr.dcsr.toBits.setWidth 64) = s.csr.dcsr
        rw [dcsrOfWrite, hbits, Dcsr.ofBits_toBits, ← (hl.2 rfl).1, ← (hl.2 rfl).2]
        apply Dcsr.ext <;> first | rfl | simp only [hun]
      rw [writePatch, hold, ← (hk.debug hd).2.1]
      rfl
    | dpc =>
      have hd := debugMode_of_writes h.writes (by decide)
      have hold : s.old i .dpc = (s.next cfg i.reading).csr.dpc := (hk.debug hd).2.2.symm
      rw [writePatch, hold]
      rfl
    | sstatus =>
      have hold : sstatusOfWrite s.csr (s.old i .sstatus) = s.csr.mstatus := by
        have hview : maskWrite smodeStatusWriteMask s.csr.mstatus.toBits (s.old i .sstatus) =
            s.csr.mstatus.toBits := maskWrite_view (by decide) _
        simp only [sstatusOfWrite, hview, Status.ofBits_toBits, fpPresent, if_true]
      rw [writePatch, hold, hfirst]
      rfl
    | mstatus =>
      have hold : mstatusOfWrite (s.old i .mstatus) = s.csr.mstatus := by
        change mstatusOfWrite s.csr.mstatus.toBits = s.csr.mstatus
        rw [mstatusOfWrite, Status.ofBits_toBits, ← hwf.hard.xs]
        apply Status.ext <;> first | rfl | simp only [hwf.hard.upie, hwf.hard.uie]
      rw [writePatch, hold, hfirst]
      rfl
    | sie =>
      have hold : maskWrite s.csr.mideleg s.csr.mie (s.old i .sie) = s.csr.mie :=
        maskWrite_view (BitVec.and_not_self _) _
      rw [writePatch, hold, hfirst]
      rfl
    | sip =>
      have hold : maskWrite (mipSsip &&& s.csr.mideleg) s.csr.mip (s.old i .sip) = s.csr.mip :=
        maskWrite_view (and_mideleg_sub _) _
      rw [writePatch, hold, hfirst]
      rfl
    | mie =>
      have hold : maskWrite mieMask s.csr.mie (s.old i .mie) = s.csr.mie := maskWrite_self _ _
      rw [writePatch, hold, hfirst]
      rfl
    | mip =>
      have hold : maskWrite sipMask s.csr.mip (s.old i .mip) = s.csr.mip := maskWrite_self _ _
      rw [writePatch, hold, hfirst]
      rfl
    | medeleg =>
      have hold : maskWrite medelegMask s.csr.medeleg (s.old i .medeleg) = s.csr.medeleg := maskWrite_self _ _
      rw [writePatch, hold, hfirst]
      rfl
    | mideleg =>
      have hold : maskWrite sipMask s.csr.mideleg (s.old i .mideleg) = s.csr.mideleg := maskWrite_self _ _
      rw [writePatch, hold, hfirst]
      rfl
    | stvec =>
      have hold : setBit (s.old i .stvec) 1 false = s.csr.stvec := hwf.hard.stvec
      rw [writePatch, extract_append_mode, hold, hfirst]
      rfl
    | mtvec =>
      have hold : mtvecOfWrite (s.old i .mtvec) = s.csr.mtvec := hwf.hard.mtvec
      have hm : (s.next cfg i.reading).csr.mtvec = s.csr.mtvec := by rw [hk.regs]
      rw [writePatch, hold, ← hm]
      rfl
    | sepc =>
      have hold : setBit (s.old i .sepc) 0 false = s.csr.sepc := hwf.ctx.epc .s
      rw [writePatch, extract_append_zero, hold, hfirst]
      rfl
    | mepc =>
      have hold : setBit (s.old i .mepc) 0 false = s.csr.mepc := hwf.ctx.epc .m
      rw [writePatch, extract_append_zero, hold, hfirst]
      rfl
    | dcache =>
      have hold : low 1 (s.old i .dcache) = s.csr.dcache := hwf.hard.dcache
      rw [writePatch, low_eq (by decide), hold, hfirst]
      rfl
    | icache =>
      have hold : low 1 (s.old i .icache) = s.csr.icache := hwf.hard.icache
      rw [writePatch, low_eq (by decide), hold, hfirst]
      rfl
    | satp =>
      have hno : ¬(privLvlO s.csr = privLvlS ∧ s.csr.mstatus.tvm = true) := by
        intro hs
        simp [csrWriteReg, hs] at hr
      have hold : s.old i .satp = s.csr.satp.toBits := by rw [Sys.old, csrReadReg, if_neg hno]; rfl
      rw [writePatch, hold, hwf.hard.satp, if_pos hwf.hard.satpMode, hfirst]
      rfl
    | mvendorid => cases hr
    | marchid => cases hr
    | mimpid => cases hr
    | mhartid => cases hr
    | _ =>
      rw [hfirst]
      rfl
  refine ⟨⟨w', e, by rw [hcsr, hnone]; rfl⟩, ?_⟩
  rw [hperf]
  cases r with
  | satp =>
    rw [writePatch]
    split <;> rfl
  | mhpmcounter n => cases hc
  | _ => rfl

theorem fpRead_of_not_refused {s : Regs} {u : Upd} {f : Fcsr} {x : BitVec 64}
    (h : (fpWrite s u f).updateAccessException = false) : fpRead s x = some x := by
  unfold fpWrite at h
  split at h
  · cases h
  · rename_i hfs
    exact if_neg hfs

/-- A write of the value a floating-point register has leaves `fcsr` as it is. -/
theorem writePatch_old_fcsr (h : Access cfg s i r) (hf : isFp r = true) (hw : s.wdata i = s.old i r) :
    ∃ m, writePatch cfg s.csr i.csr (s.wdata i) r = .fcsr s.csr.fcsr m := by
  have hr := h.not_refused
  have hbits {n : ℕ} (x : BitVec n) (hn : n ≤ 64) : (x.setWidth 64).extractLsb' 0 n = x := by
    rw [← BitVec.setWidth_eq_extractLsb' hn, BitVec.setWidth_setWidth_of_le _ hn, BitVec.setWidth_eq]
  rw [hw]
  cases r with
  | fflags =>
    have hold : (s.old i .fflags).extractLsb' 0 5 = s.csr.fcsr.fflags := by
      rw [Sys.old, csrReadReg, fpRead_of_not_refused hr]
      exact hbits _ (by decide)
    exact ⟨_, by rw [writePatch, hold]⟩
  | frm =>
    have hold : (s.old i .frm).extractLsb' 0 3 = s.csr.fcsr.frm := by
      rw [Sys.old, csrReadReg, fpRead_of_not_refused hr]
      exact hbits _ (by decide)
    exact ⟨_, by rw [writePatch, hold]⟩
  | fcsr =>
    have hall : (s.old i .fcsr).extractLsb' 0 8 = s.csr.fcsr.frm ++ s.csr.fcsr.fflags := by
      rw [Sys.old, csrReadReg, fpRead_of_not_refused hr]
      exact hbits _ (by decide)
    have hlow : (s.old i .fcsr).extractLsb' 0 5 = s.csr.fcsr.fflags := by
      rw [← extractLsb'_extractLsb' _ (by decide : 0 + 5 ≤ 8), hall, BitVec.extractLsb'_append_eq_right]
    have hhigh : (s.old i .fcsr).extractLsb' 5 3 = s.csr.fcsr.frm := by
      have h58 : (s.old i .fcsr).extractLsb' 5 3 = ((s.old i .fcsr).extractLsb' 0 8).extractLsb' 5 3 :=
        (extractLsb'_extractLsb' _ (by decide : 5 + 3 ≤ 8)).symm
      rw [h58, hall, BitVec.extractLsb'_append_eq_left]
    exact ⟨_, by rw [writePatch, hlow, hhigh]⟩
  | ftran =>
    have hold : (s.old i .ftran).extractLsb' 0 7 = s.csr.fcsr.fprec := by
      rw [Sys.old, csrReadReg, fpRead_of_not_refused hr]
      exact hbits _ (by decide)
    exact ⟨_, by rw [writePatch, hold]⟩
  | _ => cases hf

theorem Access.rewrite (h : Access cfg s i r) (hwf : WellFormed cfg s.csr) (hl : Lawful s i r)
    (hc : counts r = false) (hw : s.new i r = s.old i r) (js : List SysIn) (hjs : ∀ j ∈ js, Between j) :
    ((s.next cfg i).after cfg js).csr.fcsr = ((s.next cfg i.reading).after cfg js).csr.fcsr ∧
      (isFp r = false →
        Patched .none ((s.next cfg i).after cfg js) ((s.next cfg i.reading).after cfg js)) := by
  rw [h.new_eq] at hw
  have hk := h.kept js hjs
  have hnone (hf : isFp r = false) :
      Patched .none ((s.next cfg i).after cfg js) ((s.next cfg i.reading).after cfg js) := by
    have hp := @Patched.after cfg s _ _ _ (kept_reading h) h.booted
      (fun hd => by cases hd) (writePatch_old h hwf hl hc hf hw) js hjs
    rwa [Patch.after_of_fixed fun _ _ _ => rfl] at hp
  refine ⟨?_, hnone⟩
  cases hf : isFp r with
  | false =>
    obtain ⟨⟨w', e, hcsr⟩, -⟩ := hnone hf
    rw [hcsr]
    rfl
  | true =>
    obtain ⟨m, hm⟩ := writePatch_old_fcsr h hf hw
    obtain ⟨⟨w', e, hcsr⟩, -⟩ := h.patched_after js hjs
    rw [hm, Patch.after_fcsr] at hcsr
    rw [hcsr, hk.fcsr]
    rfl

/-! ### The law -/

/-- No event of a counter. -/
def PerfIn.idle : PerfIn := ⟨false, false, false, false, false, false, false, false⟩

/-- A cycle that reads `r`. -/
def SysIn.read (r : CsrReg) : SysIn := ⟨In.read r, PerfIn.idle⟩

/-- A read in the cycle after the write has the register's next value in it. -/
theorem WriteLaw.next_eq (hlaw : WriteLaw cfg s i r) (h : Access cfg s i r) (hf : flushes r = false)
    (hmip : r.addr ≠ CsrReg.mip.addr) (hsip : r.addr ≠ CsrReg.sip.addr) :
    (csrReadReg (s.next cfg i).csr ((s.next cfg i).pins (.read r)) r).getD 0 =
      expected cfg (s.next cfg i.reading) (s.next cfg i.reading) (s.new i r) r := by
  have hjs : ∀ j ∈ ([] : List SysIn), Between j := fun _ hj => by cases hj
  have hback := hlaw.readBack [] hjs (fun hfl => by rw [h.flush, hf] at hfl; cases hfl) (.read r) rfl rfl
  have hv := h.privilegeViolation_after [] hjs (j := .read r) rfl
  rw [rdata_eq rfl rfl hv] at hback
  have ha : (SysIn.read r).csr.csrAddr = r.addr := rfl
  simp only [shown, ha, hmip, hsip, if_false] at hback
  exact hback

theorem lawful_of_law (h : Access cfg s i r) (hlaw : WriteLaw cfg s i r) : Lawful s i r := by
  have hfirst : (s.next cfg i.reading).csr = calmNext s.csr i.reading.csr (updDefaults s.csr i.csr) :=
    csr_next_reading h.calm s
  obtain ⟨⟨w', e, hcsr⟩, -⟩ := h.patched
  constructor
  · rintro rfl
    have hnext := hlaw.next_eq h rfl (by decide) (by decide)
    have hread : (s.next cfg i).csr.instret = (s.next cfg i.reading).csr.instret := by rw [hcsr]; rfl
    change (s.next cfg i).csr.instret = s.new i .minstret +
      ((s.next cfg i.reading).csr.instret - (s.next cfg i.reading).csr.instret) at hnext
    rw [sub_self, add_zero, hread, hfirst] at hnext
    exact hnext.symm
  · rintro rfl
    have hd := debugMode_of_writes h.writes (by decide)
    have hnext := hlaw.next_eq h rfl (by decide) (by decide)
    have hread : (s.next cfg i).csr.dcsr = dcsrOfWrite s.csr (s.wdata i) := by rw [hcsr]; rfl
    have hkeep : (s.next cfg i.reading).csr.dcsr = s.csr.dcsr := ((kept_reading h).debug hd).2.1
    change (s.next cfg i).csr.dcsr.toBits.setWidth 64 =
      (legalDcsr (s.next cfg i.reading).csr.dcsr (s.new i .dcsr)).toBits.setWidth 64 at hnext
    have hbits := congrArg (fun x => Dcsr.ofBits (x.setWidth 32)) hnext
    simp only [BitVec.setWidth_setWidth_of_le _ (by decide : 32 ≤ 64), BitVec.setWidth_eq,
      Dcsr.ofBits_toBits, hread, hkeep] at hbits
    exact ⟨(congrArg Dcsr.xdebugver hbits).symm, (congrArg Dcsr.prv hbits).symm⟩

/-- In every state a run from reset reaches, a write that the file takes keeps the law
exactly if it is neither a write of `minstret` with a value that the counter would not have
anyway, nor a write of `dcsr` while its version or its level is not what the write sets. -/
theorem write_law_iff (cfg : Cfg) (is : List SysIn) (hw : ∀ k ∈ is, Wired k.csr) (i : SysIn) (r : CsrReg)
    (hres : reserved r = false) (h : Access cfg ((sysMachine cfg).run ⟨reset, fun _ => 0⟩ is) i r) :
    WriteLaw cfg ((sysMachine cfg).run ⟨reset, fun _ => 0⟩ is) i r ↔
      Lawful ((sysMachine cfg).run ⟨reset, fun _ => 0⟩ is) i r := by
  have hwf := wellFormed_run cfg is hw
  refine ⟨lawful_of_law h, fun hl => ⟨fun js hjs hne j hop ha => ?_, fun js hjs => ?_, fun hold hc js hjs => ?_⟩⟩
  · rw [rdata_eq hop ha (h.privilegeViolation_after js hjs ha),
      h.readReg js hjs hwf hres hl (fun hf => hne (h.flush.trans hf)) ha]
  · exact ⟨_, h.within js hjs hres, h.patched_after js hjs⟩
  · exact h.rewrite hwf hl hc hold js hjs

/-- A cycle with one operation on `r`. -/
def SysIn.op (o : FuOp) (r : CsrReg) (w : BitVec 64) : SysIn :=
  ⟨{ In.write r w with csrOp := o }, PerfIn.idle⟩

/-- The system a cycle after reset. -/
def Sys.booted : Sys := (sysMachine socCfg).run ⟨reset, fun _ => 0⟩ [⟨In.idle, PerfIn.idle⟩]

theorem write_law_mie : WriteLaw socCfg Sys.booted (.op .csrSet .mie 0xfff) .mie :=
  (write_law_iff socCfg [⟨In.idle, PerfIn.idle⟩]
    (fun k hk => by rw [List.mem_singleton.1 hk]; exact ⟨by decide, by decide⟩)
    (.op .csrSet .mie 0xfff) .mie rfl
    ⟨by decide +kernel, by decide +kernel, ⟨rfl, rfl, rfl, rfl⟩, rfl⟩).2
    ⟨nofun, nofun⟩

/-- A write of `minstret` is lost: the next read returns the count of before. -/
theorem minstret_write_lost :
    Access socCfg Sys.booted (.op .csrWrite .minstret 7) .minstret ∧
      (Sys.booted.next socCfg (.op .csrWrite .minstret 7)).rdata (.read .minstret) = 0 ∧
      ¬WriteLaw socCfg Sys.booted (.op .csrWrite .minstret 7) .minstret := by
  have hacc : Access socCfg Sys.booted (.op .csrWrite .minstret 7) .minstret :=
    ⟨by decide +kernel, by decide +kernel, ⟨rfl, rfl, rfl, rfl⟩, rfl⟩
  refine ⟨hacc, by decide +kernel, fun hlaw => ?_⟩
  have h7 := (lawful_of_law hacc hlaw).1 rfl
  revert h7
  decide +kernel

end Csr
end Ariane

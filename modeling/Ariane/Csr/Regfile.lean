/-
# The CSR register file

`src/csr_regfile.sv`. The registers are `Regs` (`x` is the source's `x_q`),
the inputs `In`. Each combinational process is a definition under its name;
`csr_update`, one block of assignments in which a later one overrides an
earlier one, is the composition of its parts in the source's order
(`csrUpdate`), each a function on the values assigned so far (`Upd`).

`machine cfg` is the register file as a clocked machine; its inputs are free,
so its reachable states include those any surrounding pipeline can drive it
to.
-/
import Ariane.Pkg
import Ariane.Lib.Machine
import Ariane.Lib.Bits

namespace Ariane
namespace Csr

open Riscv Lib

/-! ### Registers and inputs -/

structure Regs where
  privLvl : PrivLvl
  fcsr : Fcsr
  debugMode : Bool
  dcsr : Dcsr
  dpc : BitVec 64
  dscratch0 : BitVec 64
  dscratch1 : BitVec 64
  mstatus : Status
  mtvecRstLoad : Bool
  mtvec : BitVec 64
  medeleg : BitVec 64
  mideleg : BitVec 64
  mip : BitVec 64
  mie : BitVec 64
  mepc : BitVec 64
  mcause : BitVec 64
  mscratch : BitVec 64
  mtval : BitVec 64
  dcache : BitVec 64
  icache : BitVec 64
  sepc : BitVec 64
  scause : BitVec 64
  stvec : BitVec 64
  sscratch : BitVec 64
  stval : BitVec 64
  satp : Satp
  cycle : BitVec 64
  instret : BitVec 64
  enLdStTranslation : Bool
  wfi : Bool

/-- The registers while `rst_ni` is low. -/
def reset : Regs where
  privLvl := privLvlM
  fcsr := ⟨0, 0, 0⟩
  debugMode := false
  dcsr := { Dcsr.ofBits 0 with prv := privLvlM }
  dpc := 0
  dscratch0 := 0
  dscratch1 := 0
  mstatus := Status.ofBits 0
  mtvecRstLoad := true
  mtvec := 0
  medeleg := 0
  mideleg := 0
  mip := 0
  mie := 0
  mepc := 0
  mcause := 0
  mscratch := 0
  mtval := 0
  dcache := 1
  icache := 1
  sepc := 0
  scause := 0
  stvec := 0
  sscratch := 0
  stval := 0
  satp := ⟨0, 0, 0⟩
  cycle := 0
  instret := 0
  enLdStTranslation := false
  wfi := false

/-- The inputs of one cycle (`x` is the source's `x_i`). -/
structure In where
  timeIrq : Bool
  commitInstr : Fin 2 → ScoreboardEntry
  commitAck : Fin 2 → Bool
  bootAddr : BitVec 64
  hartId : BitVec 64
  ex : Exn
  csrOp : FuOp
  csrAddr : BitVec 12
  csrWdata : BitVec 64
  dirtyFpState : Bool
  csrWriteFflags : Bool
  pc : BitVec 64
  irq : BitVec 2
  ipi : Bool
  debugReq : Bool
  perfData : BitVec 64

/-- A cycle in which nothing happens. -/
def In.idle : In where
  timeIrq := false
  commitInstr _ := ScoreboardEntry.empty
  commitAck _ := false
  bootAddr := 0
  hartId := 0
  ex := Exn.none
  csrOp := .add
  csrAddr := 0
  csrWdata := 0
  dirtyFpState := false
  csrWriteFflags := false
  pc := 0
  irq := 0
  ipi := false
  debugReq := false
  perfData := 0

/-- A cycle with one operation and nothing else. -/
def In.op (o : FuOp) : In := { In.idle with csrOp := o }

/-- A cycle that reads `r`. -/
def In.read (r : CsrReg) : In := { In.op .csrRead with csrAddr := r.addr }

/-- A cycle that writes `w` to `r`. -/
def In.write (r : CsrReg) (w : BitVec 64) : In :=
  { In.op .csrWrite with csrAddr := r.addr, csrWdata := w }

/-- In debug mode the core executes with privilege level M. -/
def privLvlO (s : Regs) : PrivLvl := if s.debugMode then privLvlM else s.privLvl

/-! ### Privilege check and operation select -/

/-- `privilege_check`. -/
def privilegeViolation (s : Regs) (i : In) : Bool :=
  i.csrOp.isCsrAccess &&
    ((privLvlO s &&& csrPrivLvl i.csrAddr != csrPrivLvl i.csrAddr &&
        !(i.csrAddr == CsrReg.mcause.addr)) ||
      (i.csrAddr.extractLsb' 4 8 == 0x7b#8 && !s.debugMode))

/-- `csr_op_logic`: whether the operation reads. -/
def csrRead (s : Regs) (i : In) : Bool := i.csrOp.isCsrAccess && !privilegeViolation s i

/-- `csr_op_logic`: whether the operation writes. -/
def csrWe (s : Regs) (i : In) : Bool :=
  i.csrOp.isCsrAccess && i.csrOp != .csrRead && !privilegeViolation s i

/-! ### Reads -/

/-- A floating-point register, which an access finds only while `fs` is on. -/
def fpRead (s : Regs) (w : BitVec 64) : Option (BitVec 64) :=
  if s.mstatus.fs = Xs.off then none else some w

/-- The value `csr_read_process` puts on the read port for a register, or
`none` where it raises `read_access_exception`. -/
def csrReadReg (s : Regs) (i : In) : CsrReg → Option (BitVec 64)
  | .fflags => fpRead s (s.fcsr.fflags.setWidth 64)
  | .frm => fpRead s (s.fcsr.frm.setWidth 64)
  | .fcsr => fpRead s ((s.fcsr.frm ++ s.fcsr.fflags).setWidth 64)
  | .ftran => fpRead s (s.fcsr.fprec.setWidth 64)
  | .dcsr => some (s.dcsr.toBits.setWidth 64)
  | .dpc => some s.dpc
  | .dscratch0 => some s.dscratch0
  | .dscratch1 => some s.dscratch1
  | .tselect | .tdata1 | .tdata2 | .tdata3 => some 0
  | .sstatus => some (s.mstatus.toBits &&& smodeStatusReadMask)
  | .sie => some (s.mie &&& s.mideleg)
  | .sip => some (s.mip &&& s.mideleg)
  | .stvec => some s.stvec
  | .scounteren => some 0
  | .sscratch => some s.sscratch
  | .sepc => some s.sepc
  | .scause => some s.scause
  | .stval => some s.stval
  -- reads of `satp` are intercepted in S mode while TVM is set
  | .satp => if privLvlO s = privLvlS ∧ s.mstatus.tvm = true then none else some s.satp.toBits
  | .mstatus => some s.mstatus.toBits
  | .misa => some isaCode
  | .medeleg => some s.medeleg
  | .mideleg => some s.mideleg
  | .mie => some s.mie
  | .mtvec => some s.mtvec
  | .mcounteren => some 0
  | .mscratch => some s.mscratch
  | .mepc => some s.mepc
  | .mcause => some s.mcause
  | .mtval => some s.mtval
  | .mip => some s.mip
  | .mvendorid => some 0
  | .marchid => some arianeMarchid
  | .mimpid => some 0
  | .mhartid => some i.hartId
  | .mcycle => some s.cycle
  | .minstret => some s.instret
  | .mhpmcounter _ => some i.perfData
  | .dcache => some s.dcache
  | .icache => some s.icache

/-- What an address reads, `none` for an address no register has. -/
def csrReadAddr (s : Regs) (i : In) : Option (BitVec 64) :=
  (CsrReg.ofAddr i.csrAddr).bind (csrReadReg s i)

/-- `read_access_exception`. -/
def readAccessException (s : Regs) (i : In) : Bool := csrRead s i && (csrReadAddr s i).isNone

/-- `csr_rdata`. -/
def csrRdata (s : Regs) (i : In) : BitVec 64 :=
  if csrRead s i then (csrReadAddr s i).getD 0 else 0

/-- `csr_wdata`. -/
def csrWdata (s : Regs) (i : In) : BitVec 64 :=
  match i.csrOp with
  | .csrSet => i.csrWdata ||| csrRdata s i
  | .csrClear => ~~~i.csrWdata &&& csrRdata s i
  | _ => i.csrWdata

/-- `perf_addr_o`. -/
def perfAddrO (i : In) : BitVec 5 := i.csrAddr.extractLsb' 0 5

/-! ### Traps -/

/-- The exception is taken: not in debug mode, and not a debug request. -/
def trapTaken (s : Regs) (i : In) : Bool :=
  !s.debugMode && i.ex.cause != debugRequest && i.ex.valid

/-- The cause is delegated: `mideleg` for interrupts, `medeleg` for exceptions,
at the six bits a cause has. -/
def delegated (s : Regs) (cause : BitVec 64) : Bool :=
  (cause.getLsbD 63 && s.mideleg.getLsbD (cause.extractLsb' 0 6).toNat) ||
    (!cause.getLsbD 63 && s.medeleg.getLsbD (cause.extractLsb' 0 6).toNat)

/-- `trap_to_priv_lvl`. -/
def trapToPrivLvl (s : Regs) (i : In) : PrivLvl :=
  if trapTaken s i && delegated s i.ex.cause then
    if privLvlO s = privLvlM then privLvlM else privLvlS
  else privLvlM

/-- The trap value stored with a cause. -/
def trapTval (ex : Exn) : BitVec 64 :=
  if zeroTval && (ex.cause == illegalInstr || ex.cause == breakpoint || ex.cause == envCallUmode ||
      ex.cause == envCallSmode || ex.cause == envCallMmode || ex.cause.getLsbD 63) then 0
  else ex.tval

/-- `priv_output`: `trap_vector_base_o`. -/
def trapVectorBaseO (cfg : Cfg) (s : Regs) (i : In) : BitVec 64 :=
  let base :=
    if s.debugMode then cfg.dmBaseAddress + 0x808
    else if trapToPrivLvl s i = privLvlS then s.stvec.extractLsb' 2 62 ++ 0#2
    else s.mtvec.extractLsb' 2 62 ++ 0#2
  -- vectored mode: `BASE + 4 * cause`
  if (s.mtvec.getLsbD 0 || s.stvec.getLsbD 0) && i.ex.cause.getLsbD 63 then
    base.extractLsb' 8 56 ++ i.ex.cause.extractLsb' 0 6 ++ base.extractLsb' 0 2
  else base

/-- `priv_output`: `epc_o`. -/
def epcO (s : Regs) (i : In) : BitVec 64 :=
  if i.csrOp = .dret then s.dpc else if i.csrOp = .sret then s.sepc else s.mepc

/-! ### Updates -/

/-- What `csr_update` has assigned so far: the next values of the registers,
and its outputs. -/
structure Upd where
  d : Regs
  eret : Bool
  flush : Bool
  updateAccessException : Bool
  setDebugPc : Bool
  perfWe : Bool
  perfData : BitVec 64
  dirtyFpStateCsr : Bool

/-- `instret` after the instructions this cycle retires. -/
def instretNext (s : Regs) (i : In) : BitVec 64 :=
  s.instret + (if i.commitAck 0 && !i.ex.valid then 1 else 0) +
    (if i.commitAck 1 && !i.ex.valid then 1 else 0)

/-- The default assignments and the counters. -/
def updDefaults (s : Regs) (i : In) : Upd where
  d := { s with
    instret := if s.debugMode then s.instret else instretNext s i
    cycle := if s.debugMode then s.cycle else
      if enableCycleCount then s.cycle + 1 else instretNext s i
    mtvec := if s.mtvecRstLoad then i.bootAddr + 0x40 else s.mtvec }
  eret := false
  flush := false
  updateAccessException := false
  setDebugPc := false
  perfWe := false
  perfData := 0
  dirtyFpStateCsr := false

/-- A write to a floating-point register: refused while `fs` is off. -/
def fpWrite (s : Regs) (u : Upd) (f : Fcsr) : Upd :=
  if s.mstatus.fs = Xs.off then { u with updateAccessException := true }
  else { u with dirtyFpStateCsr := true, flush := true, d.fcsr := f }

/-- The causes `medeleg` can delegate. -/
def medelegMask : BitVec 64 :=
  (1#64 <<< instrAddrMisaligned.toNat) ||| (1#64 <<< breakpoint.toNat) |||
    (1#64 <<< envCallUmode.toNat) ||| (1#64 <<< instrPageFault.toNat) |||
    (1#64 <<< loadPageFault.toNat) ||| (1#64 <<< storePageFault.toNat)

/-- The interrupts of supervisor mode, which `mideleg` and `mip` let software set. -/
def sipMask : BitVec 64 := mipSsip ||| mipStip ||| mipSeip

/-- The interrupts `mie` can enable. -/
def mieMask : BitVec 64 := mipSsip ||| mipStip ||| mipSeip ||| mipMsip ||| mipMtip ||| mipMeip

/-- `dcsr` of a written word: the privilege level it carries is not taken. -/
def dcsrOfWrite (s : Regs) (w : BitVec 64) : Dcsr :=
  { Dcsr.ofBits (w.extractLsb' 0 32) with
    xdebugver := 4
    prv := s.privLvl
    nmip := false
    stopcount := false
    stoptime := false }

/-- `mtvec` of a written word: a vectored base is aligned to 64 vectors. -/
def mtvecOfWrite (w : BitVec 64) : BitVec 64 :=
  if w.getLsbD 0 then w.extractLsb' 8 56 ++ 0#7 ++ w.extractLsb' 0 1
  else w.extractLsb' 2 62 ++ 0#1 ++ w.extractLsb' 0 1

/-- `satp` of a written word: only `AsidWidth` bits of the ASID stick. -/
def satpOfWrite (cfg : Cfg) (w : BitVec 64) : Satp :=
  { Satp.ofBits w with asid := (Satp.ofBits w).asid &&& BitVec.ofNat 16 (2 ^ cfg.asidWidth - 1) }

/-- `mstatus` of a written word. -/
def mstatusOfWrite (w : BitVec 64) : Status :=
  { Status.ofBits w with
    xs := Xs.off
    fs := if fpPresent then (Status.ofBits w).fs else Xs.off
    upie := false
    uie := false }

/-- `mstatus` after a write of `w` through `sstatus`. -/
def sstatusOfWrite (s : Regs) (w : BitVec 64) : Status :=
  let m := Status.ofBits (maskWrite smodeStatusWriteMask s.mstatus.toBits w)
  { m with fs := if fpPresent then m.fs else Xs.off }

/-- `csr_update`, the case of a write of `w`. -/
def csrWriteReg (cfg : Cfg) (s : Regs) (w : BitVec 64) (u : Upd) : CsrReg → Upd
  | .fflags => fpWrite s u { u.d.fcsr with fflags := w.extractLsb' 0 5 }
  | .frm => fpWrite s u { u.d.fcsr with frm := w.extractLsb' 0 3 }
  | .fcsr => fpWrite s u
      { u.d.fcsr with frm := w.extractLsb' 5 3, fflags := w.extractLsb' 0 5 }
  | .ftran => fpWrite s u { u.d.fcsr with fprec := w.extractLsb' 0 7 }
  | .dcsr => { u with d.dcsr := dcsrOfWrite s w }
  | .dpc => { u with d.dpc := w }
  | .dscratch0 => { u with d.dscratch0 := w }
  | .dscratch1 => { u with d.dscratch1 := w }
  | .tselect | .tdata1 | .tdata2 | .tdata3 => u
  | .sstatus => { u with d.mstatus := sstatusOfWrite s w, flush := true }
  | .sie => { u with d.mie := maskWrite s.mideleg s.mie w }
  | .sip => { u with d.mip := maskWrite (mipSsip &&& s.mideleg) s.mip w }
  | .scounteren => u
  | .stvec => { u with d.stvec := w.extractLsb' 2 62 ++ 0#1 ++ w.extractLsb' 0 1 }
  | .sscratch => { u with d.sscratch := w }
  | .sepc => { u with d.sepc := w.extractLsb' 1 63 ++ 0#1 }
  | .scause => { u with d.scause := w }
  | .stval => { u with d.stval := w }
  | .satp =>
    if privLvlO s = privLvlS ∧ s.mstatus.tvm = true then
      { u with updateAccessException := true, flush := true }
    -- a mode that is not supported leaves the register as it is
    else if (satpOfWrite cfg w).mode = modeOff ∨ (satpOfWrite cfg w).mode = modeSv39 then
      { u with d.satp := satpOfWrite cfg w, flush := true }
    else { u with flush := true }
  | .mstatus => { u with d.mstatus := mstatusOfWrite w, flush := true }
  | .misa => u
  | .medeleg => { u with d.medeleg := maskWrite medelegMask s.medeleg w }
  | .mideleg => { u with d.mideleg := maskWrite sipMask s.mideleg w }
  | .mie => { u with d.mie := maskWrite mieMask s.mie w }
  | .mtvec => { u with d.mtvec := mtvecOfWrite w }
  | .mcounteren => u
  | .mscratch => { u with d.mscratch := w }
  | .mepc => { u with d.mepc := w.extractLsb' 1 63 ++ 0#1 }
  | .mcause => { u with d.mcause := w }
  | .mtval => { u with d.mtval := w }
  | .mip => { u with d.mip := maskWrite sipMask s.mip w }
  | .mcycle => { u with d.cycle := w }
  -- the source assigns the variable `instret` after `instret_d` was taken from it
  | .minstret => u
  | .mhpmcounter _ => { u with perfData := w, perfWe := true }
  | .dcache => { u with d.dcache := (w.extractLsb' 0 1).setWidth 64 }
  | .icache => { u with d.icache := (w.extractLsb' 0 1).setWidth 64 }
  | .mvendorid | .marchid | .mimpid | .mhartid => { u with updateAccessException := true }

/-- `csr_update`, the write. -/
def updWrite (cfg : Cfg) (s : Regs) (i : In) (u : Upd) : Upd :=
  if csrWe s i then
    match CsrReg.ofAddr i.csrAddr with
    | some r => csrWriteReg cfg s (csrWdata s i) u r
    | none => { u with updateAccessException := true }
  else u

/-- The hardwired fields of `mstatus`, the dirty mark and the summary bit. -/
def updStatus (s : Regs) (i : In) (u : Upd) : Upd :=
  { u with d.mstatus :=
    { u.d.mstatus with
      sxl := xlen64
      uxl := xlen64
      fs := if fpPresent && (u.dirtyFpStateCsr || i.dirtyFpState) then Xs.dirty else u.d.mstatus.fs
      sd := s.mstatus.xs == Xs.dirty || s.mstatus.fs == Xs.dirty } }

/-- Flags of retiring floating-point instructions accumulate. -/
def updFflags (s : Regs) (i : In) (u : Upd) : Upd :=
  if i.csrWriteFflags then
    { u with d.fcsr := { u.d.fcsr with fflags := i.csrWdata.extractLsb' 0 5 ||| s.fcsr.fflags } }
  else u

/-- `w` with bit `n` set to `b`. -/
def setBit (w : BitVec 64) (n : ℕ) (b : Bool) : BitVec 64 :=
  (w &&& ~~~(1#64 <<< n)) ||| ((BitVec.ofBool b).setWidth 64 <<< n)

/-- The pending bits the platform drives. -/
def updIrq (i : In) (u : Upd) : Upd :=
  { u with d.mip :=
      setBit (setBit (setBit u.d.mip irqMExt (i.irq.getLsbD 0)) irqMSoft i.ipi) irqMTimer i.timeIrq }

/-- Trap entry. -/
def updTrap (s : Regs) (i : In) (u : Upd) : Upd :=
  if trapTaken s i then
    if trapToPrivLvl s i = privLvlS then
      { u with
        flush := false
        d.mstatus := { u.d.mstatus with sie := false, spie := s.mstatus.sie, spp := s.privLvl.getLsbD 0 }
        d.scause := i.ex.cause
        d.sepc := i.pc
        d.stval := trapTval i.ex
        d.privLvl := privLvlS }
    else
      { u with
        flush := false
        d.mstatus := { u.d.mstatus with mie := false, mpie := s.mstatus.mie, mpp := s.privLvl }
        d.mcause := i.ex.cause
        d.mepc := i.pc
        d.mtval := trapTval i.ex
        d.privLvl := trapToPrivLvl s i }
  else u

/-- The `ebreak*` bit of `dcsr` for a privilege level; a level without a name
has none. -/
def ebreakBit (c : Dcsr) (p : PrivLvl) : Option Bool :=
  if p = privLvlM then some c.ebreakm
  else if p = privLvlS then some c.ebreaks
  else if p = privLvlU then some c.ebreaku
  else none

/-- Debug entry by a breakpoint. -/
def updEbreak (s : Regs) (i : In) (u : Upd) : Upd :=
  if i.ex.valid && i.ex.cause == breakpoint then
    { u with
      d.debugMode := (ebreakBit s.dcsr (privLvlO s)).getD u.d.debugMode
      setDebugPc := (ebreakBit s.dcsr (privLvlO s)).getD u.setDebugPc
      d.dpc := i.pc
      d.dcsr := { u.d.dcsr with cause := 1 } }
  else u

/-- Debug entry by a debug request. -/
def updDebugReq (i : In) (u : Upd) : Upd :=
  if i.ex.valid && i.ex.cause == debugRequest then
    { u with
      d.dpc := i.pc
      d.debugMode := true
      setDebugPc := true
      d.dcsr := { u.d.dcsr with cause := 3 } }
  else u

/-- Debug entry after a single step. `eret` is read here before the returns
below assign it. -/
def updSingleStep (cfg : Cfg) (s : Regs) (i : In) (u : Upd) : Upd :=
  if s.dcsr.step && i.commitAck 0 then
    { u with
      d.dpc :=
        if (i.commitInstr 0).fu = .ctrlFlow then (i.commitInstr 0).bp.predictAddress
        else if i.ex.valid then trapVectorBaseO cfg s i
        else if u.eret then epcO s i
        else (i.commitInstr 0).nextPc
      d.debugMode := true
      setDebugPc := true
      d.dcsr := { u.d.dcsr with cause := 4 } }
  else u

/-- Debug entry, and the halt loop a breakpoint in debug mode goes back to. -/
def updDebug (cfg : Cfg) (s : Regs) (i : In) (u : Upd) : Upd :=
  if s.debugMode then
    { u with setDebugPc := u.setDebugPc || (i.ex.valid && i.ex.cause == breakpoint) }
  else
    updSingleStep cfg s i (updDebugReq i (updEbreak s i
      { u with d.dcsr := { u.d.dcsr with prv := privLvlO s } }))

/-- `mprv`. -/
def mprv (s : Regs) : Bool := if s.debugMode && !s.dcsr.mprven then false else s.mstatus.mprv

/-- `en_translation_o`. -/
def enTranslationO (s : Regs) : Bool := s.satp.mode == 0x8#4 && privLvlO s != privLvlM

/-- `ld_st_priv_lvl_o`. -/
def ldStPrivLvlO (s : Regs) : PrivLvl := if mprv s then s.mstatus.mpp else privLvlO s

/-- The level at which loads and stores translate. -/
def updMprv (s : Regs) (u : Upd) : Upd :=
  { u with d.enLdStTranslation :=
      if mprv s && s.satp.mode == modeSv39 && s.mstatus.mpp != privLvlM then true
      else enTranslationO s }

/-- The returns. -/
def updReturn (s : Regs) (i : In) (u : Upd) : Upd :=
  match i.csrOp with
  | .mret => { u with
      eret := true
      d.mstatus := { u.d.mstatus with mie := s.mstatus.mpie, mpp := privLvlU, mpie := true }
      d.privLvl := s.mstatus.mpp }
  | .sret => { u with
      eret := true
      d.mstatus := { u.d.mstatus with sie := s.mstatus.spie, spp := false, spie := true }
      d.privLvl := 0#1 ++ BitVec.ofBool s.mstatus.spp }
  | .dret => { u with
      eret := true
      d.privLvl := s.dcsr.prv
      d.debugMode := false }
  | _ => u

/-- `csr_update`. -/
def csrUpdate (cfg : Cfg) (s : Regs) (i : In) : Upd :=
  updReturn s i <| updMprv s <| updDebug cfg s i <| updTrap s i <| updIrq i <| updFflags s i <|
    updStatus s i <| updWrite cfg s i <| updDefaults s i

/-- `wfi_ctrl`. -/
def wfiNext (s : Regs) (i : In) : Bool :=
  if s.mip != 0 || i.debugReq || i.irq.getLsbD 1 then false
  else if !s.debugMode && i.csrOp == .wfi && !i.ex.valid then true
  else s.wfi

/-- The registers after the clock edge. -/
def next (cfg : Cfg) (s : Regs) (i : In) : Regs :=
  { (csrUpdate cfg s i).d with mtvecRstLoad := false, wfi := wfiNext s i }

/-! ### Outputs -/

/-- `exception_ctrl`. -/
def csrExceptionO (cfg : Cfg) (s : Regs) (i : In) : Exn :=
  if (csrUpdate cfg s i).updateAccessException || readAccessException s i ||
      privilegeViolation s i then
    { cause := illegalInstr, tval := 0, valid := true }
  else Exn.none

/-- `csr_rdata_o`: a read of `mip` or `sip` also shows the external line. -/
def csrRdataO (s : Regs) (i : In) : BitVec 64 :=
  if i.csrAddr = CsrReg.mip.addr then
    csrRdata s i ||| ((BitVec.ofBool (i.irq.getLsbD 1)).setWidth 64 <<< irqSExt)
  else if i.csrAddr = CsrReg.sip.addr then
    csrRdata s i |||
      ((BitVec.ofBool (i.irq.getLsbD 1 && s.mideleg.getLsbD irqSExt)).setWidth 64 <<< irqSExt)
  else csrRdata s i

def eretO (cfg : Cfg) (s : Regs) (i : In) : Bool := (csrUpdate cfg s i).eret
def flushO (cfg : Cfg) (s : Regs) (i : In) : Bool := (csrUpdate cfg s i).flush
def setDebugPcO (cfg : Cfg) (s : Regs) (i : In) : Bool := (csrUpdate cfg s i).setDebugPc
def perfWeO (cfg : Cfg) (s : Regs) (i : In) : Bool := (csrUpdate cfg s i).perfWe

/-- The register file as a clocked machine. -/
def machine (cfg : Cfg) : Lib.Machine Regs In := ⟨(· = reset), next cfg⟩

end Csr
end Ariane

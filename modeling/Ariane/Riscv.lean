/-
# RISC-V types and constants

The types of `include/riscv_pkg.sv`: privilege levels, the packed registers
`mstatus`, `dcsr`, `fcsr` and `satp`, the exception causes and the CSR
addresses. A packed register is a structure with the fields of its `typedef`,
most significant first, with `toBits` and `ofBits` for the casts the source
writes without saying so.

An enumeration over two wires stays a bit vector: a register of that type can
hold an encoding that has no name, and whether one does is one of the
questions this development asks.
-/
import Mathlib.Data.BitVec
import Ariane.Lib.Sizes

namespace Ariane
namespace Riscv

/-! ### Privilege levels -/

/-- `priv_lvl_t`. -/
abbrev PrivLvl := BitVec 2

def privLvlM : PrivLvl := 0b11#2
def privLvlS : PrivLvl := 0b01#2
def privLvlU : PrivLvl := 0b00#2

/-- One of the three encodings `priv_lvl_t` names. -/
def Implemented (p : PrivLvl) : Prop := p = privLvlU ∨ p = privLvlS ∨ p = privLvlM

instance : DecidablePred Implemented := fun p => by unfold Implemented; infer_instance

theorem implemented_iff (p : PrivLvl) : Implemented p ↔ p ≠ 0b10#2 := by
  revert p; decide

/-- `XLEN_64` of `xlen_t`. -/
def xlen64 : BitVec 2 := 0b10#2

/-- `xs_t`. -/
abbrev Xs := BitVec 2

def Xs.off : Xs := 0b00#2
def Xs.initial : Xs := 0b01#2
def Xs.clean : Xs := 0b10#2
def Xs.dirty : Xs := 0b11#2

/-! ### Packed registers -/

/-- `status_rv64_t`. -/
@[ext] structure Status where
  sd : Bool
  wpri4 : BitVec 27
  sxl : BitVec 2
  uxl : BitVec 2
  wpri3 : BitVec 9
  tsr : Bool
  tw : Bool
  tvm : Bool
  mxr : Bool
  sum : Bool
  mprv : Bool
  xs : Xs
  fs : Xs
  mpp : PrivLvl
  wpri2 : BitVec 2
  spp : Bool
  mpie : Bool
  wpri1 : Bool
  spie : Bool
  upie : Bool
  mie : Bool
  wpri0 : Bool
  sie : Bool
  uie : Bool
deriving DecidableEq, Repr

def Status.toBits (m : Status) : BitVec 64 :=
  BitVec.ofBool m.sd ++ m.wpri4 ++ m.sxl ++ m.uxl ++ m.wpri3 ++ BitVec.ofBool m.tsr ++
    BitVec.ofBool m.tw ++ BitVec.ofBool m.tvm ++ BitVec.ofBool m.mxr ++ BitVec.ofBool m.sum ++
    BitVec.ofBool m.mprv ++ m.xs ++ m.fs ++ m.mpp ++ m.wpri2 ++ BitVec.ofBool m.spp ++
    BitVec.ofBool m.mpie ++ BitVec.ofBool m.wpri1 ++ BitVec.ofBool m.spie ++ BitVec.ofBool m.upie ++
    BitVec.ofBool m.mie ++ BitVec.ofBool m.wpri0 ++ BitVec.ofBool m.sie ++ BitVec.ofBool m.uie

def Status.ofBits (w : BitVec 64) : Status where
  sd := w[63]
  wpri4 := w.extractLsb' 36 27
  sxl := w.extractLsb' 34 2
  uxl := w.extractLsb' 32 2
  wpri3 := w.extractLsb' 23 9
  tsr := w[22]
  tw := w[21]
  tvm := w[20]
  mxr := w[19]
  sum := w[18]
  mprv := w[17]
  xs := w.extractLsb' 15 2
  fs := w.extractLsb' 13 2
  mpp := w.extractLsb' 11 2
  wpri2 := w.extractLsb' 9 2
  spp := w[8]
  mpie := w[7]
  wpri1 := w[6]
  spie := w[5]
  upie := w[4]
  mie := w[3]
  wpri0 := w[2]
  sie := w[1]
  uie := w[0]

/-- `dcsr_t`. -/
@[ext] structure Dcsr where
  xdebugver : BitVec 4
  zero2 : BitVec 12
  ebreakm : Bool
  zero1 : Bool
  ebreaks : Bool
  ebreaku : Bool
  stepie : Bool
  stopcount : Bool
  stoptime : Bool
  cause : BitVec 3
  zero0 : Bool
  mprven : Bool
  nmip : Bool
  step : Bool
  prv : PrivLvl
deriving DecidableEq, Repr

def Dcsr.toBits (d : Dcsr) : BitVec 32 :=
  d.xdebugver ++ d.zero2 ++ BitVec.ofBool d.ebreakm ++ BitVec.ofBool d.zero1 ++
    BitVec.ofBool d.ebreaks ++ BitVec.ofBool d.ebreaku ++ BitVec.ofBool d.stepie ++
    BitVec.ofBool d.stopcount ++ BitVec.ofBool d.stoptime ++ d.cause ++ BitVec.ofBool d.zero0 ++
    BitVec.ofBool d.mprven ++ BitVec.ofBool d.nmip ++ BitVec.ofBool d.step ++ d.prv

def Dcsr.ofBits (w : BitVec 32) : Dcsr where
  xdebugver := w.extractLsb' 28 4
  zero2 := w.extractLsb' 16 12
  ebreakm := w[15]
  zero1 := w[14]
  ebreaks := w[13]
  ebreaku := w[12]
  stepie := w[11]
  stopcount := w[10]
  stoptime := w[9]
  cause := w.extractLsb' 6 3
  zero0 := w[5]
  mprven := w[4]
  nmip := w[3]
  step := w[2]
  prv := w.extractLsb' 0 2

/-- `fcsr_t`, without its reserved upper bits, which nothing writes. -/
@[ext] structure Fcsr where
  fprec : BitVec 7
  frm : BitVec 3
  fflags : BitVec 5
deriving DecidableEq, Repr

/-- `satp_t`. -/
@[ext] structure Satp where
  mode : BitVec 4
  asid : BitVec 16
  ppn : BitVec 44
deriving DecidableEq, Repr

def Satp.toBits (p : Satp) : BitVec 64 := p.mode ++ p.asid ++ p.ppn

def Satp.ofBits (w : BitVec 64) : Satp :=
  ⟨w.extractLsb' 60 4, w.extractLsb' 44 16, w.extractLsb' 0 44⟩

/-! Unpacking what was packed. -/

theorem Status.ofBits_toBits (m : Status) : Status.ofBits m.toBits = m := by
  apply Status.ext <;> first
    | change BitVec.getLsbD _ _ = _
      simp only [Status.toBits, BitVec.getLsbD_append, Nat.reduceLT, ↓reduceIte, Nat.reduceSub,
        BitVec.getLsbD_ofBool, decide_true, Bool.true_and, Nat.lt_irrefl]
    | change BitVec.extractLsb' _ _ _ = _
      simp (disch := omega) only [Status.toBits, BitVec.extractLsb'_append_eq_of_le,
        BitVec.extractLsb'_append_eq_of_add_le, BitVec.extractLsb'_eq_self, Nat.reduceSub]

theorem Dcsr.ofBits_toBits (c : Dcsr) : Dcsr.ofBits c.toBits = c := by
  apply Dcsr.ext <;> first
    | change BitVec.getLsbD _ _ = _
      simp only [Dcsr.toBits, BitVec.getLsbD_append, Nat.reduceLT, ↓reduceIte, Nat.reduceSub,
        BitVec.getLsbD_ofBool, decide_true, Bool.true_and, Nat.lt_irrefl]
    | change BitVec.extractLsb' _ _ _ = _
      simp (disch := omega) only [Dcsr.toBits, BitVec.extractLsb'_append_eq_of_le,
        BitVec.extractLsb'_append_eq_of_add_le, BitVec.extractLsb'_eq_self, Nat.reduceSub]

theorem Satp.ofBits_toBits (p : Satp) : Satp.ofBits p.toBits = p := by
  apply Satp.ext <;>
    simp (disch := omega) only [Satp.ofBits, Satp.toBits, BitVec.extractLsb'_append_eq_of_le,
      BitVec.extractLsb'_append_eq_of_add_le, BitVec.extractLsb'_eq_self, Nat.reduceSub]

/-! ### Causes and interrupt lines -/

def instrAddrMisaligned : BitVec 64 := 0
def instrAccessFault : BitVec 64 := 1
def illegalInstr : BitVec 64 := 2
def breakpoint : BitVec 64 := 3
def envCallUmode : BitVec 64 := 8
def envCallSmode : BitVec 64 := 9
def envCallMmode : BitVec 64 := 11
def instrPageFault : BitVec 64 := 12
def loadPageFault : BitVec 64 := 13
def storePageFault : BitVec 64 := 15
def debugRequest : BitVec 64 := 24

def irqSSoft : ℕ := 1
def irqMSoft : ℕ := 3
def irqSTimer : ℕ := 5
def irqMTimer : ℕ := 7
def irqSExt : ℕ := 9
def irqMExt : ℕ := 11

def mipSsip : BitVec 64 := 1 <<< irqSSoft
def mipMsip : BitVec 64 := 1 <<< irqMSoft
def mipStip : BitVec 64 := 1 <<< irqSTimer
def mipMtip : BitVec 64 := 1 <<< irqMTimer
def mipSeip : BitVec 64 := 1 <<< irqSExt
def mipMeip : BitVec 64 := 1 <<< irqMExt

-- the fields of `sstatus`
def sstatusUie : BitVec 64 := 0x00000001
def sstatusSie : BitVec 64 := 0x00000002
def sstatusSpie : BitVec 64 := 0x00000020
def sstatusSpp : BitVec 64 := 0x00000100
def sstatusFs : BitVec 64 := 0x00006000
def sstatusXs : BitVec 64 := 0x00018000
def sstatusSum : BitVec 64 := 0x00040000
def sstatusMxr : BitVec 64 := 0x00080000
def sstatusUpie : BitVec 64 := 0x00000010
def sstatusUxl : BitVec 64 := 0x0000000300000000
def sstatus64Sd : BitVec 64 := 0x8000000000000000

/-! ### CSR addresses -/

/-- `csr_reg_t`, as far as `csr_regfile` decodes it. The performance counters
`CSR_ML1_ICACHE_MISS` (`B03`) to `CSR_MHPM_COUNTER_31` (`B1F`), which it treats
alike, are `mhpmcounter 0` to `mhpmcounter 28`. -/
inductive CsrReg
  | fflags | frm | fcsr | ftran
  | sstatus | sie | stvec | scounteren | sscratch | sepc | scause | stval | sip | satp
  | mstatus | misa | medeleg | mideleg | mie | mtvec | mcounteren
  | mscratch | mepc | mcause | mtval | mip
  | mvendorid | marchid | mimpid | mhartid | mcycle | minstret
  | mhpmcounter (n : Fin 29)
  | dcache | icache
  | tselect | tdata1 | tdata2 | tdata3
  | dcsr | dpc | dscratch0 | dscratch1
deriving DecidableEq, Repr

/-- The encoding of `csr_reg_t`. -/
def CsrReg.addr : CsrReg → BitVec 12
  | fflags => 0x001 | frm => 0x002 | fcsr => 0x003 | ftran => 0x800
  | sstatus => 0x100 | sie => 0x104 | stvec => 0x105 | scounteren => 0x106
  | sscratch => 0x140 | sepc => 0x141 | scause => 0x142 | stval => 0x143 | sip => 0x144
  | satp => 0x180
  | mstatus => 0x300 | misa => 0x301 | medeleg => 0x302 | mideleg => 0x303 | mie => 0x304
  | mtvec => 0x305 | mcounteren => 0x306
  | mscratch => 0x340 | mepc => 0x341 | mcause => 0x342 | mtval => 0x343 | mip => 0x344
  | mvendorid => 0xF11 | marchid => 0xF12 | mimpid => 0xF13 | mhartid => 0xF14
  | mcycle => 0xB00 | minstret => 0xB02
  | mhpmcounter n => 0xB03 + BitVec.ofNat 12 n.val
  | dcache => 0x701 | icache => 0x700
  | tselect => 0x7A0 | tdata1 => 0x7A1 | tdata2 => 0x7A2 | tdata3 => 0x7A3
  | dcsr => 0x7B0 | dpc => 0x7B1 | dscratch0 => 0x7B2 | dscratch1 => 0x7B3

/-- The registers in the order of the enumeration. -/
def CsrReg.all : List CsrReg :=
  [fflags, frm, fcsr, ftran, sstatus, sie, stvec, scounteren, sscratch, sepc, scause, stval, sip,
    satp, mstatus, misa, medeleg, mideleg, mie, mtvec, mcounteren, mscratch, mepc, mcause, mtval,
    mip, mvendorid, marchid, mimpid, mhartid, mcycle, minstret] ++
  (List.finRange 29).map mhpmcounter ++
  [dcache, icache, tselect, tdata1, tdata2, tdata3, dcsr, dpc, dscratch0, dscratch1]

/-- The register an address names, if `csr_regfile` decodes it. -/
def CsrReg.ofAddr (a : BitVec 12) : Option CsrReg := CsrReg.all.find? fun r => r.addr = a

/-- Every register is found at its own address. -/
theorem CsrReg.ofAddr_addr (r : CsrReg) : CsrReg.ofAddr r.addr = some r := by
  cases r with
  | mhpmcounter n => revert n; decide
  | _ => decide

theorem CsrReg.addr_of_ofAddr {a : BitVec 12} {r : CsrReg} (h : CsrReg.ofAddr a = some r) : r.addr = a := by
  simpa using List.find?_some h

/-- `csr_addr_t.priv_lvl`: the level an address asks for. -/
def csrPrivLvl (a : BitVec 12) : PrivLvl := a.extractLsb' 8 2

end Riscv
end Ariane

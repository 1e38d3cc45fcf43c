/-
# The configuration and the shared types of the core

`include/ariane_pkg.sv`: the configuration constants (of the build without
`SPIKE_TANDEM` and `PITON_ARIANE`), the operations and functional units, and
the records that travel through the pipeline, exceptions and scoreboard
entries.
-/
import Ariane.Riscv

namespace Ariane

open Riscv

/-! ### Configuration -/

/-- `RVF | RVD | XF16 | XF16ALT | XF8`. -/
def fpPresent : Bool := true
def rva : Bool := true
def rvd : Bool := true
def rvf : Bool := true
def nsx : Bool := false
def xf16 : Bool := false
def xf16Alt : Bool := false
def xf8 : Bool := false
def enableWfi : Bool := true

def enableCycleCount : Bool := true
def zeroTval : Bool := false

def arianeMarchid : BitVec 64 := 3

/-- `ISA_CODE`, the value of `misa`. -/
def isaCode : BitVec 64 :=
  (BitVec.ofBool rva).setWidth 64 <<< 0 ||| 1#64 <<< 2 |||
    (BitVec.ofBool rvd).setWidth 64 <<< 3 ||| (BitVec.ofBool rvf).setWidth 64 <<< 5 |||
    1#64 <<< 8 ||| 1#64 <<< 12 ||| 1#64 <<< 18 ||| 1#64 <<< 20 |||
    (BitVec.ofBool nsx).setWidth 64 <<< 23 ||| 1#64 <<< 63

def smodeStatusReadMask : BitVec 64 :=
  sstatusUie ||| sstatusSie ||| sstatusSpie ||| sstatusSpp ||| sstatusFs ||| sstatusXs |||
    sstatusSum ||| sstatusMxr ||| sstatusUpie ||| sstatusSpie ||| sstatusUxl ||| sstatus64Sd

def smodeStatusWriteMask : BitVec 64 :=
  sstatusSie ||| sstatusSpie ||| sstatusSpp ||| sstatusFs ||| sstatusSum ||| sstatusMxr

def modeSv39 : BitVec 4 := 0x8
def modeOff : BitVec 4 := 0x0

/-- The parameters the top level sets: `DmBaseAddress`, `AsidWidth`, and the
`WT_DCACHE` build switch. -/
structure Cfg where
  dmBaseAddress : BitVec 64
  asidWidth : ℕ
  wtDcache : Bool

/-- The configuration of `ariane_testharness`. -/
def socCfg : Cfg := ⟨0, 1, true⟩

/-! ### Operations and functional units -/

/-- `fu_t`. -/
inductive Fu
  | none | load | store | alu | ctrlFlow | mult | csr | fpu | fpuVec
deriving DecidableEq, Repr

/-- `fu inside {FPU, FPU_VEC}`. -/
def Fu.isFpu : Fu → Bool
  | fpu | fpuVec => true
  | _ => false

/-- `fu inside {ALU, LOAD, CTRL_FLOW, MULT, FPU, FPU_VEC}`: the units whose
instructions may retire on the second commit port. -/
def Fu.onSecondPort : Fu → Bool
  | alu | load | ctrlFlow | mult | fpu | fpuVec => true
  | _ => false

/-- `fu_op`. -/
inductive FuOp
  | add | sub | addw | subw
  | xorl | orl | andl
  | sra | srl | sll | srlw | sllw | sraw
  | lts | ltu | ges | geu | eq | ne
  | jalr | branch
  | slts | sltu
  | mret | sret | dret | ecall | wfi | fence | fenceI | sfenceVma
  | csrWrite | csrRead | csrSet | csrClear
  | ld | sd | lw | lwu | sw | lh | lhu | sh | lb | sb | lbu
  | amoLrw | amoLrd | amoScw | amoScd
  | amoSwapw | amoAddw | amoAndw | amoOrw | amoXorw | amoMaxw | amoMaxwu | amoMinw | amoMinwu
  | amoSwapd | amoAddd | amoAndd | amoOrd | amoXord | amoMaxd | amoMaxdu | amoMind | amoMindu
  | mul | mulh | mulhu | mulhsu | mulw
  | div | divu | divw | divuw | rem | remu | remw | remuw
  | fld | flw | flh | flb | fsd | fsw | fsh | fsb
  | fadd | fsub | fmul | fdiv | fminMax | fsqrt | fmadd | fmsub | fnmsub | fnmadd
  | fcvtF2i | fcvtI2f | fcvtF2f | fsgnj | fmvF2x | fmvX2f
  | fcmp
  | fclass
  | vfmin | vfmax | vfsgnj | vfsgnjn | vfsgnjx | vfeq | vfne | vflt | vfge | vfle | vfgt
  | vfcpkabS | vfcpkcdS | vfcpkabD | vfcpkcdD
deriving DecidableEq, Repr

namespace FuOp

/-- `csr_op_i inside {CSR_WRITE, CSR_SET, CSR_CLEAR, CSR_READ}`. -/
def isCsrAccess : FuOp → Bool
  | csrWrite | csrSet | csrClear | csrRead => true
  | _ => false

/-- A return: `MRET`, `SRET` or `DRET`. -/
def isReturn : FuOp → Bool
  | mret | sret | dret => true
  | _ => false

/-- `is_rs1_fpr`: the first source is a floating-point register. -/
def isRs1Fpr : FuOp → Bool
  | fmul | fdiv | fminMax | fsqrt | fmadd | fmsub | fnmsub | fnmadd
  | fcvtF2i | fcvtF2f | fsgnj | fmvF2x | fcmp | fclass
  | vfmin | vfmax | vfsgnj | vfsgnjn | vfsgnjx | vfeq | vfne | vflt | vfge | vfle | vfgt
  | vfcpkabS | vfcpkcdS | vfcpkabD | vfcpkcdD => fpPresent
  | _ => false

/-- `is_rs2_fpr`. -/
def isRs2Fpr : FuOp → Bool
  | fsd | fsw | fsh | fsb
  | fadd | fsub | fmul | fdiv | fminMax | fmadd | fmsub | fnmsub | fnmadd
  | fcvtF2f | fsgnj | fmvF2x | fcmp
  | vfmin | vfmax | vfsgnj | vfsgnjn | vfsgnjx | vfeq | vfne | vflt | vfge | vfle | vfgt
  | vfcpkabS | vfcpkcdS | vfcpkabD | vfcpkcdD => fpPresent
  | _ => false

/-- `is_imm_fpr`: the immediate holds the address of a third source. -/
def isImmFpr : FuOp → Bool
  | fadd | fsub | fmadd | fmsub | fnmsub | fnmadd
  | vfcpkabS | vfcpkcdS | vfcpkabD | vfcpkcdD => fpPresent
  | _ => false

/-- `is_rd_fpr`: the destination is a floating-point register. -/
def isRdFpr : FuOp → Bool
  | fld | flw | flh | flb
  | fadd | fsub | fmul | fdiv | fminMax | fsqrt | fmadd | fmsub | fnmsub | fnmadd
  | fcvtI2f | fcvtF2f | fsgnj | fmvX2f
  | vfmin | vfmax | vfsgnj | vfsgnjn | vfsgnjx
  | vfcpkabS | vfcpkcdS | vfcpkabD | vfcpkcdD => fpPresent
  | _ => false

/-- `is_amo`. -/
def isAmo : FuOp → Bool
  | amoLrw | amoLrd | amoScw | amoScd
  | amoSwapw | amoAddw | amoAndw | amoOrw | amoXorw | amoMaxw | amoMaxwu | amoMinw | amoMinwu
  | amoSwapd | amoAddd | amoAndd | amoOrd | amoXord | amoMaxd | amoMaxdu | amoMind
  | amoMindu => true
  | _ => false

/-- CSR accesses and returns are neither fences nor AMOs. -/
theorem not_fence_of_csr {op : FuOp} (h : op.isCsrAccess = true ∨ op.isReturn = true) :
    op ≠ .sfenceVma ∧ op ≠ .fenceI ∧ op ≠ .fence ∧ op.isAmo = false := by
  rcases h with h | h <;> cases op <;> first | (cases h; done) | decide

end FuOp

/-! ### Records of the pipeline -/

/-- `exception_t`. -/
structure Exn where
  cause : BitVec 64
  tval : BitVec 64
  valid : Bool
deriving DecidableEq, Repr

/-- No exception. -/
def Exn.none : Exn := ⟨0, 0, false⟩

/-- `branchpredict_sbe_t`, the kind of prediction left out: only the branch
unit reads it. -/
structure BranchPredict where
  predictAddress : BitVec 64
deriving DecidableEq, Repr

/-- The fields of `scoreboard_entry_t` the commit side reads. -/
structure ScoreboardEntry where
  pc : BitVec 64
  fu : Fu
  op : FuOp
  rd : BitVec 6
  result : BitVec 64
  valid : Bool
  ex : Exn
  bp : BranchPredict
  isCompressed : Bool
deriving DecidableEq, Repr

/-- `scoreboard_entry_t`: the fields above and those the issue stage reads. -/
structure IssueEntry extends ScoreboardEntry where
  rs1 : BitVec 6
  rs2 : BitVec 6
  useImm : Bool
  useZimm : Bool
  usePc : Bool
deriving DecidableEq, Repr

/-- An empty commit port. -/
def ScoreboardEntry.empty : ScoreboardEntry :=
  ⟨0, .none, .add, 0, 0, false, Exn.none, ⟨0⟩, false⟩

/-- `pc + 2` or `pc + 4`. -/
def ScoreboardEntry.nextPc (e : ScoreboardEntry) : BitVec 64 :=
  e.pc + (if e.isCompressed then 2 else 4)

/-- `amo_resp_t`. -/
structure AmoResp where
  ack : Bool
  result : BitVec 64
deriving DecidableEq, Repr

end Ariane

/-
# The decoder

`src/decoder.sv`. The process `decoder` is a block of assignments on the outputs and
on the signals `illegal_instr`, `ecall`, `ebreak` and `check_fprm` (`Decoded`); each
opcode is one definition. A table of the source whose default branch raises
`illegal_instr` and leaves the operation alone is a function to `Option FuOp`.

Not modelled: the vectorial operations, which the build leaves out (`XFVEC` is zero:
their encodings are illegal), and the transaction id, which the scoreboard sets.
-/
import Ariane.Pkg

namespace Ariane
namespace Decoder

open Riscv

/-! ### Instruction words -/

section Fields

variable (w : BitVec 32)

def opcode : BitVec 7 := w.extractLsb' 0 7
def rd : BitVec 5 := w.extractLsb' 7 5
def funct3 : BitVec 3 := w.extractLsb' 12 3
def rs1 : BitVec 5 := w.extractLsb' 15 5
def rs2 : BitVec 5 := w.extractLsb' 20 5
def funct7 : BitVec 7 := w.extractLsb' 25 7
def funct5 : BitVec 5 := w.extractLsb' 27 5
def fmt : BitVec 2 := w.extractLsb' 25 2
def rs3 : BitVec 5 := w.extractLsb' 27 5
def imm12 : BitVec 12 := w.extractLsb' 20 12

/-- `i_imm`. -/
def iImm : BitVec 64 := (w.extractLsb' 20 12).signExtend 64

/-- `imm_s_type`. -/
def sImm : BitVec 64 := (w.extractLsb' 25 7 ++ w.extractLsb' 7 5).signExtend 64

/-- `sb_imm`. -/
def sbImm : BitVec 64 :=
  (w.extractLsb' 31 1 ++ w.extractLsb' 7 1 ++ w.extractLsb' 25 6 ++ w.extractLsb' 8 4 ++
    0#1).signExtend 64

/-- `imm_u_type`. -/
def uImm : BitVec 64 := (w.extractLsb' 12 20 ++ 0#12).signExtend 64

/-- `uj_imm`. -/
def ujImm : BitVec 64 :=
  (w.extractLsb' 31 1 ++ w.extractLsb' 12 8 ++ w.extractLsb' 20 1 ++ w.extractLsb' 21 10 ++
    0#1).signExtend 64

end Fields

/-- The major opcodes the decoder knows. -/
inductive Opcode
  | load | loadFp | miscMem | opImm | auipc | opImm32
  | store | storeFp | amo | op | lui | op32
  | madd | msub | nmsub | nmadd | opFp
  | branch | jalr | jal | system
deriving DecidableEq, Repr

def Opcode.bits : Opcode → BitVec 7
  | load => 0b0000011
  | loadFp => 0b0000111
  | miscMem => 0b0001111
  | opImm => 0b0010011
  | auipc => 0b0010111
  | opImm32 => 0b0011011
  | store => 0b0100011
  | storeFp => 0b0100111
  | amo => 0b0101111
  | op => 0b0110011
  | lui => 0b0110111
  | op32 => 0b0111011
  | madd => 0b1000011
  | msub => 0b1000111
  | nmsub => 0b1001011
  | nmadd => 0b1001111
  | opFp => 0b1010011
  | branch => 0b1100011
  | jalr => 0b1100111
  | jal => 0b1101111
  | system => 0b1110011

def Opcode.ofBits : BitVec 7 → Option Opcode
  | 0b0000011#7 => some load
  | 0b0000111#7 => some loadFp
  | 0b0001111#7 => some miscMem
  | 0b0010011#7 => some opImm
  | 0b0010111#7 => some auipc
  | 0b0011011#7 => some opImm32
  | 0b0100011#7 => some store
  | 0b0100111#7 => some storeFp
  | 0b0101111#7 => some amo
  | 0b0110011#7 => some op
  | 0b0110111#7 => some lui
  | 0b0111011#7 => some op32
  | 0b1000011#7 => some madd
  | 0b1000111#7 => some msub
  | 0b1001011#7 => some nmsub
  | 0b1001111#7 => some nmadd
  | 0b1010011#7 => some opFp
  | 0b1100011#7 => some branch
  | 0b1100111#7 => some jalr
  | 0b1101111#7 => some jal
  | 0b1110011#7 => some system
  | _ => none

theorem Opcode.ofBits_bits (o : Opcode) : ofBits o.bits = some o := by
  cases o <;> rfl

/-! ### Inputs and outputs -/

/-- `irq_ctrl_t`. -/
structure IrqCtrl where
  mie : BitVec 64
  mip : BitVec 64
  mideleg : BitVec 64
  sie : Bool
  globalEnable : Bool

structure In where
  debugReq : Bool
  pc : BitVec 64
  isCompressed : Bool
  compressedInstr : BitVec 16
  isIllegal : Bool
  instruction : BitVec 32
  branchPredict : BranchPredict
  ex : Exn
  irq : BitVec 2
  irqCtrl : IrqCtrl
  privLvl : PrivLvl
  debugMode : Bool
  fs : Xs
  frm : BitVec 3
  tvm : Bool
  tw : Bool
  tsr : Bool

/-- `imm_select`. -/
inductive ImmSelect
  | noImm | iImm | sImm | sbImm | uImm | jImm | rs3
deriving DecidableEq, Repr

/-- What the process `decoder` assigns. -/
structure Decoded where
  fu : Fu
  op : FuOp
  rs1 : BitVec 6
  rs2 : BitVec 6
  rd : BitVec 6
  usePc : Bool
  useZimm : Bool
  immSelect : ImmSelect
  isControlFlowInstr : Bool
  illegalInstr : Bool
  ecall : Bool
  ebreak : Bool
deriving DecidableEq, Repr

def defaults : Decoded where
  fu := .none
  op := .add
  rs1 := 0
  rs2 := 0
  rd := 0
  usePc := false
  useZimm := false
  immSelect := .noImm
  isControlFlowInstr := false
  illegalInstr := false
  ecall := false
  ebreak := false

/-- A table of operations whose default branch is illegal. -/
def Decoded.table (d : Decoded) (op : Option FuOp) : Decoded :=
  { d with op := op.getD d.op, illegalInstr := d.illegalInstr || op.isNone }

variable (x : In)

/-- The register fields of the instruction, as register addresses. -/
def In.rs1 : BitVec 6 := (Decoder.rs1 x.instruction).setWidth 6
def In.rs2 : BitVec 6 := (Decoder.rs2 x.instruction).setWidth 6
def In.rd : BitVec 6 := (Decoder.rd x.instruction).setWidth 6

/-! ### System and memory ordering -/

/-- The `SYSTEM` instructions with `funct3` zero. The check of `rs1` and `rd` comes
first; `DRET` and `SFENCE.VMA` assign `illegal_instr` again. -/
def systemPriv (d : Decoded) : Decoded :=
  let w := x.instruction
  let d := { d with illegalInstr := rs1 w != 0 || rd w != 0 }
  if imm12 w = 0 then { d with ecall := true }
  else if imm12 w = 1 then { d with ebreak := true }
  else if imm12 w = 0x102 then
    if x.privLvl = privLvlU ∨ (x.privLvl = privLvlS ∧ x.tsr = true) then
      { d with illegalInstr := true, op := .add }
    else { d with op := .sret }
  else if imm12 w = 0x302 then
    { d with
      op := .mret
      illegalInstr := d.illegalInstr || x.privLvl == privLvlU || x.privLvl == privLvlS }
  else if imm12 w = 0x7b2 then { d with op := .dret, illegalInstr := !x.debugMode }
  else if imm12 w = 0x105 then
    if (x.privLvl = privLvlS ∧ x.tw = true) ∨ x.privLvl = privLvlU then
      { d with illegalInstr := true, op := .add }
    else { d with op := if enableWfi then .wfi else .add }
  else if funct7 w = 0b0001001 then
    { d with
      op := .sfenceVma
      illegalInstr := !(x.privLvl == privLvlM || x.privLvl == privLvlS) ||
        x.privLvl == privLvlS && x.tvm }
  else d

/-- A set or clear of no bits is a read. -/
def csrSetOrRead (w : BitVec 32) (op : FuOp) : FuOp := if rs1 w = 0 then .csrRead else op

def decodeSystem : Decoded :=
  let w := x.instruction
  let d := { defaults with fu := .csr, rs1 := x.rs1, rd := x.rd }
  match funct3 w with
  | 0b000#3 => systemPriv x d
  | 0b001#3 => { d with immSelect := .iImm, op := .csrWrite }
  | 0b010#3 => { d with immSelect := .iImm, op := csrSetOrRead w .csrSet }
  | 0b011#3 => { d with immSelect := .iImm, op := csrSetOrRead w .csrClear }
  | 0b101#3 => { d with immSelect := .iImm, useZimm := true, op := .csrWrite }
  | 0b110#3 => { d with immSelect := .iImm, useZimm := true, op := csrSetOrRead w .csrSet }
  | 0b111#3 => { d with immSelect := .iImm, useZimm := true, op := csrSetOrRead w .csrClear }
  | _ => { d with illegalInstr := true }

/-- Fences; every field but the sets of a `FENCE` is zero. -/
def decodeMiscMem : Decoded :=
  let w := x.instruction
  let d := { defaults with fu := .csr }
  let d :=
    match funct3 w with
    | 0b000#3 => { d with op := .fence }
    | 0b001#3 => { d with op := .fenceI, illegalInstr := imm12 w != 0 }
    | _ => { d with illegalInstr := true }
  { d with illegalInstr := d.illegalInstr || rs1 w != 0 || rd w != 0 || w.extractLsb' 28 4 != 0 }

/-! ### Integer operations -/

def opTable : BitVec 7 → BitVec 3 → Option FuOp
  | 0b0000000#7, 0b000#3 => some .add
  | 0b0100000#7, 0b000#3 => some .sub
  | 0b0000000#7, 0b010#3 => some .slts
  | 0b0000000#7, 0b011#3 => some .sltu
  | 0b0000000#7, 0b100#3 => some .xorl
  | 0b0000000#7, 0b110#3 => some .orl
  | 0b0000000#7, 0b111#3 => some .andl
  | 0b0000000#7, 0b001#3 => some .sll
  | 0b0000000#7, 0b101#3 => some .srl
  | 0b0100000#7, 0b101#3 => some .sra
  | 0b0000001#7, 0b000#3 => some .mul
  | 0b0000001#7, 0b001#3 => some .mulh
  | 0b0000001#7, 0b010#3 => some .mulhsu
  | 0b0000001#7, 0b011#3 => some .mulhu
  | 0b0000001#7, 0b100#3 => some .div
  | 0b0000001#7, 0b101#3 => some .divu
  | 0b0000001#7, 0b110#3 => some .rem
  | 0b0000001#7, 0b111#3 => some .remu
  | _, _ => none

def op32Table : BitVec 7 → BitVec 3 → Option FuOp
  | 0b0000000#7, 0b000#3 => some .addw
  | 0b0100000#7, 0b000#3 => some .subw
  | 0b0000000#7, 0b001#3 => some .sllw
  | 0b0000000#7, 0b101#3 => some .srlw
  | 0b0100000#7, 0b101#3 => some .sraw
  | 0b0000001#7, 0b000#3 => some .mulw
  | 0b0000001#7, 0b100#3 => some .divw
  | 0b0000001#7, 0b101#3 => some .divuw
  | 0b0000001#7, 0b110#3 => some .remw
  | 0b0000001#7, 0b111#3 => some .remuw
  | _, _ => none

def regReg (t : BitVec 7 → BitVec 3 → Option FuOp) : Decoded :=
  let w := x.instruction
  let fu : Fu := if funct7 w = 0b0000001 then .mult else .alu
  Decoded.table { defaults with fu := fu, rs1 := x.rs1, rs2 := x.rs2, rd := x.rd }
    (t (funct7 w) (funct3 w))

/-- The prefix `10` is that of the vectorial operations. -/
def decodeOp : Decoded :=
  if x.instruction.extractLsb' 30 2 = 0b10 then { defaults with illegalInstr := true }
  else regReg x opTable

def decodeOp32 : Decoded := regReg x op32Table

def opImmTable (w : BitVec 32) : Option FuOp :=
  match funct3 w with
  | 0b000#3 => some .add
  | 0b010#3 => some .slts
  | 0b011#3 => some .sltu
  | 0b100#3 => some .xorl
  | 0b110#3 => some .orl
  | 0b111#3 => some .andl
  | 0b001#3 => some .sll
  | _ =>
    if w.extractLsb' 26 6 = 0 then some .srl
    else if w.extractLsb' 26 6 = 0b010000 then some .sra
    else none

def decodeOpImm : Decoded :=
  let w := x.instruction
  let d := { defaults with fu := .alu, immSelect := .iImm, rs1 := x.rs1, rd := x.rd }
  let d := d.table (opImmTable w)
  { d with illegalInstr := d.illegalInstr || funct3 w == 0b001 && w.extractLsb' 26 6 != 0 }

def opImm32Table (w : BitVec 32) : Option FuOp :=
  match funct3 w with
  | 0b000#3 => some .addw
  | 0b001#3 => some .sllw
  | 0b101#3 =>
    if funct7 w = 0 then some .srlw
    else if funct7 w = 0b0100000 then some .sraw
    else none
  | _ => none

def decodeOpImm32 : Decoded :=
  let w := x.instruction
  let d := { defaults with fu := .alu, immSelect := .iImm, rs1 := x.rs1, rd := x.rd }
  let d := d.table (opImm32Table w)
  { d with illegalInstr := d.illegalInstr || funct3 w == 0b001 && funct7 w != 0 }

/-! ### Loads and stores -/

def storeTable : BitVec 3 → Option FuOp
  | 0b000#3 => some .sb
  | 0b001#3 => some .sh
  | 0b010#3 => some .sw
  | 0b011#3 => some .sd
  | _ => none

def decodeStore : Decoded :=
  Decoded.table { defaults with fu := .store, immSelect := .sImm, rs1 := x.rs1, rs2 := x.rs2 }
    (storeTable (funct3 x.instruction))

def loadTable : BitVec 3 → Option FuOp
  | 0b000#3 => some .lb
  | 0b001#3 => some .lh
  | 0b010#3 => some .lw
  | 0b100#3 => some .lbu
  | 0b101#3 => some .lhu
  | 0b110#3 => some .lwu
  | 0b011#3 => some .ld
  | _ => none

def decodeLoad : Decoded :=
  Decoded.table { defaults with fu := .load, immSelect := .iImm, rs1 := x.rs1, rd := x.rd }
    (loadTable (funct3 x.instruction))

/-- Floating-point instructions need the unit switched on. -/
def fpEnabled : Bool := fpPresent && x.fs != Xs.off

def storeFpTable : BitVec 3 → Option FuOp
  | 0b000#3 => if xf8 then some .fsb else none
  | 0b001#3 => if xf16 || xf16Alt then some .fsh else none
  | 0b010#3 => if rvf then some .fsw else none
  | 0b011#3 => if rvd then some .fsd else none
  | _ => none

def decodeStoreFp : Decoded :=
  if fpEnabled x then
    Decoded.table { defaults with fu := .store, immSelect := .sImm, rs1 := x.rs1, rs2 := x.rs2 }
      (storeFpTable (funct3 x.instruction))
  else { defaults with illegalInstr := true }

def loadFpTable : BitVec 3 → Option FuOp
  | 0b000#3 => if xf8 then some .flb else none
  | 0b001#3 => if xf16 || xf16Alt then some .flh else none
  | 0b010#3 => if rvf then some .flw else none
  | 0b011#3 => if rvd then some .fld else none
  | _ => none

def decodeLoadFp : Decoded :=
  if fpEnabled x then
    Decoded.table { defaults with fu := .load, immSelect := .iImm, rs1 := x.rs1, rd := x.rd }
      (loadFpTable (funct3 x.instruction))
  else { defaults with illegalInstr := true }

/-! ### Floating-point operations -/

/-- The format is not one the build supports. -/
def fmtIllegal : BitVec 2 → Bool
  | 0b00#2 => !rvf
  | 0b01#2 => !rvd
  | 0b10#2 => !xf16 && !xf16Alt
  | _ => !xf8

/-- The rounding mode, static or from `frm`, is reserved. -/
def rmIllegal (rm frm : BitVec 3) (fmt : BitVec 2) : Bool :=
  if rm ≤ 0b100 then false
  else if rm = 0b101 then !xf16Alt || fmt != 0b10 || !(frm ≤ 0b100 : Bool)
  else if rm = 0b111 then !(frm ≤ 0b100 : Bool)
  else true

/-- The last two checks of a floating-point operation; `checkFprm` is `check_fprm`. -/
def fpChecks (checkFprm : Bool) (d : Decoded) : Decoded :=
  let w := x.instruction
  { d with
    illegalInstr := d.illegalInstr || fmtIllegal (fmt w) ||
      checkFprm && rmIllegal (funct3 w) x.frm (fmt w) }

def decodeFused (op : FuOp) : Decoded :=
  if fpEnabled x then
    fpChecks x true
      { defaults with
        fu := .fpu, rs1 := x.rs1, rs2 := x.rs2, rd := x.rd, immSelect := .rs3, op := op }
  else { defaults with illegalInstr := true }

/-- `rm inside {[0:hi]}`, or `[4:4 + hi]` for the alternative half precision. -/
def rmInside (rm hi : BitVec 3) : Bool := rm ≤ hi || xf16Alt && 0b100 ≤ rm && rm ≤ 0b100 + hi

/-- The source format of a conversion is not one the build supports. -/
def srcFmtIllegal : BitVec 3 → Bool
  | 0b000#3 => !rvf
  | 0b001#3 => !rvd
  | 0b010#3 => !xf16
  | 0b110#3 => !xf16Alt
  | 0b011#3 => !xf8
  | _ => true

/-- The operation of an `OP-FP` word, and `check_fprm`. -/
def opFpCase (d : Decoded) : Decoded × Bool :=
  let w := x.instruction
  let rm := funct3 w
  match funct5 w with
  | 0b00000#5 => ({ d with op := .fadd, rs1 := 0, rs2 := x.rs1, immSelect := .iImm }, true)
  | 0b00001#5 => ({ d with op := .fsub, rs1 := 0, rs2 := x.rs1, immSelect := .iImm }, true)
  | 0b00010#5 => ({ d with op := .fmul }, true)
  | 0b00011#5 => ({ d with op := .fdiv }, true)
  | 0b01011#5 => ({ d with op := .fsqrt, illegalInstr := rs2 w != 0 }, true)
  | 0b00100#5 => ({ d with op := .fsgnj, illegalInstr := !rmInside rm 0b010 }, false)
  | 0b00101#5 => ({ d with op := .fminMax, illegalInstr := !rmInside rm 0b001 }, false)
  | 0b01000#5 =>
    ({ d with
        op := .fcvtF2f
        rs2 := x.rs1
        immSelect := .iImm
        illegalInstr := w.extractLsb' 23 2 != 0 || srcFmtIllegal (w.extractLsb' 20 3) }, true)
  | 0b10100#5 => ({ d with op := .fcmp, illegalInstr := !rmInside rm 0b010 }, false)
  | 0b11000#5 =>
    ({ d with op := .fcvtF2i, immSelect := .iImm, illegalInstr := w.extractLsb' 22 3 != 0 }, true)
  | 0b11010#5 =>
    ({ d with op := .fcvtI2f, immSelect := .iImm, illegalInstr := w.extractLsb' 22 3 != 0 }, true)
  | 0b11100#5 =>
    let d := { d with rs2 := x.rs1 }
    let d :=
      if rm = 0b000 ∨ (xf16Alt = true ∧ rm = 0b100) then { d with op := .fmvF2x }
      else if rm = 0b001 ∨ (xf16Alt = true ∧ rm = 0b101) then { d with op := .fclass }
      else { d with illegalInstr := true }
    ({ d with illegalInstr := d.illegalInstr || rs2 w != 0 }, false)
  | 0b11110#5 =>
    ({ d with
        op := .fmvX2f
        rs2 := x.rs1
        illegalInstr := !(rm == 0b000 || xf16Alt && rm == 0b100) || rs2 w != 0 }, false)
  | _ => ({ d with illegalInstr := true }, true)

def decodeOpFp : Decoded :=
  if fpEnabled x then
    let d := { defaults with fu := .fpu, rs1 := x.rs1, rs2 := x.rs2, rd := x.rd }
    fpChecks x (opFpCase x d).2 (opFpCase x d).1
  else { defaults with illegalInstr := true }

/-! ### Atomics and control flow -/

def amoWTable : BitVec 5 → Option FuOp
  | 0x00#5 => some .amoAddw
  | 0x01#5 => some .amoSwapw
  | 0x02#5 => some .amoLrw
  | 0x03#5 => some .amoScw
  | 0x04#5 => some .amoXorw
  | 0x08#5 => some .amoOrw
  | 0x0c#5 => some .amoAndw
  | 0x10#5 => some .amoMinw
  | 0x14#5 => some .amoMaxw
  | 0x18#5 => some .amoMinwu
  | 0x1c#5 => some .amoMaxwu
  | _ => none

def amoDTable : BitVec 5 → Option FuOp
  | 0x00#5 => some .amoAddd
  | 0x01#5 => some .amoSwapd
  | 0x02#5 => some .amoLrd
  | 0x03#5 => some .amoScd
  | 0x04#5 => some .amoXord
  | 0x08#5 => some .amoOrd
  | 0x0c#5 => some .amoAndd
  | 0x10#5 => some .amoMind
  | 0x14#5 => some .amoMaxd
  | 0x18#5 => some .amoMindu
  | 0x1c#5 => some .amoMaxdu
  | _ => none

/-- AMOs run in the store unit; a load-reserved has no second operand. -/
def decodeAmo : Decoded :=
  let w := x.instruction
  let d := { defaults with fu := .store, rs1 := x.rs1, rs2 := x.rs2, rd := x.rd }
  let d :=
    if rva = true ∧ funct3 w = 0b010 then d.table (amoWTable (funct5 w))
    else if rva = true ∧ funct3 w = 0b011 then d.table (amoDTable (funct5 w))
    else { d with illegalInstr := true }
  { d with
    illegalInstr := d.illegalInstr ||
      rva && (funct3 w == 0b010 || funct3 w == 0b011) && funct5 w == 0x02 && rs2 w != 0 }

def branchTable : BitVec 3 → Option FuOp
  | 0b000#3 => some .eq
  | 0b001#3 => some .ne
  | 0b100#3 => some .lts
  | 0b101#3 => some .ges
  | 0b110#3 => some .ltu
  | 0b111#3 => some .geu
  | _ => none

def decodeBranch : Decoded :=
  let op := branchTable (funct3 x.instruction)
  Decoded.table
    { defaults with
      fu := .ctrlFlow, immSelect := .sbImm, rs1 := x.rs1, rs2 := x.rs2, isControlFlowInstr := op.isSome }
    op

def decodeJalr : Decoded :=
  { defaults with
    fu := .ctrlFlow
    op := .jalr
    rs1 := x.rs1
    rd := x.rd
    immSelect := .iImm
    isControlFlowInstr := true
    illegalInstr := funct3 x.instruction != 0 }

def decodeJal : Decoded :=
  { defaults with fu := .ctrlFlow, immSelect := .jImm, rd := x.rd, isControlFlowInstr := true }

def decodeAuipc : Decoded :=
  { defaults with fu := .alu, immSelect := .uImm, usePc := true, rd := x.rd }

def decodeLui : Decoded := { defaults with fu := .alu, immSelect := .uImm, rd := x.rd }

/-! ### The decoder -/

/-- One branch of the case on the opcode. -/
def decodeOpcode : Opcode → Decoded
  | .system => decodeSystem x
  | .miscMem => decodeMiscMem x
  | .op => decodeOp x
  | .op32 => decodeOp32 x
  | .opImm => decodeOpImm x
  | .opImm32 => decodeOpImm32 x
  | .store => decodeStore x
  | .load => decodeLoad x
  | .storeFp => decodeStoreFp x
  | .loadFp => decodeLoadFp x
  | .madd => decodeFused x .fmadd
  | .msub => decodeFused x .fmsub
  | .nmsub => decodeFused x .fnmsub
  | .nmadd => decodeFused x .fnmadd
  | .opFp => decodeOpFp x
  | .amo => decodeAmo x
  | .branch => decodeBranch x
  | .jalr => decodeJalr x
  | .jal => decodeJal x
  | .auipc => decodeAuipc x
  | .lui => decodeLui x

/-- The process `decoder`. -/
def decode : Decoded :=
  if x.ex.valid then defaults
  else
    match Opcode.ofBits (opcode x.instruction) with
    | some o => decodeOpcode x o
    | none => { defaults with illegalInstr := true }

theorem decode_of_opcode {x : In} {o : Opcode} (hex : x.ex.valid = false)
    (h : opcode x.instruction = o.bits) : decode x = decodeOpcode x o := by
  rw [decode, hex, if_neg Bool.false_ne_true, h, Opcode.ofBits_bits]

/-- `sign_extend`: the result field of the entry, and `use_imm`. -/
def signExtend (w : BitVec 32) : ImmSelect → BitVec 64 × Bool
  | .iImm => (iImm w, true)
  | .sImm => (sImm w, true)
  | .sbImm => (sbImm w, true)
  | .uImm => (uImm w, true)
  | .jImm => (ujImm w, true)
  | .rs3 => ((rs3 w).setWidth 64, false)
  | .noImm => (0, false)

/-! ### Exceptions and interrupts -/

/-- `interrupt_cause`: the last source that is enabled and pending wins. -/
def interruptCause : BitVec 64 :=
  let c := x.irqCtrl
  let pending (n : ℕ) : Bool := c.mie.getLsbD n && c.mip.getLsbD n
  let cause (n : ℕ) : BitVec 64 := (1#64 <<< 63) ||| BitVec.ofNat 64 n
  if pending irqMExt then cause irqMExt
  else if pending irqMSoft then cause irqMSoft
  else if pending irqMTimer then cause irqMTimer
  else if c.mie.getLsbD irqSExt && (c.mip.getLsbD irqSExt || x.irq.getLsbD 1) then cause irqSExt
  else if pending irqSSoft then cause irqSSoft
  else if pending irqSTimer then cause irqSTimer
  else 0

/-- An interrupt is taken in place of the instruction. -/
def takesInterrupt : Bool :=
  let cause := interruptCause x
  cause.getLsbD 63 && x.irqCtrl.globalEnable &&
    (!x.irqCtrl.mideleg.getLsbD (cause.extractLsb' 0 6).toNat ||
      x.irqCtrl.sie && x.privLvl == privLvlS || x.privLvl == privLvlU)

/-- The exception of the instruction itself. -/
def instrEx : Exn :=
  let tval : BitVec 64 :=
    if x.isCompressed then x.compressedInstr.setWidth 64 else x.instruction.setWidth 64
  let d := decode x
  if d.illegalInstr || x.isIllegal then ⟨illegalInstr, tval, true⟩
  else if d.ecall then
    let cause : BitVec 64 :=
      if x.privLvl = privLvlM then envCallMmode
      else if x.privLvl = privLvlS then envCallSmode
      else if x.privLvl = privLvlU then envCallUmode
      else x.ex.cause
    ⟨cause, tval, true⟩
  else if d.ebreak then ⟨breakpoint, tval, true⟩
  else ⟨x.ex.cause, tval, x.ex.valid⟩

/-- `exception_handling`. -/
def exO : Exn :=
  let ex :=
    if x.ex.valid then x.ex
    else if takesInterrupt x then { instrEx x with valid := true, cause := interruptCause x }
    else instrEx x
  if x.debugReq && !x.debugMode then { ex with valid := true, cause := debugRequest } else ex

/-- `instruction_o`. -/
def instructionO : IssueEntry :=
  let d := decode x
  { pc := x.pc
    fu := d.fu
    op := d.op
    rd := d.rd
    result := (signExtend x.instruction d.immSelect).1
    valid := (exO x).valid
    ex := exO x
    bp := x.branchPredict
    isCompressed := x.isCompressed
    rs1 := d.rs1
    rs2 := d.rs2
    useImm := (signExtend x.instruction d.immSelect).2
    useZimm := d.useZimm
    usePc := d.usePc }

/-! ### Units and operations -/

/-- The operations the decoder sends to a unit; `ADD` also stands for no operation. -/
def runs : Fu → FuOp → Bool
  | .none, op => op == .add
  | .load, op => match op with
    | .add | .lb | .lh | .lw | .lbu | .lhu | .lwu | .ld | .flb | .flh | .flw | .fld => true
    | _ => false
  | .store, op => match op with
    | .add | .sb | .sh | .sw | .sd | .fsb | .fsh | .fsw | .fsd => true
    | _ => op.isAmo
  | .alu, op => match op with
    | .add | .sub | .addw | .subw | .xorl | .orl | .andl | .sra | .srl | .sll | .srlw | .sllw | .sraw
    | .slts | .sltu => true
    | _ => false
  | .ctrlFlow, op => match op with
    | .add | .eq | .ne | .lts | .ges | .ltu | .geu | .jalr => true
    | _ => false
  | .mult, op => match op with
    | .add | .mul | .mulh | .mulhu | .mulhsu | .mulw
    | .div | .divu | .divw | .divuw | .rem | .remu | .remw | .remuw => true
    | _ => false
  | .csr, op => match op with
    | .add | .wfi | .fence | .fenceI | .sfenceVma => true
    | _ => op.isCsrAccess || op.isReturn
  | .fpu, op => match op with
    | .add | .fadd | .fsub | .fmul | .fdiv | .fminMax | .fsqrt | .fmadd | .fmsub | .fnmsub | .fnmadd
    | .fcvtF2i | .fcvtI2f | .fcvtF2f | .fsgnj | .fmvF2x | .fmvX2f | .fcmp | .fclass => true
    | _ => false
  | .fpuVec, _ => false

theorem systemPriv_fu (d : Decoded) : (systemPriv x d).fu = d.fu := by
  unfold systemPriv
  simp only [apply_ite Decoded.fu, ite_self]

/-- The operations of the privileged instructions. -/
theorem systemPriv_op {d : Decoded} (h : d.op = .add) :
    (systemPriv x d).op ∈ [FuOp.add, .sret, .mret, .dret, .wfi, .sfenceVma] := by
  unfold systemPriv
  simp only [apply_ite Decoded.op, h]
  repeat' split
  all_goals decide

theorem runs_system : runs .csr (decodeSystem x).op = true ∧ (decodeSystem x).fu = .csr := by
  have hset (w : BitVec 32) (op : FuOp) (h : runs .csr op = true) :
      runs .csr (csrSetOrRead w op) = true := by
    unfold csrSetOrRead
    split
    · rfl
    · exact h
  have hpriv (d : Decoded) (h : d.op = .add) :
      runs .csr (systemPriv x d).op = true ∧ (systemPriv x d).fu = d.fu := by
    refine ⟨?_, systemPriv_fu x d⟩
    have hall : ∀ op ∈ [FuOp.add, .sret, .mret, .dret, .wfi, .sfenceVma], runs .csr op = true := by decide
    exact hall _ (systemPriv_op x h)
  unfold decodeSystem
  dsimp only
  split
  · exact hpriv _ rfl
  all_goals first | exact ⟨rfl, rfl⟩ | exact ⟨hset _ _ rfl, rfl⟩

theorem runs_opTable (f7 : BitVec 7) (f3 : BitVec 3) :
    runs (if f7 = 0b0000001 then .mult else .alu) ((opTable f7 f3).getD .add) = true := by
  by_cases h7 : f7 = 0b0000001
  · rw [h7]
    revert f3
    decide
  · rw [if_neg h7]
    unfold opTable
    split <;> first | rfl | exact absurd rfl h7

theorem runs_op32Table (f7 : BitVec 7) (f3 : BitVec 3) :
    runs (if f7 = 0b0000001 then .mult else .alu) ((op32Table f7 f3).getD .add) = true := by
  by_cases h7 : f7 = 0b0000001
  · rw [h7]
    revert f3
    decide
  · rw [if_neg h7]
    unfold op32Table
    split <;> first | rfl | exact absurd rfl h7

theorem runs_opFp (d : Decoded) (h : d.op = .add) :
    runs .fpu (opFpCase x d).1.op = true ∧ (opFpCase x d).1.fu = d.fu := by
  unfold opFpCase
  dsimp only
  split
  all_goals first | exact ⟨rfl, rfl⟩ | skip
  · split_ifs <;> simp [h, runs]
  · simp [h, runs]

theorem runs_amo : runs .store (decodeAmo x).op = true := by
  have hw : ∀ f, runs .store ((amoWTable f).getD .add) = true := by decide
  have hd : ∀ f, runs .store ((amoDTable f).getD .add) = true := by decide
  unfold decodeAmo
  dsimp only
  split_ifs
  · exact hw _
  · exact hd _
  · rfl

theorem runs_opcode (o : Opcode) : runs (decodeOpcode x o).fu (decodeOpcode x o).op = true := by
  have himm (w : BitVec 32) : runs .alu ((opImmTable w).getD .add) = true := by
    unfold opImmTable
    split
    all_goals first | rfl | skip
    split_ifs <;> rfl
  have himm32 (w : BitVec 32) : runs .alu ((opImm32Table w).getD .add) = true := by
    unfold opImm32Table
    split
    all_goals first | rfl | skip
    split_ifs <;> rfl
  have hst : ∀ f, runs .store ((storeTable f).getD .add) = true := by decide
  have hld : ∀ f, runs .load ((loadTable f).getD .add) = true := by decide
  have hfst : ∀ f, runs .store ((storeFpTable f).getD .add) = true := by decide
  have hfld : ∀ f, runs .load ((loadFpTable f).getD .add) = true := by decide
  have hbr : ∀ f, runs .ctrlFlow ((branchTable f).getD .add) = true := by decide
  have hfused (op : FuOp) (h : runs .fpu op = true) :
      runs (decodeFused x op).fu (decodeFused x op).op = true := by
    unfold decodeFused
    split
    · exact h
    · rfl
  cases o with
  | system =>
    rw [decodeOpcode, (runs_system x).2]
    exact (runs_system x).1
  | miscMem =>
    show runs (decodeMiscMem x).fu (decodeMiscMem x).op = true
    unfold decodeMiscMem
    dsimp only
    split <;> rfl
  | op =>
    show runs (decodeOp x).fu (decodeOp x).op = true
    unfold decodeOp
    split
    · rfl
    · exact runs_opTable _ _
  | op32 => exact runs_op32Table _ _
  | opImm => exact himm _
  | opImm32 => exact himm32 _
  | store => exact hst _
  | load => exact hld _
  | storeFp =>
    show runs (decodeStoreFp x).fu (decodeStoreFp x).op = true
    unfold decodeStoreFp
    split
    · exact hfst _
    · rfl
  | loadFp =>
    show runs (decodeLoadFp x).fu (decodeLoadFp x).op = true
    unfold decodeLoadFp
    split
    · exact hfld _
    · rfl
  | madd => exact hfused _ rfl
  | msub => exact hfused _ rfl
  | nmsub => exact hfused _ rfl
  | nmadd => exact hfused _ rfl
  | opFp =>
    show runs (decodeOpFp x).fu (decodeOpFp x).op = true
    unfold decodeOpFp
    split
    · have h := runs_opFp x { defaults with fu := .fpu, rs1 := x.rs1, rs2 := x.rs2, rd := x.rd } rfl
      simp only [fpChecks, h.2]
      exact h.1
    · rfl
  | amo =>
    have hfu : (decodeAmo x).fu = .store := by
      unfold decodeAmo
      dsimp only
      split_ifs <;> rfl
    rw [decodeOpcode, hfu]
    exact runs_amo x
  | branch => exact hbr _
  | jalr => rfl
  | jal => rfl
  | auipc => rfl
  | lui => rfl

/-- Every unit gets its own operations. -/
theorem runs_decode : runs (decode x).fu (decode x).op = true := by
  unfold decode
  split
  · rfl
  split
  · exact runs_opcode x _
  · rfl

/-- Only the store unit gets AMOs. -/
theorem store_of_amo {fu : Fu} {op : FuOp} (hr : runs fu op = true) (h : op.isAmo = true) :
    fu = .store := by
  cases op <;> first | (cases h; done) | (cases fu <;> first | rfl | cases hr)

/-- Fences, CSR accesses and returns go to the CSR unit. -/
theorem csr_of_fence {fu : Fu} {op : FuOp} (hr : runs fu op = true)
    (h : op = .fence ∨ op = .fenceI ∨ op = .sfenceVma ∨ op.isCsrAccess = true ∨ op.isReturn = true) :
    fu = .csr := by
  have h' : (op == .fence || op == .fenceI || op == .sfenceVma || op.isCsrAccess || op.isReturn) =
      true := by
    simpa [or_assoc] using h
  cases op <;> first | (cases h'; done) | (cases fu <;> first | rfl | cases hr)

/-- Outside the CSR unit there are no fences. -/
theorem not_fence_of_runs {fu : Fu} {op : FuOp} (hr : runs fu op = true) (hfu : fu ≠ .csr) :
    op ≠ .fence ∧ op ≠ .fenceI ∧ op ≠ .sfenceVma := by
  refine ⟨?_, ?_, ?_⟩
  · intro h
    exact hfu (csr_of_fence hr (.inl h))
  · intro h
    exact hfu (csr_of_fence hr (.inr (.inl h)))
  · intro h
    exact hfu (csr_of_fence hr (.inr (.inr (.inl h))))

/-- An entry without an exception is legal, and no environment call or breakpoint. -/
theorem legal_of_exO (h : (exO x).valid = false) :
    x.ex.valid = false ∧ x.isIllegal = false ∧ (decode x).illegalInstr = false ∧
      (decode x).ecall = false ∧ (decode x).ebreak = false := by
  have hdbg : (x.debugReq && !x.debugMode) = false := by
    rw [Bool.eq_false_iff]
    intro hd
    rw [exO, if_pos hd] at h
    cases h
  have hex : x.ex.valid = false := by
    rw [Bool.eq_false_iff]
    intro hv
    rw [exO, hdbg, if_pos hv] at h
    exact Bool.eq_false_iff.1 h hv
  have hirq : takesInterrupt x = false := by
    rw [Bool.eq_false_iff]
    intro hi
    rw [exO, hdbg, hex, if_pos hi] at h
    cases h
  have hi : (instrEx x).valid = false := by simpa [exO, hdbg, hex, hirq] using h
  unfold instrEx at hi
  dsimp only at hi
  generalize (if x.isCompressed then _ else _ : BitVec 64) = tval at hi
  split_ifs at hi with h1 h2 h3
  rw [Bool.not_eq_true, Bool.or_eq_false_iff] at h1
  rw [Bool.not_eq_true] at h2 h3
  exact ⟨hex, h1.2, h1.1, h2, h3⟩

/-! ### Legal instructions -/

/-- What holds of every instruction that is not illegal: it has a unit, and a store or a
fence has no destination. -/
def Decoded.Shape (d : Decoded) : Prop :=
  d.illegalInstr = false →
    d.fu ≠ .none ∧ (d.fu = .store → d.op.isAmo = true ∨ d.rd = 0) ∧
      (d.op = .fence ∨ d.op = .fenceI → d.rd = 0)

/-- The units whose instructions are neither stores nor fences. -/
def computes : Fu → Bool
  | .load | .alu | .ctrlFlow | .mult | .fpu => true
  | _ => false

theorem shape_of_computes {d : Decoded} (hr : runs d.fu d.op = true)
    (h : d.illegalInstr = false → computes d.fu = true) : d.Shape := by
  intro hl
  have hc := h hl
  have hne : ∀ {fu : Fu}, computes fu = false → d.fu ≠ fu := by
    intro fu hfu he
    rw [he, hfu] at hc
    cases hc
  have hf := not_fence_of_runs hr (hne rfl)
  exact ⟨hne rfl, fun h => absurd h (hne rfl), fun h => absurd h (not_or.2 ⟨hf.1, hf.2.1⟩)⟩

theorem shape_system : (decodeSystem x).Shape := by
  have hset (w : BitVec 32) (op : FuOp) (h : op.isCsrAccess = true) :
      (csrSetOrRead w op).isCsrAccess = true := by
    unfold csrSetOrRead
    split
    · rfl
    · exact h
  have hcsr {d : Decoded} (hfu : d.fu = .csr) (hop : d.op ≠ .fence ∧ d.op ≠ .fenceI) : d.Shape := by
    intro _
    rw [hfu]
    exact ⟨Fu.noConfusion, Fu.noConfusion, fun h => absurd h (not_or.2 hop)⟩
  have hacc {d : Decoded} (hfu : d.fu = .csr) (hop : d.op.isCsrAccess = true) : d.Shape :=
    have hne := FuOp.not_fence_of_csr (.inl hop)
    hcsr hfu ⟨hne.2.2.1, hne.2.1⟩
  have hpriv (d : Decoded) (hfu : d.fu = .csr) (hop : d.op = .add) : (systemPriv x d).Shape := by
    refine hcsr ((systemPriv_fu x d).trans hfu) ?_
    have hall : ∀ op ∈ [FuOp.add, .sret, .mret, .dret, .wfi, .sfenceVma], op ≠ .fence ∧ op ≠ .fenceI := by
      decide
    exact hall _ (systemPriv_op x hop)
  unfold decodeSystem
  dsimp only
  split
  · exact hpriv _ rfl rfl
  · exact hacc rfl rfl
  · exact hacc rfl (hset _ _ rfl)
  · exact hacc rfl (hset _ _ rfl)
  · exact hacc rfl rfl
  · exact hacc rfl (hset _ _ rfl)
  · exact hacc rfl (hset _ _ rfl)
  · exact hcsr rfl ⟨FuOp.noConfusion, FuOp.noConfusion⟩

theorem shape_amo : (decodeAmo x).Shape := by
  have hw : ∀ f, (amoWTable f).isNone = false → ((amoWTable f).getD .add).isAmo = true := by decide
  have hd : ∀ f, (amoDTable f).isNone = false → ((amoDTable f).getD .add).isAmo = true := by decide
  intro hl
  have hamo : (decodeAmo x).op.isAmo = true := by
    unfold decodeAmo at hl ⊢
    dsimp only at hl ⊢
    rw [Bool.or_eq_false_iff] at hl
    split_ifs at hl ⊢
    · exact hw _ hl.1
    · exact hd _ hl.1
    · exact hl.1.elim
  have hr := runs_opcode x .amo
  have hfu : (decodeAmo x).fu = .store := store_of_amo hr hamo
  refine ⟨?_, fun _ => .inl hamo, fun hf => ?_⟩
  · rw [hfu]
    exact Fu.noConfusion
  · rcases hf with hf | hf <;> rw [hf] at hamo <;> cases hamo

theorem computes_regReg (t : BitVec 7 → BitVec 3 → Option FuOp) : computes (regReg x t).fu = true := by
  unfold regReg Decoded.table
  dsimp only
  split <;> rfl

theorem shape_opcode (o : Opcode) : (decodeOpcode x o).Shape := by
  have hr := runs_opcode x o
  have hoff {d : Decoded} {p : Prop} [Decidable p] (h : d.Shape) :
      (if p then d else { defaults with illegalInstr := true }).Shape := by
    split
    · exact h
    · exact fun h => absurd h Bool.noConfusion
  cases o with
  | system => exact shape_system x
  | amo => exact shape_amo x
  | miscMem =>
    show (decodeMiscMem x).Shape
    unfold decodeMiscMem
    dsimp only
    split <;> exact fun _ => ⟨Fu.noConfusion, Fu.noConfusion, fun _ => rfl⟩
  | op =>
    refine shape_of_computes hr ?_
    show (decodeOp x).illegalInstr = false → computes (decodeOp x).fu = true
    unfold decodeOp
    split
    · exact fun h => absurd h Bool.noConfusion
    · exact fun _ => computes_regReg x opTable
  | op32 => exact shape_of_computes hr fun _ => computes_regReg x op32Table
  | store => exact fun _ => ⟨Fu.noConfusion, fun _ => .inr rfl, fun _ => rfl⟩
  | storeFp => exact hoff fun _ => ⟨Fu.noConfusion, fun _ => .inr rfl, fun _ => rfl⟩
  | opFp =>
    refine shape_of_computes hr ?_
    show (decodeOpFp x).illegalInstr = false → computes (decodeOpFp x).fu = true
    unfold decodeOpFp
    split
    · intro _
      have h := runs_opFp x { defaults with fu := .fpu, rs1 := x.rs1, rs2 := x.rs2, rd := x.rd } rfl
      simp only [fpChecks, h.2]
      rfl
    · exact fun h => absurd h Bool.noConfusion
  | loadFp | madd | msub | nmsub | nmadd =>
    refine shape_of_computes hr ?_
    simp only [decodeOpcode, decodeLoadFp, decodeFused]
    split
    · exact fun _ => rfl
    · exact fun h => absurd h Bool.noConfusion
  | _ => exact shape_of_computes hr fun _ => rfl

/-- An entry without an exception has a unit; a store or a fence has no destination. -/
theorem shape_of_exO (h : (exO x).valid = false) :
    (decode x).fu ≠ .none ∧ ((decode x).fu = .store → (decode x).op.isAmo = true ∨ (decode x).rd = 0) ∧
      ((decode x).op = .fence ∨ (decode x).op = .fenceI → (decode x).rd = 0) := by
  obtain ⟨hex, -, hl, -⟩ := legal_of_exO x h
  revert hl
  unfold decode
  rw [hex, if_neg Bool.false_ne_true]
  split
  · exact shape_opcode x _
  · exact fun h => absurd h Bool.noConfusion

end Decoder
end Ariane

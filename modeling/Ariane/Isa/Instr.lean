/-
# The instruction set

The 32-bit instructions of RV64IMAFD with `Zicsr`, `Zifencei` and the privileged
instructions, as a data type; the words that encode them; and when the privileged
architecture lets a hart execute one. The formats are those of the base instruction set;
reserved fields are zero.

An access to a CSR is legal here in every state: whether the CSR exists and may be
accessed is a property of the CSR, not of the instruction.
-/
import Ariane.Riscv

namespace Ariane
namespace Isa

open Riscv

/-! ### Instructions -/

/-- The condition of a branch. -/
inductive Cond
  | eq | ne | lt | ge | ltu | geu
deriving DecidableEq, Repr

inductive LoadOp
  | lb | lh | lw | ld | lbu | lhu | lwu
deriving DecidableEq, Repr

inductive StoreOp
  | sb | sh | sw | sd
deriving DecidableEq, Repr

/-- Operations on a register and a signed immediate. -/
inductive ImmOp
  | addi | slti | sltiu | xori | ori | andi
deriving DecidableEq, Repr

inductive ShiftOp
  | sll | srl | sra
deriving DecidableEq, Repr

/-- Operations on two registers. -/
inductive RegOp
  | add | sub | sll | slt | sltu | xor | srl | sra | or | and
  | mul | mulh | mulhsu | mulhu | div | divu | rem | remu
deriving DecidableEq, Repr

/-- Operations on the lower words of two registers. -/
inductive RegOpW
  | addw | subw | sllw | srlw | sraw
  | mulw | divw | divuw | remw | remuw
deriving DecidableEq, Repr

inductive CsrOp
  | rw | rs | rc
deriving DecidableEq, Repr

inductive AmoOp
  | add | swap | sc | xor | or | and | min | max | minu | maxu
deriving DecidableEq, Repr

/-- The width of an atomic access: a word or a doubleword. -/
inductive AmoWidth
  | w | d
deriving DecidableEq, Repr

/-- Single or double precision. -/
inductive Prec
  | s | d
deriving DecidableEq, Repr

inductive FusedOp
  | madd | msub | nmsub | nmadd
deriving DecidableEq, Repr

inductive FpOp
  | add | sub | mul | div
deriving DecidableEq, Repr

inductive SgnjOp
  | sgnj | sgnjn | sgnjx
deriving DecidableEq, Repr

inductive MinMaxOp
  | min | max
deriving DecidableEq, Repr

inductive FcmpOp
  | le | lt | eq
deriving DecidableEq, Repr

/-- The integer of a conversion: a signed or unsigned word or doubleword. -/
inductive IntFmt
  | w | wu | l | lu
deriving DecidableEq, Repr

/-- The instructions. The immediates of branches and of `JAL` count halfwords; the precision
of a conversion between precisions is that of its result. -/
inductive Instr
  | lui (rd : BitVec 5) (imm : BitVec 20)
  | auipc (rd : BitVec 5) (imm : BitVec 20)
  | jal (rd : BitVec 5) (imm : BitVec 20)
  | jalr (rd rs1 : BitVec 5) (imm : BitVec 12)
  | branch (c : Cond) (rs1 rs2 : BitVec 5) (imm : BitVec 12)
  | load (k : LoadOp) (rd rs1 : BitVec 5) (imm : BitVec 12)
  | store (k : StoreOp) (rs1 rs2 : BitVec 5) (imm : BitVec 12)
  | opImm (k : ImmOp) (rd rs1 : BitVec 5) (imm : BitVec 12)
  | shiftImm (k : ShiftOp) (rd rs1 : BitVec 5) (shamt : BitVec 6)
  | addiw (rd rs1 : BitVec 5) (imm : BitVec 12)
  | shiftImmW (k : ShiftOp) (rd rs1 : BitVec 5) (shamt : BitVec 5)
  | op (k : RegOp) (rd rs1 rs2 : BitVec 5)
  | opW (k : RegOpW) (rd rs1 rs2 : BitVec 5)
  | fence (pred succ : BitVec 4)
  | fenceI
  | ecall | ebreak | sret | mret | dret | wfi
  | sfenceVma (rs1 rs2 : BitVec 5)
  | csr (k : CsrOp) (rd rs1 : BitVec 5) (addr : BitVec 12)
  | csrImm (k : CsrOp) (rd zimm : BitVec 5) (addr : BitVec 12)
  | lr (n : AmoWidth) (aqrl : BitVec 2) (rd rs1 : BitVec 5)
  | amo (k : AmoOp) (n : AmoWidth) (aqrl : BitVec 2) (rd rs1 rs2 : BitVec 5)
  | fload (p : Prec) (rd rs1 : BitVec 5) (imm : BitVec 12)
  | fstore (p : Prec) (rs1 rs2 : BitVec 5) (imm : BitVec 12)
  | fused (k : FusedOp) (p : Prec) (rd rs1 rs2 rs3 : BitVec 5) (rm : BitVec 3)
  | fpOp (k : FpOp) (p : Prec) (rd rs1 rs2 : BitVec 5) (rm : BitVec 3)
  | fsqrt (p : Prec) (rd rs1 : BitVec 5) (rm : BitVec 3)
  | fsgnj (k : SgnjOp) (p : Prec) (rd rs1 rs2 : BitVec 5)
  | fminMax (k : MinMaxOp) (p : Prec) (rd rs1 rs2 : BitVec 5)
  | fcmp (k : FcmpOp) (p : Prec) (rd rs1 rs2 : BitVec 5)
  | fcvtPrec (p : Prec) (rd rs1 : BitVec 5) (rm : BitVec 3)
  | fcvtToInt (n : IntFmt) (p : Prec) (rd rs1 : BitVec 5) (rm : BitVec 3)
  | fcvtOfInt (n : IntFmt) (p : Prec) (rd rs1 : BitVec 5) (rm : BitVec 3)
  | fmvToInt (p : Prec) (rd rs1 : BitVec 5)
  | fmvOfInt (p : Prec) (rd rs1 : BitVec 5)
  | fclass (p : Prec) (rd rs1 : BitVec 5)
deriving DecidableEq, Repr

/-! ### Formats -/

def rType (f7 : BitVec 7) (rs2 rs1 : BitVec 5) (f3 : BitVec 3) (rd : BitVec 5) (op : BitVec 7) :
    BitVec 32 :=
  f7 ++ rs2 ++ rs1 ++ f3 ++ rd ++ op

def iType (imm : BitVec 12) (rs1 : BitVec 5) (f3 : BitVec 3) (rd : BitVec 5) (op : BitVec 7) :
    BitVec 32 :=
  imm ++ rs1 ++ f3 ++ rd ++ op

def sType (imm : BitVec 12) (rs2 rs1 : BitVec 5) (f3 : BitVec 3) (op : BitVec 7) : BitVec 32 :=
  rType (imm.extractLsb' 5 7) rs2 rs1 f3 (imm.extractLsb' 0 5) op

/-- The immediate of a branch: `imm[12|10:5]` and `imm[4:1|11]`, without bit 0. -/
def bType (imm : BitVec 12) (rs2 rs1 : BitVec 5) (f3 : BitVec 3) (op : BitVec 7) : BitVec 32 :=
  rType (imm.extractLsb' 11 1 ++ imm.extractLsb' 4 6) rs2 rs1 f3
    (imm.extractLsb' 0 4 ++ imm.extractLsb' 10 1) op

def uType (imm : BitVec 20) (rd : BitVec 5) (op : BitVec 7) : BitVec 32 := imm ++ rd ++ op

/-- The immediate of a jump: `imm[20|10:1|11|19:12]`, without bit 0. -/
def jType (imm : BitVec 20) (rd : BitVec 5) (op : BitVec 7) : BitVec 32 :=
  uType (imm.extractLsb' 19 1 ++ imm.extractLsb' 0 10 ++ imm.extractLsb' 10 1 ++ imm.extractLsb' 11 8)
    rd op

/-! ### Encodings -/

def Cond.funct3 : Cond → BitVec 3
  | eq => 0b000
  | ne => 0b001
  | lt => 0b100
  | ge => 0b101
  | ltu => 0b110
  | geu => 0b111

def LoadOp.funct3 : LoadOp → BitVec 3
  | lb => 0b000
  | lh => 0b001
  | lw => 0b010
  | ld => 0b011
  | lbu => 0b100
  | lhu => 0b101
  | lwu => 0b110

def StoreOp.funct3 : StoreOp → BitVec 3
  | sb => 0b000
  | sh => 0b001
  | sw => 0b010
  | sd => 0b011

def ImmOp.funct3 : ImmOp → BitVec 3
  | addi => 0b000
  | slti => 0b010
  | sltiu => 0b011
  | xori => 0b100
  | ori => 0b110
  | andi => 0b111

def ShiftOp.funct3 : ShiftOp → BitVec 3
  | sll => 0b001
  | srl | sra => 0b101

/-- The upper six bits of the immediate of a shift. -/
def ShiftOp.funct6 : ShiftOp → BitVec 6
  | sll | srl => 0
  | sra => 0b010000

def RegOp.funct3 : RegOp → BitVec 3
  | add | sub | mul => 0b000
  | sll | mulh => 0b001
  | slt | mulhsu => 0b010
  | sltu | mulhu => 0b011
  | xor | div => 0b100
  | srl | sra | divu => 0b101
  | or | rem => 0b110
  | and | remu => 0b111

def RegOp.funct7 : RegOp → BitVec 7
  | add | sll | slt | sltu | xor | srl | or | and => 0
  | sub | sra => 0b0100000
  | mul | mulh | mulhsu | mulhu | div | divu | rem | remu => 0b0000001

def RegOpW.funct3 : RegOpW → BitVec 3
  | addw | subw | mulw => 0b000
  | sllw => 0b001
  | divw => 0b100
  | srlw | sraw | divuw => 0b101
  | remw => 0b110
  | remuw => 0b111

def RegOpW.funct7 : RegOpW → BitVec 7
  | addw | sllw | srlw => 0
  | subw | sraw => 0b0100000
  | mulw | divw | divuw | remw | remuw => 0b0000001

def CsrOp.funct3 : CsrOp → BitVec 3
  | rw => 0b001
  | rs => 0b010
  | rc => 0b011

def CsrOp.funct3Imm : CsrOp → BitVec 3
  | rw => 0b101
  | rs => 0b110
  | rc => 0b111

def AmoOp.funct5 : AmoOp → BitVec 5
  | add => 0b00000
  | swap => 0b00001
  | sc => 0b00011
  | xor => 0b00100
  | or => 0b01000
  | and => 0b01100
  | min => 0b10000
  | max => 0b10100
  | minu => 0b11000
  | maxu => 0b11100

def AmoWidth.funct3 : AmoWidth → BitVec 3
  | w => 0b010
  | d => 0b011

def Prec.fmt : Prec → BitVec 2
  | s => 0b00
  | d => 0b01

/-- The width of a floating-point load or store. -/
def Prec.funct3 : Prec → BitVec 3
  | s => 0b010
  | d => 0b011

def Prec.other : Prec → Prec
  | s => d
  | d => s

def FusedOp.opcode : FusedOp → BitVec 7
  | madd => 0b1000011
  | msub => 0b1000111
  | nmsub => 0b1001011
  | nmadd => 0b1001111

def FpOp.funct5 : FpOp → BitVec 5
  | add => 0b00000
  | sub => 0b00001
  | mul => 0b00010
  | div => 0b00011

def SgnjOp.rm : SgnjOp → BitVec 3
  | sgnj => 0b000
  | sgnjn => 0b001
  | sgnjx => 0b010

def MinMaxOp.rm : MinMaxOp → BitVec 3
  | min => 0b000
  | max => 0b001

def FcmpOp.rm : FcmpOp → BitVec 3
  | le => 0b000
  | lt => 0b001
  | eq => 0b010

def IntFmt.rs2 : IntFmt → BitVec 5
  | w => 0
  | wu => 1
  | l => 2
  | lu => 3

/-- The words of `OP-FP`. -/
def fpType (f5 : BitVec 5) (p : Prec) (rs2 rs1 : BitVec 5) (rm : BitVec 3) (rd : BitVec 5) : BitVec 32 :=
  rType (f5 ++ p.fmt) rs2 rs1 rm rd 0b1010011

/-- The privileged instructions without operands. -/
def privType (imm : BitVec 12) : BitVec 32 := iType imm 0 0b000 0 0b1110011

def encode : Instr → BitVec 32
  | .lui rd imm => uType imm rd 0b0110111
  | .auipc rd imm => uType imm rd 0b0010111
  | .jal rd imm => jType imm rd 0b1101111
  | .jalr rd rs1 imm => iType imm rs1 0b000 rd 0b1100111
  | .branch c rs1 rs2 imm => bType imm rs2 rs1 c.funct3 0b1100011
  | .load k rd rs1 imm => iType imm rs1 k.funct3 rd 0b0000011
  | .store k rs1 rs2 imm => sType imm rs2 rs1 k.funct3 0b0100011
  | .opImm k rd rs1 imm => iType imm rs1 k.funct3 rd 0b0010011
  | .shiftImm k rd rs1 shamt => iType (k.funct6 ++ shamt) rs1 k.funct3 rd 0b0010011
  | .addiw rd rs1 imm => iType imm rs1 0b000 rd 0b0011011
  | .shiftImmW k rd rs1 shamt => rType (k.funct6 ++ 0#1) shamt rs1 k.funct3 rd 0b0011011
  | .op k rd rs1 rs2 => rType k.funct7 rs2 rs1 k.funct3 rd 0b0110011
  | .opW k rd rs1 rs2 => rType k.funct7 rs2 rs1 k.funct3 rd 0b0111011
  | .fence pred succ => iType (0#4 ++ pred ++ succ) 0 0b000 0 0b0001111
  | .fenceI => iType 0 0 0b001 0 0b0001111
  | .ecall => privType 0x000
  | .ebreak => privType 0x001
  | .sret => privType 0x102
  | .mret => privType 0x302
  | .dret => privType 0x7b2
  | .wfi => privType 0x105
  | .sfenceVma rs1 rs2 => rType 0b0001001 rs2 rs1 0b000 0 0b1110011
  | .csr k rd rs1 addr => iType addr rs1 k.funct3 rd 0b1110011
  | .csrImm k rd zimm addr => iType addr zimm k.funct3Imm rd 0b1110011
  | .lr n aqrl rd rs1 => rType (0b00010#5 ++ aqrl) 0 rs1 n.funct3 rd 0b0101111
  | .amo k n aqrl rd rs1 rs2 => rType (k.funct5 ++ aqrl) rs2 rs1 n.funct3 rd 0b0101111
  | .fload p rd rs1 imm => iType imm rs1 p.funct3 rd 0b0000111
  | .fstore p rs1 rs2 imm => sType imm rs2 rs1 p.funct3 0b0100111
  | .fused k p rd rs1 rs2 rs3 rm => rType (rs3 ++ p.fmt) rs2 rs1 rm rd k.opcode
  | .fpOp k p rd rs1 rs2 rm => fpType k.funct5 p rs2 rs1 rm rd
  | .fsqrt p rd rs1 rm => fpType 0b01011 p 0 rs1 rm rd
  | .fsgnj k p rd rs1 rs2 => fpType 0b00100 p rs2 rs1 k.rm rd
  | .fminMax k p rd rs1 rs2 => fpType 0b00101 p rs2 rs1 k.rm rd
  | .fcmp k p rd rs1 rs2 => fpType 0b10100 p rs2 rs1 k.rm rd
  | .fcvtPrec p rd rs1 rm => fpType 0b01000 p (p.other.fmt.setWidth 5) rs1 rm rd
  | .fcvtToInt n p rd rs1 rm => fpType 0b11000 p n.rs2 rs1 rm rd
  | .fcvtOfInt n p rd rs1 rm => fpType 0b11010 p n.rs2 rs1 rm rd
  | .fmvToInt p rd rs1 => fpType 0b11100 p 0 rs1 0b000 rd
  | .fmvOfInt p rd rs1 => fpType 0b11110 p 0 rs1 0b000 rd
  | .fclass p rd rs1 => fpType 0b11100 p 0 rs1 0b001 rd

/-! ### Legal instructions -/

/-- What decides whether an instruction is legal. -/
structure State where
  priv : PrivLvl
  debugMode : Bool
  fs : Xs
  frm : BitVec 3
  tvm : Bool
  tw : Bool
  tsr : Bool

/-- A rounding mode: one of the five, or the dynamic one while `frm` holds one of them. -/
def rmLegal (rm frm : BitVec 3) : Prop := rm ≤ 0b100 ∨ (rm = 0b111 ∧ frm ≤ 0b100)

instance (rm frm : BitVec 3) : Decidable (rmLegal rm frm) := inferInstanceAs (Decidable (_ ∨ _))

/-- The floating-point state is switched on. -/
def State.fpOn (s : State) : Prop := s.fs ≠ Xs.off

/-- Supervisor instructions: not in user mode, and not in supervisor mode if `trap` says so. -/
def State.supervisor (s : State) (trap : Bool) : Prop :=
  s.priv ≠ privLvlU ∧ ¬(s.priv = privLvlS ∧ trap = true)

def Instr.Legal (s : State) : Instr → Prop
  | sret => s.supervisor s.tsr
  | mret => s.priv = privLvlM
  | dret => s.debugMode = true
  | wfi => s.supervisor s.tw
  | sfenceVma _ _ => s.supervisor s.tvm
  | fload .. | fstore .. | fsgnj .. | fminMax .. | fcmp .. | fmvToInt .. | fmvOfInt .. | fclass .. => s.fpOn
  | fused _ _ _ _ _ _ rm | fpOp _ _ _ _ _ rm | fsqrt _ _ _ rm | fcvtPrec _ _ _ rm
  | fcvtToInt _ _ _ _ rm | fcvtOfInt _ _ _ _ rm => s.fpOn ∧ rmLegal rm s.frm
  | _ => True

/-- The word is an instruction that is legal in the state. -/
def Legal (s : State) (w : BitVec 32) : Prop := ∃ i : Instr, encode i = w ∧ i.Legal s

end Isa
end Ariane

/-
# The compressed instructions

The 16-bit instructions of RV64GC: the instruction of `Instr` that a halfword stands for,
or that the halfword is reserved. An immediate is the union of its parts, each a few bits
of the halfword at their place, as in `tb/riscv-isa-sim/riscv/decode.h`; the immediates of
branches and of `JAL` count halfwords. Hints are the instructions they are hints of.
-/
import Ariane.Isa.Instr

namespace Ariane
namespace Isa
namespace Rvc

variable (h : BitVec 16)

/-! ### Fields -/

/-- The bits from `lo` on, `len` of them, at the place `k` of an immediate. -/
def part (n lo len k : ℕ) : BitVec n := (h.extractLsb' lo len).setWidth n <<< k

/-- Bit 12, the sign, from the place `k` on. -/
def sgn (n k : ℕ) : BitVec n := (h.extractLsb' 12 1).signExtend n <<< k

/-- Bit 12 and the five bits from bit 2 on. -/
def simm (n : ℕ) : BitVec n := part h n 2 5 0 ||| sgn h n 5
def shamt : BitVec 6 := part h 6 2 5 0 ||| part h 6 12 1 5

def addi4spnImm : BitVec 12 := part h 12 6 1 2 ||| part h 12 5 1 3 ||| part h 12 11 2 4 ||| part h 12 7 4 6
def addi16spImm : BitVec 12 :=
  part h 12 6 1 4 ||| part h 12 2 1 5 ||| part h 12 5 1 6 ||| part h 12 3 2 7 ||| sgn h 12 9

def lwImm : BitVec 12 := part h 12 6 1 2 ||| part h 12 10 3 3 ||| part h 12 5 1 6
def ldImm : BitVec 12 := part h 12 10 3 3 ||| part h 12 5 2 6
def lwspImm : BitVec 12 := part h 12 4 3 2 ||| part h 12 12 1 5 ||| part h 12 2 2 6
def ldspImm : BitVec 12 := part h 12 5 2 3 ||| part h 12 12 1 5 ||| part h 12 2 3 6
def swspImm : BitVec 12 := part h 12 9 4 2 ||| part h 12 7 2 6
def sdspImm : BitVec 12 := part h 12 10 3 3 ||| part h 12 7 3 6

def bImm : BitVec 12 :=
  part h 12 3 2 0 ||| part h 12 10 2 2 ||| part h 12 2 1 4 ||| part h 12 5 2 5 ||| sgn h 12 7
def jImm : BitVec 20 :=
  part h 20 3 3 0 ||| part h 20 11 1 3 ||| part h 20 2 1 4 ||| part h 20 7 1 5 ||| part h 20 6 1 6 |||
    part h 20 9 2 7 ||| part h 20 8 1 9 ||| sgn h 20 10

def rd : BitVec 5 := h.extractLsb' 7 5
def rs2 : BitVec 5 := h.extractLsb' 2 5

/-- The short fields name the registers 8 to 15. -/
def rs1s : BitVec 5 := 8 + (h.extractLsb' 7 3).setWidth 5
def rs2s : BitVec 5 := 8 + (h.extractLsb' 2 3).setWidth 5

/-! ### Instructions -/

def sp : BitVec 5 := 2

/-- Reserved, or else an instruction. -/
def reservedIf (reserved : Prop) [Decidable reserved] (i : Instr) : Option Instr :=
  if reserved then none else some i

def quadrant0 : Option Instr :=
  match h.extractLsb' 13 3 with
  | 0b000#3 => reservedIf (addi4spnImm h = 0) (.opImm .addi (rs2s h) sp (addi4spnImm h))
  | 0b001#3 => some (.fload .d (rs2s h) (rs1s h) (ldImm h))
  | 0b010#3 => some (.load .lw (rs2s h) (rs1s h) (lwImm h))
  | 0b011#3 => some (.load .ld (rs2s h) (rs1s h) (ldImm h))
  | 0b101#3 => some (.fstore .d (rs1s h) (rs2s h) (ldImm h))
  | 0b110#3 => some (.store .sw (rs1s h) (rs2s h) (lwImm h))
  | 0b111#3 => some (.store .sd (rs1s h) (rs2s h) (ldImm h))
  | _ => none

/-- The operations on two registers. -/
def alu : Option Instr :=
  match h.extractLsb' 12 1 ++ h.extractLsb' 5 2 with
  | 0b000#3 => some (.op .sub (rs1s h) (rs1s h) (rs2s h))
  | 0b001#3 => some (.op .xor (rs1s h) (rs1s h) (rs2s h))
  | 0b010#3 => some (.op .or (rs1s h) (rs1s h) (rs2s h))
  | 0b011#3 => some (.op .and (rs1s h) (rs1s h) (rs2s h))
  | 0b100#3 => some (.opW .subw (rs1s h) (rs1s h) (rs2s h))
  | 0b101#3 => some (.opW .addw (rs1s h) (rs1s h) (rs2s h))
  | _ => none

def miscAlu : Option Instr :=
  match h.extractLsb' 10 2 with
  | 0b00#2 => some (.shiftImm .srl (rs1s h) (rs1s h) (shamt h))
  | 0b01#2 => some (.shiftImm .sra (rs1s h) (rs1s h) (shamt h))
  | 0b10#2 => some (.opImm .andi (rs1s h) (rs1s h) (simm h 12))
  | _ => alu h

def quadrant1 : Option Instr :=
  match h.extractLsb' 13 3 with
  | 0b000#3 => some (.opImm .addi (rd h) (rd h) (simm h 12))
  | 0b001#3 => reservedIf (rd h = 0) (.addiw (rd h) (rd h) (simm h 12))
  | 0b010#3 => some (.opImm .addi (rd h) 0 (simm h 12))
  | 0b011#3 =>
    if rd h = sp then reservedIf (addi16spImm h = 0) (.opImm .addi sp sp (addi16spImm h))
    else reservedIf (simm h 20 = 0) (.lui (rd h) (simm h 20))
  | 0b100#3 => miscAlu h
  | 0b101#3 => some (.jal 0 (jImm h))
  | 0b110#3 => some (.branch .eq (rs1s h) 0 (bImm h))
  | _ => some (.branch .ne (rs1s h) 0 (bImm h))

/-- `C.JR`, `C.MV`, `C.EBREAK`, `C.JALR` and `C.ADD`. -/
def jumpMvAdd : Option Instr :=
  if h.extractLsb' 12 1 = 0 then
    if rs2 h = 0 then reservedIf (rd h = 0) (.jalr 0 (rd h) 0) else some (.op .add (rd h) 0 (rs2 h))
  else if rs2 h = 0 then
    if rd h = 0 then some .ebreak else some (.jalr 1 (rd h) 0)
  else some (.op .add (rd h) (rd h) (rs2 h))

def quadrant2 : Option Instr :=
  match h.extractLsb' 13 3 with
  | 0b000#3 => some (.shiftImm .sll (rd h) (rd h) (shamt h))
  | 0b001#3 => some (.fload .d (rd h) sp (ldspImm h))
  | 0b010#3 => reservedIf (rd h = 0) (.load .lw (rd h) sp (lwspImm h))
  | 0b011#3 => reservedIf (rd h = 0) (.load .ld (rd h) sp (ldspImm h))
  | 0b100#3 => jumpMvAdd h
  | 0b101#3 => some (.fstore .d sp (rs2 h) (sdspImm h))
  | 0b110#3 => some (.store .sw sp (rs2 h) (swspImm h))
  | _ => some (.store .sd sp (rs2 h) (sdspImm h))

/-- The instruction a halfword stands for. A halfword that ends in `11` is the lower half of a
longer instruction. -/
def instr : Option Instr :=
  match h.extractLsb' 0 2 with
  | 0b00#2 => quadrant0 h
  | 0b01#2 => quadrant1 h
  | 0b10#2 => quadrant2 h
  | _ => none

end Rvc
end Isa
end Ariane

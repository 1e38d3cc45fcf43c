/-
# What instructions compute

The integer computational instructions, the jumps and branches, and, apart, the divisions of
RV64IM: the register written, its value, and the address of the next instruction. Word
operations work on the lower halves and sign extend; shifts use as many bits of the amount
as the operand needs; the upper halves of products are those of products of integers.
-/
import Ariane.Isa.Instr

namespace Ariane
namespace Isa

/-- The integer registers; register zero holds zero. -/
structure Gpr where
  read : BitVec 5 → BitVec 64
  zero : read 0 = 0

/-- The register written, if any, with its value, and the address of the next instruction. -/
structure Result where
  write : Option (BitVec 5 × BitVec 64)
  nextPc : BitVec 64
deriving DecidableEq

/-! ### Operations -/

def Cond.holds (a b : BitVec 64) : Cond → Bool
  | eq => a == b
  | ne => a != b
  | lt => a.slt b
  | ge => b.sle a
  | ltu => a.ult b
  | geu => b.ule a

/-- A comparison as a number. -/
def flag (c : Bool) : BitVec 64 := if c then 1 else 0

def ImmOp.eval (a b : BitVec 64) : ImmOp → BitVec 64
  | addi => a + b
  | slti => flag (a.slt b)
  | sltiu => flag (a.ult b)
  | xori => a ^^^ b
  | ori => a ||| b
  | andi => a &&& b

def ShiftOp.eval {n : ℕ} (a : BitVec n) (shamt : ℕ) : ShiftOp → BitVec n
  | sll => a <<< shamt
  | srl => a >>> shamt
  | sra => a.sshiftRight shamt

/-- The upper half of a product of two integers. -/
def upperHalf (p : ℤ) : BitVec 64 := (BitVec.ofInt 128 p).extractLsb' 64 64

/-- Operations on two registers; divisions are left out. -/
def RegOp.eval (a b : BitVec 64) : RegOp → Option (BitVec 64)
  | add => some (a + b)
  | sub => some (a - b)
  | sll => some (ShiftOp.sll.eval a (b.extractLsb' 0 6).toNat)
  | slt => some (flag (a.slt b))
  | sltu => some (flag (a.ult b))
  | xor => some (a ^^^ b)
  | srl => some (ShiftOp.srl.eval a (b.extractLsb' 0 6).toNat)
  | sra => some (ShiftOp.sra.eval a (b.extractLsb' 0 6).toNat)
  | or => some (a ||| b)
  | and => some (a &&& b)
  | mul => some (a * b)
  | mulh => some (upperHalf (a.toInt * b.toInt))
  | mulhsu => some (upperHalf (a.toInt * b.toNat))
  | mulhu => some (upperHalf (a.toNat * b.toNat))
  | div | divu | rem | remu => none

/-- Operations on the lower words, before the sign extension. -/
def RegOpW.eval (a b : BitVec 32) : RegOpW → Option (BitVec 32)
  | addw => some (a + b)
  | subw => some (a - b)
  | sllw => some (ShiftOp.sll.eval a (b.extractLsb' 0 5).toNat)
  | srlw => some (ShiftOp.srl.eval a (b.extractLsb' 0 5).toNat)
  | sraw => some (ShiftOp.sra.eval a (b.extractLsb' 0 5).toNat)
  | mulw => some (a * b)
  | divw | divuw | remw | remuw => none

/-- The quotient, rounded towards zero: all ones if the divisor is zero, wrapped if it is out
of range. -/
def quotient {n : ℕ} (sgn : Bool) (a b : BitVec n) : BitVec n :=
  if b = 0 then BitVec.allOnes n
  else if sgn then BitVec.ofInt n (a.toInt.tdiv b.toInt)
  else BitVec.ofNat n (a.toNat / b.toNat)

/-- The remainder, of the sign of the dividend: the dividend if the divisor is zero. -/
def remainder {n : ℕ} (sgn : Bool) (a b : BitVec n) : BitVec n :=
  if b = 0 then a
  else if sgn then BitVec.ofInt n (a.toInt.tmod b.toInt)
  else BitVec.ofNat n (a.toNat % b.toNat)

/-- The divisions of registers. -/
def RegOp.divide (a b : BitVec 64) : RegOp → Option (BitVec 64)
  | div => some (quotient true a b)
  | divu => some (quotient false a b)
  | rem => some (remainder true a b)
  | remu => some (remainder false a b)
  | _ => none

/-- The divisions of lower words, before the sign extension. -/
def RegOpW.divide (a b : BitVec 32) : RegOpW → Option (BitVec 32)
  | divw => some (quotient true a b)
  | divuw => some (quotient false a b)
  | remw => some (remainder true a b)
  | remuw => some (remainder false a b)
  | _ => none

/-! ### Instructions -/

/-- The lower word of a register. -/
def word (a : BitVec 64) : BitVec 32 := a.setWidth 32

/-- The instruction at `pc`, `len` bytes long: none for loads, stores, divisions,
floating-point and system instructions. -/
def exec (pc len : BitVec 64) (g : Gpr) : Instr → Option Result
  | .lui rd imm => some ⟨some (rd, (imm ++ 0#12).signExtend 64), pc + len⟩
  | .auipc rd imm => some ⟨some (rd, pc + (imm ++ 0#12).signExtend 64), pc + len⟩
  | .jal rd imm => some ⟨some (rd, pc + len), pc + (imm ++ 0#1).signExtend 64⟩
  | .jalr rd rs1 imm => some ⟨some (rd, pc + len), (g.read rs1 + imm.signExtend 64) &&& ~~~1#64⟩
  | .branch c rs1 rs2 imm =>
    some ⟨none, if c.holds (g.read rs1) (g.read rs2) then pc + (imm ++ 0#1).signExtend 64 else pc + len⟩
  | .opImm k rd rs1 imm => some ⟨some (rd, k.eval (g.read rs1) (imm.signExtend 64)), pc + len⟩
  | .shiftImm k rd rs1 shamt => some ⟨some (rd, k.eval (g.read rs1) shamt.toNat), pc + len⟩
  | .addiw rd rs1 imm =>
    some ⟨some (rd, (word (g.read rs1) + imm.signExtend 32).signExtend 64), pc + len⟩
  | .shiftImmW k rd rs1 shamt =>
    some ⟨some (rd, (k.eval (word (g.read rs1)) shamt.toNat).signExtend 64), pc + len⟩
  | .op k rd rs1 rs2 => (k.eval (g.read rs1) (g.read rs2)).map fun v => ⟨some (rd, v), pc + len⟩
  | .opW k rd rs1 rs2 =>
    (k.eval (word (g.read rs1)) (word (g.read rs2))).map fun v =>
      ⟨some (rd, v.signExtend 64), pc + len⟩
  | _ => none

end Isa
end Ariane

/-
# Decoding instructions

The decoder at the words that encode instructions. `uop` is the operation the back end
gets for an instruction: the unit and its operation, the register addresses and the
immediate, as the units of the core expect them. `decodes_encode`: every instruction that
is legal in the state of the hart decodes to its operation.
-/
import Ariane.Decode.Decoder
import Ariane.Isa.Instr
import Ariane.Lib.Bits

namespace Ariane
namespace Decoder

open Riscv Isa Lib

/-! ### The fields of an encoded word -/

section Fields

variable (f7 : BitVec 7) (r2 r1 : BitVec 5) (f3 : BitVec 3) (d : BitVec 5) (op : BitVec 7)

theorem getLsbD_rType (k : ℕ) : (rType f7 r2 r1 f3 d op).getLsbD k =
    if k < 7 then op.getLsbD k
    else if k < 12 then d.getLsbD (k - 7)
    else if k < 15 then f3.getLsbD (k - 12)
    else if k < 20 then r1.getLsbD (k - 15)
    else if k < 25 then r2.getLsbD (k - 20)
    else f7.getLsbD (k - 25) := by
  show (f7 ++ r2 ++ r1 ++ f3 ++ d ++ op : BitVec (7 + 5 + 5 + 3 + 5 + 7)).getLsbD k = _
  simp only [BitVec.getLsbD_append]
  grind

theorem rType_inv {w : BitVec 32} (h : rType f7 r2 r1 f3 d op = w) :
    opcode w = op ∧ rd w = d ∧ funct3 w = f3 ∧ rs1 w = r1 ∧ rs2 w = r2 ∧ funct7 w = f7 := by
  subst h
  refine ⟨?_, ?_, ?_, ?_, ?_, ?_⟩ <;> apply extractLsb'_eq_of_getLsbD <;> intro k hk <;>
    rw [getLsbD_rType] <;> grind

/-- A word is made of its fields. -/
theorem rType_fields (w : BitVec 32) :
    rType (funct7 w) (rs2 w) (rs1 w) (funct3 w) (rd w) (opcode w) = w := by
  apply BitVec.eq_of_getLsbD_eq
  intro k hk
  rw [getLsbD_rType]
  simp only [funct7, rs2, rs1, funct3, rd, opcode, BitVec.getLsbD_extractLsb']
  grind

/-- Two fields that lie side by side. -/
theorem imm12_eq (w : BitVec 32) : imm12 w = funct7 w ++ rs2 w := by
  have h : (20 + 5 : ℕ) = 25 := rfl
  exact (BitVec.extractLsb'_append_extractLsb'_eq_extractLsb' h.symm).symm

/-- Fields of `funct7`. -/
theorem funct5_eq (w : BitVec 32) : funct5 w = (funct7 w).extractLsb' 2 5 := by
  rw [funct7, extractLsb'_extractLsb' w (by decide)]
  rfl

theorem fmt_eq (w : BitVec 32) : fmt w = (funct7 w).extractLsb' 0 2 := by
  rw [funct7, extractLsb'_extractLsb' w (by decide)]
  rfl

theorem rs3_eq (w : BitVec 32) : Decoder.rs3 w = funct5 w := rfl

/-! ### The other formats -/

theorem iType_eq (imm : BitVec 12) : iType imm r1 f3 d op =
    rType (imm.extractLsb' 5 7) (imm.extractLsb' 0 5) r1 f3 d op := by
  apply BitVec.eq_of_getLsbD_eq
  intro k hk
  rw [getLsbD_rType]
  show (imm ++ r1 ++ f3 ++ d ++ op : BitVec (12 + 5 + 3 + 5 + 7)).getLsbD k = _
  simp only [BitVec.getLsbD_append, BitVec.getLsbD_extractLsb']
  grind

theorem uType_eq (imm : BitVec 20) : uType imm d op =
    rType (imm.extractLsb' 13 7) (imm.extractLsb' 8 5) (imm.extractLsb' 3 5) (imm.extractLsb' 0 3) d op := by
  apply BitVec.eq_of_getLsbD_eq
  intro k hk
  rw [getLsbD_rType]
  show (imm ++ d ++ op : BitVec (20 + 5 + 7)).getLsbD k = _
  simp only [BitVec.getLsbD_append, BitVec.getLsbD_extractLsb']
  grind

theorem iType_inv {imm : BitVec 12} {w : BitVec 32} (h : iType imm r1 f3 d op = w) :
    opcode w = op ∧ rd w = d ∧ funct3 w = f3 ∧ rs1 w = r1 ∧ imm12 w = imm := by
  rw [iType_eq] at h
  obtain ⟨ho, hd, h3, h1, h2, h7⟩ := rType_inv _ _ _ _ _ _ h
  refine ⟨ho, hd, h3, h1, ?_⟩
  rw [imm12_eq, h7, h2]
  exact (BitVec.extractLsb'_append_extractLsb'_eq_extractLsb' rfl).trans (BitVec.extractLsb'_eq_self ..)

theorem iType_fields (w : BitVec 32) : iType (imm12 w) (rs1 w) (funct3 w) (rd w) (opcode w) = w := by
  have h7 : (imm12 w).extractLsb' 5 7 = funct7 w := extractLsb'_extractLsb' w (by decide)
  have h2 : (imm12 w).extractLsb' 0 5 = rs2 w := extractLsb'_extractLsb' w (by decide)
  rw [iType_eq, h7, h2, rType_fields]

theorem sType_fields (w : BitVec 32) :
    sType (funct7 w ++ rd w) (rs2 w) (rs1 w) (funct3 w) (opcode w) = w := by
  have h7 : (funct7 w ++ rd w).extractLsb' 5 7 = funct7 w := BitVec.extractLsb'_append_eq_left
  have hd : (funct7 w ++ rd w).extractLsb' 0 5 = rd w := BitVec.extractLsb'_append_eq_right
  rw [sType, h7, hd, rType_fields]

/-- The immediate of a branch, as a number of halfwords. -/
def bImm12 (w : BitVec 32) : BitVec 12 :=
  w.extractLsb' 31 1 ++ w.extractLsb' 7 1 ++ w.extractLsb' 25 6 ++ w.extractLsb' 8 4

theorem getLsbD_bImm12 (w : BitVec 32) (k : ℕ) : (bImm12 w).getLsbD k =
    if k < 4 then w.getLsbD (8 + k)
    else if k < 10 then w.getLsbD (21 + k)
    else if k = 10 then w.getLsbD 7
    else decide (k = 11) && w.getLsbD 31 := by
  show (w.extractLsb' 31 1 ++ w.extractLsb' 7 1 ++ w.extractLsb' 25 6 ++ w.extractLsb' 8 4 :
    BitVec (1 + 1 + 6 + 4)).getLsbD k = _
  simp only [BitVec.getLsbD_append, BitVec.getLsbD_extractLsb']
  grind

theorem getLsbD_bType (imm : BitVec 12) (k : ℕ) : (bType imm r2 r1 f3 op).getLsbD k =
    if k < 7 then op.getLsbD k
    else if k = 7 then imm.getLsbD 10
    else if k < 12 then imm.getLsbD (k - 8)
    else if k < 15 then f3.getLsbD (k - 12)
    else if k < 20 then r1.getLsbD (k - 15)
    else if k < 25 then r2.getLsbD (k - 20)
    else if k < 31 then imm.getLsbD (k - 21)
    else decide (k = 31) && imm.getLsbD 11 := by
  rw [bType, getLsbD_rType]
  simp only [BitVec.getLsbD_append, BitVec.getLsbD_extractLsb']
  grind

theorem bType_fields (w : BitVec 32) :
    bType (bImm12 w) (rs2 w) (rs1 w) (funct3 w) (opcode w) = w := by
  apply BitVec.eq_of_getLsbD_eq
  intro k hk
  rw [getLsbD_bType]
  simp only [rs2, rs1, funct3, opcode, BitVec.getLsbD_extractLsb', getLsbD_bImm12]
  grind

theorem bImm12_bType (imm : BitVec 12) : bImm12 (bType imm r2 r1 f3 op) = imm := by
  apply BitVec.eq_of_getLsbD_eq
  intro k hk
  rw [getLsbD_bImm12]
  simp only [getLsbD_bType]
  grind

/-- The immediate of an upper-immediate instruction. -/
def uImm20 (w : BitVec 32) : BitVec 20 := w.extractLsb' 12 20

theorem uType_fields (w : BitVec 32) : uType (uImm20 w) (rd w) (opcode w) = w := by
  have h7 : (uImm20 w).extractLsb' 13 7 = funct7 w := extractLsb'_extractLsb' w (by decide)
  have h2 : (uImm20 w).extractLsb' 8 5 = rs2 w := extractLsb'_extractLsb' w (by decide)
  have h1 : (uImm20 w).extractLsb' 3 5 = rs1 w := extractLsb'_extractLsb' w (by decide)
  have h3 : (uImm20 w).extractLsb' 0 3 = funct3 w := extractLsb'_extractLsb' w (by decide)
  rw [uType_eq, h7, h2, h1, h3, rType_fields]

theorem getLsbD_uType (imm : BitVec 20) (k : ℕ) : (uType imm d op).getLsbD k =
    if k < 7 then op.getLsbD k else if k < 12 then d.getLsbD (k - 7) else imm.getLsbD (k - 12) := by
  show (imm ++ d ++ op : BitVec (20 + 5 + 7)).getLsbD k = _
  simp only [BitVec.getLsbD_append]
  grind

theorem uImm20_uType (imm : BitVec 20) : uImm20 (uType imm d op) = imm := by
  apply extractLsb'_eq_of_getLsbD
  intro k hk
  rw [getLsbD_uType]
  grind

/-- The immediate of a jump, as a number of halfwords. -/
def jImm20 (w : BitVec 32) : BitVec 20 :=
  w.extractLsb' 31 1 ++ w.extractLsb' 12 8 ++ w.extractLsb' 20 1 ++ w.extractLsb' 21 10

theorem getLsbD_jImm20 (w : BitVec 32) (k : ℕ) : (jImm20 w).getLsbD k =
    if k < 10 then w.getLsbD (21 + k)
    else if k = 10 then w.getLsbD 20
    else if k < 19 then w.getLsbD (1 + k)
    else decide (k = 19) && w.getLsbD 31 := by
  show (w.extractLsb' 31 1 ++ w.extractLsb' 12 8 ++ w.extractLsb' 20 1 ++ w.extractLsb' 21 10 :
    BitVec (1 + 8 + 1 + 10)).getLsbD k = _
  simp only [BitVec.getLsbD_append, BitVec.getLsbD_extractLsb']
  grind

theorem getLsbD_jType (imm : BitVec 20) (k : ℕ) : (jType imm d op).getLsbD k =
    if k < 7 then op.getLsbD k
    else if k < 12 then d.getLsbD (k - 7)
    else if k < 20 then imm.getLsbD (k - 1)
    else if k = 20 then imm.getLsbD 10
    else if k < 31 then imm.getLsbD (k - 21)
    else decide (k = 31) && imm.getLsbD 19 := by
  rw [jType, getLsbD_uType]
  simp only [BitVec.getLsbD_append, BitVec.getLsbD_extractLsb']
  grind

theorem jType_fields (w : BitVec 32) : jType (jImm20 w) (rd w) (opcode w) = w := by
  apply BitVec.eq_of_getLsbD_eq
  intro k hk
  rw [getLsbD_jType]
  simp only [rd, opcode, BitVec.getLsbD_extractLsb', getLsbD_jImm20]
  grind

theorem jImm20_jType (imm : BitVec 20) : jImm20 (jType imm d op) = imm := by
  apply BitVec.eq_of_getLsbD_eq
  intro k hk
  rw [getLsbD_jImm20]
  simp only [getLsbD_jType]
  grind

theorem sType_inv {imm : BitVec 12} {w : BitVec 32} (h : sType imm r2 r1 f3 op = w) :
    opcode w = op ∧ funct3 w = f3 ∧ rs1 w = r1 ∧ rs2 w = r2 ∧ sImm w = imm.signExtend 64 := by
  obtain ⟨ho, hd, h3, h1, h2, h7⟩ := rType_inv _ _ _ _ _ _ h
  refine ⟨ho, h3, h1, h2, ?_⟩
  have hi : (funct7 w ++ rd w : BitVec 12) = imm := by
    rw [h7, hd]
    exact (BitVec.extractLsb'_append_extractLsb'_eq_extractLsb' rfl).trans
      (BitVec.extractLsb'_eq_self ..)
  exact congrArg (BitVec.signExtend 64) hi

theorem bType_inv {imm : BitVec 12} {w : BitVec 32} (h : bType imm r2 r1 f3 op = w) :
    opcode w = op ∧ funct3 w = f3 ∧ rs1 w = r1 ∧ rs2 w = r2 ∧
      sbImm w = (imm ++ 0#1).signExtend 64 := by
  obtain ⟨ho, -, h3, h1, h2, -⟩ := rType_inv _ _ _ _ _ _ h
  refine ⟨ho, h3, h1, h2, ?_⟩
  have hi : bImm12 w = imm := by rw [← h, bImm12_bType]
  exact congrArg (fun i : BitVec 12 => (i ++ 0#1).signExtend 64) hi

theorem uType_inv {imm : BitVec 20} {w : BitVec 32} (h : uType imm d op = w) :
    opcode w = op ∧ rd w = d ∧ uImm w = (imm ++ 0#12).signExtend 64 := by
  have hi : uImm20 w = imm := by rw [← h, uImm20_uType]
  rw [uType_eq] at h
  obtain ⟨ho, hd, -⟩ := rType_inv _ _ _ _ _ _ h
  exact ⟨ho, hd, congrArg (fun i : BitVec 20 => (i ++ 0#12).signExtend 64) hi⟩

theorem jType_inv {imm : BitVec 20} {w : BitVec 32} (h : jType imm d op = w) :
    opcode w = op ∧ rd w = d ∧ ujImm w = (imm ++ 0#1).signExtend 64 := by
  have hi : jImm20 w = imm := by rw [← h, jImm20_jType]
  obtain ⟨ho, hd, -⟩ := uType_inv _ _ h
  exact ⟨ho, hd, congrArg (fun i : BitVec 20 => (i ++ 0#1).signExtend 64) hi⟩

theorem extract_append_fmt (f5 : BitVec 5) (f2 : BitVec 2) :
    (f5 ++ f2).extractLsb' 2 5 = f5 ∧ (f5 ++ f2).extractLsb' 0 2 = f2 :=
  ⟨BitVec.extractLsb'_append_eq_left, BitVec.extractLsb'_append_eq_right⟩

theorem fpType_inv {f5 : BitVec 5} {p : Prec} {w : BitVec 32} (h : fpType f5 p r2 r1 f3 d = w) :
    opcode w = 0b1010011 ∧ rd w = d ∧ funct3 w = f3 ∧ rs1 w = r1 ∧ rs2 w = r2 ∧ funct5 w = f5 ∧
      fmt w = p.fmt ∧ imm12 w = f5 ++ p.fmt ++ r2 := by
  obtain ⟨ho, hd, h3, h1, h2, h7⟩ := rType_inv _ _ _ _ _ _ h
  refine ⟨ho, hd, h3, h1, h2, ?_, ?_, ?_⟩
  · rw [funct5_eq, h7, (extract_append_fmt _ _).1]
  · rw [fmt_eq, h7, (extract_append_fmt _ _).2]
  · rw [imm12_eq, h7, h2]

end Fields
end Decoder

/-! ### Operations of the back end -/

/-- What the decoder passes on of an instruction. -/
structure Uop where
  fu : Fu
  op : FuOp
  rs1 : BitVec 6 := 0
  rs2 : BitVec 6 := 0
  rd : BitVec 6 := 0
  imm : BitVec 64 := 0
  useImm : Bool := false
  useZimm : Bool := false
  usePc : Bool := false
deriving DecidableEq, Repr

def IssueEntry.uop (e : IssueEntry) : Uop :=
  ⟨e.fu, e.op, e.rs1, e.rs2, e.rd, e.result, e.useImm, e.useZimm, e.usePc⟩

namespace Isa

/-- An operation with a signed immediate. -/
def immUop {n : ℕ} (imm : BitVec n) (u : Uop) : Uop := { u with imm := imm.signExtend 64, useImm := true }

def Cond.fuOp : Cond → FuOp
  | eq => .eq
  | ne => .ne
  | lt => .lts
  | ge => .ges
  | ltu => .ltu
  | geu => .geu

def LoadOp.fuOp : LoadOp → FuOp
  | lb => .lb
  | lh => .lh
  | lw => .lw
  | ld => .ld
  | lbu => .lbu
  | lhu => .lhu
  | lwu => .lwu

def StoreOp.fuOp : StoreOp → FuOp
  | sb => .sb
  | sh => .sh
  | sw => .sw
  | sd => .sd

def ImmOp.fuOp : ImmOp → FuOp
  | addi => .add
  | slti => .slts
  | sltiu => .sltu
  | xori => .xorl
  | ori => .orl
  | andi => .andl

def ShiftOp.fuOp : ShiftOp → FuOp
  | sll => .sll
  | srl => .srl
  | sra => .sra

def ShiftOp.fuOpW : ShiftOp → FuOp
  | sll => .sllw
  | srl => .srlw
  | sra => .sraw

def RegOp.fuOp : RegOp → FuOp
  | add => .add
  | sub => .sub
  | sll => .sll
  | slt => .slts
  | sltu => .sltu
  | xor => .xorl
  | srl => .srl
  | sra => .sra
  | or => .orl
  | and => .andl
  | mul => .mul
  | mulh => .mulh
  | mulhsu => .mulhsu
  | mulhu => .mulhu
  | div => .div
  | divu => .divu
  | rem => .rem
  | remu => .remu

def RegOp.fu : RegOp → Fu
  | mul | mulh | mulhsu | mulhu | div | divu | rem | remu => .mult
  | _ => .alu

def RegOpW.fuOp : RegOpW → FuOp
  | addw => .addw
  | subw => .subw
  | sllw => .sllw
  | srlw => .srlw
  | sraw => .sraw
  | mulw => .mulw
  | divw => .divw
  | divuw => .divuw
  | remw => .remw
  | remuw => .remuw

def RegOpW.fu : RegOpW → Fu
  | mulw | divw | divuw | remw | remuw => .mult
  | _ => .alu

/-- A set or clear without a source only reads. -/
def CsrOp.fuOp (src : BitVec 5) : CsrOp → FuOp
  | rw => .csrWrite
  | rs => if src = 0 then .csrRead else .csrSet
  | rc => if src = 0 then .csrRead else .csrClear

def AmoOp.fuOp : AmoOp → AmoWidth → FuOp
  | add, .w => .amoAddw
  | add, .d => .amoAddd
  | swap, .w => .amoSwapw
  | swap, .d => .amoSwapd
  | sc, .w => .amoScw
  | sc, .d => .amoScd
  | xor, .w => .amoXorw
  | xor, .d => .amoXord
  | or, .w => .amoOrw
  | or, .d => .amoOrd
  | and, .w => .amoAndw
  | and, .d => .amoAndd
  | min, .w => .amoMinw
  | min, .d => .amoMind
  | max, .w => .amoMaxw
  | max, .d => .amoMaxd
  | minu, .w => .amoMinwu
  | minu, .d => .amoMindu
  | maxu, .w => .amoMaxwu
  | maxu, .d => .amoMaxdu

def AmoWidth.lrOp : AmoWidth → FuOp
  | w => .amoLrw
  | d => .amoLrd

def Prec.loadOp : Prec → FuOp
  | s => .flw
  | d => .fld

def Prec.storeOp : Prec → FuOp
  | s => .fsw
  | d => .fsd

def FusedOp.fuOp : FusedOp → FuOp
  | madd => .fmadd
  | msub => .fmsub
  | nmsub => .fnmsub
  | nmadd => .fnmadd

/-- A register address of an instruction, as one of six bits. -/
def reg (r : BitVec 5) : BitVec 6 := r.setWidth 6

/-- The operands of an addition are the second and the third of the unit, the third one named
by the immediate. -/
def FpOp.uop (k : FpOp) (p : Prec) (rd rs1 rs2 : BitVec 5) : Uop :=
  match k with
  | add => immUop (k.funct5 ++ p.fmt ++ rs2) { fu := .fpu, op := .fadd, rs2 := reg rs1, rd := reg rd }
  | sub => immUop (k.funct5 ++ p.fmt ++ rs2) { fu := .fpu, op := .fsub, rs2 := reg rs1, rd := reg rd }
  | mul => { fu := .fpu, op := .fmul, rs1 := reg rs1, rs2 := reg rs2, rd := reg rd }
  | div => { fu := .fpu, op := .fdiv, rs1 := reg rs1, rs2 := reg rs2, rd := reg rd }

/-- The operation of an instruction. `ECALL` and `EBREAK` only raise their exception.
`SFENCE.VMA` empties the whole TLB and needs no second operand. Conversions pass the field of
the second register on, for the other format. -/
def Instr.uop : Instr → Uop
  | lui rd imm => immUop (imm ++ 0#12) { fu := .alu, op := .add, rd := reg rd }
  | auipc rd imm => immUop (imm ++ 0#12) { fu := .alu, op := .add, rd := reg rd, usePc := true }
  | jal rd imm => immUop (imm ++ 0#1) { fu := .ctrlFlow, op := .add, rd := reg rd }
  | jalr rd rs1 imm => immUop imm { fu := .ctrlFlow, op := .jalr, rs1 := reg rs1, rd := reg rd }
  | branch c rs1 rs2 imm =>
    immUop (imm ++ 0#1) { fu := .ctrlFlow, op := c.fuOp, rs1 := reg rs1, rs2 := reg rs2 }
  | load k rd rs1 imm => immUop imm { fu := .load, op := k.fuOp, rs1 := reg rs1, rd := reg rd }
  | store k rs1 rs2 imm => immUop imm { fu := .store, op := k.fuOp, rs1 := reg rs1, rs2 := reg rs2 }
  | opImm k rd rs1 imm => immUop imm { fu := .alu, op := k.fuOp, rs1 := reg rs1, rd := reg rd }
  | shiftImm k rd rs1 shamt =>
    immUop (k.funct6 ++ shamt) { fu := .alu, op := k.fuOp, rs1 := reg rs1, rd := reg rd }
  | addiw rd rs1 imm => immUop imm { fu := .alu, op := .addw, rs1 := reg rs1, rd := reg rd }
  | shiftImmW k rd rs1 shamt =>
    immUop (k.funct6 ++ 0#1 ++ shamt) { fu := .alu, op := k.fuOpW, rs1 := reg rs1, rd := reg rd }
  | op k rd rs1 rs2 => { fu := k.fu, op := k.fuOp, rs1 := reg rs1, rs2 := reg rs2, rd := reg rd }
  | opW k rd rs1 rs2 => { fu := k.fu, op := k.fuOp, rs1 := reg rs1, rs2 := reg rs2, rd := reg rd }
  | fence _ _ => { fu := .csr, op := .fence }
  | fenceI => { fu := .csr, op := .fenceI }
  | ecall | ebreak => { fu := .csr, op := .add }
  | sret => { fu := .csr, op := .sret }
  | mret => { fu := .csr, op := .mret }
  | dret => { fu := .csr, op := .dret }
  | wfi => { fu := .csr, op := .wfi }
  | sfenceVma rs1 _ => { fu := .csr, op := .sfenceVma, rs1 := reg rs1 }
  | csr k rd rs1 addr => immUop addr { fu := .csr, op := k.fuOp rs1, rs1 := reg rs1, rd := reg rd }
  | csrImm k rd zimm addr =>
    immUop addr { fu := .csr, op := k.fuOp zimm, rs1 := reg zimm, rd := reg rd, useZimm := true }
  | lr n _ rd rs1 => { fu := .store, op := n.lrOp, rs1 := reg rs1, rd := reg rd }
  | amo k n _ rd rs1 rs2 =>
    { fu := .store, op := k.fuOp n, rs1 := reg rs1, rs2 := reg rs2, rd := reg rd }
  | fload p rd rs1 imm => immUop imm { fu := .load, op := p.loadOp, rs1 := reg rs1, rd := reg rd }
  | fstore p rs1 rs2 imm => immUop imm { fu := .store, op := p.storeOp, rs1 := reg rs1, rs2 := reg rs2 }
  | fused k _ rd rs1 rs2 rs3 _ =>
    { fu := .fpu, op := k.fuOp, rs1 := reg rs1, rs2 := reg rs2, rd := reg rd, imm := rs3.setWidth 64 }
  | fpOp k p rd rs1 rs2 _ => k.uop p rd rs1 rs2
  | fsqrt _ rd rs1 _ => { fu := .fpu, op := .fsqrt, rs1 := reg rs1, rd := reg rd }
  | fsgnj _ _ rd rs1 rs2 => { fu := .fpu, op := .fsgnj, rs1 := reg rs1, rs2 := reg rs2, rd := reg rd }
  | fminMax _ _ rd rs1 rs2 =>
    { fu := .fpu, op := .fminMax, rs1 := reg rs1, rs2 := reg rs2, rd := reg rd }
  | fcmp _ _ rd rs1 rs2 => { fu := .fpu, op := .fcmp, rs1 := reg rs1, rs2 := reg rs2, rd := reg rd }
  | fcvtPrec p rd rs1 _ =>
    immUop (0b01000#5 ++ p.fmt ++ p.other.fmt.setWidth 5)
      { fu := .fpu, op := .fcvtF2f, rs1 := reg rs1, rs2 := reg rs1, rd := reg rd }
  | fcvtToInt n p rd rs1 _ =>
    immUop (0b11000#5 ++ p.fmt ++ n.rs2)
      { fu := .fpu, op := .fcvtF2i, rs1 := reg rs1, rs2 := reg n.rs2, rd := reg rd }
  | fcvtOfInt n p rd rs1 _ =>
    immUop (0b11010#5 ++ p.fmt ++ n.rs2)
      { fu := .fpu, op := .fcvtI2f, rs1 := reg rs1, rs2 := reg n.rs2, rd := reg rd }
  | fmvToInt _ rd rs1 => { fu := .fpu, op := .fmvF2x, rs1 := reg rs1, rs2 := reg rs1, rd := reg rd }
  | fmvOfInt _ rd rs1 => { fu := .fpu, op := .fmvX2f, rs1 := reg rs1, rs2 := reg rs1, rd := reg rd }
  | fclass _ rd rs1 => { fu := .fpu, op := .fclass, rs1 := reg rs1, rs2 := reg rs1, rd := reg rd }

end Isa

/-! ### The decoder at an encoded word -/

namespace Decoder

open Riscv Isa

variable {x : In}

/-- The state that decides whether an instruction is legal. -/
def In.state (x : In) : State := ⟨x.privLvl, x.debugMode, x.fs, x.frm, x.tvm, x.tw, x.tsr⟩

def Decoded.uop (d : Decoded) (w : BitVec 32) : Uop :=
  ⟨d.fu, d.op, d.rs1, d.rs2, d.rd, (signExtend w d.immSelect).1, (signExtend w d.immSelect).2,
    d.useZimm, d.usePc⟩

theorem uop_instructionO : (instructionO x).uop = (decode x).uop x.instruction := rfl

attribute [local simp] Decoded.uop In.rs1 In.rs2 In.rd signExtend Instr.uop immUop reg defaults

/-- The outputs of the decoder are those of an instruction. -/
structure Decoded.Is (d : Decoded) (w : BitVec 32) (i : Instr) : Prop where
  legal : d.illegalInstr = false
  uop : d.uop w = i.uop
  ecall : d.ecall = decide (i = .ecall)
  ebreak : d.ebreak = decide (i = .ebreak)

theorem iImm_eq (w : BitVec 32) : iImm w = (imm12 w).signExtend 64 := rfl

theorem is_upper {d : BitVec 5} {imm : BitVec 20} :
    (encode (.lui d imm) = x.instruction → (decodeLui x).Is x.instruction (.lui d imm)) ∧
    (encode (.auipc d imm) = x.instruction → (decodeAuipc x).Is x.instruction (.auipc d imm)) := by
  constructor
  · intro hw
    obtain ⟨-, hd, hi⟩ := uType_inv _ _ hw
    constructor <;>
      simp [decodeLui, hd, hi]
  · intro hw
    obtain ⟨-, hd, hi⟩ := uType_inv _ _ hw
    constructor <;>
      simp [decodeAuipc, hd, hi]

theorem is_jal {d : BitVec 5} {imm : BitVec 20} (hw : encode (.jal d imm) = x.instruction) :
    (decodeJal x).Is x.instruction (.jal d imm) := by
  obtain ⟨-, hd, hi⟩ := jType_inv _ _ hw
  constructor <;>
    simp [decodeJal, hd, hi]

theorem is_jalr {d r : BitVec 5} {imm : BitVec 12} (hw : encode (.jalr d r imm) = x.instruction) :
    (decodeJalr x).Is x.instruction (.jalr d r imm) := by
  obtain ⟨-, hd, h3, h1, hi⟩ := iType_inv _ _ _ _ hw
  constructor <;>
    simp [decodeJalr, hd, h3, h1, hi, iImm_eq]

theorem is_branch {c : Cond} {r1 r2 : BitVec 5} {imm : BitVec 12}
    (hw : encode (.branch c r1 r2 imm) = x.instruction) :
    (decodeBranch x).Is x.instruction (.branch c r1 r2 imm) := by
  obtain ⟨-, h3, h1, h2, hi⟩ := bType_inv _ _ _ _ hw
  have ht : branchTable c.funct3 = some c.fuOp := by cases c <;> rfl
  constructor <;>
    simp [decodeBranch, Decoded.table, h3, h1, h2, hi, ht]

theorem is_load {k : LoadOp} {d r : BitVec 5} {imm : BitVec 12}
    (hw : encode (.load k d r imm) = x.instruction) :
    (decodeLoad x).Is x.instruction (.load k d r imm) := by
  obtain ⟨-, hd, h3, h1, hi⟩ := iType_inv _ _ _ _ hw
  have ht : loadTable k.funct3 = some k.fuOp := by cases k <;> rfl
  constructor <;>
    simp [decodeLoad, Decoded.table, hd, h3, h1, hi, ht, iImm_eq]

theorem is_store {k : StoreOp} {r1 r2 : BitVec 5} {imm : BitVec 12}
    (hw : encode (.store k r1 r2 imm) = x.instruction) :
    (decodeStore x).Is x.instruction (.store k r1 r2 imm) := by
  obtain ⟨-, h3, h1, h2, hi⟩ := sType_inv _ _ _ _ hw
  have ht : storeTable k.funct3 = some k.fuOp := by cases k <;> rfl
  constructor <;>
    simp [decodeStore, Decoded.table, h3, h1, h2, hi, ht]

theorem is_opImm {k : ImmOp} {d r : BitVec 5} {imm : BitVec 12}
    (hw : encode (.opImm k d r imm) = x.instruction) :
    (decodeOpImm x).Is x.instruction (.opImm k d r imm) := by
  obtain ⟨-, hd, h3, h1, hi⟩ := iType_inv _ _ _ _ hw
  have ht : opImmTable x.instruction = some k.fuOp := by
    rw [opImmTable, h3]
    cases k <;> rfl
  have hn : k.funct3 ≠ 0b001#3 := by cases k <;> decide
  constructor <;>
    simp [decodeOpImm, Decoded.table, hd, h3, h1, hi, ht, hn, iImm_eq]

theorem is_shiftImm {k : ShiftOp} {d r : BitVec 5} {shamt : BitVec 6}
    (hw : encode (.shiftImm k d r shamt) = x.instruction) :
    (decodeOpImm x).Is x.instruction (.shiftImm k d r shamt) := by
  obtain ⟨-, hd, h3, h1, hi⟩ := iType_inv _ _ _ _ hw
  have h6 : x.instruction.extractLsb' 26 6 = k.funct6 := by
    have h : (imm12 x.instruction).extractLsb' 6 6 = x.instruction.extractLsb' 26 6 :=
      Lib.extractLsb'_extractLsb' _ (by decide)
    rw [← h, hi, BitVec.extractLsb'_append_eq_left]
  have ht : opImmTable x.instruction = some k.fuOp := by
    rw [opImmTable, h3, h6]
    cases k <;> rfl
  have hn : (k.funct3 == 0b001#3 && k.funct6 != 0#6) = false := by cases k <;> rfl
  constructor <;>
    simp [decodeOpImm, Decoded.table, hd, h3, h1, h6, hi, ht, hn, iImm_eq]

theorem is_addiw {d r : BitVec 5} {imm : BitVec 12} (hw : encode (.addiw d r imm) = x.instruction) :
    (decodeOpImm32 x).Is x.instruction (.addiw d r imm) := by
  obtain ⟨-, hd, h3, h1, hi⟩ := iType_inv _ _ _ _ hw
  have ht : opImm32Table x.instruction = some .addw := by
    rw [opImm32Table, h3]
    rfl
  constructor <;>
    simp [decodeOpImm32, Decoded.table, hd, h3, h1, hi, ht, iImm_eq]

theorem is_shiftImmW {k : ShiftOp} {d r shamt : BitVec 5}
    (hw : encode (.shiftImmW k d r shamt) = x.instruction) :
    (decodeOpImm32 x).Is x.instruction (.shiftImmW k d r shamt) := by
  obtain ⟨-, hd, h3, h1, h2, h7⟩ := rType_inv _ _ _ _ _ _ hw
  have hi : imm12 x.instruction = k.funct6 ++ 0#1 ++ shamt := by rw [imm12_eq, h7, h2]
  have ht : opImm32Table x.instruction = some k.fuOpW := by
    rw [opImm32Table, h3, h7]
    cases k <;> rfl
  have hn : (k.funct3 == 0b001#3 && k.funct6 ++ 0#1 != 0#7) = false := by cases k <;> rfl
  constructor <;>
    simp [decodeOpImm32, Decoded.table, hd, h3, h1, h7, hi, ht, hn, iImm_eq]

theorem is_op {k : RegOp} {d r1 r2 : BitVec 5} (hw : encode (.op k d r1 r2) = x.instruction) :
    (decodeOp x).Is x.instruction (.op k d r1 r2) := by
  obtain ⟨-, hd, h3, h1, h2, h7⟩ := rType_inv _ _ _ _ _ _ hw
  have hp : x.instruction.extractLsb' 30 2 ≠ 0b10#2 := by
    have h : (funct7 x.instruction).extractLsb' 5 2 = x.instruction.extractLsb' 30 2 :=
      Lib.extractLsb'_extractLsb' _ (by decide)
    rw [← h, h7]
    cases k <;> decide
  have ht : opTable k.funct7 k.funct3 = some k.fuOp := by cases k <;> rfl
  have hfu : (if k.funct7 = 0b0000001#7 then .mult else .alu : Fu) = k.fu := by cases k <;> rfl
  constructor <;>
    simp [decodeOp, regReg, hp, Decoded.table, hd, h3, h1, h2, h7, ht, hfu]

theorem is_opW {k : RegOpW} {d r1 r2 : BitVec 5} (hw : encode (.opW k d r1 r2) = x.instruction) :
    (decodeOp32 x).Is x.instruction (.opW k d r1 r2) := by
  obtain ⟨-, hd, h3, h1, h2, h7⟩ := rType_inv _ _ _ _ _ _ hw
  have ht : op32Table k.funct7 k.funct3 = some k.fuOp := by cases k <;> rfl
  have hfu : (if k.funct7 = 0b0000001#7 then .mult else .alu : Fu) = k.fu := by cases k <;> rfl
  constructor <;>
    simp [decodeOp32, regReg, Decoded.table, hd, h3, h1, h2, h7, ht, hfu]

theorem is_fence {p q : BitVec 4} (hw : encode (.fence p q) = x.instruction) :
    (decodeMiscMem x).Is x.instruction (.fence p q) := by
  obtain ⟨-, hd, h3, h1, hi⟩ := iType_inv _ _ _ _ hw
  have h4 : x.instruction.extractLsb' 28 4 = 0#4 := by
    have h : (imm12 x.instruction).extractLsb' 8 4 = x.instruction.extractLsb' 28 4 :=
      Lib.extractLsb'_extractLsb' _ (by decide)
    rw [← h, hi, BitVec.append_assoc]
    exact BitVec.extractLsb'_append_eq_left
  constructor <;>
    simp [decodeMiscMem, hd, h3, h1, h4]

theorem is_fenceI (hw : encode .fenceI = x.instruction) :
    (decodeMiscMem x).Is x.instruction .fenceI := by
  obtain ⟨-, hd, h3, h1, hi⟩ := iType_inv _ _ _ _ hw
  have h4 : x.instruction.extractLsb' 28 4 = 0#4 := by
    have h : (imm12 x.instruction).extractLsb' 8 4 = x.instruction.extractLsb' 28 4 :=
      Lib.extractLsb'_extractLsb' _ (by decide)
    rw [← h, hi]
    rfl
  constructor <;>
    simp [decodeMiscMem, hd, h3, h1, hi, h4]

theorem is_csr {k : CsrOp} {d r : BitVec 5} {addr : BitVec 12}
    (hw : encode (.csr k d r addr) = x.instruction) :
    (decodeSystem x).Is x.instruction (.csr k d r addr) := by
  obtain ⟨-, hd, h3, h1, hi⟩ := iType_inv _ _ _ _ hw
  cases k <;> constructor <;>
    simp [decodeSystem, csrSetOrRead, hd, h3, h1, hi, CsrOp.funct3, CsrOp.fuOp, iImm_eq]

theorem is_csrImm {k : CsrOp} {d z : BitVec 5} {addr : BitVec 12}
    (hw : encode (.csrImm k d z addr) = x.instruction) :
    (decodeSystem x).Is x.instruction (.csrImm k d z addr) := by
  obtain ⟨-, hd, h3, h1, hi⟩ := iType_inv _ _ _ _ hw
  cases k <;> constructor <;>
    simp [decodeSystem, csrSetOrRead, hd, h3, h1, hi, CsrOp.funct3Imm, CsrOp.fuOp, iImm_eq]

/-- The privileged instructions without operands are told apart by their immediate. -/
theorem is_ecall (hw : encode .ecall = x.instruction) : (decodeSystem x).Is x.instruction .ecall := by
  obtain ⟨-, hd, h3, h1, hi⟩ := iType_inv _ _ _ _ hw
  constructor <;>
    simp [decodeSystem, systemPriv, hd, h3, h1, hi]

theorem is_ebreak (hw : encode .ebreak = x.instruction) :
    (decodeSystem x).Is x.instruction .ebreak := by
  obtain ⟨-, hd, h3, h1, hi⟩ := iType_inv _ _ _ _ hw
  constructor <;>
    simp [decodeSystem, systemPriv, hd, h3, h1, hi]

theorem is_sret (hw : encode .sret = x.instruction) (hl : x.state.supervisor x.tsr) :
    (decodeSystem x).Is x.instruction .sret := by
  obtain ⟨-, hd, h3, h1, hi⟩ := iType_inv _ _ _ _ hw
  have hp : ¬(x.privLvl = privLvlU ∨ (x.privLvl = privLvlS ∧ x.tsr = true)) := not_or.2 hl
  constructor <;>
    simp [decodeSystem, systemPriv, hp, hd, h3, h1, hi]

theorem is_wfi (hw : encode .wfi = x.instruction) (hl : x.state.supervisor x.tw) :
    (decodeSystem x).Is x.instruction .wfi := by
  obtain ⟨-, hd, h3, h1, hi⟩ := iType_inv _ _ _ _ hw
  have hp : ¬((x.privLvl = privLvlS ∧ x.tw = true) ∨ x.privLvl = privLvlU) := not_or.2 hl.symm
  constructor <;>
    simp [decodeSystem, systemPriv, hp, hd, h3, h1, hi, enableWfi]

theorem is_mret (hw : encode .mret = x.instruction) (hl : x.privLvl = privLvlM) :
    (decodeSystem x).Is x.instruction .mret := by
  obtain ⟨-, hd, h3, h1, hi⟩ := iType_inv _ _ _ _ hw
  constructor <;>
    simp [decodeSystem, systemPriv, hl, hd, h3, h1, hi, privLvlM, privLvlU, privLvlS]

theorem is_dret (hw : encode .dret = x.instruction) (hl : x.debugMode = true) :
    (decodeSystem x).Is x.instruction .dret := by
  obtain ⟨-, hd, h3, h1, hi⟩ := iType_inv _ _ _ _ hw
  constructor <;>
    simp [decodeSystem, systemPriv, hl, hd, h3, h1, hi]

theorem imm12_ne_of_funct7 {w : BitVec 32} {f7 : BitVec 7} (h7 : funct7 w = f7) {c : BitVec 12}
    (hc : c.extractLsb' 5 7 ≠ f7) : imm12 w ≠ c := by
  intro h
  have he : (imm12 w).extractLsb' 5 7 = funct7 w := Lib.extractLsb'_extractLsb' _ (by decide)
  rw [h, h7] at he
  exact hc he

/-- No other privileged instruction has the upper bits of `SFENCE.VMA`. -/
theorem systemPriv_sfenceVma (h7 : funct7 x.instruction = 0b0001001#7) (d : Decoded) :
    systemPriv x d =
      { d with
        op := .sfenceVma
        illegalInstr := !(x.privLvl == privLvlM || x.privLvl == privLvlS) ||
          x.privLvl == privLvlS && x.tvm } := by
  unfold systemPriv
  dsimp only
  rw [if_neg (imm12_ne_of_funct7 h7 (by decide)), if_neg (imm12_ne_of_funct7 h7 (by decide)),
    if_neg (imm12_ne_of_funct7 h7 (by decide)), if_neg (imm12_ne_of_funct7 h7 (by decide)),
    if_neg (imm12_ne_of_funct7 h7 (by decide)), if_neg (imm12_ne_of_funct7 h7 (by decide))]
  exact if_pos h7

theorem not_trapped {t : Bool} (himp : Implemented x.privLvl) :
    (!(x.privLvl == privLvlM || x.privLvl == privLvlS) || x.privLvl == privLvlS && t) = false ↔
      x.state.supervisor t := by
  show _ ↔ x.privLvl ≠ privLvlU ∧ ¬(x.privLvl = privLvlS ∧ t = true)
  rcases himp with h | h | h <;> rw [h] <;> cases t <;> decide

theorem is_sfenceVma {r1 r2 : BitVec 5} (hw : encode (.sfenceVma r1 r2) = x.instruction)
    (himp : Implemented x.privLvl) (hl : x.state.supervisor x.tvm) :
    (decodeSystem x).Is x.instruction (.sfenceVma r1 r2) := by
  obtain ⟨-, hd, h3, h1, h2, h7⟩ := rType_inv _ _ _ _ _ _ hw
  have hs : decodeSystem x =
      { defaults with fu := .csr, rs1 := x.rs1, rd := x.rd, op := .sfenceVma } := by
    simp only [decodeSystem, h3]
    rw [systemPriv_sfenceVma h7, (not_trapped himp).2 hl]
    rfl
  rw [hs]
  constructor <;>
    simp [hd, h1]

/-- The table of the AMOs of a width. -/
theorem amoTable_eq (k : AmoOp) (n : AmoWidth) :
    (match n with
      | .w => amoWTable k.funct5
      | .d => amoDTable k.funct5) = some (k.fuOp n) := by
  cases k <;> cases n <;> rfl

theorem is_lr {n : AmoWidth} {a : BitVec 2} {d r : BitVec 5}
    (hw : encode (.lr n a d r) = x.instruction) :
    (decodeAmo x).Is x.instruction (.lr n a d r) := by
  obtain ⟨-, hd, h3, h1, h2, h7⟩ := rType_inv _ _ _ _ _ _ hw
  have h5 : funct5 x.instruction = 0b00010#5 := by
    rw [funct5_eq, h7, (extract_append_fmt _ _).1]
  cases n <;> constructor <;>
    simp [decodeAmo, Decoded.table, hd, h3, h1, h2, h5, AmoWidth.funct3, AmoWidth.lrOp, amoWTable, amoDTable, rva]

theorem is_amo {k : AmoOp} {n : AmoWidth} {a : BitVec 2} {d r1 r2 : BitVec 5}
    (hw : encode (.amo k n a d r1 r2) = x.instruction) :
    (decodeAmo x).Is x.instruction (.amo k n a d r1 r2) := by
  obtain ⟨-, hd, h3, h1, h2, h7⟩ := rType_inv _ _ _ _ _ _ hw
  have h5 : funct5 x.instruction = k.funct5 := by
    rw [funct5_eq, h7, (extract_append_fmt _ _).1]
  have hlr : k.funct5 ≠ 0x02#5 := by cases k <;> decide
  have ht := amoTable_eq k n
  cases n <;> simp only at ht <;> constructor <;>
    simp [decodeAmo, Decoded.table, hd, h3, h1, h2, h5, hlr, ht, AmoWidth.funct3, rva]

/-! ### Floating point -/

theorem fpEnabled_iff : fpEnabled x = true ↔ x.state.fpOn := by
  show (fpPresent && x.fs != Xs.off) = true ↔ x.fs ≠ Xs.off
  simp [fpPresent]

theorem rmIllegal_iff (rm frm : BitVec 3) (p : Prec) :
    rmIllegal rm frm p.fmt = false ↔ rmLegal rm frm := by
  cases p <;> revert rm frm <;> decide

theorem fmtIllegal_fmt (p : Prec) : fmtIllegal p.fmt = false := by
  cases p <;> rfl

theorem is_fload {p : Prec} {d r : BitVec 5} {imm : BitVec 12}
    (hw : encode (.fload p d r imm) = x.instruction) (hl : x.state.fpOn) :
    (decodeLoadFp x).Is x.instruction (.fload p d r imm) := by
  obtain ⟨-, hd, h3, h1, hi⟩ := iType_inv _ _ _ _ hw
  have ht : loadFpTable p.funct3 = some p.loadOp := by cases p <;> rfl
  constructor <;>
    simp [decodeLoadFp, fpEnabled_iff.2 hl, Decoded.table, hd, h3, h1, hi, ht, iImm_eq]

theorem is_fstore {p : Prec} {r1 r2 : BitVec 5} {imm : BitVec 12}
    (hw : encode (.fstore p r1 r2 imm) = x.instruction) (hl : x.state.fpOn) :
    (decodeStoreFp x).Is x.instruction (.fstore p r1 r2 imm) := by
  obtain ⟨-, h3, h1, h2, hi⟩ := sType_inv _ _ _ _ hw
  have ht : storeFpTable p.funct3 = some p.storeOp := by cases p <;> rfl
  constructor <;>
    simp [decodeStoreFp, fpEnabled_iff.2 hl, Decoded.table, h3, h1, h2, hi, ht]

theorem is_fused {k : FusedOp} {p : Prec} {d r1 r2 r3 : BitVec 5} {rm : BitVec 3}
    (hw : encode (.fused k p d r1 r2 r3 rm) = x.instruction) (hl : x.state.fpOn ∧ rmLegal rm x.frm) :
    (decodeFused x k.fuOp).Is x.instruction (.fused k p d r1 r2 r3 rm) := by
  obtain ⟨-, hd, h3, h1, h2, h7⟩ := rType_inv _ _ _ _ _ _ hw
  have h5 : Decoder.rs3 x.instruction = r3 := by
    rw [rs3_eq, funct5_eq, h7, (extract_append_fmt _ _).1]
  have hf : fmt x.instruction = p.fmt := by rw [fmt_eq, h7, (extract_append_fmt _ _).2]
  have hrm := (rmIllegal_iff rm x.frm p).2 hl.2
  constructor <;>
    simp [decodeFused, fpChecks, fpEnabled_iff.2 hl.1, fmtIllegal_fmt, hrm, hd, h3, h1, h2, h5, hf]

/-- The last checks pass if the format is supported and the rounding mode, where there is
one, is legal. -/
theorem fpChecks_eq {p : Prec} (hf : fmt x.instruction = p.fmt) {c : Bool} {d : Decoded}
    (hrm : c = true → rmLegal (funct3 x.instruction) x.frm) : fpChecks x c d = d := by
  have hr : (c && rmIllegal (funct3 x.instruction) x.frm (fmt x.instruction)) = false := by
    cases c
    · rfl
    · rw [hf, (rmIllegal_iff _ _ p).2 (hrm rfl)]
      rfl
  have hill : (d.illegalInstr || fmtIllegal (fmt x.instruction) ||
      c && rmIllegal (funct3 x.instruction) x.frm (fmt x.instruction)) = d.illegalInstr := by
    rw [hr, hf, fmtIllegal_fmt, Bool.or_false, Bool.or_false]
  unfold fpChecks
  dsimp only
  rw [hill]

/-- The outputs before the case on `funct5`. -/
def fpDefaults (x : In) : Decoded := { defaults with fu := .fpu, rs1 := x.rs1, rs2 := x.rs2, rd := x.rd }

theorem decodeOpFp_eq {p : Prec} (hf : fmt x.instruction = p.fmt) (hon : x.state.fpOn)
    (hrm : (opFpCase x (fpDefaults x)).2 = true → rmLegal (funct3 x.instruction) x.frm) :
    decodeOpFp x = (opFpCase x (fpDefaults x)).1 := by
  rw [decodeOpFp, if_pos (fpEnabled_iff.2 hon)]
  exact fpChecks_eq hf hrm

theorem is_fpOp {k : FpOp} {p : Prec} {d r1 r2 : BitVec 5} {rm : BitVec 3}
    (hw : encode (.fpOp k p d r1 r2 rm) = x.instruction) (hl : x.state.fpOn ∧ rmLegal rm x.frm) :
    (decodeOpFp x).Is x.instruction (.fpOp k p d r1 r2 rm) := by
  obtain ⟨-, hd, h3, h1, h2, h5, hf, hi⟩ := fpType_inv _ _ _ _ hw
  rw [decodeOpFp_eq hf hl.1 (fun _ => h3 ▸ hl.2)]
  cases k <;> constructor <;>
    simp [opFpCase, fpDefaults, hd, h1, h2, h5, hi, FpOp.funct5, FpOp.uop, iImm_eq]

theorem is_fsqrt {p : Prec} {d r : BitVec 5} {rm : BitVec 3}
    (hw : encode (.fsqrt p d r rm) = x.instruction) (hl : x.state.fpOn ∧ rmLegal rm x.frm) :
    (decodeOpFp x).Is x.instruction (.fsqrt p d r rm) := by
  obtain ⟨-, hd, h3, h1, h2, h5, hf, hi⟩ := fpType_inv _ _ _ _ hw
  rw [decodeOpFp_eq hf hl.1 (fun _ => h3 ▸ hl.2)]
  constructor <;>
    simp [opFpCase, fpDefaults, hd, h1, h2, h5]

theorem is_fcvtPrec {p : Prec} {d r : BitVec 5} {rm : BitVec 3}
    (hw : encode (.fcvtPrec p d r rm) = x.instruction) (hl : x.state.fpOn ∧ rmLegal rm x.frm) :
    (decodeOpFp x).Is x.instruction (.fcvtPrec p d r rm) := by
  obtain ⟨-, hd, h3, h1, h2, h5, hf, hi⟩ := fpType_inv _ _ _ _ hw
  have hhi : x.instruction.extractLsb' 23 2 = 0#2 := by
    have h : (Decoder.rs2 x.instruction).extractLsb' 3 2 = x.instruction.extractLsb' 23 2 :=
      Lib.extractLsb'_extractLsb' _ (by decide)
    rw [← h, h2]
    cases p <;> rfl
  have hlo : srcFmtIllegal (x.instruction.extractLsb' 20 3) = false := by
    have h : (Decoder.rs2 x.instruction).extractLsb' 0 3 = x.instruction.extractLsb' 20 3 :=
      Lib.extractLsb'_extractLsb' _ (by decide)
    rw [← h, h2]
    cases p <;> rfl
  rw [decodeOpFp_eq hf hl.1 (fun _ => h3 ▸ hl.2)]
  constructor <;>
    simp [opFpCase, fpDefaults, hhi, hlo, hd, h1, h5, hi, iImm_eq]

theorem is_fcvtInt {n : IntFmt} {p : Prec} {d r : BitVec 5} {rm : BitVec 3}
    (hl : x.state.fpOn ∧ rmLegal rm x.frm) :
    (encode (.fcvtToInt n p d r rm) = x.instruction →
      (decodeOpFp x).Is x.instruction (.fcvtToInt n p d r rm)) ∧
    (encode (.fcvtOfInt n p d r rm) = x.instruction →
      (decodeOpFp x).Is x.instruction (.fcvtOfInt n p d r rm)) := by
  have hhi (h2 : Decoder.rs2 x.instruction = n.rs2) : x.instruction.extractLsb' 22 3 = 0#3 := by
    have h : (Decoder.rs2 x.instruction).extractLsb' 2 3 = x.instruction.extractLsb' 22 3 :=
      Lib.extractLsb'_extractLsb' _ (by decide)
    rw [← h, h2]
    cases n <;> rfl
  constructor
  · intro hw
    obtain ⟨-, hd, h3, h1, h2, h5, hf, hi⟩ := fpType_inv _ _ _ _ hw
    rw [decodeOpFp_eq hf hl.1 (fun _ => h3 ▸ hl.2)]
    constructor <;>
      simp [opFpCase, fpDefaults, hhi h2, hd, h1, h2, h5, hi, iImm_eq]
  · intro hw
    obtain ⟨-, hd, h3, h1, h2, h5, hf, hi⟩ := fpType_inv _ _ _ _ hw
    rw [decodeOpFp_eq hf hl.1 (fun _ => h3 ▸ hl.2)]
    constructor <;>
      simp [opFpCase, fpDefaults, hhi h2, hd, h1, h2, h5, hi, iImm_eq]

/-- These have an operation in the place of the rounding mode. -/
theorem is_fsgnj {k : SgnjOp} {p : Prec} {d r1 r2 : BitVec 5}
    (hw : encode (.fsgnj k p d r1 r2) = x.instruction) (hl : x.state.fpOn) :
    (decodeOpFp x).Is x.instruction (.fsgnj k p d r1 r2) := by
  obtain ⟨-, hd, h3, h1, h2, h5, hf, hi⟩ := fpType_inv _ _ _ _ hw
  have hrm : rmInside k.rm 0b010#3 = true := by cases k <;> rfl
  have h : (opFpCase x (fpDefaults x)).2 = false := by simp [opFpCase, h5]
  rw [decodeOpFp_eq hf hl (fun hc => absurd (h.symm.trans hc) Bool.false_ne_true)]
  constructor <;>
    simp [opFpCase, fpDefaults, hrm, hd, h1, h2, h3, h5]

theorem is_fminMax {k : MinMaxOp} {p : Prec} {d r1 r2 : BitVec 5}
    (hw : encode (.fminMax k p d r1 r2) = x.instruction) (hl : x.state.fpOn) :
    (decodeOpFp x).Is x.instruction (.fminMax k p d r1 r2) := by
  obtain ⟨-, hd, h3, h1, h2, h5, hf, hi⟩ := fpType_inv _ _ _ _ hw
  have hrm : rmInside k.rm 0b001#3 = true := by cases k <;> rfl
  have h : (opFpCase x (fpDefaults x)).2 = false := by simp [opFpCase, h5]
  rw [decodeOpFp_eq hf hl (fun hc => absurd (h.symm.trans hc) Bool.false_ne_true)]
  constructor <;>
    simp [opFpCase, fpDefaults, hrm, hd, h1, h2, h3, h5]

theorem is_fcmp {k : FcmpOp} {p : Prec} {d r1 r2 : BitVec 5}
    (hw : encode (.fcmp k p d r1 r2) = x.instruction) (hl : x.state.fpOn) :
    (decodeOpFp x).Is x.instruction (.fcmp k p d r1 r2) := by
  obtain ⟨-, hd, h3, h1, h2, h5, hf, hi⟩ := fpType_inv _ _ _ _ hw
  have hrm : rmInside k.rm 0b010#3 = true := by cases k <;> rfl
  have h : (opFpCase x (fpDefaults x)).2 = false := by simp [opFpCase, h5]
  rw [decodeOpFp_eq hf hl (fun hc => absurd (h.symm.trans hc) Bool.false_ne_true)]
  constructor <;>
    simp [opFpCase, fpDefaults, hrm, hd, h1, h2, h3, h5]

theorem is_fmvToInt {p : Prec} {d r : BitVec 5}
    (hw : encode (.fmvToInt p d r) = x.instruction) (hl : x.state.fpOn) :
    (decodeOpFp x).Is x.instruction (.fmvToInt p d r) := by
  obtain ⟨-, hd, h3, h1, h2, h5, hf, hi⟩ := fpType_inv _ _ _ _ hw
  have h : (opFpCase x (fpDefaults x)).2 = false := by simp [opFpCase, h5]
  rw [decodeOpFp_eq hf hl (fun hc => absurd (h.symm.trans hc) Bool.false_ne_true)]
  constructor <;>
    simp [opFpCase, fpDefaults, hd, h1, h2, h3, h5]

theorem is_fmvOfInt {p : Prec} {d r : BitVec 5}
    (hw : encode (.fmvOfInt p d r) = x.instruction) (hl : x.state.fpOn) :
    (decodeOpFp x).Is x.instruction (.fmvOfInt p d r) := by
  obtain ⟨-, hd, h3, h1, h2, h5, hf, hi⟩ := fpType_inv _ _ _ _ hw
  have h : (opFpCase x (fpDefaults x)).2 = false := by simp [opFpCase, h5]
  rw [decodeOpFp_eq hf hl (fun hc => absurd (h.symm.trans hc) Bool.false_ne_true)]
  constructor <;>
    simp [opFpCase, fpDefaults, hd, h1, h2, h3, h5]

theorem is_fclass {p : Prec} {d r : BitVec 5}
    (hw : encode (.fclass p d r) = x.instruction) (hl : x.state.fpOn) :
    (decodeOpFp x).Is x.instruction (.fclass p d r) := by
  obtain ⟨-, hd, h3, h1, h2, h5, hf, hi⟩ := fpType_inv _ _ _ _ hw
  have h : (opFpCase x (fpDefaults x)).2 = false := by simp [opFpCase, h5]
  rw [decodeOpFp_eq hf hl (fun hc => absurd (h.symm.trans hc) Bool.false_ne_true)]
  constructor <;>
    simp [opFpCase, fpDefaults, hd, h1, h2, h3, h5]

/-! ### Every instruction -/

/-- Legal instructions decode to their operations. -/
theorem decodes_encode (hex : x.ex.valid = false) {i : Instr}
    (himp : ∀ r1 r2, i = .sfenceVma r1 r2 → Implemented x.privLvl) (hw : encode i = x.instruction)
    (hl : i.Legal x.state) : (decode x).Is x.instruction i := by
  have ho {o : Opcode} (h : opcode x.instruction = o.bits) (hd : (decodeOpcode x o).Is x.instruction i) :
      (decode x).Is x.instruction i := by
    rwa [decode_of_opcode hex h]
  cases i with
  | lui d imm => exact ho (o := .lui) (uType_inv _ _ hw).1 (is_upper.1 hw)
  | auipc d imm => exact ho (o := .auipc) (uType_inv _ _ hw).1 (is_upper.2 hw)
  | jal d imm => exact ho (o := .jal) (jType_inv _ _ hw).1 (is_jal hw)
  | jalr d r imm => exact ho (o := .jalr) (iType_inv _ _ _ _ hw).1 (is_jalr hw)
  | branch c r1 r2 imm => exact ho (o := .branch) (bType_inv _ _ _ _ hw).1 (is_branch hw)
  | load k d r imm => exact ho (o := .load) (iType_inv _ _ _ _ hw).1 (is_load hw)
  | store k r1 r2 imm => exact ho (o := .store) (sType_inv _ _ _ _ hw).1 (is_store hw)
  | opImm k d r imm => exact ho (o := .opImm) (iType_inv _ _ _ _ hw).1 (is_opImm hw)
  | shiftImm k d r shamt => exact ho (o := .opImm) (iType_inv _ _ _ _ hw).1 (is_shiftImm hw)
  | addiw d r imm => exact ho (o := .opImm32) (iType_inv _ _ _ _ hw).1 (is_addiw hw)
  | shiftImmW k d r shamt =>
    exact ho (o := .opImm32) (rType_inv _ _ _ _ _ _ hw).1 (is_shiftImmW hw)
  | op k d r1 r2 => exact ho (o := .op) (rType_inv _ _ _ _ _ _ hw).1 (is_op hw)
  | opW k d r1 r2 => exact ho (o := .op32) (rType_inv _ _ _ _ _ _ hw).1 (is_opW hw)
  | fence p q => exact ho (o := .miscMem) (iType_inv _ _ _ _ hw).1 (is_fence hw)
  | fenceI => exact ho (o := .miscMem) (iType_inv _ _ _ _ hw).1 (is_fenceI hw)
  | ecall => exact ho (o := .system) (iType_inv _ _ _ _ hw).1 (is_ecall hw)
  | ebreak => exact ho (o := .system) (iType_inv _ _ _ _ hw).1 (is_ebreak hw)
  | sret => exact ho (o := .system) (iType_inv _ _ _ _ hw).1 (is_sret hw hl)
  | mret => exact ho (o := .system) (iType_inv _ _ _ _ hw).1 (is_mret hw hl)
  | dret => exact ho (o := .system) (iType_inv _ _ _ _ hw).1 (is_dret hw hl)
  | wfi => exact ho (o := .system) (iType_inv _ _ _ _ hw).1 (is_wfi hw hl)
  | sfenceVma r1 r2 =>
    exact ho (o := .system) (rType_inv _ _ _ _ _ _ hw).1 (is_sfenceVma hw (himp r1 r2 rfl) hl)
  | csr k d r addr => exact ho (o := .system) (iType_inv _ _ _ _ hw).1 (is_csr hw)
  | csrImm k d z addr => exact ho (o := .system) (iType_inv _ _ _ _ hw).1 (is_csrImm hw)
  | lr n a d r => exact ho (o := .amo) (rType_inv _ _ _ _ _ _ hw).1 (is_lr hw)
  | amo k n a d r1 r2 => exact ho (o := .amo) (rType_inv _ _ _ _ _ _ hw).1 (is_amo hw)
  | fload p d r imm => exact ho (o := .loadFp) (iType_inv _ _ _ _ hw).1 (is_fload hw hl)
  | fstore p r1 r2 imm => exact ho (o := .storeFp) (sType_inv _ _ _ _ hw).1 (is_fstore hw hl)
  | fused k p d r1 r2 r3 rm =>
    have hop := (rType_inv _ _ _ _ _ _ hw).1
    have h := is_fused hw hl
    cases k with
    | madd => exact ho (o := .madd) hop h
    | msub => exact ho (o := .msub) hop h
    | nmsub => exact ho (o := .nmsub) hop h
    | nmadd => exact ho (o := .nmadd) hop h
  | fpOp k p d r1 r2 rm => exact ho (o := .opFp) (fpType_inv _ _ _ _ hw).1 (is_fpOp hw hl)
  | fsqrt p d r rm => exact ho (o := .opFp) (fpType_inv _ _ _ _ hw).1 (is_fsqrt hw hl)
  | fsgnj k p d r1 r2 => exact ho (o := .opFp) (fpType_inv _ _ _ _ hw).1 (is_fsgnj hw hl)
  | fminMax k p d r1 r2 => exact ho (o := .opFp) (fpType_inv _ _ _ _ hw).1 (is_fminMax hw hl)
  | fcmp k p d r1 r2 => exact ho (o := .opFp) (fpType_inv _ _ _ _ hw).1 (is_fcmp hw hl)
  | fcvtPrec p d r rm => exact ho (o := .opFp) (fpType_inv _ _ _ _ hw).1 (is_fcvtPrec hw hl)
  | fcvtToInt n p d r rm => exact ho (o := .opFp) (fpType_inv _ _ _ _ hw).1 ((is_fcvtInt hl).1 hw)
  | fcvtOfInt n p d r rm => exact ho (o := .opFp) (fpType_inv _ _ _ _ hw).1 ((is_fcvtInt hl).2 hw)
  | fmvToInt p d r => exact ho (o := .opFp) (fpType_inv _ _ _ _ hw).1 (is_fmvToInt hw hl)
  | fmvOfInt p d r => exact ho (o := .opFp) (fpType_inv _ _ _ _ hw).1 (is_fmvOfInt hw hl)
  | fclass p d r => exact ho (o := .opFp) (fpType_inv _ _ _ _ hw).1 (is_fclass hw hl)

end Decoder
end Ariane

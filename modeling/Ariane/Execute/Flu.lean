/-
# The fixed-latency units

`src/ex_stage.sv`: the ALU (`alu.sv`), the branch unit, the CSR buffer and the multiplier
(`multiplier.sv` in `mult.sv`) share one issue port and one write-back port. All but the
multiplier answer in the cycle they are started in; a product is registered and leaves one
cycle later. The adder, the comparison and the branch unit are those of `Core/Branch`.

The results of the CSR buffer and of the divider are inputs.
-/
import Ariane.Core.Branch
import Ariane.Issue.ReadOperands

namespace Ariane
namespace Flu

open IssueStage (FuData)

variable {w : ℕ}

/-! ### The ALU -/

section Alu

variable (op : FuOp) (a b : BitVec 64)

/-- `shift_left` and `shift_arithmetic`. -/
def shiftLeft : Bool := op == .sll || op == .sllw
def shiftArithmetic : Bool := op == .sra || op == .sraw

/-- `shift_op_a` and `shift_op_a32`: left shifts go through the right shifter, reversed. -/
def shiftOpA : BitVec 64 := if shiftLeft op then a.reverse else a
def shiftOpA32 : BitVec 32 := if shiftLeft op then (a.extractLsb' 0 32).reverse else a.extractLsb' 0 32

/-- `shift_right_result`. -/
def shiftRightResult : BitVec 65 :=
  (BitVec.ofBool (shiftArithmetic op && (shiftOpA op a).getLsbD 63) ++ shiftOpA op a).sshiftRight
    (b.extractLsb' 0 6).toNat

/-- `shift_right_result32`; its sign is bit 31 of the 64-bit operand. -/
def shiftRightResult32 : BitVec 33 :=
  (BitVec.ofBool (shiftArithmetic op && (shiftOpA op a)[31]) ++ shiftOpA32 op a).sshiftRight
    (b.extractLsb' 0 5).toNat

/-- `shift_result` and `shift_result32`. -/
def shiftResult : BitVec 64 :=
  let r := (shiftRightResult op a b).extractLsb' 0 64
  if shiftLeft op then r.reverse else r

def shiftResult32 : BitVec 32 :=
  let r := (shiftRightResult32 op a b).extractLsb' 0 32
  if shiftLeft op then r.reverse else r

/-- `sext32`. -/
def sext32 (v : BitVec 32) : BitVec 64 := v.signExtend 64

/-- `result_o` of the ALU. -/
def aluResult : BitVec 64 :=
  let d : Branch.FuData := ⟨a, b, 0⟩
  match op with
  | .andl => a &&& b
  | .orl => a ||| b
  | .xorl => a ^^^ b
  | .add | .sub => Branch.adderResult op d
  | .addw | .subw => sext32 ((Branch.adderResult op d).extractLsb' 0 32)
  | .sll | .srl | .sra => shiftResult op a b
  | .sllw | .srlw | .sraw => sext32 (shiftResult32 op a b)
  | .slts | .sltu => 0#63 ++ BitVec.ofBool (Branch.less op d)
  | _ => 0

end Alu

/-! ### The multiplier -/

/-- The operators the multiplier takes. -/
def isMul : FuOp → Bool
  | .mul | .mulh | .mulhu | .mulhsu | .mulw => true
  | _ => false

/-- The pipeline register. -/
structure Regs (w : ℕ) where
  multValid : Bool
  transId : BitVec w
  operator : FuOp
  multResult : BitVec 128

def reset : Regs w := ⟨false, 0, .mul, 0⟩

/-- An operand with its sign, if the operation is signed in it. -/
def signed (sign : Bool) (a : BitVec 64) : BitVec 65 := BitVec.ofBool (a.getLsbD 63 && sign) ++ a

/-- `mult_result_d`. -/
def multResultD (op : FuOp) (a b : BitVec 64) : BitVec 128 :=
  (signed (op == .mulh || op == .mulhsu) a).signExtend 128 * (signed (op == .mulh) b).signExtend 128

/-- `result_o` of the multiplier. -/
def mulResult (s : Regs w) : BitVec 64 :=
  match s.operator with
  | .mulh | .mulhu | .mulhsu => s.multResult.extractLsb' 64 64
  | .mulw => sext32 (s.multResult.extractLsb' 0 32)
  | _ => s.multResult.extractLsb' 0 64

/-! ### The stage -/

/-- The inputs of a cycle: the unit that is started with its operands, and the outputs of the
CSR buffer and the divider. -/
structure In (w : ℕ) where
  flush : Bool
  unit : Fu
  fuData : FuData w
  pc : BitVec 64
  isCompressed : Bool
  csrResult : BitVec 64
  divValid : Bool
  divTransId : BitVec w
  divResult : BitVec 64

/-- No unit is started: the operands of the units are silenced. -/
def FuData.zero : FuData w := ⟨.none, .add, 0, 0, 0, 0⟩

/-- `alu_data`. -/
def aluData (i : In w) : FuData w :=
  if i.unit == .alu || i.unit == .ctrlFlow then i.fuData else FuData.zero

/-- `mult_data`. -/
def multData (i : In w) : FuData w := if i.unit == .mult then i.fuData else FuData.zero

def next (_ : Regs w) (i : In w) : Regs w :=
  let d := multData i
  ⟨!i.flush && i.unit == .mult && isMul d.operator, d.transId, d.operator,
    multResultD d.operator d.operandA d.operandB⟩

/-- `mult_valid`, `mult_trans_id` and `mult_result`. -/
def multValid (s : Regs w) (i : In w) : Bool := i.divValid || s.multValid
def multTransId (s : Regs w) (i : In w) : BitVec w := if s.multValid then s.transId else i.divTransId
def multResult (s : Regs w) (i : In w) : BitVec 64 := if s.multValid then mulResult s else i.divResult

/-- What the branch unit sees of the instruction. -/
def branchEntry (i : In w) : ScoreboardEntry :=
  { ScoreboardEntry.empty with op := i.fuData.operator, pc := i.pc, isCompressed := i.isCompressed }

/-- `resolved_branch_o.target_address` of a valid branch. -/
def resolvedTarget (i : In w) : BitVec 64 :=
  let d := aluData i
  if Branch.aluBranchRes d.operator ⟨d.operandA, d.operandB, d.imm⟩ then
    Branch.targetAddress ⟨i.fuData.operandA, i.fuData.operandB, i.fuData.imm⟩ (branchEntry i)
  else (branchEntry i).nextPc

/-- `flu_valid_o`, `flu_trans_id_o` and `flu_result_o`. -/
structure Out (w : ℕ) where
  valid : Bool
  transId : BitVec w
  result : BitVec 64
deriving DecidableEq

def out (s : Regs w) (i : In w) : Out w where
  valid := i.unit == .alu || i.unit == .ctrlFlow || i.unit == .csr || multValid s i
  transId :=
    if i.unit == .alu || i.unit == .csr then i.fuData.transId
    else if multValid s i then multTransId s i else i.fuData.transId
  result :=
    if i.unit == .alu then aluResult (aluData i).operator (aluData i).operandA (aluData i).operandB
    else if i.unit == .csr then i.csrResult
    else if multValid s i then multResult s i
    else (branchEntry i).nextPc

end Flu
end Ariane

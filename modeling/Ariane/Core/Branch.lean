/-
# Where a control-flow instruction goes

The ALU decides whether a branch is taken (`alu.sv`), the branch unit computes
the address (`branch_unit.sv`), and the scoreboard stores it in the entry of the
instruction at write back (`scoreboard.sv`), in `bp.predict_address`: "we saved
the correct target address during execute" is what the single step relies on.
`predictAddress_writeBack` says that it is the address the instruction set
prescribes.
-/
import Ariane.Pkg
import Mathlib.Tactic.Common

namespace Ariane
namespace Branch

/-- `fu_data_t`, as far as branches read it; the operator is that of the entry. -/
structure FuData where
  operandA : BitVec 64
  operandB : BitVec 64
  imm : BitVec 64

variable (op : FuOp) (d : FuData) (e : ScoreboardEntry)

/-! ### The ALU -/

/-- `adder_op_b_negate`. -/
def adderOpBNegate : Bool :=
  match op with
  | .eq | .ne | .sub | .subw => true
  | _ => false

/-- `adder_result`: the bit below the operands carries the one of a subtraction. -/
def adderResult : BitVec 64 :=
  let a : BitVec 65 := d.operandA ++ 1#1
  let b : BitVec 65 := (d.operandB ++ 0#1) ^^^ (if adderOpBNegate op then BitVec.allOnes 65 else 0)
  (a.setWidth 66 + b.setWidth 66).extractLsb' 1 64

/-- `adder_z_flag`. -/
def adderZFlag : Bool := adderResult op d == 0

/-- `sgn`: the comparison is signed. -/
def sgn : Bool := op == .slts || op == .lts || op == .ges

/-- `less`. -/
def less : Bool :=
  (BitVec.ofBool (sgn op && d.operandA.getLsbD 63) ++ d.operandA).slt
    (BitVec.ofBool (sgn op && d.operandB.getLsbD 63) ++ d.operandB)

/-- `alu_branch_res_o`. -/
def aluBranchRes : Bool :=
  match op with
  | .eq => adderZFlag op d
  | .ne => !adderZFlag op d
  | .lts | .ltu => less op d
  | .ges | .geu => !less op d
  | _ => true

/-! ### The branch unit and the write back -/

/-- `target_address`. -/
def targetAddress : BitVec 64 :=
  let t := (if e.op = .jalr then d.operandA else e.pc) + d.imm
  if e.op = .jalr then t.extractLsb' 1 63 ++ 0#1 else t

/-- `resolved_branch_o.target_address` of a valid branch. -/
def resolvedTarget : BitVec 64 := if aluBranchRes e.op d then targetAddress d e else e.nextPc

/-- `branch_exception_o`. -/
def branchException : Exn := ⟨Riscv.instrAddrMisaligned, e.pc, (targetAddress d e).getLsbD 0⟩

/-- The entry after the write back of the branch unit. -/
def writeBack : ScoreboardEntry :=
  { e with
    valid := true
    result := e.nextPc
    bp := ⟨resolvedTarget d e⟩
    ex := if (branchException d e).valid then branchException d e else e.ex }

/-! ### The instruction set -/

/-- Whether a control-flow instruction is taken, by the instruction set. -/
def isaTaken : Bool :=
  match op with
  | .eq => d.operandA == d.operandB
  | .ne => d.operandA != d.operandB
  | .lts => d.operandA.slt d.operandB
  | .ges => d.operandB.sle d.operandA
  | .ltu => d.operandA.ult d.operandB
  | .geu => d.operandB.ule d.operandA
  | _ => true

/-- The address after a control-flow instruction, by the instruction set: a
register jump clears the lowest bit of its target. -/
def isaTarget : BitVec 64 :=
  if e.op = .jalr then (d.operandA + d.imm) &&& ~~~1#64
  else if isaTaken e.op d then e.pc + d.imm
  else e.nextPc

/-! ### They agree -/

theorem toNat_append_bit (a : BitVec 64) (b : BitVec 1) : (a ++ b).toNat = 2 * a.toNat + b.toNat := by
  have hb : b.toNat < 2 ^ 1 := b.isLt
  rw [BitVec.toNat_append, ← Nat.shiftLeft_add_eq_or_of_lt hb, Nat.shiftLeft_eq]
  omega

theorem adderResult_add (h : adderOpBNegate op = false) :
    adderResult op d = d.operandA + d.operandB := by
  unfold adderResult
  simp only [h, Bool.false_eq_true, if_false, BitVec.ofNat_eq_ofNat, BitVec.xor_zero]
  apply BitVec.eq_of_toNat_eq
  have ha := d.operandA.isLt
  have hb := d.operandB.isLt
  rw [BitVec.extractLsb'_toNat, BitVec.toNat_add, BitVec.toNat_setWidth, BitVec.toNat_setWidth,
    toNat_append_bit, toNat_append_bit, BitVec.toNat_add, Nat.shiftRight_eq_div_pow]
  simp only [BitVec.toNat_ofNat]
  omega

theorem adderResult_sub (h : adderOpBNegate op = true) :
    adderResult op d = d.operandA - d.operandB := by
  have hxor : (d.operandB ++ 0#1) ^^^ BitVec.allOnes 65 = ~~~d.operandB ++ 1#1 := by
    rw [BitVec.xor_allOnes, BitVec.not_append]
    rfl
  unfold adderResult
  simp only [h, if_true, hxor]
  apply BitVec.eq_of_toNat_eq
  have ha := d.operandA.isLt
  have hb := d.operandB.isLt
  rw [BitVec.extractLsb'_toNat, BitVec.toNat_add, BitVec.toNat_setWidth, BitVec.toNat_setWidth,
    toNat_append_bit, toNat_append_bit, BitVec.toNat_not, BitVec.toNat_sub, Nat.shiftRight_eq_div_pow]
  simp only [BitVec.toNat_ofNat]
  omega

/-- The adder of a comparison is zero exactly on equal operands. -/
theorem adderZFlag_eq (h : adderOpBNegate op = true) :
    adderZFlag op d = (d.operandA == d.operandB) := by
  unfold adderZFlag
  rw [adderResult_sub op d h, Bool.eq_iff_iff, beq_iff_eq, beq_iff_eq]
  exact sub_eq_zero

/-- A word with one more bit on top, read as a signed number. -/
theorem toInt_ofBool_append (b : Bool) (x : BitVec 64) :
    (BitVec.ofBool b ++ x).toInt = (x.toNat : ℤ) - if b then 2 ^ 64 else 0 := by
  have hx := x.isLt
  have hnat : (BitVec.ofBool b ++ x).toNat = b.toNat * 2 ^ 64 + x.toNat := by
    rw [BitVec.toNat_append, ← Nat.shiftLeft_add_eq_or_of_lt hx, Nat.shiftLeft_eq,
      BitVec.toNat_ofBool]
  rw [BitVec.toInt_eq_toNat_cond, hnat]
  cases b
  · rw [if_pos (by simp; omega)]
    simp
  · rw [if_neg (by simp; omega)]
    simp
    omega

/-- The comparison over one more bit is the signed or the unsigned one. -/
theorem less_eq : less op d =
    if sgn op then d.operandA.slt d.operandB else d.operandA.ult d.operandB := by
  unfold less
  rw [BitVec.slt_eq_decide, toInt_ofBool_append, toInt_ofBool_append]
  by_cases hs : sgn op = true
  · have hint (x : BitVec 64) : (x.toNat : ℤ) - (if x.getLsbD 63 then 2 ^ 64 else 0) = x.toInt := by
      rw [BitVec.toInt_eq_msb_cond, BitVec.msb_eq_getLsbD_last]
      split <;> simp_all [BitVec.getLsbD_eq_getElem]
    rw [if_pos hs, hs, Bool.true_and, Bool.true_and, hint, hint, BitVec.slt_eq_decide]
  · rw [Bool.not_eq_true] at hs
    rw [hs, BitVec.ult]
    simp

/-- The ALU decides as the instruction set does. -/
theorem aluBranchRes_eq : aluBranchRes op d = isaTaken op d := by
  have hsle (x y : BitVec 64) : y.sle x = !x.slt y := by
    rw [BitVec.sle_eq_not_slt]
  have hule (x y : BitVec 64) : y.ule x = !x.ult y := by
    rw [BitVec.ule_eq_not_ult]
  cases op with
  | eq => exact adderZFlag_eq .eq d rfl
  | ne => exact congrArg (!·) (adderZFlag_eq .ne d rfl)
  | lts => exact less_eq .lts d
  | ltu => exact less_eq .ltu d
  | ges => exact (congrArg (!·) (less_eq .ges d)).trans (hsle _ _).symm
  | geu => exact (congrArg (!·) (less_eq .geu d)).trans (hule _ _).symm
  | _ => rfl

/-- Dropping the lowest bit is clearing it. -/
theorem extract_append_zero (w : BitVec 64) : w.extractLsb' 1 63 ++ 0#1 = w &&& ~~~1#64 := by
  apply BitVec.eq_of_getLsbD_eq
  intro k hk
  rw [BitVec.getLsbD_append, BitVec.getLsbD_and, BitVec.getLsbD_not]
  by_cases h0 : k = 0
  · subst h0
    simp
  · have h1 : ¬k < 1 := by omega
    have hsub : 1 + (k - 1) = k := by omega
    simp [h1, h0, hsub, hk]
    omega

/-- The scoreboard holds the address the instruction set prescribes. -/
theorem predictAddress_writeBack : (writeBack d e).bp.predictAddress = isaTarget d e := by
  show resolvedTarget d e = isaTarget d e
  unfold resolvedTarget isaTarget targetAddress
  rw [aluBranchRes_eq]
  by_cases hj : e.op = .jalr
  · simp only [hj, isaTaken, if_true, extract_append_zero]
  · simp only [hj, if_false]

end Branch
end Ariane

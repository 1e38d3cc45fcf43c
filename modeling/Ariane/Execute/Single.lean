/-
# One instruction through the units

Decoding an instruction, selecting its operands and running it in the fixed-latency units
gives the result the instruction set prescribes: `executes_isa`. First come the ALU and the
multiplier, one lemma for each kind of operation.
-/
import Ariane.Decode.Encoded
import Ariane.Execute.Flu
import Ariane.Isa.Semantics

namespace Ariane
namespace Flu

open Isa IssueStage Decoder

variable {w : ℕ}

/-! ### The ALU -/

section Alu

variable (a b : BitVec 64)

theorem extractLsb'_low (v : BitVec 64) : v.extractLsb' 0 32 = word v :=
  (BitVec.setWidth_eq_extractLsb' (by decide)).symm

theorem shiftResult_sll : shiftResult .sll a b = ShiftOp.sll.eval a (b.extractLsb' 0 6).toNat := by
  have h := Lib.shiftRight_logical a.reverse (b.extractLsb' 0 6).toNat
  show (((BitVec.ofBool false ++ a.reverse).sshiftRight (b.extractLsb' 0 6).toNat).extractLsb' 0
    64).reverse = a <<< (b.extractLsb' 0 6).toNat
  rw [h, Lib.reverse_shiftRight_reverse]

theorem shiftResult_srl : shiftResult .srl a b = ShiftOp.srl.eval a (b.extractLsb' 0 6).toNat :=
  Lib.shiftRight_logical a (b.extractLsb' 0 6).toNat

theorem shiftResult_sra : shiftResult .sra a b = ShiftOp.sra.eval a (b.extractLsb' 0 6).toNat := by
  have h := Lib.shiftRight_arithmetic a (b.extractLsb' 0 6).toNat
  rw [BitVec.msb_eq_getLsbD_last] at h
  exact h

/-- The shift amounts of the shifts of words are the lower five bits. -/
theorem word_amount : (b.extractLsb' 0 5).toNat = ((word b).extractLsb' 0 5).toNat := by
  simp [word, BitVec.extractLsb'_toNat]

theorem shiftResult32_sllw :
    shiftResult32 .sllw a b = ShiftOp.sll.eval (word a) (b.extractLsb' 0 5).toNat := by
  have h := Lib.shiftRight_logical (word a).reverse (b.extractLsb' 0 5).toNat
  rw [← extractLsb'_low] at h ⊢
  show (((BitVec.ofBool false ++ (a.extractLsb' 0 32).reverse).sshiftRight
    (b.extractLsb' 0 5).toNat).extractLsb' 0 32).reverse = a.extractLsb' 0 32 <<< (b.extractLsb' 0 5).toNat
  rw [h, Lib.reverse_shiftRight_reverse]

theorem shiftResult32_srlw :
    shiftResult32 .srlw a b = ShiftOp.srl.eval (word a) (b.extractLsb' 0 5).toNat := by
  rw [← extractLsb'_low]
  exact Lib.shiftRight_logical (a.extractLsb' 0 32) (b.extractLsb' 0 5).toNat

theorem shiftResult32_sraw :
    shiftResult32 .sraw a b = ShiftOp.sra.eval (word a) (b.extractLsb' 0 5).toNat := by
  have h := Lib.shiftRight_arithmetic (a.extractLsb' 0 32) (b.extractLsb' 0 5).toNat
  have hmsb : (a.extractLsb' 0 32).msb = a[31] := by
    simp [BitVec.msb_eq_getLsbD_last]
  rw [hmsb] at h
  rw [← extractLsb'_low]
  exact h

theorem aluResult_slt (c : Bool) : 0#63 ++ BitVec.ofBool c = flag c := by
  cases c <;> rfl

theorem word_sub (x y : BitVec 64) : word (x - y) = word x - word y := by
  unfold word
  rw [BitVec.sub_eq_add_neg, BitVec.sub_eq_add_neg, BitVec.setWidth_add _ _ (by decide),
    BitVec.setWidth_neg_of_le (by decide)]

theorem word_signExtend (imm : BitVec 12) : word (imm.signExtend 64) = imm.signExtend 32 := by
  apply BitVec.eq_of_getLsbD_eq
  intro k hk
  have hk' : k < 64 := by omega
  rw [word, BitVec.getLsbD_setWidth, BitVec.getLsbD_signExtend, BitVec.getLsbD_signExtend]
  simp [hk, hk']

theorem aluResult_immOp (k : ImmOp) : aluResult k.fuOp a b = k.eval a b := by
  cases k with
  | addi => exact Branch.adderResult_add .add ⟨a, b, 0⟩ rfl
  | slti => exact (congrArg _ (congrArg _ (Branch.less_eq .slts ⟨a, b, 0⟩))).trans (aluResult_slt _)
  | sltiu => exact (congrArg _ (congrArg _ (Branch.less_eq .sltu ⟨a, b, 0⟩))).trans (aluResult_slt _)
  | xori => rfl
  | ori => rfl
  | andi => rfl

theorem aluResult_shiftOp (k : ShiftOp) :
    aluResult k.fuOp a b = k.eval a (b.extractLsb' 0 6).toNat := by
  cases k with
  | sll => exact shiftResult_sll a b
  | srl => exact shiftResult_srl a b
  | sra => exact shiftResult_sra a b

theorem aluResult_shiftOpW (k : ShiftOp) :
    aluResult k.fuOpW a b = (k.eval (word a) (b.extractLsb' 0 5).toNat).signExtend 64 := by
  cases k with
  | sll => exact congrArg sext32 (shiftResult32_sllw a b)
  | srl => exact congrArg sext32 (shiftResult32_srlw a b)
  | sra => exact congrArg sext32 (shiftResult32_sraw a b)

theorem aluResult_addw : aluResult .addw a b = (word a + word b).signExtend 64 := by
  have h := Branch.adderResult_add .addw ⟨a, b, 0⟩ rfl
  show sext32 ((Branch.adderResult .addw ⟨a, b, 0⟩).extractLsb' 0 32) = sext32 (word a + word b)
  rw [h, extractLsb'_low, word, BitVec.setWidth_add _ _ (by decide)]
  rfl

theorem aluResult_subw : aluResult .subw a b = (word a - word b).signExtend 64 := by
  have h := Branch.adderResult_sub .subw ⟨a, b, 0⟩ rfl
  show sext32 ((Branch.adderResult .subw ⟨a, b, 0⟩).extractLsb' 0 32) = sext32 (word a - word b)
  rw [h, extractLsb'_low, word_sub]

/-- Operations of the ALU on two registers. -/
theorem aluResult_regOp {k : RegOp} (h : k.fu = .alu) : k.eval a b = some (aluResult k.fuOp a b) := by
  cases k with
  | add => exact congrArg some (aluResult_immOp a b .addi).symm
  | sub => exact congrArg some (Branch.adderResult_sub .sub ⟨a, b, 0⟩ rfl).symm
  | sll => exact congrArg some (aluResult_shiftOp a b .sll).symm
  | slt => exact congrArg some (aluResult_immOp a b .slti).symm
  | sltu => exact congrArg some (aluResult_immOp a b .sltiu).symm
  | xor => rfl
  | srl => exact congrArg some (aluResult_shiftOp a b .srl).symm
  | sra => exact congrArg some (aluResult_shiftOp a b .sra).symm
  | or => rfl
  | and => rfl
  | _ => cases h

theorem aluResult_regOpW {k : RegOpW} (h : k.fu = .alu) :
    (k.eval (word a) (word b)).map (·.signExtend 64) = some (aluResult k.fuOp a b) := by
  have hsh (s : ShiftOp) := aluResult_shiftOpW a b s
  rw [word_amount] at hsh
  cases k with
  | addw => exact congrArg some (aluResult_addw a b).symm
  | subw => exact congrArg some (aluResult_subw a b).symm
  | sllw => exact congrArg some (hsh .sll).symm
  | srlw => exact congrArg some (hsh .srl).symm
  | sraw => exact congrArg some (hsh .sra).symm
  | _ => cases h

end Alu

/-! ### The multiplier -/

section Mul

variable (a b : BitVec 64)

theorem toInt_signed (sign : Bool) : (signed sign a).toInt = if sign then a.toInt else a.toNat := by
  unfold signed
  rw [Branch.toInt_ofBool_append]
  cases sign
  · simp
  · rw [Bool.and_true, BitVec.toInt_eq_msb_cond, BitVec.msb_eq_getLsbD_last]
    split <;> simp_all [BitVec.getLsbD_eq_getElem]

/-- The product of the operands as integers, signed or not. -/
theorem multResultD_eq (op : FuOp) : multResultD op a b =
    BitVec.ofInt 128 ((if op == .mulh || op == .mulhsu then a.toInt else a.toNat) *
      if op == .mulh then b.toInt else b.toNat) := by
  rw [BitVec.ofInt_mul, ← toInt_signed, ← toInt_signed]
  rfl

/-- The lower bits of a product. -/
theorem low_product {n : ℕ} (hn : n ≤ 64) :
    (BitVec.ofInt 128 (a.toNat * b.toNat)).extractLsb' 0 n = a.setWidth n * b.setWidth n := by
  have hdvd : 2 ^ n ∣ 2 ^ 128 := Nat.pow_dvd_pow 2 (by omega)
  apply BitVec.eq_of_toNat_eq
  rw [← Nat.cast_mul, BitVec.ofInt_natCast, BitVec.extractLsb'_toNat, BitVec.toNat_ofNat,
    BitVec.toNat_mul, BitVec.toNat_setWidth, BitVec.toNat_setWidth, Nat.shiftRight_zero,
    Nat.mod_mod_of_dvd _ hdvd, Nat.mul_mod]

/-- The result of the multiplier one cycle later. -/
theorem mulResult_regOp {k : RegOp} (h : k.fu = .mult) {v : BitVec 64} (hv : k.eval a b = some v)
    (c : Bool) (t : BitVec w) : mulResult ⟨c, t, k.fuOp, multResultD k.fuOp a b⟩ = v := by
  rw [multResultD_eq]
  cases k with
  | mul =>
    have he : a.setWidth 64 * b.setWidth 64 = v := by
      rw [BitVec.setWidth_eq, BitVec.setWidth_eq]
      exact Option.some.inj hv
    exact (low_product a b le_rfl).trans he
  | mulh => exact Option.some.inj hv
  | mulhsu => exact Option.some.inj hv
  | mulhu => exact Option.some.inj hv
  | div | divu | rem | remu => cases hv
  | _ => cases h

theorem mulResult_mulw (c : Bool) (t : BitVec w) :
    mulResult ⟨c, t, .mulw, multResultD .mulw a b⟩ = (word a * word b).signExtend 64 := by
  rw [multResultD_eq]
  exact congrArg sext32 (low_product a b (by decide))

end Mul

/-! ### Operands -/

/-- What the issue stage hands to the units for an instruction whose sources hold the values of
the registers `g`; `c` is the third, floating-point source. -/
def issued (e : IssueEntry) (g : Gpr) (c : BitVec 64) (t : BitVec w) : FuData w :=
  let o := operandSelect e (g.read (e.rs1.setWidth 5)) (g.read (e.rs2.setWidth 5)) c
  ⟨e.fu, e.op, o.1, o.2.1, o.2.2, t⟩

/-- It is what the stage registers when it issues the instruction. -/
theorem fuDataN_eq_issued {s : IssueStage.Regs w} {i : IssueStage.In w} {g : Gpr}
    (h1 : (issueInstr i).op.isRs1Fpr = false) (h2 : (issueInstr i).op.isRs2Fpr = false)
    (hg : ∀ r, source s i false r = g.read (r.setWidth 5)) :
    fuDataN s i = issued (issueInstr i) g (source s i true (rs3 (issueInstr i))) s.sb.issuePointer := by
  unfold fuDataN issued
  dsimp only
  rw [h1, h2, hg, hg]

/-- The operands of an operation, from the registers. -/
def operands (u : Uop) (pc : BitVec 64) (g : Gpr) (t : BitVec w) : FuData w :=
  ⟨u.fu, u.op, if u.usePc then pc else g.read (u.rs1.setWidth 5),
    if u.useImm && u.fu != .ctrlFlow then u.imm else g.read (u.rs2.setWidth 5), u.imm, t⟩

/-- Integer operations outside the load-store unit. -/
structure Uop.Integer (u : Uop) : Prop where
  noZimm : u.useZimm = false
  noStore : u.fu ≠ .store
  rs2 : u.op.isRs2Fpr = false
  imm : u.op.isImmFpr = false
  rd : (u.rd.setWidth 5).setWidth 6 = u.rd

theorem issued_eq {e : IssueEntry} (hu : Uop.Integer e.uop) (g : Gpr) (c : BitVec 64) (t : BitVec w) :
    issued (reName e) g c t = operands e.uop e.pc g t := by
  have hz : e.useZimm = false := hu.noZimm
  have hs : e.fu ≠ .store := hu.noStore
  have h2 : e.op.isRs2Fpr = false := hu.rs2
  have hi : e.op.isImmFpr = false := hu.imm
  have hw (r : BitVec 6) : ((r.setWidth 5).setWidth 6).setWidth 5 = r.setWidth 5 := by
    simp
  have hst : (e.fu != .store) = true := by simpa using hs
  simp [issued, operands, operandSelect, reName, IssueEntry.uop, hz, h2, hi, hw, hst]

/-! ### The units -/

/-- A cycle in which the operation `d` is started; the other inputs are those of `i`. -/
def start (d : FuData w) (pc : BitVec 64) (comp : Bool) (i : In w) : In w :=
  { i with unit := d.fu, fuData := d, pc := pc, isCompressed := comp }

/-- The answer to the operation started in the cycle `j`: of a multiplication it comes in the
next cycle, `i'`. -/
def answer (s : Regs w) (j i' : In w) : Out w := if j.unit = .mult then out (next s j) i' else out s j

/-- The address of the next instruction. -/
def nextPc (j : In w) : BitVec 64 :=
  if j.unit = .ctrlFlow then resolvedTarget j else (branchEntry j).nextPc

/-- The write-back port is free for the instruction: nothing that was started before answers
in its cycle, it is not flushed, and none of the other units answers in the next cycle. -/
structure Free (s : Regs w) (i i' : In w) : Prop where
  mult : s.multValid = false
  div : i.divValid = false
  flush : i.flush = false
  alu : i'.unit ≠ .alu
  csr : i'.unit ≠ .csr

/-- The issue stage starts nothing but multiplications and divisions behind one. -/
theorem unit_after_mult {s : IssueStage.Regs w} (h : s.unit = .mult) (i : IssueStage.In w) :
    (IssueStage.next s i).unit = .mult ∨ (IssueStage.next s i).unit = .none := by
  show (if _ then (issueInstr i).fu else .none) = Fu.mult ∨ (if _ then (issueInstr i).fu else .none) = Fu.none
  split
  next ha =>
    refine .inl ?_
    have hack : issueAck s i = true := by
      simp only [Bool.and_eq_true] at ha
      exact ha.1.1
    simp only [issueAck, Bool.and_eq_true, h, Bool.not_eq_true'] at hack
    simpa using hack.2
  next => exact .inr rfl

/-- So no product leaves in the cycle in which another unit is started. -/
theorem multValid_of_started {s : IssueStage.Regs w} {i : IssueStage.In w} {q : Regs w} {j : In w}
    (hj : j.unit = s.unit) (hm : (IssueStage.next s i).unit ≠ .mult)
    (hn : (IssueStage.next s i).unit ≠ .none) : (next q j).multValid = false := by
  have hu : s.unit ≠ .mult := by
    intro h
    rcases unit_after_mult h i with h' | h'
    · exact hm h'
    · exact hn h'
  simp [next, hj, hu]

section Units

variable {s : Regs w} {i i' : In w} {d : FuData w} {pc : BitVec 64} {comp : Bool}

/-- The length of an instruction. -/
def length (comp : Bool) : BitVec 64 := if comp then 2 else 4

theorem answer_alu (hd : d.fu = .alu) :
    answer s (start d pc comp i) i' =
      ⟨true, d.transId, aluResult d.operator d.operandA d.operandB⟩ ∧
    nextPc (start d pc comp i) = pc + length comp := by
  constructor
  · simp [answer, out, start, aluData, hd]
  · simp [nextPc, start, hd, branchEntry, ScoreboardEntry.nextPc, length]

theorem answer_mult (h : Free s i i') (hd : d.fu = .mult) (hop : isMul d.operator = true) :
    answer s (start d pc comp i) i' =
      ⟨true, d.transId, mulResult (w := w) ⟨true, d.transId, d.operator,
        multResultD d.operator d.operandA d.operandB⟩⟩ ∧
    nextPc (start d pc comp i) = pc + length comp := by
  constructor
  · simp [answer, out, next, start, multData, multValid, multTransId, multResult, hd, hop, h.alu, h.csr,
      h.flush]
  · simp [nextPc, start, hd, branchEntry, ScoreboardEntry.nextPc, length]

/-- The branch unit writes the address of the next instruction in memory, and goes where the
instruction set says. -/
theorem answer_branch (h : Free s i i') (hd : d.fu = .ctrlFlow) :
    answer s (start d pc comp i) i' = ⟨true, d.transId, pc + length comp⟩ ∧
    nextPc (start d pc comp i) =
      if d.operator = .jalr then (d.operandA + d.imm) &&& ~~~1#64
      else if Branch.isaTaken d.operator ⟨d.operandA, d.operandB, d.imm⟩ then pc + d.imm
      else pc + length comp := by
  constructor
  · simp [answer, out, start, multValid, hd, h.mult, h.div, branchEntry, ScoreboardEntry.nextPc, length]
  · have ht := Branch.predictAddress_writeBack ⟨d.operandA, d.operandB, d.imm⟩
      (branchEntry (start d pc comp i))
    have hn : nextPc (start d pc comp i) =
        Branch.resolvedTarget ⟨d.operandA, d.operandB, d.imm⟩ (branchEntry (start d pc comp i)) := by
      simp [nextPc, resolvedTarget, Branch.resolvedTarget, start, aluData, hd, branchEntry]
    rw [hn]
    exact ht

end Units

/-! ### Instructions -/

/-- The instructions with a result here are legal in every state. -/
theorem legal_of_exec {pc len : BitVec 64} {g : Gpr} {ins : Instr} {r : Result}
    (hr : exec pc len g ins = some r) (st : State) : ins.Legal st ∧ ∀ r1 r2, ins ≠ .sfenceVma r1 r2 := by
  cases ins <;> first | (cases hr; done) | exact ⟨trivial, fun _ _ h => nomatch h⟩

theorem integer_of_exec {pc len : BitVec 64} {g : Gpr} {ins : Instr} {r : Result}
    (hr : exec pc len g ins = some r) : Uop.Integer ins.uop := by
  have hrd (d : BitVec 5) : ((reg d).setWidth 5).setWidth 6 = reg d := by
    simp [reg]
  cases ins with
  | branch c => cases c <;> exact ⟨rfl, Fu.noConfusion, rfl, rfl, rfl⟩
  | opImm k => cases k <;> exact ⟨rfl, Fu.noConfusion, rfl, rfl, hrd _⟩
  | shiftImm k => cases k <;> exact ⟨rfl, Fu.noConfusion, rfl, rfl, hrd _⟩
  | shiftImmW k => cases k <;> exact ⟨rfl, Fu.noConfusion, rfl, rfl, hrd _⟩
  | op k => cases k <;> exact ⟨rfl, Fu.noConfusion, rfl, rfl, hrd _⟩
  | opW k => cases k <;> exact ⟨rfl, Fu.noConfusion, rfl, rfl, hrd _⟩
  | lui | auipc | jal | jalr | addiw => exact ⟨rfl, Fu.noConfusion, rfl, rfl, hrd _⟩
  | _ => cases hr

@[simp]
theorem setWidth_reg (r : BitVec 5) : (reg r).setWidth 5 = r := by
  simp [reg]

/-- The shift amount is the lower part of the immediate. -/
theorem shamt_imm (f : BitVec 6) (shamt : BitVec 6) :
    ((f ++ shamt).signExtend 64).extractLsb' 0 6 = shamt := by
  apply Lib.extractLsb'_eq_of_getLsbD
  intro k hk
  have h12 : k < 12 := by omega
  have h64 : k < 64 := by omega
  rw [Nat.zero_add, BitVec.getLsbD_signExtend, BitVec.getLsbD_append]
  simp [hk, h12, h64]

theorem shamt_immW (f : BitVec 7) (shamt : BitVec 5) :
    ((f ++ shamt).signExtend 64).extractLsb' 0 5 = shamt := by
  apply Lib.extractLsb'_eq_of_getLsbD
  intro k hk
  have h12 : k < 12 := by omega
  have h64 : k < 64 := by omega
  rw [Nat.zero_add, BitVec.getLsbD_signExtend, BitVec.getLsbD_append]
  simp [hk, h12, h64]

/-- What the units make of an operation that stands for an instruction. -/
def Computes (s : Regs w) (j i' : In w) (t : BitVec w) (rd : BitVec 6) (r : Result) : Prop :=
  nextPc j = r.nextPc ∧
    match r.write with
    | some (d, v) => rd = reg d ∧ answer s j i' = ⟨true, t, v⟩
    | none => rd = 0

section Instructions

variable {s : Regs w} {i i' : In w} {pc : BitVec 64} {comp : Bool} {g : Gpr} {t : BitVec w} {r : Result}

/-- The operation of an instruction, started in its unit. -/
def run (ins : Instr) (pc : BitVec 64) (comp : Bool) (g : Gpr) (t : BitVec w) (i : In w) : In w :=
  start (operands ins.uop pc g t) pc comp i

theorem computes_alu {ins : Instr} {d : BitVec 5} {v : BitVec 64} (hfu : ins.uop.fu = .alu)
    (hrd : ins.uop.rd = reg d)
    (hv : aluResult ins.uop.op (operands ins.uop pc g t).operandA (operands ins.uop pc g t).operandB = v) :
    Computes s (run ins pc comp g t i) i' t ins.uop.rd ⟨some (d, v), pc + length comp⟩ := by
  have h : answer s (run ins pc comp g t i) i' = ⟨true, t, aluResult ins.uop.op _ _⟩ ∧
      nextPc (run ins pc comp g t i) = pc + length comp := answer_alu hfu
  refine ⟨h.2, hrd, ?_⟩
  rw [← hv]
  exact h.1

theorem computes_mult (h : Free s i i') {ins : Instr} {d : BitVec 5} {v : BitVec 64}
    (hfu : ins.uop.fu = .mult) (hop : isMul ins.uop.op = true) (hrd : ins.uop.rd = reg d)
    (hv : mulResult (w := w) ⟨true, t, ins.uop.op, multResultD ins.uop.op
      (operands ins.uop pc g t).operandA (operands ins.uop pc g t).operandB⟩ = v) :
    Computes s (run ins pc comp g t i) i' t ins.uop.rd ⟨some (d, v), pc + length comp⟩ := by
  have ha : answer s (run ins pc comp g t i) i' = ⟨true, t, mulResult (w := w) ⟨true, t, ins.uop.op, _⟩⟩ ∧
      nextPc (run ins pc comp g t i) = pc + length comp := answer_mult h hfu hop
  refine ⟨ha.2, hrd, ?_⟩
  rw [← hv]
  exact ha.1

/-- The operations on two registers, in the ALU and in the multiplier. -/
theorem computes_op (h : Free s i i') (k : RegOp) (d r1 r2 : BitVec 5)
    (hr : exec pc (length comp) g (.op k d r1 r2) = some r) :
    Computes s (run (.op k d r1 r2) pc comp g t i) i' t (reg d) r := by
  obtain ⟨v, hv, rfl⟩ := Option.map_eq_some_iff.1 hr
  have hfu : k.fu = .alu ∨ k.fu = .mult := by cases k <;> simp [RegOp.fu]
  rcases hfu with hfu | hfu
  · refine computes_alu hfu rfl ?_
    have he := aluResult_regOp (g.read r1) (g.read r2) hfu
    rw [hv] at he
    simpa [operands, Instr.uop] using (Option.some.inj he).symm
  · have hop : isMul k.fuOp = true := by cases k <;> first | rfl | (cases hfu; done) | cases hv
    refine computes_mult h hfu hop rfl ?_
    simpa [operands, Instr.uop] using mulResult_regOp (g.read r1) (g.read r2) hfu hv true t

theorem computes_opW (h : Free s i i') (k : RegOpW) (d r1 r2 : BitVec 5)
    (hr : exec pc (length comp) g (.opW k d r1 r2) = some r) :
    Computes s (run (.opW k d r1 r2) pc comp g t i) i' t (reg d) r := by
  obtain ⟨v, hv, rfl⟩ := Option.map_eq_some_iff.1 hr
  have hfu : k.fu = .alu ∨ k.fu = .mult := by cases k <;> simp [RegOpW.fu]
  rcases hfu with hfu | hfu
  · refine computes_alu hfu rfl ?_
    have he := aluResult_regOpW (g.read r1) (g.read r2) hfu
    rw [hv] at he
    simpa [operands, Instr.uop] using (Option.some.inj he).symm
  · have hk : k = .mulw := by cases k <;> first | rfl | (cases hfu; done) | cases hv
    subst hk
    refine computes_mult h rfl rfl rfl ?_
    rw [← Option.some.inj hv]
    simpa [operands, Instr.uop, RegOpW.fuOp] using mulResult_mulw (g.read r1) (g.read r2) true t

/-- Jumps and branches. -/
theorem computes_jal (h : Free s i i') (d : BitVec 5) (imm : BitVec 20) :
    Computes s (run (.jal d imm) pc comp g t i) i' t (reg d)
      ⟨some (d, pc + length comp), pc + (imm ++ 0#1).signExtend 64⟩ := by
  have hb : answer s (run (.jal d imm) pc comp g t i) i' = ⟨true, t, pc + length comp⟩ ∧
      nextPc (run (.jal d imm) pc comp g t i) = _ := answer_branch h rfl
  exact ⟨hb.2, rfl, hb.1⟩

theorem computes_jalr (h : Free s i i') (d r : BitVec 5) (imm : BitVec 12) :
    Computes s (run (.jalr d r imm) pc comp g t i) i' t (reg d)
      ⟨some (d, pc + length comp), (g.read r + imm.signExtend 64) &&& ~~~1#64⟩ := by
  have hb : answer s (run (.jalr d r imm) pc comp g t i) i' = ⟨true, t, pc + length comp⟩ ∧
      nextPc (run (.jalr d r imm) pc comp g t i) = _ := answer_branch h rfl
  refine ⟨?_, rfl, hb.1⟩
  rw [hb.2]
  simp [operands, Instr.uop, immUop]

theorem computes_branch (h : Free s i i') (c : Cond) (r1 r2 : BitVec 5) (imm : BitVec 12) :
    Computes s (run (.branch c r1 r2 imm) pc comp g t i) i' t 0
      ⟨none, if c.holds (g.read r1) (g.read r2) then pc + (imm ++ 0#1).signExtend 64
        else pc + length comp⟩ := by
  have hb : answer s (run (.branch c r1 r2 imm) pc comp g t i) i' = ⟨true, t, pc + length comp⟩ ∧
      nextPc (run (.branch c r1 r2 imm) pc comp g t i) = _ := answer_branch h rfl
  have ht (d : Branch.FuData) : Branch.isaTaken c.fuOp d = c.holds d.operandA d.operandB := by
    cases c <;> rfl
  have hj : c.fuOp ≠ .jalr := by cases c <;> exact FuOp.noConfusion
  refine ⟨?_, rfl⟩
  rw [hb.2]
  simp [operands, Instr.uop, immUop, hj, ht]

/-- Every instruction with a result, from its operation. -/
theorem computes_exec (h : Free s i i') (ins : Instr) (hr : exec pc (length comp) g ins = some r) :
    Computes s (run ins pc comp g t i) i' t ins.uop.rd r := by
  cases ins with
  | lui d imm =>
    obtain rfl := Option.some.inj hr
    refine computes_alu rfl rfl ?_
    have hz : (operands (w := w) (Instr.lui d imm).uop pc g t).operandA = 0 := g.zero
    rw [hz]
    exact (aluResult_immOp 0 _ .addi).trans (BitVec.zero_add _)
  | auipc d imm =>
    obtain rfl := Option.some.inj hr
    exact computes_alu rfl rfl (aluResult_immOp pc _ .addi)
  | jal d imm =>
    obtain rfl := Option.some.inj hr
    exact computes_jal h d imm
  | jalr d r imm =>
    obtain rfl := Option.some.inj hr
    exact computes_jalr h d r imm
  | branch c r1 r2 imm =>
    obtain rfl := Option.some.inj hr
    exact computes_branch h c r1 r2 imm
  | opImm k d r imm =>
    obtain rfl := Option.some.inj hr
    refine computes_alu rfl rfl ?_
    have hv := aluResult_immOp (g.read r) (imm.signExtend 64) k
    simpa [operands, Instr.uop, immUop] using hv
  | shiftImm k d r shamt =>
    obtain rfl := Option.some.inj hr
    refine computes_alu rfl rfl ?_
    have hv := aluResult_shiftOp (g.read r) ((k.funct6 ++ shamt).signExtend 64) k
    rw [shamt_imm] at hv
    simpa [operands, Instr.uop, immUop] using hv
  | addiw d r imm =>
    obtain rfl := Option.some.inj hr
    refine computes_alu rfl rfl ?_
    have hv := aluResult_addw (g.read r) (imm.signExtend 64)
    rw [word_signExtend] at hv
    simpa [operands, Instr.uop, immUop] using hv
  | shiftImmW k d r shamt =>
    obtain rfl := Option.some.inj hr
    refine computes_alu rfl rfl ?_
    have hv := aluResult_shiftOpW (g.read r) ((k.funct6 ++ 0#1 ++ shamt).signExtend 64) k
    rw [shamt_immW] at hv
    simpa [operands, Instr.uop, immUop] using hv
  | op k d r1 r2 => exact computes_op h k d r1 r2 hr
  | opW k d r1 r2 => exact computes_opW h k d r1 r2 hr
  | _ => cases hr

end Instructions

/-- Decoding an instruction, selecting its operands and running it gives the result the
instruction set prescribes. -/
theorem executes_isa {x : Decoder.In} (hex : x.ex.valid = false) {ins : Instr}
    (hw : encode ins = x.instruction) {g : Gpr} {r : Result}
    (hr : exec x.pc (length x.isCompressed) g ins = some r) (c : BitVec 64) (t : BitVec w) {s : Regs w}
    {i i' : In w} (hfree : Free s i i') :
    (decode x).Is x.instruction ins ∧
      Computes s (start (issued (reName (instructionO x)) g c t) x.pc x.isCompressed i) i' t
        (reName (instructionO x)).rd r := by
  obtain ⟨hl, hne⟩ := legal_of_exec hr x.state
  have his := decodes_encode hex (fun r1 r2 h => absurd h (hne r1 r2)) hw hl
  have hu : (instructionO x).uop = ins.uop := his.uop
  have hint : Uop.Integer (instructionO x).uop := by
    rw [hu]
    exact integer_of_exec hr
  have hrd : (reName (instructionO x)).rd = ins.uop.rd := by
    rw [← hu]
    exact hint.rd
  refine ⟨his, ?_⟩
  rw [issued_eq hint, hu, hrd]
  exact computes_exec hfree ins hr

/-- `JALR x1, 2(x5)` from a compressed word at `0x80000000` with `x5 = 0x1001`: the link is the
address two bytes on, the target `0x1002`. -/
def jalrIn : Decoder.In where
  debugReq := false
  pc := 0x80000000
  isCompressed := true
  compressedInstr := 0
  isIllegal := false
  instruction := encode (.jalr 1 5 2)
  branchPredict := ⟨0⟩
  ex := Exn.none
  irq := 0
  irqCtrl := ⟨0, 0, 0, false, false⟩
  privLvl := Riscv.privLvlM
  debugMode := false
  fs := Riscv.Xs.off
  frm := 0
  tvm := false
  tw := false
  tsr := false

/-- Register five holds `0x1001`. -/
def fiveGpr : Gpr := ⟨fun r => if r = 5 then 0x1001 else 0, rfl⟩

/-- No unit is started and none answers. -/
def idle : In w := ⟨false, .none, FuData.zero, 0, false, 0, false, 0, 0⟩

theorem executes_isa_jalr :
    (decode jalrIn).Is (encode (.jalr 1 5 2)) (.jalr 1 5 2) ∧
      Computes (w := 3) reset (start (issued (reName (instructionO jalrIn)) fiveGpr 0 0) 0x80000000 true idle)
        idle 0 (reName (instructionO jalrIn)).rd ⟨some (1, 0x80000002), 0x1002⟩ :=
  executes_isa rfl rfl rfl 0 0 ⟨rfl, rfl, rfl, Fu.noConfusion, Fu.noConfusion⟩

end Flu
end Ariane

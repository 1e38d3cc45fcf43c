/-
# The write-back port of the fixed-latency units

`src/ex_stage.sv` with `src/csr_buffer.sv`: the ALU, the branch unit, the CSR buffer and the
units of `mult.sv` write back over one port without an arbiter. That no two of them have a
result in one cycle follows from what `issue_read_operands.sv` starts: nothing while the
divider is not ready, and only multiplications and divisions behind one of them.

`Watched` keeps the operations that are started and not answered; an operation leaves the
list when the port shows its transaction id and its result. All that comes from elsewhere
(instructions, commits, the other write-back ports, flushes) is arbitrary.
-/
import Ariane.Decode.Decoder
import Ariane.Execute.Mult
import Ariane.Issue.Operands

namespace Ariane
namespace Port

open IssueStage (FuData)
open Flu (isMul)
open Mult (isDiv isWord)
open Lib (Machine)

variable {w : ℕ}

/-! ### The stage -/

/-- `csr_reg_q`. -/
structure CsrReg where
  csrAddress : BitVec 12
  valid : Bool

structure Regs (w : ℕ) where
  issue : IssueStage.Regs w
  mult : Mult.Regs w
  csr : CsrReg

def reset : Regs w := ⟨IssueStage.reset, Mult.reset, ⟨0, false⟩⟩

/-- The inputs of a cycle. The flag `flu_ready` in those of the issue stage is not used, and
its flush is that of both stages (`flush_id_o` and `flush_ex_o` of the controller are one). -/
structure In (w : ℕ) where
  issue : IssueStage.In w
  pc : BitVec 64
  isCompressed : Bool
  csrCommit : Bool

section Comb

variable (s : Regs w) (i : In w)

/-- `mult_data` and `mult_valid_i`. -/
def multIn : Mult.In w :=
  ⟨i.issue.flush, if s.issue.unit == .mult then s.issue.fuData else Flu.FuData.zero,
    s.issue.unit == .mult⟩

/-- What the port is fed with. -/
def fluIn : Flu.In w where
  flush := i.issue.flush
  unit := s.issue.unit
  fuData := s.issue.fuData
  pc := i.pc
  isCompressed := i.isCompressed
  csrResult := s.issue.fuData.operandA
  divValid := Mult.divValid s.mult (multIn s i)
  divTransId := s.mult.div.id
  divResult := Mult.divResult s.mult

/-- The port: `flu_valid_o`, `flu_trans_id_o` and `flu_result_o`. -/
def out : Flu.Out w := Flu.out s.mult.mul (fluIn s i)

/-- `csr_ready` and `flu_ready_o`. -/
def csrReady : Bool := !((s.csr.valid || s.issue.unit == .csr) && !i.csrCommit)
def fluReady : Bool := csrReady s i && Mult.multReadyO s.mult (multIn s i)

def csrNext : CsrReg where
  csrAddress := if s.issue.unit == .csr then s.issue.fuData.operandB.extractLsb' 0 12 else s.csr.csrAddress
  valid :=
    if i.issue.flush then false
    else if s.issue.unit == .csr then true
    else if i.csrCommit then false
    else s.csr.valid

def issueIn : IssueStage.In w := { i.issue with fluReady := fluReady s i }

def next : Regs w where
  issue := IssueStage.next s.issue (issueIn s i)
  mult := Mult.next s.mult (multIn s i)
  csr := csrNext s i

/-- The pipeline register of the multiplier is that of the stage. -/
theorem mul_next : (next s i).mult.mul = Flu.next s.mult.mul (fluIn s i) := by
  simp only [next, Mult.next, Flu.next, Flu.multData, multIn, fluIn, Mult.mulValidOp]
  rw [Bool.and_assoc, Bool.and_self]
  rfl

/-- So are the outputs of `mult.sv`. -/
theorem mult_out : Flu.multValid s.mult.mul (fluIn s i) = Mult.multValidO s.mult (multIn s i) ∧
    Flu.multTransId s.mult.mul (fluIn s i) = Mult.multTransIdO s.mult ∧
    Flu.multResult s.mult.mul (fluIn s i) = Mult.resultO s.mult := ⟨rfl, rfl, rfl⟩

end Comb

/-! ### The operations under way -/

/-- The units that share the port, and those of them that answer at once. -/
def isFlu : Fu → Bool
  | .alu | .ctrlFlow | .csr | .mult => true
  | _ => false

def isSingle : Fu → Bool
  | .alu | .ctrlFlow | .csr => true
  | _ => false

/-- The pipeline register with the product of an operation. -/
def product (d : FuData w) : Flu.Regs w :=
  ⟨true, d.transId, d.operator, Flu.multResultD d.operator d.operandA d.operandB⟩

/-- The result of an operation. -/
def answer (i : Flu.In w) (d : FuData w) : BitVec 64 :=
  match d.fu with
  | .alu => Flu.aluResult d.operator d.operandA d.operandB
  | .csr => d.operandA
  | .mult =>
    if isMul d.operator then Flu.mulResult (product d)
    else Mult.divMux (isWord d.operator) (Mult.requestOf d).answer
  | _ => (Flu.branchEntry i).nextPc

/-- The cycles an operation may take after the one it starts in. -/
def latency (d : FuData w) : ℕ :=
  if d.fu = .mult then if isMul d.operator then 1 else 66 else 0

/-- An operation that is started and not answered, with its age. -/
structure Owed (w : ℕ) where
  data : FuData w
  age : ℕ

def Owed.older (e : Owed w) : Owed w := { e with age := e.age + 1 }

structure Watched (w : ℕ) where
  regs : Regs w
  owed : List (Owed w)

def start : Watched w := ⟨reset, []⟩

/-- The port shows the operation's transaction id and its result. -/
def shows (s : Regs w) (i : In w) (e : Owed w) : Bool :=
  (out s i).transId == e.data.transId && (out s i).result == answer (fluIn s i) e.data

/-- The operation that enters a unit at the port. -/
def issues (s : Regs w) (i : In w) : Option (FuData w) :=
  if isFlu (next s i).issue.unit then some (next s i).issue.fuData else none

/-- The operations that are left by the port. -/
def left (u : Watched w) (i : In w) : List (Owed w) :=
  if (out u.regs i).valid then u.owed.eraseP (shows u.regs i) else u.owed

def watched (w : ℕ) : Machine (Watched w) (In w) where
  init u := u = start
  next u i :=
    { regs := next u.regs i
      owed := (if i.issue.flush then [] else (left u i).map Owed.older) ++
        (issues u.regs i).toList.map fun d => ⟨d, 0⟩ }

/-- What is asked of the port in a cycle. -/
structure Answers (u : Watched w) (i : In w) : Prop where
  /-- One unit at most has a result. -/
  exclusive : (isSingle u.regs.issue.unit).toNat + u.regs.mult.mul.multValid.toNat +
    (Mult.divValid u.regs.mult (multIn u.regs i)).toNat ≤ 1
  /-- A result is that of an operation under way, -/
  own : (out u.regs i).valid = true → ∃ e ∈ u.owed, shows u.regs i e = true
  /-- which it answers for good, and for no other. -/
  once : i.issue.flush = false → ((watched w).next u i).owed.length + (out u.regs i).valid.toNat =
    u.owed.length + (issues u.regs i).toList.length
  /-- No operation waits longer than its unit takes. -/
  prompt : ∀ e ∈ u.owed, e.age ≤ latency e.data

def Law (u : Watched w) : Prop := ∀ i, Answers u i

/-! ### What may be started -/

section Decode

open Decoder

theorem mult_regReg {x : Decoder.In} {t : BitVec 7 → BitVec 3 → Option FuOp}
    (ht : ∀ f3, (t 1 f3).all (fun op => isMul op || isDiv op) = true)
    (hl : (regReg x t).illegalInstr = false) (hfu : (regReg x t).fu = .mult) :
    (isMul (regReg x t).op || isDiv (regReg x t).op) = true := by
  have h7 : funct7 x.instruction = 1 := by
    by_contra hn
    have halu : (regReg x t).fu = .alu := if_neg hn
    rw [halu] at hfu
    cases hfu
  have hop := ht (funct3 x.instruction)
  simp only [regReg, Decoded.table, defaults, Bool.false_or, h7] at hl ⊢
  cases hopt : t 1 (funct3 x.instruction) with
  | none =>
    rw [hopt] at hl
    cases hl
  | some op =>
    rw [hopt] at hop
    exact hop

theorem mult_opcode {x : Decoder.In} (o : Opcode) (hl : (decodeOpcode x o).illegalInstr = false)
    (hfu : (decodeOpcode x o).fu = .mult) :
    (isMul (decodeOpcode x o).op || isDiv (decodeOpcode x o).op) = true := by
  have hno {fu : Fu} (h : (decodeOpcode x o).fu = fu) (hne : fu ≠ .mult) :
      (isMul (decodeOpcode x o).op || isDiv (decodeOpcode x o).op) = true :=
    absurd (h.symm.trans hfu) hne
  have hoff {d : Decoded} {p : Prop} [Decidable p] (h : d.fu ≠ .mult) :
      (if p then d else { defaults with illegalInstr := true }).fu ≠ .mult := by
    split
    · exact h
    · exact Fu.noConfusion
  cases o with
  | op =>
    by_cases h : x.instruction.extractLsb' 30 2 = 0b10
    · have hill : (decodeOp x).illegalInstr = true := by rw [decodeOp, if_pos h]
      exact absurd (hill.symm.trans hl) Bool.noConfusion
    · have hop : decodeOp x = regReg x opTable := if_neg h
      rw [decodeOpcode, hop] at hl hfu ⊢
      exact mult_regReg (by decide) hl hfu
  | op32 => exact mult_regReg (t := op32Table) (by decide) hl hfu
  | system => exact hno (runs_system x).2 Fu.noConfusion
  | miscMem =>
    have hfu' : (decodeMiscMem x).fu = .csr := by
      unfold decodeMiscMem
      dsimp only
      split <;> rfl
    exact hno hfu' Fu.noConfusion
  | amo =>
    have hfu' : (decodeAmo x).fu = .store := by
      unfold decodeAmo
      dsimp only
      split_ifs <;> rfl
    exact hno hfu' Fu.noConfusion
  | opFp =>
    refine absurd hfu ?_
    have h := runs_opFp x { defaults with fu := .fpu, rs1 := x.rs1, rs2 := x.rs2, rd := x.rd } rfl
    refine hoff ?_
    simp only [fpChecks, h.2]
    exact Fu.noConfusion
  | storeFp | loadFp | madd | msub | nmsub | nmadd => exact absurd hfu (hoff Fu.noConfusion)
  | _ => exact hno rfl Fu.noConfusion

/-- The decoder sends only multiplications and divisions to `mult.sv`. -/
theorem mult_decode {x : Decoder.In} (hex : (exO x).valid = false) (hfu : (decode x).fu = .mult) :
    (isMul (decode x).op || isDiv (decode x).op) = true := by
  obtain ⟨hv, -, hl, -⟩ := legal_of_exO x hex
  revert hl hfu
  unfold decode
  rw [hv, if_neg Bool.false_ne_true]
  split
  · exact fun hfu hl => mult_opcode _ hl hfu
  · exact fun hfu => absurd hfu Fu.noConfusion

end Decode

/-- What the issue stage starts at the port: only if the units are ready, and after an operation
of `mult.sv` only another one. -/
theorem started (s : Regs w) (i : In w) (h : isFlu (next s i).issue.unit = true) :
    fluReady s i = true ∧ (s.issue.unit = .mult → (next s i).issue.unit = .mult) ∧
      (next s i).issue.fuData.fu = (next s i).issue.unit ∧
      ((next s i).issue.unit = .mult →
        (isMul (next s i).issue.fuData.operator || isDiv (next s i).issue.fuData.operator) = true) := by
  have hunit : (next s i).issue.unit =
      if IssueStage.issueAck s.issue (issueIn s i) && !(IssueStage.issueInstr (issueIn s i)).ex.valid &&
        !i.issue.flushUnissuedInstr then (IssueStage.issueInstr (issueIn s i)).fu else .none := rfl
  cases hgo : IssueStage.issueAck s.issue (issueIn s i) && !(IssueStage.issueInstr (issueIn s i)).ex.valid &&
    !i.issue.flushUnissuedInstr with
  | false =>
    rw [hunit, hgo] at h
    cases h
  | true =>
    rw [hgo, if_pos rfl] at hunit
    rw [hunit] at h ⊢
    simp only [IssueStage.issueAck, Bool.and_eq_true, Bool.or_eq_true, Bool.not_eq_true'] at hgo
    obtain ⟨⟨⟨⟨-, hwhy⟩, hmult⟩, hex⟩, -⟩ := hgo
    have hready : fluReady s i = true := by
      rcases hwhy with (⟨⟨-, hbusy⟩, -⟩ | hv) | hnone
      · unfold IssueStage.fuBusy at hbusy
        revert h hbusy
        cases (IssueStage.issueInstr (issueIn s i)).fu <;> simp [isFlu, issueIn]
      · rw [hex] at hv
        cases hv
      · rw [beq_iff_eq.1 hnone] at h
        cases h
    refine ⟨hready, ?_, rfl, fun hfu => ?_⟩
    · intro hu
      rw [hu] at hmult
      simpa using hmult
    · exact mult_decode hex hfu

/-- The units are ready: the divider is idle and not about to start. -/
theorem idle_of_fluReady {s : Regs w} {i : In w} (h : fluReady s i = true) :
    i.issue.flush = false ∧ s.mult.div.state = .idle ∧ Mult.divValidOp (multIn s i) = false := by
  obtain ⟨-, hrdy⟩ := Bool.and_eq_true_iff.1 h
  unfold Mult.multReadyO Serdiv.inRdyO Serdiv.fsm Serdiv.stateCase at hrdy
  have hflush : (Mult.divIn s.mult (multIn s i)).flush = i.issue.flush := rfl
  have hvld : (Mult.divIn s.mult (multIn s i)).inVld = Mult.divValidOp (multIn s i) := rfl
  rw [hflush, hvld] at hrdy
  cases hf : i.issue.flush with
  | true =>
    rw [hf, if_pos rfl] at hrdy
    cases hrdy
  | false =>
    rw [hf, if_neg Bool.false_ne_true] at hrdy
    refine ⟨rfl, ?_⟩
    cases hs : s.mult.div.state with
    | idle =>
      refine ⟨rfl, ?_⟩
      rw [hs] at hrdy
      cases hd : Mult.divValidOp (multIn s i) with
      | false => rfl
      | true =>
        rw [hd] at hrdy
        cases hrdy
    | divide =>
      rw [hs] at hrdy
      dsimp only at hrdy
      split_ifs at hrdy
    | finish =>
      rw [hs] at hrdy
      cases hrdy

/-! ### What is under way -/

/-- The operation behind the issue register. -/
def atUnit (s : Regs w) : List (Owed w) :=
  if isFlu s.issue.unit then [⟨s.issue.fuData, 0⟩] else []

/-- The operations that were started in an earlier cycle. -/
inductive Stage (s : Regs w) : List (Owed w) → Prop
  | empty (idle : s.mult.div.state = .idle) (mul : s.mult.mul.multValid = false) : Stage s []
  | product (d : FuData w) (idle : s.mult.div.state = .idle) (mul : s.mult.mul = product d)
      (unit : d.fu = .mult) (operator : isMul d.operator = true)
      (behind : isFlu s.issue.unit = true → s.issue.unit = .mult) : Stage s [⟨d, 1⟩]
  | division (d : FuData w) (age : ℕ) (mul : s.mult.mul.multValid = false)
      (inv : Mult.Inv ⟨s.mult, some d, age⟩) (time : age ≤ 65) (unit : d.fu = .mult)
      (behind : isFlu s.issue.unit = false) : Stage s [⟨d, age + 1⟩]

structure Inv (u : Watched w) : Prop where
  data : isFlu u.regs.issue.unit = true → u.regs.issue.fuData.fu = u.regs.issue.unit ∧
    (u.regs.issue.unit = .mult →
      (isMul u.regs.issue.fuData.operator || isDiv u.regs.issue.fuData.operator) = true)
  owed : ∃ old, Stage u.regs old ∧ u.owed = old ++ atUnit u.regs

theorem divValid_of_idle {s : Regs w} {i : In w} (h : s.mult.div.state = .idle) :
    Mult.divValid s.mult (multIn s i) = false := by
  rw [Bool.eq_false_iff]
  intro hv
  exact ((Serdiv.outVldO_eq _ _).1 hv).1.ne_idle h

theorem isDiv_of_isMul {op : FuOp} (h : isMul op = true) : isDiv op = false := by
  cases op <;> first | rfl | cases h

/-- A unit that answers at once shows its result. -/
theorem shows_single {s : Regs w} {i : In w} {n : ℕ} (hu : isSingle s.issue.unit = true)
    (hfu : s.issue.fuData.fu = s.issue.unit) (hmul : s.mult.mul.multValid = false)
    (hdiv : Mult.divValid s.mult (multIn s i) = false) :
    (out s i).valid = true ∧ shows s i ⟨s.issue.fuData, n⟩ = true := by
  have hm : Flu.multValid s.mult.mul (fluIn s i) = false := by
    rw [Flu.multValid, hmul, Bool.or_false]
    exact hdiv
  unfold isSingle at hu
  unfold shows out Flu.out answer
  rw [hm, hfu]
  have hunit : (fluIn s i).unit = s.issue.unit := rfl
  have hdata : (fluIn s i).fuData = s.issue.fuData := rfl
  have hcsr : (fluIn s i).csrResult = s.issue.fuData.operandA := rfl
  have halu : s.issue.unit = .alu → Flu.aluData (fluIn s i) = s.issue.fuData := by
    intro h
    rw [Flu.aluData, hunit, h]
    rfl
  rw [hunit, hdata, hcsr]
  cases hs : s.issue.unit with
  | alu =>
    rw [halu hs]
    simp
  | ctrlFlow => simp
  | csr => simp
  | _ =>
    rw [hs] at hu
    cases hu

/-- The multiplier shows its product. -/
theorem shows_product {s : Regs w} {i : In w} {d : FuData w} {n : ℕ} (hu : isSingle s.issue.unit = false)
    (hmul : s.mult.mul = product d) (hfu : d.fu = .mult) (hop : isMul d.operator = true) :
    (out s i).valid = true ∧ shows s i ⟨d, n⟩ = true := by
  have hm : Flu.multValid s.mult.mul (fluIn s i) = true := by
    rw [Flu.multValid, hmul]
    exact Bool.or_true _
  unfold isSingle at hu
  unfold shows out Flu.out answer Flu.multTransId Flu.multResult
  rw [hm, hfu, hmul]
  have hunit : (fluIn s i).unit = s.issue.unit := rfl
  rw [hunit]
  cases hs : s.issue.unit <;> rw [hs] at hu <;> first | cases hu; done | simp [product, hop]

/-- The divider shows its answer. -/
theorem shows_division {s : Regs w} {i : In w} {d : FuData w} {age n : ℕ} (hu : isSingle s.issue.unit = false)
    (hmul : s.mult.mul.multValid = false) (hinv : Mult.Inv ⟨s.mult, some d, age⟩) (hfu : d.fu = .mult)
    (hv : Mult.divValid s.mult (multIn s i) = true) :
    (out s i).valid = true ∧ shows s i ⟨d, n⟩ = true := by
  obtain ⟨d', hd, hop, hid, hres⟩ := hinv.presents hv
  obtain rfl : d = d' := Option.some.inj hd
  have hno : isMul d.operator = false := by
    rw [Bool.eq_false_iff]
    intro h
    rw [isDiv_of_isMul h] at hop
    cases hop
  have hm : Flu.multValid s.mult.mul (fluIn s i) = true := by
    rw [Flu.multValid, hmul, Bool.or_false]
    exact hv
  unfold isSingle at hu
  unfold shows out Flu.out answer Flu.multTransId Flu.multResult
  rw [hm, hfu, hmul]
  have hunit : (fluIn s i).unit = s.issue.unit := rfl
  have hid' : (fluIn s i).divTransId = d.transId := hid
  have hres' : (fluIn s i).divResult = Mult.divMux (isWord d.operator) (Mult.requestOf d).answer := hres
  rw [hunit, hid', hres']
  cases hs : s.issue.unit <;> rw [hs] at hu <;> first | cases hu; done | simp [hno]

theorem isFlu_eq (fu : Fu) : isFlu fu = (isSingle fu || fu == .mult) := by cases fu <;> rfl

theorem not_single {fu : Fu} (h : isFlu fu = true → fu = .mult) : isSingle fu = false := by
  rw [isFlu_eq] at h
  cases hs : isSingle fu with
  | false => rfl
  | true =>
    rw [hs, Bool.true_or] at h
    rw [h rfl] at hs
    cases hs

/-! ### A cycle -/

/-- What `mult.sv` is started with while the divider is idle. -/
theorem stage_started {s : Regs w} {i : In w} (hidle : s.mult.div.state = .idle) (hf : i.issue.flush = false)
    (hdata : isFlu s.issue.unit = true → s.issue.fuData.fu = s.issue.unit ∧ (s.issue.unit = .mult →
      (isMul s.issue.fuData.operator || isDiv s.issue.fuData.operator) = true)) :
    Stage (next s i) (if s.issue.unit = .mult then [⟨s.issue.fuData, 1⟩] else []) := by
  have hstart : Mult.Inv (⟨s.mult, none, 0⟩ : Mult.Watched w) :=
    ⟨hidle, fun d h => absurd h.symm (Option.some_ne_none d)⟩
  have hnext := Mult.inv_next hstart (multIn s i) fun _ _ => hidle
  have hflush : (multIn s i).flush = false := hf
  have hacc : Mult.accepts s.mult (multIn s i) = Mult.divValidOp (multIn s i) := by
    have hf' : (Mult.divIn s.mult (multIn s i)).flush = false := hf
    rw [Mult.accepts, Serdiv.accepts, hidle, hf', Bool.not_false, Bool.and_true]
    exact Bool.true_and _
  have htak : Mult.taken s.mult (multIn s i) = false := by
    rw [Mult.taken, Serdiv.taken, show Serdiv.outVldO s.mult.div (Mult.divIn s.mult (multIn s i)) = false from
      divValid_of_idle hidle, Bool.false_and]
  have hmulReg : (next s i).mult.mul.multValid = (Mult.mulValidOp (multIn s i) && isMul (multIn s i).fuData.operator) :=
    rfl
  by_cases hu : s.issue.unit = .mult
  · obtain ⟨hfu, hop⟩ := hdata (by rw [hu]; rfl)
    have hin : multIn s i = ⟨false, s.issue.fuData, true⟩ := by
      simp only [multIn, hf, hu, beq_self_eq_true, if_true]
    rw [if_pos hu]
    rw [hu] at hfu
    rcases Bool.or_eq_true_iff.1 (hop hu) with hmul | hdiv
    · have hdv : Mult.divValidOp (multIn s i) = false := by
        rw [Mult.divValidOp, hin, isDiv_of_isMul hmul, Bool.and_false]
      refine .product _ ?_ ?_ hfu hmul fun h => (started s i h).2.1 hu
      · refine hnext.divider.free.1 ?_
        simp only [Mult.watched, Mult.Watched.divider, hacc, hdv, htak, hflush, Bool.false_eq_true, if_false]
        rfl
      · simp only [next, Mult.next, Mult.mulValidOp, hin, hmul]
        rfl
    · have hno : isMul s.issue.fuData.operator = false := by
        rw [Bool.eq_false_iff]
        intro h
        rw [isDiv_of_isMul h] at hdiv
        cases hdiv
      have hdv : Mult.divValidOp (multIn s i) = true := by
        rw [Mult.divValidOp, hin, hdiv]
        rfl
      refine .division _ 0 ?_ ?_ (by omega) hfu ?_
      · rw [hmulReg, hin, hno, Bool.and_false]
      · simp only [Mult.watched, hacc, hdv, hflush, Bool.false_eq_true, if_false, if_true] at hnext
        rw [hin] at hnext
        have hmult : (next s i).mult = Mult.next s.mult ⟨false, s.issue.fuData, true⟩ :=
          congrArg (Mult.next s.mult) hin
        rw [hmult]
        exact hnext
      · rw [Bool.eq_false_iff]
        intro h
        have := (idle_of_fluReady (started s i h).1).2.2
        rw [hdv] at this
        cases this
  · have hin : (multIn s i).multValid = false := beq_eq_false_iff_ne.2 hu
    rw [if_neg hu]
    refine .empty ?_ ?_
    · refine hnext.divider.free.1 ?_
      have hdv : Mult.divValidOp (multIn s i) = false := by
        rw [Mult.divValidOp, hin, Bool.and_false, Bool.false_and]
      simp only [Mult.watched, Mult.Watched.divider, hacc, hdv, htak, hflush, Bool.false_eq_true, if_false]
      rfl
    · rw [hmulReg, Mult.mulValidOp, hin, Bool.and_false, Bool.false_and, Bool.false_and]

theorem stage_flush {s : Regs w} {i : In w} (hf : i.issue.flush = true) : Stage (next s i) [] := by
  refine .empty (Serdiv.next_flush _ _ hf) ?_
  simp only [next, Mult.next, Mult.mulValidOp, multIn, hf, Bool.not_true, Bool.false_and]

/-- What is left by the port is what was started earlier, or has been started now in `mult.sv`. -/
theorem left_of_shows {u : Watched w} {i : In w} {e : Owed w} {es : List (Owed w)} (ho : u.owed = e :: es)
    (hs : (out u.regs i).valid = true ∧ shows u.regs i e = true) : left u i = es := by
  rw [left, if_pos hs.1, ho, List.eraseP_cons_of_pos hs.2]

theorem left_of_idle {u : Watched w} {i : In w} (hs : (out u.regs i).valid = false) : left u i = u.owed := by
  rw [left, hs, if_neg Bool.false_ne_true]

theorem valid_eq (s : Regs w) (i : In w) : (out s i).valid =
    (isSingle s.issue.unit || (Mult.divValid s.mult (multIn s i) || s.mult.mul.multValid)) := by
  have h : (out s i).valid = (s.issue.unit == .alu || s.issue.unit == .ctrlFlow || s.issue.unit == .csr ||
    (Mult.divValid s.mult (multIn s i) || s.mult.mul.multValid)) := rfl
  rw [h]
  cases s.issue.unit <;> rfl

/-- The port in a cycle: it is silent, or it shows the result of the oldest operation. -/
inductive Course (u : Watched w) (i : In w) : Prop
  | silent (valid : (out u.regs i).valid = false)
  | shown (e : Owed w) (es : List (Owed w)) (owed : u.owed = e :: es)
      (shows : (out u.regs i).valid = true ∧ shows u.regs i e = true)

/-- What a cycle does with the operations under way. -/
structure Cycle (u : Watched w) (i : In w) : Prop where
  course : Course u i
  exclusive : (isSingle u.regs.issue.unit).toNat + u.regs.mult.mul.multValid.toNat +
    (Mult.divValid u.regs.mult (multIn u.regs i)).toNat ≤ 1
  stage : i.issue.flush = false → Stage (next u.regs i) ((left u i).map Owed.older)

/-- Nothing was started before: the operation behind the issue register answers at once, or goes
to `mult.sv`. -/
theorem cycle_empty {u : Watched w} (h : Inv u) (i : In w) (hidle : u.regs.mult.div.state = .idle)
    (hmul : u.regs.mult.mul.multValid = false) (ho : u.owed = atUnit u.regs) : Cycle u i := by
  have hdiv := divValid_of_idle (i := i) hidle
  have hvalid := valid_eq u.regs i
  rw [hdiv, hmul, Bool.or_false, Bool.or_false] at hvalid
  have hstage (hf : i.issue.flush = false) := stage_started hidle hf h.data
  cases hu : isSingle u.regs.issue.unit with
  | true =>
    have hflu : isFlu u.regs.issue.unit = true := by rw [isFlu_eq, hu, Bool.true_or]
    have hs := shows_single (i := i) (n := 0) hu (h.data hflu).1 hmul hdiv
    have ho' : u.owed = [⟨u.regs.issue.fuData, 0⟩] := by rw [ho, atUnit, if_pos hflu]
    refine ⟨.shown _ _ ho' hs, by rw [hu, hmul, hdiv]; decide, fun hf => ?_⟩
    have hno : u.regs.issue.unit ≠ .mult := by
      intro he
      rw [he] at hu
      cases hu
    have hst := hstage hf
    rw [if_neg hno] at hst
    rw [left_of_shows ho' hs]
    exact hst
  | false =>
    rw [hu] at hvalid
    refine ⟨.silent hvalid, by rw [hu, hmul, hdiv]; decide, fun hf => ?_⟩
    have hst := hstage hf
    rw [left_of_idle hvalid, ho, atUnit, isFlu_eq, hu, Bool.false_or]
    by_cases hm : u.regs.issue.unit = .mult
    · rw [if_pos hm] at hst
      rw [hm]
      exact hst
    · rw [if_neg hm] at hst
      rw [if_neg (by simpa using hm)]
      exact hst

/-- A product is shown, and what is behind it goes to `mult.sv`. -/
theorem cycle_product {u : Watched w} (h : Inv u) (i : In w) {d : FuData w}
    (hidle : u.regs.mult.div.state = .idle) (hmul : u.regs.mult.mul = product d) (hfu : d.fu = .mult)
    (hop : isMul d.operator = true) (hbehind : isFlu u.regs.issue.unit = true → u.regs.issue.unit = .mult)
    (ho : u.owed = ⟨d, 1⟩ :: atUnit u.regs) : Cycle u i := by
  have hdiv := divValid_of_idle (i := i) hidle
  have hu := not_single hbehind
  have hs := shows_product (i := i) (n := 1) hu hmul hfu hop
  have hmv : u.regs.mult.mul.multValid = true := by rw [hmul]; rfl
  refine ⟨.shown _ _ ho hs, by rw [hu, hmv, hdiv]; decide, fun hf => ?_⟩
  have hst := stage_started hidle hf h.data
  rw [left_of_shows ho hs, atUnit]
  by_cases hm : u.regs.issue.unit = .mult
  · rw [if_pos hm] at hst
    rw [hm]
    exact hst
  · rw [if_neg hm] at hst
    rw [if_neg (mt hbehind hm)]
    exact hst

/-- A division goes on until its result is shown. -/
theorem cycle_division {u : Watched w} (i : In w) {d : FuData w} {age : ℕ}
    (hmul : u.regs.mult.mul.multValid = false) (hinv : Mult.Inv ⟨u.regs.mult, some d, age⟩)
    (ht : age ≤ 65) (hfu : d.fu = .mult) (hbehind : isFlu u.regs.issue.unit = false)
    (ho : u.owed = [⟨d, age + 1⟩]) : Cycle u i := by
  have hu : isSingle u.regs.issue.unit = false := not_single fun h => absurd (hbehind.symm.trans h) Bool.false_ne_true
  have hm : u.regs.issue.unit ≠ .mult := by
    intro he
    rw [he] at hbehind
    cases hbehind
  have hin : (multIn u.regs i).multValid = false := beq_eq_false_iff_ne.2 hm
  have hvalid := valid_eq u.regs i
  rw [hu, hmul, Bool.or_false, Bool.false_or] at hvalid
  have hmul' : (next u.regs i).mult.mul.multValid = false := by
    have hreg : (next u.regs i).mult.mul.multValid =
        (Mult.mulValidOp (multIn u.regs i) && isMul (multIn u.regs i).fuData.operator) := rfl
    rw [hreg, Mult.mulValidOp, hin, Bool.and_false, Bool.false_and, Bool.false_and]
  have hacc : Mult.accepts u.regs.mult (multIn u.regs i) = false := by
    rw [Bool.eq_false_iff]
    intro h
    rw [(Mult.accepts_imp h).2.1] at hin
    cases hin
  have hnext := Mult.inv_next hinv (multIn u.regs i) fun h => by rw [hin] at h; cases h
  have hrdy : Serdiv.taken u.regs.mult.div (Mult.divIn u.regs.mult (multIn u.regs i)) =
      Mult.divValid u.regs.mult (multIn u.regs i) := by
    have hout : (Mult.divIn u.regs.mult (multIn u.regs i)).outRdy = true := by
      rw [Mult.divIn, hmul]
      rfl
    rw [Serdiv.taken, hout, Bool.and_true]
    rfl
  cases hv : Mult.divValid u.regs.mult (multIn u.regs i) with
  | true =>
    have hs := shows_division (i := i) (n := age + 1) hu hmul hinv hfu hv
    refine ⟨.shown _ _ ho hs, by rw [hu, hmul, hv]; decide, fun hf => ?_⟩
    rw [left_of_shows ho hs]
    refine .empty (hnext.divider.free.1 ?_) hmul'
    have hflush : (multIn u.regs i).flush = false := hf
    simp only [Mult.watched, Mult.Watched.divider, hacc, Mult.taken, hrdy, hv, hflush, Bool.false_eq_true, if_false,
      if_true]
    rfl
  | false =>
    rw [hv] at hvalid
    refine ⟨.silent hvalid, by rw [hu, hmul, hv]; decide, fun hf => ?_⟩
    have hflush : (multIn u.regs i).flush = false := hf
    rw [left_of_idle hvalid, ho]
    refine .division d (age + 1) hmul' ?_ ?_ hfu ?_
    · simp only [Mult.watched, hacc, Mult.taken, hrdy, hv, hflush, Bool.false_eq_true, if_false] at hnext
      exact hnext
    · by_contra hlate
      have hdue := hinv.divider.due (i := Mult.divIn u.regs.mult (multIn u.regs i)) rfl hf
        (show 64 < age by omega)
      exact Bool.false_ne_true (hv.symm.trans hdue)
    · rw [Bool.eq_false_iff]
      intro h
      have hidle := (idle_of_fluReady (started u.regs i h).1).2.1
      have hnone := hinv.divider.free.2 hidle
      cases hnone

theorem Inv.cycle {u : Watched w} (h : Inv u) (i : In w) : Cycle u i := by
  obtain ⟨old, hst, ho⟩ := h.owed
  cases hst with
  | empty hidle hmul => exact cycle_empty h i hidle hmul ho
  | product d hidle hmul hfu hop hbehind => exact cycle_product h i hidle hmul hfu hop hbehind ho
  | division d age hmul hinv ht hfu hbehind =>
    refine cycle_division i hmul hinv ht hfu hbehind ?_
    rw [ho, atUnit, hbehind]
    rfl

/-! ### Runs -/

theorem inv_next {u : Watched w} (h : Inv u) (i : In w) : Inv ((watched w).next u i) := by
  refine ⟨fun hflu => (started u.regs i hflu).2.2, ?_⟩
  have hat : (issues u.regs i).toList.map (fun d => (⟨d, 0⟩ : Owed w)) = atUnit (next u.regs i) := by
    rw [issues, atUnit]
    cases isFlu (next u.regs i).issue.unit <;> rfl
  cases hf : i.issue.flush with
  | true =>
    refine ⟨[], stage_flush hf, ?_⟩
    simp only [watched, hf, hat, if_true]
  | false =>
    refine ⟨_, (h.cycle i).stage hf, ?_⟩
    simp only [watched, hf, hat, Bool.false_eq_true, if_false]

theorem inv_start : Inv (start : Watched w) :=
  ⟨fun h => absurd h Bool.false_ne_true, [], .empty rfl rfl, rfl⟩

theorem law_of_inv {u : Watched w} (h : Inv u) : Law u := by
  intro i
  have hc := h.cycle i
  refine ⟨hc.exclusive, ?_, ?_, ?_⟩
  · intro hv
    cases hc.course with
    | silent hno => exact absurd (hno.symm.trans hv) Bool.false_ne_true
    | shown e es ho hs => exact ⟨e, by rw [ho]; exact List.mem_cons_self, hs.2⟩
  · intro hf
    have hlen : (left u i).length + (out u.regs i).valid.toNat = u.owed.length := by
      cases hc.course with
      | silent hno => rw [left_of_idle hno, hno, Bool.toNat_false, Nat.add_zero]
      | shown e es ho hs => rw [left_of_shows ho hs, hs.1, ho, List.length_cons, Bool.toNat_true]
    simp only [watched, hf, Bool.false_eq_true, if_false, List.length_append, List.length_map]
    omega
  · obtain ⟨old, hst, ho⟩ := h.owed
    intro e he
    rw [ho, List.mem_append] at he
    rcases he with he | he
    · cases hst with
      | empty => exact absurd he List.not_mem_nil
      | product d _ _ hfu hop =>
        obtain rfl := List.mem_singleton.1 he
        rw [latency, if_pos hfu, if_pos hop]
      | division d age _ hinv ht hfu =>
        obtain rfl := List.mem_singleton.1 he
        have hno : ¬isMul d.operator = true := by
          intro hm
          have := (hinv.word d rfl).1
          rw [isDiv_of_isMul hm] at this
          cases this
        rw [latency, if_pos hfu, if_neg hno]
        dsimp only
        omega
    · unfold atUnit at he
      split_ifs at he
      · obtain rfl := List.mem_singleton.1 he
        exact Nat.zero_le _
      · exact absurd he List.not_mem_nil

/-- A product comes first, and the divider keeps its answer. -/
theorem division_held {s : Mult.Regs w} {i j : Mult.In w} (hv : Mult.divValid s i = true)
    (hmul : s.mul.multValid = true) (hno : Mult.divValidOp i = false) (hj : j.flush = false) :
    Mult.divValid (Mult.next s i) j = true ∧ Mult.divResult (Mult.next s i) = Mult.divResult s ∧
      (Mult.next s i).div.id = s.div.id := by
  have hrdy : (Mult.divIn s i).outRdy = false := by
    rw [Mult.divIn, hmul]
    rfl
  obtain ⟨hs, hf⟩ := (Serdiv.outVldO_eq _ _).1 hv
  have hf' : i.flush = false := hf
  have hdiv : (Mult.next s i).div = { s.div with
      state := .finish, cnt := if Serdiv.cntZero s.div then s.div.cnt else s.div.cnt - 1 } := by
    have h := Serdiv.next_waits s.div (Mult.divIn s i) hs hf
    rw [hrdy, if_neg Bool.false_ne_true] at h
    exact h
  have hword : (Mult.next s i).wordOp = s.wordOp := by
    rw [Mult.divValidOp, hf', Bool.not_false, Bool.true_and] at hno
    simp only [Mult.next, Mult.wordOpD, hno, Bool.false_eq_true, if_false]
  refine ⟨Serdiv.outVldO_held hv hrdy (Mult.divIn (Mult.next s i) j) hj, ?_, by rw [hdiv]⟩
  rw [Mult.divResult, Mult.divResult, hword, hdiv]
  rfl

/-- In every run the port is used by one unit at a time, and every operation that is started is
answered once and in time unless it is flushed; and in any state at all the divider keeps an
answer that has to wait for a product. -/
theorem port_run (w : ℕ) :
    (∀ is : List (In w), (watched w).Always Law start is) ∧
    ∀ (s : Mult.Regs w) (i j : Mult.In w), Mult.divValid s i = true → s.mul.multValid = true →
      Mult.divValidOp i = false → j.flush = false →
        Mult.divValid (Mult.next s i) j = true ∧ Mult.divResult (Mult.next s i) = Mult.divResult s ∧
          (Mult.next s i).div.id = s.div.id := by
  refine ⟨fun is => ?_, fun s i j hv hmul hno hj => division_held hv hmul hno hj⟩
  have hinv : (watched w).Always Inv start is :=
    Machine.always_of_steps (fun _ i h (_ : True) => inv_next h i) is start inv_start (Machine.steps_true is start)
  exact hinv.mono fun _ => law_of_inv

/-- A quotient that waits for a product. -/
def quotientWaits : Mult.Regs 3 :=
  ⟨⟨true, 2, .mul, 6⟩, { (Serdiv.reset : Serdiv.Regs 64 3) with state := .finish, res := 7, id := 5 }, false⟩

/-- `mul x8, x5, x6`, then `div x9, x5, x6`, which is flushed while the divider works on it. -/
def mulDivFlush : List (In 3) :=
  [IssueStage.issueWord 0x02628433, IssueStage.issueWord 0x0262c4b3, IssueStage.idle,
    { IssueStage.idle with flush := true }].map fun i => ⟨i, 0, false, false⟩

theorem port_run_waits :
    (watched 3).Always Law start mulDivFlush ∧
      (watched 3).count (fun u i => (out u.regs i).valid) start mulDivFlush = 1 ∧
      ((watched 3).run start (mulDivFlush.take 3)).owed.length = 1 ∧
      ((watched 3).run start mulDivFlush).owed.length = 0 ∧
      Mult.divValid (Mult.next quotientWaits ⟨false, Flu.FuData.zero, false⟩) ⟨false, Flu.FuData.zero, false⟩ = true ∧
      Mult.divResult (Mult.next quotientWaits ⟨false, Flu.FuData.zero, false⟩) = Mult.divResult quotientWaits ∧
      (Mult.next quotientWaits ⟨false, Flu.FuData.zero, false⟩).div.id = quotientWaits.div.id :=
  ⟨(port_run 3).1 mulDivFlush, by decide +kernel, by decide +kernel, by decide +kernel,
    (port_run 3).2 quotientWaits ⟨false, Flu.FuData.zero, false⟩ ⟨false, Flu.FuData.zero, false⟩ rfl rfl rfl rfl⟩

end Port
end Ariane

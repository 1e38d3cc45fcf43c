/-
# Speculation

The frontend (`frontend.sv`) predicts where to go on after each instruction of a fetch, from the
scan of the word and the tables of predictions. The prediction goes with the instruction to the
branch unit (`branch_unit.sv`), which compares it with where the instruction does go.

Whatever the tables hold, either the branch unit redirects the frontend to the address the
instruction set prescribes, or the frontend has gone on there (`speculation_invisible`). The
kind of a prediction is passed on unchanged from the queue to the branch unit, so that it does
not occur in the entries of the back end.
-/
import Ariane.Decode.Language
import Ariane.Execute.Single
import Ariane.Frontend.Queue
import Ariane.Frontend.Realign
import Ariane.Frontend.Scan

namespace Ariane
namespace Frontend
namespace Speculation

open Isa

/-! ### Predictions -/

/-- `bht_prediction_t`. -/
structure BhtPrediction where
  valid : Bool
  taken : Bool

/-- `btb_prediction_t`. -/
structure BtbPrediction where
  valid : Bool
  targetAddress : BitVec 64

/-- `ras_t`. -/
structure Ras where
  valid : Bool
  ra : BitVec 64

/-- A cycle of the frontend: the instructions of a fetch, and what the tables predict. -/
structure In where
  aligned : Aligned
  servingUnaligned : Bool
  bht : Fin 2 → BhtPrediction
  bhtQ : BhtPrediction
  btb : Fin 2 → BtbPrediction
  btbQ : BtbPrediction
  ras : Ras

variable (i : In)

/-- An output of the re-aligner. -/
def In.slot (k : Fin 2) : Slot := if k = 0 then i.aligned.out0 else i.aligned.out1

/-- `bht_prediction_shifted` and `btb_prediction_shifted`: the prediction of an instruction that
began in the fetch before was saved, the others are read at the address. -/
def shifted {α : Type} (unaligned : Bool) (q : α) (p : Fin 2 → α) (addr1 : BitVec 64) (k : Fin 2) : α :=
  if k = 0 then if unaligned then q else p 0 else p (if addr1.getLsbD 1 then 1 else 0)

def In.bhtShifted : Fin 2 → BhtPrediction := shifted i.servingUnaligned i.bhtQ i.bht i.aligned.out1.addr

def In.btbShifted : Fin 2 → BtbPrediction := shifted i.servingUnaligned i.btbQ i.btb i.aligned.out1.addr

/-- What the loop over the instructions assigns: `cf_type` of the instruction, and
`predict_address`. -/
structure Guess where
  cf : Cf
  predictAddress : BitVec 64
deriving DecidableEq

/-- A branch is predicted as taken: without a dynamic prediction, if it goes backwards. -/
def BhtPrediction.guessTaken (bht : BhtPrediction) (imm : BitVec 64) : Bool :=
  if bht.valid then bht.taken else imm.getLsbD 63

/-- The pass of the loop for one instruction; `acc` is `predict_address` before it. -/
def guess (s : Slot) (bht : BhtPrediction) (btb : BtbPrediction) (ras : Ras) (acc : BitVec 64) : Guess :=
  let w := s.instr
  let target (rvc : Bool) : BitVec 64 := s.addr + if rvc then Scan.rvcImm w else Scan.rviImm w
  match s.valid && Scan.isBranch w, s.valid && Scan.isReturn w, s.valid && Scan.isJump w,
    s.valid && Scan.isJalr w with
  | false, false, false, true => if btb.valid then ⟨.jumpR, btb.targetAddress⟩ else ⟨.noCF, acc⟩
  | false, false, true, false => ⟨.jump, target (Scan.rvcJump w)⟩
  | false, true, false, false => ⟨.ret, ras.ra⟩
  | true, false, false, false =>
    let rvi := Scan.rviBranch w && bht.guessTaken (Scan.rviImm w)
    let rvc := Scan.rvcBranch w && bht.guessTaken (Scan.rvcImm w)
    if rvi || rvc then ⟨.branch, target rvc⟩ else ⟨.noCF, acc⟩
  | _, _, _, _ => ⟨.noCF, acc⟩

/-- The pass for the second instruction comes first. -/
def guess1 : Guess := guess (i.slot 1) (i.bhtShifted 1) (i.btbShifted 1) i.ras 0

def guess0 : Guess := guess (i.slot 0) (i.bhtShifted 0) (i.btbShifted 0) i.ras (guess1 i).predictAddress

/-- What the frontend offers to the queue. -/
def queueIn (flush exception space : Bool) : Queue.In where
  flush := flush
  instr k := (i.slot k).instr
  addr k := (i.slot k).addr
  valid := BitVec.ofBool (i.slot 1).valid ++ BitVec.ofBool (i.slot 0).valid
  exception := exception
  predictAddress := (guess0 i).predictAddress
  cf k := if k = 0 then (guess0 i).cf else (guess1 i).cf
  space := space

/-! ### The branch unit -/

/-- `is_branch`. -/
def isBranch : FuOp → Bool
  | .eq | .ne | .lts | .ges | .ltu | .geu => true
  | _ => false

/-- `bp_resolve_t`. -/
structure Resolved where
  valid : Bool
  pc : BitVec 64
  targetAddress : BitVec 64
  isMispredict : Bool
  isTaken : Bool
  cfType : Cf

/-- `target_address`. -/
def targetAddress {n : ℕ} (j : Flu.In n) : BitVec 64 :=
  Branch.targetAddress ⟨j.fuData.operandA, j.fuData.operandB, j.fuData.imm⟩ (Flu.branchEntry j)

/-- `branch_comp_res_i`. -/
def compRes {n : ℕ} (j : Flu.In n) : Bool :=
  let d := Flu.aluData j
  Branch.aluBranchRes d.operator ⟨d.operandA, d.operandB, d.imm⟩

/-- `resolved_branch_o`, for an instruction that carries the prediction `cf`, `predictAddress`. -/
def resolve {n : ℕ} (j : Flu.In n) (cf : Cf) (predictAddress : BitVec 64) : Resolved :=
  let valid := j.unit == .ctrlFlow
  let outcome := isBranch j.fuData.operator && compRes j != (cf == .branch)
  let register := j.fuData.operator == .jalr && (cf == .noCF || targetAddress j != predictAddress)
  { valid := valid
    pc := j.pc
    targetAddress := if valid then Flu.resolvedTarget j else 0
    isMispredict := valid && (outcome || register)
    isTaken := valid && compRes j
    cfType :=
      if valid && register && cf != .ret then .jumpR
      else if valid && outcome then .branch
      else cf }

/-! ### Where an instruction goes -/

/-- The decode stage gets the fetch entry. -/
structure Gets (f : IdStage.In) (e : Queue.FetchEntry) : Prop where
  address : f.address = e.address
  instruction : f.instruction = e.instruction
  predict : f.branchPredict.predictAddress = e.predictAddress

/-- The instruction was fetched, and it is not illegal. -/
structure Fetched (f : IdStage.In) : Prop where
  ex : f.ex.valid = false
  expanded : CompressedDecoder.illegalInstrO f.instruction = false
  legal : (Decoder.decode (IdStage.decoderIn f)).illegalInstr = false

/-- Where the frontend goes on after an instruction. -/
def follow (e : Queue.FetchEntry) : BitVec 64 :=
  if e.cf = .noCF then e.address + Queue.len e.instruction else e.predictAddress

section Law

variable {n : ℕ} (e : Queue.FetchEntry) (f : IdStage.In) (g : Gpr) (c : BitVec 64) (t : BitVec n) (j : Flu.In n)

/-- The cycle in which the instruction is started, with the registers `g`. -/
def started : Flu.In n :=
  Flu.start (Flu.issued (IssueStage.reName (IdStage.decodedInstruction f)) g c t) f.address
    (CompressedDecoder.isCompressedO f.instruction) j

/-- What the branch unit finds, for the prediction the instruction carries. -/
def found : Resolved := resolve (started f g c t j) e.cf (IdStage.decodedInstruction f).bp.predictAddress

/-- The prediction of the instruction cannot be seen.

* `resolved`: after a jump or branch the frontend is redirected to the next instruction, or it
  has gone on there;
* `direct`: jumps to a fixed target are not checked, and always predicted with that target;
* `plain`: other instructions are not predicted. -/
structure Invisible : Prop where
  resolved : Fetched f → (IdStage.decodedInstruction f).fu = .ctrlFlow → ∃ ins r,
    encode ins = (IdStage.decoderIn f).instruction ∧
    exec f.address (Flu.length (CompressedDecoder.isCompressedO f.instruction)) g ins = some r ∧
    ((found e f g c t j).isMispredict = true ∧ (found e f g c t j).targetAddress = r.nextPc ∨
      follow e = r.nextPc)
  direct : ∀ rd imm, encode (.jal rd imm) = (IdStage.decoderIn f).instruction →
    e.cf = .jump ∧ e.predictAddress = f.address + (imm ++ 0#1).signExtend 64 ∧
      (f.ex.valid = false → (found e f g c t j).isMispredict = false)
  plain : Fetched f → (IdStage.decodedInstruction f).fu ≠ .ctrlFlow → e.cf = .noCF

end Law

/-! ### What the scan predicts -/

section Guess

variable {s : Slot} (bht : BhtPrediction) (btb : BtbPrediction) (ras : Ras) (acc : BitVec 64) {off : BitVec 64}

/-- Without a prediction the address stays. -/
theorem guess_acc (h : (guess s bht btb ras acc).cf = .noCF) : (guess s bht btb ras acc).predictAddress = acc := by
  revert h
  unfold guess
  dsimp only
  split
  · split
    · exact nofun
    · exact fun _ => rfl
  · exact nofun
  · exact nofun
  · split
    · exact nofun
    · exact fun _ => rfl
  · exact fun _ => rfl

/-- A branch is predicted as one with its target, or not at all. -/
theorem guess_branch (hv : s.valid = true) (h : Scan.Finds s.instr true false off) :
    (guess s bht btb ras acc).cf = .noCF ∨
      (guess s bht btb ras acc).cf = .branch ∧ (guess s bht btb ras acc).predictAddress = s.addr + off := by
  have hoff := h.offset
  simp only [guess, hv, h.isBranch, h.isReturn, h.isJump, h.isJalr, Bool.and_false, Bool.and_self, h.rvc.1, h.rvi.1,
    Bool.true_and]
  cases hc : CompressedDecoder.isCompressedO s.instr with
  | false =>
    rw [hc, if_neg Bool.false_ne_true] at hoff
    simp only [Bool.not_false, Bool.true_and, Bool.false_and, Bool.or_false, Bool.false_eq_true, if_false]
    split
    · exact .inr ⟨rfl, by rw [hoff]⟩
    · exact .inl rfl
  | true =>
    rw [hc, if_pos rfl] at hoff
    simp only [Bool.not_true, Bool.true_and, Bool.false_and, Bool.false_or]
    split
    · exact .inr ⟨rfl, by rw [hoff]⟩
    · exact .inl rfl

/-- A jump is predicted with its target. -/
theorem guess_jump (hv : s.valid = true) (h : Scan.Finds s.instr false true off) :
    guess s bht btb ras acc = ⟨.jump, s.addr + off⟩ := by
  simp only [guess, hv, h.isBranch, h.isReturn, h.isJump, h.isJalr, Bool.and_false, Bool.and_self, h.rvc.2, h.offset,
    Bool.true_and]

theorem guess_plain (h : Scan.Finds s.instr false false off) : (guess s bht btb ras acc).cf = .noCF := by
  simp only [guess, h.isBranch, h.isReturn, h.isJump, h.isJalr, Bool.and_false]

end Guess

/-- The instructions the queue is offered carry the prediction of their own pass. -/
theorem offered_guess {i : In} {flush exception space : Bool} {x : Queue.Item}
    (hx : x ∈ Queue.offered (queueIn i flush exception space)) : ∃ s bht btb acc, s.valid = true ∧ x.pc = s.addr ∧
      x.data.instr = s.instr ∧ x.data.cf = (guess s bht btb i.ras acc).cf ∧
      (x.data.cf ≠ .noCF → x.predict = (guess s bht btb i.ras acc).predictAddress) := by
  have hbits (a b : Bool) : (BitVec.ofBool b ++ BitVec.ofBool a)[0] = a ∧ (BitVec.ofBool b ++ BitVec.ofBool a)[1] = b := by
    cases a <;> cases b <;> decide
  obtain ⟨hv0, hv1⟩ := hbits (i.slot 0).valid (i.slot 1).valid
  obtain ⟨hw0, hw1⟩ := @Queue.wants_iff (queueIn i flush exception space)
  rw [Queue.offered_eq, List.mem_append] at hx
  rcases hx with hx | hx
  · rw [List.mem_ite_nil_right] at hx
    obtain ⟨hw, hx⟩ := hx
    obtain rfl := List.mem_singleton.1 hx
    rw [hw0] at hw
    exact ⟨i.slot 0, _, _, _, hv0.symm.trans hw, rfl, rfl, rfl, fun _ => rfl⟩
  · rw [List.mem_ite_nil_right] at hx
    obtain ⟨hw, hx⟩ := hx
    obtain rfl := List.mem_singleton.1 hx
    obtain ⟨hv, hcf⟩ := hw1.1 hw
    -- the first instruction has left the address as it was
    exact ⟨i.slot 1, _, _, _, hv1.symm.trans hv, rfl, rfl, rfl, fun _ => guess_acc _ _ _ _ hcf⟩

/-! ### What the decoder makes of the word -/

section Decode

variable {x : Decoder.In}

/-- Only jumps and branches go to the branch unit. -/
theorem fu_opcode {o : Decoder.Opcode} (h : Scan.flow o.bits = false) : (Decoder.decodeOpcode x o).fu ≠ .ctrlFlow := by
  have hreg (t) : (Decoder.regReg x t).fu ≠ .ctrlFlow := by
    unfold Decoder.regReg Decoder.Decoded.table
    dsimp only
    split <;> exact Fu.noConfusion
  have hoff {d : Decoder.Decoded} {p : Prop} [Decidable p] (hd : d.fu ≠ .ctrlFlow) :
      (if p then d else { Decoder.defaults with illegalInstr := true }).fu ≠ .ctrlFlow := by
    split
    · exact hd
    · exact Fu.noConfusion
  cases o with
  | branch | jalr | jal => cases h
  | system =>
    rw [Decoder.decodeOpcode, (Decoder.runs_system x).2]
    exact Fu.noConfusion
  | op =>
    show (Decoder.decodeOp x).fu ≠ .ctrlFlow
    unfold Decoder.decodeOp
    split
    · exact Fu.noConfusion
    · exact hreg _
  | op32 => exact hreg _
  | opFp =>
    refine hoff ?_
    have hop := Decoder.runs_opFp x { Decoder.defaults with fu := .fpu, rs1 := x.rs1, rs2 := x.rs2, rd := x.rd } rfl
    simp only [Decoder.fpChecks, hop.2]
    exact Fu.noConfusion
  | storeFp | loadFp | madd | msub | nmsub | nmadd => exact hoff Fu.noConfusion
  | miscMem =>
    show (Decoder.decodeMiscMem x).fu ≠ .ctrlFlow
    unfold Decoder.decodeMiscMem
    dsimp only
    split <;> exact Fu.noConfusion
  | amo =>
    show (Decoder.decodeAmo x).fu ≠ .ctrlFlow
    unfold Decoder.decodeAmo
    dsimp only
    split
    · exact Fu.noConfusion
    · split <;> exact Fu.noConfusion
  | _ => exact Fu.noConfusion

/-- A legal instruction goes to the branch unit exactly if its opcode is one of theirs. -/
theorem fu_decode (hex : x.ex.valid = false) :
    (Decoder.decode x).fu = .ctrlFlow ↔ Scan.flow (Decoder.opcode x.instruction) = true := by
  constructor
  · intro h
    unfold Decoder.decode at h
    rw [hex, if_neg Bool.false_ne_true] at h
    split at h
    · next o ho =>
      rw [Decoder.bits_of_ofBits ho]
      by_contra hf
      exact fu_opcode (Bool.eq_false_of_not_eq_true hf) h
    · cases h
  · intro h
    simp only [Scan.flow, Bool.or_eq_true, beq_iff_eq] at h
    rcases h with (h | h) | h <;> rw [Decoder.decode_of_opcode hex h] <;> rfl

/-- The instruction of a word with such an opcode. -/
theorem exists_encode (hex : x.ex.valid = false) (hl : (Decoder.decode x).illegalInstr = false)
    (h : (Decoder.decode x).fu = .ctrlFlow) :
    (∃ c r1 r2 imm, encode (.branch c r1 r2 imm) = x.instruction) ∨
      (∃ rd r imm, encode (.jalr rd r imm) = x.instruction) ∨ ∃ rd imm, encode (.jal rd imm) = x.instruction := by
  rw [fu_decode hex] at h
  simp only [Scan.flow, Bool.or_eq_true, beq_iff_eq] at h
  rcases h with (h | h) | h
  · rw [Decoder.decode_of_opcode hex h] at hl
    obtain ⟨c, hc⟩ := Decoder.branchTable_some hl
    have hw := Decoder.bType_fields x.instruction
    rw [hc, h] at hw
    exact .inl ⟨c, _, _, _, hw⟩
  · rw [Decoder.decode_of_opcode hex h] at hl
    have h3 : Decoder.funct3 x.instruction = 0 := by simpa [Decoder.decodeOpcode, Decoder.decodeJalr] using hl
    exact .inr (.inl ⟨_, _, _, Decoder.iType_mk rfl rfl h3 rfl h⟩)
  · have hw := Decoder.jType_fields x.instruction
    rw [h] at hw
    exact .inr (.inr ⟨_, _, hw⟩)

end Decode

/-! ### The branch unit -/

section Run

variable {n : ℕ} {f : IdStage.In} {g : Gpr} {c : BitVec 64} {t : BitVec n} {j : Flu.In n}

/-- The branch unit computes where the instruction goes. -/
theorem resolvedTarget_started (hex : f.ex.valid = false) {ins : Instr}
    (hw : encode ins = (IdStage.decoderIn f).instruction) (hfu : ins.uop.fu = .ctrlFlow) {r : Result}
    (hr : exec f.address (Flu.length (CompressedDecoder.isCompressedO f.instruction)) g ins = some r) :
    (started f g c t j).unit = .ctrlFlow ∧ (started f g c t j).fuData = Flu.operands ins.uop f.address g t ∧
      Flu.resolvedTarget (started f g c t j) = r.nextPc := by
  have hfree : Flu.Free Flu.reset (Flu.idle (w := n)) Flu.idle :=
    ⟨rfl, rfl, rfl, Fu.noConfusion, Fu.noConfusion⟩
  obtain ⟨his, hrun⟩ := Flu.executes_isa (x := IdStage.decoderIn f) hex hw hr c t hfree
  have hu : (IdStage.decodedInstruction f).uop = ins.uop := his.uop
  have hunit : (started f g c t j).unit = .ctrlFlow := (congrArg Uop.fu hu).trans hfu
  have hint : Flu.Uop.Integer (IdStage.decodedInstruction f).uop := by
    rw [hu]
    exact Flu.integer_of_exec hr
  have hdata : (started f g c t j).fuData = Flu.operands ins.uop f.address g t := by
    rw [← hu]
    exact Flu.issued_eq hint g c t
  refine ⟨hunit, hdata, ?_⟩
  have hnext : Flu.nextPc (started f g c t j) = r.nextPc := hrun.1
  rwa [Flu.nextPc, if_pos hunit] at hnext

/-- A register jump is checked against its target. -/
theorem found_jalr {e : Queue.FetchEntry} (hp : f.branchPredict.predictAddress = e.predictAddress)
    (hu : (started f g c t j).unit = .ctrlFlow) (hop : (started f g c t j).fuData.operator = .jalr) {a : BitVec 64}
    (ht : Flu.resolvedTarget (started f g c t j) = a) :
    (found e f g c t j).isMispredict = true ∧ (found e f g c t j).targetAddress = a ∨ follow e = a := by
  have htarget : targetAddress (started f g c t j) = a := by
    rw [← ht, Flu.resolvedTarget]
    simp [Flu.aluData, hu, hop, Branch.aluBranchRes, targetAddress]
  have hbp : (IdStage.decodedInstruction f).bp.predictAddress = e.predictAddress := hp
  by_cases hcf : e.cf = .noCF
  · exact .inl ⟨by simp [found, resolve, hu, hop, hcf], by simp [found, resolve, hu, ht]⟩
  · by_cases heq : e.predictAddress = a
    · exact .inr (by rw [follow, if_neg hcf, heq])
    · refine .inl ⟨?_, by simp [found, resolve, hu, ht]⟩
      have hne : (a != e.predictAddress) = true := bne_iff_ne.2 fun h => heq h.symm
      simp [found, resolve, hu, hop, htarget, hbp, hne]

/-- A branch is checked for its outcome. -/
theorem found_branch {e : Queue.FetchEntry} {b : Isa.Cond} (hu : (started f g c t j).unit = .ctrlFlow)
    (hop : (started f g c t j).fuData.operator = b.fuOp)
    (hcf : e.cf = .noCF ∨ e.cf = .branch ∧ e.predictAddress = targetAddress (started f g c t j))
    (hseq : (Flu.branchEntry (started f g c t j)).nextPc = e.address + Queue.len e.instruction) :
    (found e f g c t j).isMispredict = true ∧
      (found e f g c t j).targetAddress = Flu.resolvedTarget (started f g c t j) ∨
    follow e = Flu.resolvedTarget (started f g c t j) := by
  have hb : isBranch (started f g c t j).fuData.operator = true := by
    rw [hop]
    cases b <;> rfl
  have htarget : Flu.resolvedTarget (started f g c t j) = if compRes (started f g c t j) then
      targetAddress (started f g c t j) else (Flu.branchEntry (started f g c t j)).nextPc := rfl
  by_cases hm : compRes (started f g c t j) = (e.cf == .branch)
  · refine .inr ?_
    rw [htarget, follow]
    rcases hcf with h | ⟨h, hp⟩
    · rw [h] at hm
      rw [if_pos h, hm, hseq]
      rfl
    · rw [h] at hm
      rw [if_neg (by rw [h]; exact Cf.noConfusion), hm, hp]
      rfl
  · refine .inl ⟨?_, by simp [found, resolve, hu]⟩
    have hne : (compRes (started f g c t j) != (e.cf == .branch)) = true := bne_iff_ne.2 hm
    simp [found, resolve, hu, hb, hne]

end Run

/-! ### Speculation is invisible -/

/-- The length of the instruction is the same in the queue and in the back end. -/
theorem len_eq (w : BitVec 32) : Queue.len w = Flu.length (CompressedDecoder.isCompressedO w) := rfl

/-- For every fetch and whatever the tables predict, for every instruction that is offered to
the queue, every fetch entry the queue makes of it, and all registers: its prediction cannot be
seen. -/
theorem speculation_invisible {i : In} {flush exception space : Bool} {x : Queue.Item}
    (hx : x ∈ Queue.offered (queueIn i flush exception space)) {e : Queue.FetchEntry} (he : Queue.Matches e x)
    {f : IdStage.In} (hf : Gets f e) (g : Gpr) (c : BitVec 64) {n : ℕ} (t : BitVec n) (j : Flu.In n) :
    Invisible e f g c t j := by
  obtain ⟨s, bht, btb, acc, hv, hpc, hinstr, hcf, hpred⟩ := offered_guess hx
  obtain ⟨hea, hei, -, hec, het⟩ := he
  have hw : f.instruction = s.instr := by rw [hf.instruction, hei, hinstr]
  have ha : f.address = s.addr := by rw [hf.address, hea, hpc]
  have hecf : e.cf = (guess s bht btb i.ras acc).cf := by rw [hec, hcf]
  have hep (h : e.cf ≠ .noCF) : e.predictAddress = (guess s bht btb i.ras acc).predictAddress := by
    rw [← hpred (by rwa [← hec])]
    exact het _ (if_neg (by rwa [← hec]))
  have hop : (IdStage.decoderIn f).instruction = CompressedDecoder.instrO s.instr := by
    rw [← hw]
    rfl
  -- jumps to a fixed target are predicted with it
  have hjal : ∀ rd imm, encode (.jal rd imm) = (IdStage.decoderIn f).instruction →
      e.cf = .jump ∧ e.predictAddress = f.address + (imm ++ 0#1).signExtend 64 := by
    intro rd imm hj
    rw [hop] at hj
    obtain ⟨ho, -, hi⟩ := Decoder.jType_inv _ _ hj
    have hg := guess_jump bht btb i.ras acc hv (Scan.scan_jump ho)
    rw [hi] at hg
    rw [hg] at hecf
    have hp := hep (by rw [hecf]; exact Cf.noConfusion)
    rw [hg] at hp
    exact ⟨hecf, by rw [hp, ha]⟩
  refine ⟨fun hfe hfu => ?_, fun rd imm hj => ?_, fun hfe hfu => ?_⟩
  · rcases exists_encode hfe.ex hfe.legal hfu with ⟨b, r1, r2, imm, hb⟩ | ⟨rd, r1, imm, hb⟩ | ⟨rd, imm, hb⟩
    · obtain ⟨hu, hd, ht⟩ := resolvedTarget_started (g := g) (c := c) (t := t) (j := j) hfe.ex hb rfl rfl
      refine ⟨_, _, hb, rfl, ?_⟩
      rw [← ht]
      refine found_branch hu (congrArg IssueStage.FuData.operator hd) ?_ ?_
      · have htarget : targetAddress (started f g c t j) = f.address + (imm ++ 0#1).signExtend 64 := by
          have hne : (Flu.branchEntry (started f g c t j)).op ≠ .jalr := by
            show (started f g c t j).fuData.operator ≠ .jalr
            rw [hd]
            cases b <;> exact FuOp.noConfusion
          simp only [targetAddress, Branch.targetAddress, if_neg hne, hd]
          rfl
        rw [hop] at hb
        obtain ⟨ho, -, -, -, hi⟩ := Decoder.bType_inv _ _ _ _ hb
        have hfind := Scan.scan_branch ho
        rw [hi] at hfind
        rw [htarget, hecf]
        rcases guess_branch bht btb i.ras acc hv hfind with hg | ⟨hg, hp⟩
        · exact .inl hg
        · refine .inr ⟨hg, ?_⟩
          rw [hep (by rw [hecf, hg]; exact Cf.noConfusion), hp, ha]
      · rw [ScoreboardEntry.nextPc, ← hf.address, ← hf.instruction, len_eq]
        rfl
    · obtain ⟨hu, hd, ht⟩ := resolvedTarget_started (g := g) (c := c) (t := t) (j := j) hfe.ex hb rfl rfl
      exact ⟨_, _, hb, rfl, found_jalr hf.predict hu (congrArg IssueStage.FuData.operator hd) ht⟩
    · obtain ⟨hcf', hp⟩ := hjal rd imm hb
      refine ⟨_, _, hb, rfl, .inr ?_⟩
      rw [follow, if_neg (by rw [hcf']; exact Cf.noConfusion), hp]
  · obtain ⟨hcf', hp⟩ := hjal rd imm hj
    refine ⟨hcf', hp, fun hex => ?_⟩
    obtain ⟨hu, hd, -⟩ := resolvedTarget_started (g := g) (c := c) (t := t) (j := j) hex hj rfl rfl
    simp [found, resolve, hd, Flu.operands, isBranch, Isa.Instr.uop, Isa.immUop]
  · have hflow : Scan.flow (Decoder.opcode (CompressedDecoder.instrO s.instr)) = false := by
      rw [← hop]
      by_contra hfl
      exact hfu ((fu_decode (x := IdStage.decoderIn f) hfe.ex).2 (Bool.eq_true_of_not_eq_false hfl))
    have hl : CompressedDecoder.illegalInstrO s.instr = false := by
      rw [← hw]
      exact hfe.expanded
    obtain ⟨off, hfind⟩ := Scan.scan_plain hl hflow
    rw [hecf]
    exact guess_plain bht btb i.ras acc hfind

/-- A fetch of one word, and a target in the table. -/
def oneWord (w : BitVec 32) : In where
  aligned := ⟨⟨true, 0x80000000, w⟩, ⟨false, 0, 0⟩, false, 0, 0⟩
  servingUnaligned := false
  bht _ := ⟨false, false⟩
  bhtQ := ⟨false, false⟩
  btb _ := ⟨true, 0x80001000⟩
  btbQ := ⟨false, 0⟩
  ras := ⟨false, 0⟩

/-- The decode stage gets that word, in machine mode. -/
def decodeIn (w : BitVec 32) (predict : BitVec 64) : IdStage.In where
  address := 0x80000000
  instruction := w
  branchPredict := ⟨predict⟩
  ex := Exn.none
  debugReq := false
  irq := 0
  irqCtrl := ⟨0, 0, 0, false, false⟩
  privLvl := Riscv.privLvlM
  debugMode := false
  fs := Riscv.Xs.off
  frm := 0
  tvm := false
  tw := false
  tsr := false

/-- `BEQ x0, x0, -4` is predicted as taken. -/
theorem speculation_invisible_beq : Invisible ⟨0x80000000, 0xfe000ee3, false, .branch, 0x7ffffffc⟩
    (decodeIn 0xfe000ee3 0x7ffffffc) Flu.fiveGpr 0 (0 : BitVec 3) Flu.idle := by
  have hx : ⟨0x80000000, ⟨0xfe000ee3, .branch, false⟩, 0x7ffffffc⟩ ∈
      Queue.offered (queueIn (oneWord 0xfe000ee3) false false true) := List.mem_singleton.2 (by rfl)
  have he : Queue.Matches ⟨0x80000000, 0xfe000ee3, false, .branch, 0x7ffffffc⟩
      ⟨0x80000000, ⟨0xfe000ee3, .branch, false⟩, 0x7ffffffc⟩ :=
    ⟨rfl, rfl, rfl, rfl, fun _ h => Option.some.inj h⟩
  exact speculation_invisible hx he ⟨rfl, rfl, rfl⟩ Flu.fiveGpr 0 0 Flu.idle

/-- The reserved word of `C.JR x0` is illegal, and predicted if the table has a target for it. -/
theorem reserved_predicted : ¬∀ (i : In) (x : Queue.Item), x ∈ Queue.offered (queueIn i false false true) →
    ∀ e, Queue.Matches e x → ∀ f, Gets f e → f.ex.valid = false →
      (IdStage.decodedInstruction f).fu ≠ .ctrlFlow → e.cf = .noCF := by
  intro h
  have hcf := h (oneWord 0x8002) ⟨0x80000000, ⟨0x8002, .jumpR, false⟩, 0x80001000⟩ (List.mem_singleton.2 (by rfl))
    ⟨0x80000000, 0x8002, false, .jumpR, 0x80001000⟩ ⟨rfl, rfl, rfl, rfl, fun _ ht => Option.some.inj ht⟩
    (decodeIn 0x8002 0x80001000) ⟨rfl, rfl, rfl⟩ rfl (by decide +kernel)
  cases hcf

end Speculation
end Frontend
end Ariane

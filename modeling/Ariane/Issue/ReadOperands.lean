/-
# Issue and operands

`src/issue_stage.sv`: the instruction from the decode stage goes through `re_name.sv`
(which only cuts register addresses to five bits, renaming is switched off), waits in
`issue_read_operands.sv` until its unit is free, its sources are available and no
instruction in flight has its destination, and enters the scoreboard. The sources come
from the register files or, while an instruction in flight is about to write them, from
the write-back ports and entries of the scoreboard. The commit stage drives the write
ports of the register files and the commit acknowledges.

Not modelled: the format and rounding mode passed to the floating-point unit, and the
program counter and prediction passed to the branch unit.
-/
import Ariane.Decode.IdStage
import Ariane.Issue.Scoreboard

namespace Ariane

/-! ### The outputs of the scoreboard -/

namespace Scoreboard

variable {w : ℕ}

/-- The slots, lowest index first, as the arbiters with fixed priority see them. -/
def slots (s : Regs w) : List Slot := (List.range (2 ^ w)).map fun k => s.mem (BitVec.ofNat w k)

/-- The destination of a slot is the register `r`, of the floating-point file if `f`. -/
def Slot.writes (sl : Slot) (f : Bool) (r : BitVec 6) : Bool := sl.sbe.rd == r && sl.isRdFprFlag == f

/-- The integer register zero. -/
def isZero (f : Bool) (r : BitVec 6) : Bool := !f && r == 0

/-- `rd_clobber_gpr_o` and `rd_clobber_fpr_o`: the unit of the first issued slot that
writes a register. -/
def rdClobber (s : Regs w) (f : Bool) (r : BitVec 6) : Fu :=
  if isZero f r then .none
  else (((slots s).find? fun sl => sl.issued && sl.writes f r).map (·.sbe.fu)).getD .none

/-- `rs1_o` and its siblings, if valid: a write-back port comes before a slot. -/
def rsO (s : Regs w) (i : In w) (f : Bool) (r : BitVec 6) : Option (BitVec 64) :=
  if isZero f r then none
  else ((i.wb.find? fun b => (s.mem b.transId).writes f r && b.valid && !b.ex.valid).map (·.wbdata)).or
    (((slots s).find? fun sl => sl.writes f r && sl.issued && sl.sbe.valid).map (·.sbe.result))

end Scoreboard

namespace IssueStage

open Lib (Machine)
open Scoreboard (Fifo Item Wb isZero rdClobber)

variable {w : ℕ}

/-! ### The stage -/

/-- `fu_data_t`. -/
structure FuData (w : ℕ) where
  fu : Fu
  operator : FuOp
  operandA : BitVec 64
  operandB : BitVec 64
  imm : BitVec 64
  transId : BitVec w

def FuData.operands (d : FuData w) : BitVec 64 × BitVec 64 × BitVec 64 :=
  (d.operandA, d.operandB, d.imm)

/-- The registers: the scoreboard, the unit that is started and its operands, and the two
register files. -/
structure Regs (w : ℕ) where
  sb : Scoreboard.Regs w
  unit : Fu
  fuData : FuData w
  gpr : BitVec 5 → BitVec 64
  fpr : BitVec 5 → BitVec 64

def reset : Regs w :=
  ⟨Scoreboard.reset, .none, ⟨.none, .add, 0, 0, 0, 0⟩, fun _ => 0, fun _ => 0⟩

/-- The inputs of a cycle. `commit` are the inputs of the commit stage other than the
instructions at its ports. -/
structure In (w : ℕ) where
  flushUnissuedInstr : Bool
  flush : Bool
  decoded : IdStage.In
  decodedInstrValid : Bool
  fluReady : Bool
  lsuReady : Bool
  fpuReady : Bool
  targetAddress : BitVec 64
  wb : List (Wb w)
  commit : Commit.In

/-- `re_name`, with `ENABLE_RENAME` zero. -/
def reName (e : IssueEntry) : IssueEntry :=
  { e with
    rs1 := (e.rs1.setWidth 5).setWidth 6
    rs2 := (e.rs2.setWidth 5).setWidth 6
    rd := (e.rd.setWidth 5).setWidth 6
    result := if e.op.isImmFpr then (e.result.setWidth 5).setWidth 64 else e.result }

/-- `issue_instr_o`, the instruction to be issued. -/
def issueInstr (i : In w) : IssueEntry := reName (IdStage.decodedInstruction i.decoded)

/-- The inputs of the commit stage. -/
def commitIn (s : Regs w) (i : In w) : Commit.In :=
  { i.commit with commitInstr := fun p => (Scoreboard.commitInstrO s.sb p).toScoreboardEntry }

/-- The outputs of the commit stage, port by port: `we_gpr_i` and `we_fpr_i`, `waddr_i`,
`wdata_i`, `commit_ack_i`. -/
def we (s : Regs w) (i : In w) (f : Bool) (p : Fin 2) : Bool :=
  let o := Commit.commit (commitIn s i)
  match f, p with
  | false, 0 => o.weGpr0
  | false, 1 => o.weGpr1
  | true, 0 => o.weFpr0
  | true, 1 => o.weFpr1

def waddr (s : Regs w) (p : Fin 2) : BitVec 5 := (Scoreboard.commitInstrO s.sb p).rd.setWidth 5

def wdata (s : Regs w) (i : In w) (p : Fin 2) : BitVec 64 :=
  let o := Commit.commit (commitIn s i)
  match p with
  | 0 => o.wdata0
  | 1 => o.wdata1

def commitAck (s : Regs w) (i : In w) (p : Fin 2) : Bool :=
  let o := Commit.commit (commitIn s i)
  match p with
  | 0 => o.ack0
  | 1 => o.ack1

/-- `ariane_regfile`: the second port wins. -/
def regfileNext (s : Regs w) (i : In w) (f : Bool) (m : BitVec 5 → BitVec 64) (r : BitVec 5) :
    BitVec 64 :=
  if !f && r == 0 then 0
  else if we s i f 1 && waddr s 1 == r then wdata s i 1
  else if we s i f 0 && waddr s 0 == r then wdata s i 0
  else m r

/-- The register file that `f` selects. -/
def file (s : Regs w) (f : Bool) : BitVec 5 → BitVec 64 := if f then s.fpr else s.gpr

/-- What the scoreboard reads besides the acknowledge: forwarding needs only the
write-back ports of this. -/
def sbPorts (i : In w) : Scoreboard.In w :=
  { (Scoreboard.idle : Scoreboard.In w) with
    flushUnissuedInstr := i.flushUnissuedInstr
    flush := i.flush
    decodedInstr := issueInstr i
    decodedInstrValid := i.decodedInstrValid
    targetAddress := i.targetAddress
    wb := i.wb }

/-- `fu_busy`. -/
def fuBusy (i : In w) : Bool :=
  match (issueInstr i).fu with
  | .alu | .ctrlFlow | .csr | .mult => !i.fluReady
  | .fpu | .fpuVec => !i.fpuReady
  | .load | .store => !i.lsuReady
  | .none => false

/-- The value to forward for a clobbered source; a CSR instruction's result is not
forwarded. -/
def forwarded (s : Regs w) (i : In w) (f : Bool) (r : BitVec 6) : Option (BitVec 64) :=
  if rdClobber s.sb f r ≠ .none ∧ (f = true ∨ rdClobber s.sb f r ≠ .csr) then
    Scoreboard.rsO s.sb (sbPorts i) f r
  else none

/-- A clobbered source that is not available. -/
def stalls (s : Regs w) (i : In w) (f : Bool) (r : BitVec 6) : Bool :=
  rdClobber s.sb f r != .none && (forwarded s i f r).isNone

/-- The address of the third source, in the immediate. -/
def rs3 (e : IssueEntry) : BitVec 6 := e.result.setWidth 6

/-- `stall`. -/
def stall (s : Regs w) (i : In w) : Bool :=
  let e := issueInstr i
  !e.useZimm && stalls s i e.op.isRs1Fpr e.rs1 || stalls s i e.op.isRs2Fpr e.rs2 ||
    e.op.isImmFpr && stalls s i true (rs3 e)

/-- A source register: the value forwarded, else that of the register file. -/
def source (s : Regs w) (i : In w) (f : Bool) (r : BitVec 6) : BitVec 64 :=
  (forwarded s i f r).getD (file s f (r.setWidth 5))

/-- The last steps of `forwarding_operand_select`, from the three sources. -/
def operandSelect (e : IssueEntry) (a b c : BitVec 64) : BitVec 64 × BitVec 64 × BitVec 64 :=
  (if e.useZimm then (e.rs1.setWidth 5).setWidth 64 else if e.usePc then e.pc else a,
    if e.useImm && e.fu != .store && e.fu != .ctrlFlow && !e.op.isRs2Fpr then e.result else b,
    if e.op.isImmFpr then c else e.result)

/-- `fu_data_n`. -/
def fuDataN (s : Regs w) (i : In w) : FuData w :=
  let e := issueInstr i
  let o := operandSelect e (source s i e.op.isRs1Fpr e.rs1) (source s i e.op.isRs2Fpr e.rs2)
    (source s i true (rs3 e))
  ⟨e.fu, e.op, o.1, o.2.1, o.2.2, s.sb.issuePointer⟩

/-- The destination is written by the commit stage in this cycle. -/
def rdCommits (s : Regs w) (i : In w) : Bool :=
  let e := issueInstr i
  let hit (p : Fin 2) : Bool := we s i e.op.isRdFpr p && (waddr s p).setWidth 6 == e.rd
  hit 0 || hit 1

/-- `issue_ack_o`. -/
def issueAck (s : Regs w) (i : In w) : Bool :=
  let e := issueInstr i
  Scoreboard.issueInstrValidO s.sb (sbPorts i) &&
    (!stall s i && !fuBusy i && (rdClobber s.sb e.op.isRdFpr e.rd == .none || rdCommits s i) ||
      e.ex.valid || e.fu == .none) &&
    !(s.unit == .mult && e.fu != .mult)

/-- The inputs of the scoreboard. -/
def sbIn (s : Regs w) (i : In w) : Scoreboard.In w :=
  { sbPorts i with commitAck := commitAck s i, issueAck := issueAck s i }

def next (s : Regs w) (i : In w) : Regs w where
  sb := Scoreboard.next s.sb (sbIn s i)
  unit :=
    if issueAck s i && !(issueInstr i).ex.valid && !i.flushUnissuedInstr then (issueInstr i).fu
    else .none
  fuData := fuDataN s i
  gpr := regfileNext s i false s.gpr
  fpr := regfileNext s i true s.fpr

/-- The stage, with the queue the scoreboard stands for. -/
def machine : Machine (Regs w × Fifo w) (In w) where
  init s := s = (reset, Fifo.reset)
  next s i := (next s.1 i, s.2.next (sbIn s.1 i))

end IssueStage
end Ariane

/-
# A hart in debug mode

As much of a hart as the programs of the debug module use: the words of the base formats and of
floating-point loads and stores (`decode`), and what one instruction does (`Hart.exec`). A memory
access stops the instruction until the data are there; its address and data go out as the store
unit sends them (`Access.wdata`, `Access.be`). The CSRs are behind an interface (`Csrs`), but for
`dscratch0` and `dscratch1`, which hold what is written to them.
-/
import Ariane.Decode.Encoded
import Ariane.Isa.Semantics
import Ariane.Lsu.Lanes

namespace Ariane
namespace Isa

open Decoder (opcode rd funct3 rs1 rs2 funct7 imm12)

/-! ### Words -/

def LoadOp.all : List LoadOp := [.lb, .lh, .lw, .ld, .lbu, .lhu, .lwu]
def StoreOp.all : List StoreOp := [.sb, .sh, .sw, .sd]
def ImmOp.all : List ImmOp := [.addi, .slti, .sltiu, .xori, .ori, .andi]
def ShiftOp.all : List ShiftOp := [.sll, .srl, .sra]
def Cond.all : List Cond := [.eq, .ne, .lt, .ge, .ltu, .geu]
def CsrOp.all : List CsrOp := [.rw, .rs, .rc]
def Prec.all : List Prec := [.s, .d]

/-- Of the operations on two registers, those that are no divisions. -/
def RegOp.all : List RegOp :=
  [.add, .sub, .sll, .slt, .sltu, .xor, .srl, .sra, .or, .and, .mul, .mulh, .mulhsu, .mulhu]

/-- The instruction that has the fields of a word, if it is of a format treated here. -/
def candidate (w : BitVec 32) : Option Instr :=
  match opcode w with
  | 0b0010111#7 => some (.auipc (rd w) (Decoder.uImm20 w))
  | 0b1101111#7 => some (.jal (rd w) (Decoder.jImm20 w))
  | 0b1100011#7 =>
    (Cond.all.find? fun k => k.funct3 == funct3 w).map fun k => .branch k (rs1 w) (rs2 w) (Decoder.bImm12 w)
  | 0b0000011#7 =>
    (LoadOp.all.find? fun k => k.funct3 == funct3 w).map fun k => .load k (rd w) (rs1 w) (imm12 w)
  | 0b0100011#7 =>
    (StoreOp.all.find? fun k => k.funct3 == funct3 w).map fun k =>
      .store k (rs1 w) (rs2 w) (funct7 w ++ rd w)
  | 0b0010011#7 =>
    match ImmOp.all.find? fun k => k.funct3 == funct3 w with
    | some k => some (.opImm k (rd w) (rs1 w) (imm12 w))
    | none =>
      (ShiftOp.all.find? fun k => k.funct3 == funct3 w && k.funct6 == (imm12 w).extractLsb' 6 6).map fun k =>
        .shiftImm k (rd w) (rs1 w) ((imm12 w).extractLsb' 0 6)
  | 0b0110011#7 =>
    (RegOp.all.find? fun k => k.funct7 == funct7 w && k.funct3 == funct3 w).map fun k =>
      .op k (rd w) (rs1 w) (rs2 w)
  | 0b0001111#7 => some (.fence ((imm12 w).extractLsb' 4 4) ((imm12 w).extractLsb' 0 4))
  | 0b1110011#7 =>
    if funct3 w = 0 then if imm12 w = 0x001 then some .ebreak else some .dret
    else (CsrOp.all.find? fun k => k.funct3 == funct3 w).map fun k => .csr k (rd w) (rs1 w) (imm12 w)
  | 0b0000111#7 =>
    (Prec.all.find? fun p => p.funct3 == funct3 w).map fun p => .fload p (rd w) (rs1 w) (imm12 w)
  | 0b0100111#7 =>
    (Prec.all.find? fun p => p.funct3 == funct3 w).map fun p => .fstore p (rs1 w) (rs2 w) (funct7 w ++ rd w)
  | _ => none

/-- The instruction that a word encodes, of those formats. -/
def decode (w : BitVec 32) : Option Instr := (candidate w).filter fun i => encode i == w

theorem encode_of_decode {w : BitVec 32} {i : Instr} (h : decode w = some i) : encode i = w := by
  simpa using (Option.filter_eq_some_iff.1 h).2

theorem decode_encode_of_candidate {i : Instr} (h : candidate (encode i) = some i) :
    decode (encode i) = some i := by
  rw [decode, h, Option.filter_some_pos]
  exact beq_self_eq_true (encode i)

variable {r r1 r2 : BitVec 5} {imm : BitVec 12}

@[simp] theorem decode_auipc {imm : BitVec 20} : decode (encode (.auipc r imm)) = some (.auipc r imm) := by
  apply decode_encode_of_candidate
  have hi := Decoder.uImm20_uType r 0b0010111 imm
  obtain ⟨ho, hd, -⟩ := @Decoder.uType_inv r 0b0010111 imm _ rfl
  simp only [candidate, encode, ho, hd, hi]
  rfl

@[simp] theorem decode_jal {imm : BitVec 20} : decode (encode (.jal r imm)) = some (.jal r imm) := by
  apply decode_encode_of_candidate
  have hi := Decoder.jImm20_jType r 0b1101111 imm
  obtain ⟨ho, hd, -⟩ := @Decoder.jType_inv r 0b1101111 imm _ rfl
  simp only [candidate, encode, ho, hd, hi]
  rfl

@[simp] theorem decode_branch {c : Cond} :
    decode (encode (.branch c r1 r2 imm)) = some (.branch c r1 r2 imm) := by
  apply decode_encode_of_candidate
  have hi := Decoder.bImm12_bType r2 r1 c.funct3 0b1100011 imm
  obtain ⟨ho, h3, h1, h2, -⟩ := @Decoder.bType_inv r2 r1 c.funct3 0b1100011 imm _ rfl
  simp only [candidate, encode, ho, h3, h1, h2, hi]
  cases c <;> rfl

@[simp] theorem decode_load {k : LoadOp} : decode (encode (.load k r r1 imm)) = some (.load k r r1 imm) := by
  apply decode_encode_of_candidate
  obtain ⟨ho, hd, h3, h1, hi⟩ := @Decoder.iType_inv r1 k.funct3 r 0b0000011 imm _ rfl
  simp only [candidate, encode, ho, hd, h3, h1, hi]
  cases k <;> rfl

/-- The immediate of a store. -/
theorem sImm12_sType (f3 : BitVec 3) (op : BitVec 7) :
    funct7 (sType imm r2 r1 f3 op) ++ rd (sType imm r2 r1 f3 op) = imm := by
  obtain ⟨-, hd, -, -, -, h7⟩ :=
    Decoder.rType_inv (imm.extractLsb' 5 7) r2 r1 f3 (imm.extractLsb' 0 5) op rfl
  rw [sType, h7, hd]
  exact (BitVec.extractLsb'_append_extractLsb'_eq_extractLsb' rfl).trans (BitVec.extractLsb'_eq_self ..)

@[simp] theorem decode_store {k : StoreOp} :
    decode (encode (.store k r1 r2 imm)) = some (.store k r1 r2 imm) := by
  apply decode_encode_of_candidate
  have hi := @sImm12_sType r1 r2 imm k.funct3 0b0100011
  obtain ⟨ho, h3, h1, h2, -⟩ := @Decoder.sType_inv r2 r1 k.funct3 0b0100011 imm _ rfl
  simp only [candidate, encode, ho, h3, h1, h2, hi]
  cases k <;> rfl

@[simp] theorem decode_opImm {k : ImmOp} : decode (encode (.opImm k r r1 imm)) = some (.opImm k r r1 imm) := by
  apply decode_encode_of_candidate
  obtain ⟨ho, hd, h3, h1, hi⟩ := @Decoder.iType_inv r1 k.funct3 r 0b0010011 imm _ rfl
  simp only [candidate, encode, ho, hd, h3, h1, hi]
  cases k <;> rfl

@[simp] theorem decode_shiftImm {k : ShiftOp} {n : BitVec 6} :
    decode (encode (.shiftImm k r r1 n)) = some (.shiftImm k r r1 n) := by
  apply decode_encode_of_candidate
  obtain ⟨ho, hd, h3, h1, hi⟩ := @Decoder.iType_inv r1 k.funct3 r 0b0010011 (k.funct6 ++ n) _ rfl
  have h6 : (k.funct6 ++ n).extractLsb' 6 6 = k.funct6 := BitVec.extractLsb'_append_eq_left
  have hn : (k.funct6 ++ n).extractLsb' 0 6 = n := BitVec.extractLsb'_append_eq_right
  simp only [candidate, encode, ho, hd, h3, h1, hi, h6, hn]
  cases k <;> rfl

theorem decode_op {k : RegOp} (hk : k ∈ RegOp.all) :
    decode (encode (.op k r r1 r2)) = some (.op k r r1 r2) := by
  apply decode_encode_of_candidate
  obtain ⟨ho, hd, h3, h1, h2, h7⟩ := Decoder.rType_inv k.funct7 r2 r1 k.funct3 r 0b0110011 rfl
  simp only [candidate, encode, ho, hd, h3, h1, h2, h7]
  cases k <;> first | rfl | simp [RegOp.all] at hk

@[simp] theorem decode_csr {k : CsrOp} : decode (encode (.csr k r r1 imm)) = some (.csr k r r1 imm) := by
  apply decode_encode_of_candidate
  obtain ⟨ho, hd, h3, h1, hi⟩ := @Decoder.iType_inv r1 k.funct3 r 0b1110011 imm _ rfl
  simp only [candidate, encode, ho, hd, h3, h1, hi]
  cases k <;> rfl

@[simp] theorem decode_fload {p : Prec} : decode (encode (.fload p r r1 imm)) = some (.fload p r r1 imm) := by
  apply decode_encode_of_candidate
  obtain ⟨ho, hd, h3, h1, hi⟩ := @Decoder.iType_inv r1 p.funct3 r 0b0000111 imm _ rfl
  simp only [candidate, encode, ho, hd, h3, h1, hi]
  cases p <;> rfl

@[simp] theorem decode_fstore {p : Prec} :
    decode (encode (.fstore p r1 r2 imm)) = some (.fstore p r1 r2 imm) := by
  apply decode_encode_of_candidate
  have hi := @sImm12_sType r1 r2 imm p.funct3 0b0100111
  obtain ⟨ho, h3, h1, h2, -⟩ := @Decoder.sType_inv r2 r1 p.funct3 0b0100111 imm _ rfl
  simp only [candidate, encode, ho, h3, h1, h2, hi]
  cases p <;> rfl

@[simp] theorem decode_ebreak : decode (encode .ebreak) = some .ebreak := by decide

@[simp] theorem decode_dret : decode (encode .dret) = some .dret := by decide

/-! ### Registers -/

def Gpr.set (g : Gpr) (r : BitVec 5) (v : BitVec 64) : Gpr where
  read q := if q = 0 then 0 else if q = r then v else g.read q
  zero := rfl

theorem Gpr.ext {g g' : Gpr} (h : ∀ r, g.read r = g'.read r) : g = g' := by
  obtain ⟨f, hf⟩ := g
  obtain ⟨f', hf'⟩ := g'
  obtain rfl : f = f' := funext h
  rfl

theorem Gpr.read_set (g : Gpr) (r q : BitVec 5) (v : BitVec 64) :
    (g.set r v).read q = if q = 0 then 0 else if q = r then v else g.read q := rfl

@[simp] theorem Gpr.read_set_self (g : Gpr) {r : BitVec 5} (v : BitVec 64) (h : r ≠ 0) :
    (g.set r v).read r = v := by
  rw [read_set, if_neg h, if_pos rfl]

@[simp] theorem Gpr.read_set_of_ne (g : Gpr) {r q : BitVec 5} (v : BitVec 64) (h : q ≠ r) :
    (g.set r v).read q = g.read q := by
  rw [read_set, if_neg h]
  split_ifs with hq
  · rw [hq, g.zero]
  · rfl

/-- The CSRs behind an interface: a read or a write of one that does not exist, or is not to be
written, fails. -/
structure Csrs (σ : Type) where
  read : σ → BitVec 12 → Option (BitVec 64)
  write : σ → BitVec 12 → BitVec 64 → Option σ
  /-- The floating-point unit is switched on. -/
  fpOn : σ → Bool
  /-- The status after a write of a floating-point register. -/
  fpDirty : σ → σ

def dscratch0 : BitVec 12 := 0x7b2
def dscratch1 : BitVec 12 := 0x7b3

/-- The CSRs with the scratch registers of the debug mode. -/
structure Scratch (σ : Type) where
  s0 : BitVec 64
  s1 : BitVec 64
  rest : σ

def Csrs.scratch {σ : Type} (F : Csrs σ) : Csrs (Scratch σ) where
  read c a := if a = dscratch0 then some c.s0 else if a = dscratch1 then some c.s1 else F.read c.rest a
  write c a v :=
    if a = dscratch0 then some { c with s0 := v }
    else if a = dscratch1 then some { c with s1 := v }
    else (F.write c.rest a v).map fun r => { c with rest := r }
  fpOn c := F.fpOn c.rest
  fpDirty c := { c with rest := F.fpDirty c.rest }

/-- The registers of a hart. -/
structure Hart (σ : Type) where
  pc : BitVec 64
  gpr : Gpr
  fpr : BitVec 5 → BitVec 64
  csrs : σ

/-! ### One instruction -/

/-- The access of a load or a store. -/
structure Access where
  addr : BitVec 64
  size : BitVec 2
  store : Option (BitVec 64)
deriving DecidableEq

namespace Access

def lane (a : Access) : BitVec 3 := a.addr.extractLsb' 0 3

/-- The store as it leaves the store unit. -/
def wdata (a : Access) : BitVec 64 := Lsu.dataAlign a.lane (a.store.getD 0)
def be (a : Access) : BitVec 8 := Lsu.Lanes.beGen a.lane a.size

/-- The doubleword of a load, shifted to the access. -/
def shifted (a : Access) (rdata : BitVec 64) : BitVec 64 := rdata >>> (8 * a.lane.toNat)

end Access

def LoadOp.size : LoadOp → BitVec 2
  | lb | lbu => 0
  | lh | lhu => 1
  | lw | lwu => 2
  | ld => 3

/-- The value of a load. -/
def LoadOp.eval (x : BitVec 64) : LoadOp → BitVec 64
  | lb => (x.setWidth 8).signExtend 64
  | lh => (x.setWidth 16).signExtend 64
  | lw => (x.setWidth 32).signExtend 64
  | ld => x
  | lbu => (x.setWidth 8).setWidth 64
  | lhu => (x.setWidth 16).setWidth 64
  | lwu => (x.setWidth 32).setWidth 64

def StoreOp.size : StoreOp → BitVec 2
  | sb => 0
  | sh => 1
  | sw => 2
  | sd => 3

def Prec.size : Prec → BitVec 2
  | s => 2
  | d => 3

/-- The value of a floating-point load: a single is boxed in ones. -/
def Prec.box (x : BitVec 64) : Prec → BitVec 64
  | s => BitVec.allOnes 32 ++ x.setWidth 32
  | d => x

def CsrOp.eval (old x : BitVec 64) : CsrOp → BitVec 64
  | rw => x
  | rs => old ||| x
  | rc => old &&& ~~~x

/-- What an instruction comes to: registers, an access whose data it waits for, or an end. -/
inductive Effect (σ : Type)
  | done (h : Hart σ)
  | mem (a : Access) (k : BitVec 64 → Hart σ)
  | ebreak
  | dret
  | exception

namespace Hart

variable {σ : Type}

def set (h : Hart σ) (r : BitVec 5) (v : BitVec 64) : Hart σ := { h with gpr := h.gpr.set r v }

def advance (h : Hart σ) : Hart σ := { h with pc := h.pc + 4 }

/-- The value a CSR instruction returns, and the CSRs after it. A write alone does not read, and
an operation with register zero does not write. -/
def csrAccess (F : Csrs σ) (h : Hart σ) (k : CsrOp) (rd rs1 : BitVec 5) (a : BitVec 12) :
    Option (BitVec 64 × σ) := do
  let old ← if k = .rw ∧ rd = 0 then some 0 else F.read h.csrs a
  let csrs ← if k ≠ .rw ∧ rs1 = 0 then some h.csrs else F.write h.csrs a (k.eval old (h.gpr.read rs1))
  return (old, csrs)

/-- One instruction. Those of the formats that `decode` leaves out are not treated. -/
def exec (F : Csrs σ) (h : Hart σ) : Instr → Effect σ
  | .load k rd rs1 imm =>
    .mem ⟨h.gpr.read rs1 + imm.signExtend 64, k.size, none⟩ fun x => (h.set rd (k.eval x)).advance
  | .store k rs1 rs2 imm =>
    .mem ⟨h.gpr.read rs1 + imm.signExtend 64, k.size, some (h.gpr.read rs2)⟩ fun _ => h.advance
  | .fload p rd rs1 imm =>
    if F.fpOn h.csrs then
      .mem ⟨h.gpr.read rs1 + imm.signExtend 64, p.size, none⟩ fun x =>
        { h with fpr := Function.update h.fpr rd (p.box x), csrs := F.fpDirty h.csrs }.advance
    else .exception
  | .fstore p rs1 rs2 imm =>
    if F.fpOn h.csrs then
      .mem ⟨h.gpr.read rs1 + imm.signExtend 64, p.size, some (h.fpr rs2)⟩ fun _ => h.advance
    else .exception
  | .csr k rd rs1 a =>
    match h.csrAccess F k rd rs1 a with
    | some (v, c) => .done ({ h with csrs := c }.set rd v).advance
    | none => .exception
  | .fence _ _ => .done h.advance
  | .ebreak => .ebreak
  | .dret => .dret
  | i =>
    match Isa.exec h.pc 4 h.gpr i with
    | some ⟨some (rd, v), pc⟩ => .done { h.set rd v with pc := pc }
    | some ⟨none, pc⟩ => .done { h with pc := pc }
    | none => .exception

/-- The instruction that a word encodes; any other word is taken for illegal. -/
def step (F : Csrs σ) (h : Hart σ) (w : BitVec 32) : Effect σ :=
  match decode w with
  | some i => h.exec F i
  | none => .exception

theorem step_encode (F : Csrs σ) (h : Hart σ) {i : Instr} (hi : decode (encode i) = some i) :
    h.step F (encode i) = h.exec F i := by
  rw [step, hi]

end Hart

/-! ### The next instruction -/

/-- The instruction goes on to the next one, if anywhere. -/
def Instr.straight : Instr → Bool
  | .jal .. | .jalr .. | .branch .. => false
  | _ => true

theorem exec_nextPc {pc len : BitVec 64} {g : Gpr} {i : Instr} {r : Result} (hi : i.straight = true)
    (he : exec pc len g i = some r) : r.nextPc = pc + len := by
  cases i
  case jal | jalr | branch => cases hi
  case op =>
    obtain ⟨v, -, rfl⟩ := Option.map_eq_some_iff.1 he
    rfl
  case opW =>
    obtain ⟨v, -, rfl⟩ := Option.map_eq_some_iff.1 he
    rfl
  all_goals cases he
  all_goals rfl

namespace Hart

variable {σ : Type} {F : Csrs σ} {h h' : Hart σ} {i : Instr} {a : Access} {k : BitVec 64 → Hart σ}

theorem pc_of_done (hi : i.straight = true) (he : h.exec F i = .done h') : h'.pc = h.pc + 4 := by
  unfold exec at he
  split at he
  case h_5 =>
    split at he <;> cases he
    rfl
  case h_6 =>
    cases he
    rfl
  case h_9 =>
    split at he
    · next hx => cases he; exact exec_nextPc hi hx
    · next hx => cases he; exact exec_nextPc hi hx
    · cases he
  all_goals
    (try split at he) <;> cases he

theorem pc_of_mem (he : h.exec F i = .mem a k) (x : BitVec 64) : (k x).pc = h.pc + 4 := by
  unfold exec at he
  split at he <;> (try split at he) <;> cases he <;> rfl

/-- A store does not look at what it gets. -/
theorem eq_of_store (he : h.exec F i = .mem a k) (ha : a.store.isSome = true) (x y : BitVec 64) : k x = k y := by
  unfold exec at he
  split at he <;> (try split at he) <;> cases he <;> first | rfl | cases ha

/-- A word that decodes is what the instruction does. -/
theorem step_inv {w : BitVec 32} (he : h.step F w ≠ .exception) :
    ∃ i, decode w = some i ∧ h.step F w = h.exec F i := by
  cases hd : decode w with
  | none => exact absurd (by rw [step, hd]) he
  | some i => exact ⟨i, rfl, by rw [step, hd]⟩

end Hart

end Isa
end Ariane

/-
# The instruction decode stage

`src/compressed_decoder.sv` and the wiring of `src/id_stage.sv`: a compressed
instruction is expanded to a 32-bit one and both kinds go through the decoder.

What the commit stage needs to know of a compressed instruction is that it is never a
fence, a CSR instruction or an AMO: those move the program counter by four
(`plain_of_compressed`).

Not modelled: the register between decode and issue, and its handshake.
-/
import Ariane.Decode.Decoder

namespace Ariane

/-! ### The compressed decoder -/

namespace CompressedDecoder

/-- What the case on the quadrant and `funct3` assigns: `instr_o`, `illegal_instr_o`. -/
structure Expanded where
  instr : BitVec 32
  illegal : Bool

section Quadrants

variable (i : BitVec 32)

/-- Bit `n`, and the bits from `lo` to `hi`. -/
def bit (n : ℕ) : BitVec 1 := i.extractLsb' n 1

/-- The sign of a compressed immediate, repeated. -/
def sign (n : ℕ) : BitVec n := (bit i 12).signExtend n

theorem getLsbD_bit (n k : ℕ) : (bit i n).getLsbD k = (decide (k = 0) && i.getLsbD n) := by
  rw [bit, BitVec.getLsbD_extractLsb']
  cases k with
  | zero => simp
  | succ k => simp

theorem getLsbD_sign (n k : ℕ) : (sign i n).getLsbD k = (decide (k < n) && i.getLsbD 12) := by
  have hm : (bit i 12).msb = i.getLsbD 12 := by
    rw [BitVec.msb_eq_getLsbD_last, getLsbD_bit]
    simp
  rw [sign, BitVec.getLsbD_signExtend, hm, getLsbD_bit]
  cases k with
  | zero => simp
  | succ k => simp

/-- The register fields `rd'`, `rs1'` and `rs2'`. -/
def lowReg : BitVec 5 := 0b01#2 ++ i.extractLsb' 2 3
def highReg : BitVec 5 := 0b01#2 ++ i.extractLsb' 7 3

/-- The full register fields. -/
def rdField : BitVec 5 := i.extractLsb' 7 5
def rs2Field : BitVec 5 := i.extractLsb' 2 5

def legal (w : BitVec 32) : Expanded := ⟨w, false⟩

/-- The offset of the double-word loads and stores of the first quadrant. -/
def dwordOff : BitVec 5 := i.extractLsb' 5 2 ++ i.extractLsb' 10 3

def quadrant0 : Expanded :=
  match i.extractLsb' 13 3 with
  | 0b000#3 =>
    ⟨0#2 ++ i.extractLsb' 7 4 ++ i.extractLsb' 11 2 ++ bit i 5 ++ bit i 6 ++ 0#2 ++ 0x02#5 ++ 0#3 ++
      lowReg i ++ 0b0010011#7, i.extractLsb' 5 8 == 0⟩
  | 0b001#3 =>
    legal (0#4 ++ dwordOff i ++ 0#3 ++ highReg i ++ 0b011#3 ++ lowReg i ++ 0b0000111#7)
  | 0b010#3 =>
    legal (0#5 ++ bit i 5 ++ i.extractLsb' 10 3 ++ bit i 6 ++ 0#2 ++ highReg i ++ 0b010#3 ++
      lowReg i ++ 0b0000011#7)
  | 0b011#3 =>
    legal (0#4 ++ dwordOff i ++ 0#3 ++ highReg i ++ 0b011#3 ++ lowReg i ++ 0b0000011#7)
  | 0b101#3 =>
    legal (0#4 ++ i.extractLsb' 5 2 ++ bit i 12 ++ lowReg i ++ highReg i ++ 0b011#3 ++
      i.extractLsb' 10 2 ++ 0#3 ++ 0b0100111#7)
  | 0b110#3 =>
    legal (0#5 ++ bit i 5 ++ bit i 12 ++ lowReg i ++ highReg i ++ 0b010#3 ++ i.extractLsb' 10 2 ++
      bit i 6 ++ 0#2 ++ 0b0100011#7)
  | 0b111#3 =>
    legal (0#4 ++ i.extractLsb' 5 2 ++ bit i 12 ++ lowReg i ++ highReg i ++ 0b011#3 ++
      i.extractLsb' 10 2 ++ 0#3 ++ 0b0100011#7)
  | _ => ⟨i, true⟩

/-- A register-register operation on the registers `rd'` and `rs2'`. -/
def aluReg (funct7 : BitVec 7) (funct3 : BitVec 3) (opcode : BitVec 7) : Expanded :=
  legal (funct7 ++ lowReg i ++ highReg i ++ funct3 ++ highReg i ++ opcode)

def miscAlu : Expanded :=
  match i.extractLsb' 10 2 with
  | 0b10#2 =>
    legal (sign i 6 ++ bit i 12 ++ rs2Field i ++ highReg i ++ 0b111#3 ++ highReg i ++ 0b0010011#7)
  | 0b11#2 =>
    match bit i 12 ++ i.extractLsb' 5 2 with
    | 0b000#3 => aluReg i 0b0100000 0b000 0b0110011
    | 0b001#3 => aluReg i 0b0000000 0b100 0b0110011
    | 0b010#3 => aluReg i 0b0000000 0b110 0b0110011
    | 0b011#3 => aluReg i 0b0000000 0b111 0b0110011
    | 0b100#3 => aluReg i 0b0100000 0b000 0b0111011
    | 0b101#3 => aluReg i 0b0000000 0b000 0b0111011
    | _ => ⟨i, true⟩
  | _ =>
    legal (0#1 ++ bit i 10 ++ 0#4 ++ bit i 12 ++ rs2Field i ++ highReg i ++ 0b101#3 ++ highReg i ++
      0b0010011#7)

def quadrant1 : Expanded :=
  match i.extractLsb' 13 3 with
  | 0b000#3 =>
    legal (sign i 6 ++ bit i 12 ++ rs2Field i ++ rdField i ++ 0#3 ++ rdField i ++ 0b0010011#7)
  | 0b001#3 =>
    if rdField i ≠ 0 then
      legal (sign i 6 ++ bit i 12 ++ rs2Field i ++ rdField i ++ 0#3 ++ rdField i ++ 0b0011011#7)
    else ⟨i, true⟩
  | 0b010#3 =>
    legal (sign i 6 ++ bit i 12 ++ rs2Field i ++ 0#5 ++ 0#3 ++ rdField i ++ 0b0010011#7)
  | 0b011#3 =>
    let w : BitVec 32 :=
      if rdField i = 0x02 then
        sign i 3 ++ i.extractLsb' 3 2 ++ bit i 5 ++ bit i 2 ++ bit i 6 ++ 0#4 ++ 0x02#5 ++ 0#3 ++
          0x02#5 ++ 0b0010011#7
      else sign i 15 ++ rs2Field i ++ rdField i ++ 0b0110111#7
    ⟨w, bit i 12 ++ rs2Field i == 0⟩
  | 0b100#3 => miscAlu i
  | 0b101#3 =>
    legal (bit i 12 ++ bit i 8 ++ i.extractLsb' 9 2 ++ bit i 6 ++ bit i 7 ++ bit i 2 ++ bit i 11 ++
      i.extractLsb' 3 3 ++ sign i 9 ++ 0#4 ++ ~~~(bit i 15) ++ 0b1101111#7)
  | _ =>
    legal (sign i 4 ++ i.extractLsb' 5 2 ++ bit i 2 ++ 0#5 ++ highReg i ++ 0#2 ++ bit i 13 ++
      i.extractLsb' 10 2 ++ i.extractLsb' 3 2 ++ bit i 12 ++ 0b1100011#7)

/-- `c.jr`, `c.mv`, `c.ebreak`, `c.jalr` and `c.add`. -/
def jalrMvAdd : Expanded :=
  if bit i 12 = 0 then
    if rs2Field i = 0 then
      ⟨0#12 ++ rdField i ++ 0#3 ++ 0#5 ++ 0b1100111#7, rdField i == 0⟩
    else legal (0#7 ++ rs2Field i ++ 0#5 ++ 0#3 ++ rdField i ++ 0b0110011#7)
  else
    if rdField i = 0 ∧ rs2Field i = 0 then legal 0x00100073
    else if rdField i ≠ 0 ∧ rs2Field i = 0 then
      legal (0#12 ++ rdField i ++ 0#3 ++ 0b00001#5 ++ 0b1100111#7)
    else legal (0#7 ++ rs2Field i ++ rdField i ++ 0#3 ++ rdField i ++ 0b0110011#7)

def quadrant2 : Expanded :=
  match i.extractLsb' 13 3 with
  | 0b000#3 =>
    legal (0#6 ++ bit i 12 ++ rs2Field i ++ rdField i ++ 0b001#3 ++ rdField i ++ 0b0010011#7)
  | 0b001#3 =>
    ⟨0#3 ++ i.extractLsb' 2 3 ++ bit i 12 ++ i.extractLsb' 5 2 ++ 0#3 ++ 0x02#5 ++ 0b011#3 ++
      rdField i ++ 0b0000111#7, rdField i == 0⟩
  | 0b010#3 =>
    ⟨0#4 ++ i.extractLsb' 2 2 ++ bit i 12 ++ i.extractLsb' 4 3 ++ 0#2 ++ 0x02#5 ++ 0b010#3 ++
      rdField i ++ 0b0000011#7, rdField i == 0⟩
  | 0b011#3 =>
    ⟨0#3 ++ i.extractLsb' 2 3 ++ bit i 12 ++ i.extractLsb' 5 2 ++ 0#3 ++ 0x02#5 ++ 0b011#3 ++
      rdField i ++ 0b0000011#7, rdField i == 0⟩
  | 0b100#3 => jalrMvAdd i
  | 0b101#3 =>
    legal (0#3 ++ i.extractLsb' 7 3 ++ bit i 12 ++ rs2Field i ++ 0x02#5 ++ 0b011#3 ++
      i.extractLsb' 10 2 ++ 0#3 ++ 0b0100111#7)
  | 0b110#3 =>
    legal (0#4 ++ i.extractLsb' 7 2 ++ bit i 12 ++ rs2Field i ++ 0x02#5 ++ 0b010#3 ++
      i.extractLsb' 9 3 ++ 0#2 ++ 0b0100011#7)
  | _ =>
    legal (0#3 ++ i.extractLsb' 7 3 ++ bit i 12 ++ rs2Field i ++ 0x02#5 ++ 0b011#3 ++
      i.extractLsb' 10 2 ++ 0#3 ++ 0b0100011#7)

/-- `is_compressed_o`. -/
def isCompressedO : Bool := i.extractLsb' 0 2 != 0b11

def expand : Expanded :=
  match i.extractLsb' 0 2 with
  | 0b00#2 => quadrant0 i
  | 0b01#2 => quadrant1 i
  | 0b10#2 => quadrant2 i
  | _ => legal i

/-- `illegal_instr_o`. -/
def illegalInstrO : Bool := (expand i).illegal

/-- `instr_o`: an illegal instruction is passed on as it is. -/
def instrO : BitVec 32 := if (expand i).illegal && isCompressedO i then i else (expand i).instr

end Quadrants

/-- The opcodes a compressed instruction expands to, `EBREAK` apart. -/
def plainOpcodes : List Decoder.Opcode :=
  [.opImm, .lui, .op, .op32, .opImm32, .load, .loadFp, .store, .storeFp, .jal, .jalr, .branch]

def Plain (w : BitVec 32) : Prop :=
  Decoder.opcode w ∈ plainOpcodes.map Decoder.Opcode.bits ∨ w = 0x00100073

theorem plain_append (a : BitVec 25) (o : BitVec 7) (h : o ∈ plainOpcodes.map Decoder.Opcode.bits) :
    Plain (a ++ o) := by
  have ho : Decoder.opcode (a ++ o) = o := BitVec.extractLsb'_append_eq_right
  refine .inl ?_
  rwa [ho]

theorem plain_quadrant0 (i : BitVec 32) :
    (quadrant0 i).illegal = true ∨ Plain (quadrant0 i).instr := by
  unfold quadrant0 legal
  split
  all_goals first | exact .inr (plain_append _ _ (by decide)) | exact .inl rfl

theorem plain_miscAlu (i : BitVec 32) : (miscAlu i).illegal = true ∨ Plain (miscAlu i).instr := by
  unfold miscAlu aluReg legal
  split
  · exact .inr (plain_append _ _ (by decide))
  · split
    all_goals first | exact .inr (plain_append _ _ (by decide)) | exact .inl rfl
  · exact .inr (plain_append _ _ (by decide))

theorem plain_quadrant1 (i : BitVec 32) :
    (quadrant1 i).illegal = true ∨ Plain (quadrant1 i).instr := by
  unfold quadrant1 legal
  split
  · exact .inr (plain_append _ _ (by decide))
  · split
    · exact .inr (plain_append _ _ (by decide))
    · exact .inl rfl
  · exact .inr (plain_append _ _ (by decide))
  · refine .inr ?_
    dsimp only
    split
    · exact plain_append _ _ (by decide)
    · exact plain_append _ _ (by decide)
  · exact plain_miscAlu i
  · exact .inr (plain_append _ _ (by decide))
  · exact .inr (plain_append _ _ (by decide))

theorem plain_jalrMvAdd (i : BitVec 32) : Plain (jalrMvAdd i).instr := by
  unfold jalrMvAdd legal
  split_ifs
  · exact plain_append _ _ (by decide)
  · exact plain_append _ _ (by decide)
  · exact .inr rfl
  · exact plain_append _ _ (by decide)
  · exact plain_append _ _ (by decide)

theorem plain_quadrant2 (i : BitVec 32) : Plain (quadrant2 i).instr := by
  unfold quadrant2 legal
  split
  all_goals first | exact plain_jalrMvAdd i | exact plain_append _ _ (by decide)

/-- A legal compressed instruction expands to a plain word. -/
theorem plain_instrO {i : BitVec 32} (hc : isCompressedO i = true) (hl : illegalInstrO i = false) :
    Plain (instrO i) := by
  have hexp : (expand i).illegal = true ∨ Plain (expand i).instr := by
    unfold expand
    split
    · exact plain_quadrant0 i
    · exact plain_quadrant1 i
    · exact .inr (plain_quadrant2 i)
    · rename_i h0 h1 h2
      have h3 : ∀ b : BitVec 2, b ≠ 0#2 → b ≠ 1#2 → b ≠ 2#2 → (b != 0b11) = false := by decide
      rw [isCompressedO, h3 _ h0 h1 h2] at hc
      cases hc
  unfold illegalInstrO at hl
  rw [instrO, hl, Bool.false_and, if_neg Bool.false_ne_true]
  rcases hexp with h | h
  · rw [hl] at h
    cases h
  · exact h

end CompressedDecoder

/-! ### The stage -/

namespace IdStage

/-- `fetch_entry_t`, and what the stage gets from the CSR file and the pins. -/
structure In where
  address : BitVec 64
  instruction : BitVec 32
  branchPredict : BranchPredict
  ex : Exn
  debugReq : Bool
  irq : BitVec 2
  irqCtrl : Decoder.IrqCtrl
  privLvl : Riscv.PrivLvl
  debugMode : Bool
  fs : Riscv.Xs
  frm : BitVec 3
  tvm : Bool
  tw : Bool
  tsr : Bool

variable (f : In)

/-- The inputs of the decoder. -/
def decoderIn : Decoder.In where
  debugReq := f.debugReq
  pc := f.address
  isCompressed := CompressedDecoder.isCompressedO f.instruction
  compressedInstr := f.instruction.extractLsb' 0 16
  isIllegal := CompressedDecoder.illegalInstrO f.instruction
  instruction := CompressedDecoder.instrO f.instruction
  branchPredict := f.branchPredict
  ex := f.ex
  irq := f.irq
  irqCtrl := f.irqCtrl
  privLvl := f.privLvl
  debugMode := f.debugMode
  fs := f.fs
  frm := f.frm
  tvm := f.tvm
  tw := f.tw
  tsr := f.tsr

/-- `decoded_instruction`. -/
def decodedInstruction : IssueEntry := Decoder.instructionO (decoderIn f)

theorem fu_of_plain (x : Decoder.In) {o : Decoder.Opcode} (h : o ∈ CompressedDecoder.plainOpcodes) :
    (Decoder.decodeOpcode x o).fu ≠ .csr ∧ (Decoder.decodeOpcode x o).op.isAmo = false := by
  have hst : ∀ f, ((Decoder.storeTable f).getD .add).isAmo = false := by decide
  have hfst : ∀ f, ((Decoder.storeFpTable f).getD .add).isAmo = false := by decide
  -- an operation outside the store unit is no AMO
  have hne (hfu : (Decoder.decodeOpcode x o).fu ≠ .store) :
      (Decoder.decodeOpcode x o).op.isAmo = false := by
    rw [Bool.eq_false_iff]
    exact fun h => hfu (Decoder.store_of_amo (Decoder.runs_opcode x o) h)
  have hreg (t) : (Decoder.regReg x t).fu = .mult ∨ (Decoder.regReg x t).fu = .alu := by
    unfold Decoder.regReg Decoder.Decoded.table
    dsimp only
    split
    · exact .inl rfl
    · exact .inr rfl
  have hop : (Decoder.decodeOp x).fu ≠ .csr ∧ (Decoder.decodeOp x).fu ≠ .store := by
    unfold Decoder.decodeOp
    split
    · exact ⟨by decide, by decide⟩
    · rcases hreg Decoder.opTable with h | h <;> rw [h] <;> exact ⟨by decide, by decide⟩
  have hop32 : (Decoder.decodeOp32 x).fu ≠ .csr ∧ (Decoder.decodeOp32 x).fu ≠ .store := by
    unfold Decoder.decodeOp32
    rcases hreg Decoder.op32Table with h | h <;> rw [h] <;> exact ⟨by decide, by decide⟩
  have hfld : (Decoder.decodeLoadFp x).fu ≠ .csr ∧ (Decoder.decodeLoadFp x).fu ≠ .store := by
    unfold Decoder.decodeLoadFp
    split <;> exact ⟨Fu.noConfusion, Fu.noConfusion⟩
  unfold CompressedDecoder.plainOpcodes at h
  cases o with
  | opImm => exact ⟨Fu.noConfusion, hne Fu.noConfusion⟩
  | lui => exact ⟨Fu.noConfusion, hne Fu.noConfusion⟩
  | op => exact ⟨hop.1, hne hop.2⟩
  | op32 => exact ⟨hop32.1, hne hop32.2⟩
  | opImm32 => exact ⟨Fu.noConfusion, hne Fu.noConfusion⟩
  | load => exact ⟨Fu.noConfusion, hne Fu.noConfusion⟩
  | loadFp => exact ⟨hfld.1, hne hfld.2⟩
  | store => exact ⟨Fu.noConfusion, hst _⟩
  | storeFp =>
    show (Decoder.decodeStoreFp x).fu ≠ .csr ∧ (Decoder.decodeStoreFp x).op.isAmo = false
    unfold Decoder.decodeStoreFp
    split
    · exact ⟨Fu.noConfusion, hfst _⟩
    · exact ⟨Fu.noConfusion, rfl⟩
  | jal => exact ⟨Fu.noConfusion, hne Fu.noConfusion⟩
  | jalr => exact ⟨Fu.noConfusion, hne Fu.noConfusion⟩
  | branch => exact ⟨Fu.noConfusion, hne Fu.noConfusion⟩
  | _ => simp at h

/-- A plain word is a CSR instruction only as an `EBREAK`, and never an AMO. -/
theorem plain_decode {x : Decoder.In} (hex : x.ex.valid = false)
    (hp : CompressedDecoder.Plain x.instruction) (hb : (Decoder.decode x).ebreak = false) :
    (Decoder.decode x).fu ≠ .csr ∧ (Decoder.decode x).op.isAmo = false := by
  rcases hp with hp | hp
  · obtain ⟨o, ho, hbits⟩ := List.mem_map.1 hp
    rw [Decoder.decode_of_opcode hex hbits.symm]
    exact fu_of_plain x ho
  · have hs : Decoder.decode x = Decoder.decodeSystem x :=
      Decoder.decode_of_opcode (o := .system) hex (by rw [hp]; decide)
    have h3 : Decoder.funct3 x.instruction = 0b000#3 := by rw [hp]; decide
    have h12 : Decoder.imm12 x.instruction = 1 := by rw [hp]; decide
    rw [hs] at hb
    simp [Decoder.decodeSystem, h3, Decoder.systemPriv, h12] at hb

/-- The entry is one this stage decoded. After decode the result, the valid bit and the
exception change, and an exception stays. -/
def Decoded (e : ScoreboardEntry) : Prop :=
  ∃ f, e.pc = (decodedInstruction f).pc ∧ e.fu = (decodedInstruction f).fu ∧
    e.op = (decodedInstruction f).op ∧ e.rd = (decodedInstruction f).rd ∧
    e.isCompressed = (decodedInstruction f).isCompressed ∧
    (e.valid = true → (decodedInstruction f).ex.valid = true → e.ex.valid = true)

theorem Decoded.runs {e : ScoreboardEntry} (h : Decoded e) : Decoder.runs e.fu e.op = true := by
  obtain ⟨f, -, hfu, hop, -⟩ := h
  rw [hfu, hop]
  exact Decoder.runs_decode (decoderIn f)

/-- A compressed instruction that may commit is no CSR instruction and no AMO. -/
theorem plain_of_compressed {e : ScoreboardEntry} (h : Decoded e) (hc : e.isCompressed = true)
    (hv : e.valid = true) (hex : e.ex.valid = false) : e.fu ≠ .csr ∧ e.op.isAmo = false := by
  obtain ⟨f, -, hfu, hop, -, hcomp, hkeep⟩ := h
  have hd : (Decoder.exO (decoderIn f)).valid = false := by
    rw [Bool.eq_false_iff]
    intro hd
    exact Bool.eq_false_iff.1 hex (hkeep hv hd)
  obtain ⟨hex, hill, -, -, hb⟩ := Decoder.legal_of_exO _ hd
  have hc' : CompressedDecoder.isCompressedO f.instruction = true := hcomp.symm.trans hc
  rw [hfu, hop]
  exact plain_decode hex (CompressedDecoder.plain_instrO hc' hill) hb

end IdStage
end Ariane

/-
# The language of the decoder

Which words the decoder accepts, against the instruction set. `Meets` says what the decoder
owes a word in a state: `ILLEGAL_INSTR` exactly if the word is no instruction legal in the
state, the operation of the instruction otherwise, and no privileged operation for a word
that is illegal. `meets_iff` says for which words it does so: for all but the ones in
`Deviates`, most of them `SYSTEM` words with `funct3` zero. There the check of `rs1` and
`rd` is overwritten for `DRET` and `SFENCE.VMA`, an unknown immediate falls through as an
addition, and an illegal return keeps its operation.
-/
import Ariane.Decode.Encoded

namespace Ariane
namespace Decoder

open Riscv Isa

/-! ### What the decoder owes a word -/

/-- Nothing but the instruction itself decides the exception: the fetch did not fault, the
word is no failed expansion, no interrupt and no debug request takes its place. -/
structure Undisturbed (x : In) : Prop where
  ex : x.ex.valid = false
  expanded : x.isIllegal = false
  irq : takesInterrupt x = false
  debug : (x.debugReq && !x.debugMode) = false
  priv : Implemented x.privLvl

/-- The operations that only privileged instructions have. -/
def privileged : FuOp → Bool
  | .mret | .sret | .dret | .wfi | .sfenceVma => true
  | _ => false

/-- The exception an instruction raises by itself. -/
def causeOf (s : State) : Instr → Option (BitVec 64)
  | .ecall =>
    some (if s.priv = privLvlM then envCallMmode else if s.priv = privLvlS then envCallSmode
      else envCallUmode)
  | .ebreak => some breakpoint
  | _ => none

variable (x : In)

/-- The cause of the exception, if there is one. -/
def raised : Option (BitVec 64) := if (exO x).valid then some (exO x).cause else none

structure Meets : Prop where
  illegal_iff : raised x = some illegalInstr ↔ ¬Legal x.state x.instruction
  entry : ∀ i, encode i = x.instruction → i.Legal x.state →
    (instructionO x).uop = i.uop ∧ raised x = causeOf x.state i
  unprivileged : ¬Legal x.state x.instruction → privileged (instructionO x).op = false

/-! ### The words it gets wrong -/

/-- The register fields that are zero in the privileged instructions. -/
def zeroRegs (w : BitVec 32) : Prop := rs1 w = 0 ∧ rd w = 0

/-- The `SYSTEM` words with `funct3` zero that are decoded wrongly. -/
def privDeviates (s : State) (w : BitVec 32) : Prop :=
  if imm12 w = 0x000 ∨ imm12 w = 0x001 then False
  else if imm12 w = 0x102 then s.supervisor s.tsr ∧ ¬zeroRegs w
  else if imm12 w = 0x302 then ¬(s.priv = privLvlM ∧ zeroRegs w)
  else if imm12 w = 0x7b2 then ¬(s.debugMode = true ∧ zeroRegs w)
  else if imm12 w = 0x105 then s.supervisor s.tw ∧ ¬zeroRegs w
  else if funct7 w = 0b0001001 then ¬(s.supervisor s.tvm ∧ rd w = 0)
  else zeroRegs w

/-- Conversions of a precision to itself. -/
def fcvtDeviates (s : State) (w : BitVec 32) : Prop :=
  funct5 w = 0b01000 ∧ (fmt w = 0b00 ∨ fmt w = 0b01) ∧ rs2 w = (fmt w).setWidth 5 ∧
    s.fpOn ∧ rmLegal (funct3 w) s.frm

/-- The words the decoder gets wrong. -/
def Deviates (s : State) (w : BitVec 32) : Prop :=
  (opcode w = Opcode.system.bits ∧ funct3 w = 0 ∧ privDeviates s w) ∨
    (opcode w = Opcode.opFp.bits ∧ fcvtDeviates s w)

/-! ### Exceptions -/

variable {x}

theorem exO_eq (h : Undisturbed x) : exO x = instrEx x := by
  simp [exO, h.ex, h.irq, h.debug]

/-- The exception of the instruction, by the flags of the decoder. -/
theorem raised_eq (h : Undisturbed x) : raised x =
    if (decode x).illegalInstr then some illegalInstr
    else if (decode x).ecall then causeOf x.state .ecall
    else if (decode x).ebreak then some breakpoint
    else none := by
  have hpriv : (if x.privLvl = privLvlM then envCallMmode
      else if x.privLvl = privLvlS then envCallSmode
      else if x.privLvl = privLvlU then envCallUmode else x.ex.cause) =
      if x.privLvl = privLvlM then envCallMmode
      else if x.privLvl = privLvlS then envCallSmode else envCallUmode := by
    rcases h.priv with hp | hp | hp <;> simp [hp, privLvlU, privLvlS, privLvlM]
  unfold raised
  rw [exO_eq h]
  unfold instrEx
  simp only [h.expanded, Bool.or_false, hpriv, h.ex]
  split_ifs <;> simp_all [causeOf, In.state]

theorem raised_illegal_iff (h : Undisturbed x) :
    raised x = some illegalInstr ↔ (decode x).illegalInstr = true := by
  have hcause : causeOf x.state .ecall ≠ some illegalInstr := by
    unfold causeOf
    simp only [ne_eq, Option.some.injEq]
    split_ifs <;> decide
  rw [raised_eq h]
  by_cases hi : (decode x).illegalInstr = true
  · simp [hi]
  · have hb : (some breakpoint : Option (BitVec 64)) ≠ some illegalInstr := by decide
    simp only [hi, Bool.false_eq_true, if_false, iff_false]
    split_ifs
    · exact hcause
    · exact hb
    · exact not_false

/-- A legal instruction raises its own exception only. -/
theorem raised_of_is (h : Undisturbed x) {i : Instr} (hi : (decode x).Is x.instruction i) :
    raised x = causeOf x.state i := by
  rw [raised_eq h, hi.legal, hi.ecall, hi.ebreak]
  cases i <;> simp [causeOf]

/-! ### Accepted words are instructions -/

section Accepted

variable {w : BitVec 32} {f7 op : BitVec 7} {r2 r1 d : BitVec 5} {f3 : BitVec 3} {imm : BitVec 12}

theorem iType_mk (hi : imm12 w = imm) (h1 : rs1 w = r1) (h3 : funct3 w = f3) (hd : rd w = d)
    (ho : opcode w = op) : iType imm r1 f3 d op = w := by
  subst hi h1 h3 hd ho
  exact iType_fields w

theorem rType_mk (h7 : funct7 w = f7) (h2 : rs2 w = r2) (h1 : rs1 w = r1) (h3 : funct3 w = f3)
    (hd : rd w = d) (ho : opcode w = op) : rType f7 r2 r1 f3 d op = w := by
  subst h7 h2 h1 h3 hd ho
  exact rType_fields w

theorem sType_mk (h3 : funct3 w = f3) (ho : opcode w = op) :
    sType (funct7 w ++ rd w) (rs2 w) (rs1 w) f3 op = w := by
  subst h3 ho
  exact sType_fields w

/-- `funct7` of a word with a format. -/
theorem funct7_eq (w : BitVec 32) : funct7 w = funct5 w ++ fmt w := by
  have h : (25 + 2 : ℕ) = 27 := rfl
  exact (BitVec.extractLsb'_append_extractLsb'_eq_extractLsb' h.symm).symm

theorem imm12_fence (w : BitVec 32) :
    imm12 w = w.extractLsb' 28 4 ++ w.extractLsb' 24 4 ++ w.extractLsb' 20 4 := by
  have h1 : (24 + 4 : ℕ) = 28 := rfl
  have h2 : (20 + 4 : ℕ) = 24 := rfl
  rw [BitVec.extractLsb'_append_extractLsb'_eq_extractLsb' h1.symm]
  exact (BitVec.extractLsb'_append_extractLsb'_eq_extractLsb' h2.symm).symm

theorem imm12_shift (w : BitVec 32) : imm12 w = w.extractLsb' 26 6 ++ w.extractLsb' 20 6 := by
  have h : (20 + 6 : ℕ) = 26 := rfl
  exact (BitVec.extractLsb'_append_extractLsb'_eq_extractLsb' h.symm).symm

end Accepted

theorem loadTable_some {f : BitVec 3} (h : (loadTable f).isNone = false) : ∃ k : LoadOp, f = k.funct3 := by
  unfold loadTable at h
  split at h
  · exact ⟨.lb, rfl⟩
  · exact ⟨.lh, rfl⟩
  · exact ⟨.lw, rfl⟩
  · exact ⟨.lbu, rfl⟩
  · exact ⟨.lhu, rfl⟩
  · exact ⟨.lwu, rfl⟩
  · exact ⟨.ld, rfl⟩
  · cases h

theorem storeTable_some {f : BitVec 3} (h : (storeTable f).isNone = false) :
    ∃ k : StoreOp, f = k.funct3 := by
  unfold storeTable at h
  split at h
  · exact ⟨.sb, rfl⟩
  · exact ⟨.sh, rfl⟩
  · exact ⟨.sw, rfl⟩
  · exact ⟨.sd, rfl⟩
  · cases h

theorem branchTable_some {f : BitVec 3} (h : (branchTable f).isNone = false) :
    ∃ c : Cond, f = c.funct3 := by
  unfold branchTable at h
  split at h
  · exact ⟨.eq, rfl⟩
  · exact ⟨.ne, rfl⟩
  · exact ⟨.lt, rfl⟩
  · exact ⟨.ge, rfl⟩
  · exact ⟨.ltu, rfl⟩
  · exact ⟨.geu, rfl⟩
  · cases h

theorem opTable_some {f7 : BitVec 7} {f3 : BitVec 3} (h : (opTable f7 f3).isNone = false) :
    ∃ k : RegOp, f7 = k.funct7 ∧ f3 = k.funct3 := by
  unfold opTable at h
  split at h
  · exact ⟨.add, rfl, rfl⟩
  · exact ⟨.sub, rfl, rfl⟩
  · exact ⟨.slt, rfl, rfl⟩
  · exact ⟨.sltu, rfl, rfl⟩
  · exact ⟨.xor, rfl, rfl⟩
  · exact ⟨.or, rfl, rfl⟩
  · exact ⟨.and, rfl, rfl⟩
  · exact ⟨.sll, rfl, rfl⟩
  · exact ⟨.srl, rfl, rfl⟩
  · exact ⟨.sra, rfl, rfl⟩
  · exact ⟨.mul, rfl, rfl⟩
  · exact ⟨.mulh, rfl, rfl⟩
  · exact ⟨.mulhsu, rfl, rfl⟩
  · exact ⟨.mulhu, rfl, rfl⟩
  · exact ⟨.div, rfl, rfl⟩
  · exact ⟨.divu, rfl, rfl⟩
  · exact ⟨.rem, rfl, rfl⟩
  · exact ⟨.remu, rfl, rfl⟩
  · cases h

theorem op32Table_some {f7 : BitVec 7} {f3 : BitVec 3} (h : (op32Table f7 f3).isNone = false) :
    ∃ k : RegOpW, f7 = k.funct7 ∧ f3 = k.funct3 := by
  unfold op32Table at h
  split at h
  · exact ⟨.addw, rfl, rfl⟩
  · exact ⟨.subw, rfl, rfl⟩
  · exact ⟨.sllw, rfl, rfl⟩
  · exact ⟨.srlw, rfl, rfl⟩
  · exact ⟨.sraw, rfl, rfl⟩
  · exact ⟨.mulw, rfl, rfl⟩
  · exact ⟨.divw, rfl, rfl⟩
  · exact ⟨.divuw, rfl, rfl⟩
  · exact ⟨.remw, rfl, rfl⟩
  · exact ⟨.remuw, rfl, rfl⟩
  · cases h

theorem legal_load (ho : opcode x.instruction = Opcode.load.bits)
    (h : (decodeLoad x).illegalInstr = false) : Legal x.state x.instruction := by
  obtain ⟨k, hk⟩ := loadTable_some h
  exact ⟨.load k _ _ _, iType_mk rfl rfl hk rfl ho, trivial⟩

theorem legal_store (ho : opcode x.instruction = Opcode.store.bits)
    (h : (decodeStore x).illegalInstr = false) : Legal x.state x.instruction := by
  obtain ⟨k, hk⟩ := storeTable_some h
  exact ⟨.store k _ _ _, sType_mk hk ho, trivial⟩

theorem legal_branch (ho : opcode x.instruction = Opcode.branch.bits)
    (h : (decodeBranch x).illegalInstr = false) : Legal x.state x.instruction := by
  obtain ⟨c, hc⟩ := branchTable_some h
  refine ⟨.branch c (rs1 x.instruction) (rs2 x.instruction) (bImm12 x.instruction), ?_, trivial⟩
  have hw := bType_fields x.instruction
  rwa [hc, ho] at hw

theorem legal_op (ho : opcode x.instruction = Opcode.op.bits)
    (h : (decodeOp x).illegalInstr = false) : Legal x.state x.instruction := by
  unfold decodeOp at h
  split at h
  · cases h
  · obtain ⟨k, h7, h3⟩ := opTable_some h
    exact ⟨.op k _ _ _, rType_mk h7 rfl rfl h3 rfl ho, trivial⟩

theorem legal_op32 (ho : opcode x.instruction = Opcode.op32.bits)
    (h : (decodeOp32 x).illegalInstr = false) : Legal x.state x.instruction := by
  obtain ⟨k, h7, h3⟩ := op32Table_some h
  exact ⟨.opW k _ _ _, rType_mk h7 rfl rfl h3 rfl ho, trivial⟩

theorem legal_jumps (o : Opcode) (ho : opcode x.instruction = o.bits) :
    (o = .jal ∨ o = .auipc ∨ o = .lui → Legal x.state x.instruction) ∧
    (o = .jalr → (decodeJalr x).illegalInstr = false → Legal x.state x.instruction) := by
  constructor
  · rintro (rfl | rfl | rfl)
    · refine ⟨.jal (rd x.instruction) (jImm20 x.instruction), ?_, trivial⟩
      have hw := jType_fields x.instruction
      rwa [ho] at hw
    · refine ⟨.auipc (rd x.instruction) (uImm20 x.instruction), ?_, trivial⟩
      have hw := uType_fields x.instruction
      rwa [ho] at hw
    · refine ⟨.lui (rd x.instruction) (uImm20 x.instruction), ?_, trivial⟩
      have hw := uType_fields x.instruction
      rwa [ho] at hw
  · rintro rfl h
    have h3 : funct3 x.instruction = 0 := by simpa [decodeJalr] using h
    exact ⟨.jalr _ _ _, iType_mk rfl rfl h3 rfl ho, trivial⟩

theorem legal_opImm (ho : opcode x.instruction = Opcode.opImm.bits)
    (h : (decodeOpImm x).illegalInstr = false) : Legal x.state x.instruction := by
  have hop (k : ImmOp) (h3 : funct3 x.instruction = k.funct3) : Legal x.state x.instruction :=
    ⟨.opImm k _ _ _, iType_mk rfl rfl h3 rfl ho, trivial⟩
  have hsh (k : ShiftOp) (h3 : funct3 x.instruction = k.funct3)
      (h6 : x.instruction.extractLsb' 26 6 = k.funct6) : Legal x.state x.instruction :=
    ⟨.shiftImm k _ _ _, iType_mk (h6 ▸ imm12_shift _) rfl h3 rfl ho, trivial⟩
  have hb : (opImmTable x.instruction).isNone = false ∧
      ¬(funct3 x.instruction = 0b001#3 ∧ x.instruction.extractLsb' 26 6 ≠ 0#6) := by
    simpa [decodeOpImm, Decoded.table, defaults] using h
  obtain ⟨ht, hn⟩ := hb
  unfold opImmTable at ht
  split at ht
  next h3 => exact hop .addi h3
  next h3 => exact hop .slti h3
  next h3 => exact hop .sltiu h3
  next h3 => exact hop .xori h3
  next h3 => exact hop .ori h3
  next h3 => exact hop .andi h3
  next h3 => exact hsh .sll h3 (not_not.1 fun h6 => hn ⟨h3, h6⟩)
  next h0 h2 h3 h4 h6 h7 h1 =>
    have h5 : funct3 x.instruction = 0b101 := by
      revert h0 h2 h3 h4 h6 h7 h1
      generalize funct3 x.instruction = f
      revert f
      decide
    split at ht
    next hs => exact hsh .srl h5 hs
    next hs =>
      split at ht
      next hs => exact hsh .sra h5 hs
      next => cases ht

theorem legal_opImm32 (ho : opcode x.instruction = Opcode.opImm32.bits)
    (h : (decodeOpImm32 x).illegalInstr = false) : Legal x.state x.instruction := by
  have hsh (k : ShiftOp) (h3 : funct3 x.instruction = k.funct3)
      (h7 : funct7 x.instruction = k.funct6 ++ 0#1) : Legal x.state x.instruction :=
    ⟨.shiftImmW k _ _ _, rType_mk h7 rfl rfl h3 rfl ho, trivial⟩
  have hb : (opImm32Table x.instruction).isNone = false ∧
      ¬(funct3 x.instruction = 0b001#3 ∧ funct7 x.instruction ≠ 0#7) := by
    simpa [decodeOpImm32, Decoded.table, defaults] using h
  obtain ⟨ht, hn⟩ := hb
  unfold opImm32Table at ht
  split at ht
  next h3 => exact ⟨.addiw _ _ _, iType_mk rfl rfl h3 rfl ho, trivial⟩
  next h3 => exact hsh .sll h3 (not_not.1 fun h7 => hn ⟨h3, h7⟩)
  next h3 =>
    split at ht
    next h7 => exact hsh .srl h3 h7
    next =>
      split at ht
      next h7 => exact hsh .sra h3 h7
      next => cases ht
  next => cases ht

theorem legal_miscMem (ho : opcode x.instruction = Opcode.miscMem.bits)
    (h : (decodeMiscMem x).illegalInstr = false) : Legal x.state x.instruction := by
  unfold decodeMiscMem at h
  dsimp only at h
  simp only [Bool.or_eq_false_iff, bne_eq_false_iff_eq] at h
  obtain ⟨⟨⟨hl, h1⟩, hd⟩, h4⟩ := h
  split at hl
  next h3 =>
    have hi : imm12 x.instruction =
        0#4 ++ x.instruction.extractLsb' 24 4 ++ x.instruction.extractLsb' 20 4 := by
      have he := imm12_fence x.instruction
      rwa [h4] at he
    exact ⟨.fence _ _, iType_mk hi h1 h3 hd ho, trivial⟩
  next h3 =>
    have hi : imm12 x.instruction = 0 := by simpa using hl
    exact ⟨.fenceI, iType_mk hi h1 h3 hd ho, trivial⟩
  next => cases hl

theorem amoTable_some {f : BitVec 5} (n : AmoWidth)
    (h : (match n with
      | .w => amoWTable f
      | .d => amoDTable f).isNone = false) : f = 0x02 ∨ ∃ k : AmoOp, f = k.funct5 := by
  have hall : ∀ f : BitVec 5, (amoWTable f).isNone = (amoDTable f).isNone := by decide
  have hw : (amoWTable f).isNone = false := by
    cases n with
    | w => exact h
    | d => exact (hall f).trans h
  unfold amoWTable at hw
  split at hw
  · exact .inr ⟨.add, rfl⟩
  · exact .inr ⟨.swap, rfl⟩
  · exact .inl rfl
  · exact .inr ⟨.sc, rfl⟩
  · exact .inr ⟨.xor, rfl⟩
  · exact .inr ⟨.or, rfl⟩
  · exact .inr ⟨.and, rfl⟩
  · exact .inr ⟨.min, rfl⟩
  · exact .inr ⟨.max, rfl⟩
  · exact .inr ⟨.minu, rfl⟩
  · exact .inr ⟨.maxu, rfl⟩
  · cases hw

theorem legal_amo (ho : opcode x.instruction = Opcode.amo.bits)
    (h : (decodeAmo x).illegalInstr = false) : Legal x.state x.instruction := by
  have hmk (n : AmoWidth) (h3 : funct3 x.instruction = n.funct3)
      (ht : (match n with
        | .w => amoWTable (funct5 x.instruction)
        | .d => amoDTable (funct5 x.instruction)).isNone = false)
      (hlr : funct5 x.instruction = 0x02 → rs2 x.instruction = 0) : Legal x.state x.instruction := by
    have h7 := funct7_eq x.instruction
    rcases amoTable_some n ht with h5 | ⟨k, h5⟩
    · rw [h5] at h7
      exact ⟨.lr n (fmt x.instruction) _ _, rType_mk h7 (hlr h5) rfl h3 rfl ho, trivial⟩
    · rw [h5] at h7
      exact ⟨.amo k n (fmt x.instruction) _ _ _, rType_mk h7 rfl rfl h3 rfl ho, trivial⟩
  unfold decodeAmo at h
  dsimp only at h
  rw [Bool.or_eq_false_iff] at h
  obtain ⟨ht, hlr⟩ := h
  have hlr' (h3 : funct3 x.instruction = 0b010 ∨ funct3 x.instruction = 0b011)
      (h5 : funct5 x.instruction = 0x02) : rs2 x.instruction = 0 := by
    rcases h3 with h3 | h3 <;> simpa [rva, h3, h5] using hlr
  split_ifs at ht with hw hd
  · exact hmk .w hw.2 ht (hlr' (.inl hw.2))
  · exact hmk .d hd.2 ht (hlr' (.inr hd.2))

theorem legal_loadFp (ho : opcode x.instruction = Opcode.loadFp.bits)
    (h : (decodeLoadFp x).illegalInstr = false) : Legal x.state x.instruction := by
  have ht : ∀ f : BitVec 3, (loadFpTable f).isNone = false → f = Prec.funct3 .s ∨ f = Prec.funct3 .d := by
    decide
  unfold decodeLoadFp at h
  split at h
  next hon =>
    rcases ht _ h with h3 | h3
    · exact ⟨.fload .s _ _ _, iType_mk rfl rfl h3 rfl ho, fpEnabled_iff.1 hon⟩
    · exact ⟨.fload .d _ _ _, iType_mk rfl rfl h3 rfl ho, fpEnabled_iff.1 hon⟩
  next => cases h

theorem legal_storeFp (ho : opcode x.instruction = Opcode.storeFp.bits)
    (h : (decodeStoreFp x).illegalInstr = false) : Legal x.state x.instruction := by
  have ht : ∀ f : BitVec 3, (storeFpTable f).isNone = false → f = Prec.funct3 .s ∨ f = Prec.funct3 .d := by
    decide
  unfold decodeStoreFp at h
  split at h
  next hon =>
    rcases ht _ h with h3 | h3
    · exact ⟨.fstore .s _ _ _, sType_mk h3 ho, fpEnabled_iff.1 hon⟩
    · exact ⟨.fstore .d _ _ _, sType_mk h3 ho, fpEnabled_iff.1 hon⟩
  next => cases h

/-- What the last checks of a floating-point operation say of its word. -/
theorem of_fpChecks {c : Bool} {d : Decoded} (h : (fpChecks x c d).illegalInstr = false) :
    d.illegalInstr = false ∧ ∃ p : Prec, fmt x.instruction = p.fmt ∧
      (c = true → rmLegal (funct3 x.instruction) x.frm) := by
  have hfmt : ∀ f : BitVec 2, fmtIllegal f = false → f = Prec.fmt .s ∨ f = Prec.fmt .d := by decide
  unfold fpChecks at h
  simp only [Bool.or_eq_false_iff] at h
  obtain ⟨⟨hd, hf⟩, hr⟩ := h
  have hp : ∃ p : Prec, fmt x.instruction = p.fmt := by
    rcases hfmt _ hf with he | he
    · exact ⟨.s, he⟩
    · exact ⟨.d, he⟩
  obtain ⟨p, hp⟩ := hp
  refine ⟨hd, p, hp, ?_⟩
  rintro rfl
  rw [hp, Bool.true_and] at hr
  exact (rmIllegal_iff _ _ p).1 hr

theorem legal_fused {k : FusedOp} (ho : opcode x.instruction = k.opcode)
    (h : (decodeFused x k.fuOp).illegalInstr = false) : Legal x.state x.instruction := by
  unfold decodeFused at h
  split at h
  next hon =>
    obtain ⟨-, p, hp, hrm⟩ := of_fpChecks h
    have h7 := funct7_eq x.instruction
    rw [hp] at h7
    exact ⟨.fused k p _ _ _ (funct5 x.instruction) _, rType_mk h7 rfl rfl rfl rfl ho,
      fpEnabled_iff.1 hon, hrm rfl⟩
  next => cases h

theorem fpType_mk {f5 : BitVec 5} {p : Prec} {r2 : BitVec 5} {rm : BitVec 3}
    (ho : opcode x.instruction = Opcode.opFp.bits) (h5 : funct5 x.instruction = f5)
    (hp : fmt x.instruction = p.fmt) (h2 : rs2 x.instruction = r2) (h3 : funct3 x.instruction = rm) :
    fpType f5 p r2 (rs1 x.instruction) rm (rd x.instruction) = x.instruction := by
  have h7 := funct7_eq x.instruction
  rw [h5, hp] at h7
  exact rType_mk h7 h2 rfl h3 rfl ho

/-- The second register of a conversion from or to an integer names its format. -/
theorem intFmt_some (h : x.instruction.extractLsb' 22 3 = 0) :
    ∃ n : IntFmt, rs2 x.instruction = n.rs2 := by
  have hall : ∀ r : BitVec 5, r.extractLsb' 2 3 = 0 → r = IntFmt.rs2 .w ∨ r = IntFmt.rs2 .wu ∨
      r = IntFmt.rs2 .l ∨ r = IntFmt.rs2 .lu := by decide
  have he : (rs2 x.instruction).extractLsb' 2 3 = x.instruction.extractLsb' 22 3 :=
    Lib.extractLsb'_extractLsb' _ (by decide)
  rcases hall _ (he.trans h) with hr | hr | hr | hr
  · exact ⟨.w, hr⟩
  · exact ⟨.wu, hr⟩
  · exact ⟨.l, hr⟩
  · exact ⟨.lu, hr⟩

/-- The source of a conversion between precisions is the single or the double precision. -/
theorem srcFmt_some (hhi : x.instruction.extractLsb' 23 2 = 0)
    (hlo : srcFmtIllegal (x.instruction.extractLsb' 20 3) = false) :
    ∃ p : Prec, rs2 x.instruction = p.fmt.setWidth 5 := by
  have hall : ∀ r : BitVec 5, r.extractLsb' 3 2 = 0 → srcFmtIllegal (r.extractLsb' 0 3) = false →
      r = (Prec.fmt .s).setWidth 5 ∨ r = (Prec.fmt .d).setWidth 5 := by decide
  have he : (rs2 x.instruction).extractLsb' 3 2 = x.instruction.extractLsb' 23 2 :=
    Lib.extractLsb'_extractLsb' _ (by decide)
  have hl : (rs2 x.instruction).extractLsb' 0 3 = x.instruction.extractLsb' 20 3 :=
    Lib.extractLsb'_extractLsb' _ (by decide)
  rcases hall _ (he.trans hhi) (hl ▸ hlo) with hr | hr
  · exact ⟨.s, hr⟩
  · exact ⟨.d, hr⟩

theorem rmInside_two {rm : BitVec 3} (h : rmInside rm 0b010 = true) :
    rm = 0b000 ∨ rm = 0b001 ∨ rm = 0b010 := by
  revert rm
  decide

theorem legal_opFp (ho : opcode x.instruction = Opcode.opFp.bits)
    (h : (decodeOpFp x).illegalInstr = false) (hdev : ¬fcvtDeviates x.state x.instruction) :
    Legal x.state x.instruction := by
  unfold decodeOpFp at h
  split at h
  next hon =>
    obtain ⟨hc, p, hp, hrm⟩ := of_fpChecks h
    have hfp : x.state.fpOn := fpEnabled_iff.1 hon
    have hmk {f5 : BitVec 5} {r2 : BitVec 5} {rm : BitVec 3} (h5 : funct5 x.instruction = f5)
        (h2 : rs2 x.instruction = r2) (h3 : funct3 x.instruction = rm) :=
      fpType_mk ho h5 hp h2 h3
    unfold opFpCase at hc hrm
    dsimp only at hc hrm
    split at hc
    next h5 =>
      simp only [h5] at hrm
      exact ⟨.fpOp .add p _ _ _ _, hmk h5 rfl rfl, hfp, hrm trivial⟩
    next h5 =>
      simp only [h5] at hrm
      exact ⟨.fpOp .sub p _ _ _ _, hmk h5 rfl rfl, hfp, hrm trivial⟩
    next h5 =>
      simp only [h5] at hrm
      exact ⟨.fpOp .mul p _ _ _ _, hmk h5 rfl rfl, hfp, hrm trivial⟩
    next h5 =>
      simp only [h5] at hrm
      exact ⟨.fpOp .div p _ _ _ _, hmk h5 rfl rfl, hfp, hrm trivial⟩
    next h5 =>
      simp only [h5] at hrm
      have h2 : rs2 x.instruction = 0 := by simpa using hc
      exact ⟨.fsqrt p _ _ _, hmk h5 h2 rfl, hfp, hrm trivial⟩
    next h5 =>
      have hi : rmInside (funct3 x.instruction) 0b010 = true := by simpa using hc
      rcases rmInside_two hi with h3 | h3 | h3
      · exact ⟨.fsgnj .sgnj p _ _ _, hmk h5 rfl h3, hfp⟩
      · exact ⟨.fsgnj .sgnjn p _ _ _, hmk h5 rfl h3, hfp⟩
      · exact ⟨.fsgnj .sgnjx p _ _ _, hmk h5 rfl h3, hfp⟩
    next h5 =>
      have hi : ∀ rm : BitVec 3, rmInside rm 0b001 = true → rm = 0b000 ∨ rm = 0b001 := by decide
      rcases hi _ (by simpa using hc) with h3 | h3
      · exact ⟨.fminMax .min p _ _ _, hmk h5 rfl h3, hfp⟩
      · exact ⟨.fminMax .max p _ _ _, hmk h5 rfl h3, hfp⟩
    next h5 =>
      simp only [h5] at hrm
      rw [Bool.or_eq_false_iff, bne_eq_false_iff_eq] at hc
      obtain ⟨q, hq⟩ := srcFmt_some hc.1 hc.2
      by_cases he : q = p.other
      · exact ⟨.fcvtPrec p _ _ _, hmk h5 (he ▸ hq) rfl, hfp, hrm trivial⟩
      · have hqp : q = p := by revert he; cases p <;> cases q <;> simp [Prec.other]
        rw [hqp, ← hp] at hq
        have hfmt : fmt x.instruction = 0b00 ∨ fmt x.instruction = 0b01 := by
          rw [hp]
          cases p
          · exact .inl rfl
          · exact .inr rfl
        exact absurd ⟨h5, hfmt, hq, hfp, hrm trivial⟩ hdev
    next h5 =>
      have hi : rmInside (funct3 x.instruction) 0b010 = true := by simpa using hc
      rcases rmInside_two hi with h3 | h3 | h3
      · exact ⟨.fcmp .le p _ _ _, hmk h5 rfl h3, hfp⟩
      · exact ⟨.fcmp .lt p _ _ _, hmk h5 rfl h3, hfp⟩
      · exact ⟨.fcmp .eq p _ _ _, hmk h5 rfl h3, hfp⟩
    next h5 =>
      simp only [h5] at hrm
      obtain ⟨n, h2⟩ := intFmt_some (by simpa using hc)
      exact ⟨.fcvtToInt n p _ _ _, hmk h5 h2 rfl, hfp, hrm trivial⟩
    next h5 =>
      simp only [h5] at hrm
      obtain ⟨n, h2⟩ := intFmt_some (by simpa using hc)
      exact ⟨.fcvtOfInt n p _ _ _, hmk h5 h2 rfl, hfp, hrm trivial⟩
    next h5 =>
      rw [Bool.or_eq_false_iff, bne_eq_false_iff_eq] at hc
      obtain ⟨hc, h2⟩ := hc
      split_ifs at hc with hmv hcl
      · have h3 : funct3 x.instruction = 0b000 := by simpa [xf16Alt] using hmv
        exact ⟨.fmvToInt p _ _, hmk h5 h2 h3, hfp⟩
      · have h3 : funct3 x.instruction = 0b001 := by simpa [xf16Alt] using hcl
        exact ⟨.fclass p _ _, hmk h5 h2 h3, hfp⟩
    next h5 =>
      have hb : funct3 x.instruction = 0b000 ∧ rs2 x.instruction = 0 := by simpa [xf16Alt] using hc
      exact ⟨.fmvOfInt p _ _, hmk h5 hb.2 hb.1, hfp⟩
    next => cases hc
  next => cases h

/-! ### System instructions -/

theorem zeroRegs_iff (w : BitVec 32) : (rs1 w != 0 || rd w != 0) = false ↔ zeroRegs w := by
  rw [Bool.or_eq_false_iff, bne_eq_false_iff_eq, bne_eq_false_iff_eq]
  rfl

theorem legal_systemPriv (ho : opcode x.instruction = Opcode.system.bits) (h3 : funct3 x.instruction = 0)
    {d : Decoded} (h : (systemPriv x d).illegalInstr = false) (hdev : ¬privDeviates x.state x.instruction) :
    Legal x.state x.instruction := by
  have hmk {imm : BitVec 12} (hi : imm12 x.instruction = imm) (hz : zeroRegs x.instruction) :
      privType imm = x.instruction := iType_mk hi hz.1 h3 hz.2 ho
  unfold systemPriv at h
  unfold privDeviates at hdev
  dsimp only at h
  by_cases h0 : imm12 x.instruction = 0x000
  · rw [if_pos h0] at h
    exact ⟨.ecall, hmk h0 ((zeroRegs_iff _).1 h), trivial⟩
  by_cases h1 : imm12 x.instruction = 0x001
  · rw [if_neg h0, if_pos h1] at h
    exact ⟨.ebreak, hmk h1 ((zeroRegs_iff _).1 h), trivial⟩
  rw [if_neg h0, if_neg h1] at h
  rw [if_neg (not_or.2 ⟨h0, h1⟩)] at hdev
  by_cases hs : imm12 x.instruction = 0x102
  · rw [if_pos hs] at h
    split at h
    · cases h
    next hp => exact ⟨.sret, hmk hs ((zeroRegs_iff _).1 h), not_or.1 hp⟩
  rw [if_neg hs] at h hdev
  by_cases hm : imm12 x.instruction = 0x302
  · rw [if_pos hm, not_not] at hdev
    exact ⟨.mret, hmk hm hdev.2, hdev.1⟩
  rw [if_neg hm] at h hdev
  by_cases hd : imm12 x.instruction = 0x7b2
  · rw [if_pos hd, not_not] at hdev
    exact ⟨.dret, hmk hd hdev.2, hdev.1⟩
  rw [if_neg hd] at h hdev
  by_cases hw : imm12 x.instruction = 0x105
  · rw [if_pos hw] at h
    split at h
    · cases h
    next hp => exact ⟨.wfi, hmk hw ((zeroRegs_iff _).1 h), (not_or.1 hp).symm⟩
  rw [if_neg hw] at h hdev
  by_cases hf : funct7 x.instruction = 0b0001001
  · rw [if_pos hf, not_not] at hdev
    exact ⟨.sfenceVma _ _, rType_mk hf rfl rfl h3 hdev.2 ho, hdev.1⟩
  rw [if_neg hf] at h hdev
  exact absurd ((zeroRegs_iff _).1 h) hdev

theorem legal_system (ho : opcode x.instruction = Opcode.system.bits)
    (h : (decodeSystem x).illegalInstr = false)
    (hdev : ¬(funct3 x.instruction = 0 ∧ privDeviates x.state x.instruction)) :
    Legal x.state x.instruction := by
  have hcsr (k : CsrOp) (h3 : funct3 x.instruction = k.funct3) : Legal x.state x.instruction :=
    ⟨.csr k _ _ _, iType_mk rfl rfl h3 rfl ho, trivial⟩
  have himm (k : CsrOp) (h3 : funct3 x.instruction = k.funct3Imm) : Legal x.state x.instruction :=
    ⟨.csrImm k _ _ _, iType_mk rfl rfl h3 rfl ho, trivial⟩
  unfold decodeSystem at h
  dsimp only at h
  split at h
  next h3 => exact legal_systemPriv ho h3 h fun hp => hdev ⟨h3, hp⟩
  next h3 => exact hcsr .rw h3
  next h3 => exact hcsr .rs h3
  next h3 => exact hcsr .rc h3
  next h3 => exact himm .rw h3
  next h3 => exact himm .rs h3
  next h3 => exact himm .rc h3
  next => cases h

/-! ### The decoder accepts instructions only -/

theorem bits_of_ofBits {b : BitVec 7} {o : Opcode} (h : Opcode.ofBits b = some o) : b = o.bits := by
  unfold Opcode.ofBits at h
  split at h <;> cases h <;> rfl

theorem legal_of_accepts (h : Undisturbed x) (hl : (decode x).illegalInstr = false)
    (hdev : ¬Deviates x.state x.instruction) : Legal x.state x.instruction := by
  unfold decode at hl
  rw [h.ex, if_neg Bool.false_ne_true] at hl
  split at hl
  next o hof =>
    have ho : opcode x.instruction = o.bits := bits_of_ofBits hof
    cases o with
    | system => exact legal_system ho hl fun hp => hdev (.inl ⟨ho, hp.1, hp.2⟩)
    | opFp => exact legal_opFp ho hl fun hp => hdev (.inr ⟨ho, hp⟩)
    | load => exact legal_load ho hl
    | store => exact legal_store ho hl
    | branch => exact legal_branch ho hl
    | op => exact legal_op ho hl
    | op32 => exact legal_op32 ho hl
    | opImm => exact legal_opImm ho hl
    | opImm32 => exact legal_opImm32 ho hl
    | miscMem => exact legal_miscMem ho hl
    | amo => exact legal_amo ho hl
    | loadFp => exact legal_loadFp ho hl
    | storeFp => exact legal_storeFp ho hl
    | madd => exact legal_fused (k := .madd) ho hl
    | msub => exact legal_fused (k := .msub) ho hl
    | nmsub => exact legal_fused (k := .nmsub) ho hl
    | nmadd => exact legal_fused (k := .nmadd) ho hl
    | jalr => exact (legal_jumps _ ho).2 rfl hl
    | jal => exact (legal_jumps _ ho).1 (.inl rfl)
    | auipc => exact (legal_jumps _ ho).1 (.inr (.inl rfl))
    | lui => exact (legal_jumps _ ho).1 (.inr (.inr rfl))
  next => cases hl

/-! ### Illegal words and privileged operations -/

theorem csr_of_privileged {fu : Fu} {op : FuOp} (hr : runs fu op = true) (h : privileged op = true) :
    fu = .csr := by
  cases op <;> first | (cases h; done) | (cases fu <;> first | rfl | cases hr)

/-- Only system instructions and fences go to the CSR unit. -/
theorem opcode_of_csr {o : Opcode} (h : (decodeOpcode x o).fu = .csr) : o = .system ∨ o = .miscMem := by
  have hoff {d : Decoded} {p : Prop} [Decidable p] (hd : d.fu ≠ .csr) :
      (if p then d else { defaults with illegalInstr := true }).fu ≠ .csr := by
    split
    · exact hd
    · exact Fu.noConfusion
  have hreg (t : BitVec 7 → BitVec 3 → Option FuOp) : (regReg x t).fu ≠ .csr := by
    intro hc
    have hcomp := computes_regReg x t
    rw [hc] at hcomp
    cases hcomp
  cases o with
  | system => exact .inl rfl
  | miscMem => exact .inr rfl
  | op =>
    refine absurd h ?_
    show (decodeOp x).fu ≠ .csr
    unfold decodeOp
    split
    · exact Fu.noConfusion
    · exact hreg opTable
  | op32 => exact absurd h (hreg op32Table)
  | storeFp => exact absurd h (hoff Fu.noConfusion)
  | loadFp => exact absurd h (hoff Fu.noConfusion)
  | madd | msub | nmsub | nmadd => exact absurd h (hoff Fu.noConfusion)
  | opFp =>
    refine absurd h ?_
    show (decodeOpFp x).fu ≠ .csr
    unfold decodeOpFp
    refine hoff ?_
    have hfu := (runs_opFp x (fpDefaults x) rfl).2
    show (opFpCase x (fpDefaults x)).1.fu ≠ .csr
    rw [hfu]
    exact Fu.noConfusion
  | amo =>
    refine absurd h ?_
    show (decodeAmo x).fu ≠ .csr
    unfold decodeAmo
    dsimp only
    split_ifs <;> exact Fu.noConfusion
  | _ => cases h

/-- A privileged operation comes from a privileged instruction. -/
theorem systemPriv_of_privileged (h : Undisturbed x) (hp : privileged (decode x).op = true) :
    opcode x.instruction = Opcode.system.bits ∧ funct3 x.instruction = 0 ∧
      decode x = systemPriv x { defaults with fu := .csr, rs1 := x.rs1, rd := x.rd } := by
  have hfu := csr_of_privileged (runs_decode x) hp
  unfold decode at hp hfu ⊢
  rw [h.ex, if_neg Bool.false_ne_true] at hp hfu ⊢
  split at hp
  next o hof =>
    rw [hof] at hfu
    rcases opcode_of_csr hfu with rfl | rfl
    · refine ⟨bits_of_ofBits hof, ?_⟩
      have hset (w : BitVec 32) (op : FuOp) (hop : privileged op = false) :
          privileged (csrSetOrRead w op) = false := by
        unfold csrSetOrRead
        split
        · rfl
        · exact hop
      simp only [decodeOpcode] at hp ⊢
      unfold decodeSystem at hp ⊢
      dsimp only at hp ⊢
      split at hp
      next h3 =>
        rw [h3]
        exact ⟨rfl, rfl⟩
      all_goals first | cases hp | exact absurd hp (Bool.eq_false_iff.1 (hset _ _ rfl))
    · simp only [decodeOpcode] at hp
      unfold decodeMiscMem at hp
      dsimp only at hp
      split at hp <;> cases hp
  next => cases hp

/-- The words that deviate are those that are illegal and keep a privileged operation, and
others that are accepted. -/
theorem systemPriv_deviates (himp : Implemented x.privLvl) {d : Decoded} (hd : d.op = .add) :
    ((systemPriv x d).illegalInstr = true → privileged (systemPriv x d).op = true →
      privDeviates x.state x.instruction) ∧
    (privDeviates x.state x.instruction →
      (systemPriv x d).illegalInstr = false ∨ privileged (systemPriv x d).op = true) := by
  have hz : (rs1 x.instruction != 0 || rd x.instruction != 0) = true → ¬zeroRegs x.instruction := by
    intro h hz
    rw [(zeroRegs_iff _).2 hz] at h
    cases h
  have hadd : privileged d.op = true → False := by
    rw [hd]
    exact Bool.false_ne_true
  unfold systemPriv privDeviates
  dsimp only
  by_cases h0 : imm12 x.instruction = 0x000
  · rw [if_pos h0, if_pos (.inl h0)]
    exact ⟨fun _ hp => hadd hp, False.elim⟩
  by_cases h1 : imm12 x.instruction = 0x001
  · rw [if_neg h0, if_pos h1, if_pos (.inr h1)]
    exact ⟨fun _ hp => hadd hp, False.elim⟩
  rw [if_neg h0, if_neg h1, if_neg (not_or.2 ⟨h0, h1⟩)]
  by_cases hs : imm12 x.instruction = 0x102
  · rw [if_pos hs, if_pos hs]
    split
    next ht => exact ⟨fun _ hp => absurd hp Bool.false_ne_true, fun hs => absurd ht (not_or.2 hs.1)⟩
    next ht => exact ⟨fun hi _ => ⟨not_or.1 ht, hz hi⟩, fun _ => .inr rfl⟩
  rw [if_neg hs, if_neg hs]
  by_cases hm : imm12 x.instruction = 0x302
  · rw [if_pos hm, if_pos hm]
    refine ⟨fun hi _ hok => ?_, fun _ => .inr rfl⟩
    have hM : x.privLvl = privLvlM := hok.1
    rw [(zeroRegs_iff _).2 hok.2, hM] at hi
    cases hi
  rw [if_neg hm, if_neg hm]
  by_cases hdr : imm12 x.instruction = 0x7b2
  · rw [if_pos hdr, if_pos hdr]
    refine ⟨fun hi _ hok => ?_, fun _ => .inr rfl⟩
    have hD : x.debugMode = true := hok.1
    rw [hD] at hi
    cases hi
  rw [if_neg hdr, if_neg hdr]
  by_cases hw : imm12 x.instruction = 0x105
  · rw [if_pos hw, if_pos hw]
    split
    next ht =>
      exact ⟨fun _ hp => absurd hp Bool.false_ne_true, fun hs => absurd ht (not_or.2 hs.1.symm)⟩
    next ht => exact ⟨fun hi _ => ⟨(not_or.1 ht).symm, hz hi⟩, fun _ => .inr rfl⟩
  rw [if_neg hw, if_neg hw]
  by_cases hf : funct7 x.instruction = 0b0001001
  · rw [if_pos hf, if_pos hf]
    refine ⟨fun hi _ hok => ?_, fun _ => .inr rfl⟩
    have hs : x.state.supervisor x.tvm := hok.1
    rw [(not_trapped himp).2 hs] at hi
    cases hi
  rw [if_neg hf, if_neg hf]
  exact ⟨fun _ hp => (hadd hp).elim, fun hzero => .inl ((zeroRegs_iff _).2 hzero)⟩

theorem unprivileged_of_illegal (h : Undisturbed x) (hl : (decode x).illegalInstr = true)
    (hdev : ¬Deviates x.state x.instruction) : privileged (decode x).op = false := by
  rw [Bool.eq_false_iff]
  intro hp
  obtain ⟨ho, h3, he⟩ := systemPriv_of_privileged h hp
  rw [he] at hl hp
  exact hdev (.inl ⟨ho, h3, (systemPriv_deviates h.priv rfl).1 hl hp⟩)

/-! ### Words that deviate -/

theorem decode_systemPriv (h : Undisturbed x) (ho : opcode x.instruction = Opcode.system.bits)
    (h3 : funct3 x.instruction = 0) :
    decode x = systemPriv x { defaults with fu := .csr, rs1 := x.rs1, rd := x.rd } := by
  rw [decode_of_opcode h.ex ho]
  simp only [decodeOpcode, decodeSystem, h3]
  rfl

/-- A conversion of a precision to itself is accepted. -/
theorem accepts_fcvt (h : Undisturbed x) (ho : opcode x.instruction = Opcode.opFp.bits)
    (hf : fcvtDeviates x.state x.instruction) :
    (decode x).illegalInstr = false ∧ (decode x).op = .fcvtF2f := by
  obtain ⟨h5, hfmt, h2, hon, hrm⟩ := hf
  have hp : ∃ p : Prec, fmt x.instruction = p.fmt := by
    rcases hfmt with he | he
    · exact ⟨.s, he⟩
    · exact ⟨.d, he⟩
  obtain ⟨p, hp⟩ := hp
  have hhi : x.instruction.extractLsb' 23 2 = 0#2 := by
    have he : (rs2 x.instruction).extractLsb' 3 2 = x.instruction.extractLsb' 23 2 :=
      Lib.extractLsb'_extractLsb' _ (by decide)
    rw [← he, h2, hp]
    cases p <;> rfl
  have hlo : srcFmtIllegal (x.instruction.extractLsb' 20 3) = false := by
    have he : (rs2 x.instruction).extractLsb' 0 3 = x.instruction.extractLsb' 20 3 :=
      Lib.extractLsb'_extractLsb' _ (by decide)
    rw [← he, h2, hp]
    cases p <;> rfl
  rw [decode_of_opcode h.ex ho, decodeOpcode, decodeOpFp_eq hp hon fun _ => hrm]
  simp [opFpCase, h5, hhi, hlo]

theorem accepts_or_privileged (h : Undisturbed x) (hdev : Deviates x.state x.instruction) :
    (decode x).illegalInstr = false ∨ privileged (decode x).op = true := by
  rcases hdev with ⟨ho, h3, hp⟩ | ⟨ho, hf⟩
  · rw [decode_systemPriv h ho h3]
    exact (systemPriv_deviates h.priv rfl).2 hp
  · exact .inl (accepts_fcvt h ho hf).1

/-- The system instructions with `funct3` zero. -/
theorem system_of_uop {w : BitVec 32} {i : Instr} (hw : encode i = w) (hfu : i.uop.fu = .csr)
    (ho : opcode w = Opcode.system.bits) (h3 : funct3 w = 0) :
    i = .ecall ∨ i = .ebreak ∨ i = .sret ∨ i = .mret ∨ i = .dret ∨ i = .wfi ∨
      ∃ r1 r2, i = .sfenceVma r1 r2 := by
  cases i with
  | ecall | ebreak | sret | mret | dret | wfi => simp
  | sfenceVma r1 r2 => simp
  | fence p q => exact absurd ((iType_inv _ _ _ _ hw).1.symm.trans ho) (by decide)
  | fenceI => exact absurd ((iType_inv _ _ _ _ hw).1.symm.trans ho) (by decide)
  | csr k d r addr =>
    have hk := (iType_inv _ _ _ _ hw).2.2.1.symm.trans h3
    cases k <;> exact absurd hk (by decide)
  | csrImm k d z addr =>
    have hk := (iType_inv _ _ _ _ hw).2.2.1.symm.trans h3
    cases k <;> exact absurd hk (by decide)
  | op k d r1 r2 => cases k <;> cases hfu
  | opW k d r1 r2 => cases k <;> cases hfu
  | fpOp k p d r1 r2 rm => cases k <;> cases hfu
  | _ => cases hfu

/-- Legal privileged instructions do not deviate. -/
theorem not_privDeviates {s : State} {w : BitVec 32} {i : Instr} (hw : encode i = w) (hl : i.Legal s)
    (hi : i = .ecall ∨ i = .ebreak ∨ i = .sret ∨ i = .mret ∨ i = .dret ∨ i = .wfi ∨
      ∃ r1 r2, i = .sfenceVma r1 r2) : ¬privDeviates s w := by
  have hz {imm : BitVec 12} (h : privType imm = w) : imm12 w = imm ∧ zeroRegs w := by
    obtain ⟨-, hd, -, h1, him⟩ := iType_inv _ _ _ _ h
    exact ⟨him, h1, hd⟩
  unfold privDeviates
  rcases hi with rfl | rfl | rfl | rfl | rfl | rfl | ⟨r1, r2, rfl⟩
  · simp [hz hw]
  · simp [hz hw]
  · simp [hz hw]
  · have hM : s.priv = privLvlM := hl
    simp [hz hw, hM]
  · have hD : s.debugMode = true := hl
    simp [hz hw, hD]
  · simp [hz hw]
  · obtain ⟨-, hd, -, -, -, h7⟩ := rType_inv _ _ _ _ _ _ hw
    have hne {c : BitVec 12} (hc : c.extractLsb' 5 7 ≠ 0b0001001#7) : imm12 w ≠ c :=
      imm12_ne_of_funct7 h7 hc
    have hs : s.supervisor s.tvm := hl
    rw [if_neg (not_or.2 ⟨hne (by decide), hne (by decide)⟩), if_neg (hne (by decide)),
      if_neg (hne (by decide)), if_neg (hne (by decide)), if_neg (hne (by decide)), if_pos h7, not_not]
    exact ⟨hs, hd⟩

/-- The only conversions between precisions are to the other one. -/
theorem not_fcvtDeviates {s : State} {w : BitVec 32} {i : Instr} (hw : encode i = w)
    (hfu : i.uop.fu = .fpu) (hop : i.uop.op = .fcvtF2f) : ¬fcvtDeviates s w := by
  rintro ⟨-, -, h2, -⟩
  cases i with
  | fcvtPrec p d r rm =>
    obtain ⟨-, -, -, -, hr, -, hf, -⟩ := fpType_inv _ _ _ _ hw
    rw [hr, hf] at h2
    cases p <;> exact absurd h2 (by decide)
  | op k => cases k <;> cases hfu
  | opW k => cases k <;> cases hfu
  | fused k => cases k <;> cases hop
  | fpOp k => cases k <;> cases hop
  | _ => first | (cases hfu; done) | cases hop

/-- No legal instruction deviates. -/
theorem not_deviates_of_legal (h : Undisturbed x) (hl : Legal x.state x.instruction) :
    ¬Deviates x.state x.instruction := by
  obtain ⟨i, hw, hi⟩ := hl
  have his := decodes_encode h.ex (fun _ _ _ => h.priv) hw hi
  rintro (⟨ho, h3, hp⟩ | ⟨ho, hf⟩)
  · have hfu : i.uop.fu = .csr := by
      have hs := (runs_system x).2
      rw [← his.uop, decode_of_opcode h.ex ho]
      exact hs
    exact not_privDeviates hw hi (system_of_uop hw hfu ho h3) hp
  · have hop : i.uop.op = .fcvtF2f := by
      rw [← his.uop]
      exact (accepts_fcvt h ho hf).2
    have hfu : i.uop.fu = .fpu := by
      have hr : runs i.uop.fu i.uop.op = true := by
        rw [← his.uop]
        exact runs_decode x
      rw [hop] at hr
      revert hr
      generalize i.uop.fu = fu
      cases fu <;> decide
    exact not_fcvtDeviates hw hfu hop hf

/-! ### The language -/

/-- The decoder does what it owes a word exactly if the word is none of those that deviate. -/
theorem meets_iff (h : Undisturbed x) : Meets x ↔ ¬Deviates x.state x.instruction := by
  have hill (hl : Legal x.state x.instruction) : (decode x).illegalInstr = false := by
    obtain ⟨i, hw, hi⟩ := hl
    exact (decodes_encode h.ex (fun _ _ _ => h.priv) hw hi).legal
  constructor
  · rintro hm hdev
    have hn : ¬Legal x.state x.instruction := fun hl => not_deviates_of_legal h hl hdev
    have hi : (decode x).illegalInstr = true := (raised_illegal_iff h).1 (hm.illegal_iff.2 hn)
    have hp : privileged (decode x).op = false := hm.unprivileged hn
    rcases accepts_or_privileged h hdev with hacc | hpriv
    · rw [hi] at hacc
      cases hacc
    · rw [hp] at hpriv
      cases hpriv
  · intro hdev
    have hleg : (decode x).illegalInstr = true ↔ ¬Legal x.state x.instruction := by
      constructor
      · intro hi hl
        rw [hill hl] at hi
        cases hi
      · intro hn
        rw [← Bool.not_eq_false]
        exact fun hacc => hn (legal_of_accepts h hacc hdev)
    refine ⟨(raised_illegal_iff h).trans hleg, ?_, ?_⟩
    · intro i hw hi
      have his := decodes_encode h.ex (fun _ _ _ => h.priv) hw hi
      exact ⟨his.uop, raised_of_is h his⟩
    · intro hn
      exact unprivileged_of_illegal h (hleg.2 hn) hdev

/-- An input that only differs from others in its word and its state. -/
def plainIn (w : BitVec 32) (s : State) : In where
  debugReq := false
  pc := 0x80000000
  isCompressed := false
  compressedInstr := 0
  isIllegal := false
  instruction := w
  branchPredict := ⟨0⟩
  ex := Exn.none
  irq := 0
  irqCtrl := ⟨0, 0, 0, false, false⟩
  privLvl := s.priv
  debugMode := s.debugMode
  fs := s.fs
  frm := s.frm
  tvm := s.tvm
  tw := s.tw
  tsr := s.tsr

theorem undisturbed_plainIn (w : BitVec 32) {s : State} (h : Implemented s.priv) :
    Undisturbed (plainIn w s) where
  ex := rfl
  expanded := rfl
  irq := by simp [takesInterrupt, plainIn]
  debug := rfl
  priv := h

/-- User mode, everything switched off. -/
def userState : State := ⟨privLvlU, false, Xs.off, 0, false, false, false⟩

/-- An environment call is decoded as it should be. -/
theorem meets_ecall :
    Undisturbed (plainIn 0x00000073 userState) ∧ Meets (plainIn 0x00000073 userState) := by
  have h := undisturbed_plainIn 0x00000073 (s := userState) (.inl rfl)
  refine ⟨h, (meets_iff h).2 ?_⟩
  rintro (⟨-, -, hp⟩ | ⟨ho, -⟩)
  · exact hp
  · exact absurd ho (by decide)

/-- `0x00200073`, a system word with a reserved immediate, is accepted in user mode. -/
theorem reserved_accepted :
    Undisturbed (plainIn 0x00200073 userState) ∧
      ¬Legal (plainIn 0x00200073 userState).state 0x00200073 ∧
      raised (plainIn 0x00200073 userState) = none ∧ ¬Meets (plainIn 0x00200073 userState) := by
  have h := undisturbed_plainIn 0x00200073 (s := userState) (.inl rfl)
  have hdev : Deviates (plainIn 0x00200073 userState).state 0x00200073 :=
    .inl ⟨by decide, by decide, show zeroRegs 0x00200073 from ⟨by decide, by decide⟩⟩
  have hn : ¬Legal (plainIn 0x00200073 userState).state 0x00200073 := fun hl =>
    not_deviates_of_legal h hl hdev
  have hr : raised (plainIn 0x00200073 userState) = none := by decide
  refine ⟨h, hn, hr, fun hm => ?_⟩
  have hi := hm.illegal_iff.2 hn
  rw [hr] at hi
  cases hi

end Decoder
end Ariane

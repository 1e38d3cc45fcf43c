/-
# Compressed instructions

The compressed decoder against the instruction set: the immediates that
`src/compressed_decoder.sv` puts together are those of `Isa.Rvc`, and the word it passes on
encodes the instruction the halfword stands for.
-/
import Mathlib.Tactic.IntervalCases
import Ariane.Decode.IdStage
import Ariane.Decode.Encoded
import Ariane.Isa.Rvc

namespace Ariane
namespace CompressedDecoder

open Isa

/-! ### Fields -/

section Fields

variable (w : BitVec 32)

/-- The halfword the decoder looks at. -/
def low : BitVec 16 := w.extractLsb' 0 16

theorem low_field {lo len : ℕ} (h : lo + len ≤ 16) : (low w).extractLsb' lo len = w.extractLsb' lo len := by
  have hf : (low w).extractLsb' lo len = w.extractLsb' (0 + lo) len := Lib.extractLsb'_extractLsb' w h
  rwa [Nat.zero_add] at hf

theorem getLsbD_part {n lo len k j : ℕ} (h : lo + len ≤ 16) : (Rvc.part (low w) n lo len k).getLsbD j =
    (decide (k ≤ j ∧ j < n ∧ j < k + len) && w.getLsbD (lo + (j - k))) := by
  rw [Rvc.part, low_field w h]
  simp only [BitVec.getLsbD_shiftLeft, BitVec.getLsbD_setWidth, BitVec.getLsbD_extractLsb']
  grind

theorem getLsbD_sgn {n k j : ℕ} : (Rvc.sgn (low w) n k).getLsbD j =
    (decide (k ≤ j ∧ j < n) && w.getLsbD 12) := by
  have hm : ((low w).extractLsb' 12 1).msb = w.getLsbD 12 := by
    rw [low_field w (by omega), BitVec.msb_eq_getLsbD_last, BitVec.getLsbD_extractLsb']
    simp
  rw [Rvc.sgn, low_field w (by omega)] at *
  simp only [BitVec.getLsbD_shiftLeft, BitVec.getLsbD_signExtend, hm, BitVec.getLsbD_extractLsb']
  grind

/-- The short register fields. -/
theorem lowReg_eq : lowReg w = Rvc.rs2s (low w) := by
  have h : ∀ f : BitVec 3, (0b01#2 ++ f : BitVec 5) = 8 + f.setWidth 5 := by decide
  rw [lowReg, Rvc.rs2s, low_field w (by omega)]
  exact h _

theorem highReg_eq : highReg w = Rvc.rs1s (low w) := by
  have h : ∀ f : BitVec 3, (0b01#2 ++ f : BitVec 5) = 8 + f.setWidth 5 := by decide
  rw [highReg, Rvc.rs1s, low_field w (by omega)]
  exact h _

theorem rdField_eq : rdField w = Rvc.rd (low w) := (low_field w (by omega)).symm

theorem rs2Field_eq : rs2Field w = Rvc.rs2 (low w) := (low_field w (by omega)).symm

/-! ### Immediates -/

/-- The offsets of loads, and what is added to the stack pointer. -/
theorem loadImm_eq :
    (0#2 ++ w.extractLsb' 7 4 ++ w.extractLsb' 11 2 ++ bit w 5 ++ bit w 6 ++ 0#2 : BitVec 12) =
        Rvc.addi4spnImm (low w) ∧
      (0#5 ++ bit w 5 ++ w.extractLsb' 10 3 ++ bit w 6 ++ 0#2 : BitVec 12) = Rvc.lwImm (low w) ∧
      (0#4 ++ dwordOff w ++ 0#3 : BitVec 12) = Rvc.ldImm (low w) ∧
      (0#4 ++ w.extractLsb' 2 2 ++ bit w 12 ++ w.extractLsb' 4 3 ++ 0#2 : BitVec 12) =
        Rvc.lwspImm (low w) ∧
      (0#3 ++ w.extractLsb' 2 3 ++ bit w 12 ++ w.extractLsb' 5 2 ++ 0#3 : BitVec 12) =
        Rvc.ldspImm (low w) := by
  refine ⟨?_, ?_, ?_, ?_, ?_⟩ <;> apply BitVec.eq_of_getLsbD_eq <;> intro k hk <;>
    simp (disch := omega) only [Rvc.addi4spnImm, Rvc.lwImm, Rvc.ldImm, Rvc.lwspImm, Rvc.ldspImm,
      dwordOff, BitVec.getLsbD_or, getLsbD_part, BitVec.getLsbD_append, BitVec.getLsbD_extractLsb',
      getLsbD_bit, BitVec.getLsbD_zero] <;>
    grind

/-- The two parts of the offsets of stores. -/
theorem storeImm_eq :
    (0#5 ++ bit w 5 ++ bit w 12 ++ (w.extractLsb' 10 2 ++ bit w 6 ++ 0#2) : BitVec 12) =
        Rvc.lwImm (low w) ∧
      (0#4 ++ w.extractLsb' 5 2 ++ bit w 12 ++ (w.extractLsb' 10 2 ++ 0#3) : BitVec 12) =
        Rvc.ldImm (low w) ∧
      (0#4 ++ w.extractLsb' 7 2 ++ bit w 12 ++ (w.extractLsb' 9 3 ++ 0#2) : BitVec 12) =
        Rvc.swspImm (low w) ∧
      (0#3 ++ w.extractLsb' 7 3 ++ bit w 12 ++ (w.extractLsb' 10 2 ++ 0#3) : BitVec 12) =
        Rvc.sdspImm (low w) := by
  refine ⟨?_, ?_, ?_, ?_⟩ <;> apply BitVec.eq_of_getLsbD_eq <;> intro k hk <;>
    simp (disch := omega) only [Rvc.lwImm, Rvc.ldImm, Rvc.swspImm, Rvc.sdspImm, BitVec.getLsbD_or,
      getLsbD_part, BitVec.getLsbD_append, BitVec.getLsbD_extractLsb', getLsbD_bit,
      BitVec.getLsbD_zero] <;>
    grind

/-- The signed immediates, and the amounts of shifts. -/
theorem aluImm_eq :
    (sign w 6 ++ bit w 12 ++ rs2Field w : BitVec 12) = Rvc.simm (low w) 12 ∧
      (sign w 15 ++ rs2Field w : BitVec 20) = Rvc.simm (low w) 20 ∧
      (bit w 12 ++ rs2Field w : BitVec 6) = Rvc.shamt (low w) ∧
      (sign w 3 ++ w.extractLsb' 3 2 ++ bit w 5 ++ bit w 2 ++ bit w 6 ++ 0#4 : BitVec 12) =
        Rvc.addi16spImm (low w) := by
  refine ⟨?_, ?_, ?_, ?_⟩ <;> apply BitVec.eq_of_getLsbD_eq <;> intro k hk <;>
    simp (disch := omega) only [Rvc.simm, Rvc.shamt, Rvc.addi16spImm, rs2Field, BitVec.getLsbD_or,
      getLsbD_part, getLsbD_sgn, BitVec.getLsbD_append, BitVec.getLsbD_extractLsb', getLsbD_bit,
      getLsbD_sign, BitVec.getLsbD_zero] <;>
    grind

theorem getLsbD_bImm (k : ℕ) : (Rvc.bImm (low w)).getLsbD k =
    if k < 2 then w.getLsbD (3 + k) else if k < 4 then w.getLsbD (8 + k) else if k = 4 then w.getLsbD 2
    else if k < 7 then w.getLsbD k else decide (k < 12) && w.getLsbD 12 := by
  simp (disch := omega) only [Rvc.bImm, BitVec.getLsbD_or, getLsbD_part, getLsbD_sgn]
  grind

theorem getLsbD_jImm (k : ℕ) : (Rvc.jImm (low w)).getLsbD k =
    if k < 3 then w.getLsbD (3 + k) else if k = 3 then w.getLsbD 11 else if k = 4 then w.getLsbD 2
    else if k = 5 then w.getLsbD 7 else if k = 6 then w.getLsbD 6 else if k < 9 then w.getLsbD (2 + k)
    else if k = 9 then w.getLsbD 8 else decide (k < 20) && w.getLsbD 12 := by
  simp (disch := omega) only [Rvc.jImm, BitVec.getLsbD_or, getLsbD_part, getLsbD_sgn]
  grind

/-- The parts of the offset of a branch in its word. -/
theorem branchImm_eq :
    (sign w 4 ++ w.extractLsb' 5 2 ++ bit w 2 : BitVec 7) =
        (Rvc.bImm (low w)).extractLsb' 11 1 ++ (Rvc.bImm (low w)).extractLsb' 4 6 ∧
      (w.extractLsb' 10 2 ++ w.extractLsb' 3 2 ++ bit w 12 : BitVec 5) =
        (Rvc.bImm (low w)).extractLsb' 0 4 ++ (Rvc.bImm (low w)).extractLsb' 10 1 := by
  constructor
  · apply BitVec.eq_of_getLsbD_eq
    intro k hk
    simp only [BitVec.getLsbD_append, BitVec.getLsbD_extractLsb', getLsbD_bit, getLsbD_sign, getLsbD_bImm]
    interval_cases k <;> rfl
  · apply BitVec.eq_of_getLsbD_eq
    intro k hk
    simp only [BitVec.getLsbD_append, BitVec.getLsbD_extractLsb', getLsbD_bit, getLsbD_bImm]
    interval_cases k <;> rfl

/-- The offset of a jump in its word. -/
theorem jumpImm_eq :
    (bit w 12 ++ bit w 8 ++ w.extractLsb' 9 2 ++ bit w 6 ++ bit w 7 ++ bit w 2 ++ bit w 11 ++
        w.extractLsb' 3 3 ++ sign w 9 : BitVec 20) =
      (Rvc.jImm (low w)).extractLsb' 19 1 ++ (Rvc.jImm (low w)).extractLsb' 0 10 ++
        (Rvc.jImm (low w)).extractLsb' 10 1 ++ (Rvc.jImm (low w)).extractLsb' 11 8 := by
  apply BitVec.eq_of_getLsbD_eq
  intro k hk
  simp only [BitVec.getLsbD_append, BitVec.getLsbD_extractLsb', getLsbD_bit, getLsbD_sign, getLsbD_jImm]
  interval_cases k <;> rfl

end Fields

/-! ### Words -/

section Words

variable (f7 : BitVec 7) (r2 r1 : BitVec 5) (f3 : BitVec 3) (op : BitVec 7)

theorem sType_append (lo : BitVec 5) : sType (f7 ++ lo) r2 r1 f3 op = rType f7 r2 r1 f3 lo op := by
  have hhi : (f7 ++ lo).extractLsb' 5 7 = f7 := BitVec.extractLsb'_append_eq_left
  have hlo : (f7 ++ lo).extractLsb' 0 5 = lo := BitVec.extractLsb'_append_eq_right
  rw [sType, hhi, hlo]

/-- Words whose last field before the opcode is put together from parts. -/
theorem rType_append_23 (x : BitVec 2) (y : BitVec 3) :
    (f7 ++ r2 ++ r1 ++ f3 ++ x ++ y ++ op : BitVec 32) = rType f7 r2 r1 f3 (x ++ y) op := by
  apply BitVec.eq_of_getLsbD_eq
  intro k hk
  rw [Decoder.getLsbD_rType]
  simp only [BitVec.getLsbD_append]
  grind

theorem rType_append_32 (x : BitVec 3) (y : BitVec 2) :
    (f7 ++ r2 ++ r1 ++ f3 ++ x ++ y ++ op : BitVec 32) = rType f7 r2 r1 f3 (x ++ y) op := by
  apply BitVec.eq_of_getLsbD_eq
  intro k hk
  rw [Decoder.getLsbD_rType]
  simp only [BitVec.getLsbD_append]
  grind

theorem rType_append_212 (x : BitVec 2) (y : BitVec 1) (z : BitVec 2) :
    (f7 ++ r2 ++ r1 ++ f3 ++ x ++ y ++ z ++ op : BitVec 32) = rType f7 r2 r1 f3 (x ++ y ++ z) op := by
  apply BitVec.eq_of_getLsbD_eq
  intro k hk
  rw [Decoder.getLsbD_rType]
  simp only [BitVec.getLsbD_append]
  grind

/-- So is the word of a branch, `funct3` too. -/
theorem rType_append_branch (a : BitVec 2) (b : BitVec 1) (x y : BitVec 2) (z : BitVec 1) :
    (f7 ++ r2 ++ r1 ++ a ++ b ++ x ++ y ++ z ++ op : BitVec 32) =
      rType f7 r2 r1 (a ++ b) (x ++ y ++ z) op := by
  apply BitVec.eq_of_getLsbD_eq
  intro k hk
  rw [Decoder.getLsbD_rType]
  simp only [BitVec.getLsbD_append]
  grind

/-- The word of a jump, its register field put together too. -/
theorem uType_append (imm : BitVec 20) (x : BitVec 4) (y : BitVec 1) :
    (imm ++ x ++ y ++ op : BitVec 32) = uType imm (x ++ y) op := by
  apply BitVec.eq_of_getLsbD_eq
  intro k hk
  rw [Decoder.getLsbD_uType]
  simp only [BitVec.getLsbD_append]
  grind

/-- The immediate of a shift: its upper bits and the amount. -/
theorem append_shamt (f6 : BitVec 6) (a : BitVec 1) (b : BitVec 5) :
    (f6 ++ a ++ b : BitVec 12) = f6 ++ (a ++ b) := by
  apply BitVec.eq_of_getLsbD_eq
  intro k hk
  simp only [BitVec.getLsbD_append]
  grind

end Words

/-! ### Quadrants -/

/-- What the decoder assigns is what the halfword stands for. -/
structure Expanded.Is (e : Expanded) (o : Option Instr) : Prop where
  illegal : e.illegal = o.isNone
  word : ∀ i, o = some i → e.instr = encode i

theorem is_legal {v : BitVec 32} {i : Instr} (h : v = encode i) : (legal v).Is (some i) :=
  ⟨rfl, fun _ hi => h.trans (congrArg encode (Option.some.inj hi))⟩

theorem is_illegal (v : BitVec 32) : (⟨v, true⟩ : Expanded).Is none := ⟨rfl, nofun⟩

theorem is_reservedIf {v : BitVec 32} {b : Bool} {p : Prop} [Decidable p] {i : Instr} (hb : b = true ↔ p)
    (h : v = encode i) : (⟨v, b⟩ : Expanded).Is (Rvc.reservedIf p i) := by
  unfold Rvc.reservedIf
  by_cases hp : p
  · rw [if_pos hp, hb.2 hp]
    exact is_illegal v
  · rw [if_neg hp, Bool.eq_false_iff.2 fun h => hp (hb.1 h)]
    exact is_legal h

section Quadrants

variable (w : BitVec 32)

theorem three_bits : ∀ f : BitVec 3, f = 0b000 ∨ f = 0b001 ∨ f = 0b010 ∨ f = 0b011 ∨ f = 0b100 ∨
    f = 0b101 ∨ f = 0b110 ∨ f = 0b111 := by decide

theorem two_bits : ∀ f : BitVec 2, f = 0b00 ∨ f = 0b01 ∨ f = 0b10 ∨ f = 0b11 := by decide

/-- A field is made of its parts. -/
theorem field_append (a n m : ℕ) {b : ℕ} (h : b = a + n) :
    w.extractLsb' b m ++ w.extractLsb' a n = w.extractLsb' a (m + n) :=
  BitVec.extractLsb'_append_extractLsb'_eq_extractLsb' h

/-- The immediates that may not be zero are zero if their fields are. -/
theorem addi4spnImm_eq_zero : (w.extractLsb' 5 8 == 0) = true ↔ Rvc.addi4spnImm (low w) = 0 := by
  have hparts : ∀ (a : BitVec 4) (b : BitVec 2) (c d : BitVec 1),
      b ++ (a ++ (d ++ c)) = 0 ↔ (0#2 ++ a ++ b ++ c ++ d ++ 0#2 : BitVec 12) = 0 := by decide +kernel
  have hfield : w.extractLsb' 11 2 ++ (w.extractLsb' 7 4 ++ (bit w 6 ++ bit w 5)) = w.extractLsb' 5 8 := by
    rw [bit, bit, field_append w 5 1 1 rfl, field_append w 5 2 4 rfl, field_append w 5 6 2 rfl]
  rw [beq_iff_eq, ← (loadImm_eq w).1, ← hfield]
  exact hparts _ _ _ _

theorem addi16spImm_eq_zero : (bit w 12 ++ rs2Field w == 0) = true ↔ Rvc.addi16spImm (low w) = 0 := by
  have hparts : ∀ (s : BitVec 1) (a : BitVec 2) (b c d : BitVec 1), s ++ (d ++ (b ++ (a ++ c))) = 0 ↔
      (s.signExtend 3 ++ a ++ b ++ c ++ d ++ 0#4 : BitVec 12) = 0 := by decide +kernel
  have hfield : bit w 6 ++ (bit w 5 ++ (w.extractLsb' 3 2 ++ bit w 2)) = rs2Field w := by
    rw [bit, bit, bit, field_append w 2 1 2 rfl, field_append w 2 3 1 rfl, field_append w 2 4 1 rfl]
    rfl
  rw [beq_iff_eq, ← (aluImm_eq w).2.2.2, ← hfield]
  exact hparts _ _ _ _ _

theorem simm_eq_zero : (bit w 12 ++ rs2Field w == 0) = true ↔ Rvc.simm (low w) 20 = 0 := by
  have hparts : ∀ (s : BitVec 1) (f : BitVec 5), s ++ f = 0 ↔ (s.signExtend 15 ++ f : BitVec 20) = 0 := by
    decide +kernel
  rw [beq_iff_eq, ← (aluImm_eq w).2.1]
  exact hparts _ _

theorem quadrant0_is : (quadrant0 w).Is (Rvc.quadrant0 (low w)) := by
  obtain ⟨h4, hlw, hld, -, -⟩ := loadImm_eq w
  obtain ⟨hsw, hsd, -, -⟩ := storeImm_eq w
  have hd := lowReg_eq w
  have hr := highReg_eq w
  rcases three_bits (w.extractLsb' 13 3) with hf | hf | hf | hf | hf | hf | hf | hf <;>
    rw [quadrant0, Rvc.quadrant0, low_field w (by omega), hf]
  · refine is_reservedIf (addi4spnImm_eq_zero w) ?_
    rw [encode, ← h4, ← hd]
    rfl
  · refine is_legal ?_
    rw [encode, ← hld, ← hd, ← hr]
    rfl
  · refine is_legal ?_
    rw [encode, ← hlw, ← hd, ← hr]
    rfl
  · refine is_legal ?_
    rw [encode, ← hld, ← hd, ← hr]
    rfl
  · exact is_illegal w
  · refine is_legal ?_
    rw [encode, ← hsd, sType_append, ← hd, ← hr, ← rType_append_23]
    rfl
  · refine is_legal ?_
    rw [encode, ← hsw, sType_append, ← hd, ← hr, ← rType_append_212]
    rfl
  · refine is_legal ?_
    rw [encode, ← hsd, sType_append, ← hd, ← hr, ← rType_append_23]
    rfl

/-- A bit of `funct3` or `funct2`. -/
theorem bit_of_field {a l : ℕ} {f : BitVec l} (h : w.extractLsb' a l = f) {k : ℕ} (hk : k + 1 ≤ l) :
    bit w (a + k) = f.extractLsb' k 1 := by
  rw [bit, ← h, Lib.extractLsb'_extractLsb' w hk]

theorem alu_is (hf : w.extractLsb' 10 2 = 0b11#2) : (miscAlu w).Is (Rvc.alu (low w)) := by
  have hd := lowReg_eq w
  have hr := highReg_eq w
  have hreg (f7 : BitVec 7) (f3 : BitVec 3) (op : BitVec 7) :
      (f7 ++ lowReg w ++ highReg w ++ f3 ++ highReg w ++ op : BitVec 32) =
        rType f7 (Rvc.rs2s (low w)) (Rvc.rs1s (low w)) f3 (Rvc.rs1s (low w)) op := by
    rw [hd, hr]
    rfl
  have hf3 : (low w).extractLsb' 12 1 ++ (low w).extractLsb' 5 2 = bit w 12 ++ w.extractLsb' 5 2 := by
    rw [low_field w (by omega), low_field w (by omega)]
    rfl
  rw [miscAlu, hf, Rvc.alu, hf3]
  rcases three_bits (bit w 12 ++ w.extractLsb' 5 2) with hf | hf | hf | hf | hf | hf | hf | hf <;> rw [hf]
  · exact is_legal (hreg _ _ _)
  · exact is_legal (hreg _ _ _)
  · exact is_legal (hreg _ _ _)
  · exact is_legal (hreg _ _ _)
  · exact is_legal (hreg _ _ _)
  · exact is_legal (hreg _ _ _)
  · exact is_illegal w
  · exact is_illegal w

theorem miscAlu_is : (miscAlu w).Is (Rvc.miscAlu (low w)) := by
  obtain ⟨hsimm, -, hshamt, -⟩ := aluImm_eq w
  have hr := highReg_eq w
  have hshift (b : BitVec 1) (f6 : BitVec 6) (hb : (0#1 ++ b ++ 0#4 : BitVec 6) = f6) :
      (0#1 ++ b ++ 0#4 ++ bit w 12 ++ rs2Field w ++ highReg w ++ 0b101#3 ++ highReg w ++ 0b0010011#7 :
        BitVec 32) =
      iType (f6 ++ Rvc.shamt (low w)) (Rvc.rs1s (low w)) 0b101 (Rvc.rs1s (low w)) 0b0010011 := by
    rw [← hshamt, ← append_shamt, ← hr, ← hb]
    rfl
  rcases two_bits (w.extractLsb' 10 2) with hf | hf | hf | hf
  · rw [miscAlu, Rvc.miscAlu, low_field w (by omega), bit_of_field w hf (show 0 + 1 ≤ 2 by omega), hf]
    exact is_legal (hshift _ _ rfl)
  · rw [miscAlu, Rvc.miscAlu, low_field w (by omega), bit_of_field w hf (show 0 + 1 ≤ 2 by omega), hf]
    exact is_legal (hshift _ _ rfl)
  · rw [miscAlu, Rvc.miscAlu, low_field w (by omega), hf]
    refine is_legal ?_
    rw [encode, ← hsimm, ← hr]
    rfl
  · have halu := alu_is w hf
    rw [Rvc.miscAlu, low_field w (by omega), hf]
    exact halu

theorem quadrant1_is : (quadrant1 w).Is (Rvc.quadrant1 (low w)) := by
  obtain ⟨hsimm, hupper, -, h16⟩ := aluImm_eq w
  have hd := rdField_eq w
  have hr := highReg_eq w
  rcases three_bits (w.extractLsb' 13 3) with hf | hf | hf | hf | hf | hf | hf | hf
  · rw [quadrant1, Rvc.quadrant1, low_field w (by omega), hf]
    refine is_legal ?_
    rw [encode, ← hsimm, ← hd]
    rfl
  · rw [quadrant1, Rvc.quadrant1, low_field w (by omega), hf]
    dsimp only
    rw [← hd]
    by_cases h0 : rdField w = 0
    · rw [if_neg (not_not.2 h0), Rvc.reservedIf, if_pos h0]
      exact is_illegal w
    · rw [if_pos h0, Rvc.reservedIf, if_neg h0]
      refine is_legal ?_
      rw [encode, ← hsimm]
      rfl
  · rw [quadrant1, Rvc.quadrant1, low_field w (by omega), hf]
    refine is_legal ?_
    rw [encode, ← hsimm, ← hd]
    rfl
  · rw [quadrant1, Rvc.quadrant1, low_field w (by omega), hf]
    dsimp only
    rw [← hd]
    by_cases h2 : rdField w = 0x02
    · rw [if_pos h2, if_pos (show rdField w = Rvc.sp from h2)]
      refine is_reservedIf (addi16spImm_eq_zero w) ?_
      rw [encode, ← h16]
      rfl
    · rw [if_neg h2, if_neg (show ¬rdField w = Rvc.sp from h2)]
      refine is_reservedIf (simm_eq_zero w) ?_
      rw [encode, ← hupper]
      rfl
  · have halu := miscAlu_is w
    rw [quadrant1, Rvc.quadrant1, low_field w (by omega), hf]
    exact halu
  · have h15 : bit w 15 = 1#1 := bit_of_field w hf (show 2 + 1 ≤ 3 by omega)
    rw [quadrant1, Rvc.quadrant1, low_field w (by omega), hf]
    refine is_legal ?_
    rw [encode, jType, ← jumpImm_eq, uType_append, h15]
    rfl
  · have h13 : bit w 13 = 0#1 := bit_of_field w hf (show 0 + 1 ≤ 3 by omega)
    rw [quadrant1, Rvc.quadrant1, low_field w (by omega), hf]
    refine is_legal ?_
    rw [encode, bType, ← (branchImm_eq w).1, ← (branchImm_eq w).2, ← hr, rType_append_branch, h13]
    rfl
  · have h13 : bit w 13 = 1#1 := bit_of_field w hf (show 0 + 1 ≤ 3 by omega)
    rw [quadrant1, Rvc.quadrant1, low_field w (by omega), hf]
    refine is_legal ?_
    rw [encode, bType, ← (branchImm_eq w).1, ← (branchImm_eq w).2, ← hr, rType_append_branch, h13]
    rfl

/-- `C.FLDSP` into the register `f0`. -/
def FldspF0 : Prop :=
  w.extractLsb' 0 2 = 0b10#2 ∧ w.extractLsb' 13 3 = 0b001#3 ∧ w.extractLsb' 7 5 = 0

instance : Decidable (FldspF0 w) := inferInstanceAs (Decidable (_ ∧ _))

theorem jumpMvAdd_is : (jalrMvAdd w).Is (Rvc.jumpMvAdd (low w)) := by
  rw [jalrMvAdd, Rvc.jumpMvAdd, low_field w (by omega), ← rdField_eq, ← rs2Field_eq]
  have hbit : bit w 12 = w.extractLsb' 12 1 := rfl
  rw [hbit]
  by_cases h12 : w.extractLsb' 12 1 = 0
  · rw [if_pos h12, if_pos h12]
    by_cases h2 : rs2Field w = 0
    · rw [if_pos h2, if_pos h2]
      refine is_reservedIf beq_iff_eq ?_
      rfl
    · rw [if_neg h2, if_neg h2]
      exact is_legal rfl
  · rw [if_neg h12, if_neg h12]
    by_cases h2 : rs2Field w = 0
    · rw [if_pos h2]
      by_cases hd : rdField w = 0
      · rw [if_pos ⟨hd, h2⟩, if_pos hd]
        exact is_legal rfl
      · rw [if_neg fun h => hd h.1, if_pos ⟨hd, h2⟩, if_neg hd]
        exact is_legal rfl
    · rw [if_neg fun h => h2 h.2, if_neg fun h => h2 h.2, if_neg h2]
      exact is_legal rfl

theorem quadrant2_is (hq : w.extractLsb' 0 2 = 0b10#2) (h : ¬FldspF0 w) :
    (quadrant2 w).Is (Rvc.quadrant2 (low w)) := by
  obtain ⟨-, -, -, hlw, hld⟩ := loadImm_eq w
  obtain ⟨-, -, hsw, hsd⟩ := storeImm_eq w
  obtain ⟨-, -, hshamt, -⟩ := aluImm_eq w
  have hd := rdField_eq w
  have h2 := rs2Field_eq w
  rcases three_bits (w.extractLsb' 13 3) with hf | hf | hf | hf | hf | hf | hf | hf
  · rw [quadrant2, Rvc.quadrant2, low_field w (by omega), hf]
    refine is_legal ?_
    rw [encode, ← hshamt, ← hd, ← append_shamt]
    rfl
  · have hne : (rdField w == 0) = false := beq_eq_false_iff_ne.2 fun h0 => h ⟨hq, hf, h0⟩
    rw [quadrant2, Rvc.quadrant2, low_field w (by omega), hf, hne]
    refine is_legal ?_
    rw [encode, ← hld, ← hd]
    rfl
  · rw [quadrant2, Rvc.quadrant2, low_field w (by omega), hf, ← hd]
    refine is_reservedIf beq_iff_eq ?_
    rw [encode, ← hlw]
    rfl
  · rw [quadrant2, Rvc.quadrant2, low_field w (by omega), hf, ← hd]
    refine is_reservedIf beq_iff_eq ?_
    rw [encode, ← hld]
    rfl
  · have hjump := jumpMvAdd_is w
    rw [quadrant2, Rvc.quadrant2, low_field w (by omega), hf]
    exact hjump
  · rw [quadrant2, Rvc.quadrant2, low_field w (by omega), hf]
    refine is_legal ?_
    rw [encode, ← hsd, sType_append, ← h2, ← rType_append_23]
    rfl
  · rw [quadrant2, Rvc.quadrant2, low_field w (by omega), hf]
    refine is_legal ?_
    rw [encode, ← hsw, sType_append, ← h2, ← rType_append_32]
    rfl
  · rw [quadrant2, Rvc.quadrant2, low_field w (by omega), hf]
    refine is_legal ?_
    rw [encode, ← hsd, sType_append, ← h2, ← rType_append_23]
    rfl

/-- Every compressed word but that one. -/
theorem expand_is (hc : isCompressedO w = true) (h : ¬FldspF0 w) : (expand w).Is (Rvc.instr (low w)) := by
  rcases two_bits (w.extractLsb' 0 2) with hq | hq | hq | hq
  · have h0 := quadrant0_is w
    rw [expand, Rvc.instr, low_field w (by omega), hq]
    exact h0
  · have h1 := quadrant1_is w
    rw [expand, Rvc.instr, low_field w (by omega), hq]
    exact h1
  · have h2 := quadrant2_is w hq h
    rw [expand, Rvc.instr, low_field w (by omega), hq]
    exact h2
  · rw [isCompressedO, hq] at hc
    cases hc

end Quadrants

/-! ### The decoder -/

section Words

variable {w : BitVec 32}

/-- What the compressed decoder is for: longer instructions pass, reserved halfwords are
illegal, and the others become the instruction they stand for, which decodes to its
operation. -/
structure Expands (w : BitVec 32) : Prop where
  long : isCompressedO w = false → instrO w = w ∧ illegalInstrO w = false
  illegal : isCompressedO w = true → (illegalInstrO w = true ↔ Rvc.instr (low w) = none)
  word : isCompressedO w = true → ∀ i, Rvc.instr (low w) = some i → instrO w = encode i
  uop : isCompressedO w = true → ∀ i, Rvc.instr (low w) = some i →
    ∀ f : IdStage.In, f.instruction = w → f.ex.valid = false → i.Legal (IdStage.decoderIn f).state →
      (IdStage.decodedInstruction f).uop = i.uop

/-- No compressed word becomes a fence. -/
theorem ne_sfenceVma (hc : isCompressedO w = true) (hl : illegalInstrO w = false) (r1 r2 : BitVec 5) :
    instrO w ≠ encode (.sfenceVma r1 r2) := by
  intro he
  obtain ⟨hop, -, -, -, -, h7⟩ := Decoder.rType_inv _ _ _ _ _ _ he.symm
  rcases plain_instrO hc hl with hp | hp
  · rw [hop] at hp
    exact absurd hp (by decide)
  · rw [hp] at h7
    exact absurd h7 (by decide)

theorem long_of_not_compressed (hc : isCompressedO w = false) : instrO w = w ∧ illegalInstrO w = false := by
  have hq : w.extractLsb' 0 2 = 0b11#2 := by simpa [isCompressedO] using hc
  have hexp : expand w = legal w := by
    rw [expand, hq]
    rfl
  rw [instrO, illegalInstrO, hexp]
  exact ⟨rfl, rfl⟩

theorem Expanded.Is.expands (hc : isCompressedO w = true) (h : (expand w).Is (Rvc.instr (low w))) :
    Expands w := by
  have hill : illegalInstrO w = (Rvc.instr (low w)).isNone := h.illegal
  have hlegal {i : Instr} (hi : Rvc.instr (low w) = some i) : illegalInstrO w = false := by rw [hill, hi]; rfl
  have hword {i : Instr} (hi : Rvc.instr (low w) = some i) : instrO w = encode i := by
    have hl : (expand w).illegal = false := hlegal hi
    rw [instrO, hl, Bool.false_and, if_neg Bool.false_ne_true]
    exact h.word i hi
  refine ⟨fun hn => absurd (hc.symm.trans hn) (by decide), fun _ => ?_, fun _ i hi => hword hi, ?_⟩
  · rw [hill, Option.isNone_iff_eq_none]
  · intro _ i hi f hf hex hleg
    have he : encode i = (IdStage.decoderIn f).instruction := by
      show _ = instrO f.instruction
      rw [hf, hword hi]
    refine (Decoder.decodes_encode hex (fun r1 r2 hs => ?_) he hleg).uop
    rw [hs] at hi
    exact absurd (hword hi) (ne_sfenceVma hc (hlegal hi) r1 r2)

/-- The register `f0` is illegal in `C.FLDSP`, as it is in the loads of integer registers. -/
theorem illegal_of_fldspF0 (h : FldspF0 w) : isCompressedO w = true ∧ illegalInstrO w = true ∧
    Rvc.instr (low w) ≠ none := by
  obtain ⟨hq, hf, hd⟩ := h
  refine ⟨by rw [isCompressedO, hq]; rfl, ?_, ?_⟩
  · have hz : (rdField w == 0) = true := beq_iff_eq.2 hd
    rw [illegalInstrO, expand, hq]
    show (quadrant2 w).illegal = true
    rw [quadrant2, hf]
    exact hz
  · rw [Rvc.instr, low_field w (by omega), hq]
    show Rvc.quadrant2 (low w) ≠ none
    rw [Rvc.quadrant2, low_field w (by omega), hf]
    exact Option.some_ne_none _

/-- Every word is expanded as it should, whatever its upper half, but for `C.FLDSP` into
`f0`. -/
theorem expands_iff (w : BitVec 32) : Expands w ↔ ¬FldspF0 w := by
  constructor
  · intro h hf
    obtain ⟨hc, hill, hne⟩ := illegal_of_fldspF0 hf
    exact hne ((h.illegal hc).1 hill)
  · intro h
    cases hc : isCompressedO w with
    | true => exact (expand_is w hc h).expands hc
    | false =>
      have hn {P : Prop} (h : isCompressedO w = true) : P := absurd (hc.symm.trans h) (by decide)
      exact ⟨fun _ => long_of_not_compressed hc, fun h => hn h, fun h => hn h, fun h => hn h⟩

/-- `fld f0, 0(sp)` in its compressed form is refused. -/
theorem fldsp_f0_illegal : Rvc.instr (low 0x00002002) = some (.fload .d 0 2 0) ∧
    illegalInstrO 0x00002002 = true ∧ ¬Expands 0x00002002 := by
  have hf : FldspF0 0x00002002 := by decide
  refine ⟨by decide, (illegal_of_fldspF0 hf).2.1, fun h => ?_⟩
  exact (illegal_of_fldspF0 hf).2.2 ((h.illegal (by decide)).1 (illegal_of_fldspF0 hf).2.1)

end Words

end CompressedDecoder
end Ariane

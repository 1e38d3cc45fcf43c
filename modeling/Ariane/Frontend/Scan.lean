/-
# The instruction scanner

`instr_scan.sv` looks at the words of a fetch before they are decoded and finds the jumps,
branches, calls and returns among them, with the offsets of those that have one.

It reads its own bits of the word: `scan_branch`, `scan_jump` and `scan_plain` say that what it
finds is what the decoder makes of the word later, expanded if it is compressed.
-/
import Ariane.Decode.Encoded
import Ariane.Decode.IdStage

namespace Ariane
namespace Frontend
namespace Scan

open Decoder CompressedDecoder Isa

/-! ### The scanner -/

section Outputs

variable (w : BitVec 32)

/-- A register that holds return addresses. -/
def isLink (r : BitVec 5) : Bool := r == 1 || r == 5

def rviBranch : Bool := opcode w == Opcode.branch.bits
def rviJalr : Bool := opcode w == Opcode.jalr.bits
def rviJump : Bool := opcode w == Opcode.jal.bits

/-- `rvi_return_o`: the register is not the one that is linked. -/
def rviReturn : Bool := rviJalr w && isLink (rs1 w) && rs1 w != rd w

def rviCall : Bool := (rviJalr w || rviJump w) && isLink (rd w)

def rviImm : BitVec 64 := if w.getLsbD 3 then ujImm w else sbImm w

/-- The quadrant and `funct3` of a compressed instruction. -/
def quadrant : BitVec 2 := w.extractLsb' 0 2
def rvcFunct3 : BitVec 3 := w.extractLsb' 13 3

def rvcJump : Bool := rvcFunct3 w == 0b101 && isCompressedO w && quadrant w == 0b01

/-- `is_jal_r`. -/
def isJalR : Bool :=
  rvcFunct3 w == 0b100 && rs2Field w == 0 && quadrant w == 0b10 && isCompressedO w

def rvcJr : Bool := isJalR w && !w.getLsbD 12
def rvcJalr : Bool := isJalR w && w.getLsbD 12
def rvcCall : Bool := rvcJalr w

def rvcBranch : Bool :=
  (rvcFunct3 w == 0b110 || rvcFunct3 w == 0b111) && quadrant w == 0b01 && isCompressedO w

def rvcReturn : Bool := isLink (rdField w) && rvcJr w

def rvcImm : BitVec 64 :=
  if w.getLsbD 14 then
    sign w 56 ++ w.extractLsb' 5 2 ++ bit w 2 ++ w.extractLsb' 10 2 ++ w.extractLsb' 3 2 ++ 0#1
  else
    sign w 53 ++ bit w 8 ++ w.extractLsb' 9 2 ++ bit w 6 ++ bit w 7 ++ bit w 2 ++ bit w 11 ++
      w.extractLsb' 3 3 ++ 0#1

/-! ### What the frontend makes of it -/

def isBranch : Bool := rviBranch w || rvcBranch w
def isCall : Bool := rviCall w || rvcCall w
def isReturn : Bool := rviReturn w || rvcReturn w
def isJump : Bool := rviJump w || rvcJump w

/-- A register jump that is neither a return nor a call. -/
def isJalr : Bool := !isReturn w && !isCall w && (rviJalr w || rvcJalr w || rvcJr w)

end Outputs

variable {w : BitVec 32}

/-! ### Words of 32 bits -/

theorem instrO_of_not_compressed (h : isCompressedO w = false) : instrO w = w := by
  have hq : w.extractLsb' 0 2 = 0b11#2 := by simpa [isCompressedO] using h
  simp [instrO, expand, hq, h, legal]

/-- The scanner finds nothing compressed in them. -/
theorem rvc_false (h : isCompressedO w = false) :
    rvcJump w = false ∧ isJalR w = false ∧ rvcBranch w = false := by
  simp [rvcJump, isJalR, rvcBranch, h]

/-- The opcodes of 32-bit instructions end in two ones. -/
theorem quadrant_opcode (w : BitVec 32) : (opcode w).extractLsb' 0 2 = quadrant w := by
  rw [opcode, quadrant, BitVec.extractLsb'_extractLsb'_of_le (by decide)]

theorem isCompressedO_of_opcode {o : Opcode} (h : opcode w = o.bits) : isCompressedO w = false := by
  have hq := quadrant_opcode w
  rw [h] at hq
  have hall : ∀ o : Opcode, o.bits.extractLsb' 0 2 = 0b11#2 := by
    intro o
    cases o <;> rfl
  rw [isCompressedO, show w.extractLsb' 0 2 = 0b11#2 from hq.symm.trans (hall o)]
  rfl

/-! ### Compressed offsets -/

/-- The word a compressed branch expands to. -/
theorem quadrant1_branch (h : rvcFunct3 w = 0b110 ∨ rvcFunct3 w = 0b111) : quadrant1 w =
    legal (sign w 4 ++ w.extractLsb' 5 2 ++ bit w 2 ++ 0#5 ++ highReg w ++ 0#2 ++ bit w 13 ++
      w.extractLsb' 10 2 ++ w.extractLsb' 3 2 ++ bit w 12 ++ 0b1100011#7) := by
  unfold quadrant1
  rcases h with h | h
  · rw [show w.extractLsb' 13 3 = 0b110#3 from h]
    rfl
  · rw [show w.extractLsb' 13 3 = 0b111#3 from h]
    rfl

/-- The word a compressed jump expands to. -/
theorem quadrant1_jump (h : rvcFunct3 w = 0b101) : quadrant1 w =
    legal (bit w 12 ++ bit w 8 ++ w.extractLsb' 9 2 ++ bit w 6 ++ bit w 7 ++ bit w 2 ++ bit w 11 ++
      w.extractLsb' 3 3 ++ sign w 9 ++ 0#4 ++ ~~~(bit w 15) ++ 0b1101111#7) := by
  unfold quadrant1
  rw [show w.extractLsb' 13 3 = 0b101#3 from h]
  rfl

theorem getLsbD_sbImm (v : BitVec 32) (k : ℕ) : (sbImm v).getLsbD k =
    (decide (k < 64) && if k = 0 then false else if k < 5 then v.getLsbD (7 + k) else if k < 11 then v.getLsbD (20 + k)
      else if k = 11 then v.getLsbD 7 else v.getLsbD 31) := by
  have hm : (bImm12 v ++ 0#1).msb = v.getLsbD 31 := by
    rw [BitVec.msb_eq_getLsbD_last, BitVec.getLsbD_append, getLsbD_bImm12]
    simp
  show ((bImm12 v ++ 0#1 : BitVec (12 + 1)).signExtend 64).getLsbD k = _
  rw [BitVec.getLsbD_signExtend, hm, BitVec.getLsbD_append, getLsbD_bImm12]
  grind

theorem getLsbD_ujImm (v : BitVec 32) (k : ℕ) : (ujImm v).getLsbD k =
    (decide (k < 64) && if k = 0 then false else if k < 11 then v.getLsbD (20 + k)
      else if k = 11 then v.getLsbD 20 else if k < 20 then v.getLsbD k else v.getLsbD 31) := by
  have hm : (jImm20 v ++ 0#1).msb = v.getLsbD 31 := by
    rw [BitVec.msb_eq_getLsbD_last, BitVec.getLsbD_append, getLsbD_jImm20]
    simp
  show ((jImm20 v ++ 0#1 : BitVec (20 + 1)).signExtend 64).getLsbD k = _
  rw [BitVec.getLsbD_signExtend, hm, BitVec.getLsbD_append, getLsbD_jImm20]
  grind

/-- The middle bit of `funct3` tells the two offsets apart. -/
theorem getElem_14 (w : BitVec 32) : w.getLsbD 14 = (rvcFunct3 w).getLsbD 1 := by
  rw [rvcFunct3, BitVec.getLsbD_extractLsb']
  rfl

theorem rvcImm_branch (h : rvcFunct3 w = 0b110 ∨ rvcFunct3 w = 0b111) :
    rvcImm w = sbImm (quadrant1 w).instr := by
  have h14 : w.getLsbD 14 = true := by
    rw [getElem_14]
    rcases h with h | h <;> rw [h] <;> rfl
  rw [quadrant1_branch h, legal, rvcImm, if_pos h14]
  apply BitVec.eq_of_getLsbD_eq
  intro k hk
  rw [getLsbD_sbImm]
  simp only [BitVec.getLsbD_append, BitVec.getLsbD_extractLsb', getLsbD_bit, getLsbD_sign]
  grind

/-- The bits of the offset of a compressed jump, in order. -/
def jumpOff (w : BitVec 32) : BitVec 11 :=
  bit w 12 ++ bit w 8 ++ w.extractLsb' 9 2 ++ bit w 6 ++ bit w 7 ++ bit w 2 ++ bit w 11 ++ w.extractLsb' 3 3

/-- The offset of a compressed jump is that field with its sign. -/
theorem signExtend_jumpOff : ∀ (s a : BitVec 1) (b : BitVec 2) (c d e f : BitVec 1) (g : BitVec 3),
    (s.signExtend 53 ++ a ++ b ++ c ++ d ++ e ++ f ++ g ++ 0#1 : BitVec (53 + 1 + 2 + 1 + 1 + 1 + 1 + 3 + 1)) =
      (s ++ a ++ b ++ c ++ d ++ e ++ f ++ g ++ 0#1).signExtend 64 := by
  decide +kernel

theorem msb_jumpOff (w : BitVec 32) : (jumpOff w).getLsbD 10 = w.getLsbD 12 := by
  show (bit w 12 ++ bit w 8 ++ w.extractLsb' 9 2 ++ bit w 6 ++ bit w 7 ++ bit w 2 ++ bit w 11 ++
    w.extractLsb' 3 3 : BitVec (1 + 1 + 2 + 1 + 1 + 1 + 1 + 3)).getLsbD 10 = _
  simp only [BitVec.getLsbD_append, getLsbD_bit]
  simp

theorem getLsbD_rvcImm (h : w.getLsbD 14 = false) (k : ℕ) : (rvcImm w).getLsbD k =
    (decide (k < 64) && if k = 0 then false else if k < 12 then (jumpOff w).getLsbD (k - 1) else w.getLsbD 12) := by
  have hoff : rvcImm w = (jumpOff w ++ 0#1).signExtend 64 := by
    rw [rvcImm, if_neg (by rw [h]; exact Bool.false_ne_true)]
    exact signExtend_jumpOff ..
  have hm : (jumpOff w ++ 0#1).msb = w.getLsbD 12 := by
    rw [BitVec.msb_eq_getLsbD_last, BitVec.getLsbD_append, ← msb_jumpOff]
    rfl
  rw [hoff, BitVec.getLsbD_signExtend, hm, BitVec.getLsbD_append]
  grind

/-- The word a compressed jump expands to, from its immediate on. -/
theorem getLsbD_jump (w : BitVec 32) {k : ℕ} (h : 12 ≤ k) :
    (jumpOff w ++ sign w 9 ++ 0#4 ++ ~~~(bit w 15) ++ 0b1101111#7 : BitVec (11 + 9 + 4 + 1 + 7)).getLsbD k =
      if k < 21 then w.getLsbD 12 else (jumpOff w).getLsbD (k - 21) := by
  simp only [BitVec.getLsbD_append, getLsbD_sign]
  grind

theorem rvcImm_jump (h : rvcFunct3 w = 0b101) : rvcImm w = ujImm (quadrant1 w).instr := by
  have h14 : w.getLsbD 14 = false := by
    rw [getElem_14, h]
    rfl
  have hlast := msb_jumpOff w
  rw [quadrant1_jump h, legal]
  apply BitVec.eq_of_getLsbD_eq
  intro k hk
  rw [getLsbD_rvcImm h14, getLsbD_ujImm]
  change _ = (decide (k < 64) && if k = 0 then false
    else if k < 11 then (jumpOff w ++ sign w 9 ++ 0#4 ++ ~~~(bit w 15) ++ 0b1101111#7).getLsbD (20 + k)
    else if k = 11 then (jumpOff w ++ sign w 9 ++ 0#4 ++ ~~~(bit w 15) ++ 0b1101111#7).getLsbD 20
    else if k < 20 then (jumpOff w ++ sign w 9 ++ 0#4 ++ ~~~(bit w 15) ++ 0b1101111#7).getLsbD k
    else (jumpOff w ++ sign w 9 ++ 0#4 ++ ~~~(bit w 15) ++ 0b1101111#7).getLsbD 31)
  by_cases h11 : k < 11
  · rw [getLsbD_jump w (by omega : 12 ≤ 20 + k)]
    grind
  · rw [getLsbD_jump w (by omega : 12 ≤ 20), getLsbD_jump w (by omega : 12 ≤ 31)]
    by_cases h12 : 12 ≤ k
    · rw [getLsbD_jump w h12]
      grind
    · grind

/-! ### Opcodes -/

/-- The opcodes of jumps and branches. -/
def flow (o : BitVec 7) : Bool := o == Opcode.branch.bits || o == Opcode.jalr.bits || o == Opcode.jal.bits

theorem opcode_append (a : BitVec 25) (o : BitVec 7) : opcode (a ++ o) = o :=
  BitVec.extractLsb'_append_eq_right

theorem flow_append (a : BitVec 25) (o : BitVec 7) (h : flow o = false) : flow (opcode (a ++ o)) = false := by
  rwa [opcode_append]

theorem flow_quadrant0 (i : BitVec 32) : (quadrant0 i).illegal = true ∨ flow (opcode (quadrant0 i).instr) = false := by
  unfold quadrant0 legal
  split
  all_goals first | exact .inl rfl | exact .inr (flow_append _ _ (by decide))

theorem flow_miscAlu (i : BitVec 32) : (miscAlu i).illegal = true ∨ flow (opcode (miscAlu i).instr) = false := by
  unfold miscAlu aluReg legal
  split
  · exact .inr (flow_append _ _ (by decide))
  · split
    all_goals first | exact .inl rfl | exact .inr (flow_append _ _ (by decide))
  · exact .inr (flow_append _ _ (by decide))

/-- In the second quadrant, jumps and branches are those the scanner finds. -/
theorem flow_quadrant1 (i : BitVec 32) (h5 : rvcFunct3 i ≠ 0b101) (h6 : rvcFunct3 i ≠ 0b110) (h7 : rvcFunct3 i ≠ 0b111) :
    (quadrant1 i).illegal = true ∨ flow (opcode (quadrant1 i).instr) = false := by
  unfold quadrant1 legal
  split
  · exact .inr (flow_append _ _ (by decide))
  · split
    · exact .inr (flow_append _ _ (by decide))
    · exact .inl rfl
  · exact .inr (flow_append _ _ (by decide))
  · refine .inr ?_
    dsimp only
    split
    · exact flow_append _ _ (by decide)
    · exact flow_append _ _ (by decide)
  · exact flow_miscAlu i
  · next h => exact absurd h h5
  · next h0 h1 h2 h3 h4 _ =>
    exfalso
    have hall : ∀ f : BitVec 3, f = 0 ∨ f = 1 ∨ f = 2 ∨ f = 3 ∨ f = 4 ∨ f = 5 ∨ f = 6 ∨ f = 7 := by decide
    rcases hall (rvcFunct3 i) with h | h | h | h | h | h | h | h
    · exact h0 h
    · exact h1 h
    · exact h2 h
    · exact h3 h
    · exact h4 h
    · exact h5 h
    · exact h6 h
    · exact h7 h

theorem flow_quadrant2 (i : BitVec 32) (h4 : rvcFunct3 i ≠ 0b100) : flow (opcode (quadrant2 i).instr) = false := by
  unfold quadrant2 legal
  split
  · exact flow_append _ _ (by decide)
  · exact flow_append _ _ (by decide)
  · exact flow_append _ _ (by decide)
  · exact flow_append _ _ (by decide)
  · next h => exact absurd h h4
  · exact flow_append _ _ (by decide)
  · exact flow_append _ _ (by decide)
  · exact flow_append _ _ (by decide)

/-- The register jumps among `c.jr`, `c.mv`, `c.ebreak`, `c.jalr` and `c.add`. -/
theorem flow_jalrMvAdd (i : BitVec 32) (hl : (jalrMvAdd i).illegal = false)
    (h : rs2Field i ≠ 0 ∨ rdField i = 0) : flow (opcode (jalrMvAdd i).instr) = false := by
  unfold jalrMvAdd legal at hl ⊢
  by_cases h12 : bit i 12 = 0
  · rw [if_pos h12] at hl ⊢
    by_cases h2 : rs2Field i = 0
    · rw [if_pos h2] at hl
      rcases h with h | h
      · exact absurd h2 h
      · simp [h] at hl
    · rw [if_neg h2]
      exact flow_append _ _ (by decide)
  · rw [if_neg h12] at hl ⊢
    by_cases h0 : rdField i = 0 ∧ rs2Field i = 0
    · rw [if_pos h0]
      decide
    · rw [if_neg h0]
      by_cases h1 : rdField i ≠ 0 ∧ rs2Field i = 0
      · rcases h with h | h
        · exact absurd h1.2 h
        · exact absurd h h1.1
      · rw [if_neg h1]
        exact flow_append _ _ (by decide)

/-! ### What the scanner finds -/

/-- A compressed word and the one it expands to. -/
theorem instrO_of_legal (hl : illegalInstrO w = false) : instrO w = (expand w).instr := by
  rw [instrO, show (expand w).illegal = false from hl, Bool.false_and, if_neg Bool.false_ne_true]

/-- An illegal compressed instruction is none of the 32-bit ones. -/
theorem legal_of_opcode (hc : isCompressedO w = true) {o : Opcode} (h : opcode (instrO w) = o.bits) :
    illegalInstrO w = false := by
  by_contra hl
  have hill : (expand w).illegal = true := Bool.eq_true_of_not_eq_false hl
  rw [instrO, hill, hc, Bool.and_self, if_pos rfl] at h
  rw [isCompressedO_of_opcode h] at hc
  cases hc

/-- The quadrants of compressed words. -/
theorem quadrant_cases (hc : isCompressedO w = true) : quadrant w = 0b00 ∧ expand w = quadrant0 w ∨
    quadrant w = 0b01 ∧ expand w = quadrant1 w ∨ quadrant w = 0b10 ∧ expand w = quadrant2 w := by
  have hall : ∀ q : BitVec 2, q = 0 ∨ q = 1 ∨ q = 2 ∨ q = 3 := by decide
  rcases hall (quadrant w) with h | h | h | h
  · exact .inl ⟨h, by rw [expand, show w.extractLsb' 0 2 = 0b00#2 from h]; rfl⟩
  · exact .inr (.inl ⟨h, by rw [expand, show w.extractLsb' 0 2 = 0b01#2 from h]; rfl⟩)
  · exact .inr (.inr ⟨h, by rw [expand, show w.extractLsb' 0 2 = 0b10#2 from h]; rfl⟩)
  · rw [isCompressedO, show w.extractLsb' 0 2 = 0b11#2 from h] at hc
    cases hc

/-- In compressed words the scanner finds no 32-bit instruction. -/
theorem rvi_false (hc : isCompressedO w = true) :
    rviBranch w = false ∧ rviJalr w = false ∧ rviJump w = false := by
  have hne (o : Opcode) : (opcode w == o.bits) = false := by
    rw [beq_eq_false_iff_ne]
    intro h
    rw [isCompressedO_of_opcode h] at hc
    cases hc
  exact ⟨hne .branch, hne .jalr, hne .jal⟩

theorem opcode_jalrMvAdd (i : BitVec 32) (h : rs2Field i = 0 ∧ rdField i ≠ 0) :
    opcode (jalrMvAdd i).instr = Opcode.jalr.bits := by
  unfold jalrMvAdd legal
  by_cases h12 : bit i 12 = 0
  · rw [if_pos h12, if_pos h.1]
    exact opcode_append _ _
  · rw [if_neg h12, if_neg fun h0 => h.2 h0.1, if_pos ⟨h.2, h.1⟩]
    exact opcode_append _ _

/-- An `EBREAK` is scanned as the compressed call that has its bits. -/
theorem link_of_legal (i : BitVec 32) (hl : (jalrMvAdd i).illegal = false) (h2 : rs2Field i = 0) (h0 : rdField i = 0) :
    i.getLsbD 12 = true := by
  have hbit : i.getLsbD 12 = (bit i 12).getLsbD 0 := by
    rw [getLsbD_bit]
    rfl
  have hone : ∀ b : BitVec 1, b ≠ 0 → b.getLsbD 0 = true := by decide
  rw [hbit]
  refine hone _ fun h12 => ?_
  unfold jalrMvAdd at hl
  rw [if_pos h12, if_pos h2, h0] at hl
  cases hl

/-- What a legal compressed instruction expands to, and what the scanner finds. -/
structure Compressed (w : BitVec 32) : Prop where
  branch : rvcBranch w = (opcode (instrO w) == Opcode.branch.bits)
  jump : rvcJump w = (opcode (instrO w) == Opcode.jal.bits)
  register : isJalR w = true → opcode (instrO w) = Opcode.jalr.bits ∨
    flow (opcode (instrO w)) = false ∧ w.getLsbD 12 = true
  branchOff : opcode (instrO w) = Opcode.branch.bits → rvcImm w = sbImm (instrO w)
  jumpOff : opcode (instrO w) = Opcode.jal.bits → rvcImm w = ujImm (instrO w)

theorem not_flow {o : BitVec 7} (h : flow o = false) :
    (o == Opcode.branch.bits) = false ∧ (o == Opcode.jalr.bits) = false ∧ (o == Opcode.jal.bits) = false := by
  simp only [flow, Bool.or_eq_false_iff] at h
  exact ⟨h.1.1, h.1.2, h.2⟩

/-- Where neither finds a jump or a branch, they agree. -/
theorem Compressed.of_plain (h : flow (opcode (instrO w)) = false) (hb : rvcBranch w = false)
    (hj : rvcJump w = false) (hr : isJalR w = true → w.getLsbD 12 = true) : Compressed w := by
  obtain ⟨h1, -, h3⟩ := not_flow h
  refine ⟨by rw [hb, h1], by rw [hj, h3], fun hi => .inr ⟨h, hr hi⟩, fun ho => ?_, fun ho => ?_⟩
  · rw [ho] at h1
    cases h1
  · rw [ho] at h3
    cases h3

theorem compressed (hc : isCompressedO w = true) (hl : illegalInstrO w = false) : Compressed w := by
  have hi := instrO_of_legal hl
  have hill : (expand w).illegal = false := hl
  rcases quadrant_cases hc with ⟨hq, he⟩ | ⟨hq, he⟩ | ⟨hq, he⟩
  · rw [he] at hi hill
    refine .of_plain ?_ ?_ ?_ ?_
    · rw [hi]
      exact (flow_quadrant0 w).resolve_left (by rw [hill]; exact Bool.false_ne_true)
    · simp [rvcBranch, hq]
    · simp [rvcJump, hq]
    · simp [isJalR, hq]
  · rw [he] at hi hill
    have hr : isJalR w = false := by simp [isJalR, hq]
    by_cases h5 : rvcFunct3 w = 0b101
    · have ho : opcode (instrO w) = Opcode.jal.bits := by
        rw [hi, quadrant1_jump h5]
        exact opcode_append _ _
      refine ⟨?_, ?_, ?_, ?_, fun _ => ?_⟩
      · rw [ho, rvcBranch, h5]
        rfl
      · rw [ho, rvcJump, h5, hc, hq]
        rfl
      · rw [hr]
        nofun
      · rw [ho]
        nofun
      · rw [hi]
        exact rvcImm_jump h5
    · by_cases h67 : rvcFunct3 w = 0b110 ∨ rvcFunct3 w = 0b111
      · have ho : opcode (instrO w) = Opcode.branch.bits := by
          rw [hi, quadrant1_branch h67]
          exact opcode_append _ _
        refine ⟨?_, ?_, ?_, fun _ => ?_, ?_⟩
        · rw [ho, rvcBranch, hq, hc]
          rcases h67 with h | h <;> rw [h] <;> rfl
        · rw [ho, rvcJump, beq_eq_false_iff_ne.2 h5]
          rfl
        · rw [hr]
          nofun
        · rw [hi]
          exact rvcImm_branch h67
        · rw [ho]
          nofun
      · rw [not_or] at h67
        refine .of_plain ?_ ?_ ?_ ?_
        · rw [hi]
          exact (flow_quadrant1 w h5 h67.1 h67.2).resolve_left (by rw [hill]; exact Bool.false_ne_true)
        · rw [rvcBranch, beq_eq_false_iff_ne.2 h67.1, beq_eq_false_iff_ne.2 h67.2]
          rfl
        · rw [rvcJump, beq_eq_false_iff_ne.2 h5]
          rfl
        · rw [hr]
          nofun
  · rw [he] at hi hill
    have hb : rvcBranch w = false := by simp [rvcBranch, hq]
    have hj : rvcJump w = false := by simp [rvcJump, hq]
    by_cases h4 : rvcFunct3 w = 0b100
    · have hm : quadrant2 w = jalrMvAdd w := by
        unfold quadrant2
        rw [show w.extractLsb' 13 3 = 0b100#3 from h4]
        rfl
      rw [hm] at hi hill
      by_cases hreg : rs2Field w = 0 ∧ rdField w ≠ 0
      · have ho : opcode (instrO w) = Opcode.jalr.bits := by
          rw [hi]
          exact opcode_jalrMvAdd w hreg
        refine ⟨by rw [hb, ho]; rfl, by rw [hj, ho]; rfl, fun _ => .inl ho, ?_, ?_⟩
        · rw [ho]
          nofun
        · rw [ho]
          nofun
      · refine .of_plain ?_ hb hj fun hr => ?_
        · rw [hi]
          exact flow_jalrMvAdd w hill (by rwa [not_and_or, not_not] at hreg)
        · simp only [isJalR, Bool.and_eq_true, beq_iff_eq] at hr
          have h0 : rdField w = 0 := by
            by_contra h0
            exact hreg ⟨hr.1.1.2, h0⟩
          exact link_of_legal w hill hr.1.1.2 h0
    · refine .of_plain ?_ hb hj ?_
      · rw [hi]
        exact flow_quadrant2 w h4
      · rw [isJalR, beq_eq_false_iff_ne.2 h4]
        nofun

/-- The scanner finds a jump or branch `o` and nothing else, with the offset `off`. -/
structure Finds (w : BitVec 32) (branch jump : Bool) (off : BitVec 64) : Prop where
  isBranch : isBranch w = branch
  isJump : isJump w = jump
  isReturn : isReturn w = false
  isJalr : isJalr w = false
  rvc : rvcBranch w = (branch && isCompressedO w) ∧ rvcJump w = (jump && isCompressedO w)
  rvi : rviBranch w = (branch && !isCompressedO w) ∧ rviJump w = (jump && !isCompressedO w)
  offset : (if isCompressedO w then rvcImm w else rviImm w) = off

/-- The opcode of a 32-bit word decides what is found. -/
theorem finds_word {branch jump : Bool} {off : BitVec 64} (hc : isCompressedO w = false)
    (hb : rviBranch w = branch) (hj : rviJump w = jump) (hr : rviJalr w = false) (ho : rviImm w = off) :
    Finds w branch jump off := by
  obtain ⟨h1, h2, h3⟩ := rvc_false hc
  refine ⟨?_, ?_, ?_, ?_, ?_, ?_, ?_⟩
  · rw [isBranch, hb, h3, Bool.or_false]
  · rw [isJump, hj, h1, Bool.or_false]
  · simp [isReturn, rviReturn, rvcReturn, rvcJr, hr, h2]
  · simp [isJalr, rvcJalr, rvcJr, hr, h2]
  · simp [h1, h3, hc]
  · simp [hb, hj, hc]
  · rw [hc, if_neg Bool.false_ne_true, ho]

theorem finds_compressed {branch jump : Bool} {off : BitVec 64} (hc : isCompressedO w = true)
    (hb : rvcBranch w = branch) (hj : rvcJump w = jump) (hr : isJalR w = true → w.getLsbD 12 = true)
    (ho : rvcImm w = off) : Finds w branch jump off := by
  obtain ⟨h1, h2, h3⟩ := rvi_false hc
  have hjr : rvcJr w = false := by
    rw [rvcJr]
    cases hi : isJalR w with
    | false => rfl
    | true => rw [hr hi]; rfl
  refine ⟨?_, ?_, ?_, ?_, ?_, ?_, ?_⟩
  · rw [isBranch, hb, h1, Bool.false_or]
  · rw [isJump, hj, h3, Bool.false_or]
  · simp [isReturn, rviReturn, rvcReturn, h2, hjr]
  · rw [isJalr, h2, hjr, isCall, rvcCall]
    cases rvcJalr w <;> simp
  · simp [hb, hj, hc]
  · simp [h1, h3, hc]
  · rw [hc, if_pos rfl, ho]

theorem getElem_3 (w : BitVec 32) : w.getLsbD 3 = (opcode w).getLsbD 3 := by
  rw [opcode, BitVec.getLsbD_extractLsb']
  rfl

/-- A conditional branch is found as one, with the offset the decoder finds. -/
theorem scan_branch (h : opcode (instrO w) = Opcode.branch.bits) : Finds w true false (sbImm (instrO w)) := by
  cases hc : isCompressedO w with
  | false =>
    rw [instrO_of_not_compressed hc] at h ⊢
    refine finds_word hc ?_ ?_ ?_ ?_
    · rw [rviBranch, h]; rfl
    · rw [rviJump, h]; rfl
    · rw [rviJalr, h]; rfl
    · rw [rviImm, getElem_3, h]; rfl
  | true =>
    have hw := compressed hc (legal_of_opcode hc h)
    refine finds_compressed hc ?_ ?_ (fun hr => ?_) (hw.branchOff h)
    · rw [hw.branch, h]; rfl
    · rw [hw.jump, h]; rfl
    · rcases hw.register hr with ho | ho
      · rw [h] at ho
        cases ho
      · exact ho.2

/-- `JAL` and `C.J` are found as jumps, with the offset the decoder finds. -/
theorem scan_jump (h : opcode (instrO w) = Opcode.jal.bits) : Finds w false true (ujImm (instrO w)) := by
  cases hc : isCompressedO w with
  | false =>
    rw [instrO_of_not_compressed hc] at h ⊢
    refine finds_word hc ?_ ?_ ?_ ?_
    · rw [rviBranch, h]; rfl
    · rw [rviJump, h]; rfl
    · rw [rviJalr, h]; rfl
    · rw [rviImm, getElem_3, h]; rfl
  | true =>
    have hw := compressed hc (legal_of_opcode hc h)
    refine finds_compressed hc ?_ ?_ (fun hr => ?_) (hw.jumpOff h)
    · rw [hw.branch, h]; rfl
    · rw [hw.jump, h]; rfl
    · rcases hw.register hr with ho | ho
      · rw [h] at ho
        cases ho
      · exact ho.2

/-- In a legal word that is no jump or branch the scanner finds none. -/
theorem scan_plain (hl : illegalInstrO w = false) (h : flow (opcode (instrO w)) = false) :
    ∃ off, Finds w false false off := by
  obtain ⟨h1, h2, h3⟩ := not_flow h
  cases hc : isCompressedO w with
  | false =>
    rw [instrO_of_not_compressed hc] at h1 h2 h3
    exact ⟨_, finds_word hc h1 h3 h2 rfl⟩
  | true =>
    have hw := compressed hc hl
    refine ⟨_, finds_compressed hc (hw.branch.trans h1) (hw.jump.trans h3) (fun hr => ?_) rfl⟩
    rcases hw.register hr with ho | ho
    · rw [ho] at h2
      cases h2
    · exact ho.2

end Scan
end Frontend
end Ariane

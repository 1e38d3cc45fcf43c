/-
# The serial divider

`src/serdiv.sv`: a long division that starts where the first bit of the quotient can be.
The operands are aligned by their leading zeros, and a signed division is one of the
magnitudes. If dividend and divisor end up negative, both are kept as two's complements.

The alignment gives the dividend −1 no bits at all. This does no harm unless its magnitude
is divided by 1: −1 is answered with the quotient 0 and the remainder −1 (`Short.values`).
All other requests are answered as the instruction set has it, in at most `WIDTH + 1` cycles,
and the answer is kept until it is taken (`law_run`).
-/
import Mathlib.Data.Nat.Log
import Mathlib.Data.Nat.Size
import Ariane.Isa.Semantics
import Ariane.Lib.LongDivision
import Ariane.Lib.Machine

namespace Ariane
namespace Serdiv

open Lib (Machine signed LongDivision)

variable {w k : ℕ}

/-! ### The module -/

/-- `lzc` with `MODE` 1: the leading zeros. Without a one the count means nothing. -/
def lzc (x : BitVec w) : ℕ := ((List.range w).find? x.getMsbD).getD (w - 1)

inductive State
  | idle | divide | finish
deriving DecidableEq, Repr

/-- The width of `cnt_q`. -/
def cntBits (w : ℕ) : ℕ := Nat.clog 2 (w + 1)

structure Regs (w k : ℕ) where
  state : State
  opA : BitVec w
  opB : BitVec w
  res : BitVec w
  cnt : BitVec (cntBits w)
  id : BitVec k
  remSel : Bool
  compInv : Bool
  resInv : Bool
  opBZero : Bool
  divResZero : Bool
deriving DecidableEq

def reset : Regs w k := ⟨.idle, 0, 0, 0, 0, 0, false, false, false, false, false⟩

/-- A request: `id_i`, `op_a_i`, `op_b_i` and `opcode_i`. -/
structure Request (w k : ℕ) where
  id : BitVec k
  opA : BitVec w
  opB : BitVec w
  opcode : BitVec 2
deriving DecidableEq

structure In (w k : ℕ) extends Request w k where
  inVld : Bool
  flush : Bool
  outRdy : Bool

namespace Request

variable (r : Request w k)

/-- `opcode_i[0]` and `opcode_i[1]`. -/
def isSigned : Bool := r.opcode.getLsbD 0
def isRem : Bool := r.opcode.getLsbD 1

def opASign : Bool := r.opA.msb
def opBSign : Bool := r.opB.msb
def opBZero : Bool := r.opB == 0

def lzcAInput : BitVec w := if r.isSigned && r.opASign then ~~~r.opA <<< 1 else r.opA
def lzcBInput : BitVec w := if r.isSigned && r.opBSign then ~~~r.opB else r.opB

def shiftA : BitVec (cntBits w) :=
  if r.lzcAInput = 0 then BitVec.ofNat _ w else BitVec.ofNat _ (lzc r.lzcAInput)

def divShift : BitVec (cntBits w + 1) :=
  if r.lzcBInput = 0 then BitVec.ofNat _ w
  else BitVec.ofNat _ (lzc r.lzcBInput) - r.shiftA.setWidth _

/-- `op_b`. -/
def opBShifted : BitVec w := r.opB <<< r.divShift.toNat

/-- The flags that are loaded: `comp_inv_d`, `res_inv_d` and `div_res_zero_d`. -/
def compInv : Bool := r.isSigned && r.opBSign
def resInv : Bool := (!r.opBZero || r.isRem) && (r.isSigned && (r.opASign ^^ r.opBSign))
def divResZero : Bool := r.divShift.msb

end Request

section Comb

variable (s : Regs w k) (i : In w k)

/-- The main comparator. -/
def abComp : Bool :=
  (s.opA == s.opB || (s.opB.ult s.opA ^^ s.compInv)) && (s.opA != 0 || s.opBZero)

def cntZero : Bool := s.cnt == 0

/-- What the process `p_fsm` assigns. -/
structure Fsm where
  stateD : State
  inRdyO : Bool := false
  outVldO : Bool := false
  loadEn : Bool := false
  aRegEn : Bool := false
  bRegEn : Bool := false
  resRegEn : Bool := false

/-- The case on the state. -/
def stateCase : Fsm :=
  match s.state with
  | .idle =>
    if i.inVld then { stateD := .divide, aRegEn := true, bRegEn := true, loadEn := true }
    else { stateD := .idle, inRdyO := true }
  | .divide =>
    if s.divResZero then { stateD := if i.outRdy then .idle else .finish, outVldO := true }
    else
      { stateD := if cntZero s then .finish else .divide
        aRegEn := abComp s, bRegEn := true, resRegEn := true }
  | .finish => { stateD := if i.outRdy then .idle else .finish, outVldO := true }

/-- The process `p_fsm`, the flush last. -/
def fsm : Fsm :=
  if i.flush then
    { stateCase s i with
      inRdyO := false, outVldO := false, aRegEn := false, bRegEn := false, loadEn := false
      stateD := .idle }
  else stateCase s i

def pmSel : Bool := (fsm s i).loadEn && !(i.isSigned && (i.opASign ^^ i.opBSign))

def addMux : BitVec w := if (fsm s i).loadEn then i.opA else s.opB

/-- The divisor moves right, its sign behind it. -/
def bMux : BitVec w :=
  if (fsm s i).loadEn then i.opBShifted
  else (BitVec.ofBool s.compInv).setWidth w <<< (w - 1) ||| s.opB >>> 1

def addTmp : BitVec w := if (fsm s i).loadEn then 0 else s.opA

def addOut : BitVec w := if pmSel s i then addTmp s i + addMux s i else addTmp s i - addMux s i

def outMux : BitVec w := if s.remSel then s.opA else s.res

/-- `res_o`, `out_vld_o` and `in_rdy_o`. `id_o` is the register. -/
def resO : BitVec w := if s.resInv then -outMux s else outMux s
def outVldO : Bool := (fsm s i).outVldO
def inRdyO : Bool := (fsm s i).inRdyO

def next : Regs w k where
  state := (fsm s i).stateD
  opA := if (fsm s i).aRegEn then addOut s i else s.opA
  opB := if (fsm s i).bRegEn then bMux s i else s.opB
  res :=
    if (fsm s i).loadEn then 0
    else if (fsm s i).resRegEn then s.res.shiftConcat (abComp s) else s.res
  cnt := if (fsm s i).loadEn then i.divShift.setWidth _ else if cntZero s then s.cnt else s.cnt - 1
  id := if (fsm s i).loadEn then i.id else s.id
  remSel := if (fsm s i).loadEn then i.isRem else s.remSel
  compInv := if (fsm s i).loadEn then i.compInv else s.compInv
  resInv := if (fsm s i).loadEn then i.resInv else s.resInv
  opBZero := if (fsm s i).loadEn then i.opBZero else s.opBZero
  divResZero := if (fsm s i).loadEn then i.divResZero else s.divResZero

end Comb

/-! ### Lengths -/

theorem size_add_lzc {x : BitVec w} (h : x ≠ 0) : Nat.size x.toNat + lzc x = w := by
  have hex : ∃ m, m < w ∧ x.getMsbD m = true := by
    by_contra hno
    apply h
    apply BitVec.eq_of_getMsbD_eq
    intro m hm
    have hzero : (0 : BitVec w).getMsbD m = false := BitVec.getMsbD_zero
    rw [hzero, ← Bool.not_eq_true]
    exact fun hx => hno ⟨m, hm, hx⟩
  cases hf : (List.range w).find? x.getMsbD with
  | none =>
    obtain ⟨m, hm, hx⟩ := hex
    exact absurd hx (List.find?_eq_none.1 hf m (List.mem_range.2 hm))
  | some m =>
    obtain ⟨hx, hm, hbefore⟩ := List.find?_range_eq_some.1 hf
    rw [List.mem_range] at hm
    have hlzc : lzc x = m := by rw [lzc, hf, Option.getD_some]
    rw [BitVec.getMsbD_eq_getLsbD, Bool.and_eq_true] at hx
    have hlo : w - 1 - m < Nat.size x.toNat := Nat.lt_size.2 (Nat.ge_two_pow_of_testBit hx.2)
    have hhi : Nat.size x.toNat ≤ w - m := by
      rw [Nat.size_le]
      apply Nat.lt_pow_two_of_testBit
      intro j hj
      by_cases hjw : j < w
      · have hb := hbefore (w - 1 - j) (by omega)
        rw [BitVec.getMsbD_eq_getLsbD] at hb
        have hpos : w - 1 - (w - 1 - j) = j := by omega
        have hlt : w - 1 - j < w := by omega
        rw [BitVec.testBit_toNat]
        simpa [hpos, hlt] using hb
      · exact Nat.testBit_lt_two_pow (lt_of_lt_of_le x.isLt (Nat.pow_le_pow_right (by omega) (by omega)))
    omega

/-- The width of the counter is enough for the shift. -/
theorem lt_two_pow_cntBits (w : ℕ) : w < 2 ^ cntBits w := Nat.le_pow_clog (by omega) (w + 1)

namespace Request

variable (r : Request w k)

/-- The bits that the alignment sees of the dividend and of the divisor. -/
def sizeA : ℕ := Nat.size r.lzcAInput.toNat
def sizeB : ℕ := Nat.size r.lzcBInput.toNat

theorem sizeA_le : r.sizeA ≤ w := Nat.size_le.2 r.lzcAInput.isLt

theorem toNat_shiftA : r.shiftA.toNat = w - r.sizeA := by
  have hw := lt_two_pow_cntBits w
  have hsize : r.shiftA = BitVec.ofNat _ (w - r.sizeA) := by
    unfold shiftA sizeA
    by_cases h : r.lzcAInput = 0
    · rw [if_pos h, h]
      simp
    · have := size_add_lzc h
      rw [if_neg h]
      congr 1
      omega
  rw [hsize, BitVec.toNat_ofNat, Nat.mod_eq_of_lt (by omega)]

/-- The divisor is moved by the difference of the lengths, if there is one. -/
theorem divShift_cases (h : r.lzcBInput ≠ 0) : (r.sizeA < r.sizeB → r.divResZero = true) ∧
    (r.sizeB ≤ r.sizeA → r.divResZero = false ∧ r.divShift.toNat = r.sizeA - r.sizeB) := by
  have hw := lt_two_pow_cntBits w
  have hA := r.sizeA_le
  have hsum : r.sizeB + lzc r.lzcBInput = w := size_add_lzc h
  have hpow : 2 ^ (cntBits w + 1) = 2 * 2 ^ cntBits w := by rw [pow_succ, Nat.mul_comm]
  have hval : r.divShift.toNat =
      (2 ^ (cntBits w + 1) - (w - r.sizeA) + (w - r.sizeB)) % 2 ^ (cntBits w + 1) := by
    have hlzc : lzc r.lzcBInput = w - r.sizeB := by omega
    rw [divShift, if_neg h, BitVec.toNat_sub, BitVec.toNat_setWidth, toNat_shiftA, BitVec.toNat_ofNat, hlzc,
      Nat.mod_eq_of_lt (show w - r.sizeA < 2 ^ (cntBits w + 1) by omega),
      Nat.mod_eq_of_lt (show w - r.sizeB < 2 ^ (cntBits w + 1) by omega)]
  have hmsb : r.divResZero = decide (2 ^ cntBits w ≤ r.divShift.toNat) := BitVec.msb_eq_decide _
  constructor
  · intro hlt
    rw [hmsb, hval, Nat.mod_eq_of_lt (by omega), decide_eq_true_eq]
    omega
  · intro hle
    have hdiff : r.divShift.toNat = r.sizeA - r.sizeB := by
      rw [hval, Nat.mod_eq_sub_mod (by omega), Nat.mod_eq_of_lt (by omega)]
      omega
    refine ⟨?_, hdiff⟩
    rw [hmsb, hdiff, decide_eq_false_iff_not]
    omega

/-- Nothing to align by: the whole width. -/
theorem divShift_of_zero (h : r.lzcBInput = 0) : r.divResZero = false ∧ r.divShift.toNat = w := by
  have hw := lt_two_pow_cntBits w
  have hpow : 2 ^ (cntBits w + 1) = 2 * 2 ^ cntBits w := by rw [pow_succ, Nat.mul_comm]
  have hval : r.divShift.toNat = w := by
    rw [divShift, if_pos h, BitVec.toNat_ofNat, Nat.mod_eq_of_lt (by omega)]
  refine ⟨?_, hval⟩
  rw [divResZero, BitVec.msb_eq_decide, Nat.add_sub_cancel, hval, decide_eq_false_iff_not]
  omega

/-! ### Magnitudes -/

/-- The dividend and the divisor without their signs. -/
def magA : ℕ := if r.isSigned && r.opASign then (-r.opA).toNat else r.opA.toNat
def magB : ℕ := if r.isSigned && r.opBSign then (-r.opB).toNat else r.opB.toNat

/-- A signed division of −1 by 1. -/
def Short : Prop := r.isSigned = true ∧ r.opA.toInt = -1 ∧ r.opB.toInt = 1

instance : Decidable r.Short := inferInstanceAs (Decidable (_ ∧ _))

theorem toNat_neg_of_msb {x : BitVec w} (h : x.msb = true) :
    (-x).toNat = 2 ^ w - x.toNat ∧ 2 ^ w ≤ 2 * x.toNat ∧ 0 < w := by
  rw [BitVec.msb_eq_decide, decide_eq_true_eq] at h
  have hx := x.isLt
  have hw : 0 < w := by
    rcases Nat.eq_zero_or_pos w with rfl | hw
    · simp at h hx
      omega
    · exact hw
  have hpow : 2 ^ w = 2 * 2 ^ (w - 1) := by rw [← pow_succ', Nat.sub_add_cancel hw]
  rw [BitVec.toNat_neg, Nat.mod_eq_of_lt (by omega)]
  exact ⟨rfl, by omega, hw⟩

theorem signed_mag (neg : Bool) (x : BitVec w) : signed w neg (if neg then (-x).toNat else x.toNat) = x := by
  cases neg with
  | false => exact (BitVec.ofNat_toNat w x).trans (BitVec.setWidth_eq x)
  | true =>
    have h : BitVec.ofNat w (-x).toNat = -x := (BitVec.ofNat_toNat w (-x)).trans (BitVec.setWidth_eq (-x))
    simp only [signed, if_true]
    rw [h, BitVec.neg_neg]

/-- The dividend is less than the power of two it is aligned by, unless it is −1. -/
theorem magA_lt (h : ¬(r.isSigned && r.opASign) = true ∨ r.magA ≠ 1) : r.magA < 2 ^ r.sizeA := by
  have hlt := Nat.lt_size_self r.lzcAInput.toNat
  unfold sizeA magA lzcAInput at *
  cases hs : r.isSigned && r.opASign with
  | false =>
    rw [hs] at hlt
    exact hlt
  | true =>
    rw [hs] at hlt h
    have hmsb : r.opA.msb = true := (Bool.and_eq_true_iff.1 hs).2
    obtain ⟨hneg, hbig, -⟩ := toNat_neg_of_msb hmsb
    have hx := r.opA.isLt
    simp only [if_true, BitVec.toNat_shiftLeft, BitVec.toNat_not, Nat.shiftLeft_eq, pow_one] at hlt h ⊢
    rw [Nat.mod_eq_of_lt (by omega)] at hlt ⊢
    rw [hneg] at h ⊢
    have h1 : 2 ^ w - r.opA.toNat ≠ 1 := h.resolve_left fun hn => hn trivial
    omega

/-- −1 has no length. -/
theorem sizeA_eq_zero (hs : (r.isSigned && r.opASign) = true) (h : r.magA = 1) : r.sizeA = 0 := by
  have hmsb : r.opA.msb = true := (Bool.and_eq_true_iff.1 hs).2
  obtain ⟨hneg, hbig, -⟩ := toNat_neg_of_msb hmsb
  have hx := r.opA.isLt
  rw [magA, if_pos hs, hneg] at h
  have hnot : (~~~r.opA).toNat = 0 := by
    rw [BitVec.toNat_not]
    omega
  rw [sizeA, lzcAInput, if_pos hs, BitVec.toNat_shiftLeft, hnot]
  simp

/-- The length of the divisor, which is one less if it is negative. -/
theorem magB_bounds (h : r.lzcBInput ≠ 0) : 0 < r.sizeB ∧ 2 ^ (r.sizeB - 1) ≤ r.magB ∧
    r.magB ≤ 2 ^ r.sizeB ∧ (r.compInv = false → r.magB < 2 ^ r.sizeB) ∧ (r.compInv = true → 1 < r.magB) := by
  have hne : r.lzcBInput.toNat ≠ 0 := fun h0 => h (BitVec.eq_of_toNat_eq h0)
  have hpos : 0 < r.sizeB := Nat.size_pos.2 (Nat.pos_of_ne_zero hne)
  have hlt := Nat.lt_size_self r.lzcBInput.toNat
  have hle : 2 ^ (r.sizeB - 1) ≤ r.lzcBInput.toNat := Nat.lt_size.1 (Nat.sub_lt hpos Nat.one_pos)
  refine ⟨hpos, ?_⟩
  rw [show Nat.size r.lzcBInput.toNat = r.sizeB from rfl] at hlt
  unfold magB compInv
  cases hs : r.isSigned && r.opBSign with
  | false =>
    have hin : r.lzcBInput = r.opB := by rw [lzcBInput, hs]; rfl
    rw [hin] at hlt hle
    exact ⟨hle, hlt.le, fun _ => hlt, nofun⟩
  | true =>
    have hin : r.lzcBInput = ~~~r.opB := by rw [lzcBInput, hs]; rfl
    have hmsb : r.opB.msb = true := (Bool.and_eq_true_iff.1 hs).2
    obtain ⟨hneg, hbig, -⟩ := toNat_neg_of_msb hmsb
    have hx := r.opB.isLt
    rw [hin, BitVec.toNat_not] at hlt hle hne
    rw [if_pos rfl, hneg]
    exact ⟨by omega, by omega, nofun, fun _ => by omega⟩

/-- Where the division starts: the first bit of the quotient is the one of the shift. -/
theorem aligned (hb : r.opB ≠ 0) (hz : r.divResZero = false) : r.divShift.toNat ≤ w ∧ 0 < r.magB ∧
    r.magA < r.magB * 2 ^ (r.divShift.toNat + 1) ∧ r.magB * 2 ^ r.divShift.toNat ≤ 2 ^ w ∧
    (r.compInv = false → r.magB * 2 ^ r.divShift.toNat < 2 ^ w) := by
  have hA : r.magA < 2 ^ w := by
    unfold magA
    split_ifs <;> exact BitVec.isLt _
  by_cases hin : r.lzcBInput = 0
  · -- the divisor is −1
    have hs : (r.isSigned && r.opBSign) = true := by
      by_contra hs
      rw [lzcBInput, if_neg hs] at hin
      exact hb hin
    obtain ⟨hneg, -, -⟩ := toNat_neg_of_msb (Bool.and_eq_true_iff.1 hs).2
    have hx := r.opB.isLt
    have hone : r.magB = 1 := by
      rw [lzcBInput, if_pos hs] at hin
      have h0 := congrArg BitVec.toNat hin
      rw [BitVec.toNat_not] at h0
      rw [magB, if_pos hs, hneg]
      simp at h0
      omega
    obtain ⟨-, hn⟩ := r.divShift_of_zero hin
    have hcomp : r.compInv = true := hs
    rw [hone, hn, hcomp, Nat.one_mul, Nat.one_mul, pow_succ]
    exact ⟨le_rfl, Nat.one_pos, by omega, le_rfl, nofun⟩
  · obtain ⟨hlt, hle⟩ := r.divShift_cases hin
    obtain ⟨hpos, hlow, hhigh, hstrict, -⟩ := r.magB_bounds hin
    have hsize : r.sizeB ≤ r.sizeA := by
      by_contra hn
      rw [hlt (by omega)] at hz
      cases hz
    obtain ⟨-, hn⟩ := hle hsize
    have hmagA : r.magA < 2 ^ r.sizeA := by
      refine r.magA_lt ?_
      by_contra hboth
      rw [not_or, not_not, not_not] at hboth
      have h0 := r.sizeA_eq_zero hboth.1 hboth.2
      omega
    have hA := r.sizeA_le
    have hsum : r.sizeB + (r.sizeA - r.sizeB) = r.sizeA := by omega
    have hsum' : r.sizeB - 1 + (r.sizeA - r.sizeB + 1) = r.sizeA := by omega
    have hw : 2 ^ r.sizeA ≤ 2 ^ w := Nat.pow_le_pow_right (by omega) hA
    rw [hn]
    refine ⟨by omega, lt_of_lt_of_le (Nat.two_pow_pos _) hlow, ?_, ?_, fun hc => ?_⟩
    · calc r.magA < 2 ^ r.sizeA := hmagA
        _ = 2 ^ (r.sizeB - 1) * 2 ^ (r.sizeA - r.sizeB + 1) := by rw [← pow_add, hsum']
        _ ≤ r.magB * 2 ^ (r.sizeA - r.sizeB + 1) := Nat.mul_le_mul_right _ hlow
    · calc r.magB * 2 ^ (r.sizeA - r.sizeB) ≤ 2 ^ r.sizeB * 2 ^ (r.sizeA - r.sizeB) :=
          Nat.mul_le_mul_right _ hhigh
        _ = 2 ^ r.sizeA := by rw [← pow_add, hsum]
        _ ≤ 2 ^ w := hw
    · calc r.magB * 2 ^ (r.sizeA - r.sizeB) < 2 ^ r.sizeB * 2 ^ (r.sizeA - r.sizeB) :=
          Nat.mul_lt_mul_of_pos_right (hstrict hc) (Nat.two_pow_pos _)
        _ = 2 ^ r.sizeA := by rw [← pow_add, hsum]
        _ ≤ 2 ^ w := hw

/-- The integers of the operands. -/
theorem toInt_of_sign (neg : Bool) (x : BitVec w) (h : neg = x.msb) :
    x.toInt = if neg then -((-x).toNat : ℤ) else (x.toNat : ℤ) := by
  rw [BitVec.toInt_eq_msb_cond, ← h]
  cases hneg : neg with
  | false => rfl
  | true =>
    obtain ⟨hx, -, -⟩ := toNat_neg_of_msb (h.symm.trans hneg)
    have hlt := x.isLt
    rw [if_pos rfl, if_pos rfl, hx]
    push_cast [Nat.cast_sub hlt.le]
    ring

/-- The division that the alignment cuts short has a magnitude below that of the divisor,
or it is that of −1 by 1. -/
theorem divResZero_iff : r.divResZero = true → (r.magA < r.magB ↔ ¬r.Short) := by
  intro hz
  have hin : r.lzcBInput ≠ 0 := by
    intro hin
    rw [(r.divShift_of_zero hin).1] at hz
    cases hz
  obtain ⟨-, hle⟩ := r.divShift_cases hin
  obtain ⟨hpos, hlow, -, -, hcomp⟩ := r.magB_bounds hin
  have hsize : r.sizeA < r.sizeB := by
    by_contra hn
    rw [(hle (by omega)).1] at hz
    cases hz
  constructor
  · rintro hlt ⟨hs, ha, hb⟩
    have hA := toInt_of_sign _ r.opA rfl
    have hB := toInt_of_sign _ r.opB rfl
    unfold magA magB opASign opBSign at hlt
    rw [hs, Bool.true_and, Bool.true_and] at hlt
    rw [ha] at hA
    rw [hb] at hB
    split_ifs at hlt hA hB <;> omega
  · intro hgood
    by_cases hone : (r.isSigned && r.opASign) = true ∧ r.magA = 1
    · obtain ⟨hs, hone⟩ := hone
      obtain ⟨hsig, hsa⟩ := Bool.and_eq_true_iff.1 hs
      have hB0 : 0 < r.magB := lt_of_lt_of_le (Nat.two_pow_pos _) hlow
      by_contra hn
      have hB1 : r.magB = 1 := by omega
      refine hgood ⟨hsig, ?_, ?_⟩
      · have hA := toInt_of_sign true r.opA hsa.symm
        rw [magA, if_pos hs] at hone
        rw [hA, if_pos rfl, hone]
        rfl
      · have hc : (r.isSigned && r.opBSign) = false := by
          rw [Bool.eq_false_iff]
          exact fun hc => absurd (hcomp hc) (by omega)
        have hsb : r.opB.msb = false := by
          rw [hsig, Bool.true_and] at hc
          exact hc
        rw [magB, hc] at hB1
        have hB := toInt_of_sign false r.opB hsb.symm
        rw [hB]
        simp only [Bool.false_eq_true, if_false] at hB1 ⊢
        rw [hB1]
        rfl
    · have hA : r.magA < 2 ^ r.sizeA := r.magA_lt (by tauto)
      have hpow : 2 ^ r.sizeA ≤ 2 ^ (r.sizeB - 1) := Nat.pow_le_pow_right (by omega) (by omega)
      omega

/-- The magnitudes of that division, which is cut short. -/
theorem Short.cut (h : r.Short) : r.divResZero = true ∧ r.opB ≠ 0 ∧ r.magA = 1 ∧ r.magB = 1 ∧
    r.isSigned = true ∧ r.opASign = true ∧ r.opBSign = false ∧ 0 < w := by
  obtain ⟨hs, ha, hb⟩ := h
  have hA := toInt_of_sign _ r.opA rfl
  have hB := toInt_of_sign _ r.opB rfl
  rw [ha] at hA
  rw [hb] at hB
  have hsa : r.opA.msb = true := by
    by_contra hn
    rw [Bool.not_eq_true] at hn
    rw [hn, if_neg Bool.false_ne_true] at hA
    omega
  have hsb : r.opB.msb = false := by
    rw [Bool.eq_false_iff]
    intro hn
    rw [hn, if_pos rfl] at hB
    omega
  rw [hsa, if_pos rfl] at hA
  rw [hsb, if_neg Bool.false_ne_true] at hB
  have hsig : (r.isSigned && r.opASign) = true := by rw [hs, opASign, hsa]; rfl
  have hcomp : r.compInv = false := by rw [compInv, opBSign, hsb, Bool.and_false]
  have hmag : r.magA = 1 := by
    rw [magA, if_pos hsig]
    omega
  have hb0 : r.opB ≠ 0 := by
    intro h0
    rw [h0] at hB
    simp at hB
  have hin : r.lzcBInput = r.opB := by
    rw [lzcBInput, show (r.isSigned && r.opBSign) = false from hcomp]
    rfl
  have hin0 : r.lzcBInput ≠ 0 := by rwa [hin]
  have hpos := (r.magB_bounds hin0).1
  have hzero := r.sizeA_eq_zero hsig hmag
  have hmagB : r.magB = 1 := by
    rw [magB, show (r.isSigned && r.opBSign) = false from hcomp, if_neg Bool.false_ne_true]
    omega
  exact ⟨(r.divShift_cases hin0).1 (by omega), hb0, hmag, hmagB, hs, hsa, hsb, (toNat_neg_of_msb hsa).2.2⟩

/-! ### Answers -/

/-- What the instruction set prescribes. -/
def result : BitVec w :=
  if r.isRem then Isa.remainder r.isSigned r.opA r.opB else Isa.quotient r.isSigned r.opA r.opB

/-- The registers at the end of the division. -/
def finalRes : BitVec w :=
  if r.divResZero then 0 else if r.opB = 0 then BitVec.allOnes w else BitVec.ofNat w (r.magA / r.magB)
def finalA : BitVec w :=
  if r.divResZero = true ∨ r.opB = 0 then signed w r.compInv r.magA
  else signed w r.compInv (r.magA % r.magB)

/-- What is made of them. -/
def answer : BitVec w :=
  let m := if r.isRem then r.finalA else r.finalRes
  if r.resInv then -m else m

theorem answer_of_zero (h : r.opB = 0) : r.answer = r.result := by
  have hneg : r.opB.msb = false := by rw [h]; exact BitVec.msb_zero
  have hcomp : r.compInv = false := by rw [compInv, opBSign, hneg, Bool.and_false]
  have hin : r.lzcBInput = 0 := by rw [lzcBInput, show (r.isSigned && r.opBSign) = false from hcomp, h]; rfl
  have hz := (r.divShift_of_zero hin).1
  have hbz : r.opBZero = true := beq_iff_eq.2 h
  have hinv : r.resInv = (r.isRem && (r.isSigned && r.opASign)) := by
    rw [resInv, hbz, opBSign, hneg, Bool.xor_false]
    rfl
  have hfinal : r.finalA = signed w false r.magA := by rw [finalA, if_pos (Or.inr h), hcomp]
  have hres : r.finalRes = BitVec.allOnes w := by rw [finalRes, hz, if_neg Bool.false_ne_true, if_pos h]
  have hexp : r.result = if r.isRem then r.opA else BitVec.allOnes w := by
    rw [result, Isa.remainder, Isa.quotient, if_pos h, if_pos h]
  rw [answer, hfinal, hres, hexp, hinv]
  cases r.isRem with
  | false => rfl
  | true =>
    have hmag : signed w (r.isSigned && r.opASign) r.magA = r.opA := signed_mag _ _
    show (if (r.isSigned && r.opASign) = true then -signed w false r.magA else signed w false r.magA) = r.opA
    rw [← hmag]
    cases hs : r.isSigned && r.opASign <;> rfl

/-- The magnitudes of quotient and remainder with their signs. -/
theorem result_eq (h : r.opB ≠ 0) : r.result =
    if r.isRem then signed w (r.isSigned && r.opASign) (r.magA % r.magB)
    else signed w (r.isSigned && (r.opASign ^^ r.opBSign)) (r.magA / r.magB) := by
  have hA := toInt_of_sign _ r.opA rfl
  have hB := toInt_of_sign _ r.opB rfl
  rw [result, Isa.remainder, Isa.quotient, if_neg h, if_neg h]
  unfold magA magB opASign opBSign
  cases hs : r.isSigned with
  | false => rfl
  | true =>
    rw [hA, hB]
    have hdiv (a b : ℕ) : BitVec.ofInt w ((a : ℤ) / b) = BitVec.ofNat w (a / b) := by
      rw [← Int.natCast_ediv, BitVec.ofInt_natCast]
    have hmod (a b : ℕ) : BitVec.ofInt w ((a : ℤ).tmod b) = BitVec.ofNat w (a % b) := by
      rw [← Int.ofNat_tmod, BitVec.ofInt_natCast]
    generalize (-r.opA).toNat = na
    generalize (-r.opB).toNat = nb
    cases r.opA.msb <;> cases r.opB.msb <;> simp [signed, BitVec.ofInt_neg, hdiv, hmod]

theorem answer_of_lt (h : r.opB ≠ 0) (hz : r.divResZero = false ∨ r.magA < r.magB) :
    r.answer = r.result := by
  have hbz : r.opBZero = false := beq_eq_false_iff_ne.2 h
  have hres : r.finalRes = BitVec.ofNat w (r.magA / r.magB) := by
    unfold finalRes
    by_cases hr : r.divResZero = true
    · rw [if_pos hr, Nat.div_eq_of_lt (hz.resolve_left (by rw [hr]; decide))]
      rfl
    · rw [if_neg hr, if_neg h]
  have ha : r.finalA = signed w r.compInv (r.magA % r.magB) := by
    unfold finalA
    by_cases hr : r.divResZero = true
    · rw [if_pos (.inl hr), Nat.mod_eq_of_lt (hz.resolve_left (by rw [hr]; decide))]
    · rw [if_neg (by tauto)]
  have hinv : r.resInv = (r.isSigned && (r.opASign ^^ r.opBSign)) := by rw [resInv, hbz]; rfl
  rw [answer, result_eq r h, hres, ha, hinv, compInv]
  cases r.isRem <;> cases r.isSigned <;> cases r.opASign <;> cases r.opBSign <;> simp [signed]

/-- −1 divided by 1 is taken for a dividend that is less than its divisor. -/
theorem Short.values (h : r.Short) : r.answer = (if r.isRem then BitVec.allOnes w else 0) ∧
    r.result = (if r.isRem then 0 else BitVec.allOnes w) ∧ 0 < w := by
  obtain ⟨hz, hb, hA, hB, hs, hsa, hsb, hw⟩ := h.cut
  have hbz : r.opBZero = false := beq_eq_false_iff_ne.2 hb
  have hone : -BitVec.ofNat w 1 = BitVec.allOnes w := BitVec.neg_one_eq_allOnes
  have hans : r.answer = if r.isRem then BitVec.allOnes w else 0 := by
    rw [answer, finalA, finalRes, resInv, compInv, hz, hbz, hA, hs, hsa, hsb]
    cases r.isRem <;> simp [signed, hone]
  have hres : r.result = if r.isRem then 0 else BitVec.allOnes w := by
    rw [result_eq r hb, hA, hB, hs, hsa, hsb]
    cases r.isRem <;> simp [signed, hone]
  exact ⟨hans, hres, hw⟩

/-- The answer is the one prescribed unless it is that of −1 by 1. -/
theorem answer_iff : r.answer = r.result ↔ ¬r.Short := by
  constructor
  · intro heq hshort
    obtain ⟨hans, hres, hw⟩ := hshort.values
    have hne : BitVec.allOnes w ≠ 0 := by
      intro h0
      have := congrArg BitVec.toNat h0
      have hpow : 2 ≤ 2 ^ w := Nat.pow_le_pow_right (show 0 < 2 by omega) hw
      rw [BitVec.toNat_allOnes, show (0 : BitVec w).toNat = 0 from Nat.zero_mod _] at this
      omega
    rw [hans, hres] at heq
    cases hr : r.isRem <;> rw [hr] at heq
    · exact hne heq.symm
    · exact hne heq
  · intro hgood
    by_cases hb : r.opB = 0
    · exact r.answer_of_zero hb
    · refine r.answer_of_lt hb ?_
      cases hz : r.divResZero with
      | false => exact .inl rfl
      | true => exact .inr ((r.divResZero_iff hz).2 hgood)

end Request

/-! ### The request under way -/

/-- A request is accepted: `load_en`. -/
def accepts (s : Regs w k) (i : In w k) : Bool := s.state == .idle && i.inVld && !i.flush

/-- The answer is handed over. -/
def taken (s : Regs w k) (i : In w k) : Bool := outVldO s i && i.outRdy

/-- The divider with the request it has accepted and not answered, and the cycles it has spent
on it. -/
structure Watched (w k : ℕ) where
  regs : Regs w k
  pending : Option (Request w k)
  age : ℕ

def start : Watched w k := ⟨reset, none, 0⟩

def watched (w k : ℕ) : Machine (Watched w k) (In w k) where
  init u := u = start
  next u i :=
    { regs := next u.regs i
      pending :=
        if i.flush then none
        else if accepts u.regs i then some i.toRequest
        else if taken u.regs i then none
        else u.pending
      age := if accepts u.regs i then 0 else u.age + 1 }

/-- What is asked of the divider in a cycle. -/
structure Answers (u : Watched w k) (i : In w k) : Prop where
  /-- What it presents is the result of the request under way, with its id. -/
  right : outVldO u.regs i = true → ∃ r, u.pending = some r ∧ u.regs.id = r.id ∧ resO u.regs = r.result
  /-- It presents it after `WIDTH + 1` cycles at the latest, -/
  due : u.pending.isSome = true → i.flush = false → w < u.age → outVldO u.regs i = true
  /-- and until it is taken. -/
  held : outVldO u.regs i = true → i.outRdy = false →
    ∀ j : In w k, j.flush = false → outVldO (next u.regs i) j = true
  /-- Without a request it is ready for one. -/
  free : u.pending = none ↔ u.regs.state = .idle

/-- What is asked whatever comes in. -/
def Law (u : Watched w k) : Prop := ∀ i, Answers u i

/-! ### Edges -/

section Edges

variable (s : Regs w k) (i : In w k)

theorem next_flush (h : i.flush = true) : (next s i).state = .idle := by
  simp [next, fsm, h]

theorem next_idle (hs : s.state = .idle) (h : accepts s i = false) : (next s i).state = .idle := by
  by_cases hf : i.flush = true
  · exact next_flush s i hf
  · have hv : i.inVld = false := by simpa [accepts, hs, hf] using h
    simp [next, fsm, stateCase, hs, hf, hv]

theorem next_accepts (h : accepts s i = true) : next s i =
    { state := .divide
      opA := if !(i.isSigned && (i.opASign ^^ i.opBSign)) then i.opA else -i.opA
      opB := i.opBShifted
      res := 0
      cnt := i.divShift.setWidth _
      id := i.id, remSel := i.isRem, compInv := i.compInv, resInv := i.resInv
      opBZero := i.opBZero, divResZero := i.divResZero } := by
  simp only [accepts, Bool.and_eq_true, beq_iff_eq, Bool.not_eq_true'] at h
  obtain ⟨⟨hs, hv⟩, hf⟩ := h
  simp [next, fsm, stateCase, hs, hv, hf, addOut, pmSel, addTmp, addMux, bMux]

/-- A step of the division. -/
theorem next_divide (hs : s.state = .divide) (hz : s.divResZero = false) (hf : i.flush = false) :
    next s i =
      { s with
        state := if cntZero s then .finish else .divide
        opA := if abComp s then s.opA - s.opB else s.opA
        opB := (BitVec.ofBool s.compInv).setWidth w <<< (w - 1) ||| s.opB >>> 1
        res := s.res.shiftConcat (abComp s)
        cnt := if cntZero s then s.cnt else s.cnt - 1 } := by
  simp [next, fsm, stateCase, hs, hz, hf, addOut, pmSel, addTmp, addMux, bMux]

/-- The answer waits to be taken. -/
def Waits : Prop := s.state = .finish ∨ s.state = .divide ∧ s.divResZero = true

theorem next_waits (hs : Waits s) (hf : i.flush = false) : next s i =
    { s with
      state := if i.outRdy then .idle else .finish
      cnt := if cntZero s then s.cnt else s.cnt - 1 } := by
  rcases hs with hs | ⟨hs, hz⟩
  · simp [next, fsm, stateCase, hs, hf]
  · simp [next, fsm, stateCase, hs, hz, hf]

theorem outVldO_eq : outVldO s i = true ↔ Waits s ∧ i.flush = false := by
  unfold outVldO fsm stateCase Waits
  cases i.flush <;> cases s.state <;> cases s.divResZero <;> cases i.inVld <;> simp

end Edges

/-! ### The course of a request -/

/-- The flags of a request. -/
structure Flags (r : Request w k) (s : Regs w k) : Prop where
  id : s.id = r.id
  remSel : s.remSel = r.isRem
  compInv : s.compInv = r.compInv
  resInv : s.resInv = r.resInv
  opBZero : s.opBZero = r.opBZero
  divResZero : s.divResZero = r.divResZero

/-- The division of the magnitudes, with the divisor still to be moved back by the counter. -/
structure Running (r : Request w k) (s : Regs w k) (q m : ℕ) : Prop where
  opB_ne : r.opB ≠ 0
  quot : s.res = BitVec.ofNat w q
  rem : s.opA = signed w r.compInv m
  divisor : s.opB = signed w r.compInv (r.magB * 2 ^ s.cnt.toNat)
  pos : 0 < r.magB
  le : r.magB * 2 ^ s.cnt.toNat ≤ 2 ^ w
  lt : r.compInv = false → r.magB * 2 ^ s.cnt.toNat < 2 ^ w
  division : LongDivision r.magA (r.magB * 2 ^ (s.cnt.toNat + 1)) q m

/-- A division by zero: a one is shifted in for every cycle. -/
structure ByZero (r : Request w k) (s : Regs w k) : Prop where
  zero : r.opB = 0
  quot : s.res = BitVec.ofNat w (2 ^ (w - s.cnt.toNat) - 1)
  rem : s.opA = signed w r.compInv r.magA
  divisor : s.opB = 0

/-- Where a request is. -/
inductive Phase (r : Request w k) (s : Regs w k) (age : ℕ) : Prop
  | running (q m : ℕ) (state : s.state = .divide) (divResZero : r.divResZero = false)
      (time : age + s.cnt.toNat ≤ w) (run : Running r s q m)
  | byZero (state : s.state = .divide) (divResZero : r.divResZero = false)
      (time : age + s.cnt.toNat ≤ w) (run : ByZero r s)
  | done (state : Waits s) (opA : s.opA = r.finalA) (res : s.res = r.finalRes)

/-- The invariant. -/
def Inv (u : Watched w k) : Prop :=
  match u.pending with
  | none => u.regs.state = .idle
  | some r => Flags r u.regs ∧ Phase r u.regs u.age

namespace Request

variable (r : Request w k)

theorem magA_lt_two_pow : r.magA < 2 ^ w := by
  unfold magA
  split_ifs <;> exact BitVec.isLt _

/-- The dividend is loaded with the sign of the divisor. -/
theorem signed_magA : (if !(r.isSigned && (r.opASign ^^ r.opBSign)) then r.opA else -r.opA) =
    signed w r.compInv r.magA := by
  have h : signed w (r.isSigned && r.opASign) r.magA = r.opA := signed_mag _ _
  rw [← h, compInv]
  cases r.isSigned <;> cases r.opASign <;> cases r.opBSign <;> simp [signed]

theorem opBShifted_eq : r.opBShifted = signed w r.compInv (r.magB * 2 ^ r.divShift.toNat) := by
  have h : signed w (r.isSigned && r.opBSign) r.magB = r.opB := signed_mag _ _
  rw [← Lib.signed_shiftLeft, compInv, h, opBShifted]

theorem compInv_of_zero (h : r.opB = 0) : r.compInv = false ∧ r.lzcBInput = 0 := by
  have hneg : r.opB.msb = false := by rw [h]; exact BitVec.msb_zero
  have hcomp : r.compInv = false := by rw [compInv, opBSign, hneg, Bool.and_false]
  exact ⟨hcomp, by rw [lzcBInput, show (r.isSigned && r.opBSign) = false from hcomp, h]; rfl⟩

/-- A shift that is not negative fits the counter. -/
theorem toNat_setWidth_divShift (h : r.divShift.toNat ≤ w) :
    (r.divShift.setWidth (cntBits w)).toNat = r.divShift.toNat := by
  rw [BitVec.toNat_setWidth, Nat.mod_eq_of_lt (lt_of_le_of_lt h (lt_two_pow_cntBits w))]

end Request

theorem phase_load {s : Regs w k} {i : In w k} (h : accepts s i = true) :
    Flags i.toRequest (next s i) ∧ Phase i.toRequest (next s i) 0 := by
  rw [next_accepts s i h]
  refine ⟨⟨rfl, rfl, rfl, rfl, rfl, rfl⟩, ?_⟩
  have hA := i.signed_magA
  cases hz : i.divResZero with
  | true =>
    have hfin : i.finalA = signed w i.compInv i.magA := by rw [Request.finalA, if_pos (Or.inl hz)]
    refine .done (.inr ⟨rfl, rfl⟩) (hA.trans hfin.symm) ?_
    rw [Request.finalRes, if_pos hz]
  | false =>
    by_cases hb : i.opB = 0
    · obtain ⟨-, hin⟩ := i.compInv_of_zero hb
      have hn := (i.divShift_of_zero hin).2
      have hcnt := i.toNat_setWidth_divShift hn.le
      refine .byZero rfl hz (by dsimp only; omega) ⟨hb, ?_, hA, ?_⟩
      · dsimp only
        rw [hcnt, hn, Nat.sub_self]
        rfl
      · dsimp only
        rw [Request.opBShifted, hb]
        exact BitVec.zero_shiftLeft _
    · obtain ⟨hn, hpos, hlt, hle, hlt'⟩ := i.aligned hb hz
      have hcnt := i.toNat_setWidth_divShift hn
      refine .running 0 i.magA rfl hz (by dsimp only; omega) ?_
      exact
        { opB_ne := hb, quot := rfl, rem := hA, pos := hpos
          divisor := by dsimp only; rw [hcnt]; exact i.opBShifted_eq
          le := by dsimp only; rwa [hcnt]
          lt := by dsimp only; rwa [hcnt]
          division := by dsimp only; rw [hcnt]; exact .start hlt }

/-- The counter of a step that is not the last. -/
theorem toNat_cnt_sub_one {s : Regs w k} (h : cntZero s = false) :
    (s.cnt - 1).toNat + 1 = s.cnt.toNat := by
  have hne : s.cnt ≠ 0 := beq_eq_false_iff_ne.1 h
  have hpos : 0 < s.cnt.toNat := Nat.pos_of_ne_zero fun h0 => hne (BitVec.eq_of_toNat_eq h0)
  have hlt := s.cnt.isLt
  have hone : (1 : BitVec (cntBits w)).toNat = 1 := by
    rw [show (1 : BitVec (cntBits w)) = BitVec.ofNat _ 1 from rfl, BitVec.toNat_ofNat]
    exact Nat.mod_eq_of_lt (by omega)
  rw [BitVec.toNat_sub, hone, Nat.mod_eq_sub_mod (by omega), Nat.mod_eq_of_lt (by omega)]
  omega

/-- A step of the long division. -/
theorem phase_running {r : Request w k} {s : Regs w k} {i : In w k} {q m age : ℕ}
    (hf : Flags r s) (hs : s.state = .divide) (hz : r.divResZero = false) (hi : i.flush = false)
    (ht : age + s.cnt.toNat ≤ w) (h : Running r s q m) : Phase r (next s i) (age + 1) := by
  have hm : m < 2 ^ w := lt_of_le_of_lt h.division.rem_le r.magA_lt_two_pow
  have hdpos : 0 < r.magB * 2 ^ s.cnt.toNat := Nat.mul_pos h.pos (Nat.two_pow_pos _)
  have hcmp : abComp s = decide (r.magB * 2 ^ s.cnt.toNat ≤ m) := by
    have hbz : s.opBZero = false := by
      rw [hf.opBZero]
      exact beq_eq_false_iff_ne.2 h.opB_ne
    rw [← Lib.ge_iff r.compInv hm hdpos h.le h.lt, abComp, hbz, Bool.or_false, h.rem, h.divisor, hf.compInv]
  have hA : (if abComp s then s.opA - s.opB else s.opA) = signed w r.compInv
      (if r.magB * 2 ^ s.cnt.toNat ≤ m then m - r.magB * 2 ^ s.cnt.toNat else m) := by
    rw [hcmp, h.rem, h.divisor]
    by_cases hle : r.magB * 2 ^ s.cnt.toNat ≤ m
    · rw [decide_eq_true hle, if_pos rfl, if_pos hle, Lib.signed_sub _ hle]
    · rw [decide_eq_false hle, if_neg Bool.false_ne_true, if_neg hle]
  have hq : s.res.shiftConcat (abComp s) = BitVec.ofNat w (2 * q + (decide (r.magB * 2 ^ s.cnt.toNat ≤ m)).toNat) := by
    rw [h.quot, Lib.shiftConcat_ofNat, hcmp]
  have hdiv := h.division
  rw [pow_succ, ← Nat.mul_assoc, Nat.mul_comm _ 2] at hdiv
  have hstep := hdiv.halve
  rw [next_divide s i hs (hf.divResZero.trans hz) hi, hA, hq]
  cases hc : cntZero s with
  | true =>
    have hcnt : s.cnt.toNat = 0 := by
      have h0 : s.cnt = 0 := beq_iff_eq.1 hc
      rw [h0]
      rfl
    rw [hcnt, pow_zero, Nat.mul_one] at hstep ⊢
    have hno : ¬(r.divResZero = true ∨ r.opB = 0) := by
      rw [hz]
      exact fun h' => h'.elim Bool.false_ne_true h.opB_ne
    refine .done (.inl rfl) ?_ ?_
    · rw [Request.finalA, if_neg hno, hstep.mod]
    · rw [Request.finalRes, hz, if_neg Bool.false_ne_true, if_neg h.opB_ne, hstep.div]
  | false =>
    have hcnt := toNat_cnt_sub_one hc
    generalize hn : (s.cnt - 1).toNat = n at hcnt
    have hpow : r.magB * 2 ^ s.cnt.toNat = 2 * (r.magB * 2 ^ n) := by rw [← hcnt, pow_succ]; ring
    have hhalf := Lib.half r.compInv (Nat.mul_pos h.pos (Nat.two_pow_pos n)) (hpow ▸ h.le) (hpow ▸ h.lt)
    refine .running _ _ rfl hz (by dsimp only; simp only [Bool.false_eq_true, if_false]; omega)
      { opB_ne := h.opB_ne, quot := rfl, rem := rfl, pos := h.pos, divisor := ?_, le := ?_, lt := ?_, division := ?_ }
    all_goals simp only [Bool.false_eq_true, if_false, hn]
    · rw [hf.compInv, h.divisor, hpow, hhalf]
    · have := h.le
      omega
    · intro hcomp
      have := h.lt hcomp
      omega
    · rw [hcnt]
      exact hstep

/-- A step of a division by zero. -/
theorem phase_byZero {r : Request w k} {s : Regs w k} {i : In w k} {age : ℕ}
    (hf : Flags r s) (hs : s.state = .divide) (hz : r.divResZero = false) (hi : i.flush = false)
    (ht : age + s.cnt.toNat ≤ w) (h : ByZero r s) : Phase r (next s i) (age + 1) := by
  obtain ⟨hcomp, -⟩ := r.compInv_of_zero h.zero
  have hcmp : abComp s = true := by
    have hbz : s.opBZero = true := hf.opBZero.trans (beq_iff_eq.2 h.zero)
    rw [abComp, h.divisor, hbz, hf.compInv, hcomp, Bool.or_true, Bool.and_true, Bool.xor_false]
    by_cases h0 : s.opA = 0
    · rw [h0]
      rfl
    · have hpos : s.opA.toNat ≠ 0 := fun h' => h0 (BitVec.eq_of_toNat_eq h')
      have hlt : (0 : BitVec w).ult s.opA = true := by
        rw [BitVec.ult, decide_eq_true_eq]
        exact Nat.pos_of_ne_zero hpos
      rw [hlt, Bool.or_true]
  have hq : s.res.shiftConcat (abComp s) = BitVec.ofNat w (2 ^ (w - s.cnt.toNat + 1) - 1) := by
    have := Nat.two_pow_pos (w - s.cnt.toNat)
    rw [h.quot, Lib.shiftConcat_ofNat, hcmp, Bool.toNat_true]
    congr 1
    omega
  have hA : (if abComp s then s.opA - s.opB else s.opA) = signed w r.compInv r.magA := by
    rw [hcmp, if_pos rfl, h.divisor, h.rem]
    exact BitVec.sub_zero _
  rw [next_divide s i hs (hf.divResZero.trans hz) hi, hA, hq]
  cases hc : cntZero s with
  | true =>
    have hcnt : s.cnt.toNat = 0 := by
      have h0 : s.cnt = 0 := beq_iff_eq.1 hc
      rw [h0]
      rfl
    refine .done (.inl rfl) ?_ ?_
    · rw [Request.finalA, if_pos (Or.inr h.zero)]
    · rw [Request.finalRes, hz, if_neg Bool.false_ne_true, if_pos h.zero, hcnt]
      apply BitVec.eq_of_toNat_eq
      have := Nat.two_pow_pos w
      rw [BitVec.toNat_ofNat, BitVec.toNat_allOnes, Nat.sub_zero, pow_succ,
        show 2 ^ w * 2 - 1 = 2 ^ w - 1 + 2 ^ w by omega, Nat.add_mod_right, Nat.mod_eq_of_lt (by omega)]
  | false =>
    have hcnt := toNat_cnt_sub_one hc
    generalize hn : (s.cnt - 1).toNat = n at hcnt
    refine .byZero rfl hz (by dsimp only; simp only [Bool.false_eq_true, if_false]; omega) ⟨h.zero, ?_, rfl, ?_⟩
    all_goals simp only [Bool.false_eq_true, if_false, hn]
    · congr 3
      omega
    · rw [h.divisor, hf.compInv, hcomp]
      simp

/-- The answer stays until it is taken. -/
theorem phase_waits {r : Request w k} {s : Regs w k} {i : In w k} {age : ℕ} (hi : i.flush = false)
    (ho : i.outRdy = false) (hs : Waits s) (hA : s.opA = r.finalA) (hres : s.res = r.finalRes) :
    Phase r (next s i) (age + 1) := by
  rw [next_waits s i hs hi, ho]
  exact .done (.inl rfl) hA hres

theorem Flags.next {r : Request w k} {s : Regs w k} {i : In w k} (h : Flags r s) (hacc : accepts s i = false) :
    Flags r (next s i) := by
  have hload : (fsm s i).loadEn = false := by
    unfold accepts at hacc
    unfold fsm stateCase
    cases hs : s.state <;> cases hf : i.flush <;> cases hv : i.inVld <;> simp_all
    all_goals split <;> rfl
  constructor
  all_goals simp only [Serdiv.next, hload, Bool.false_eq_true, if_false]
  exacts [h.id, h.remSel, h.compInv, h.resInv, h.opBZero, h.divResZero]

/-! ### Runs -/

theorem resO_eq {r : Request w k} {s : Regs w k} (hf : Flags r s) (hA : s.opA = r.finalA)
    (hres : s.res = r.finalRes) : resO s = r.answer := by
  rw [resO, outMux, Request.answer, hf.remSel, hf.resInv, hA, hres]

theorem Waits.ne_idle {s : Regs w k} (h : Waits s) : s.state ≠ .idle := by
  rintro hidle
  rcases h with h | ⟨h, -⟩
  all_goals
    rw [hidle] at h
    cases h

/-- A request that is under way is not done before its answer waits. -/
theorem Phase.of_waits {r : Request w k} {s : Regs w k} {age : ℕ} (hf : Flags r s) (h : Phase r s age)
    (hs : Waits s) : s.opA = r.finalA ∧ s.res = r.finalRes := by
  have hno (hs' : s.state = .divide) (hz : r.divResZero = false) : False := by
    rcases hs with hs | ⟨-, hz'⟩
    · rw [hs'] at hs
      cases hs
    · rw [hf.divResZero, hz] at hz'
      cases hz'
  cases h with
  | running _ _ hs' hz => exact (hno hs' hz).elim
  | byZero hs' hz => exact (hno hs' hz).elim
  | done _ hA hres => exact ⟨hA, hres⟩

theorem inv_next {u : Watched w k} (h : Inv u) (i : In w k) : Inv ((watched w k).next u i) := by
  obtain ⟨s, p, age⟩ := u
  by_cases hi : i.flush = true
  · have hidle : Inv ⟨next s i, none, (((watched w k).next ⟨s, p, age⟩ i).age)⟩ := next_flush s i hi
    simpa [watched, hi] using hidle
  rw [Bool.not_eq_true] at hi
  cases hacc : accepts s i with
  | true =>
    have hload : Inv ⟨next s i, some i.toRequest, 0⟩ := phase_load hacc
    simpa [watched, hi, hacc] using hload
  | false =>
    cases htak : taken s i with
    | true =>
      obtain ⟨hv, hr⟩ := Bool.and_eq_true_iff.1 htak
      have hidle : (next s i).state = .idle := by
        rw [next_waits s i ((outVldO_eq s i).1 hv).1 hi, hr]
        rfl
      have hfree : Inv ⟨next s i, none, age + 1⟩ := hidle
      simpa [watched, hi, hacc, htak] using hfree
    | false =>
      have hkeep : Inv ⟨next s i, p, age + 1⟩ := by
        cases p with
        | none => exact next_idle s i h hacc
        | some r =>
          obtain ⟨hf, hph⟩ := h
          refine ⟨hf.next hacc, ?_⟩
          cases hph with
          | running q m hs hz ht hrun => exact phase_running hf hs hz hi ht hrun
          | byZero hs hz ht hrun => exact phase_byZero hf hs hz hi ht hrun
          | done hs hA hres =>
            have hrdy : i.outRdy = false := by
              rw [taken, (outVldO_eq s i).2 ⟨hs, hi⟩, Bool.true_and] at htak
              exact htak
            exact phase_waits hi hrdy hs hA hres
      simpa [watched, hi, hacc, htak] using hkeep

theorem inv_start : Inv (start : Watched w k) := rfl

/-- What is presented is the answer to the request under way. -/
theorem Inv.presents {u : Watched w k} (h : Inv u) {i : In w k} (hv : outVldO u.regs i = true) :
    ∃ r, u.pending = some r ∧ u.regs.id = r.id ∧ resO u.regs = r.answer := by
  obtain ⟨s, p, age⟩ := u
  obtain ⟨hs, -⟩ := (outVldO_eq s i).1 hv
  cases p with
  | none => exact absurd h hs.ne_idle
  | some r =>
    obtain ⟨hf, hph⟩ := h
    obtain ⟨hA, hres⟩ := hph.of_waits hf hs
    exact ⟨r, rfl, hf.id, resO_eq hf hA hres⟩

theorem Inv.due {u : Watched w k} (h : Inv u) {i : In w k} (hp : u.pending.isSome = true)
    (hi : i.flush = false) (hage : w < u.age) : outVldO u.regs i = true := by
  obtain ⟨s, p, age⟩ := u
  cases p with
  | none => cases hp
  | some r =>
    obtain ⟨-, hph⟩ := h
    cases hph with
    | running _ _ _ _ ht =>
      dsimp only at hage ht
      omega
    | byZero _ _ ht =>
      dsimp only at hage ht
      omega
    | done hs _ _ => exact (outVldO_eq s i).2 ⟨hs, hi⟩

theorem outVldO_held {s : Regs w k} {i : In w k} (hv : outVldO s i = true) (ho : i.outRdy = false)
    (j : In w k) (hj : j.flush = false) : outVldO (next s i) j = true := by
  obtain ⟨hs, hi⟩ := (outVldO_eq s i).1 hv
  refine (outVldO_eq _ j).2 ⟨?_, hj⟩
  rw [next_waits s i hs hi, ho]
  exact .inl rfl

theorem Inv.free {u : Watched w k} (h : Inv u) : u.pending = none ↔ u.regs.state = .idle := by
  obtain ⟨s, p, age⟩ := u
  cases p with
  | none => exact iff_of_true rfl h
  | some r =>
    obtain ⟨-, hph⟩ := h
    refine iff_of_false nofun fun hidle => ?_
    dsimp only at hidle
    cases hph with
    | running _ _ hs => exact absurd (hidle.symm.trans hs) (by decide)
    | byZero hs => exact absurd (hidle.symm.trans hs) (by decide)
    | done hs _ _ => exact hs.ne_idle hidle

/-- The division of −1 by 1 is answered at once. -/
theorem Inv.waits_of_short {u : Watched w k} (h : Inv u) {r : Request w k} (hp : u.pending = some r)
    (hshort : r.Short) : Waits u.regs := by
  obtain ⟨s, p, age⟩ := u
  obtain rfl : p = some r := hp
  obtain ⟨-, hph⟩ := h
  have hcut := hshort.cut.1
  cases hph with
  | running _ _ _ hz => exact absurd (hz.symm.trans hcut) Bool.false_ne_true
  | byZero _ hz => exact absurd (hz.symm.trans hcut) Bool.false_ne_true
  | done hs _ _ => exact hs

/-- All that is asked holds but for the value presented. -/
theorem law_iff {u : Watched w k} (h : Inv u) : Law u ↔ ∀ r, u.pending = some r → ¬r.Short := by
  constructor
  · intro hlaw r hp hshort
    let i : In w k := { r with inVld := false, flush := false, outRdy := false }
    have hv : outVldO u.regs i = true := (outVldO_eq u.regs i).2 ⟨h.waits_of_short hp hshort, rfl⟩
    obtain ⟨r', hp', -, hright⟩ := (hlaw i).right hv
    obtain ⟨r'', hp'', -, hans⟩ := h.presents hv
    obtain rfl : r = r' := Option.some.inj (hp.symm.trans hp')
    obtain rfl : r = r'' := Option.some.inj (hp.symm.trans hp'')
    exact r.answer_iff.1 (hans.symm.trans hright) hshort
  · intro hgood i
    refine ⟨fun hv => ?_, h.due, outVldO_held, h.free⟩
    obtain ⟨r, hp, hid, hans⟩ := h.presents hv
    exact ⟨r, hp, hid, hans.trans (r.answer_iff.2 (hgood r hp))⟩

/-- An edge keeps what is asked unless it brings a division of −1 by 1. -/
theorem law_next_iff {u : Watched w k} (h : Inv u) (hlaw : Law u) (i : In w k) :
    Law ((watched w k).next u i) ↔ (accepts u.regs i = true → ¬i.Short) := by
  rw [law_iff (inv_next h i)]
  have hold := (law_iff h).1 hlaw
  cases hacc : accepts u.regs i with
  | true =>
    have hi : i.flush = false := by
      rw [accepts, Bool.and_eq_true, Bool.not_eq_true'] at hacc
      exact hacc.2
    simp [watched, hacc, hi]
  | false =>
    refine iff_of_true ?_ nofun
    intro r hr
    simp only [watched, hacc, Bool.false_eq_true, if_false] at hr
    split_ifs at hr
    exact hold r hr

/-- At any width and in any run, all that is asked holds exactly if no division of −1 by 1 is
accepted. -/
theorem law_run (is : List (In w k)) :
    (watched w k).Always Law start is ↔
      (watched w k).Steps (fun u i => accepts u.regs i = true → ¬i.Short) start is :=
  Machine.always_iff_steps (fun _ i h => inv_next h i) (fun _ i h hlaw => law_next_iff h hlaw i) is start
    inv_start ((law_iff inv_start).2 nofun)

end Serdiv
end Ariane

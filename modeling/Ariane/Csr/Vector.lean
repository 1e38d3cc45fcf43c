/-
# Where a trap goes

`priv_output` of `csr_regfile.sv` spares the adder of the vectored mode: the number of an
interrupt replaces six bits of the base. That is the sum if the base is aligned to 256 bytes
and the mode of the target says so. A write of `mtvec` aligns a vectored base, a write of
`stvec` does not, and the mode bits of the two registers are or-ed: an interrupt to a mode
with a direct vector is vectored whenever the other mode's vector is (`trap_vector_iff`).
-/
import Ariane.Csr.Cycle

namespace Ariane
namespace Csr

open Riscv Lib

variable {cfg : Cfg} {s : Regs} {i : In}

/-! ### The law -/

/-- `xtvec`. -/
def Mode.tvec : Mode → CsrReg
  | .m => .mtvec
  | .s => .stvec

def tvecs (r : Regs) : PerMode (BitVec 64) := ⟨r.mtvec, r.stvec⟩

theorem csrReadReg_tvec (s : Regs) (i : In) (T : Mode) : csrReadReg s i T.tvec = some ((tvecs s).get T) := by
  cases T <;> rfl

/-- `BASE`, the address in a trap vector register. -/
def tvecBase (v : BitVec 64) : BitVec 64 := v &&& ~~~3#64

/-- The number of a cause. -/
def causeCode (c : BitVec 64) : BitVec 64 := c &&& ~~~(1#64 <<< 63)

/-- Where a trap goes by the privileged architecture. -/
def vector (v cause : BitVec 64) : BitVec 64 :=
  if v.getLsbD 0 && cause.getLsbD 63 then tvecBase v + 4 * causeCode cause else tvecBase v

/-- The trap of the cycle goes where the vector of its mode says, as software reads it. -/
def VectorLaw (cfg : Cfg) (s : Regs) (i : In) : Prop :=
  ∀ T v, TrapsTo s i T → csrReadReg s i T.tvec = some v → trapVectorBaseO cfg s i = vector v i.ex.cause

/-! ### Interrupts -/

/-- The interrupts of `riscv_pkg`. -/
def interrupts : List ℕ := [irqSSoft, irqMSoft, irqSTimer, irqMTimer, irqSExt, irqMExt]

def interrupt (n : ℕ) : BitVec 64 := (1#64 <<< 63) ||| BitVec.ofNat 64 n

/-- An interrupt that is reported is one the decode stage raises. -/
def KnownInterrupt (i : In) : Prop :=
  i.ex.valid = true → i.ex.cause.getLsbD 63 = true → ∃ n ∈ interrupts, i.ex.cause = interrupt n

theorem interrupt_code : ∀ n ∈ interrupts, n < 64 ∧ ((interrupt n).extractLsb' 0 6).toNat = n ∧
    (causeCode (interrupt n)).toNat = n := by
  decide

/-- The slot of an address in a table of 64 vectors. -/
def slot (v : BitVec 64) : BitVec 6 := v.extractLsb' 2 6

/-- An interrupt finds the base of a vectored mode aligned, and both modes direct if its own
is (or the base in the slot of the interrupt by chance). -/
def VectorsFit (s : Regs) (i : In) : Prop :=
  ∀ T, TrapsTo s i T → i.ex.cause.getLsbD 63 = true →
    if ((tvecs s).get T).getLsbD 0 then slot ((tvecs s).get T) = 0
    else ((tvecs s).get T.other).getLsbD 0 = false ∨ slot ((tvecs s).get T) = i.ex.cause.extractLsb' 0 6

/-! ### The bits of a target -/

/-- The bits the interrupt is put into. -/
def insertSlot (b : BitVec 64) (k : BitVec 6) : BitVec 64 := b.extractLsb' 8 56 ++ k ++ b.extractLsb' 0 2

theorem tvecBase_eq (v : BitVec 64) : v.extractLsb' 2 62 ++ 0#2 = tvecBase v := by
  apply BitVec.eq_of_getLsbD_eq
  intro k hk
  rw [BitVec.getLsbD_append, tvecBase, BitVec.getLsbD_and, BitVec.getLsbD_not]
  by_cases h2 : k < 2
  · have h01 : k = 0 ∨ k = 1 := by omega
    rcases h01 with rfl | rfl <;> simp
  · have h3 : (3#64).getLsbD k = false := by
      rw [BitVec.getLsbD_ofNat]
      have hb : (3 : ℕ).testBit k = false := Nat.testBit_lt_two_pow (lt_of_lt_of_le (by decide : 3 < 2 ^ 2)
        (Nat.pow_le_pow_right (by decide) (by omega)))
      simp [hb]
    have hsub : 2 + (k - 2) = k := by omega
    have hlt : k - 2 < 62 := by omega
    rw [h3, if_neg h2, BitVec.getLsbD_extractLsb', hsub]
    simp [hk, hlt]

theorem toNat_tvecBase (v : BitVec 64) : (tvecBase v).toNat = v.toNat / 256 * 256 + (slot v).toNat * 4 := by
  rw [← tvecBase_eq, toNat_append_eq, slot, BitVec.extractLsb'_toNat, BitVec.extractLsb'_toNat,
    Nat.shiftRight_eq_div_pow]
  have hv := v.isLt
  simp only [BitVec.toNat_ofNat]
  omega

theorem toNat_insertSlot (v : BitVec 64) (k : BitVec 6) :
    (insertSlot (tvecBase v) k).toNat = v.toNat / 256 * 256 + k.toNat * 4 := by
  have hb := toNat_tvecBase v
  have hs := (slot v).isLt
  have hv := v.isLt
  rw [insertSlot, toNat_append_eq, toNat_append_eq, BitVec.extractLsb'_toNat, BitVec.extractLsb'_toNat, hb,
    Nat.shiftRight_eq_div_pow, Nat.shiftRight_eq_div_pow]
  omega

/-- The slot of the interrupt is the one of the base. -/
theorem insertSlot_eq_iff (v : BitVec 64) (k : BitVec 6) : insertSlot (tvecBase v) k = tvecBase v ↔ slot v = k := by
  rw [← BitVec.toNat_inj, ← BitVec.toNat_inj, toNat_insertSlot, toNat_tvecBase]
  omega

/-- To put the number of an interrupt into the base is to add it exactly if the base is
aligned. -/
theorem insertSlot_eq_add_iff (v c : BitVec 64) (k : BitVec 6) (hc : c.toNat = k.toNat) :
    insertSlot (tvecBase v) k = tvecBase v + 4 * c ↔ slot v = 0 := by
  have hk := k.isLt
  have hs := (slot v).isLt
  have hv := v.isLt
  rw [← BitVec.toNat_inj, ← BitVec.toNat_inj, toNat_insertSlot, BitVec.toNat_add, BitVec.toNat_mul, toNat_tvecBase, hc]
  have h4 : (4 : BitVec 64).toNat = 4 := rfl
  have h0 : (0 : BitVec 6).toNat = 0 := rfl
  rw [h4, h0]
  omega

/-! ### The target of the code -/

/-- The target of a trap: the number of an interrupt is put into the base of the mode if one
of the two vectors is in vectored mode. -/
theorem trapVectorBaseO_eq {T : Mode} (h : TrapsTo s i T) : trapVectorBaseO cfg s i =
    if (((tvecs s).get T).getLsbD 0 || ((tvecs s).get T.other).getLsbD 0) && i.ex.cause.getLsbD 63 then
      insertSlot (tvecBase ((tvecs s).get T)) (i.ex.cause.extractLsb' 0 6)
    else tvecBase ((tvecs s).get T) := by
  obtain ⟨ht, hT⟩ := h
  have hd : s.debugMode = false := by
    simp only [trapTaken, Bool.and_eq_true, Bool.not_eq_true'] at ht
    exact ht.1.1
  unfold trapVectorBaseO
  rw [trapToPrivLvl_eq, hT, hd, tvecBase_eq, tvecBase_eq]
  cases T with
  | m => rfl
  | s =>
    rw [Bool.or_comm (s.mtvec.getLsbD 0)]
    rfl

theorem vectorLaw_iff (hk : KnownInterrupt i) : VectorLaw cfg s i ↔ VectorsFit s i := by
  have hcase {T : Mode} (hT : TrapsTo s i T) (hc : i.ex.cause.getLsbD 63 = true) :
      trapVectorBaseO cfg s i = vector ((tvecs s).get T) i.ex.cause ↔
        (if ((tvecs s).get T).getLsbD 0 then slot ((tvecs s).get T) = 0
        else ((tvecs s).get T.other).getLsbD 0 = false ∨ slot ((tvecs s).get T) = i.ex.cause.extractLsb' 0 6) := by
    have hvalid : i.ex.valid = true := by
      have := hT.1
      simp only [trapTaken, Bool.and_eq_true] at this
      exact this.2
    obtain ⟨n, hn, he⟩ := hk hvalid hc
    have hcode : (causeCode i.ex.cause).toNat = (i.ex.cause.extractLsb' 0 6).toNat := by
      obtain ⟨-, h6, h64⟩ := interrupt_code n hn
      rw [he, h6, h64]
    rw [trapVectorBaseO_eq hT, vector, hc, Bool.and_true, Bool.and_true]
    cases hv : ((tvecs s).get T).getLsbD 0 with
    | true => simpa using insertSlot_eq_add_iff _ _ _ hcode
    | false =>
      cases ho : ((tvecs s).get T.other).getLsbD 0 with
      | true => simpa using insertSlot_eq_iff _ _
      | false => simp
  constructor
  · intro h T hT hc
    exact (hcase hT hc).1 (h T _ hT (csrReadReg_tvec s i T))
  · intro h T v hT hv
    obtain rfl : (tvecs s).get T = v := Option.some.inj ((csrReadReg_tvec s i T).symm.trans hv)
    by_cases hc : i.ex.cause.getLsbD 63 = true
    · exact (hcase hT hc).2 (h T hT hc)
    · rw [trapVectorBaseO_eq hT, vector, Bool.eq_false_iff.2 hc, Bool.and_false, Bool.and_false]
      rfl

/-! ### Runs -/

/-- In a run from reset every trap goes where the vector of its mode says exactly if every
interrupt finds the vectors fit. -/
theorem trap_vector_iff (cfg : Cfg) (is : List In)
    (hk : (machine cfg).Steps (fun _ i => KnownInterrupt i) reset is) :
    (machine cfg).Steps (VectorLaw cfg) reset is ↔ (machine cfg).Steps VectorsFit reset is :=
  Machine.steps_congr_of_inv (P := fun _ => True) (fun _ _ _ _ => trivial)
    (fun _ _ _ hi => vectorLaw_iff hi) is reset trivial hk

/-- A trap for the interrupt `n`. -/
def In.interrupt (n : ℕ) : In := { In.idle with ex := ⟨Csr.interrupt n, 0, true⟩ }

theorem knownInterrupt_idle {i : In} (h : i.ex.valid = false) : KnownInterrupt i := by
  intro hv
  rw [h] at hv
  cases hv

theorem knownInterrupt_of_mem {n : ℕ} (h : n ∈ interrupts) : KnownInterrupt (In.interrupt n) :=
  fun _ _ => ⟨n, h, rfl⟩

/-- `mtvec` is written with a vectored base, which is aligned, and the timer interrupt
comes. -/
theorem trap_vector_mtvec : (machine socCfg).Steps (VectorLaw socCfg) reset
    [.write .mtvec 0x80000135, .interrupt irqMTimer] := by
  have hk : (machine socCfg).Steps (fun _ i => KnownInterrupt i) reset
      [.write .mtvec 0x80000135, .interrupt irqMTimer] :=
    ⟨knownInterrupt_idle rfl, knownInterrupt_of_mem (by decide), trivial⟩
  refine (trap_vector_iff socCfg _ hk).2 ⟨?_, ?_, trivial⟩
  · intro T hT
    exact absurd hT.1 (by decide)
  · intro T hT _
    cases T with
    | m => decide
    | s => exact absurd hT.2 (by decide)

/-- `stvec` is put into vectored mode, `mtvec` is direct at `0x40`: the timer interrupt of
machine mode goes to `0x1c`. -/
theorem direct_mtvec_vectored :
    let is : List In := [.write .stvec 0x80000001, .interrupt irqMTimer]
    (machine socCfg).Steps (fun _ i => KnownInterrupt i) reset is ∧
      ¬(machine socCfg).Steps (VectorLaw socCfg) reset is := by
  refine ⟨⟨knownInterrupt_idle rfl, knownInterrupt_of_mem (by decide), trivial⟩, ?_⟩
  rintro ⟨-, h, -⟩
  exact absurd (h .m 0x40 (by decide) (by decide)) (by decide)

end Csr
end Ariane

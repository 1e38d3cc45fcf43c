/-
# The access-control matrix

The access-control registers (`acct_wrapper.sv`) hold 96 bits for each bus
master, four for each peripheral, one for each privilege level. The test harness
cuts them into the matrix `access_ctrl`, and the crossbar looks its connectivity
up there at the privilege level of the cycle (`connectivity_mapping`).

Each decision is to depend on its own bit only (`Decides`). The matrix adds to
the AES row bit `4 * CLINT + 4`, a single bit and so the row's lowest one: user
mode gets at the AES engine whenever it may read the ROM. `decides_iff` says
that nothing else is wrong with the matrix.
-/
import Ariane.Riscv
import Ariane.Soc.Pkg
import Mathlib.Tactic.Common

namespace Ariane
namespace Soc

open Riscv

/-- The words of the access-control registers, three for each master. -/
abbrev AcctMem := Fin (3 * nrSlaves) → BitVec 32

/-- The word `k` of master `i`. -/
def acctWord (mem : AcctMem) (i : Fin nrSlaves) (k : Fin 3) : BitVec 32 :=
  mem ⟨3 * i.val + k.val, by omega⟩

/-- The access-control value of a master:
`{acct_mem[3*i+2], acct_mem[3*i+1], acct_mem[3*i+0]}`. -/
def acctValue (mem : AcctMem) (i : Fin nrSlaves) : BitVec 96 :=
  acctWord mem i 2 ++ acctWord mem i 1 ++ acctWord mem i 0

/-- `acc_ctrl_o` of `acct_wrapper`, four bits for each peripheral. -/
def accCtrlO (mem : AcctMem) (i : Fin nrSlaves) : BitVec (4 * nbPeripherals) :=
  (acctValue mem i).setWidth (4 * nbPeripherals)

/-- `access_ctrl` of `ariane_testharness`. -/
def accessCtrl (reg : Fin nrSlaves → BitVec (4 * nbPeripherals)) (i : Fin nrSlaves) (j : Periph) :
    BitVec 4 :=
  (reg i).extractLsb' (4 * j.id) 4 |||
    ((if j.id = 11 then BitVec.allOnes 4 else 0) &&&
      (BitVec.ofBool ((reg i).getLsbD (4 * Periph.clint.id + 4))).setWidth 4)

/-- `connectivity_mapping`. -/
def connectivityMap (ac : Fin nrSlaves → Periph → BitVec 4) (privLvl : PrivLvl) (i : Fin nrSlaves)
    (j : Periph) : Bool := (ac i j).getLsbD privLvl.toNat

/-- The connectivity the crossbar uses. -/
def connectivity (mem : AcctMem) (p : PrivLvl) (i : Fin nrSlaves) (j : Periph) : Bool :=
  connectivityMap (accessCtrl (accCtrlO mem)) p i j

/-- The bit of a master's value that stands for peripheral `j` at level `p`. -/
def ownBit (mem : AcctMem) (p : PrivLvl) (i : Fin nrSlaves) (j : Periph) : Bool :=
  (acctValue mem i).getLsbD (4 * j.id + p.toNat)

/-- The decision is the master's own bit, and no other bit changes it. -/
structure Decides (mem : AcctMem) (p : PrivLvl) (i : Fin nrSlaves) (j : Periph) : Prop where
  exact : connectivity mem p i j = ownBit mem p i j
  independent : ∀ mem', ownBit mem' p i j = ownBit mem p i j →
    connectivity mem' p i j = connectivity mem p i j

/-! ### The matrix -/

theorem getLsbD_accCtrlO (mem : AcctMem) (i : Fin nrSlaves) {k : ℕ} (hk : k < 4 * nbPeripherals) :
    (accCtrlO mem i).getLsbD k = (acctValue mem i).getLsbD k := by
  simp [accCtrlO, hk]

/-- A decision, bit by bit: the own bit, and for AES in user mode that of the ROM. -/
theorem connectivity_eq (mem : AcctMem) (p : PrivLvl) (i : Fin nrSlaves) (j : Periph) :
    connectivity mem p i j =
      (ownBit mem p i j || (j = Periph.aes && p = privLvlU && ownBit mem privLvlU i Periph.rom)) := by
  have hp : p.toNat < 4 := p.isLt
  have hj := j.id_lt
  have hown : (accCtrlO mem i).getLsbD (4 * j.id + p.toNat) = ownBit mem p i j :=
    getLsbD_accCtrlO mem i (by omega)
  have hrom : (accCtrlO mem i).getLsbD (4 * Periph.clint.id + 4) = ownBit mem privLvlU i Periph.rom :=
    getLsbD_accCtrlO mem i (by decide)
  unfold connectivity connectivityMap accessCtrl
  have haes : j.id = 11 ↔ j = Periph.aes := by cases j <;> decide
  simp only [haes]
  rw [BitVec.getLsbD_or, BitVec.getLsbD_extractLsb', BitVec.getLsbD_and, BitVec.getLsbD_setWidth,
    hown, hrom]
  by_cases hU : p = privLvlU
  · subst hU
    by_cases ha : j = Periph.aes
    · simp [ha, privLvlU]
    · simp [ha, privLvlU]
  · -- the added term has no bit above the lowest one
    have hpos : 0 < p.toNat := by
      rcases Nat.eq_zero_or_pos p.toNat with h0 | h0
      · exact absurd (BitVec.eq_of_toNat_eq (h0.trans rfl)) hU
      · exact h0
    have hbit (b : Bool) : (BitVec.ofBool b).getLsbD p.toNat = false :=
      BitVec.getLsbD_of_ge _ _ hpos
    simp [hU, hbit, hp]

theorem connectivity_eq_ownBit (mem : AcctMem) (p : PrivLvl) (i : Fin nrSlaves) (j : Periph)
    (h : ¬(j = Periph.aes ∧ p = privLvlU ∧ ownBit mem p i j = false)) :
    connectivity mem p i j = ownBit mem p i j := by
  rw [connectivity_eq]
  cases ho : ownBit mem p i j with
  | true => rfl
  | false =>
    have hn : ¬(j = Periph.aes ∧ p = privLvlU) := fun hj => h ⟨hj.1, hj.2, ho⟩
    by_cases ha : j = Periph.aes
    · have hU : p ≠ privLvlU := fun hU => hn ⟨ha, hU⟩
      simp [hU]
    · simp [ha]

/-- The registers with every bit cleared but those of the ROM for user mode. -/
def romOnly (b : Bool) : AcctMem := fun k =>
  if k.val % 3 = 1 then (BitVec.ofBool b).setWidth 32 <<< 28 else 0

theorem ownBit_romOnly (b : Bool) (i : Fin nrSlaves) :
    ownBit (romOnly b) privLvlU i Periph.aes = false ∧
      ownBit (romOnly b) privLvlU i Periph.rom = b := by
  revert i b
  decide

/-- A decision depends on its own bit only, exactly when it is not the one about
AES in user mode, or its own bit allows it anyway. -/
theorem decides_iff (mem : AcctMem) (p : PrivLvl) (i : Fin nrSlaves) (j : Periph) :
    Decides mem p i j ↔ ¬(j = Periph.aes ∧ p = privLvlU ∧ ownBit mem p i j = false) := by
  constructor
  · rintro ⟨-, hind⟩ ⟨rfl, rfl, hown⟩
    -- two contents that agree on the own bit and differ in the ROM's
    have h0 := hind (romOnly false) ((ownBit_romOnly false i).1.trans hown.symm)
    have h1 := hind (romOnly true) ((ownBit_romOnly true i).1.trans hown.symm)
    have hsame := h0.trans h1.symm
    rw [connectivity_eq, connectivity_eq, (ownBit_romOnly false i).1, (ownBit_romOnly true i).1,
      (ownBit_romOnly false i).2, (ownBit_romOnly true i).2] at hsame
    exact absurd hsame (by decide)
  · intro h
    have hown := connectivity_eq_ownBit mem p i j h
    refine ⟨hown, ?_⟩
    intro mem' hsame
    have h' : ¬(j = Periph.aes ∧ p = privLvlU ∧ ownBit mem' p i j = false) := by rwa [hsame]
    rw [connectivity_eq_ownBit mem' p i j h', hsame, hown]

/-- With the ROM open to user mode and AES closed to it, the core is let through
to AES in user mode. -/
theorem aes_opened_by_rom : ¬Decides (romOnly true) privLvlU 0 Periph.aes := by
  rintro ⟨hexact, -⟩
  revert hexact
  decide

end Soc
end Ariane

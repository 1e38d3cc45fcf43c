/-
# The lock registers

`reglk_wrapper.sv` holds the lock bits of the peripherals, eight for each, and
`ariane_peripherals.sv` hands its byte to each locked block. A lock is to stay until
the next system reset, and with it the registers of a locked block (`Sticky`).

The wrapper takes every write, and besides the system reset it takes `srst_ni`,
which the debug module drives from a register of its own. `sticky_iff` says which
writes and resets leave the locks alone.
-/
import Ariane.Soc.Wrappers

namespace Ariane
namespace Soc

open Lib

/-! ### The wrapper -/

/-- `reglk_mem`. -/
abbrev ReglkMem : Type := Fin 6 → BitVec 32

/-- `reglk_ctrl_o`: the low bits of the six words. -/
def reglkCtrlO (mem : ReglkMem) : BitVec (8 * nbPeripherals) :=
  (mem 5 ++ mem 4 ++ mem 3 ++ mem 2 ++ mem 1 ++ mem 0).setWidth (8 * nbPeripherals)

/-- A word on a register bus. -/
structure Bus where
  write : Bool
  addr : BitVec 32
  wdata : BitVec 32

/-- The word of `reglk_mem` an address stands for. -/
def reglkIndex (addr : BitVec 32) : ℕ := (addr.extractLsb' 2 5).toNat

/-- The words after a clock edge; `rstN` is the reset of this instance. -/
def reglkNext (mem : ReglkMem) (rstN : Bool) (x : Bus) : ReglkMem := fun k =>
  if rstN then
    if x.write ∧ reglkIndex x.addr = k.val then x.wdata else mem k
  else 0

/-- `rdata`. -/
def reglkRdata (mem : ReglkMem) (addr : BitVec 32) : BitVec 32 :=
  if h : reglkIndex addr < 6 then mem ⟨reglkIndex addr, h⟩ else 0

/-! ### The peripherals -/

/-- The lock registers and the blocks behind them. -/
structure Locks where
  mem : ReglkMem
  blk : (b : Blk) → File (width b)

/-- The resets of a cycle, and what is on the buses. -/
structure LocksIn where
  rstN : Bool
  srstN : Bool
  reglk : Bus
  bus : Blk → Bus
  wires : (b : Blk) → Wire b → BitVec 32

def Blk.periph : Blk → Periph
  | acct => .acct
  | aes => .aes
  | hmac => .hmac
  | sha256 => .sha256

def Locks.ctrl (s : Locks) : BitVec (8 * nbPeripherals) := reglkCtrlO s.mem

/-- `reglk_ctrl_i` of a block. -/
def Locks.lk (s : Locks) (b : Blk) : BitVec 8 := s.ctrl.extractLsb' (8 * b.periph.id) 8

def Locks.busIn (s : Locks) (i : LocksIn) (b : Blk) : BusIn b :=
  ⟨s.lk b, (i.bus b).write, (i.bus b).addr, (i.bus b).wdata, i.wires b⟩

def Locks.next (s : Locks) (i : LocksIn) : Locks where
  mem := reglkNext s.mem (i.rstN && i.srstN) i.reglk
  blk b := if i.rstN then blkNext b (s.blk b) (s.busIn i b) else blkReset b (s.blk b)

def locks : Machine Locks LocksIn :=
  ⟨fun s => s.mem = 0 ∧ ∃ m : (b : Blk) → File (width b), s.blk = fun b => blkReset b (m b), Locks.next⟩

/-! ### Locks that stay -/

/-- The locks of `s` are there in `t`, and so are the registers of its locked blocks. -/
structure Keeps (s t : Locks) : Prop where
  lock : ∀ k, s.ctrl.getLsbD k = true → t.ctrl.getLsbD k = true
  regs : ∀ b, s.lk b = BitVec.allOnes 8 → t.blk b = s.blk b

/-- Up to the next system reset, what is locked stays locked and as it is. -/
def Sticky (s : Locks) (is : List LocksIn) : Prop :=
  ∀ pre mid post, is = pre ++ mid ++ post → (∀ i ∈ mid, i.rstN = true) →
    Keeps (locks.run s pre) (locks.run s (pre ++ mid))

/-- The cycle does not clear a lock: `srst_ni` is low only where no bit is set, and a
write has all bits of the word it replaces. -/
structure Covers (s : Locks) (i : LocksIn) : Prop where
  reset : i.srstN = false → s.ctrl = 0
  write : i.srstN = true → i.reglk.write = true → ∀ k, reglkIndex i.reglk.addr = k / 32 →
    s.ctrl.getLsbD k = true → i.reglk.wdata.getLsbD (k % 32) = true

theorem getLsbD_append_low {n : ℕ} (x : BitVec n) (y : BitVec 32) {j : ℕ} (hj : j < 32) :
    (x ++ y).getLsbD j = y.getLsbD j := by
  rw [BitVec.getLsbD_append, if_pos hj]

theorem getLsbD_append_high {n : ℕ} (x : BitVec n) (y : BitVec 32) (j : ℕ) :
    (x ++ y).getLsbD (32 + j) = x.getLsbD j := by
  rw [BitVec.getLsbD_append, if_neg (by omega), Nat.add_sub_cancel_left]

/-- Bit `j` of word `w`. -/
theorem getLsbD_reglkCtrlO (mem : ReglkMem) (w : Fin 6) {j : ℕ} (hj : j < 32)
    (hk : 32 * w.val + j < 136) : (reglkCtrlO mem).getLsbD (32 * w.val + j) = (mem w).getLsbD j := by
  have hlt : 32 * w.val + j < 8 * nbPeripherals := hk
  rw [reglkCtrlO, BitVec.getLsbD_setWidth, decide_eq_true hlt, Bool.true_and]
  obtain ⟨w, hw⟩ := w
  have hcases : w = 0 ∨ w = 1 ∨ w = 2 ∨ w = 3 ∨ w = 4 := by
    simp only at hk
    omega
  rcases hcases with rfl | rfl | rfl | rfl | rfl
  · rw [show 32 * 0 + j = j by omega, getLsbD_append_low _ _ hj]
    rfl
  · rw [show 32 * 1 + j = 32 + j by omega, getLsbD_append_high, getLsbD_append_low _ _ hj]
    rfl
  · rw [show 32 * 2 + j = 32 + (32 + j) by omega, getLsbD_append_high, getLsbD_append_high,
      getLsbD_append_low _ _ hj]
    rfl
  · rw [show 32 * 3 + j = 32 + (32 + (32 + j)) by omega, getLsbD_append_high, getLsbD_append_high,
      getLsbD_append_high, getLsbD_append_low _ _ hj]
    rfl
  · rw [show 32 * 4 + j = 32 + (32 + (32 + (32 + j))) by omega, getLsbD_append_high,
      getLsbD_append_high, getLsbD_append_high, getLsbD_append_high, getLsbD_append_low _ _ hj]
    rfl

/-- A bit of `reglk_ctrl_o`, by its word. -/
theorem ctrl_eq (s : Locks) {k : ℕ} (hk : k < 136) :
    s.ctrl.getLsbD k = (s.mem ⟨k / 32, by omega⟩).getLsbD (k % 32) := by
  have hmod : k % 32 < 32 := by omega
  have hdiv : 32 * (k / 32) + k % 32 = k := Nat.div_add_mod k 32
  have h := getLsbD_reglkCtrlO s.mem ⟨k / 32, by omega⟩ hmod (by show 32 * (k / 32) + k % 32 < 136; omega)
  have hk' : 32 * (⟨k / 32, by omega⟩ : Fin 6).val + k % 32 = k := hdiv
  rwa [hk'] at h

theorem ctrl_lt {s : Locks} {k : ℕ} (hk : s.ctrl.getLsbD k = true) : k < 136 := by
  by_contra hge
  have hge' : 136 ≤ k := by omega
  rw [BitVec.getLsbD_of_ge _ _ hge'] at hk
  cases hk

theorem lk_allOnes_iff (s : Locks) (b : Blk) :
    s.lk b = BitVec.allOnes 8 ↔ ∀ j < 8, s.ctrl.getLsbD (8 * b.periph.id + j) = true := by
  have hbit (j : ℕ) (hj : j < 8) : (s.lk b).getLsbD j = s.ctrl.getLsbD (8 * b.periph.id + j) := by
    rw [Locks.lk, BitVec.getLsbD_extractLsb', decide_eq_true hj, Bool.true_and]
  have hones (j : ℕ) (hj : j < 8) : (BitVec.allOnes 8).getLsbD j = true := by
    rw [BitVec.getLsbD_allOnes, decide_eq_true hj]
  constructor
  · intro h j hj
    rw [← hbit j hj, h, hones j hj]
  · intro h
    apply BitVec.eq_of_getLsbD_eq
    intro j hj
    rw [hbit j hj, h j hj, hones j hj]

theorem Keeps.lk {s t : Locks} (h : Keeps s t) {b : Blk} (hb : s.lk b = BitVec.allOnes 8) :
    t.lk b = BitVec.allOnes 8 := by
  rw [lk_allOnes_iff] at hb ⊢
  intro j hj
  exact h.lock _ (hb j hj)

theorem Keeps.refl (s : Locks) : Keeps s s := ⟨fun _ h => h, fun _ _ => rfl⟩

theorem Keeps.trans {s t u : Locks} (h : Keeps s t) (h' : Keeps t u) : Keeps s u where
  lock k hk := h'.lock k (h.lock k hk)
  regs b hb := (h'.regs b (h.lk hb)).trans (h.regs b hb)

/-! ### One cycle -/

theorem ctrl_next_of_reset (s : Locks) {i : LocksIn} (h : (i.rstN && i.srstN) = false) :
    (s.next i).ctrl = 0 := by
  have hmem : (s.next i).mem = fun _ => 0 := by
    funext k
    simp [Locks.next, reglkNext, h]
  rw [Locks.ctrl, hmem]
  decide

theorem ctrl_next (s : Locks) {i : LocksIn} (h : (i.rstN && i.srstN) = true) {k : ℕ} (hk : k < 136) :
    (s.next i).ctrl.getLsbD k =
      if i.reglk.write = true ∧ reglkIndex i.reglk.addr = k / 32 then i.reglk.wdata.getLsbD (k % 32)
      else s.ctrl.getLsbD k := by
  rw [ctrl_eq _ hk, ctrl_eq _ hk]
  simp only [Locks.next, reglkNext, h, if_true]
  split <;> rfl

/-- A cycle without a system reset keeps the locks exactly when it covers them. -/
theorem lock_next_iff (s : Locks) {i : LocksIn} (hr : i.rstN = true) :
    (∀ k, s.ctrl.getLsbD k = true → (s.next i).ctrl.getLsbD k = true) ↔ Covers s i := by
  have hzero (k : ℕ) : (0 : BitVec (8 * nbPeripherals)).getLsbD k = false := BitVec.getLsbD_zero
  cases hs : i.srstN with
  | false =>
    have hnext := ctrl_next_of_reset s (i := i) (by rw [hs, Bool.and_false])
    rw [hnext]
    constructor
    · intro h
      refine ⟨fun _ => ?_, fun hs' => absurd (hs.symm.trans hs') (by decide)⟩
      apply BitVec.eq_of_getLsbD_eq
      intro k _
      rw [hzero, Bool.eq_false_iff]
      intro hk
      exact absurd ((hzero k).symm.trans (h k hk)) (by decide)
    · intro h k hk
      rwa [h.reset hs] at hk
  | true =>
    have hrst : (i.rstN && i.srstN) = true := by rw [hr, hs]; rfl
    constructor
    · intro h
      refine ⟨fun hs' => absurd (hs.symm.trans hs') (by decide), fun _ hw k hidx hk => ?_⟩
      have hn := h k hk
      rwa [ctrl_next s hrst (ctrl_lt hk), if_pos ⟨hw, hidx⟩] at hn
    · intro h k hk
      rw [ctrl_next s hrst (ctrl_lt hk)]
      split
      · rename_i hwrite
        exact h.write hs hwrite.1 k hwrite.2 hk
      · exact hk

theorem keeps_next_iff (s : Locks) {i : LocksIn} (hr : i.rstN = true) :
    Keeps s (s.next i) ↔
      Covers s i ∧ ∀ b, s.lk b = BitVec.allOnes 8 → Meets b (s.blk b) (s.busIn i b) := by
  have hregs (b : Blk) (hb : s.lk b = BitVec.allOnes 8) :
      (s.next i).blk b = s.blk b ↔ Meets b (s.blk b) (s.busIn i b) := by
    have hblk : (s.next i).blk b = blkNext b (s.blk b) (s.busIn i b) := if_pos hr
    rw [hblk]
    exact blkNext_eq_self_iff b (s.blk b) hb
  rw [← lock_next_iff s hr]
  constructor
  · rintro ⟨hl, hk⟩
    exact ⟨hl, fun b hb => (hregs b hb).1 (hk b hb)⟩
  · rintro ⟨hl, hk⟩
    exact ⟨hl, fun b hb => (hregs b hb).2 (hk b hb)⟩

/-- Locks and locked registers stay along a run exactly when its cycles clear no
lock, and stay off the defects of the locked blocks. -/
theorem sticky_iff (s : Locks) (is : List LocksIn) :
    Sticky s is ↔
      locks.Steps (fun s i => i.rstN = true →
        Covers s i ∧ ∀ b, s.lk b = BitVec.allOnes 8 → Meets b (s.blk b) (s.busIn i b)) s is := by
  have hstep := locks.steps_congr (fun s i => forall_congr' fun hr => keeps_next_iff (i := i) s hr) is s
  rw [← hstep]
  exact (locks.steps_rel_iff Keeps.refl Keeps.trans (fun i => i.rstN = true) is s).symm

/-- A cycle without a reset that leaves the locked blocks alone. -/
def LocksIn.quiet (srstN : Bool) (x : Bus) : LocksIn where
  rstN := true
  srstN := srstN
  reglk := x
  bus _ := ⟨false, 0, 0⟩
  wires _ _ := 0

def locksReset : Locks := ⟨0, fun b => blkReset b fun _ => 0⟩

/-- A lock that is set with one write is cleared with the next; and a cycle of
`srst_ni` clears it too. -/
theorem not_sticky : locks.init locksReset ∧
    ¬Sticky locksReset [.quiet true ⟨true, 8, 0xff000000⟩, .quiet true ⟨true, 8, 0⟩] ∧
    ¬Sticky locksReset [.quiet true ⟨true, 8, 0xff000000⟩, .quiet false ⟨false, 0, 0⟩] := by
  refine ⟨⟨rfl, _, rfl⟩, fun h => ?_, fun h => ?_⟩
  · have hk := (h [_] [_] [] rfl (by simp [LocksIn.quiet])).lock 95
    revert hk
    decide
  · have hk := (h [_] [_] [] rfl (by simp [LocksIn.quiet])).lock 95
    revert hk
    decide

end Soc
end Ariane

/-
# The summary bit of `mstatus`

`mstatus_d.sd` is derived from `mstatus_q`, so the bit says what `FS` was one cycle before. It
is right after an edge exactly if that edge leaves `FS` Dirty or not Dirty as it was:
`summary_iff`. Five paths move the field (`fs_next`): a write of `mstatus` or of `sstatus`, a
write of a floating-point register, and the two commit ports.
-/
import Ariane.Csr.WriteRead

namespace Ariane
namespace Csr

open Riscv Lib

variable {cfg : Cfg} {s : Regs} {i : In}

/-! ### The law -/

/-- The summary bit says whether floating-point or other extension state has to be saved, in
the register and in what a supervisor reads. -/
structure SdLaw (s : Regs) : Prop where
  mstatus : s.mstatus.sd = true ↔ s.mstatus.fs = Xs.dirty ∨ s.mstatus.xs = Xs.dirty
  sstatus : ∀ i w, csrReadReg s i .sstatus = some w →
    (w.getLsbD 63 = true ↔ w.extractLsb' 13 2 = Xs.dirty ∨ w.extractLsb' 15 2 = Xs.dirty)

/-- The cycle marks the floating-point state: an instruction on it retires, or one of its
registers is written. -/
def Marks (s : Regs) (i : In) : Prop :=
  i.dirtyFpState = true ∨ s.mstatus.fs ≠ Xs.off ∧ ∃ r, Writes s i r ∧ isFp r = true

/-- The cycle writes `f` to `FS`. -/
def PutsFs (s : Regs) (i : In) (f : Xs) : Prop :=
  (Writes s i .mstatus ∨ Writes s i .sstatus) ∧ (csrWdata s i).extractLsb' 13 2 = f

/-- The cycle leaves the state Dirty, or not Dirty, as it finds it. -/
def Settled (s : Regs) (i : In) : Prop :=
  if s.mstatus.fs = Xs.dirty then Marks s i ∨ ∀ f, PutsFs s i f → f = Xs.dirty
  else ¬Marks s i ∧ ∀ f, PutsFs s i f → f ≠ Xs.dirty

/-! ### What an edge does to the fields -/

theorem writes_unique {r r' : CsrReg} (h : Writes s i r) (h' : Writes s i r') : r = r' :=
  Option.some.inj (h.2.symm.trans h'.2)

/-- The status after the write, with the mark. -/
theorem status_written (cfg : Cfg) (s : Regs) (i : In) :
    let u := updWrite cfg s i (updDefaults s i)
    (u.dirtyFpStateCsr = true ↔ s.mstatus.fs ≠ Xs.off ∧ ∃ r, Writes s i r ∧ isFp r = true) ∧
      u.d.mstatus.xs = (if Writes s i .mstatus then Xs.off else s.mstatus.xs) ∧
      u.d.mstatus.fs = (if Writes s i .mstatus ∨ Writes s i .sstatus then
        (csrWdata s i).extractLsb' 13 2 else s.mstatus.fs) := by
  dsimp only
  by_cases hw : ∃ r, Writes s i r
  · obtain ⟨r, hr⟩ := hw
    have hiff (r' : CsrReg) : Writes s i r' ↔ r = r' := ⟨writes_unique hr, fun h => h ▸ hr⟩
    have hfp (f : Fcsr) (u : Upd) : (fpWrite s u f).dirtyFpStateCsr =
          (if s.mstatus.fs = Xs.off then u.dirtyFpStateCsr else true) ∧
        (fpWrite s u f).d.mstatus = u.d.mstatus := by
      unfold fpWrite
      split <;> exact ⟨rfl, rfl⟩
    have hex : (∃ r', Writes s i r' ∧ isFp r' = true) ↔ isFp r = true :=
      ⟨fun ⟨r', h', hf⟩ => (writes_unique hr h') ▸ hf, fun hf => ⟨r, hr, hf⟩⟩
    rw [updWrite_of_writes hr, hex]
    simp only [hiff]
    cases r with
    | fflags | frm | fcsr | ftran =>
      rw [csrWriteReg, (hfp _ _).1, (hfp _ _).2]
      by_cases hoff : s.mstatus.fs = Xs.off <;> simp [hoff, updDefaults, isFp]
    | sstatus => simp [csrWriteReg, sstatusOfWrite_eq, updDefaults, isFp, Status.ofBits]
    | mstatus => simp [csrWriteReg, mstatusOfWrite, updDefaults, isFp, fpPresent, Status.ofBits]
    | satp =>
      simp only [csrWriteReg]
      split
      · simp [updDefaults, isFp]
      · split <;> simp [updDefaults, isFp]
    | _ => simp [csrWriteReg, updDefaults, isFp]
  · have hnone (r : CsrReg) : ¬Writes s i r := fun h => hw ⟨r, h⟩
    have hd : updWrite cfg s i (updDefaults s i) = { updDefaults s i with
        updateAccessException := (updWrite cfg s i (updDefaults s i)).updateAccessException } := by
      unfold updWrite
      split
      · rename_i hwe
        split
        · rename_i r hr
          exact absurd ⟨hwe, hr⟩ (hnone r)
        · rfl
      · rfl
    rw [hd]
    simp [hnone, updDefaults]

/-- `FS`, `XS` and the summary bit after an edge. -/
theorem fields_next (cfg : Cfg) (s : Regs) (i : In) :
    let u := updWrite cfg s i (updDefaults s i)
    (next cfg s i).mstatus.fs = (if u.dirtyFpStateCsr || i.dirtyFpState then Xs.dirty else u.d.mstatus.fs) ∧
      (next cfg s i).mstatus.xs = u.d.mstatus.xs ∧
      (next cfg s i).mstatus.sd = (s.mstatus.xs == Xs.dirty || s.mstatus.fs == Xs.dirty) := by
  have h := congrArg (fun u : Upd => (u.d.mstatus.fs, u.d.mstatus.xs, u.d.mstatus.sd))
    (early_csrUpdate cfg s i)
  have h' := Prod.mk.inj h
  exact ⟨h'.1, Prod.mk.inj h'.2⟩

open Classical in
theorem fs_next (cfg : Cfg) (s : Regs) (i : In) : (next cfg s i).mstatus.fs =
    if Marks s i then Xs.dirty
    else if Writes s i .mstatus ∨ Writes s i .sstatus then (csrWdata s i).extractLsb' 13 2
    else s.mstatus.fs := by
  obtain ⟨hd, -, hf⟩ := status_written cfg s i
  have hm : ((updWrite cfg s i (updDefaults s i)).dirtyFpStateCsr || i.dirtyFpState) = true ↔ Marks s i := by
    rw [Bool.or_eq_true, hd, or_comm]
    rfl
  rw [(fields_next cfg s i).1, if_congr hm rfl rfl]
  split
  · rfl
  · rw [hf]

/-- No extension but that of floating-point has state. -/
theorem xs_next (h : s.mstatus.xs = Xs.off) : (next cfg s i).mstatus.xs = Xs.off := by
  rw [(fields_next cfg s i).2.1, (status_written cfg s i).2.1, h, ite_self]

/-- An edge is settled exactly if `FS` is Dirty after it as it was before. -/
theorem settled_iff (cfg : Cfg) (s : Regs) (i : In) :
    Settled s i ↔ ((next cfg s i).mstatus.fs = Xs.dirty ↔ s.mstatus.fs = Xs.dirty) := by
  rw [fs_next]
  have hputs (p : Xs → Prop) : (∀ f, PutsFs s i f → p f) ↔
      (Writes s i .mstatus ∨ Writes s i .sstatus → p ((csrWdata s i).extractLsb' 13 2)) :=
    ⟨fun h hw => h _ ⟨hw, rfl⟩, fun h f hf => hf.2 ▸ h hf.1⟩
  by_cases hm : Marks s i
  · by_cases hd : s.mstatus.fs = Xs.dirty <;> simp [Settled, hm, hd]
  · by_cases hw : Writes s i .mstatus ∨ Writes s i .sstatus
    · by_cases hd : s.mstatus.fs = Xs.dirty
      · rw [Settled, if_pos hd, hputs]
        simp [hm, hw, hd]
      · rw [Settled, if_neg hd, hputs]
        simp [hm, hw, hd]
    · by_cases hd : s.mstatus.fs = Xs.dirty
      · rw [Settled, if_pos hd, hputs]
        simp [hm, hw, hd]
      · rw [Settled, if_neg hd, hputs]
        simp [hm, hw, hd]

/-! ### What is read -/

/-- A supervisor sees the three fields as they are. -/
theorem sstatus_fields {w : BitVec 64} (h : csrReadReg s i .sstatus = some w) :
    w.getLsbD 63 = s.mstatus.sd ∧ w.extractLsb' 13 2 = s.mstatus.fs ∧ w.extractLsb' 15 2 = s.mstatus.xs := by
  have hbits := Status.ofBits_toBits s.mstatus
  have hsd : s.mstatus.toBits.getLsbD 63 = s.mstatus.sd := congrArg Status.sd hbits
  have hfs : s.mstatus.toBits.extractLsb' 13 2 = s.mstatus.fs := congrArg Status.fs hbits
  have hxs : s.mstatus.toBits.extractLsb' 15 2 = s.mstatus.xs := congrArg Status.xs hbits
  obtain rfl := Option.some.inj h
  have hmask : smodeStatusReadMask.getLsbD 63 = true ∧
      smodeStatusReadMask.extractLsb' 13 2 = BitVec.allOnes 2 ∧
      smodeStatusReadMask.extractLsb' 15 2 = BitVec.allOnes 2 := by decide
  rw [BitVec.getLsbD_and, BitVec.extractLsb'_and, BitVec.extractLsb'_and, hmask.1, hmask.2.1,
    hmask.2.2, hsd, hfs, hxs, Bool.and_true, BitVec.and_allOnes, BitVec.and_allOnes]
  exact ⟨rfl, rfl, rfl⟩

theorem sdLaw_iff (s : Regs) :
    SdLaw s ↔ (s.mstatus.sd = true ↔ s.mstatus.fs = Xs.dirty ∨ s.mstatus.xs = Xs.dirty) := by
  refine ⟨SdLaw.mstatus, fun h => ⟨h, fun i w hw => ?_⟩⟩
  obtain ⟨h1, h2, h3⟩ := sstatus_fields hw
  rw [h1, h2, h3]
  exact h

/-! ### Runs -/

theorem sdLaw_next (h : s.mstatus.xs = Xs.off) : SdLaw (next cfg s i) ↔ Settled s i := by
  have hoff : (Xs.off == Xs.dirty) = false := rfl
  have hne : Xs.off ≠ Xs.dirty := by decide
  rw [sdLaw_iff, settled_iff cfg, (fields_next cfg s i).2.2, xs_next h, h, hoff, Bool.false_or, beq_iff_eq]
  simp only [hne, or_false]
  exact Iff.comm

/-- Over a run from reset the summary bit is right in every state exactly if every edge leaves
the floating-point state Dirty, or not Dirty, as it finds it. -/
theorem summary_iff (cfg : Cfg) (is : List In) :
    (machine cfg).Always SdLaw reset is ↔ (machine cfg).Steps Settled reset is := by
  have h0 : SdLaw reset := (sdLaw_iff reset).2 (by decide)
  exact Machine.always_iff_steps (I := fun s => s.mstatus.xs = Xs.off) (fun s i h => xs_next h)
    (fun s i h _ => sdLaw_next h) is reset rfl h0

/-- A floating-point load on the first commit port. -/
def In.retireFld : In :=
  { In.idle with
    commitInstr := fun _ => { ScoreboardEntry.empty with fu := .load, op := .fld, valid := true }
    commitAck := fun p => p == 0
    dirtyFpState := true }

/-- Software sets `FS` to Initial, and a load retires: in the next cycle a supervisor reads
`FS` Dirty and the summary bit clear. -/
theorem summary_late :
    let is : List In := [.write .mstatus 0x2000, .retireFld]
    ¬(machine socCfg).Always SdLaw reset is ∧
      csrReadReg ((machine socCfg).run reset is) In.idle .sstatus = some 0x200006000 := by
  refine ⟨fun h => ?_, by decide⟩
  have hlast := (sdLaw_iff _).1 h.last
  exact absurd (hlast.2 (Or.inl (by decide))) (by decide)

end Csr
end Ariane

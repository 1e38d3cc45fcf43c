/-
# SFENCE.VMA and the translations before it

The commit stage turns a retiring `SFENCE.VMA` into `flush_tlb_o` and `flush_ex_o` of the
controller, and its operands are gone by then: the decoder drops `rs2`. The TLBs flush
by the ASID of the current address space instead, and everything if that is 0.

`Marked` is the MMU with the entries that were there before the fence, until they are
overwritten, and whether the walk that is on was started before it. No such walk ever
fills a TLB (`noOldInsert`), but entries of other address spaces survive a fence that
should take them: a fence is complete exactly if the current ASID is 0 or no such entry is
there (`sfence_complete_iff`).
-/
import Ariane.Core.Flush
import Ariane.Decode.Language
import Ariane.Mmu.Mmu
import Ariane.Mmu.Stale

namespace Ariane
namespace Mmu

open Riscv
open Lib (Machine)
open Isa (Instr encode)

variable {P : Params}

/-! ### What was there before the fence -/

structure Marked (P : Params) where
  mmu : Regs P
  itlbOld : Fin P.instrTlbEntries → Bool
  dtlbOld : Fin P.dataTlbEntries → Bool
  walkOld : Bool

/-- The state after the cycle `i` of the fence. Of the entries in front of it, those are
followed that `p` selects by tag and content. -/
def mark (p : Tlb.Tag P.asidWidth → BitVec 64 → Bool) (m : Regs P) (i : In P) : Marked P where
  mmu := next m i
  itlbOld k := (m.itlb.tags k).valid && p (m.itlb.tags k) (m.itlb.content k)
  dtlbOld k := (m.dtlb.tags k).valid && p (m.dtlb.tags k) (m.dtlb.content k)
  walkOld := true

/-- The cycle starts a walk. -/
def startsWalk (m : Regs P) (i : In P) : Bool :=
  !i.flush && (Ptw.starts ⟨m.ptw, []⟩ (ptwIn m i)).isSome

def Marked.next (w : Marked P) (j : In P) : Marked P where
  mmu := Mmu.next w.mmu j
  itlbOld k := w.itlbOld k && !Tlb.replaced w.mmu.itlb (itlbIn w.mmu j) k
  dtlbOld k := w.dtlbOld k && !Tlb.replaced w.mmu.dtlb (dtlbIn w.mmu j) k
  walkOld := w.walkOld && !startsWalk w.mmu j

def marked (P : Params) : Machine (Marked P) (In P) := ⟨fun w => ∃ p m i, w = mark p m i, Marked.next⟩

/-- An old entry hits. -/
def OldHit (w : Marked P) (j : In P) : Prop :=
  (∃ k, w.itlbOld k = true ∧ (w.mmu.itlb.tags k).hit j.asid j.fetchVaddr = true) ∨
    ∃ k, w.dtlbOld k = true ∧ (w.mmu.dtlb.tags k).hit j.asid j.lsuVaddr = true

/-- An old walk fills a TLB. -/
def OldInsert (w : Marked P) (j : In P) : Prop :=
  w.walkOld = true ∧ ((∃ k, Tlb.replaced w.mmu.itlb (itlbIn w.mmu j) k = true) ∨
    ∃ k, Tlb.replaced w.mmu.dtlb (dtlbIn w.mmu j) k = true)

/-- None of the entries in front of the cycle `i` that `p` selects hits after it, for any
lookup under any ASID. -/
def Forgets (p : Tlb.Tag P.asidWidth → BitVec 64 → Bool) (m : Regs P) (i : In P) : Prop :=
  ∀ js, (marked P).Steps (fun w j => ¬OldHit w j) (mark p m i) js

/-- No walk started before the cycle `i` fills a TLB after it. -/
def NoOldInsert (m : Regs P) (i : In P) : Prop :=
  ∀ js, (marked P).Steps (fun w j => ¬OldInsert w j) (mark (fun _ _ => true) m i) js

/-! ### Entries -/

/-- The flush takes the entry. -/
def flushes {n : ℕ} (asid : BitVec n) (t : Tlb.Tag n) : Prop := asid = 0 ∨ asid = t.asid

theorem valid_next_of_flush {n N : ℕ} {s : Tlb.Regs n N} {i : Tlb.In n} (hf : i.flush = true)
    (k : Fin N) : ((Tlb.next s i).tags k).valid = true ↔
      (s.tags k).valid = true ∧ ¬flushes i.luAsid (s.tags k) := by
  have hr : Tlb.replaced s i k = false := by simp [Tlb.replaced, hf]
  rw [Tlb.tags_next hr, hf]
  simp [flushes]

/-- The old entries are gone. -/
def Gone (w : Marked P) : Prop :=
  (∀ k, w.itlbOld k = true → (w.mmu.itlb.tags k).valid = false) ∧
    ∀ k, w.dtlbOld k = true → (w.mmu.dtlb.tags k).valid = false

theorem Gone.step {w : Marked P} (h : Gone w) (j : In P) : Gone (w.next j) := by
  refine ⟨fun k hk => ?_, fun k hk => ?_⟩
  · obtain ⟨hk, hr⟩ : w.itlbOld k = true ∧ Tlb.replaced w.mmu.itlb (itlbIn w.mmu j) k = false := by
      simpa [Marked.next] using hk
    exact Tlb.invalid_next hr (h.1 k hk)
  · obtain ⟨hk, hr⟩ : w.dtlbOld k = true ∧ Tlb.replaced w.mmu.dtlb (dtlbIn w.mmu j) k = false := by
      simpa [Marked.next] using hk
    exact Tlb.invalid_next hr (h.2 k hk)

theorem Gone.not_oldHit {w : Marked P} (h : Gone w) (j : In P) : ¬OldHit w j := by
  rintro (⟨k, hk, hhit⟩ | ⟨k, hk, hhit⟩)
  · exact Bool.false_ne_true ((h.1 k hk).symm.trans (Tlb.valid_of_hit hhit))
  · exact Bool.false_ne_true ((h.2 k hk).symm.trans (Tlb.valid_of_hit hhit))

/-- The flush takes all the entries that `p` selects. -/
def Takes (p : Tlb.Tag P.asidWidth → BitVec 64 → Bool) (m : Regs P) (asid : BitVec P.asidWidth) : Prop :=
  (∀ k, (m.itlb.tags k).valid = true → p (m.itlb.tags k) (m.itlb.content k) = true →
      flushes asid (m.itlb.tags k)) ∧
    ∀ k, (m.dtlb.tags k).valid = true → p (m.dtlb.tags k) (m.dtlb.content k) = true →
      flushes asid (m.dtlb.tags k)

/-- Entries are forgotten if the flush takes them, and otherwise hit as soon as their
address space is the current one. -/
theorem forgets_iff (p : Tlb.Tag P.asidWidth → BitVec 64 → Bool) {m : Regs P} {i : In P}
    (hf : i.flushTlb = true) : Forgets p m i ↔ Takes p m i.asid := by
  have hi := fun k => valid_next_of_flush (s := m.itlb) (i := itlbIn m i) hf k
  have hd := fun k => valid_next_of_flush (s := m.dtlb) (i := dtlbIn m i) hf k
  constructor
  · intro h
    refine ⟨fun k hv hp => ?_, fun k hv hp => ?_⟩
    · by_contra hne
      set t := (next m i).itlb.tags k with ht
      refine (h [{ i with asid := t.asid, fetchVaddr := t.vaddr }]).1 (.inl ⟨k, ?_, ?_⟩)
      · simp [mark, hv, hp]
      · exact Tlb.hit_vaddr ((hi k).2 ⟨hv, hne⟩)
    · by_contra hne
      set t := (next m i).dtlb.tags k with ht
      refine (h [{ i with asid := t.asid, lsuVaddr := t.vaddr }]).1 (.inr ⟨k, ?_, ?_⟩)
      · simp [mark, hv, hp]
      · exact Tlb.hit_vaddr ((hd k).2 ⟨hv, hne⟩)
  · intro h js
    have hgone : Gone (mark p m i) := by
      refine ⟨fun k hk => ?_, fun k hk => ?_⟩
      · obtain ⟨hv, hp⟩ : (m.itlb.tags k).valid = true ∧ p (m.itlb.tags k) (m.itlb.content k) = true := by
          simpa [mark] using hk
        exact Bool.eq_false_iff.2 fun hn => ((hi k).1 hn).2 (h.1 k hv hp)
      · obtain ⟨hv, hp⟩ : (m.dtlb.tags k).valid = true ∧ p (m.dtlb.tags k) (m.dtlb.content k) = true := by
          simpa [mark] using hk
        exact Bool.eq_false_iff.2 fun hn => ((hd k).1 hn).2 (h.2 k hv hp)
    exact Machine.steps_of_inv (fun _ j hg (_ : True) => hg.step j)
      (fun _ j hg _ => hg.not_oldHit j) js _ hgone (Machine.steps_true js _)

/-! ### Walks -/

/-- The walker has no walk to finish. -/
def Idles (s : Ptw.Regs P.asidWidth) : Prop := s.state = .idle ∨ s.state = .waitRvalid

theorem idles_of_flush (s : Ptw.Regs P.asidWidth) {i : Ptw.In P.asidWidth} (hf : i.flush = true) :
    Idles (Ptw.next s i) := by
  show (Ptw.comb s i).stateD = _ ∨ (Ptw.comb s i).stateD = _
  unfold Ptw.comb
  rw [if_pos hf]
  split_ifs
  · exact .inr rfl
  · exact .inl rfl

/-- It stays so until a walk starts. -/
theorem Idles.step {w : Marked P} (h : Idles w.mmu.ptw) (j : In P)
    (hst : startsWalk w.mmu j = false) : Idles (Mmu.next w.mmu j).ptw := by
  cases hf : j.flush with
  | true => exact idles_of_flush _ hf
  | false =>
    have hcomb : Ptw.comb w.mmu.ptw (ptwIn w.mmu j) = Ptw.stateCase w.mmu.ptw (ptwIn w.mmu j) := by
      have hf' : (ptwIn w.mmu j).flush = false := hf
      simp [Ptw.comb, hf']
    show (Ptw.comb w.mmu.ptw (ptwIn w.mmu j)).stateD = _ ∨ (Ptw.comb w.mmu.ptw (ptwIn w.mmu j)).stateD = _
    rw [hcomb, Ptw.stateCase]
    rcases h with hs | hs
    · rw [hs]
      simp only [startsWalk, hf, Ptw.starts, hs, Bool.not_false, Bool.true_and, if_true] at hst
      dsimp only [Ptw.idleCase]
      split_ifs at hst ⊢ with h1 h2
      · cases hst
      · cases hst
      · exact .inl hs
    · rw [hs]
      dsimp only
      split_ifs
      · exact .inl rfl
      · exact .inr hs

/-- A walker without a walk fills nothing. -/
theorem Idles.not_replaced {m : Regs P} (h : Idles m.ptw) (j : In P) :
    (∀ k, Tlb.replaced m.itlb (itlbIn m j) k = false) ∧ ∀ k, Tlb.replaced m.dtlb (dtlbIn m j) k = false := by
  have hc : Ptw.consumes m.ptw = false := by
    rcases h with hs | hs <;> simp [Ptw.consumes, hs]
  obtain ⟨hi, hd⟩ := Ptw.no_update_of_not_consumes (i := ptwIn m j) hc
  exact ⟨fun k => by simp [Tlb.replaced, itlbIn, hi], fun k => by simp [Tlb.replaced, dtlbIn, hd]⟩

theorem noOldInsert {m : Regs P} {i : In P} (hf : i.flush = true) : NoOldInsert m i := by
  intro js
  refine Machine.steps_of_inv (P := fun w => w.walkOld = true → Idles w.mmu.ptw)
    (fun w j h (_ : True) ho => ?_) (fun w j h _ => ?_) js _ (fun _ => idles_of_flush m.ptw hf)
    (Machine.steps_true js _)
  · obtain ⟨ho, hst⟩ : w.walkOld = true ∧ startsWalk w.mmu j = false := by
      simpa [marked, Marked.next] using ho
    exact (h ho).step j hst
  · rintro ⟨ho, ⟨k, hk⟩ | ⟨k, hk⟩⟩
    · rw [((h ho).not_replaced j).1 k] at hk
      cases hk
    · rw [((h ho).not_replaced j).2 k] at hk
      cases hk

/-! ### The fence -/

/-- An `SFENCE.VMA` with the operands `rs1` and `rs2`, as the decoder makes it, retires. -/
structure Fences (cfg : Cfg) (c : Core.State) (x : Core.In) (rs1 rs2 : BitVec 5) : Prop where
  decoded : ∃ d : Decoder.In, d.ex.valid = false ∧ Implemented d.privLvl ∧
    encode (.sfenceVma rs1 rs2) = d.instruction ∧ (Instr.sfenceVma rs1 rs2).Legal d.state ∧
    (x.commitInstr 0).op = (Decoder.instructionO d).op
  retires : (Core.out cfg c x).ack0 = true

/-- The back end drives the MMU. -/
structure Drives (cfg : Cfg) (c : Core.State) (x : Core.In) (i : In P) : Prop where
  flush : ∃ b, i.flush = (Core.ctrl cfg c x b).flushEx
  flushTlb : ∃ b, i.flushTlb = (Core.ctrl cfg c x b).flushTlb
  asid : i.asid = c.csr.satp.asid.setWidth P.asidWidth

section Fence

variable {cfg : Cfg} {c : Core.State} {x : Core.In} {rs1 rs2 : BitVec 5} {i : In P}

theorem Fences.op (h : Fences cfg c x rs1 rs2) : (x.commitInstr 0).op = .sfenceVma := by
  obtain ⟨d, hex, himp, hw, hl, hop⟩ := h.decoded
  have his := Decoder.decodes_encode hex (fun _ _ _ => himp) hw hl
  have huop : (Decoder.instructionO d).op = (Instr.sfenceVma rs1 rs2).uop.op :=
    congrArg Uop.op (Decoder.uop_instructionO.trans his.uop)
  rw [hop, huop]
  rfl

/-- The pipeline and the TLBs are flushed in the cycle it retires. -/
theorem Fences.flushes (h : Fences cfg c x rs1 rs2) (hd : Drives cfg c x i) :
    i.flush = true ∧ i.flushTlb = true := by
  have hack := h.retires
  have hsf : (Core.out cfg c x).sfenceVma = true := by
    have hop : (Commit.instr0 (Core.commitOf cfg c x)).op = .sfenceVma := h.op
    rw [Core.out, Commit.commit_ack0] at hack
    rw [Core.out, Commit.commit_sfenceVma]
    simp only [hop, Bool.and_eq_true] at hack ⊢
    refine ⟨⟨hack.1, rfl⟩, ?_⟩
    simpa [FuOp.isAmo] using hack.2
  obtain ⟨b, hflush⟩ := hd.flush
  obtain ⟨b', htlb⟩ := hd.flushTlb
  refine ⟨?_, ?_⟩
  · rw [hflush]
    simp [Core.ctrl, Controller.flushCtrl, Controller.In.refetch, Core.ctrlIn, hsf]
  · rw [htlb]
    simp [Core.ctrl, Controller.flushCtrl, Core.ctrlIn, hsf]

end Fence

/-- Any entry. -/
def anyEntry {n : ℕ} (_ : Tlb.Tag n) (_ : BitVec 64) : Bool := true

/-- The entries of an address space that are not global. -/
def ofSpace {n : ℕ} (asid : BitVec n) (t : Tlb.Tag n) (pte : BitVec 64) : Bool :=
  t.asid == asid && !Sv39.g pte

theorem space_of_ofSpace {n : ℕ} {asid : BitVec n} {t : Tlb.Tag n} {pte : BitVec 64}
    (h : ofSpace asid t pte = true) : t.asid = asid := by
  simp only [ofSpace, Bool.and_eq_true, beq_iff_eq] at h
  exact h.1

/-- What the architecture asks of an `SFENCE.VMA` in the cycle `i`, `v` being the value of
its register `rs2`. -/
structure Complete (m : Regs P) (i : In P) (rs1 rs2 : BitVec 5) (v : BitVec 64) : Prop where
  all : rs1 = 0 → rs2 = 0 → Forgets anyEntry m i
  space : rs2 ≠ 0 → Forgets (ofSpace (v.setWidth P.asidWidth)) m i
  walks : NoOldInsert m i

/-- The entries the fence is for are of the current address space. -/
structure Current (m : Regs P) (asid : BitVec P.asidWidth) (rs1 rs2 : BitVec 5) (v : BitVec 64) : Prop where
  all : rs1 = 0 → rs2 = 0 →
    (∀ k, (m.itlb.tags k).valid = true → (m.itlb.tags k).asid = asid) ∧
      ∀ k, (m.dtlb.tags k).valid = true → (m.dtlb.tags k).asid = asid
  space : rs2 ≠ 0 → v.setWidth P.asidWidth = asid ∨
    (∀ k, (m.itlb.tags k).valid = true → ofSpace (v.setWidth P.asidWidth) (m.itlb.tags k) (m.itlb.content k) = false) ∧
      ∀ k, (m.dtlb.tags k).valid = true →
        ofSpace (v.setWidth P.asidWidth) (m.dtlb.tags k) (m.dtlb.content k) = false

/-- A retiring `SFENCE.VMA` is complete, for every content of the TLBs and whatever
happens afterwards, exactly if the current ASID is 0 or the entries it is for are of the
current address space. -/
theorem sfence_complete_iff {cfg : Cfg} {c : Core.State} {x : Core.In} {rs1 rs2 : BitVec 5}
    (h : Fences cfg c x rs1 rs2) {i : In P} (hd : Drives cfg c x i) (m : Regs P) (v : BitVec 64) :
    Complete m i rs1 rs2 v ↔ i.asid = 0 ∨ Current m i.asid rs1 rs2 v := by
  obtain ⟨hflush, htlb⟩ := h.flushes hd
  have hall : Forgets anyEntry m i ↔ Takes anyEntry m i.asid := forgets_iff _ htlb
  have hspace := forgets_iff (ofSpace (v.setWidth P.asidWidth)) (m := m) htlb
  constructor
  · intro hc
    by_cases h0 : i.asid = 0
    · exact .inl h0
    · refine .inr ⟨fun h1 h2 => ?_, fun h2 => ?_⟩
      · obtain ⟨hi, hdt⟩ := hall.1 (hc.all h1 h2)
        exact ⟨fun k hv => ((hi k hv rfl).resolve_left h0).symm,
          fun k hv => ((hdt k hv rfl).resolve_left h0).symm⟩
      · by_cases hv : v.setWidth P.asidWidth = i.asid
        · exact .inl hv
        · obtain ⟨hi, hdt⟩ := hspace.1 (hc.space h2)
          refine .inr ⟨fun k hk => ?_, fun k hk => ?_⟩
          · exact Bool.eq_false_iff.2 fun hp =>
              hv ((space_of_ofSpace hp).symm.trans ((hi k hk hp).resolve_left h0).symm)
          · exact Bool.eq_false_iff.2 fun hp =>
              hv ((space_of_ofSpace hp).symm.trans ((hdt k hk hp).resolve_left h0).symm)
  · rintro (h0 | hc)
    · exact ⟨fun _ _ => hall.2 ⟨fun _ _ _ => .inl h0, fun _ _ _ => .inl h0⟩,
        fun _ => hspace.2 ⟨fun _ _ _ => .inl h0, fun _ _ _ => .inl h0⟩, noOldInsert hflush⟩
    · refine ⟨fun h1 h2 => hall.2 ?_, fun h2 => hspace.2 ?_, noOldInsert hflush⟩
      · exact ⟨fun k hv _ => .inr ((hc.all h1 h2).1 k hv).symm, fun k hv _ => .inr ((hc.all h1 h2).2 k hv).symm⟩
      · rcases hc.space h2 with hv | ⟨hi, hdt⟩
        · exact ⟨fun k _ hp => .inr (hv.symm.trans (space_of_ofSpace hp).symm),
            fun k _ hp => .inr (hv.symm.trans (space_of_ofSpace hp).symm)⟩
        · refine ⟨fun k hk hp => ?_, fun k hk hp => ?_⟩
          · rw [hi k hk] at hp
            cases hp
          · rw [hdt k hk] at hp
            cases hp

/-! ### A fence in one address space and an entry of another -/

/-- The MMU of the load-store unit. -/
def lsuParams : Params := ⟨1, 16, 16, fun _ => true⟩

/-- One entry in the DTLB: the page at 0. -/
def oneEntry (asid : BitVec 1) : Regs lsuParams :=
  { reset with
    dtlb := ⟨fun k => ⟨asid, 0, 0, 0, false, false, k.val == 0⟩, fun _ => 0xcf, fun _ => false⟩ }

/-- `SFENCE.VMA x0, x0` on the first commit port. -/
def sfenceIn : Core.In :=
  { Core.In.idle with commitInstr := fun p =>
      if p = 0 then { ScoreboardEntry.empty with fu := .csr, op := .sfenceVma, valid := true }
      else ScoreboardEntry.empty }

/-- The back end after a write to `satp`. -/
def inSpace (asid : BitVec 16) : Core.State :=
  { Core.reset with csr := { Csr.reset with satp := ⟨8, asid, 0⟩ } }

/-- The MMU in that cycle. -/
def fenceCycle (asid : BitVec 1) : In lsuParams :=
  ⟨true, true, true, true, false, 0, Exn.none, false, 0, false, privLvlS, privLvlS, false, false, 0, asid,
    false, false, 0⟩

theorem fences_sfenceIn : Fences socCfg (inSpace 1) sfenceIn 0 0 where
  decoded := by
    refine ⟨Decoder.plainIn (encode (.sfenceVma 0 0)) ⟨privLvlM, false, Xs.off, 0, false, false, false⟩,
      rfl, .inr (.inr rfl), rfl, ?_, by decide +kernel⟩
    exact ⟨by decide, fun h => absurd h.1 (by decide)⟩
  retires := by decide +kernel

theorem drives_fenceCycle : Drives socCfg (inSpace 1) sfenceIn (fenceCycle 1) where
  flush := ⟨false, by decide +kernel⟩
  flushTlb := ⟨false, by decide +kernel⟩
  asid := by decide

theorem sfence_complete_current : Complete (oneEntry 1) (fenceCycle 1) 0 0 0 := by
  refine (sfence_complete_iff fences_sfenceIn drives_fenceCycle (oneEntry 1) 0).2 (.inr ⟨fun _ _ => ?_, ?_⟩)
  · exact ⟨fun k hk => absurd hk Bool.false_ne_true, fun _ _ => rfl⟩
  · exact fun h => absurd rfl h

/-- An entry of address space 0 survives the fence in address space 1, and hits as soon as
the core is back in address space 0. -/
theorem entry_survives_fence :
    Fences socCfg (inSpace 1) sfenceIn 0 0 ∧ Drives socCfg (inSpace 1) sfenceIn (fenceCycle 1) ∧
      OldHit (mark anyEntry (oneEntry 0) (fenceCycle 1)) { fenceCycle 0 with lsuReq := true } ∧
      ¬Complete (oneEntry 0) (fenceCycle 1) 0 0 0 := by
  have hold : OldHit (mark anyEntry (oneEntry 0) (fenceCycle 1)) { fenceCycle 0 with lsuReq := true } :=
    .inr ⟨(0 : Fin 16), by decide +kernel, by decide +kernel⟩
  refine ⟨fences_sfenceIn, drives_fenceCycle, hold, fun h => ?_⟩
  exact (h.all rfl rfl [{ fenceCycle 0 with lsuReq := true }]).1 hold

end Mmu
end Ariane

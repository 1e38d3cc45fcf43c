/-
# What the retirement counters count

`minstret` in `csr_regfile.sv` and the counters of `perf_counters.sv` see the commit stage. The
first adds up both ports. The loop over the ports in `perf_counters.sv` stops one short, so a
load, a jump or a branch that retires on the second port is not counted; and a write of
`minstret` goes to a variable that is not read any more. `counters_iff` says that nothing else
parts the counters from a tally of what retires. No store retires on the second port, so the
counter of stores is right (`second_port`).
-/
import Ariane.Core.Fault

namespace Ariane
namespace Core
namespace Counters

open Riscv Lib

/-! ### The back end with its counters -/

/-- The counters of retired instructions. -/
inductive Counter
  | instret | load | store | branchJump
deriving DecidableEq, Repr

/-- The register of a counter. -/
def Counter.csr : Counter → CsrReg
  | instret => .minstret
  | load => .mhpmcounter 4
  | store => .mhpmcounter 5
  | branchJump => .mhpmcounter 8

/-- The instructions a counter is for. -/
def Counter.counts (k : Counter) (e : ScoreboardEntry) : Bool :=
  match k with
  | instret => true
  | load => e.fu = .load
  | store => e.fu = .store
  | branchJump => e.fu = .ctrlFlow

/-- The back end, the counters, and a tally of what the counters are for. -/
structure State where
  core : Core.State
  perf : Csr.Perf
  tally : Counter → BitVec 64

structure In where
  core : Core.In
  perf : Csr.PerfIn

/-- The value of a counter. -/
def State.value (s : State) : Counter → BitVec 64
  | .instret => s.core.csr.instret
  | .load => s.perf 4
  | .store => s.perf 5
  | .branchJump => s.perf 8

/-- The inputs of the back end; `perf_data_i` comes from the counters. -/
def State.pins (s : State) (i : In) : Core.In :=
  { i.core with perfData := Csr.perfDataO s.perf (i.core.csrAddr.extractLsb' 0 5) }

/-- The inputs of the CSR file. -/
def State.csrIn (cfg : Cfg) (s : State) (i : In) : Csr.In := Core.csrIn cfg s.core (s.pins i)

/-- How many of the acknowledged instructions a counter is for. -/
def retired (k : Counter) (j : Csr.In) : ℕ :=
  (j.commitAck 0 && k.counts (j.commitInstr 0)).toNat + (j.commitAck 1 && k.counts (j.commitInstr 1)).toNat

/-- The tally: a write replaces it, and outside debug mode it counts on. -/
def tallyNext (cfg : Cfg) (s : State) (i : In) (t : Counter → BitVec 64) (k : Counter) : BitVec 64 :=
  let j := s.csrIn cfg i
  if Csr.Writes s.core.csr j k.csr then Csr.csrWdata s.core.csr j
  else if s.core.csr.debugMode then t k
  else t k + BitVec.ofNat 64 (retired k j)

def next (cfg : Cfg) (s : State) (i : In) : State where
  core := Core.next cfg s.core (s.pins i)
  perf := perfNext cfg s.core (s.pins i) i.perf s.perf
  tally := tallyNext cfg s i s.tally

def machine (cfg : Cfg) : Machine State In := ⟨(· = ⟨Core.reset, fun _ => 0, fun _ => 0⟩), next cfg⟩

/-- The counters agree with the tally. -/
def Exact (s : State) : Prop := ∀ k, s.value k = s.tally k

/-! ### The tally of a run -/

/-- Over a run outside debug mode that writes no counter the tally is the number of
instructions that retired, on either port. -/
theorem tally_eq_count (cfg : Cfg) (k : Counter) : ∀ (is : List In) (s : State),
    (machine cfg).Steps (fun s i => s.core.csr.debugMode = false ∧
      ¬Csr.Writes s.core.csr (s.csrIn cfg i) k.csr) s is →
    ((machine cfg).run s is).tally k = s.tally k + BitVec.ofNat 64
      ((machine cfg).count (fun s i => (s.csrIn cfg i).commitAck 0 && k.counts ((s.csrIn cfg i).commitInstr 0)) s is +
        (machine cfg).count (fun s i => (s.csrIn cfg i).commitAck 1 && k.counts ((s.csrIn cfg i).commitInstr 1)) s is) := by
  intro is
  induction is with
  | nil => exact fun s _ => (BitVec.add_zero _).symm
  | cons i is ih =>
    rintro s ⟨⟨hd, hw⟩, his⟩
    have hstep : ((machine cfg).next s i).tally k = s.tally k + BitVec.ofNat 64 (retired k (s.csrIn cfg i)) := by
      show tallyNext cfg s i s.tally k = _
      simp only [tallyNext, if_neg hw, hd, Bool.false_eq_true, if_false]
    rw [Machine.run_cons, ih _ his, hstep, BitVec.add_assoc, ← BitVec.ofNat_add]
    simp only [Machine.count, retired]
    congr 2
    omega

/-! ### What one edge counts -/

variable {cfg : Cfg} {s : State} {i : In}

/-- The edge counts right: nothing that is counted retires behind the first port, and a write
of `minstret` has the value it would have anyway. -/
structure Countable (cfg : Cfg) (s : State) (i : In) : Prop where
  second : s.core.csr.debugMode = false → (s.csrIn cfg i).commitAck 1 = true →
    ((s.csrIn cfg i).commitInstr 1).fu ≠ .load ∧ ((s.csrIn cfg i).commitInstr 1).fu ≠ .ctrlFlow
  minstret : Csr.Writes s.core.csr (s.csrIn cfg i) .minstret →
    Csr.csrWdata s.core.csr (s.csrIn cfg i) =
      if s.core.csr.debugMode then s.core.csr.instret else s.core.csr.instret + 1

/-- The second port retires no CSR access, no store, and nothing behind a CSR access. -/
theorem second_port (h : (s.csrIn cfg i).commitAck 1 = true) :
    (i.core.commitInstr 0).fu ≠ .csr ∧ (i.core.commitInstr 1).fu.onSecondPort = true ∧
      (s.csrIn cfg i).commitAck 0 = true := by
  have h1 : (Commit.commit (commitOf cfg s.core (s.pins i))).ack1 = true := h
  have h0 := (Commit.ack0_of_ack1 _ h1).1
  rw [Commit.commit_ack1] at h1
  simp only [Bool.and_eq_true, bne_iff_ne, ne_eq] at h1
  exact ⟨h1.1.1.1.1.1.2, h1.2, h0⟩

/-- A CSR access is alone in its cycle. -/
theorem alone_of_writes {r : CsrReg} (h : Csr.Writes s.core.csr (s.csrIn cfg i) r) :
    csrCommits s.core (s.pins i) = true ∧ (i.core.commitInstr 0).op.isCsrAccess = true ∧
      (s.csrIn cfg i).commitAck 1 = false := by
  have hacc : (s.csrIn cfg i).csrOp.isCsrAccess = true := by
    have hwe := h.1
    simp only [Csr.csrWe, Bool.and_eq_true] at hwe
    exact hwe.1.1
  have hop : (s.csrIn cfg i).csrOp = if csrCommits s.core (s.pins i) then (i.core.commitInstr 0).op else .add :=
    csrIn_csrOp cfg s.core (s.pins i)
  rw [hop] at hacc
  by_cases hc : csrCommits s.core (s.pins i) = true
  · rw [if_pos hc] at hacc
    refine ⟨hc, hacc, ?_⟩
    rw [Bool.eq_false_iff]
    intro h1
    have hfu : (i.core.commitInstr 0).fu = .csr := by
      simp only [csrCommits, Bool.and_eq_true, beq_iff_eq] at hc
      exact hc.2
    exact (second_port h1).1 hfu
  · rw [if_neg hc] at hacc
    cases hacc

/-- A write of `minstret` retires. -/
theorem ack0_of_minstret (hc : (Core.machine cfg).Reachable s.core)
    (h : Csr.Writes s.core.csr (s.csrIn cfg i) .minstret) : (s.csrIn cfg i).commitAck 0 = true := by
  obtain ⟨hcc, hop, -⟩ := alone_of_writes h
  have hex : (Csr.csrExceptionO cfg s.core.csr (s.csrIn cfg i)).valid = false := by
    rw [Bool.eq_false_iff]
    intro hv
    rcases Csr.refused_of_writes h hv with hr | hr
    · cases hr
    · cases hr
  have hex' : (commitOf cfg s.core (s.pins i)).csrException.valid = false := by
    rw [State.csrIn, csrException_settles] at hex
    exact hex
  exact Commit.ack0_of_accepted _ (fun hf => flush_halts hc hf) (by rw [commitOf, csrCommits_eq, hcc])
    (.inl hop) hex'

/-! ### `minstret` -/

theorem instret_csrWriteReg (cfg : Cfg) (r : Csr.Regs) (w : BitVec 64) (u : Csr.Upd) (q : CsrReg) :
    (Csr.csrWriteReg cfg r w u q).d.instret = u.d.instret := by
  have hfp (f : Fcsr) : (Csr.fpWrite r u f).d.instret = u.d.instret := by
    obtain ⟨g, hg⟩ := Csr.fpWrite_d r u f
    rw [hg]
  cases q with
  | fflags => exact hfp _
  | frm => exact hfp _
  | fcsr => exact hfp _
  | ftran => exact hfp _
  | satp =>
    obtain ⟨p, hp⟩ := Csr.csrWriteReg_satp_d cfg r w u
    rw [hp]
  | _ => rfl

/-- `minstret` adds up the acknowledged instructions, whatever is written. -/
theorem instret_next (cfg : Cfg) (r : Csr.Regs) (j : Csr.In) : (Csr.next cfg r j).instret =
    if r.debugMode then r.instret else Csr.instretNext r j := by
  have hearly := congrArg (fun u : Csr.Upd => u.d.instret) (Csr.early_csrUpdate cfg r j)
  have hnext : (Csr.next cfg r j).instret = (Csr.updWrite cfg r j (Csr.updDefaults r j)).d.instret := hearly
  rw [hnext]
  unfold Csr.updWrite
  split
  · split
    · rw [instret_csrWriteReg]
      rfl
    · rfl
  · rfl

theorem instretNext_eq (hc : (Core.machine cfg).Reachable s.core) :
    Csr.instretNext s.core.csr (s.csrIn cfg i) =
      s.core.csr.instret + BitVec.ofNat 64 (retired .instret (s.csrIn cfg i)) := by
  have hack : (s.csrIn cfg i).ex.valid = true →
      (s.csrIn cfg i).commitAck 0 = false ∧ (s.csrIn cfg i).commitAck 1 = false := by
    intro hv
    have h0 : (s.csrIn cfg i).commitAck 0 = false := (exception_cycle hc hv).1
    refine ⟨h0, ?_⟩
    rw [Bool.eq_false_iff]
    intro h1
    rw [(second_port h1).2.2] at h0
    cases h0
  unfold Csr.instretNext retired Counter.counts
  cases hv : (s.csrIn cfg i).ex.valid with
  | true =>
    obtain ⟨h0, h1⟩ := hack hv
    simp [h0, h1]
  | false =>
    cases (s.csrIn cfg i).commitAck 0 <;> cases (s.csrIn cfg i).commitAck 1 <;> simp [BitVec.add_assoc]

/-- An edge counts right for `minstret` unless it loses a write. -/
theorem instret_iff (hc : (Core.machine cfg).Reachable s.core) :
    (next cfg s i).value .instret = tallyNext cfg s i s.value .instret ↔
      (Csr.Writes s.core.csr (s.csrIn cfg i) .minstret → Csr.csrWdata s.core.csr (s.csrIn cfg i) =
        if s.core.csr.debugMode then s.core.csr.instret else s.core.csr.instret + 1) := by
  have hnext : (next cfg s i).value .instret =
      if s.core.csr.debugMode then s.core.csr.instret else Csr.instretNext s.core.csr (s.csrIn cfg i) :=
    instret_next cfg s.core.csr (s.csrIn cfg i)
  rw [hnext, instretNext_eq hc, tallyNext]
  by_cases hw : Csr.Writes s.core.csr (s.csrIn cfg i) .minstret
  · have hret : retired .instret (s.csrIn cfg i) = 1 := by
      simp [retired, Counter.counts, ack0_of_minstret hc hw, (alone_of_writes hw).2.2]
    have hw' : Csr.Writes s.core.csr (s.csrIn cfg i) Counter.instret.csr := hw
    rw [if_pos hw', hret]
    exact ⟨fun h _ => h.symm, fun h => (h hw).symm⟩
  · have hw' : ¬Csr.Writes s.core.csr (s.csrIn cfg i) Counter.instret.csr := hw
    rw [if_neg hw']
    exact iff_of_true rfl fun h => absurd h hw

/-! ### The counters of `perf_counters` -/

/-- The strobe and the data of the write of a cycle. -/
theorem perfWrite_csrUpdate (cfg : Cfg) (r : Csr.Regs) (j : Csr.In) (n : Fin 14) :
    ((Csr.csrUpdate cfg r j).perfWe = true ∧ Csr.perfAddrO j = Csr.perfAddr n ↔
        Csr.Writes r j (.mhpmcounter ⟨n.val, by omega⟩)) ∧
      ((Csr.csrUpdate cfg r j).perfWe = true → (Csr.csrUpdate cfg r j).perfData = Csr.csrWdata r j) := by
  have hearly := congrArg (fun u : Csr.Upd => (u.perfWe, u.perfData)) (Csr.early_csrUpdate cfg r j)
  obtain ⟨hwe, hdata⟩ := Prod.mk.inj hearly
  have hwe' : (Csr.csrUpdate cfg r j).perfWe = (Csr.updWrite cfg r j (Csr.updDefaults r j)).perfWe := hwe
  have hdata' : (Csr.csrUpdate cfg r j).perfData = (Csr.updWrite cfg r j (Csr.updDefaults r j)).perfData := hdata
  rw [hwe', hdata']
  by_cases hw : ∃ q, Csr.Writes r j q
  · obtain ⟨q, hq⟩ := hw
    have hiff : Csr.Writes r j (.mhpmcounter ⟨n.val, by omega⟩) ↔ q = .mhpmcounter ⟨n.val, by omega⟩ :=
      ⟨fun h => Option.some.inj (hq.2.symm.trans h.2), fun he => he ▸ hq⟩
    rw [Csr.updWrite_of_writes hq, hiff]
    have hfp (f : Fcsr) : (Csr.fpWrite r (Csr.updDefaults r j) f).perfWe = false := by
      unfold Csr.fpWrite
      split <;> rfl
    cases q with
    | mhpmcounter m =>
      have ha : j.csrAddr = (CsrReg.mhpmcounter m).addr := (CsrReg.addr_of_ofAddr hq.2).symm
      refine ⟨?_, fun _ => rfl⟩
      rw [Csr.perfAddrO, ha, Csr.perfAddr_mhpmcounter]
      simp [Csr.csrWriteReg, Fin.ext_iff]
    | fflags | frm | fcsr | ftran => simp [Csr.csrWriteReg, hfp]
    | satp =>
      have hsatp : (Csr.csrWriteReg cfg r (Csr.csrWdata r j) (Csr.updDefaults r j) .satp).perfWe = false := by
        simp only [Csr.csrWriteReg]
        split
        · rfl
        · split <;> rfl
      simp [hsatp]
    | _ => simp [Csr.csrWriteReg, Csr.updDefaults]
  · have hnone : ¬Csr.Writes r j (.mhpmcounter ⟨n.val, by omega⟩) := fun h => hw ⟨_, h⟩
    have hwf : (Csr.updWrite cfg r j (Csr.updDefaults r j)).perfWe = false := by
      unfold Csr.updWrite
      split
      · rename_i hwe
        split
        · rename_i q hq
          exact absurd ⟨q, hwe, hq⟩ hw
        · rfl
      · rfl
    simp [hwf, hnone]

open Classical in
/-- A counter after the edge: what is written to it, or one more for its event. -/
theorem perf_next (cfg : Cfg) (s : State) (i : In) (n : Fin 14) : (next cfg s i).perf n =
    if Csr.Writes s.core.csr (s.csrIn cfg i) (.mhpmcounter ⟨n.val, by omega⟩) then
      Csr.csrWdata s.core.csr (s.csrIn cfg i)
    else if s.core.csr.debugMode then s.perf n
    else s.perf n + BitVec.ofNat 64
      (Csr.perfEvent i.perf (s.csrIn cfg i) (Csr.eretO cfg s.core.csr (s.csrIn cfg i)) n).toNat := by
  obtain ⟨hiff, hdata⟩ := perfWrite_csrUpdate cfg s.core.csr (s.csrIn cfg i) n
  have hnext : (next cfg s i).perf n = Csr.perfNext s.core.csr.debugMode
      (Csr.perfEvent i.perf (s.csrIn cfg i) (Csr.eretO cfg s.core.csr (s.csrIn cfg i)))
      (Csr.csrUpdate cfg s.core.csr (s.csrIn cfg i)).perfWe (Csr.perfAddrO (s.csrIn cfg i))
      (Csr.csrUpdate cfg s.core.csr (s.csrIn cfg i)).perfData s.perf n := rfl
  rw [hnext, Csr.perfNext]
  by_cases hw : Csr.Writes s.core.csr (s.csrIn cfg i) (.mhpmcounter ⟨n.val, by omega⟩)
  · obtain ⟨hwe, ha⟩ := hiff.2 hw
    rw [if_pos hw, if_pos (by simp [hwe, ha]), hdata hwe]
  · have hno : ¬((Csr.csrUpdate cfg s.core.csr (s.csrIn cfg i)).perfWe &&
        decide (Csr.perfAddrO (s.csrIn cfg i) = Csr.perfAddr n)) = true := by
      simpa using fun h1 h2 => hw (hiff.1 ⟨h1, h2⟩)
    rw [if_neg hw, if_neg hno]
    cases s.core.csr.debugMode
    · cases Csr.perfEvent i.perf (s.csrIn cfg i) (Csr.eretO cfg s.core.csr (s.csrIn cfg i)) n <;> simp
    · rfl

/-- A counter with an event on the first port counts right exactly if none of its instructions
retires on the second. -/
theorem event_iff {k : Counter} {n : Fin 14} (hk : k.csr = .mhpmcounter ⟨n.val, by omega⟩)
    (hv : ∀ s : State, s.value k = s.perf n)
    (he : ∀ j eret, Csr.perfEvent i.perf j eret n = (j.commitAck 0 && k.counts (j.commitInstr 0))) :
    (next cfg s i).value k = tallyNext cfg s i s.value k ↔
      (s.core.csr.debugMode = false → (s.csrIn cfg i).commitAck 1 = true →
        k.counts ((s.csrIn cfg i).commitInstr 1) = false) := by
  rw [hv, perf_next, tallyNext, hk, hv s, he]
  by_cases hw : Csr.Writes s.core.csr (s.csrIn cfg i) (.mhpmcounter ⟨n.val, by omega⟩)
  · rw [if_pos hw, if_pos hw]
    refine iff_of_true rfl fun _ h1 => ?_
    rw [(alone_of_writes hw).2.2] at h1
    cases h1
  · rw [if_neg hw, if_neg hw]
    cases hd : s.core.csr.debugMode with
    | true => simp
    | false =>
      simp only [Bool.false_eq_true, if_false, retired, forall_const]
      cases h1 : (s.csrIn cfg i).commitAck 1 with
      | false => simp
      | true =>
        cases hc : k.counts ((s.csrIn cfg i).commitInstr 1) with
        | false => simp
        | true =>
          have hne (x y : BitVec 64) : x + y ≠ x + (y + 1#64) := by bv_omega
          simp [BitVec.ofNat_add, hne]

theorem load_iff : (next cfg s i).value .load = tallyNext cfg s i s.value .load ↔
    (s.core.csr.debugMode = false → (s.csrIn cfg i).commitAck 1 = true →
      Counter.load.counts ((s.csrIn cfg i).commitInstr 1) = false) :=
  event_iff (n := 4) rfl (fun _ => rfl) fun _ _ => rfl

theorem branchJump_iff : (next cfg s i).value .branchJump = tallyNext cfg s i s.value .branchJump ↔
    (s.core.csr.debugMode = false → (s.csrIn cfg i).commitAck 1 = true →
      Counter.branchJump.counts ((s.csrIn cfg i).commitInstr 1) = false) :=
  event_iff (n := 8) rfl (fun _ => rfl) fun _ _ => rfl

theorem store_next : (next cfg s i).value .store = tallyNext cfg s i s.value .store := by
  refine (event_iff (n := 5) (k := .store) rfl (fun _ => rfl) fun _ _ => rfl).2 fun _ h1 => ?_
  have hfu : ((s.csrIn cfg i).commitInstr 1).fu.onSecondPort = true := (second_port h1).2.1
  rw [Counter.counts, decide_eq_false_iff_not]
  intro hs
  rw [hs] at hfu
  cases hfu

/-- An edge keeps the counters with the tally exactly if it counts right. -/
theorem exact_next_iff (hc : (Core.machine cfg).Reachable s.core) (hx : Exact s) :
    Exact (next cfg s i) ↔ Countable cfg s i := by
  have htally : s.tally = s.value := (funext hx).symm
  have hstep : Exact (next cfg s i) ↔ ∀ k, (next cfg s i).value k = tallyNext cfg s i s.value k := by
    rw [← htally]
    rfl
  rw [hstep]
  constructor
  · intro h
    refine ⟨fun hd h1 => ?_, (instret_iff hc).1 (h .instret)⟩
    have hload := load_iff.1 (h .load) hd h1
    have hbranch := branchJump_iff.1 (h .branchJump) hd h1
    exact ⟨by simpa [Counter.counts] using hload, by simpa [Counter.counts] using hbranch⟩
  · intro h k
    cases k with
    | instret => exact (instret_iff hc).2 h.minstret
    | load => exact load_iff.2 fun hd h1 => by simpa [Counter.counts] using (h.second hd h1).1
    | store => exact store_next
    | branchJump => exact branchJump_iff.2 fun hd h1 => by simpa [Counter.counts] using (h.second hd h1).2

/-- In a run from reset the counters agree with the tally in every state exactly if no load,
jump or branch retires on the second port and no write of `minstret` is lost. -/
theorem counters_iff (cfg : Cfg) (is : List In) :
    (machine cfg).Always Exact ⟨Core.reset, fun _ => 0, fun _ => 0⟩ is ↔
      (machine cfg).Steps (Countable cfg) ⟨Core.reset, fun _ => 0, fun _ => 0⟩ is := by
  refine Machine.always_iff_steps (I := fun s => (Core.machine cfg).Reachable s.core)
    (fun s i h => h.next (s.pins i)) (fun s i h hx => exact_next_iff h hx) is _
    ⟨Core.reset, [], rfl, rfl⟩ fun k => ?_
  cases k <;> rfl

/-- Two loads retire together. -/
def twoLoads : In where
  core := { Core.In.idle with
    commitInstr := fun _ => { ScoreboardEntry.empty with fu := .load, op := .ld, valid := true } }
  perf := Csr.PerfIn.idle

/-- Two loads in one cycle count as one. -/
theorem loads_count_once : ¬(machine socCfg).Always Exact ⟨Core.reset, fun _ => 0, fun _ => 0⟩ [twoLoads] := by
  rintro ⟨-, h⟩
  exact absurd (h .load) (by decide)

end Counters
end Core
end Ariane

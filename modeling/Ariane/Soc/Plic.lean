/-
# The interrupt controller

`plic_top.sv` has a gateway for each source (`rv_plic_gateway.sv`), a notification for each target
(`rv_plic_target.sv`) and registers behind a bus (`plic_regmap.sv`). A read of a target's register of
claims takes the source that its notification names, a write to it completes the source whose number is
written.

The notification is a register: in the edge after a claim it can still name the source that has just
been claimed. Where a claim never follows another in the next edge, and only what has been claimed is
completed, every source goes round in raise, claim and completion (`claimed_once`). What a notification
names is the best of the candidates of the edge before (`notify_best`).
-/
import Mathlib.Data.List.FinRange
import Ariane.Lib.Machine

namespace Ariane
namespace Plic

open Lib

/-! ### Registers -/

/-- `N_SOURCE`. -/
def nSource : ℕ := 30

/-- `N_TARGET`. -/
def nTarget : ℕ := 2

abbrev Source := Fin nSource

abbrev Target := Fin nTarget

/-- The registers on the bus; priority `0` belongs to no source. -/
inductive Reg
  | prio (i : Fin (nSource + 1))
  | ip
  | ie (j : Target)
  | threshold (j : Target)
  | cc (j : Target)
deriving DecidableEq

def Reg.addr : Reg → BitVec 32
  | .prio i => 0xc000000 + 4 * BitVec.ofNat 32 i
  | .ip => 0xc001000
  | .ie j => 0xc002000 + 0x80 * BitVec.ofNat 32 j
  | .threshold j => 0xc200000 + 0x1000 * BitVec.ofNat 32 j
  | .cc j => 0xc200004 + 0x1000 * BitVec.ofNat 32 j

def Reg.all : List Reg :=
  (List.finRange (nSource + 1)).map .prio ++ [.ip] ++ (List.finRange nTarget).map .ie ++
    (List.finRange nTarget).map .threshold ++ (List.finRange nTarget).map .cc

def Reg.ofAddr (a : BitVec 32) : Option Reg := Reg.all.find? fun g => g.addr == a

/-- A request on the bus, with the data of a write. -/
structure Req where
  write : Bool
  addr : BitVec 32
  wdata : BitVec 32

/-- `prio_q`, `ie_q`, `threshold_q`, the gateways' `src_d`, `ip` and `ia`, the notifications. -/
structure Regs where
  prio : Source → BitVec 3
  ie : Target → Source → Bool
  threshold : Target → BitVec 3
  srcD : Source → Bool
  ip : Source → Bool
  ia : Source → Bool
  irq : Target → Bool
  irqId : Target → BitVec 5

structure In where
  /-- Edge or level. -/
  le : Source → Bool
  src : Source → Bool
  req : Option Req

def Regs.reset : Regs where
  prio _ := 0
  ie _ _ := false
  threshold _ := 0
  srcD _ := false
  ip _ := false
  ia _ := false
  irq _ := false
  irqId _ := 0

/-- The number of a source on the bus and in a notification. -/
def Source.id (i : Source) : BitVec 5 := BitVec.ofNat 5 (i + 1)

/-! ### Notifications -/

/-- What the loop of a target carries: `max_prio`, `irq_id_next`, `irq_next`. -/
structure Best where
  maxPrio : BitVec 3
  id : BitVec 5
  irq : Bool

namespace Regs

variable (r : Regs) (i : In)

/-- One round of the loop. -/
def consider (j : Target) (i : Source) (b : Best) : Best :=
  if r.ip i && r.ie j i && decide (b.maxPrio ≤ r.prio i) then ⟨r.prio i, Source.id i, true⟩ else b

/-- The loop of `gen_sequential`, from the last source to the first. -/
def best (j : Target) : Best := (List.finRange nSource).foldr (r.consider j) ⟨r.threshold j + 1, 0, false⟩

/-! ### The bus -/

/-- The register that is written, with the data. -/
def written (i : In) : Option (Reg × BitVec 32) :=
  i.req.bind fun q => if q.write then (Reg.ofAddr q.addr).map fun g => (g, q.wdata) else none

def readReg (i : In) : Option Reg := i.req.bind fun q => if q.write then none else Reg.ofAddr q.addr

/-- `claim_re`. -/
def claimRe (i : In) (j : Target) : Bool := readReg i == some (.cc j)

/-- `complete_we` with `complete_id`. -/
def completeId (i : In) (j : Target) : Option (BitVec 5) :=
  (written i).bind fun w => if w.1 = .cc j then some (w.2.setWidth 5) else none

/-- `claim`. -/
def claim (s : Source) : Bool := (List.finRange nTarget).any fun j => claimRe i j && r.irqId j == Source.id s

/-- `complete`. -/
def complete (i : In) (s : Source) : Bool :=
  (List.finRange nTarget).any fun j => completeId i j == some (Source.id s)

/-- `rdata`. -/
def rdata : Reg → BitVec 32
  | .prio g => if h : 0 < g.val then (r.prio ⟨g.val - 1, by have := g.isLt; omega⟩).setWidth 32 else 0
  | .ip => BitVec.ofNat 32 (((List.finRange nSource).map fun s => (r.ip s).toNat * 2 ^ (s.val + 1)).sum)
  | .ie j => BitVec.ofNat 32 (((List.finRange nSource).map fun s => (r.ie j s).toNat * 2 ^ (s.val + 1)).sum)
  | .threshold j => (r.threshold j).setWidth 32
  | .cc j => (r.irqId j).setWidth 32

/-! ### Gateways -/

/-- `set`. -/
def set (s : Source) : Bool := if i.le s then i.src s && !r.srcD s else i.src s

def next : Regs where
  prio s :=
    match written i with
    | some (.prio g, d) => if g.val = s.val + 1 then d.setWidth 3 else r.prio s
    | _ => r.prio s
  ie j s :=
    match written i with
    | some (.ie k, d) => if k = j then d.getLsbD (s.val + 1) else r.ie j s
    | _ => r.ie j s
  threshold j :=
    match written i with
    | some (.threshold k, d) => if k = j then d.setWidth 3 else r.threshold j
    | _ => r.threshold j
  srcD := i.src
  ip s := (r.ip s || (r.set i s && !r.ia s && !r.ip s)) && !r.claim i s
  ia s := (r.ia s || (r.set i s && !r.ia s)) && !complete i s
  irq j := (r.best j).irq
  irqId j := (r.best j).id

end Regs

/-! ### What a target is told -/

/-- A source that may interrupt the target. -/
def Candidate (r : Regs) (j : Target) (s : Source) : Prop :=
  r.ip s = true ∧ r.ie j s = true ∧ r.threshold j < r.prio s

/-- No candidate has a greater priority, and none of the same a smaller number. -/
def Winner (r : Regs) (j : Target) (s : Source) : Prop :=
  Candidate r j s ∧ ∀ s', Candidate r j s' → r.prio s' < r.prio s ∨ (r.prio s' = r.prio s ∧ s ≤ s')

section Notify

variable {r : Regs} {j : Target}

/-- What the loop has found among the sources `l`. -/
structure Found (r : Regs) (j : Target) (l : List Source) (b : Best) : Prop where
  none : b.irq = false → b.id = 0 ∧ b.maxPrio = r.threshold j + 1 ∧ ∀ s ∈ l, ¬Candidate r j s
  some : b.irq = true → ∃ s ∈ l, Candidate r j s ∧ b.id = Source.id s ∧ b.maxPrio = r.prio s ∧
    ∀ s' ∈ l, Candidate r j s' → r.prio s' < r.prio s ∨ (r.prio s' = r.prio s ∧ s ≤ s')

theorem lt_iff_succ_le {t p : BitVec 3} (ht : t ≠ 7) : t < p ↔ t + 1 ≤ p := by
  revert t p
  decide

theorem Found.cons {s : Source} {l : List Source} {b : Best} (h : Found r j l b) (ht : r.threshold j ≠ 7)
    (hl : ∀ s' ∈ l, s ≤ s') : Found r j (s :: l) (r.consider j s b) := by
  by_cases hc : (r.ip s && r.ie j s && decide (b.maxPrio ≤ r.prio s)) = true
  · -- the source is taken: it is a candidate, and not below the best so far
    have hb : r.consider j s b = ⟨r.prio s, Source.id s, true⟩ := by rw [Regs.consider, if_pos hc]
    simp only [Bool.and_eq_true, decide_eq_true_eq] at hc
    obtain ⟨⟨hip, hie⟩, hle⟩ := hc
    rw [hb]
    refine ⟨by simp, fun _ => ?_⟩
    cases hi : b.irq with
    | false =>
      obtain ⟨_, hm, hn⟩ := h.none hi
      have hcand : Candidate r j s := ⟨hip, hie, (lt_iff_succ_le ht).2 (hm ▸ hle)⟩
      refine ⟨s, List.mem_cons_self, hcand, rfl, rfl, fun s' hs' hc' => ?_⟩
      rcases List.mem_cons.1 hs' with rfl | hs'
      · exact .inr ⟨rfl, le_refl _⟩
      · exact absurd hc' (hn s' hs')
    | true =>
      obtain ⟨w, hw, hcw, _, hm, hbest⟩ := h.some hi
      rw [hm] at hle
      have hcand : Candidate r j s := ⟨hip, hie, Nat.lt_of_lt_of_le hcw.2.2 hle⟩
      refine ⟨s, List.mem_cons_self, hcand, rfl, rfl, fun s' hs' hc' => ?_⟩
      rcases List.mem_cons.1 hs' with rfl | hs'
      · exact .inr ⟨rfl, le_refl _⟩
      · rcases hbest s' hs' hc' with hp | ⟨hp, _⟩
        · exact .inl (Nat.lt_of_lt_of_le hp hle)
        · by_cases heq : r.prio s' = r.prio s
          · exact .inr ⟨heq, hl s' hs'⟩
          · exact .inl (BitVec.lt_of_le_ne (hp ▸ hle) heq)
  · -- the source is no candidate, or below the best so far
    have hb : r.consider j s b = b := by rw [Regs.consider, if_neg hc]
    simp only [Bool.and_eq_true, decide_eq_true_eq, not_and] at hc
    rw [hb]
    refine ⟨fun hi => ?_, fun hi => ?_⟩
    · obtain ⟨hid, hm, hn⟩ := h.none hi
      refine ⟨hid, hm, fun s' hs' hc' => ?_⟩
      rcases List.mem_cons.1 hs' with rfl | hs'
      · exact hc ⟨hc'.1, hc'.2.1⟩ (hm ▸ (lt_iff_succ_le ht).1 hc'.2.2)
      · exact hn s' hs' hc'
    · obtain ⟨w, hw, hcw, hid, hm, hbest⟩ := h.some hi
      refine ⟨w, List.mem_cons_of_mem _ hw, hcw, hid, hm, fun s' hs' hc' => ?_⟩
      rcases List.mem_cons.1 hs' with rfl | hs'
      · exact .inl (BitVec.not_le.1 (hm ▸ hc ⟨hc'.1, hc'.2.1⟩))
      · exact hbest s' hs' hc'

theorem found_foldr (ht : r.threshold j ≠ 7) : ∀ l : List Source, l.Pairwise (· ≤ ·) →
    Found r j l (l.foldr (r.consider j) ⟨r.threshold j + 1, 0, false⟩)
  | [], _ => ⟨fun _ => ⟨rfl, rfl, by simp⟩, by simp⟩
  | s :: l, h => (found_foldr ht l (List.pairwise_cons.1 h).2).cons ht (List.pairwise_cons.1 h).1

/-- **A target is told the best candidate.** With a threshold below the highest priority, and for every
state of the registers: the notification after an edge is raised if and only if the target has a
candidate, and names the one that wins. -/
theorem notify_best (r : Regs) (i : In) (j : Target) (ht : r.threshold j ≠ 7) :
    ((r.next i).irq j = true ↔ ∃ s, Candidate r j s) ∧
      ((r.next i).irq j = true → ∃ s, Winner r j s ∧ (r.next i).irqId j = Source.id s) ∧
      ((r.next i).irq j = false → (r.next i).irqId j = 0) := by
  have hf : Found r j (List.finRange nSource) (r.best j) :=
    found_foldr ht _ (List.pairwise_le_finRange nSource)
  refine ⟨⟨fun h => ?_, fun ⟨s, hs⟩ => ?_⟩, fun h => ?_, fun h => (hf.none h).1⟩
  · obtain ⟨s, _, hc, _⟩ := hf.some h
    exact ⟨s, hc⟩
  · cases hi : (r.best j).irq with
    | false => exact absurd hs ((hf.none hi).2.2 s (List.mem_finRange s))
    | true => exact hi
  · obtain ⟨s, _, hc, hid, _, hbest⟩ := hf.some h
    exact ⟨s, ⟨hc, fun s' => hbest s' (List.mem_finRange s')⟩, hid⟩

end Notify

/-- The source with number 5. -/
def five : Source := ⟨4, by decide⟩

def first : Target := ⟨0, by decide⟩

def quietIn : In := ⟨fun _ => false, fun _ => false, none⟩

/-- Every source is enabled. Those with the numbers 3, 5 and 9 are pending, and 3 has a lower priority. -/
def pendingThree : Regs :=
  { Regs.reset with
    prio := fun s => if s.val < 4 then 1 else 2
    ie := fun _ _ => true
    ip := fun s => s.val == 2 || s.val == 4 || s.val == 8 }

theorem notify_best_five :
    (pendingThree.next quietIn).irqId first = Source.id five ∧
      ((pendingThree.next quietIn).irq first = true ↔ ∃ s, Candidate pendingThree first s) ∧
      ((pendingThree.next quietIn).irq first = true →
        ∃ s, Winner pendingThree first s ∧ (pendingThree.next quietIn).irqId first = Source.id s) ∧
      ((pendingThree.next quietIn).irq first = false → (pendingThree.next quietIn).irqId first = 0) :=
  ⟨by decide +kernel, notify_best pendingThree quietIn first (by decide)⟩

/-! ### The round of a source -/

inductive Kind
  | raise | claim | complete
deriving DecidableEq

inductive Phase
  | idle | pending | service
deriving DecidableEq

/-- A source is raised, claimed and completed in turn. -/
def Phase.step : Phase → Kind → Option Phase
  | .idle, .raise => some .pending
  | .pending, .claim => some .service
  | .service, .complete => some .idle
  | _, _ => none

def follows (l : List Kind) : Option Phase := l.foldlM Phase.step .idle

namespace Regs

variable (r : Regs) (i : In)

/-- What happens to the source: `ia` rises, a claim takes it, it is completed. -/
def events (s : Source) : List Kind :=
  (if r.set i s && !r.ia s then [.raise] else []) ++ (if r.claim i s then [.claim] else []) ++
    if complete i s then [.complete] else []

def phase (s : Source) : Phase := if r.ip s then .pending else if r.ia s then .service else .idle

end Regs

/-- A register of claims is read. -/
def claims (i : In) : Bool := (List.finRange nTarget).any (Regs.claimRe i)

/-- The controller with what has happened to each source, and whether the last edge read a register of
claims. -/
structure Tracked where
  regs : Regs
  claimed : Bool
  log : Source → List Kind

def Tracked.next (t : Tracked) (i : In) : Tracked where
  regs := t.regs.next i
  claimed := claims i
  log s := t.log s ++ t.regs.events i s

def Tracked.reset : Tracked := ⟨.reset, false, fun _ => []⟩

def machine : Machine Tracked In := ⟨(· = .reset), Tracked.next⟩

/-- Claims are an edge apart, and only what is in service is completed. -/
def Fit (t : Tracked) (i : In) : Prop :=
  (t.claimed = true → claims i = false) ∧
    ∀ s, Regs.complete i s = true → follows (t.log s) = some .service

instance (t : Tracked) (i : In) : Decidable (Fit t i) :=
  inferInstanceAs (Decidable ((t.claimed = true → claims i = false) ∧
    ∀ s, Regs.complete i s = true → follows (t.log s) = some .service))

/-- A pending source is active, and unless the last edge took a claim, what a notification names is
pending. -/
structure Inv (t : Tracked) : Prop where
  phase : ∀ s, follows (t.log s) = some (t.regs.phase s)
  active : ∀ s, t.regs.ip s = true → t.regs.ia s = true
  fresh : t.claimed = false → ∀ j s, t.regs.irqId j = Source.id s → t.regs.ip s = true

section Rounds

variable {t : Tracked} {i : In}

theorem id_inj {s s' : Source} (h : Source.id s = Source.id s') : s = s' := by
  have hs := s.isLt
  have hs' := s'.isLt
  simp only [nSource] at hs hs'
  have := congrArg BitVec.toNat h
  simp only [Source.id, BitVec.toNat_ofNat] at this
  exact Fin.ext (by omega)

theorem id_ne_zero (s : Source) : Source.id s ≠ 0 := by
  intro h
  have hs := s.isLt
  simp only [nSource] at hs
  have := congrArg BitVec.toNat h
  simp only [Source.id, BitVec.toNat_ofNat] at this
  simp at this
  omega

/-- The loop names a pending source or none. -/
theorem foldr_ip (r : Regs) (j : Target) (b : BitVec 3) : ∀ l : List Source,
    (l.foldr (r.consider j) ⟨b, 0, false⟩).id = 0 ∨
      ∃ s, r.ip s = true ∧ (l.foldr (r.consider j) ⟨b, 0, false⟩).id = Source.id s
  | [] => .inl rfl
  | s :: l => by
    rw [List.foldr_cons, Regs.consider]
    by_cases hc : (r.ip s && r.ie j s &&
        decide ((l.foldr (r.consider j) ⟨b, 0, false⟩).maxPrio ≤ r.prio s)) = true
    · rw [if_pos hc]
      simp only [Bool.and_eq_true] at hc
      exact .inr ⟨s, hc.1.1, rfl⟩
    · rw [if_neg hc]
      exact foldr_ip r j b l

theorem ip_of_notified (r : Regs) (i : In) {j : Target} {s : Source}
    (h : (r.next i).irqId j = Source.id s) : r.ip s = true := by
  have h' : (r.best j).id = Source.id s := h
  rcases foldr_ip r j (r.threshold j + 1) (List.finRange nSource) with h0 | ⟨s', hs', hid⟩
  · exact absurd (h'.symm.trans h0) (id_ne_zero s)
  · rwa [id_inj (h'.symm.trans hid)]

theorem claims_of_claim {r : Regs} {s : Source} (h : r.claim i s = true) :
    claims i = true ∧ ∃ j, r.irqId j = Source.id s := by
  simp only [Regs.claim, List.any_eq_true, Bool.and_eq_true, beq_iff_eq] at h
  obtain ⟨j, hj, hre, hid⟩ := h
  exact ⟨List.any_eq_true.2 ⟨j, hj, hre⟩, j, hid⟩

/-- A claim takes a pending source. -/
theorem Inv.ip_of_claim (h : Inv t) (hf : Fit t i) {s : Source} (hc : t.regs.claim i s = true) :
    t.regs.ip s = true := by
  obtain ⟨hcl, j, hid⟩ := claims_of_claim hc
  refine h.fresh ?_ j s hid
  cases hp : t.claimed with
  | false => rfl
  | true =>
    rw [hf.1 hp] at hcl
    cases hcl

theorem Inv.phase_of_complete (h : Inv t) (hf : Fit t i) {s : Source} (hc : Regs.complete i s = true) :
    t.regs.ip s = false ∧ t.regs.ia s = true := by
  have hp : t.regs.phase s = .service := Option.some.inj ((h.phase s).symm.trans (hf.2 s hc))
  unfold Regs.phase at hp
  cases hip : t.regs.ip s with
  | true => simp [hip] at hp
  | false =>
    cases hia : t.regs.ia s with
    | true => exact ⟨rfl, rfl⟩
    | false => simp [hip, hia] at hp

theorem follows_append (l m : List Kind) : follows (l ++ m) = (follows l).bind fun p => m.foldlM Phase.step p := by
  simp [follows, List.foldlM_append]

theorem Inv.next (h : Inv t) (hf : Fit t i) : Inv (t.next i) where
  phase := by
    intro s
    have hlog : follows (t.log s ++ t.regs.events i s) = some ((t.regs.next i).phase s) := by
      rw [follows_append, h.phase s, Option.bind_some]
      have hcl := h.ip_of_claim hf (s := s)
      have hco := h.phase_of_complete hf (s := s)
      have hact := h.active s
      -- the three phases, each with the events that it admits
      cases hip : t.regs.ip s with
      | true =>
        have hia := hact hip
        have hnc : Regs.complete i s = false := by
          by_contra hc
          rw [(hco (by simpa using hc)).1] at hip
          cases hip
        cases hc : t.regs.claim i s <;>
          simp [Regs.phase, Regs.events, Regs.next, hip, hia, hnc, hc, Phase.step]
      | false =>
        have hnc : t.regs.claim i s = false := by
          by_contra hc
          rw [hcl (by simpa using hc)] at hip
          cases hip
        cases hia : t.regs.ia s with
        | true =>
          cases hc : Regs.complete i s <;>
            simp [Regs.phase, Regs.events, Regs.next, hip, hia, hnc, hc, Phase.step]
        | false =>
          have hnd : Regs.complete i s = false := by
            by_contra hc
            rw [(hco (by simpa using hc)).2] at hia
            cases hia
          cases hs : t.regs.set i s <;>
            simp [Regs.phase, Regs.events, Regs.next, hip, hia, hnc, hnd, hs, Phase.step]
    exact hlog
  active := by
    intro s hip
    have hnext : ((t.regs.ip s || (t.regs.set i s && !t.regs.ia s && !t.regs.ip s)) &&
        !t.regs.claim i s) = true := hip
    have hgoal : ((t.regs.ia s || (t.regs.set i s && !t.regs.ia s)) && !Regs.complete i s) = true := by
      have hact := h.active s
      have hco := h.phase_of_complete hf (s := s)
      cases hc : Regs.complete i s with
      | true =>
        obtain ⟨h1, h2⟩ := hco hc
        simp [h1, h2] at hnext
      | false =>
        cases hip' : t.regs.ip s with
        | true => simp [hact hip']
        | false =>
          simp only [hip', Bool.false_or, Bool.and_eq_true] at hnext
          simp [hnext.1.1.1]
    exact hgoal
  fresh := by
    intro hcl j s hid
    have hip := ip_of_notified t.regs i hid
    have hnc : t.regs.claim i s = false := by
      by_contra hc
      have hcl' : claims i = false := hcl
      rw [(claims_of_claim (by simpa using hc)).1] at hcl'
      cases hcl'
    have hgoal : ((t.regs.ip s || (t.regs.set i s && !t.regs.ia s && !t.regs.ip s)) &&
        !t.regs.claim i s) = true := by simp [hip, hnc]
    exact hgoal

end Rounds

theorem inv_reset : Inv .reset where
  phase := fun s => rfl
  active := fun s h => h
  fresh := by
    intro _ j s h
    exact absurd h.symm (id_ne_zero s)

/-- **Every interrupt is claimed once.** In every run in which claims are an edge apart and only what is
in service is completed, whatever the sources do and whatever is written to the other registers: each
source is raised, claimed and completed in turn, and is pending from its raise to its claim. -/
theorem claimed_once (is : List In) (h : machine.Steps Fit .reset is) (s : Source) :
    follows ((machine.run .reset is).log s) = some ((machine.run .reset is).regs.phase s) :=
  (Machine.run_inv (M := machine) (P := Inv) (fun _ _ hi hf => hi.next hf) is .reset inv_reset h).phase s

/-- A source is enabled for the first target with priority 1, raised, claimed and completed. -/
def oneRound : List In :=
  [⟨fun _ => false, fun _ => false, some ⟨true, 0xc002000, 0x20⟩⟩,
    ⟨fun _ => false, fun _ => false, some ⟨true, 0xc000014, 1⟩⟩,
    ⟨fun _ => false, fun s => s == five, none⟩,
    quietIn,
    ⟨fun _ => false, fun _ => false, some ⟨false, 0xc200004, 0⟩⟩,
    ⟨fun _ => false, fun _ => false, some ⟨true, 0xc200004, 5⟩⟩]

theorem claimed_once_five :
    (machine.run .reset oneRound).log five = [.raise, .claim, .complete] ∧
      follows ((machine.run .reset oneRound).log five) = some ((machine.run .reset oneRound).regs.phase five) :=
  ⟨by decide +kernel, claimed_once oneRound (by decide +kernel) five⟩

end Plic
end Ariane

/-
# Hits in the TLBs and fresh walks

A walk checks the entry it loads, a hit checks some of it again. `Traced` is the MMU with
the memory the walker reads, and for every entry the page table it was loaded from (`Src`):
the root, the memory, and whether the memory has been the same ever since the walk began.

An entry of an unchanged page table is the leaf of a fresh walk of every address it hits
(`Loaded.leaf`). The answers differ from those of the architecture only in what a hit does
not check again (`hit_agrees_iff`): a load does not look at the read permission, which the
walk may have waived because of `MXR`. The access faults of a fetch, for the address and
for the regions of executable memory, are no part of the translation.
-/
import Ariane.Csr.Regfile
import Ariane.Mmu.Sfence

namespace Ariane
namespace Mmu

open Riscv
open Lib (Machine)
open Sv39 (Access Leaf Walk)

variable {P : Params}

/-! ### The architecture -/

/-- The privilege a page is for: user pages are for user mode, and for loads and stores of
supervisor mode if `sum` is set. -/
def userOk (priv : PrivLvl) (sum : Bool) (acc : Access) (pte : BitVec 64) : Bool :=
  if priv = privLvlU then user pte
  else if priv = privLvlS then !user pte || sum && acc != .fetch
  else true

/-- The physical address, or none for a page fault. -/
def sv39 (mem : BitVec 56 → BitVec 64) (root : BitVec 44) (priv : PrivLvl) (sum : Bool) (acc : Access)
    (va : BitVec 64) : Option (BitVec 64) :=
  if canonical va then
    ((Sv39.translate mem va root acc).filter fun l => userOk priv sum acc l.pte).map (·.paddr va)
  else none

/-- What a request is answered with. -/
inductive Outcome
  | ok (paddr : BitVec 64)
  | fault (cause : BitVec 64)
deriving DecidableEq, Repr

def FetchAnswer.outcome (a : FetchAnswer) : Outcome :=
  if a.exception.valid then .fault a.exception.cause else .ok a.paddr

def LsuAnswer.outcome (a : LsuAnswer) : Outcome :=
  if a.exception.valid then .fault a.exception.cause else .ok a.paddr

/-- The effective privilege of loads and stores. -/
def effectivePriv (c : Csr.Regs) : PrivLvl :=
  if c.mstatus.mprv && (!c.debugMode || c.dcsr.mprven) then c.mstatus.mpp else Csr.privLvlO c

def fetchOutcome (mem : BitVec 56 → BitVec 64) (c : Csr.Regs) (va : BitVec 64) : Outcome :=
  match sv39 mem c.satp.ppn (Csr.privLvlO c) c.mstatus.sum .fetch va with
  | some pa => .ok pa
  | none => .fault instrPageFault

def dataOutcome (mem : BitVec 56 → BitVec 64) (c : Csr.Regs) (isStore : Bool) (va : BitVec 64) : Outcome :=
  match sv39 mem c.satp.ppn (effectivePriv c) c.mstatus.sum
      (if isStore then .store c.mstatus.mxr else .load c.mstatus.mxr) va with
  | some pa => .ok pa
  | none => .fault (if isStore then storePageFault else loadPageFault)

/-! ### Page tables and entries -/

/-- The page table of a walk or an entry, and whether it is as it was since the walk
began. -/
structure Src where
  root : BitVec 44
  mem : BitVec 56 → BitVec 64
  kept : Prop

/-- The memory of one more cycle. -/
def Src.keep (src : Src) (mem : BitVec 56 → BitVec 64) : Src := { src with kept := src.kept ∧ mem = src.mem }

/-- The page table is the current one. -/
def Src.Unchanged (src : Src) (mem : BitVec 56 → BitVec 64) (root : BitVec 44) : Prop :=
  src.kept ∧ mem = src.mem ∧ root = src.root

structure Traced (P : Params) where
  mmu : Regs P
  pending : List (BitVec 56)
  walk : Src
  itlb : Fin P.instrTlbEntries → Src
  dtlb : Fin P.dataTlbEntries → Src

/-- A cycle of the MMU, and the memory in it. -/
structure Cycle (P : Params) where
  io : In P
  mem : BitVec 56 → BitVec 64

def Traced.sys (w : Traced P) : Ptw.Sys P.asidWidth := ⟨w.mmu.ptw, w.pending⟩

def Traced.next (w : Traced P) (y : Cycle P) : Traced P where
  mmu := Mmu.next w.mmu y.io
  pending := (w.sys.next (ptwIn w.mmu y.io)).pending
  walk := if startsWalk w.mmu y.io then ⟨y.io.satpPpn, y.mem, True⟩ else w.walk.keep y.mem
  itlb k := (if Tlb.replaced w.mmu.itlb (itlbIn w.mmu y.io) k then w.walk else w.itlb k).keep y.mem
  dtlb k := (if Tlb.replaced w.mmu.dtlb (dtlbIn w.mmu y.io) k then w.walk else w.dtlb k).keep y.mem

def tracedReset : Traced P :=
  ⟨reset, [], ⟨0, fun _ => 0, False⟩, fun _ => ⟨0, fun _ => 0, False⟩, fun _ => ⟨0, fun _ => 0, False⟩⟩

def traced (P : Params) : Machine (Traced P) (Cycle P) := ⟨(· = tracedReset), Traced.next⟩

/-- The cache answers the walker from memory, in order, and the walker is not flushed while
it waits for an answer it gave up. -/
def Served (w : Traced P) (y : Cycle P) : Prop :=
  Ptw.Serves y.mem w.sys (ptwIn w.mmu y.io) ∧ Ptw.WaitsForAnswer w.sys (ptwIn w.mmu y.io)

/-- An entry is the leaf of an address in its page table, aligned and accessed, with the
size and the page numbers in its tag. -/
def Loaded {n : ℕ} (src : Src) (t : Tlb.Tag n) (content : BitVec 64) (ok : Leaf → Prop) : Prop :=
  ∃ va l, (Sv39.walk src.mem va 2 src.root false).leaf = some l ∧
    l.aligned = true ∧ Sv39.a l.pte = true ∧ ok l ∧
    t.vpn2 = Sv39.vpn va 2 ∧ t.vpn1 = Sv39.vpn va 1 ∧ t.vpn0 = Sv39.vpn va 0 ∧
    t.is2M = (l.level == 1) ∧ t.is1G = (l.level == 2) ∧
    content = l.pte ||| (BitVec.ofBool l.global).setWidth 64 <<< 5

/-- The page numbers that a hit compares. -/
theorem vpn_of_hit {n : ℕ} {t : Tlb.Tag n} {asid : BitVec n} {va va' : BitVec 64} {lvl : ℕ}
    (h : t.hit asid va' = true) (h2 : t.vpn2 = Sv39.vpn va 2) (h1 : t.vpn1 = Sv39.vpn va 1)
    (h0 : t.vpn0 = Sv39.vpn va 0) (hm : t.is2M = (lvl == 1)) (hg : t.is1G = (lvl == 2)) :
    ∀ k, lvl ≤ k → k ≤ 2 → Sv39.vpn va' k = Sv39.vpn va k := by
  simp only [Tlb.Tag.hit, hm, hg, h2, h1, h0, Bool.and_eq_true, Bool.or_eq_true, beq_iff_eq] at h
  obtain ⟨⟨-, hv2⟩, hrest⟩ := h
  intro k hk hk2
  obtain rfl | rfl | rfl : k = 0 ∨ k = 1 ∨ k = 2 := by omega
  · obtain rfl : lvl = 0 := by omega
    exact (hrest.resolve_left (by omega)).2.resolve_left (by omega)
  · have hl : lvl ≠ 2 := by omega
    exact (hrest.resolve_left hl).1
  · exact hv2

/-- An entry that hits an address is the leaf of a fresh walk of the address. -/
theorem Loaded.leaf {n : ℕ} {src : Src} {t : Tlb.Tag n} {content : BitVec 64} {ok : Leaf → Prop}
    (h : Loaded src t content ok) {asid : BitVec n} {va : BitVec 64} (hhit : t.hit asid va = true) :
    ∃ l, (Sv39.walk src.mem va 2 src.root false).leaf = some l ∧ l.aligned = true ∧
      Sv39.a l.pte = true ∧ ok l ∧ t.is2M = (l.level == 1) ∧ t.is1G = (l.level == 2) ∧
      content = l.pte ||| (BitVec.ofBool l.global).setWidth 64 <<< 5 := by
  obtain ⟨va₀, l, hw, hal, ha, hok, h2, h1, h0, hm, hg, hc⟩ := h
  exact ⟨l, Sv39.walk_congr _ _ hw (vpn_of_hit hhit h2 h1 h0 hm hg), hal, ha, hok, hm, hg, hc⟩

/-! ### Fills -/

section Fill

variable {n : ℕ} {t : Ptw.Sys n} {i : Ptw.In n} {j : Ptw.Job n} {rest : Walk} {todo : List (BitVec 56)}

/-- The walk that is on is part of the walk of its address. -/
def OnWalk (j : Ptw.Job n) (t : Ptw.Sys n) : Prop :=
  ∃ rest todo, Ptw.Phase j t rest todo ∧ rest.leaf = j.walk.leaf

theorem OnWalk.step (h : OnWalk j t) (hf : i.flush = false) (hsv : Ptw.Serves j.mem t i)
    (hs : (t.next i).regs.state = .waitGrant ∨ (t.next i).regs.state = .pteLookup) :
    OnWalk j (t.next i) := by
  obtain ⟨rest, todo, hph, hleaf⟩ := h
  cases hph with
  | grant hat hst hp hr =>
    obtain ⟨todo', hph, -, -⟩ := Ptw.step_grant hf hsv hat hst hp
    exact ⟨rest, todo', hph, hleaf⟩
  | wait hat hst hp hr => exact ⟨rest, _, (Ptw.step_wait hf hsv hat hst hp hr).1, hleaf⟩
  | ready hat hst hp hr hd =>
    rcases Ptw.step_ready hf hsv hat hst hp hr hd with ⟨rest', hph, hleaf', -, -, -⟩ | ⟨-, hend⟩
    · exact ⟨rest', _, hph, hleaf'.trans hleaf⟩
    · -- the walk is over
      unfold Ptw.Concludes at hend
      split at hend <;> rcases hs with hs | hs <;> rw [hend.1] at hs <;> cases hs

/-- The flush changes nothing but the state. -/
theorem comb_flush (s : Ptw.Regs n) (i : Ptw.In n) :
    (Ptw.comb s i).itlbUpdateValid = (Ptw.comb s { i with flush := false }).itlbUpdateValid ∧
      (Ptw.comb s i).dtlbUpdateValid = (Ptw.comb s { i with flush := false }).dtlbUpdateValid := by
  have hcase : Ptw.stateCase s { i with flush := false } = Ptw.stateCase s i := rfl
  have hcomb : Ptw.comb s { i with flush := false } = Ptw.stateCase s i := by
    rw [Ptw.comb, if_neg Bool.false_ne_true, hcase]
  rw [hcomb, Ptw.comb]
  split_ifs <;> exact ⟨rfl, rfl⟩

/-- A TLB is filled with the leaf of the walk, which permits the access. -/
theorem OnWalk.fill (h : OnWalk j t) (hsv : Ptw.Serves j.mem t i)
    (hu : (Ptw.comb t.regs i).itlbUpdateValid = true ∨ (Ptw.comb t.regs i).dtlbUpdateValid = true) :
    ∃ l, j.walk.leaf = some l ∧ l.permits (Ptw.access j.isInstr i) = true ∧
      Ptw.tlbUpdate t.regs = ⟨j.va.extractLsb' 12 27, l.level == 1, l.level == 2, j.asid,
        l.pte ||| (BitVec.ofBool l.global).setWidth 64 <<< 5⟩ ∧
      ((Ptw.comb t.regs i).itlbUpdateValid = true → j.isInstr = true) ∧
      ((Ptw.comb t.regs i).dtlbUpdateValid = true → j.isInstr = false) := by
  have hc : Ptw.consumes t.regs = true := by
    by_contra hc
    obtain ⟨hi, hd⟩ := Ptw.no_update_of_not_consumes (i := i) (Bool.eq_false_iff.2 hc)
    rw [hi, hd] at hu
    exact hu.elim Bool.false_ne_true Bool.false_ne_true
  simp only [Ptw.consumes, Bool.and_eq_true, beq_iff_eq] at hc
  obtain ⟨hi, hd⟩ := comb_flush t.regs i
  rw [hi, hd] at hu ⊢
  set i' : Ptw.In n := { i with flush := false } with hi'
  have hei (h : (Ptw.comb t.regs i').itlbUpdateValid = true) :
      .itlb (Ptw.tlbUpdate t.regs) ∈ Ptw.eventsO t.regs i' := by simp [Ptw.eventsO, h]
  have hed (h : (Ptw.comb t.regs i').dtlbUpdateValid = true) :
      .dtlb (Ptw.tlbUpdate t.regs) ∈ Ptw.eventsO t.regs i' := by simp [Ptw.eventsO, h]
  have hev := hu.imp hei hed
  obtain ⟨rest, todo, hph, hleaf⟩ := h
  cases hph with
  | grant _ hst => rw [hst] at hc; cases hc.1
  | wait _ _ _ hr => rw [hr] at hc; cases hc.2
  | ready hat hst hp hr hd =>
    rcases Ptw.step_ready (i := i') rfl hsv hat hst hp hr hd with ⟨-, -, -, -, he, -⟩ | ⟨-, hend⟩
    · rw [he] at hev
      exact absurd hev (by simp)
    · rw [hleaf] at hend
      unfold Ptw.Concludes at hend
      split at hend
      · rw [hend.2] at hev
        exact absurd hev (by simp)
      · rename_i l hl
        obtain ⟨hl, hperm⟩ := Option.filter_eq_some_iff.1 hl
        rw [hend.2, Ptw.Job.outcome] at hei hed hev
        refine ⟨l, hl, hperm, ?_⟩
        cases hin : j.isInstr with
        | true =>
          simp only [hin, if_true, List.mem_singleton, Ptw.Event.itlb.injEq, reduceCtorEq, or_false] at hev hed
          exact ⟨hev, fun _ => rfl, fun h => (hed h).elim⟩
        | false =>
          simp only [hin, Bool.false_eq_true, if_false, List.mem_singleton, Ptw.Event.dtlb.injEq,
            reduceCtorEq, false_or] at hev hei
          exact ⟨hev, fun h => (hei h).elim, fun _ => rfl⟩

end Fill

/-! ### The invariant -/

/-- The entries are what their page tables say, as far as these are unchanged, and so is
the walk that is on. -/
structure Faithful (w : Traced P) : Prop where
  quiet : Ptw.Quiet w.sys
  walk : w.mmu.ptw.state = .waitGrant ∨ w.mmu.ptw.state = .pteLookup → w.walk.kept →
    ∃ va isInstr asid, OnWalk ⟨w.walk.mem, va, isInstr, asid, w.walk.root⟩ w.sys
  itlb : ∀ k, (w.mmu.itlb.tags k).valid = true → (w.itlb k).kept →
    Loaded (w.itlb k) (w.mmu.itlb.tags k) (w.mmu.itlb.content k) fun l => Sv39.x l.pte = true
  dtlb : ∀ k, (w.mmu.dtlb.tags k).valid = true → (w.dtlb k).kept →
    Loaded (w.dtlb k) (w.mmu.dtlb.tags k) (w.mmu.dtlb.content k) fun _ => True

theorem faithful_reset : Faithful (tracedReset : Traced P) where
  quiet := rfl
  walk := fun _ h => h.elim
  itlb := fun _ _ h => h.elim
  dtlb := fun _ _ h => h.elim

/-- The entry a leaf fills a TLB with. -/
theorem loaded_tagOf {n : ℕ} {src : Src} {j : Ptw.Job n} {l : Leaf} {ok : Leaf → Prop}
    (hm : j.mem = src.mem) (hr : j.root = src.root) (hw : j.walk.leaf = some l) (hal : l.aligned = true)
    (ha : Sv39.a l.pte = true) (hok : ok l) {u : Ptw.TlbUpdate n}
    (hu : u = ⟨j.va.extractLsb' 12 27, l.level == 1, l.level == 2, j.asid,
      l.pte ||| (BitVec.ofBool l.global).setWidth 64 <<< 5⟩) :
    Loaded src (Tlb.tagOf u) u.content ok := by
  subst hu
  refine ⟨j.va, l, ?_, hal, ha, hok, ?_, ?_, ?_, rfl, rfl, rfl⟩
  · rw [← hm, ← hr]
    exact hw
  · exact Lib.extractLsb'_extractLsb' _ (by decide)
  · exact Lib.extractLsb'_extractLsb' _ (by decide)
  · exact Lib.extractLsb'_extractLsb' _ (by decide)

/-- An entry that is not overwritten stays what it is while it is valid. -/
theorem loaded_next {n N : ℕ} {s : Tlb.Regs n N} {i : Tlb.In n} {k : Fin N}
    (hr : Tlb.replaced s i k = false) (hv : ((Tlb.next s i).tags k).valid = true) {src : Src}
    {ok : Leaf → Prop} (h : (s.tags k).valid = true → Loaded src (s.tags k) (s.content k) ok) :
    Loaded src ((Tlb.next s i).tags k) ((Tlb.next s i).content k) ok := by
  rw [Tlb.tags_next hr] at hv ⊢
  rw [Tlb.content_next hr]
  exact h (Bool.and_eq_true_iff.1 hv).1

theorem loaded_of_update {n N : ℕ} {s : Tlb.Regs n N} {k : Fin N} {u : Ptw.TlbUpdate n} {src : Src}
    {ok : Leaf → Prop} (ht : s.tags k = Tlb.tagOf u) (hc : s.content k = u.content)
    (h : Loaded src (Tlb.tagOf u) u.content ok) : Loaded src (s.tags k) (s.content k) ok := by
  rw [ht, hc]
  exact h

theorem update_eq_some {n : ℕ} {b : Bool} {v u : Ptw.TlbUpdate n}
    (h : (if b then some v else none) = some u) : b = true ∧ v = u := by
  cases b with
  | true => exact ⟨rfl, Option.some.inj h⟩
  | false => cases h

section Step

variable {w : Traced P} {y : Cycle P}

theorem startsWalk_iff : startsWalk w.mmu y.io = true ↔
    y.io.flush = false ∧ (Ptw.starts w.sys (ptwIn w.mmu y.io)).isSome = true := by
  show (!y.io.flush && (Ptw.starts w.sys (ptwIn w.mmu y.io)).isSome) = true ↔ _
  simp

theorem walk_next_of_starts (h : startsWalk w.mmu y.io = true) :
    (w.next y).walk = ⟨y.io.satpPpn, y.mem, True⟩ := if_pos h

theorem walk_next_of_not_starts (h : ¬startsWalk w.mmu y.io = true) :
    (w.next y).walk = w.walk.keep y.mem := if_neg h

theorem Faithful.fill (h : Faithful w) (hs : Served w y) (hk : (w.walk.keep y.mem).kept)
    (hu : (Ptw.comb w.mmu.ptw (ptwIn w.mmu y.io)).itlbUpdateValid = true ∨
      (Ptw.comb w.mmu.ptw (ptwIn w.mmu y.io)).dtlbUpdateValid = true) :
    ∃ (j : Ptw.Job P.asidWidth) (l : Leaf), j.mem = w.walk.mem ∧ j.root = w.walk.root ∧
      j.walk.leaf = some l ∧ l.permits (Ptw.access j.isInstr (ptwIn w.mmu y.io)) = true ∧
      Ptw.tlbUpdate w.mmu.ptw = ⟨j.va.extractLsb' 12 27, l.level == 1, l.level == 2, j.asid,
        l.pte ||| (BitVec.ofBool l.global).setWidth 64 <<< 5⟩ ∧
      ((Ptw.comb w.mmu.ptw (ptwIn w.mmu y.io)).itlbUpdateValid = true → j.isInstr = true) := by
  have hc : Ptw.consumes w.mmu.ptw = true := by
    by_contra hc
    obtain ⟨hi, hd⟩ := Ptw.no_update_of_not_consumes (i := ptwIn w.mmu y.io) (Bool.eq_false_iff.2 hc)
    rw [hi, hd] at hu
    exact hu.elim Bool.false_ne_true Bool.false_ne_true
  simp only [Ptw.consumes, Bool.and_eq_true, beq_iff_eq] at hc
  obtain ⟨va, isInstr, asid, hon⟩ := h.walk (.inr hc.1) hk.1
  obtain ⟨l, hl, hperm, hupd, hi, -⟩ := hon.fill (hk.2 ▸ hs.1) hu
  exact ⟨_, l, rfl, rfl, hl, hperm, hupd, hi⟩

theorem Faithful.step_walk (h : Faithful w) (hs : Served w y)
    (hst : (w.next y).mmu.ptw.state = .waitGrant ∨ (w.next y).mmu.ptw.state = .pteLookup)
    (hk : (w.next y).walk.kept) :
    ∃ va isInstr asid, OnWalk ⟨(w.next y).walk.mem, va, isInstr, asid, (w.next y).walk.root⟩ (w.next y).sys := by
  have hf : (ptwIn w.mmu y.io).flush = false :=
    hst.elim (fun hst => (Ptw.waitGrant_cases (t := w.sys) hst).1) fun hst =>
      (Ptw.pteLookup_cases (t := w.sys) hst).1
  have ha : Ptw.Answers w.sys (ptwIn w.mmu y.io) := by
    intro hr
    obtain ⟨addr, rest, hp, -⟩ := hs.1 hr
    rw [hp]
    exact List.cons_ne_nil addr rest
  by_cases hstart : startsWalk w.mmu y.io = true
  · -- a walk begins
    have hsome : (Ptw.starts w.sys (ptwIn w.mmu y.io)).isSome = true := (startsWalk_iff.1 hstart).2
    obtain ⟨⟨isInstr, va⟩, hstarts⟩ := Option.isSome_iff_exists.1 hsome
    have hidle : w.sys.regs.state = .idle := by
      by_contra hne
      simp [Ptw.starts, hne] at hstarts
    have hp := (h.quiet.nil (by simp [hidle]) (by simp [hidle])).1
    have hph := (Ptw.phase_of_starts hp ha hf hstarts y.mem).1
    rw [walk_next_of_starts hstart]
    exact ⟨va, isInstr, y.io.asid, _, _, hph, rfl⟩
  · rw [walk_next_of_not_starts hstart] at hk ⊢
    have hon : w.mmu.ptw.state = .waitGrant ∨ w.mmu.ptw.state = .pteLookup := by
      rcases hst with hst | hst
      · refine (Ptw.waitGrant_cases (t := w.sys) hst).2.resolve_left fun hsome => hstart ?_
        exact startsWalk_iff.2 ⟨hf, hsome⟩
      · exact (Ptw.pteLookup_cases (t := w.sys) hst).2.imp And.left And.left
    obtain ⟨va, isInstr, asid, hwalk⟩ := h.walk hon hk.1
    exact ⟨va, isInstr, asid, hwalk.step hf (hk.2 ▸ hs.1) hst⟩

theorem Faithful.step (h : Faithful w) (hs : Served w y) : Faithful (w.next y) where
  quiet := by
    refine h.quiet.step (fun hr => ?_) hs.2
    obtain ⟨addr, rest, hp, -⟩ := hs.1 hr
    rw [hp]
    exact List.cons_ne_nil addr rest
  walk := h.step_walk hs
  itlb := by
    intro k hv hk
    by_cases hr : Tlb.replaced w.mmu.itlb (itlbIn w.mmu y.io) k = true
    · have hsrc : (w.next y).itlb k = w.walk.keep y.mem := congrArg (Src.keep · y.mem) (if_pos hr)
      rw [hsrc] at hk ⊢
      obtain ⟨u, hu, htag, hcontent⟩ := Tlb.next_of_replaced hr
      obtain ⟨hvalid, rfl⟩ := update_eq_some hu
      obtain ⟨j, l, hm, hroot, hl, hperm, hupd, hin⟩ := h.fill hs hk (.inl hvalid)
      rw [hin hvalid] at hperm
      simp only [Leaf.permits, Ptw.access, if_true, Leaf.allows, Bool.and_eq_true] at hperm
      exact loaded_of_update htag hcontent (loaded_tagOf hm hroot hl hperm.1.1 hperm.1.2 hperm.2 hupd)
    · rw [Bool.not_eq_true] at hr
      have hsrc : (w.next y).itlb k = (w.itlb k).keep y.mem :=
        congrArg (Src.keep · y.mem) (if_neg (Bool.eq_false_iff.1 hr))
      rw [hsrc] at hk ⊢
      exact loaded_next hr hv fun hv => h.itlb k hv hk.1
  dtlb := by
    intro k hv hk
    by_cases hr : Tlb.replaced w.mmu.dtlb (dtlbIn w.mmu y.io) k = true
    · have hsrc : (w.next y).dtlb k = w.walk.keep y.mem := congrArg (Src.keep · y.mem) (if_pos hr)
      rw [hsrc] at hk ⊢
      obtain ⟨u, hu, htag, hcontent⟩ := Tlb.next_of_replaced hr
      obtain ⟨hvalid, rfl⟩ := update_eq_some hu
      obtain ⟨j, l, hm, hroot, hl, hperm, hupd, -⟩ := h.fill hs hk (.inr hvalid)
      simp only [Leaf.permits, Bool.and_eq_true] at hperm
      exact loaded_of_update htag hcontent (loaded_tagOf hm hroot hl hperm.1.1 hperm.1.2 trivial hupd)
    · rw [Bool.not_eq_true] at hr
      have hsrc : (w.next y).dtlb k = (w.dtlb k).keep y.mem :=
        congrArg (Src.keep · y.mem) (if_neg (Bool.eq_false_iff.1 hr))
      rw [hsrc] at hk ⊢
      exact loaded_next hr hv fun hv => h.dtlb k hv hk.1

end Step

/-! ### Lookups -/

/-- A lookup that hits entries of the current page table gives the leaf of a fresh walk. -/
theorem lookup_leaf {n N : ℕ} {s : Tlb.Regs n N} {src : Fin N → Src} {ok : Leaf → Prop}
    (hl : ∀ k, (s.tags k).valid = true → (src k).kept → Loaded (src k) (s.tags k) (s.content k) ok)
    {asid : BitVec n} {va : BitVec 64} {mem : BitVec 56 → BitVec 64} {root : BitVec 44}
    (hhit : (Tlb.translation s asid va).hit = true)
    (hun : ∀ k, (s.tags k).hit asid va = true → (src k).Unchanged mem root) :
    ∃ l, (Sv39.walk mem va 2 root false).leaf = some l ∧ l.aligned = true ∧ Sv39.a l.pte = true ∧ ok l ∧
      Tlb.translation s asid va =
        ⟨l.pte ||| (BitVec.ofBool l.global).setWidth 64 <<< 5, l.level == 1, l.level == 2, true⟩ := by
  have hleaf (k : Fin N) (hk : (s.tags k).hit asid va = true) :
      ∃ l, (Sv39.walk mem va 2 root false).leaf = some l ∧ l.aligned = true ∧ Sv39.a l.pte = true ∧ ok l ∧
        (s.tags k).is2M = (l.level == 1) ∧ (s.tags k).is1G = (l.level == 2) ∧
        s.content k = l.pte ||| (BitVec.ofBool l.global).setWidth 64 <<< 5 := by
    obtain ⟨hkept, rfl, rfl⟩ := hun k hk
    exact (hl k (Tlb.valid_of_hit hk) hkept).leaf hk
  obtain ⟨k, hk⟩ := Tlb.hit_translation.1 hhit
  obtain ⟨l, hw, hal, ha, hok, -⟩ := hleaf k hk
  refine ⟨l, hw, hal, ha, hok, Tlb.translation_eq hhit (fun h1 => ?_) fun k hk => ?_⟩
  · rw [beq_iff_eq] at h1
    simp [h1]
  · obtain ⟨l', hw', -, -, -, h2, h1, hc⟩ := hleaf k hk
    obtain rfl : l = l' := Option.some.inj (hw.symm.trans hw')
    exact ⟨hc, h2, h1⟩

/-- The bits of an entry but the global bit are those of the leaf. -/
theorem getLsbD_global (pte : BitVec 64) (b : Bool) {k : ℕ} (h : k ≠ 5) :
    (pte ||| (BitVec.ofBool b).setWidth 64 <<< 5).getLsbD k = pte.getLsbD k := by
  rw [BitVec.getLsbD_or, BitVec.getLsbD_shiftLeft, BitVec.getLsbD_setWidth]
  by_cases hk : k < 5
  · simp [hk]
  · have hb : (BitVec.ofBool b).getLsbD (k - 5) = false := BitVec.getLsbD_of_ge _ _ (by omega)
    simp [hb]

theorem ppn_global (pte : BitVec 64) (b : Bool) :
    Sv39.ppn (pte ||| (BitVec.ofBool b).setWidth 64 <<< 5) = Sv39.ppn pte := by
  apply Lib.extractLsb'_eq_of_getLsbD
  intro k hk
  rw [getLsbD_global _ _ (by omega), Sv39.ppn, BitVec.getLsbD_extractLsb', decide_eq_true hk, Bool.true_and]

theorem toNat_append_extract {n : ℕ} (x : BitVec n) (va : BitVec 64) (k m : ℕ) :
    (x ++ va.extractLsb' k m).toNat = x.toNat * 2 ^ m + va.toNat / 2 ^ k % 2 ^ m := by
  have hv := (va.extractLsb' k m).isLt
  rw [BitVec.toNat_append, ← Nat.shiftLeft_add_eq_or_of_lt hv, Nat.shiftLeft_eq, BitVec.extractLsb'_toNat,
    Nat.shiftRight_eq_div_pow]

/-- The physical address of an aligned leaf. -/
theorem paddrOf_leaf {l : Leaf} (hal : l.aligned = true) (hlvl : l.level ≤ 2) (va : BitVec 64) :
    paddrOf (l.pte ||| (BitVec.ofBool l.global).setWidth 64 <<< 5) (l.level == 1) (l.level == 2) va =
      l.paddr va := by
  have hp := (Sv39.ppn l.pte).isLt
  have hpage : (4096 : BitVec 64).toNat = 4096 := rfl
  rw [Leaf.aligned, beq_iff_eq] at hal
  unfold paddrOf Leaf.paddr
  rw [ppn_global]
  generalize Sv39.ppn l.pte = ppn at *
  apply BitVec.eq_of_toNat_eq
  obtain h0 | h1 | h2 : l.level = 0 ∨ l.level = 1 ∨ l.level = 2 := by omega
  · simp only [h0, Nat.reduceBEq, Bool.false_eq_true, if_false, BitVec.toNat_add, BitVec.toNat_mul, hpage,
      BitVec.toNat_setWidth, toNat_append_extract, BitVec.extractLsb'_toNat, Nat.shiftRight_eq_div_pow]
    omega
  · rw [h1] at hal
    simp only [h1, Nat.reduceBEq, Bool.false_eq_true, if_false, if_true, BitVec.toNat_add, BitVec.toNat_mul, hpage,
      BitVec.toNat_setWidth, toNat_append_extract, BitVec.extractLsb'_toNat, Nat.shiftRight_eq_div_pow]
    omega
  · rw [h2] at hal
    simp only [h2, Nat.reduceBEq, Bool.false_eq_true, if_false, if_true, BitVec.toNat_add, BitVec.toNat_mul, hpage,
      BitVec.toNat_setWidth, toNat_append_extract, BitVec.extractLsb'_toNat, Nat.shiftRight_eq_div_pow]
    omega

/-! ### Hits -/

/-- The CSRs drive the MMU. -/
structure DrivenBy (c : Csr.Regs) (i : In P) : Prop where
  enableTranslation : i.enableTranslation = Csr.enTranslationO c
  enLdStTranslation : i.enLdStTranslation = c.enLdStTranslation
  privLvl : i.privLvl = Csr.privLvlO c
  ldStPrivLvl : i.ldStPrivLvl = Csr.ldStPrivLvlO c
  sum : i.sum = c.mstatus.sum
  mxr : i.mxr = c.mstatus.mxr
  satpPpn : i.satpPpn = c.satp.ppn
  asid : i.asid = c.satp.asid.setWidth P.asidWidth

/-- A fetch that hits, in a page table that has not changed. -/
structure FetchHit (w : Traced P) (y : Cycle P) (c : Csr.Regs) : Prop where
  req : y.io.fetchReq = true
  enabled : y.io.enableTranslation = true
  hit : (itlbLookup w.mmu y.io).hit = true
  unchanged : ∀ k, (w.mmu.itlb.tags k).hit y.io.asid y.io.fetchVaddr = true →
    (w.itlb k).Unchanged y.mem c.satp.ppn

/-- A load or a store that hits in the cycle `y` and is answered in the cycle `y'`. The
load-store unit answers an address that is not canonical with an access fault of its own. -/
structure DataHit (w : Traced P) (y y' : Cycle P) (c : Csr.Regs) : Prop where
  req : y.io.lsuReq = true
  noFault : y.io.misalignedEx.valid = false
  addressCheck : y.io.enLdStTranslation = true → canonical y.io.lsuVaddr = false →
    y.io.misalignedEx.valid = true
  enabled : y.io.enLdStTranslation = true ∧ y'.io.enLdStTranslation = true
  hit : (dtlbLookup w.mmu y.io).hit = true
  unchanged : ∀ k, (w.mmu.dtlb.tags k).hit y.io.asid y.io.lsuVaddr = true →
    (w.dtlb k).Unchanged y.mem c.satp.ppn
  kept : y'.mem = y.mem

/-- The answer is the one of the architecture, or an access fault of the checks of the
address: its bits `[63:38]`, and the regions of executable memory. -/
def FetchAgrees (P : Params) (mem : BitVec 56 → BitVec 64) (c : Csr.Regs) (va pa : BitVec 64)
    (o : Outcome) : Prop :=
  o = fetchOutcome mem c va ∨
    o = .fault instrAccessFault ∧ (canonical va = false ∨ P.executeRegion pa = false)

/-- A load that the privilege lets through, of a page that is not readable. -/
def UncheckedLoad (c : Csr.Regs) (isStore : Bool) (pte : BitVec 64) : Prop :=
  isStore = false ∧ Sv39.r pte = false ∧ c.mstatus.mxr = false ∧
    userOk (effectivePriv c) c.mstatus.sum (.load c.mstatus.mxr) pte = true

theorem effectivePriv_eq (c : Csr.Regs) : effectivePriv c = Csr.ldStPrivLvlO c := by
  unfold effectivePriv Csr.ldStPrivLvlO Csr.mprv
  cases c.mstatus.mprv <;> cases c.debugMode <;> cases c.dcsr.mprven <;> rfl

theorem privLvlS_ne : privLvlS ≠ privLvlU := by decide

theorem iaccessErr_eq {s : Regs P} {i : In P} (hreq : i.fetchReq = true) :
    iaccessErr s i = !userOk i.privLvl i.sum .fetch (itlbLookup s i).content := by
  unfold iaccessErr userOk
  rw [hreq]
  by_cases hu : i.privLvl = privLvlU
  · simp [hu, privLvlS_ne.symm]
  · by_cases hs : i.privLvl = privLvlS
    · simp [hs, privLvlS_ne]
    · simp [hs, hu]

theorem daccessErr_eq {s : Regs P} {i : In P} {acc : Access} (hacc : acc ≠ .fetch) :
    daccessErr s i = !userOk i.ldStPrivLvl i.sum acc s.dtlbPte := by
  unfold daccessErr userOk
  rw [bne_iff_ne.2 hacc]
  by_cases hu : i.ldStPrivLvl = privLvlU
  · simp [hu, privLvlS_ne.symm]
  · by_cases hs : i.ldStPrivLvl = privLvlS
    · simp [hs, privLvlS_ne, Bool.and_comm]
    · simp [hs, hu]

/-- The architecture's answer where the walk ends in an aligned and accessed leaf. -/
theorem sv39_leaf {mem : BitVec 56 → BitVec 64} {root : BitVec 44} {va : BitVec 64} {l : Leaf}
    (hw : (Sv39.walk mem va 2 root false).leaf = some l) (hal : l.aligned = true)
    (ha : Sv39.a l.pte = true) (priv : PrivLvl) (sum : Bool) (acc : Access) :
    sv39 mem root priv sum acc va =
      if canonical va = true ∧ l.allows acc = true ∧ userOk priv sum acc l.pte = true then some (l.paddr va)
      else none := by
  unfold sv39 Sv39.translate
  rw [hw]
  by_cases hc : canonical va = true
  · cases hok : l.allows acc <;> cases hu : userOk priv sum acc l.pte <;>
      simp [hc, Leaf.permits, hal, ha, hok, hu, Option.filter]
  · simp [hc]

/-- The bits of the entry that a hit checks are those of the leaf. -/
theorem user_global (pte : BitVec 64) (b : Bool) :
    user (pte ||| (BitVec.ofBool b).setWidth 64 <<< 5) = user pte := getLsbD_global pte b (by decide)

theorem userOk_global (priv : PrivLvl) (sum : Bool) (acc : Access) (pte : BitVec 64) (b : Bool) :
    userOk priv sum acc (pte ||| (BitVec.ofBool b).setWidth 64 <<< 5) = userOk priv sum acc pte := by
  unfold userOk
  rw [user_global]

section Answers

variable {w : Traced P} {y y' : Cycle P} {c : Csr.Regs}

theorem Faithful.fetch (hf : Faithful w) (hd : DrivenBy c y.io) (h : FetchHit w y c) :
    (fetchAnswer w.mmu y.io).valid = true ∧ FetchAgrees P y.mem c y.io.fetchVaddr (fetchPaddr w.mmu y.io)
      (fetchAnswer w.mmu y.io).outcome := by
  obtain ⟨l, hw, hal, ha, hx, hlk⟩ := lookup_leaf hf.itlb h.hit h.unchanged
  have hlk' : itlbLookup w.mmu y.io = _ := hlk
  have hpa : fetchPaddr w.mmu y.io = l.paddr y.io.fetchVaddr := by
    rw [fetchPaddr, if_pos h.enabled, hlk']
    exact paddrOf_leaf hal (Sv39.leaf_of_walk _ _ hw).2.2 _
  have herr : iaccessErr w.mmu y.io = !userOk (Csr.privLvlO c) c.mstatus.sum .fetch l.pte := by
    rw [iaccessErr_eq h.req, hlk', userOk_global, hd.privLvl, hd.sum]
  have htr : fetchTranslate w.mmu y.io = ⟨true, l.paddr y.io.fetchVaddr,
      if userOk (Csr.privLvlO c) c.mstatus.sum .fetch l.pte = true then
        if canonical y.io.fetchVaddr = true then Exn.none else ⟨instrAccessFault, y.io.fetchVaddr, true⟩
      else ⟨instrPageFault, y.io.fetchVaddr, true⟩⟩ := by
    unfold fetchTranslate
    rw [if_pos h.enabled, hpa, herr]
    dsimp only
    rw [if_pos h.hit, h.req]
    cases userOk (Csr.privLvlO c) c.mstatus.sum .fetch l.pte <;> cases canonical y.io.fetchVaddr <;> rfl
  have hout : fetchOutcome y.mem c y.io.fetchVaddr =
      if canonical y.io.fetchVaddr = true ∧ userOk (Csr.privLvlO c) c.mstatus.sum .fetch l.pte = true then
        .ok (l.paddr y.io.fetchVaddr) else .fault instrPageFault := by
    unfold fetchOutcome
    rw [sv39_leaf hw hal ha]
    have hallows : l.allows .fetch = true := hx
    simp only [hallows, true_and]
    split_ifs <;> rfl
  unfold fetchAnswer FetchAgrees
  rw [htr, hout, hpa]
  by_cases hr : P.executeRegion (l.paddr y.io.fetchVaddr) = true
  · rw [if_pos hr]
    refine ⟨rfl, ?_⟩
    by_cases hu : userOk (Csr.privLvlO c) c.mstatus.sum .fetch l.pte = true
    · by_cases hc : canonical y.io.fetchVaddr = true
      · exact .inl (by simp [FetchAnswer.outcome, hu, hc, Exn.none])
      · exact .inr ⟨by simp [FetchAnswer.outcome, hu, hc], .inl (Bool.eq_false_iff.2 hc)⟩
    · exact .inl (by simp [FetchAnswer.outcome, hu])
  · rw [if_neg hr]
    exact ⟨rfl, .inr ⟨rfl, .inr (Bool.eq_false_iff.2 hr)⟩⟩

theorem Faithful.data (hf : Faithful w) (hd : DrivenBy c y'.io) (h : DataHit w y y' c) :
    (lsuAnswer (w.next y).mmu y'.io).valid = true ∧
      ((lsuAnswer (w.next y).mmu y'.io).outcome = dataOutcome y'.mem c y.io.lsuIsStore y.io.lsuVaddr ↔
        ¬UncheckedLoad c y.io.lsuIsStore (dtlbLookup w.mmu y.io).content) := by
  obtain ⟨l, hw, hal, ha, -, hlk⟩ := lookup_leaf hf.dtlb h.hit h.unchanged
  have hlk' : dtlbLookup w.mmu y.io = _ := hlk
  obtain ⟨-, hleaf, hlvl⟩ := Sv39.leaf_of_walk _ _ hw
  have hcanon : canonical y.io.lsuVaddr = true := by
    by_contra hc
    have hfault := h.addressCheck h.enabled.1 (Bool.eq_false_iff.2 hc)
    rw [h.noFault] at hfault
    cases hfault
  set acc : Access := if y.io.lsuIsStore then .store c.mstatus.mxr else .load c.mstatus.mxr with hacc
  have hne : acc ≠ .fetch := by
    rw [hacc]
    split_ifs <;> simp
  set ok := userOk (effectivePriv c) c.mstatus.sum acc l.pte with hok
  have herr : daccessErr (w.next y).mmu y'.io = !ok := by
    have hpte : (w.next y).mmu.dtlbPte = (dtlbLookup w.mmu y.io).content := rfl
    rw [daccessErr_eq hne, hpte, hlk', userOk_global, hd.ldStPrivLvl, hd.sum, ← effectivePriv_eq]
  have hex : (w.next y).mmu.misalignedEx.valid = false := by
    show (y.io.misalignedEx.valid && y.io.lsuReq) = false
    rw [h.noFault]
    rfl
  have hwb : Sv39.w (dtlbLookup w.mmu y.io).content = Sv39.w l.pte := by
    rw [hlk']
    exact getLsbD_global _ _ (by decide)
  have hdb : Sv39.d (dtlbLookup w.mmu y.io).content = Sv39.d l.pte := by
    rw [hlk']
    exact getLsbD_global _ _ (by decide)
  have hrb : Sv39.r (dtlbLookup w.mmu y.io).content = Sv39.r l.pte := by
    rw [hlk']
    exact getLsbD_global _ _ (by decide)
  have hpa : paddrOf (dtlbLookup w.mmu y.io).content (dtlbLookup w.mmu y.io).is2M
      (dtlbLookup w.mmu y.io).is1G y.io.lsuVaddr = l.paddr y.io.lsuVaddr := by
    rw [hlk']
    exact paddrOf_leaf hal hlvl _
  have hans : lsuAnswer (w.next y).mmu y'.io = ⟨true, l.paddr y.io.lsuVaddr,
      if y.io.lsuIsStore then
        if !Sv39.w l.pte || !ok || !Sv39.d l.pte then ⟨storePageFault, y.io.lsuVaddr, true⟩
        else (w.next y).mmu.misalignedEx
      else if !ok then ⟨loadPageFault, y.io.lsuVaddr, true⟩ else (w.next y).mmu.misalignedEx⟩ := by
    unfold lsuAnswer
    rw [h.enabled.2, hex, herr, ← hwb, ← hdb, ← hpa]
    exact if_pos (Bool.and_eq_true_iff.2 ⟨h.hit, h.req⟩)
  have hout : dataOutcome y'.mem c y.io.lsuIsStore y.io.lsuVaddr =
      if l.allows acc = true ∧ ok = true then .ok (l.paddr y.io.lsuVaddr)
      else .fault (if y.io.lsuIsStore then storePageFault else loadPageFault) := by
    unfold dataOutcome
    rw [h.kept, sv39_leaf hw hal ha, ← hacc]
    simp only [hcanon, true_and]
    split_ifs <;> rfl
  refine ⟨by rw [hans], ?_⟩
  rw [hans, hout, UncheckedLoad, hrb, hlk', userOk_global]
  cases hst : y.io.lsuIsStore with
  | true =>
    have hallows : l.allows acc = (Sv39.w l.pte && Sv39.d l.pte) := by
      rw [hacc, hst]
      rfl
    rw [hallows]
    cases Sv39.w l.pte <;> cases Sv39.d l.pte <;> cases ok <;> simp [LsuAnswer.outcome, hex]
  | false =>
    have hload : acc = .load c.mstatus.mxr := by
      rw [hacc, hst]
      rfl
    have hallows : l.allows acc = (Sv39.r l.pte || c.mstatus.mxr) := by
      rw [hload]
      unfold Sv39.isLeaf at hleaf
      cases hr : Sv39.r l.pte with
      | true => simp [Leaf.allows, hr]
      | false =>
        rw [hr, Bool.false_or] at hleaf
        simp [Leaf.allows, hr, hleaf]
    rw [hallows, ← hload, ← hok]
    cases Sv39.r l.pte <;> cases c.mstatus.mxr <;> cases ok <;> simp [LsuAnswer.outcome, hex]

end Answers

/-- In every state of a run in which the cache answers the walker from memory, a hit in a
page table that has not changed is answered as the architecture says, the access faults of
a fetch apart, exactly if it is not a load that nothing but `MXR` let through when the
entry was loaded. -/
theorem hit_agrees_iff (ys : List (Cycle P)) (hs : (traced P).Steps Served tracedReset ys) :
    let w := (traced P).run tracedReset ys
    (∀ y c, DrivenBy c y.io → FetchHit w y c →
      (fetchAnswer w.mmu y.io).valid = true ∧ FetchAgrees P y.mem c y.io.fetchVaddr
        (fetchPaddr w.mmu y.io) (fetchAnswer w.mmu y.io).outcome) ∧
    ∀ y y' c, DrivenBy c y'.io → DataHit w y y' c →
      (lsuAnswer (w.next y).mmu y'.io).valid = true ∧
        ((lsuAnswer (w.next y).mmu y'.io).outcome = dataOutcome y'.mem c y.io.lsuIsStore y.io.lsuVaddr ↔
          ¬UncheckedLoad c y.io.lsuIsStore (dtlbLookup w.mmu y.io).content) := by
  intro w
  have hf : Faithful w := Machine.run_inv (fun _ _ h hy => h.step hy) ys _ faithful_reset hs
  exact ⟨fun y c hd h => hf.fetch hd h, fun y y' c hd h => hf.data hd h⟩

/-! ### A page that may only be executed -/

/-- One page of 1 GiB, for supervisor mode, without the read permission. -/
def xOnly : BitVec 56 → BitVec 64 := fun _ => 0x49

def loadIn (mxr : Bool) : In lsuParams :=
  ⟨false, false, true, true, false, 0, Exn.none, true, 0, false, privLvlS, privLvlS, false, mxr, 0, 0, false, false, 0⟩

/-- Supervisor mode in that page table. -/
def supervisor (mxr : Bool) : Csr.Regs :=
  { Csr.reset with
    privLvl := privLvlS, enLdStTranslation := true, satp := ⟨8, 0, 0⟩
    mstatus := { Csr.reset.mstatus with mxr := mxr } }

/-- A load that misses, and its walk, with `MXR` set. -/
def walkCycles : List (Cycle lsuParams) :=
  [⟨loadIn true, xOnly⟩, ⟨{ loadIn true with dataGnt := true }, xOnly⟩,
    ⟨{ loadIn true with dataRvalid := true, dataRdata := 0x49 }, xOnly⟩, ⟨loadIn true, xOnly⟩]

theorem served_walkCycles : (traced lsuParams).Steps Served tracedReset walkCycles := by
  have hserves (w : Traced lsuParams) (y : Cycle lsuParams) (hm : y.mem = xOnly)
      (h : y.io.dataRvalid = true → w.pending ≠ [] ∧ y.io.dataRdata = 0x49) :
      Ptw.Serves y.mem w.sys (ptwIn w.mmu y.io) := by
    intro hr
    obtain ⟨hp, hd⟩ := h hr
    obtain ⟨addr, rest, hp⟩ := List.exists_cons_of_ne_nil hp
    exact ⟨addr, rest, hp, hm ▸ hd⟩
  refine ⟨⟨hserves _ _ rfl ?_, ?_⟩, ⟨hserves _ _ rfl ?_, ?_⟩, ⟨hserves _ _ rfl ?_, ?_⟩,
    ⟨hserves _ _ rfl ?_, ?_⟩, trivial⟩ <;> first | decide +kernel | (unfold Ptw.WaitsForAnswer; decide +kernel)

theorem drivenBy_loadIn (mxr : Bool) : DrivenBy (supervisor mxr) (loadIn mxr) := by
  cases mxr <;> constructor <;> decide +kernel

/-- The entry of that walk hits afterwards. -/
theorem dataHit_walkCycles (mxr : Bool) :
    DataHit ((traced lsuParams).run tracedReset walkCycles) ⟨loadIn mxr, xOnly⟩ ⟨loadIn mxr, xOnly⟩
      (supervisor mxr) where
  req := rfl
  noFault := rfl
  addressCheck := fun _ h => absurd h (by cases mxr <;> decide +kernel)
  enabled := ⟨rfl, rfl⟩
  hit := by cases mxr <;> decide +kernel
  unchanged := by
    intro k hk
    set y₀ : Cycle lsuParams := ⟨loadIn true, xOnly⟩
    set w₁ : Traced lsuParams := tracedReset.next y₀
    have hwalk : w₁.walk = ⟨0, xOnly, True⟩ := walk_next_of_starts (by decide +kernel)
    set w₂ := w₁.next ⟨{ loadIn true with dataGnt := true }, xOnly⟩
    have hwalk₂ : w₂.walk = w₁.walk.keep xOnly := walk_next_of_not_starts (by decide +kernel)
    set w₃ := w₂.next ⟨{ loadIn true with dataRvalid := true, dataRdata := 0x49 }, xOnly⟩
    have hwalk₃ : w₃.walk = w₂.walk.keep xOnly := walk_next_of_not_starts (by decide +kernel)
    have hrepl : Tlb.replaced w₃.mmu.dtlb (dtlbIn w₃.mmu y₀.io) k = true := by
      revert k
      cases mxr <;> decide +kernel
    have hsrc : (w₃.next y₀).dtlb k = w₃.walk.keep xOnly := congrArg (Src.keep · xOnly) (if_pos hrepl)
    show Src.Unchanged ((w₃.next y₀).dtlb k) xOnly 0
    rw [hsrc, hwalk₃, hwalk₂, hwalk]
    exact ⟨⟨⟨⟨trivial, rfl⟩, rfl⟩, rfl⟩, rfl, rfl⟩
  kept := rfl

theorem hit_agrees_readable :
    let w := (traced lsuParams).run tracedReset walkCycles
    (lsuAnswer (w.next ⟨loadIn true, xOnly⟩).mmu (loadIn true)).outcome =
      dataOutcome xOnly (supervisor true) false 0 := by
  intro w
  refine (((hit_agrees_iff walkCycles served_walkCycles).2 _ _ _ (drivenBy_loadIn true)
    (dataHit_walkCycles true)).2.2 ?_)
  rintro ⟨-, -, h, -⟩
  exact absurd h (by decide +kernel)

/-- Once `MXR` is clear again, loads still hit the entry and succeed, where a walk of the
page table faults. -/
theorem load_of_unreadable_page :
    let w := (traced lsuParams).run tracedReset walkCycles
    (traced lsuParams).Steps Served tracedReset walkCycles ∧
      DrivenBy (P := lsuParams) (supervisor false) (loadIn false) ∧
      DataHit w ⟨loadIn false, xOnly⟩ ⟨loadIn false, xOnly⟩ (supervisor false) ∧
      (lsuAnswer (w.next ⟨loadIn false, xOnly⟩).mmu (loadIn false)).valid = true ∧
      (lsuAnswer (w.next ⟨loadIn false, xOnly⟩).mmu (loadIn false)).outcome = .ok 0 ∧
      dataOutcome xOnly (supervisor false) false 0 = .fault loadPageFault := by
  intro w
  exact ⟨served_walkCycles, drivenBy_loadIn false, dataHit_walkCycles false, by decide +kernel,
    by decide +kernel, by decide +kernel⟩

end Mmu
end Ariane

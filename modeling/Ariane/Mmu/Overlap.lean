/-
# Pages of different sizes in one TLB

The lookup of `src/tlb.sv` lets every entry that hits assign the outputs, one after the
other, and the module asserts that at most one does (`Exclusive`). The walker fills a TLB
only after a miss, so no entry covers the address that is filled. The page that is filled
may be a larger one that covers an entry in its turn: `exclusive_next_iff` says that the
TLB stays exclusive exactly if it is not.

So both TLBs answer every hit from one entry all along a run exactly if no fill of the run
covers another valid entry (`consistent_iff`). Software gets there without a fence, when
it puts a superpage where a smaller page was: the lookup then takes the size from one entry
and the frame from the other (`mixed_lookup`).
-/
import Ariane.Mmu.Plru
import Ariane.Mmu.Sfence
import Ariane.Mmu.Stale

namespace Ariane
namespace Tlb

open Ptw (TlbUpdate)

variable {n N : ℕ}

/-! ### Entries that hit together -/

/-- At most one entry hits: the assertion on `lu_hit`. -/
def Exclusive (s : Regs n N) : Prop :=
  ∀ asid va j k, (s.tags j).hit asid va = true → (s.tags k).hit asid va = true → j = k

/-- The outputs of a hit are those of one valid entry that hits. -/
def Coherent (s : Regs n N) : Prop :=
  ∀ asid va, (translation s asid va).hit = true →
    ∃ k, (s.tags k).valid = true ∧ (s.tags k).hit asid va = true ∧
      translation s asid va = ⟨s.content k, (s.tags k).is2M, (s.tags k).is1G, true⟩

def Consistent (s : Regs n N) : Prop := Exclusive s ∧ Coherent s

/-- The page of an update covers the page of no other valid entry. -/
def Clear (s : Regs n N) (i : In n) : Prop :=
  ∀ u, i.update = some u → ∀ r k, replaced s i r = true → k ≠ r → (s.tags k).valid = true →
    (tagOf u).hit (s.tags k).asid (s.tags k).vaddr = false

/-- An entry has one size. -/
def Sized (s : Regs n N) : Prop := ∀ k, (s.tags k).is1G = true → (s.tags k).is2M = false

theorem Exclusive.consistent {s : Regs n N} (h : Exclusive s) (hs : Sized s) : Consistent s := by
  refine ⟨h, fun asid va hhit => ?_⟩
  obtain ⟨k, hk⟩ := hit_translation.1 hhit
  refine ⟨k, valid_of_hit hk, hk, translation_eq hhit (hs k) fun j hj => ?_⟩
  obtain rfl : j = k := h asid va j k hj hk
  exact ⟨rfl, rfl, rfl⟩

theorem asid_of_hit {t : Tag n} {asid : BitVec n} {va : BitVec 64} (h : t.hit asid va = true) :
    asid = t.asid := by
  simp only [Tag.hit, Bool.and_eq_true, beq_iff_eq] at h
  exact h.1.1.2

/-- A hit looks at the three page numbers of the address. -/
theorem hit_congr {t : Tag n} {asid : BitVec n} {va va' : BitVec 64}
    (h2 : va.extractLsb' 30 9 = va'.extractLsb' 30 9) (h1 : va.extractLsb' 21 9 = va'.extractLsb' 21 9)
    (h0 : va.extractLsb' 12 9 = va'.extractLsb' 12 9) : t.hit asid va = t.hit asid va' := by
  rw [Tag.hit, Tag.hit, h2, h1, h0]

/-- Pages are nested: of two that share an address, one covers the other. -/
theorem hit_nested {t u : Tag n} {asid : BitVec n} {va : BitVec 64} (ht : t.hit asid va = true)
    (hu : u.hit asid va = true) : t.hit u.asid u.vaddr = true ∨ u.hit t.asid t.vaddr = true := by
  have hasid : t.asid = u.asid := (asid_of_hit ht).symm.trans (asid_of_hit hu)
  obtain ⟨ht2, ht1, ht0⟩ := vpn_vaddr t
  obtain ⟨hu2, hu1, hu0⟩ := vpn_vaddr u
  simp only [Tag.hit, Bool.and_eq_true, Bool.or_eq_true, beq_iff_eq] at ht hu ⊢
  rw [ht2, ht1, ht0, hu2, hu1, hu0, hasid]
  obtain ⟨⟨⟨htv, -⟩, ht2⟩, ht⟩ := ht
  obtain ⟨⟨⟨huv, -⟩, hu2⟩, hu⟩ := hu
  have h2 : u.vpn2 = t.vpn2 := hu2.symm.trans ht2
  rcases ht with htg | ⟨ht1, ht⟩
  · exact .inl ⟨⟨⟨htv, rfl⟩, h2⟩, .inl htg⟩
  · rcases hu with hug | ⟨hu1, hu⟩
    · exact .inr ⟨⟨⟨huv, rfl⟩, h2.symm⟩, .inl hug⟩
    · have h1 : u.vpn1 = t.vpn1 := hu1.symm.trans ht1
      rcases ht with htm | ht0
      · exact .inl ⟨⟨⟨htv, rfl⟩, h2⟩, .inr ⟨h1, .inl htm⟩⟩
      · refine .inr ⟨⟨⟨huv, rfl⟩, h2.symm⟩, .inr ⟨h1.symm, hu.imp_right fun hu0 => ?_⟩⟩
        exact ht0.symm.trans hu0

/-! ### One cycle -/

section Step

variable {s : Regs n N} {i : In n}

theorem unique_of_replaced {j k : Fin N} (hj : replaced s i j = true) (hk : replaced s i k = true) :
    j = k := by
  simp only [replaced, Bool.and_eq_true] at hj hk
  exact replaceEn_unique hj.2 hk.2

/-- An entry that is not overwritten hits only what it hit. -/
theorem hit_of_hit_next {k : Fin N} (h : replaced s i k = false) {asid : BitVec n} {va : BitVec 64}
    (hhit : ((next s i).tags k).hit asid va = true) : (s.tags k).hit asid va = true := by
  rw [tags_next h] at hhit
  simp only [Tag.hit, Bool.and_eq_true] at hhit ⊢
  exact ⟨⟨⟨hhit.1.1.1.1, hhit.1.1.2⟩, hhit.1.2⟩, hhit.2⟩

/-- While an entry is overwritten, the others stay. -/
theorem tags_next_of_replaced {r k : Fin N} (hr : replaced s i r = true) (hk : k ≠ r) :
    (next s i).tags k = s.tags k := by
  have hne : replaced s i k = false := by
    rw [Bool.eq_false_iff]
    exact fun h => hk (unique_of_replaced h hr)
  have hf : i.flush = false := by
    simp only [replaced, Bool.and_eq_true, Bool.not_eq_true'] at hr
    exact hr.1.1
  rw [tags_next hne, hf]
  simp

/-- Where no entry covers the address that is filled, the entries stay exclusive exactly if
the new page covers none of the others. -/
theorem exclusive_next_iff (h : Exclusive s)
    (hmiss : ∀ u, i.update = some u → ∀ k, (s.tags k).hit u.asid (tagOf u).vaddr = false) :
    Exclusive (next s i) ↔ Clear s i := by
  constructor
  · intro hnext u hu r k hr hk hv
    obtain ⟨u', hu', htag, -⟩ := next_of_replaced hr
    obtain rfl : u = u' := Option.some.inj (hu.symm.trans hu')
    rw [Bool.eq_false_iff]
    intro hhit
    refine hk (hnext (s.tags k).asid (s.tags k).vaddr k r ?_ ?_)
    · rw [tags_next_of_replaced hr hk]
      exact hit_vaddr hv
    · rw [htag]
      exact hhit
  · intro hclear
    -- the entry that is filled and one that stays do not hit together
    have hapart (asid : BitVec n) (va : BitVec 64) (r k : Fin N) (hr : replaced s i r = true) (hk : k ≠ r)
        (hhr : ((next s i).tags r).hit asid va = true) :
        ¬((next s i).tags k).hit asid va = true := by
      intro hhk
      obtain ⟨u, hu, htag, -⟩ := next_of_replaced hr
      rw [tags_next_of_replaced hr hk] at hhk
      rw [htag] at hhr
      rcases hit_nested hhr hhk with hcov | hcov
      · rw [hclear u hu r k hr hk (valid_of_hit hhk)] at hcov
        exact Bool.false_ne_true hcov
      · have hno := hmiss u hu k
        rw [show (tagOf u).asid = u.asid from rfl] at hcov
        rw [hno] at hcov
        exact Bool.false_ne_true hcov
    intro asid va j k hj hk
    by_contra hne
    cases hrj : replaced s i j with
    | true => exact hapart asid va j k hrj (Ne.symm hne) hj hk
    | false =>
      cases hrk : replaced s i k with
      | true => exact hapart asid va k j hrk hne hk hj
      | false => exact hne (h asid va j k (hit_of_hit_next hrj hj) (hit_of_hit_next hrk hk))

theorem Sized.next (h : Sized s) (hu : ∀ u, i.update = some u → u.is1G = true → u.is2M = false) :
    Sized (Tlb.next s i) := by
  intro k
  cases hr : replaced s i k with
  | true =>
    obtain ⟨u, hu', htag, -⟩ := next_of_replaced hr
    rw [htag]
    exact hu u hu'
  | false =>
    rw [tags_next hr]
    exact h k

end Step

end Tlb

/-! ### The walker -/

namespace Ptw

variable {n : ℕ} {s : Regs n} {i : In n}

/-- A walk is on. -/
def Walks (s : Regs n) : Prop := s.state = .waitGrant ∨ s.state = .pteLookup

/-- Where the process leaves the TLB, the ASID and the address of a walk. -/
def Comb.target (c : Comb n) : Bool × BitVec n × BitVec 64 := (c.isInstrN, c.tlbUpdateAsidN, c.vaddrN)

theorem target_leafUpdate (pte : BitVec 64) (c : Comb n) : (leafUpdate s i pte c).target = c.target := by
  unfold leafUpdate
  dsimp only
  split_ifs <;> rfl

theorem target_alignCheck (pte : BitVec 64) (c : Comb n) : (alignCheck s pte c).target = c.target := by
  unfold alignCheck
  split_ifs <;> rfl

theorem target_pointerCase (pte : BitVec 64) (c : Comb n) : (pointerCase s pte c).target = c.target := by
  unfold pointerCase
  dsimp only
  split_ifs <;> rfl

/-- Only an idle walker changes them. -/
theorem target_comb (h : s.state ≠ .idle) : (comb s i).target = (defaults s).target := by
  have hcase : (stateCase s i).target = (defaults s).target := by
    unfold stateCase
    cases hs : s.state with
    | idle => exact absurd hs h
    | waitGrant =>
      dsimp only [waitGrantCase]
      split_ifs <;> rfl
    | pteLookup =>
      cases hr : s.dataRvalid with
      | false => simp [pteLookupCase, hr]
      | true =>
        dsimp only
        rw [pteLookupCase_eq hr]
        split_ifs
        · rfl
        · rw [leafCase, target_alignCheck, target_leafUpdate]
          rfl
        · rw [target_pointerCase]
          rfl
    | propagateError => rfl
    | waitRvalid =>
      dsimp only
      split_ifs <;> rfl
  unfold comb
  split_ifs <;> exact hcase

/-- A TLB that is filled is the one of the walk, and the walk is over. -/
theorem update_cases (h : (comb s i).itlbUpdateValid = true ∨ (comb s i).dtlbUpdateValid = true) :
    s.state = .pteLookup ∧ ¬Walks (next s i) ∧
      ((comb s i).itlbUpdateValid = true → s.isInstr = true) ∧
      ((comb s i).dtlbUpdateValid = true → s.isInstr = false) := by
  have hc : consumes s = true := by
    by_contra hc
    obtain ⟨hi, hd⟩ := no_update_of_not_consumes (i := i) (Bool.eq_false_iff.2 hc)
    rw [hi, hd] at h
    exact h.elim Bool.false_ne_true Bool.false_ne_true
  simp only [consumes, Bool.and_eq_true, beq_iff_eq] at hc
  obtain ⟨hs, hr⟩ := hc
  have hcase : stateCase s i = pteLookupCase s i (defaults s) := by rw [stateCase, hs]
  have hupd : (comb s i).itlbUpdateValid = (stateCase s i).itlbUpdateValid ∧
      (comb s i).dtlbUpdateValid = (stateCase s i).dtlbUpdateValid := by
    unfold comb
    split_ifs <;> exact ⟨rfl, rfl⟩
  have hstate : (stateCase s i).stateD = .idle ∨ (stateCase s i).stateD = .propagateError →
      ¬Walks (next s i) := by
    intro hst hw
    have hnext : (next s i).state = (comb s i).stateD := rfl
    rw [Walks, hnext, comb] at hw
    cases hf : i.flush <;> simp [hf, hs, hr] at hw
    rcases hst with hst | hst <;> simp [hst] at hw
  rw [hupd.1, hupd.2, hcase] at h ⊢
  rw [hcase] at hstate
  rw [pteLookupCase_eq hr] at h hstate ⊢
  refine ⟨hs, ?_⟩
  split_ifs at h hstate ⊢ with hinv hleaf
  · exact absurd h (by simp [lookedUp, defaults])
  · have hset := settles_leafCase (s := s) (i := i) (Bool.eq_false_iff.2 hinv) s.globalMapping
      (c := { lookedUp s with stateD := .idle }) rfl rfl rfl
    refine ⟨hstate ?_, fun hi => ?_, fun hd => ?_⟩
    · rw [hset.state]
      split_ifs <;> simp
    · rw [hset.itlb, Bool.and_eq_true] at hi
      exact hi.1
    · rw [hset.dtlb, Bool.and_eq_true, Bool.not_eq_true'] at hd
      exact hd.1
  · exact absurd h (by cases hlvl : s.lvl <;> simp [pointerCase, hlvl, lookedUp, defaults])

/-- A walk that starts is for an address its TLB missed. -/
theorem target_of_idle (hs : s.state = .idle) (hw : Walks (next s i)) :
    ((next s i).isInstr = true ∧ i.itlbHit = false ∧ (next s i).vaddr = i.itlbVaddr ∨
      (next s i).isInstr = false ∧ i.dtlbHit = false ∧ (next s i).vaddr = i.dtlbVaddr) ∧
    (next s i).tlbUpdateAsid = i.asid := by
  have hf : i.flush = false := by
    cases hf : i.flush with
    | false => rfl
    | true =>
      have hnext : (next s i).state = (comb s i).stateD := rfl
      simp [Walks, hnext, comb, hf, hs] at hw
  have hcomb : comb s i = idleCase i (defaults s) := by simp [comb, hf, stateCase, hs]
  simp only [Walks, next, hcomb] at hw ⊢
  unfold idleCase at hw ⊢
  dsimp only at hw ⊢
  split_ifs at hw ⊢ with h1 h2
  · simp only [Bool.and_eq_true, Bool.not_eq_true'] at h1
    exact ⟨.inl ⟨rfl, h1.1.2, rfl⟩, rfl⟩
  · simp only [Bool.and_eq_true, Bool.not_eq_true'] at h2
    exact ⟨.inr ⟨rfl, h2.2, rfl⟩, rfl⟩
  · simp [defaults, hs] at hw

/-- A walk that is on was on, or starts. -/
theorem walks_cases (hw : Walks (next s i)) : s.state = .idle ∨ Walks s := by
  rcases hw with hw | hw
  · rcases (waitGrant_cases (t := ⟨s, []⟩) hw).2 with hst | hst
    · left
      by_contra hne
      rw [starts_eq_none (t := ⟨s, []⟩) hne] at hst
      exact Bool.false_ne_true hst
    · exact .inr hst
  · exact .inr ((pteLookup_cases (t := ⟨s, []⟩) hw).2.imp And.left And.left)

end Ptw

/-! ### The MMU -/

namespace Mmu

open Riscv
open Lib (Machine)

variable {P : Params}

/-- Both TLBs answer every hit from one entry. -/
def SingleSource (s : Regs P) : Prop := Tlb.Consistent s.itlb ∧ Tlb.Consistent s.dtlb

/-- No fill of the cycle covers another valid entry. -/
def CoversNone (s : Regs P) (i : In P) : Prop :=
  Tlb.Clear s.itlb (itlbIn s i) ∧ Tlb.Clear s.dtlb (dtlbIn s i)

/-- A walk is for an address that no entry of its TLB covers. -/
structure Missing (s : Regs P) : Prop where
  itlb : Ptw.Walks s.ptw → s.ptw.isInstr = true →
    ∀ k, (s.itlb.tags k).hit s.ptw.tlbUpdateAsid s.ptw.vaddr = false
  dtlb : Ptw.Walks s.ptw → s.ptw.isInstr = false →
    ∀ k, (s.dtlb.tags k).hit s.ptw.tlbUpdateAsid s.ptw.vaddr = false
  itlbSized : Tlb.Sized s.itlb
  dtlbSized : Tlb.Sized s.dtlb

/-- An update is for the page of the address of the walk. -/
theorem hit_tlbUpdate {n : ℕ} (t : Tlb.Tag n) (w : Ptw.Regs n) :
    t.hit (Ptw.tlbUpdate w).asid (Tlb.tagOf (Ptw.tlbUpdate w)).vaddr = t.hit w.tlbUpdateAsid w.vaddr := by
  obtain ⟨h2, h1, h0⟩ := Tlb.vpn_vaddr (Tlb.tagOf (Ptw.tlbUpdate w))
  have hpart (k : ℕ) (hk : k + 9 ≤ 27) :
      (w.vaddr.extractLsb' 12 27).extractLsb' k 9 = w.vaddr.extractLsb' (12 + k) 9 := by
    apply Lib.extractLsb'_eq_of_getLsbD
    intro j hj
    have hlt : k + j < 27 := by omega
    simp [hj, hlt, Nat.add_assoc]
  refine Tlb.hit_congr (h2.trans ?_) (h1.trans ?_) (h0.trans ?_)
  · exact hpart 18 (by omega)
  · exact hpart 9 (by omega)
  · exact hpart 0 (by omega)

theorem tlbUpdate_sized {n : ℕ} (w : Ptw.Regs n) (h : (Ptw.tlbUpdate w).is1G = true) :
    (Ptw.tlbUpdate w).is2M = false := by
  simp only [Ptw.tlbUpdate, beq_iff_eq] at h ⊢
  rw [h]
  rfl

section Step

variable {s : Regs P} {i : In P}

theorem of_itlb_update {u : Ptw.TlbUpdate P.asidWidth} (hu : (itlbIn s i).update = some u) :
    (Ptw.comb s.ptw (ptwIn s i)).itlbUpdateValid = true ∧ u = Ptw.tlbUpdate s.ptw := by
  simp only [itlbIn] at hu
  split_ifs at hu with hv
  exact ⟨hv, (Option.some.inj hu).symm⟩

theorem of_dtlb_update {u : Ptw.TlbUpdate P.asidWidth} (hu : (dtlbIn s i).update = some u) :
    (Ptw.comb s.ptw (ptwIn s i)).dtlbUpdateValid = true ∧ u = Ptw.tlbUpdate s.ptw := by
  simp only [dtlbIn] at hu
  split_ifs at hu with hv
  exact ⟨hv, (Option.some.inj hu).symm⟩

/-- A TLB is filled at an address that none of its entries covers. -/
theorem Missing.itlb_update (h : Missing s) {u : Ptw.TlbUpdate P.asidWidth}
    (hu : (itlbIn s i).update = some u) (k : Fin P.instrTlbEntries) :
    (s.itlb.tags k).hit u.asid (Tlb.tagOf u).vaddr = false := by
  obtain ⟨hv, rfl⟩ := of_itlb_update hu
  obtain ⟨hs, -, hi, -⟩ := Ptw.update_cases (.inl hv)
  rw [hit_tlbUpdate]
  exact h.itlb (.inr hs) (hi hv) k

theorem Missing.dtlb_update (h : Missing s) {u : Ptw.TlbUpdate P.asidWidth}
    (hu : (dtlbIn s i).update = some u) (k : Fin P.dataTlbEntries) :
    (s.dtlb.tags k).hit u.asid (Tlb.tagOf u).vaddr = false := by
  obtain ⟨hv, rfl⟩ := of_dtlb_update hu
  obtain ⟨hs, -, -, hd⟩ := Ptw.update_cases (.inr hv)
  rw [hit_tlbUpdate]
  exact h.dtlb (.inr hs) (hd hv) k

/-- While a walk goes on, nothing is filled. -/
theorem not_replaced_of_walks (hw : Ptw.Walks (Mmu.next s i).ptw) :
    (∀ k, Tlb.replaced s.itlb (itlbIn s i) k = false) ∧ ∀ k, Tlb.replaced s.dtlb (dtlbIn s i) k = false := by
  constructor
  · intro k
    rw [Bool.eq_false_iff]
    intro hr
    obtain ⟨u, hu, -, -⟩ := Tlb.next_of_replaced hr
    exact (Ptw.update_cases (.inl (of_itlb_update hu).1)).2.1 hw
  · intro k
    rw [Bool.eq_false_iff]
    intro hr
    obtain ⟨u, hu, -, -⟩ := Tlb.next_of_replaced hr
    exact (Ptw.update_cases (.inr (of_dtlb_update hu).1)).2.1 hw

/-- An address that is missed is missed as long as nothing is filled. -/
theorem miss_next {n N : ℕ} {t : Tlb.Regs n N} {y : Tlb.In n} (hr : ∀ k, Tlb.replaced t y k = false)
    {asid : BitVec n} {va : BitVec 64} (h : ∀ k, (t.tags k).hit asid va = false) (k : Fin N) :
    ((Tlb.next t y).tags k).hit asid va = false := by
  rw [Bool.eq_false_iff]
  intro hhit
  have hk := h k
  rw [Tlb.hit_of_hit_next (hr k) hhit] at hk
  cases hk

theorem no_hit {n N : ℕ} {t : Tlb.Regs n N} {asid : BitVec n} {va : BitVec 64}
    (h : (Tlb.translation t asid va).hit = false) (k : Fin N) : (t.tags k).hit asid va = false := by
  rw [Bool.eq_false_iff]
  intro hk
  rw [Tlb.hit_translation.2 ⟨k, hk⟩] at h
  cases h

/-- The TLB, the ASID and the address of a walk that is on stay. -/
theorem target_next (h : s.ptw.state ≠ .idle) : (Mmu.next s i).ptw.isInstr = s.ptw.isInstr ∧
    (Mmu.next s i).ptw.tlbUpdateAsid = s.ptw.tlbUpdateAsid ∧ (Mmu.next s i).ptw.vaddr = s.ptw.vaddr := by
  have ht := Ptw.target_comb (i := ptwIn s i) h
  simp only [Ptw.Comb.target, Prod.mk.injEq] at ht
  exact ht

theorem Missing.step (h : Missing s) (i : In P) : Missing (Mmu.next s i) where
  itlb := by
    intro hw hin
    obtain ⟨hri, -⟩ := not_replaced_of_walks hw
    by_cases hidle : s.ptw.state = .idle
    · -- the walk starts at a miss of this cycle
      obtain ⟨htarget, hasid⟩ := Ptw.target_of_idle hidle hw
      rcases htarget with ⟨-, hmiss, hva⟩ | ⟨hin', -, -⟩
      · rw [show (Mmu.next s i).ptw = Ptw.next s.ptw (ptwIn s i) from rfl, hva, hasid]
        exact miss_next hri (no_hit hmiss)
      · exact absurd (hin.symm.trans hin') (by decide)
    · obtain ⟨hin', hasid, hva⟩ := target_next (i := i) hidle
      rw [hasid, hva]
      exact miss_next hri (h.itlb ((Ptw.walks_cases hw).resolve_left hidle) (hin'.symm.trans hin))
  dtlb := by
    intro hw hin
    obtain ⟨-, hrd⟩ := not_replaced_of_walks hw
    by_cases hidle : s.ptw.state = .idle
    · obtain ⟨htarget, hasid⟩ := Ptw.target_of_idle hidle hw
      rcases htarget with ⟨hin', -, -⟩ | ⟨-, hmiss, hva⟩
      · exact absurd (hin'.symm.trans hin) (by decide)
      · rw [show (Mmu.next s i).ptw = Ptw.next s.ptw (ptwIn s i) from rfl, hva, hasid]
        exact miss_next hrd (no_hit hmiss)
    · obtain ⟨hin', hasid, hva⟩ := target_next (i := i) hidle
      rw [hasid, hva]
      exact miss_next hrd (h.dtlb ((Ptw.walks_cases hw).resolve_left hidle) (hin'.symm.trans hin))
  itlbSized := by
    refine h.itlbSized.next fun u hu => ?_
    rw [(of_itlb_update hu).2]
    exact tlbUpdate_sized s.ptw
  dtlbSized := by
    refine h.dtlbSized.next fun u hu => ?_
    rw [(of_dtlb_update hu).2]
    exact tlbUpdate_sized s.ptw

theorem SingleSource.next_iff (hm : Missing s) (h : SingleSource s) (i : In P) :
    SingleSource (Mmu.next s i) ↔ CoversNone s i := by
  have hi := Tlb.exclusive_next_iff (i := itlbIn s i) h.1.1 fun u hu => hm.itlb_update hu
  have hd := Tlb.exclusive_next_iff (i := dtlbIn s i) h.2.1 fun u hu => hm.dtlb_update hu
  have hm' := hm.step i
  constructor
  · rintro ⟨hci, hcd⟩
    exact ⟨hi.1 hci.1, hd.1 hcd.1⟩
  · rintro ⟨hci, hcd⟩
    exact ⟨(hi.2 hci).consistent hm'.itlbSized, (hd.2 hcd).consistent hm'.dtlbSized⟩

end Step

/-! ### Runs -/

theorem missing_reset : Missing (reset : Regs P) where
  itlb := fun hw => absurd hw (by simp [Ptw.Walks, reset, Ptw.reset])
  dtlb := fun hw => absurd hw (by simp [Ptw.Walks, reset, Ptw.reset])
  itlbSized := fun _ _ => rfl
  dtlbSized := fun _ _ => rfl

theorem singleSource_reset : SingleSource (reset : Regs P) := by
  have hex (n N : ℕ) : Tlb.Consistent (Tlb.reset : Tlb.Regs n N) :=
    Tlb.Exclusive.consistent (fun _ _ _ _ hj => absurd (Tlb.valid_of_hit hj) Bool.false_ne_true)
      fun _ _ => rfl
  exact ⟨hex _ _, hex _ _⟩

/-- In every run from reset, whatever the memory answers the walker, whatever is flushed and
looked up, both TLBs have at most one entry for every address and ASID and answer every hit
from it, exactly if no fill covers another valid entry. -/
theorem consistent_iff (is : List (In P)) :
    (machine P).Always SingleSource reset is ↔ (machine P).Steps CoversNone reset is :=
  Machine.always_iff_steps (fun _ i h => h.step i) (fun _ i hm h => h.next_iff hm i) is reset
    missing_reset singleSource_reset

/-! ### A superpage over a smaller page -/

/-- A load of supervisor mode. -/
def loadAt (va : BitVec 64) : In lsuParams :=
  ⟨false, false, true, true, false, 0, Exn.none, true, va, false, privLvlS, privLvlS, false, false, 0, 0,
    false, false, 0⟩

/-- A load that reads one entry of the page table: the grant, the answer, and the cycle in
which the walker looks at it. -/
def readEntry (va pte : BitVec 64) : List (In lsuParams) :=
  [{ loadAt va with dataGnt := true }, { loadAt va with dataRvalid := true, dataRdata := pte }, loadAt va]

/-- A page of 1 GiB is loaded and used. Then a page of 2 MiB in the next GiB is. Software
puts a page of 1 GiB over that one, and a load finds it at another address. -/
def remapped : List (In lsuParams) :=
  loadAt 0 :: readEntry 0 0x43 ++ loadAt 0 :: loadAt 0x40000000 :: readEntry 0x40000000 0x1 ++
    readEntry 0x40000000 0x80043 ++ loadAt 0x40000000 :: loadAt 0x40200000 ::
    readEntry 0x40200000 0x10000043

/-- The old entry and the new one hit. The lookup gives the frame of the old one and the
size of the new one, and the address 0, where the pages are at 0x200000 and
0x40000000. -/
theorem mixed_lookup :
    let t := ((machine lsuParams).run reset remapped).dtlb
    (t.tags (4 : Fin 16)).hit 0 0x40000000 = true ∧ (t.tags (8 : Fin 16)).hit 0 0x40000000 = true ∧
      Tlb.translation t 0 0x40000000 = ⟨0x80043, true, true, true⟩ ∧
      t.content (8 : Fin 16) = 0x80043 ∧ t.content (4 : Fin 16) = 0x10000043 ∧
      paddrOf 0x80043 true true 0x40000000 = 0 ∧ paddrOf 0x80043 true false 0x40000000 = 0x200000 ∧
      paddrOf 0x10000043 false true 0x40000000 = 0x40000000 ∧
      ¬(machine lsuParams).Always SingleSource reset remapped := by
  intro t
  have h4 : (t.tags (4 : Fin 16)).hit 0 0x40000000 = true := by decide +kernel
  have h8 : (t.tags (8 : Fin 16)).hit 0 0x40000000 = true := by decide +kernel
  refine ⟨h4, h8, by decide +kernel, by decide +kernel, by decide +kernel, by decide +kernel,
    by decide +kernel, by decide +kernel, fun h => ?_⟩
  have heq := h.last.2.1 0 0x40000000 (4 : Fin 16) (8 : Fin 16) h4 h8
  exact absurd (congrArg Fin.val heq) (by decide)

end Mmu
end Ariane

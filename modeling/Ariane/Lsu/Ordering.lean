/-
# Loads and the stores in front of them

`Prog` is the load-store unit with the requests it was given, in program order, and the
place of each: the slots of the bypass FIFO, the store unit and the two queues of the store
buffer carry the number of the request they hold. A store is pending from its request until
the cache grants it or a flush takes it.

The load unit looks for stores to the same word once, before it asks the cache, and that is
enough: what is in the store unit and the store buffer then is all the pending stores in
front of the load, and nothing joins them while the load is at the head of the FIFO
(`loads_behind_stores`). This holds until the MMU reports an exception. From then on the
FIFO may lose requests, all of them behind the one that faulted, and the flush of the trap
sets it right.
-/
import Mathlib.Data.List.Forall2
import Ariane.Lib.Bits
import Ariane.Lsu.Lsu

namespace Ariane
namespace Lsu

open Lib (Machine)
open StoreBuffer (word)

variable {w : ℕ}

/-! ### Requests in program order -/

structure Prog (w : ℕ) where
  lsu : Regs w
  /-- `ready_o` of the store buffer and `lsu_ready_o`, in the cycle before. -/
  sbReady : Bool
  ready : Bool
  /-- The requests so far. -/
  issued : List LsuCtrl
  memId : BitVec 1 → ℕ
  unitId : ℕ
  specIds : List ℕ
  commitIds : List ℕ
  pending : List ℕ
  /-- The MMU has reported an exception since the last flush. -/
  faulted : Bool

def progReset : Prog w := ⟨reset, true, true, [], fun _ => 0, 0, [], [], [], false⟩

/-- A store that is no AMO. -/
def plainStore (c : LsuCtrl) : Bool := c.fu == .store && !c.operator.isAmo

namespace Prog

variable (t : Prog w) (i : In)

/-- The number of the request the FIFO presents. -/
def ctrlId : ℕ := if t.lsu.bypass.empty then t.issued.length else t.memId t.lsu.bypass.readPtr

/-- The cache grants the store at the head of the commit queue. -/
def stGranted : Bool := StoreBuffer.dataReqO t.lsu.sb && i.stGnt

def issuedD : List LsuCtrl := if i.req.valid then t.issued ++ [i.req] else t.issued

def specIdsD : List ℕ :=
  if i.flush then []
  else (if i.commit then t.specIds.tail else t.specIds) ++ (if sbValid t.lsu i then [t.unitId] else [])

def commitIdsD : List ℕ :=
  (if t.stGranted i then t.commitIds.tail else t.commitIds) ++
    (if i.commit then t.specIds.take 1 else [])

/-- A store is pending until it is granted or flushed. -/
def pendingD : List ℕ :=
  let n := t.pending.filter fun m => !(t.stGranted i && t.commitIds.head? == some m)
  let n := if i.req.valid && plainStore i.req then n ++ [t.issued.length] else n
  if i.flush then n.filter (· ∈ t.commitIdsD i) else n

def next : Prog w where
  lsu := Lsu.next t.lsu i
  sbReady := Lsu.sbReady t.lsu i
  ready := t.lsu.bypass.readyO
  issued := t.issuedD i
  memId := if i.req.valid then Function.update t.memId t.lsu.bypass.writePtr t.issued.length else t.memId
  unitId := t.ctrlId
  specIds := t.specIdsD i
  commitIds := t.commitIdsD i
  pending := t.pendingD i
  faulted := !i.flush && (t.faulted || i.ex.valid)

end Prog

def ordered (w : ℕ) : Machine (Prog w) In := ⟨(· = progReset), Prog.next⟩

/-- What the core and the MMU keep to: a request comes only after a cycle that was ready for
it, a store retires only from a speculative queue that is not empty into a commit queue that
has room, not in a flush, and a translation leaves the offset in the page as it is. -/
structure Regular (t : Prog w) (i : In) : Prop where
  req : i.req.valid = true → t.ready = true ∧ (i.req.fu = .load ∨ i.req.fu = .store)
  commit : i.commit = true →
    t.lsu.sb.spec.cnt ≠ 0 ∧ StoreBuffer.commitReadyO t.lsu.sb = true ∧ i.flush = false
  paddr : i.paddr.extractLsb' 0 12 = t.lsu.mmuVaddr.extractLsb' 0 12

/-- The request with the number `m` is for another word than `a`. -/
def Apart (issued : List LsuCtrl) (a : BitVec 64) (m : ℕ) : Prop :=
  ∀ c, issued[m]? = some c → word c.vaddr ≠ word a

/-- A load is granted only if no pending store in front of it is for the same word. -/
def LoadsBehind (t : Prog w) (i : In) : Prop :=
  ((loadOut t.lsu i).dataReq && i.ldGnt) = true →
    ldValid t.lsu i = true ∧ ∀ m ∈ t.pending, m < t.ctrlId → Apart t.issued (ctrl t.lsu i).vaddr m

/-- The store that is granted is the one that is taken off the pending ones. -/
def GrantsOwn (t : Prog w) (i : In) : Prop :=
  t.stGranted i = true → ∃ m c, t.commitIds.head? = some m ∧ t.issued[m]? = some c ∧
    (StoreBuffer.reqPortO t.lsu.sb).address.extractLsb' 3 9 = word c.vaddr

/-! ### The units -/

section Units

variable {s : Regs w} {i : In}

/-- What a cycle without an exception or a flush does in the load unit. -/
theorem loadOut_cases (hf : i.flush = false) (hx : i.ex.valid = false) :
    let o := loadOut s i
    let fresh := s.ld.state = .idle ∨ s.ld.state = .sendTag
    let open' := s.ld.state = .waitGnt ∨ s.ld.state = .abortTransaction ∨ s.ld.state = .waitTranslation
    (o.popLd = true → o.stateD = .sendTag ∧
      (s.ld.state = .waitGnt ∨ fresh ∧ ldValid s i = true ∧ pageOffsetMatches s i = false)) ∧
    (o.popLd = false → o.stateD = .waitPageOffset →
      s.ld.state = .waitPageOffset ∨ fresh ∧ ldValid s i = true) ∧
    (o.popLd = false → o.stateD = .waitGnt ∨ o.stateD = .abortTransaction ∨ o.stateD = .waitTranslation →
      open' ∨ (s.ld.state = .waitPageOffset ∨ fresh ∧ ldValid s i = true) ∧ pageOffsetMatches s i = false) := by
  have ho : loadOut s i = Load.stateCase s.ld (loadIn s i) := by
    simp [loadOut, Load.control, loadIn, hf, hx]
  have hv : (loadIn s i).valid = ldValid s i := rfl
  have hm : (loadIn s i).pageOffsetMatches = pageOffsetMatches s i := rfl
  have hx' : (loadIn s i).ex.valid = false := hx
  dsimp only
  rw [ho]
  cases hst : s.ld.state <;> cases hld : ldValid s i <;> cases hpo : pageOffsetMatches s i <;>
    cases hg : (loadIn s i).dataGnt <;> cases hd : (loadIn s i).dtlbHit <;>
    simp [Load.stateCase, Load.newLoad, Load.request, Load.defaults, hst, hv, hm, hld, hpo, hg, hd, hx']

/-- The cache is asked for a load that has been checked, or is checked in this cycle. -/
theorem dataReq_cases (h : (loadOut s i).dataReq = true) : s.ld.state = .waitGnt ∨
    (s.ld.state = .idle ∨ s.ld.state = .sendTag) ∧ ldValid s i = true ∧ pageOffsetMatches s i = false := by
  have ho : (loadOut s i).dataReq = (Load.stateCase s.ld (loadIn s i)).dataReq := by
    unfold loadOut Load.control
    dsimp only
    split_ifs <;> rfl
  have hv : (loadIn s i).valid = ldValid s i := rfl
  have hm : (loadIn s i).pageOffsetMatches = pageOffsetMatches s i := rfl
  rw [ho] at h
  cases hst : s.ld.state <;> cases hld : ldValid s i <;> cases hpo : pageOffsetMatches s i <;>
    simp [Load.stateCase, Load.newLoad, Load.defaults, hst, hv, hm, hld, hpo] at h ⊢ <;>
    split_ifs at h

theorem stateD_flush (hf : i.flush = true) :
    (loadOut s i).stateD = .waitFlush ∧ (storeOut s i).stateD = .idle := by
  have hl : (loadIn s i).flush = true := hf
  have hs : (storeIn s i).flush = true := hf
  simp [loadOut, Load.control, storeOut, Store.control, hl, hs]

/-- A store is taken from the FIFO if it is translated and the store buffer has room. -/
theorem storeOut_validStore (h : (storeOut s i).stateD = .validStore) :
    (storeOut s i).popSt = true ∧ stValid s i = true ∧ sbReady s i = true := by
  have hv : (storeIn s i).valid = stValid s i := rfl
  have hr : (storeIn s i).stReady = (sbReady s i && !s.amo.full) := rfl
  unfold storeOut Store.control at h ⊢
  dsimp only at h ⊢
  split_ifs at h ⊢ with hf hx
  cases hst : s.st.state <;> cases hsv : stValid s i <;> cases hrd : sbReady s i <;> cases ham : s.amo.full <;>
    cases hd : (storeIn s i).dtlbHit <;> cases hop : (storeIn s i).ctrl.operator.isAmo <;>
    simp [Store.stateCase, Store.newStore, hst, hv, hr, hsv, hrd, ham, hd, hop] at h ⊢

theorem popSt_cases (hf : i.flush = false) (hx : i.ex.valid = false) :
    (storeOut s i).popSt = true ↔ (storeOut s i).stateD = .validStore := by
  have ho : storeOut s i = Store.stateCase s.st (storeIn s i) := by
    simp [storeOut, Store.control, storeIn, hf, hx]
  rw [ho]
  unfold Store.stateCase Store.newStore
  cases hst : s.st.state <;> dsimp only <;> split_ifs <;> simp

theorem storeOut_unit : (storeOut s i).stValidWithoutFlush = (s.st.state == .validStore) ∧
    (storeOut s i).stValid = (s.st.state == .validStore && !i.flush && !i.ex.valid) := by
  have hf : (storeIn s i).flush = i.flush := rfl
  have hx : (storeIn s i).ex = i.ex := rfl
  unfold storeOut Store.control Store.stateCase Store.newStore
  cases hst : s.st.state <;> cases hfl : i.flush <;> cases hex : i.ex.valid <;>
    simp [hf, hx, hfl, hex] <;> split_ifs <;> simp

end Units

/-! ### The FIFO -/

theorem Bypass.mem_pop {b : Bypass} {r k : BitVec 1} (h : ((b.pop r).mem k).valid = true) :
    (b.pop r).mem k = b.mem k := by
  unfold Bypass.pop at h ⊢
  by_cases hk : k = r
  · simp [hk] at h
  · simp [hk]

/-- A slot that is valid after a cycle holds what was there, or the request. -/
theorem Bypass.mem_next {b : Bypass} {flush : Bool} {req : LsuCtrl} {popLd popSt : Bool} {k : BitVec 1}
    (h : ((b.next flush req popLd popSt).mem k).valid = true) : flush = false ∧
      (b.next flush req popLd popSt).mem k =
        (if req.valid then Function.update b.mem b.writePtr req else b.mem) k := by
  have hpush : (if req.valid then b.push req else b).mem =
      if req.valid then Function.update b.mem b.writePtr req else b.mem := by
    split_ifs <;> rfl
  rw [← hpush]
  unfold Bypass.next at h ⊢
  generalize (if req.valid then b.push req else b) = n at *
  cases flush with
  | true => cases h
  | false =>
    cases popLd <;> cases popSt
    · exact ⟨rfl, rfl⟩
    · exact ⟨rfl, Bypass.mem_pop h⟩
    · exact ⟨rfl, Bypass.mem_pop h⟩
    · cases h

/-- The FIFO holds the requests `l`, oldest first; `ids` are the numbers of the slots. -/
structure Bypass.Holds (b : Bypass) (ids : BitVec 1 → ℕ) (l : List (LsuCtrl × ℕ)) : Prop where
  ring : Lib.Ring.Holds (fun _ => True) (fun k => (b.mem k, ids k)) b.readPtr l
  cnt : b.statusCnt.toNat = l.length
  writePtr : b.writePtr = b.readPtr + BitVec.ofNat 1 l.length

namespace Bypass.Holds

variable {b : Bypass} {ids : BitVec 1 → ℕ} {l : List (LsuCtrl × ℕ)}

theorem reset : Bypass.reset.Holds ids [] where
  ring := Lib.Ring.Holds.nil (fun _ => trivial) _
  cnt := rfl
  writePtr := rfl

theorem empty_iff (h : b.Holds ids l) : b.empty = true ↔ l = [] := by
  rw [Bypass.empty, beq_iff_eq, ← List.length_eq_zero_iff, ← h.cnt, BitVec.toNat_eq]
  rfl

theorem head {x : LsuCtrl × ℕ} (h : b.Holds ids (x :: l)) : (b.mem b.readPtr, ids b.readPtr) = x :=
  h.ring.head

theorem push (h : b.Holds ids l) (hlt : l.length < 2) (req : LsuCtrl) (n : ℕ) :
    (b.push req).Holds (Function.update ids b.writePtr n) (l ++ [(req, n)]) where
  ring := by
    have hr := h.ring.push (by simpa using hlt) (req, n)
    rw [← h.writePtr] at hr
    have hpair : (fun k => (Function.update b.mem b.writePtr req k, Function.update ids b.writePtr n k)) =
        Function.update (fun k => (b.mem k, ids k)) b.writePtr (req, n) := by
      funext k
      by_cases hk : k = b.writePtr
      · simp [hk]
      · simp [hk]
    rw [← hpair] at hr
    exact hr
  cnt := by
    have hc : (b.statusCnt + 1).toNat = b.statusCnt.toNat + 1 := by
      rw [BitVec.toNat_add, h.cnt]
      show (l.length + 1) % 4 = l.length + 1
      omega
    rw [Bypass.push, hc, h.cnt, List.length_append, List.length_singleton]
  writePtr := by
    rw [Bypass.push, h.writePtr, List.length_append, List.length_singleton, BitVec.ofNat_add,
      ← BitVec.add_assoc]
    rfl

theorem pop {x : LsuCtrl × ℕ} (h : b.Holds ids (x :: l)) : (b.pop b.readPtr).Holds ids l where
  ring := by
    have hr : Lib.Ring.Holds (fun _ => True) (Function.update (fun k => (b.mem k, ids k)) b.readPtr
        ({ b.mem b.readPtr with valid := false }, ids b.readPtr)) (b.readPtr + 1) l := h.ring.pop trivial
    have hpair : (fun k => ((b.pop b.readPtr).mem k, ids k)) =
        Function.update (fun k => (b.mem k, ids k)) b.readPtr
          ({ b.mem b.readPtr with valid := false }, ids b.readPtr) := by
      funext k
      by_cases hk : k = b.readPtr
      · simp [Bypass.pop, hk]
      · simp [Bypass.pop, hk]
    rw [← hpair] at hr
    exact hr
  cnt := by
    have hc := h.cnt
    have hone : (1 : BitVec 2).toNat = 1 := rfl
    rw [List.length_cons] at hc
    rw [Bypass.pop, BitVec.toNat_sub_of_le (by rw [BitVec.le_def]; omega), hc, hone]
    omega
  writePtr := by
    rw [Bypass.pop, h.writePtr, List.length_cons, Lib.Ring.slot_succ]

end Bypass.Holds

/-! ### Numbers and what they stand for -/

/-- The entry of a queue is for the word of the request. -/
def Names (issued : List LsuCtrl) (m : ℕ) (st : StoreBuffer.Store) : Prop :=
  ∃ c, issued[m]? = some c ∧ word st.address = word c.vaddr

/-- The numbers in the unit stand for the requests they were given for. -/
structure Numbered (t : Prog w) : Prop where
  buffer : ∃ l p, StoreBuffer.Inv (t.lsu.sb, t.sbReady) l p ∧
    List.Forall₂ (Names t.issued) t.specIds l ∧ List.Forall₂ (Names t.issued) t.commitIds p
  unit : t.lsu.st.state = .validStore → t.sbReady = true ∧
    ∃ c, t.issued[t.unitId]? = some c ∧ word c.vaddr = word t.lsu.mmuVaddr ∧ plainStore c = (t.lsu.st.amoOp == .none)
  slot : ∀ k, (t.lsu.bypass.mem k).valid = true → t.issued[t.memId k]? = some (t.lsu.bypass.mem k)
  stores : ∀ m ∈ t.pending, ∃ c, t.issued[m]? = some c ∧ plainStore c = true

theorem numbered_reset : Numbered (progReset : Prog w) where
  buffer := ⟨[], [], StoreBuffer.inv_reset, .nil, .nil⟩
  unit := fun h => by cases h
  slot := fun k h => by cases h
  stores := fun _ h => by cases h

section Step

variable {t : Prog w} {i : In}

/-- The requests stay as they are. -/
theorem issuedD_of_getElem? {m : ℕ} {c : LsuCtrl} (h : t.issued[m]? = some c) : (t.issuedD i)[m]? = some c := by
  unfold Prog.issuedD
  split_ifs
  · rw [List.getElem?_append_left (List.getElem?_eq_some_iff.1 h).1, h]
  · exact h

theorem issuedD_req (h : i.req.valid = true) : (t.issuedD i)[t.issued.length]? = some i.req := by
  simp [Prog.issuedD, h]

theorem Names.issuedD {m : ℕ} {st : StoreBuffer.Store} (h : Names t.issued m st) :
    Names (t.issuedD i) m st := by
  obtain ⟨c, hc, hw⟩ := h
  exact ⟨c, issuedD_of_getElem? hc, hw⟩

theorem word_eq_of_offset {a b : BitVec 64} (h : a.extractLsb' 0 12 = b.extractLsb' 0 12) : word a = word b := by
  have hsub (x : BitVec 64) : word x = (x.extractLsb' 0 12).extractLsb' 3 9 :=
    (Lib.extractLsb'_extractLsb' x (a := 0) (l := 12) (b := 3) (m := 9) (by decide)).symm
  rw [hsub, hsub, h]

/-- The request the FIFO presents has the number it was given. -/
theorem Numbered.ctrl (h : Numbered t) (hv : (Lsu.ctrl t.lsu i).valid = true) :
    (t.issuedD i)[t.ctrlId]? = some (Lsu.ctrl t.lsu i) := by
  unfold Lsu.ctrl Bypass.lsuCtrlO Prog.ctrlId at *
  split_ifs at hv ⊢ with he
  · exact issuedD_req hv
  · exact issuedD_of_getElem? (h.slot _ hv)

/-- What is pending was pending and is not granted, or comes in. -/
theorem mem_pendingD {m : ℕ} (h : m ∈ t.pendingD i) :
    m ∈ t.pending ∧ ¬(t.stGranted i = true ∧ t.commitIds.head? = some m) ∨
      i.req.valid = true ∧ plainStore i.req = true ∧ m = t.issued.length := by
  have hn : m ∈ (if i.req.valid && plainStore i.req then
      t.pending.filter (fun m => !(t.stGranted i && t.commitIds.head? == some m)) ++ [t.issued.length]
      else t.pending.filter fun m => !(t.stGranted i && t.commitIds.head? == some m)) := by
    unfold Prog.pendingD at h
    dsimp only at h
    by_cases hf : i.flush = true
    · rw [if_pos hf] at h
      exact List.mem_of_mem_filter h
    · rwa [if_neg hf] at h
  have hkept (h : m ∈ t.pending.filter fun m => !(t.stGranted i && t.commitIds.head? == some m)) :
      m ∈ t.pending ∧ ¬(t.stGranted i = true ∧ t.commitIds.head? = some m) := by
    rw [List.mem_filter] at h
    refine ⟨h.1, fun hg => ?_⟩
    rw [hg.1, hg.2] at h
    simp at h
  split_ifs at hn with hv
  · rcases List.mem_append.1 hn with hn | hn
    · exact .inl (hkept hn)
    · exact .inr ⟨(Bool.and_eq_true_iff.1 hv).1, (Bool.and_eq_true_iff.1 hv).2, List.mem_singleton.1 hn⟩
  · exact .inl (hkept hn)

/-- The buffer gets what it asserts. -/
theorem Numbered.regular (h : Numbered t) (hr : Regular t i) :
    StoreBuffer.Regular (t.lsu.sb, t.sbReady) (sbIn t.lsu i) where
  commit := hr.commit
  valid := fun hv => by
    have hst : (storeOut t.lsu i).stValid = true := (Bool.and_eq_true_iff.1 hv).1
    rw [storeOut_unit.2] at hst
    simp only [Bool.and_eq_true, beq_iff_eq] at hst
    exact (h.unit hst.1.1).1

theorem Numbered.step_buffer (h : Numbered t) (hr : Regular t i) :
    ∃ l p, StoreBuffer.Inv ((t.next i).lsu.sb, (t.next i).sbReady) l p ∧
      List.Forall₂ (Names (t.next i).issued) (t.next i).specIds l ∧
      List.Forall₂ (Names (t.next i).issued) (t.next i).commitIds p := by
  obtain ⟨l, p, hinv, hl, hp⟩ := h.buffer
  have hok := h.regular hr
  have hmono {ids : List ℕ} {xs : List StoreBuffer.Store} (hx : List.Forall₂ (Names t.issued) ids xs) :
      List.Forall₂ (Names (t.issuedD i)) ids xs := hx.imp fun _ _ hn => hn.issuedD
  refine ⟨_, _, hinv.step hok, ?_, ?_⟩
  · show List.Forall₂ (Names (t.issuedD i)) (t.specIdsD i) (StoreBuffer.waiting l (sbIn t.lsu i))
    have hflush : (sbIn t.lsu i).flush = i.flush := rfl
    unfold Prog.specIdsD StoreBuffer.waiting
    rw [hflush]
    by_cases hf : i.flush = true
    · rw [if_pos hf, if_pos hf]
      exact .nil
    · rw [if_neg hf, if_neg hf]
      refine List.rel_append ?_ ?_
      · show List.Forall₂ _ (if i.commit then t.specIds.tail else t.specIds) (if i.commit then l.tail else l)
        split_ifs
        · rw [← List.drop_one, ← List.drop_one]
          exact List.forall₂_drop 1 (hmono hl)
        · exact hmono hl
      · show List.Forall₂ _ (if sbValid t.lsu i then [t.unitId] else []) (if sbValid t.lsu i then _ else [])
        split_ifs with hv
        · -- the store of the store unit
          have hst : (storeOut t.lsu i).stValid = true := (Bool.and_eq_true_iff.1 hv).1
          rw [storeOut_unit.2] at hst
          simp only [Bool.and_eq_true, beq_iff_eq] at hst
          obtain ⟨-, c, hc, hw, -⟩ := h.unit hst.1.1
          have hword : word i.paddr = word c.vaddr := (word_eq_of_offset hr.paddr).trans hw.symm
          exact .cons (Names.issuedD ⟨c, hc, hword⟩) .nil
        · exact .nil
  · show List.Forall₂ (Names (t.issuedD i)) (t.commitIdsD i)
      (StoreBuffer.pending t.lsu.sb l p (sbIn t.lsu i))
    unfold Prog.commitIdsD StoreBuffer.pending StoreBuffer.retires
    refine List.rel_append ?_ ?_
    · show List.Forall₂ _ (if t.stGranted i then t.commitIds.tail else t.commitIds)
        (p.drop (if t.stGranted i then [t.lsu.sb.commit.head.toStore] else []).length)
      split_ifs
      · rw [← List.drop_one]
        exact List.forall₂_drop 1 (hmono hp)
      · exact hmono hp
    · show List.Forall₂ _ (if i.commit then t.specIds.take 1 else []) (if i.commit then l.take 1 else [])
      split_ifs
      · exact List.forall₂_take 1 (hmono hl)
      · exact .nil

theorem Numbered.step (h : Numbered t) (hr : Regular t i) : Numbered (t.next i) where
  buffer := h.step_buffer hr
  unit := by
    intro hst
    obtain ⟨-, hv, hready⟩ := storeOut_validStore (s := t.lsu) (i := i) hst
    obtain ⟨hfu, hvalid⟩ := Bool.and_eq_true_iff.1 hv
    rw [beq_iff_eq] at hfu
    refine ⟨hready, _, h.ctrl hvalid, ?_, ?_⟩
    · show word _ = word (mmuVaddrD t.lsu i)
      rw [mmuVaddrD, hfu]
    · show plainStore _ = (amoOpOf (Lsu.ctrl t.lsu i).operator == .none)
      rw [Bool.eq_iff_iff, beq_iff_eq, amoOpOf_eq_none]
      simp [plainStore, hfu]
  slot := by
    intro k hk
    obtain ⟨hf, hmem⟩ := Bypass.mem_next hk
    show (t.issuedD i)[(if i.req.valid then Function.update t.memId t.lsu.bypass.writePtr t.issued.length
      else t.memId) k]? = some ((t.lsu.bypass.next i.flush i.req _ _).mem k)
    have hk' : ((t.lsu.bypass.next i.flush i.req (loadOut t.lsu i).popLd (storeOut t.lsu i).popSt).mem k).valid =
      true := hk
    rw [hmem] at hk' ⊢
    split_ifs at hk' ⊢ with hv
    · by_cases hkw : k = t.lsu.bypass.writePtr
      · rw [hkw, Function.update_self, Function.update_self]
        exact issuedD_req hv
      · rw [Function.update_of_ne hkw] at hk' ⊢
        rw [Function.update_of_ne hkw]
        exact issuedD_of_getElem? (h.slot k hk')
    · exact issuedD_of_getElem? (h.slot k hk')
  stores := by
    intro m hm
    rcases mem_pendingD (show m ∈ t.pendingD i from hm) with hm | ⟨hv, hp, rfl⟩
    · obtain ⟨c, hc, hp⟩ := h.stores m hm.1
      exact ⟨c, issuedD_of_getElem? hc, hp⟩
    · exact ⟨i.req, issuedD_req hv, hp⟩

end Step

/-! ### Requests in order -/

/-- The load at the head of the FIFO has been checked. -/
def LoadState.checked (st : LoadState) : Prop := st = .waitGnt ∨ st = .abortTransaction ∨ st = .waitTranslation

/-- Until the MMU reports an exception, every pending store is in the store buffer, in the
store unit or in the FIFO, which is in program order, and a load that has been checked is
for another word than the pending stores in front of it. -/
structure InOrder (t : Prog w) (l : List (LsuCtrl × ℕ)) : Prop where
  holds : t.lsu.bypass.Holds t.memId l
  valid : ∀ x ∈ l, x.1.valid = true
  room : t.ready = true → l.length ≤ 1
  sorted : l.Pairwise (·.2 < ·.2)
  lt : ∀ x ∈ l, x.2 < t.issued.length
  head : t.lsu.ld.state.checked ∨ t.lsu.ld.state = .waitPageOffset → ∃ x r, l = x :: r ∧ x.1.fu = .load
  checked : t.lsu.ld.state.checked → ∀ x r, l = x :: r →
    ∀ m ∈ t.pending, m < x.2 → Apart t.issued x.1.vaddr m
  placed : ∀ m ∈ t.pending, m ∈ t.commitIds ∨ m ∈ t.specIds ∨
    (t.lsu.st.state = .validStore ∧ m = t.unitId) ∨ ∃ x ∈ l, x.2 = m

theorem inOrder_reset : InOrder (progReset : Prog w) [] where
  holds := Bypass.Holds.reset
  valid := fun _ h => by cases h
  room := fun _ => Nat.zero_le _
  sorted := .nil
  lt := fun _ h => by cases h
  head := fun h => by rcases h with (h | h | h) | h <;> cases h
  checked := fun _ _ _ h => by cases h
  placed := fun _ h => by cases h

section Order

variable {t : Prog w} {i : In} {l : List (LsuCtrl × ℕ)}

/-- The FIFO with the request of the cycle. -/
def withReq (t : Prog w) (i : In) (l : List (LsuCtrl × ℕ)) : List (LsuCtrl × ℕ) :=
  l ++ if i.req.valid then [(i.req, t.issued.length)] else []

theorem InOrder.ctrl_cons (h : InOrder t l) {x : LsuCtrl × ℕ} {r : List (LsuCtrl × ℕ)} (hl : l = x :: r) :
    (ctrl t.lsu i, t.ctrlId) = x := by
  subst hl
  have he : ¬t.lsu.bypass.empty = true := fun he => List.cons_ne_nil _ _ (h.holds.empty_iff.1 he)
  rw [ctrl, Bypass.lsuCtrlO, if_neg he, Prog.ctrlId, if_neg he]
  exact h.holds.head

/-- The request the FIFO presents is its oldest one. -/
theorem InOrder.presented (h : InOrder t l) (hv : (ctrl t.lsu i).valid = true) :
    ∃ r, withReq t i l = (ctrl t.lsu i, t.ctrlId) :: r := by
  cases l with
  | nil =>
    have he : t.lsu.bypass.empty = true := h.holds.empty_iff.2 rfl
    rw [ctrl, Bypass.lsuCtrlO, if_pos he] at hv ⊢
    rw [withReq, if_pos hv, Prog.ctrlId, if_pos he]
    exact ⟨[], rfl⟩
  | cons x r =>
    rw [h.ctrl_cons rfl]
    exact ⟨_, List.cons_append⟩

theorem InOrder.ids_withReq (h : InOrder t l) :
    (withReq t i l).Pairwise (·.2 < ·.2) ∧ ∀ x ∈ withReq t i l, x.2 < (t.issuedD i).length ∧ x.1.valid = true := by
  unfold withReq Prog.issuedD
  split_ifs with hv
  · refine ⟨?_, ?_⟩
    · rw [List.pairwise_append]
      refine ⟨h.sorted, List.pairwise_singleton _ _, fun x hx y hy => ?_⟩
      rw [List.mem_singleton.1 hy]
      exact h.lt x hx
    · intro x hx
      rw [List.length_append, List.length_singleton]
      rcases List.mem_append.1 hx with hx | hx
      · exact ⟨Nat.lt_succ_of_lt (h.lt x hx), h.valid x hx⟩
      · rw [List.mem_singleton.1 hx]
        exact ⟨Nat.lt_succ_self _, hv⟩
  · rw [List.append_nil]
    exact ⟨h.sorted, fun x hx => ⟨h.lt x hx, h.valid x hx⟩⟩

/-- If the check finds nothing, no pending store in front of the load is for its word. -/
theorem InOrder.apart (h : InOrder t l) (hn : Numbered t) (hr : Regular t i)
    (hv : (ctrl t.lsu i).valid = true) (hm : pageOffsetMatches t.lsu i = false) :
    ∀ m ∈ t.pending, m < t.ctrlId → Apart t.issued (ctrl t.lsu i).vaddr m := by
  intro m hp hlt c hc hw
  obtain ⟨ls, p, hinv, hls, hps⟩ := hn.buffer
  have hnm : ¬pageOffsetMatches t.lsu i = true := Bool.eq_false_iff.1 hm
  have hmatch (hq : t.lsu.sb.commit.hasWord (word (ctrl t.lsu i).vaddr) = true ∨
      t.lsu.sb.spec.hasWord (word (ctrl t.lsu i).vaddr) = true ∨
      word (ctrl t.lsu i).vaddr = word i.paddr ∧ (storeOut t.lsu i).stValidWithoutFlush = true) : False := by
    apply hnm
    simp only [pageOffsetMatches, StoreBuffer.pageOffsetMatchesO, Bool.or_eq_true, Bool.and_eq_true, beq_iff_eq]
    tauto
  have hfind {ids : List ℕ} {xs : List StoreBuffer.Store} (hx : List.Forall₂ (Names t.issued) ids xs)
      (hmem : m ∈ ids) : ∃ st ∈ xs, word st.address = word (ctrl t.lsu i).vaddr := by
    obtain ⟨k, hk, rfl⟩ := List.getElem_of_mem hmem
    have hk' : k < xs.length := hx.length_eq ▸ hk
    obtain ⟨c', hc', hw'⟩ := hx.get hk hk'
    obtain rfl : c = c' := Option.some.inj (hc.symm.trans hc')
    exact ⟨_, List.getElem_mem hk', hw'.trans hw⟩
  rcases h.placed m hp with hmem | hmem | ⟨hst, rfl⟩ | ⟨x, hx, rfl⟩
  · exact hmatch (.inl ((hinv.commit.hasWord_iff _).2 (hfind hps hmem)))
  · exact hmatch (.inr (.inl ((hinv.spec.hasWord_iff _).2 (hfind hls hmem))))
  · obtain ⟨-, c', hc', hw', -⟩ := hn.unit hst
    obtain rfl : c = c' := Option.some.inj (hc.symm.trans hc')
    have hpa : word i.paddr = word c.vaddr := (word_eq_of_offset hr.paddr).trans hw'.symm
    refine hmatch (.inr (.inr ⟨hw.symm.trans hpa.symm, ?_⟩))
    rw [storeOut_unit.1, hst]
    rfl
  · -- the requests in the FIFO are not in front of its head
    obtain ⟨r, hcons⟩ := h.presented hv
    have hsorted := (h.ids_withReq (i := i)).1
    have hmem : x ∈ withReq t i l := List.mem_append_left _ hx
    rw [hcons] at hsorted hmem
    rcases List.mem_cons.1 hmem with rfl | hmem
    · exact Nat.lt_irrefl _ hlt
    · exact Nat.lt_asymm hlt ((List.pairwise_cons.1 hsorted).1 x hmem)

/-- While the load unit waits, it waits for the head of the FIFO. -/
theorem InOrder.waits_for_head (h : InOrder t l)
    (hs : t.lsu.ld.state.checked ∨ t.lsu.ld.state = .waitPageOffset) : ldValid t.lsu i = true := by
  obtain ⟨x, r, hl, hfu⟩ := h.head hs
  have hx := h.ctrl_cons (i := i) hl
  have hv := h.valid x (hl ▸ List.mem_cons_self)
  rw [← hx] at hfu hv
  simp only [ldValid, Bool.and_eq_true, beq_iff_eq]
  exact ⟨hfu, hv⟩

theorem InOrder.ctrlId_le (h : InOrder t l) : t.ctrlId ≤ t.issued.length := by
  unfold Prog.ctrlId
  split_ifs with he
  · exact le_rfl
  · cases l with
    | nil => exact absurd (h.holds.empty_iff.2 rfl) he
    | cons x r =>
      have hx := h.holds.head
      have hid : t.memId t.lsu.bypass.readPtr = x.2 := congrArg Prod.snd hx
      rw [hid]
      exact (h.lt x List.mem_cons_self).le

/-- A checked load is for another word than the pending stores in front of it. -/
theorem InOrder.apart_of_checked (h : InOrder t l) (hs : t.lsu.ld.state.checked) :
    ∀ m ∈ t.pending, m < t.ctrlId → Apart t.issued (ctrl t.lsu i).vaddr m := by
  obtain ⟨x, r, hl, -⟩ := h.head (.inl hs)
  have hx := h.ctrl_cons (i := i) hl
  have hc : (ctrl t.lsu i).vaddr = x.1.vaddr := by rw [← hx]
  have hid : t.ctrlId = x.2 := by rw [← hx]
  rw [hc, hid]
  exact h.checked hs x r hl

/-- The FIFO after a cycle without a flush: at most the presented request leaves it. -/
theorem InOrder.holds_next (h : InOrder t l) (hr : Regular t i) {pl ps : Bool} (hb : (ps && pl) = false)
    (hpop : (pl || ps) = true → (ctrl t.lsu i).valid = true) :
    (t.lsu.bypass.next false i.req pl ps).Holds (t.next i).memId
      (if pl || ps then (withReq t i l).tail else withReq t i l) := by
  have hpush : (if i.req.valid then t.lsu.bypass.push i.req else t.lsu.bypass).Holds (t.next i).memId
      (withReq t i l) := by
    unfold Prog.next withReq
    split_ifs with hv
    · have hroom := h.room (hr.req hv).1
      exact h.holds.push (by omega) _ _
    · rw [List.append_nil]
      exact h.holds
  have hptr : (if i.req.valid then t.lsu.bypass.push i.req else t.lsu.bypass).readPtr =
      t.lsu.bypass.readPtr := by split_ifs <;> rfl
  have hpopped (hp : (pl || ps) = true) :
      ((if i.req.valid then t.lsu.bypass.push i.req else t.lsu.bypass).pop t.lsu.bypass.readPtr).Holds
        (t.next i).memId (withReq t i l).tail := by
    obtain ⟨r, hcons⟩ := h.presented (hpop hp)
    rw [hcons] at hpush ⊢
    have := hpush.pop
    rwa [hptr] at this
  unfold Bypass.next
  cases pl <;> cases ps
  · exact hpush
  · exact hpopped rfl
  · exact hpopped rfl
  · cases hb

/-- A pending store keeps its place, or moves on to the next one. -/
theorem InOrder.placed_next (h : InOrder t l) (hn : Numbered t) (hf : i.flush = false)
    (hx : i.ex.valid = false) {m : ℕ} (hm : m ∈ t.pendingD i) :
    m ∈ t.commitIdsD i ∨ m ∈ t.specIdsD i ∨ ∃ x ∈ withReq t i l, x.2 = m := by
  rcases mem_pendingD hm with ⟨hp, hg⟩ | ⟨hv, -, rfl⟩
  · obtain ⟨c, hc, hplain⟩ := hn.stores m hp
    rcases h.placed m hp with hmem | hmem | ⟨hst, rfl⟩ | ⟨x, hx, hid⟩
    · refine .inl (List.mem_append_left _ ?_)
      by_cases hgr : t.stGranted i = true
      · rw [if_pos hgr]
        cases hids : t.commitIds with
        | nil => simp [hids] at hmem
        | cons n r =>
          rw [hids] at hmem hg
          rcases List.mem_cons.1 hmem with rfl | hmem
          · exact absurd ⟨hgr, rfl⟩ hg
          · exact hmem
      · rw [if_neg hgr]
        exact hmem
    · by_cases hc : i.commit = true
      · cases hids : t.specIds with
        | nil => simp [hids] at hmem
        | cons n r =>
          rw [hids] at hmem
          rcases List.mem_cons.1 hmem with rfl | hmem
          · refine .inl (List.mem_append_right _ ?_)
            simp [hc, hids]
          · refine .inr (.inl ?_)
            simp [Prog.specIdsD, hf, hc, hids, hmem]
      · refine .inr (.inl ?_)
        simp [Prog.specIdsD, hf, hc, hmem]
    · -- the store unit puts it into the speculative queue
      obtain ⟨-, c', hc', -, hamo⟩ := hn.unit hst
      obtain rfl : c = c' := Option.some.inj (hc.symm.trans hc')
      have hsv : sbValid t.lsu i = true := by
        rw [sbValid, storeOut_unit.2, hst, hf, hx, ← hamo, hplain]
        rfl
      refine .inr (.inl ?_)
      simp [Prog.specIdsD, hf, hsv]
    · exact .inr (.inr ⟨x, List.mem_append_left _ hx, hid⟩)
  · refine .inr (.inr ⟨(i.req, t.issued.length), List.mem_append_right _ ?_, rfl⟩)
    simp [hv]

/-- The requests stay in order as long as there is no exception and no flush. -/
theorem InOrder.step (h : InOrder t l) (hn : Numbered t) (hr : Regular t i) (hf : i.flush = false)
    (hx : i.ex.valid = false) : ∃ l', InOrder (t.next i) l' := by
  obtain ⟨hpopLd, hwait, hchecked⟩ := loadOut_cases (s := t.lsu) hf hx
  have hpopSt := popSt_cases (s := t.lsu) hf hx
  -- the units pop what they were presented
  have hld (hp : (loadOut t.lsu i).popLd = true) : ldValid t.lsu i = true :=
    (hpopLd hp).2.elim (fun hs => h.waits_for_head (.inl (.inl hs))) fun hs => hs.2.1
  have hst (hp : (storeOut t.lsu i).popSt = true) : stValid t.lsu i = true :=
    (storeOut_validStore (hpopSt.1 hp)).2.1
  have hexcl : ¬(ldValid t.lsu i = true ∧ stValid t.lsu i = true) := by
    simp only [ldValid, stValid, Bool.and_eq_true, beq_iff_eq]
    rintro ⟨⟨hl, -⟩, hs, -⟩
    rw [hl] at hs
    cases hs
  have hboth : ((storeOut t.lsu i).popSt && (loadOut t.lsu i).popLd) = false := by
    rw [Bool.eq_false_iff]
    intro hb
    obtain ⟨hs, hl⟩ := Bool.and_eq_true_iff.1 hb
    exact hexcl ⟨hld hl, hst hs⟩
  have hvalid (hp : ((loadOut t.lsu i).popLd || (storeOut t.lsu i).popSt) = true) :
      (ctrl t.lsu i).valid = true := by
    rcases Bool.or_eq_true_iff.1 hp with hp | hp
    · exact (Bool.and_eq_true_iff.1 (hld hp)).2
    · exact (Bool.and_eq_true_iff.1 (hst hp)).2
  obtain ⟨hsorted, hids⟩ := h.ids_withReq (i := i)
  have hsub : (if (loadOut t.lsu i).popLd || (storeOut t.lsu i).popSt then (withReq t i l).tail
      else withReq t i l).Sublist (withReq t i l) := by
    split_ifs
    · exact List.tail_sublist _
    · exact List.Sublist.refl _
  -- a load that waits stays where it is
  have hstay (hnp : (loadOut t.lsu i).popLd = false) (hv : ldValid t.lsu i = true) :
      ∃ r, (if (loadOut t.lsu i).popLd || (storeOut t.lsu i).popSt then (withReq t i l).tail
        else withReq t i l) = (ctrl t.lsu i, t.ctrlId) :: r := by
    have hps : (storeOut t.lsu i).popSt = false := Bool.eq_false_iff.2 fun hps => hexcl ⟨hv, hst hps⟩
    rw [hnp, hps]
    exact h.presented (Bool.and_eq_true_iff.1 hv).2
  have hnotpop (hs : (loadOut t.lsu i).stateD ≠ .sendTag) : (loadOut t.lsu i).popLd = false :=
    Bool.eq_false_iff.2 fun hp => hs (hpopLd hp).1
  have hopen (hs : (loadOut t.lsu i).stateD.checked) : (loadOut t.lsu i).popLd = false ∧
      ldValid t.lsu i = true ∧ ∀ m ∈ t.pending, m < t.ctrlId → Apart t.issued (ctrl t.lsu i).vaddr m := by
    have hnp := hnotpop (by rcases hs with hs | hs | hs <;> rw [hs] <;> simp)
    rcases hchecked hnp hs with hs | ⟨hs, hm⟩
    · exact ⟨hnp, h.waits_for_head (.inl hs), h.apart_of_checked hs⟩
    · have hv : ldValid t.lsu i = true := hs.elim (fun hs => h.waits_for_head (.inr hs)) And.right
      exact ⟨hnp, hv, h.apart hn hr (Bool.and_eq_true_iff.1 hv).2 hm⟩
  refine ⟨_, ⟨?_, ?_, ?_, hsorted.sublist hsub, ?_, ?_, ?_, ?_⟩⟩
  · have hnext := h.holds_next hr hboth hvalid
    rw [← hf] at hnext
    exact hnext
  · exact fun x hx => (hids x (hsub.subset hx)).2
  · intro hready
    have hl : l = [] := h.holds.empty_iff.1 hready
    refine hsub.length_le.trans ?_
    rw [hl, withReq]
    split_ifs
    · exact le_rfl
    · exact Nat.zero_le _
  · exact fun x hx => (hids x (hsub.subset hx)).1
  · intro hs
    obtain ⟨hnp, hv⟩ : (loadOut t.lsu i).popLd = false ∧ ldValid t.lsu i = true := by
      rcases hs with hs | hs
      · exact ⟨(hopen hs).1, (hopen hs).2.1⟩
      · have hs' : (loadOut t.lsu i).stateD = .waitPageOffset := hs
        have hnp := hnotpop (by rw [hs']; simp)
        exact ⟨hnp, (hwait hnp hs').elim (fun hs => h.waits_for_head (.inr hs)) And.right⟩
    obtain ⟨r, hl⟩ := hstay hnp hv
    exact ⟨_, r, hl, by simpa using (Bool.and_eq_true_iff.1 hv).1⟩
  · intro hs x r hl m hm hlt
    obtain ⟨hnp, hv, hapart⟩ := hopen hs
    obtain ⟨r', hl'⟩ := hstay hnp hv
    obtain ⟨rfl, -⟩ := List.cons.inj (hl.symm.trans hl')
    have hle := h.ctrlId_le
    rcases mem_pendingD hm with ⟨hm, -⟩ | ⟨-, -, rfl⟩
    · intro c hc
      refine hapart m hm hlt c ?_
      have hlen : m < t.issued.length := hlt.trans_le hle
      rw [← hc]
      show t.issued[m]? = (t.issuedD i)[m]?
      unfold Prog.issuedD
      split_ifs
      · rw [List.getElem?_append_left hlen]
      · rfl
    · exact absurd hlt (Nat.not_lt.2 hle)
  · intro m hm
    rcases h.placed_next hn hf hx hm with hm | hm | ⟨x, hx, rfl⟩
    · exact .inl hm
    · exact .inr (.inl hm)
    · by_cases hp : ((loadOut t.lsu i).popLd || (storeOut t.lsu i).popSt) = true
      · rw [if_pos hp]
        obtain ⟨r, hcons⟩ := h.presented (hvalid hp)
        rw [hcons] at hx ⊢
        rcases List.mem_cons.1 hx with rfl | hx
        · -- the store that leaves the FIFO is in the store unit
          rcases Bool.or_eq_true_iff.1 hp with hp | hp
          · obtain ⟨c, hc, hplain⟩ := (hn.step hr).stores _ hm
            have hfu := (Bool.and_eq_true_iff.1 (hld hp)).1
            obtain rfl := Option.some.inj (hc.symm.trans (hn.ctrl (hvalid (by simp [hp]))))
            rw [beq_iff_eq] at hfu
            simp [plainStore, hfu] at hplain
          · exact .inr (.inr (.inl ⟨hpopSt.1 hp, rfl⟩))
        · exact .inr (.inr (.inr ⟨x, hx, rfl⟩))
      · rw [if_neg hp]
        exact .inr (.inr (.inr ⟨x, hx, rfl⟩))

/-- A flush sets everything right. -/
theorem inOrder_flush (t : Prog w) (hf : i.flush = true) : InOrder (t.next i) [] where
  holds := by
    show (t.lsu.bypass.next i.flush i.req _ _).Holds _ []
    rw [hf]
    exact Bypass.Holds.reset
  valid := fun _ h => by cases h
  room := fun _ => Nat.zero_le _
  sorted := .nil
  lt := fun _ h => by cases h
  head := by
    have hs : (t.next i).lsu.ld.state = .waitFlush := (stateD_flush hf).1
    rw [hs]
    intro h
    rcases h with (h | h | h) | h <;> cases h
  checked := fun _ _ _ h => by cases h
  placed := by
    intro m hm
    have hm' : m ∈ t.pendingD i := hm
    unfold Prog.pendingD at hm'
    rw [if_pos hf] at hm'
    exact .inl (of_decide_eq_true (List.mem_filter.1 hm').2)

end Order

/-! ### Runs -/

/-- The numbers are right, and until an exception the requests are in order. -/
structure Ordered (t : Prog w) : Prop where
  numbered : Numbered t
  inOrder : t.faulted = false → ∃ l, InOrder t l

theorem Ordered.step {t : Prog w} (h : Ordered t) {i : In} (hr : Regular t i) : Ordered (t.next i) where
  numbered := h.numbered.step hr
  inOrder := by
    intro hfault
    have hfault' : (!i.flush && (t.faulted || i.ex.valid)) = false := hfault
    cases hf : i.flush with
    | true => exact ⟨[], inOrder_flush t hf⟩
    | false =>
      rw [hf, Bool.not_false, Bool.true_and, Bool.or_eq_false_iff] at hfault'
      obtain ⟨l, hl⟩ := h.inOrder hfault'.1
      exact hl.step h.numbered hr hf hfault'.2

theorem Ordered.loadsBehind {t : Prog w} (h : Ordered t) {i : In} (hr : Regular t i)
    (hfault : t.faulted = false) : LoadsBehind t i := by
  intro hg
  obtain ⟨l, hl⟩ := h.inOrder hfault
  rcases dataReq_cases (Bool.and_eq_true_iff.1 hg).1 with hs | ⟨-, hv, hm⟩
  · exact ⟨hl.waits_for_head (.inl (.inl hs)), hl.apart_of_checked (.inl hs)⟩
  · exact ⟨hv, hl.apart h.numbered hr (Bool.and_eq_true_iff.1 hv).2 hm⟩

theorem Ordered.grantsOwn {t : Prog w} (h : Ordered t) (i : In) : GrantsOwn t i := by
  intro hg
  obtain ⟨l, p, hinv, -, hp⟩ := h.numbered.buffer
  have hv := hinv.commit.head_valid.1 (Bool.and_eq_true_iff.1 hg).1
  obtain ⟨st, p', rfl⟩ := List.exists_cons_of_ne_nil hv
  obtain ⟨m, ids, ⟨c, hc, hw⟩, -, hids⟩ := List.forall₂_cons_right_iff.1 hp
  refine ⟨m, c, by rw [hids]; rfl, hc, ?_⟩
  rw [← hw, StoreBuffer.reqPortO, hinv.commit.head_cons]
  show (st.address.setWidth 56).extractLsb' 3 9 = word st.address
  apply Lib.extractLsb'_eq_of_getLsbD
  intro k hk
  have hlt : 3 + k < 56 := by omega
  simp [word, hk, hlt]

/-- In every run, whatever the translations, the grants and the commits, a load is granted
only when no pending store in front of it is for its word, as long as the MMU has reported
no exception since the last flush; and the stores that stop being pending without a flush
are those the cache grants. -/
theorem loads_behind_stores (is : List In) (hs : (ordered w).Steps Regular progReset is) :
    (ordered w).Steps (fun t i => (t.faulted = false → LoadsBehind t i) ∧ GrantsOwn t i) progReset is :=
  Machine.steps_of_inv (P := Ordered) (fun _ _ h hr => h.step hr)
    (fun _ i h hr => ⟨h.loadsBehind hr, h.grantsOwn i⟩) is _
    ⟨numbered_reset, fun _ => ⟨[], inOrder_reset⟩⟩ hs

/-! ### Two runs -/

/-- A cycle without a request, after a translation of `a`. -/
def quietAt (a : BitVec 64) : In :=
  ⟨false, false, false, ⟨false, 0⟩, LsuCtrl.zero, true, a, Exn.none, false, false, false⟩

def storeAt (a : BitVec 64) : LsuCtrl := ⟨true, a, 0, 0xff, .store, .sd, 0⟩
def loadAt (a : BitVec 64) : LsuCtrl := ⟨true, a, 0, 0xff, .load, .ld, 1⟩

/-- A store and a load of one word: the load waits until the store has retired and the cache
has granted it. -/
def storeThenLoad : List In :=
  [{ quietAt 0 with req := storeAt 0x80 }, { quietAt 0x80 with req := loadAt 0x80 },
    { quietAt 0x80 with commit := true }, { quietAt 0x80 with stGnt := true }, quietAt 0x80,
    { quietAt 0x80 with ldGnt := true }]

theorem loads_behind_stores_wait :
    let t := (ordered 3).run progReset (storeThenLoad.take 5)
    ((ordered 3).run progReset (storeThenLoad.take 3)).pending = [0] ∧ t.pending = [] ∧
      (loadOut t.lsu { quietAt 0x80 with ldGnt := true }).dataReq = true ∧
      LoadsBehind t { quietAt 0x80 with ldGnt := true } := by
  have hs : (ordered 3).Steps Regular progReset storeThenLoad := by
    refine ⟨?_, ?_, ?_, ?_, ?_, ?_, trivial⟩ <;> constructor <;> decide +kernel
  refine ⟨by decide +kernel, by decide +kernel, by decide +kernel, ?_⟩
  exact (loads_behind_stores storeThenLoad hs).2.2.2.2.2.1.1 (by decide +kernel)

/-- A store faults, and the next request is lost to the FIFO. The load after it is granted,
although it is for the word of the store, which is neither granted nor flushed. -/
theorem load_behind_faulting_store :
    let fault : Exn := ⟨15, 0x80, true⟩
    let is : List In :=
      [{ quietAt 0 with req := storeAt 0x80 }, { quietAt 0x80 with ex := fault },
        { quietAt 0 with req := storeAt 0x100 }, quietAt 0x80]
    let t := (ordered 3).run progReset is
    let i : In := { quietAt 0 with req := loadAt 0x80, ldGnt := true }
    (ordered 3).Steps Regular progReset (is ++ [i]) ∧ ((loadOut t.lsu i).dataReq && i.ldGnt) = true ∧
      0 ∈ t.pending ∧ t.issued[0]? = some (storeAt 0x80) ∧ ¬LoadsBehind t i := by
  intro fault is t i
  refine ⟨?_, by decide +kernel, by decide +kernel, by decide +kernel, fun h => ?_⟩
  · refine ⟨?_, ?_, ?_, ?_, ?_, trivial⟩ <;> constructor <;> decide +kernel
  · have hapart := (h (by decide +kernel)).2 0 (by decide +kernel) (by decide +kernel)
    exact hapart (storeAt 0x80) (by decide +kernel) (by decide +kernel)

end Lsu
end Ariane

/-
# The requests of the bypass FIFO

`Queued` is the load-store unit with the requests that have arrived and those that a unit has
popped, since the last flush. A pop is noted with the request the FIFO presents in that cycle,
once for each unit that pops.

The FIFO holds what has arrived and not gone (`Counted`), and each unit pops what it is
presented (`Presents`). That is so as long as an exception does not find a store that has left
the FIFO in front of a request that is not a store (`PopsOwn`): the store unit pops for the
exception of a store that waits at the head, and also for that of a store it has popped in the
cycle before. The second pop takes a request from the load unit, or counts below zero.
-/
import Ariane.Lib.Machine
import Ariane.Lib.Ring
import Ariane.Lsu.Lsu

namespace Ariane
namespace Lsu
namespace Queue

open Lib (Machine)

variable {w : ℕ}

/-- The requests in the slots, oldest first. -/
def contents (b : Bypass) : List LsuCtrl := Lib.Ring.contents b.mem b.readPtr b.statusCnt.toNat

structure Queued (w : ℕ) where
  lsu : Regs w
  /-- `lsu_ready_o` in the cycle before. -/
  ready : Bool
  arrived : List LsuCtrl
  gone : List LsuCtrl

def queuedReset : Queued w := ⟨reset, true, [], []⟩

namespace Queued

variable (t : Queued w) (i : In)

def arrives (i : In) : List LsuCtrl := if i.req.valid then [i.req] else []

def pops : List LsuCtrl :=
  (if (loadOut t.lsu i).popLd then [ctrl t.lsu i] else []) ++
    if (storeOut t.lsu i).popSt then [ctrl t.lsu i] else []

/-- The oldest request that has arrived and not gone. -/
def oldest : Option LsuCtrl := (t.arrived ++ arrives i)[t.gone.length]?

def next : Queued w where
  lsu := Lsu.next t.lsu i
  ready := t.lsu.bypass.readyO
  arrived := if i.flush then [] else t.arrived ++ arrives i
  gone := if i.flush then [] else t.gone ++ t.pops i

end Queued

def queued (w : ℕ) : Machine (Queued w) In := ⟨(· = queuedReset), Queued.next⟩

/-- A request comes only after a cycle that was ready for it. -/
def Offered (t : Queued w) (i : In) : Prop := i.req.valid = true → t.ready = true

instance (t : Queued w) (i : In) : Decidable (Offered t i) :=
  inferInstanceAs (Decidable (i.req.valid = true → t.ready = true))

/-- What has arrived is what has gone and what the FIFO holds, and the counter says how many
these are. -/
structure Counted (t : Queued w) : Prop where
  order : t.arrived = t.gone ++ contents t.lsu.bypass
  cnt : t.lsu.bypass.statusCnt.toNat + t.gone.length = t.arrived.length
  le : t.lsu.bypass.statusCnt.toNat ≤ 2

/-- The oldest request is presented, to its unit, and no other; and a unit pops only what it is
presented. -/
structure Presents (t : Queued w) (i : In) : Prop where
  shown : ∀ c, t.oldest i = some c → ctrl t.lsu i = c
  quiet : t.oldest i = none → ldValid t.lsu i = false ∧ stValid t.lsu i = false
  ld : i.flush = false → (loadOut t.lsu i).popLd = true → ldValid t.lsu i = true
  st : i.flush = false → (storeOut t.lsu i).popSt = true → stValid t.lsu i = true

/-- An exception that finds a store in the second cycle finds a store at the head as well. -/
def PopsOwn (t : Queued w) (i : In) : Prop :=
  i.flush = false → t.lsu.st.state = .validStore → i.ex.valid = true → ∃ c, t.oldest i = some c ∧ c.fu = .store

/-! ### The FIFO -/

/-- The FIFO holds the requests `l`, oldest first. -/
structure Lists (b : Bypass) (l : List LsuCtrl) : Prop where
  contents : Queue.contents b = l
  cnt : b.statusCnt.toNat = l.length
  write : b.writePtr = b.readPtr + BitVec.ofNat 1 l.length

namespace Lists

variable {b : Bypass} {l : List LsuCtrl}

theorem reset : Lists Bypass.reset [] := ⟨rfl, rfl, rfl⟩

theorem empty_iff (h : Lists b l) : b.empty = true ↔ l = [] := by
  rw [Bypass.empty, beq_iff_eq, ← List.length_eq_zero_iff, ← h.cnt, BitVec.toNat_eq]
  rfl

theorem head {c : LsuCtrl} (h : Lists b (c :: l)) : b.mem b.readPtr = c := by
  have hc := h.contents
  rw [Queue.contents, h.cnt, List.length_cons, Lib.Ring.contents_succ] at hc
  exact (List.cons.inj hc).1

theorem push (h : Lists b l) (hlt : l.length < 2) (c : LsuCtrl) : Lists (b.push c) (l ++ [c]) := by
  have hcnt : (b.push c).statusCnt.toNat = l.length + 1 := by
    have hone : (1 : BitVec 2).toNat = 1 := rfl
    rw [Bypass.push, BitVec.toNat_add, h.cnt, hone]
    omega
  have hl : Lib.Ring.contents b.mem b.readPtr l.length = l := by
    rw [← h.cnt]
    exact h.contents
  refine ⟨?_, ?_, ?_⟩
  · calc Queue.contents (b.push c)
        = Lib.Ring.contents (Function.update b.mem (b.readPtr + BitVec.ofNat 1 l.length) c) b.readPtr (l.length + 1) := by
          rw [Queue.contents, hcnt, ← h.write]
          rfl
      _ = l ++ [c] := by rw [Lib.Ring.contents_push (by omega), hl]
  · rw [hcnt, List.length_append, List.length_singleton]
  · rw [List.length_append, List.length_singleton, BitVec.ofNat_add, ← BitVec.add_assoc, Bypass.push, h.write]
    rfl

theorem pop {c : LsuCtrl} (h : Lists b (c :: l)) (hlt : l.length < 2) : Lists (b.pop b.readPtr) l := by
  have hlen := h.cnt
  rw [List.length_cons] at hlen
  have hcnt : (b.pop b.readPtr).statusCnt.toNat = l.length := by
    have hone : (1 : BitVec 2).toNat = 1 := rfl
    rw [Bypass.pop, BitVec.toNat_sub_of_le (by rw [BitVec.le_def]; omega), hlen, hone]
    omega
  have hc := h.contents
  rw [Queue.contents, hlen, Lib.Ring.contents_succ] at hc
  refine ⟨?_, hcnt, ?_⟩
  · calc Queue.contents (b.pop b.readPtr)
        = Lib.Ring.contents (Function.update b.mem b.readPtr { b.mem b.readPtr with valid := false })
            (b.readPtr + 1) l.length := by
          rw [Queue.contents, hcnt]
          rfl
      _ = Lib.Ring.contents b.mem (b.readPtr + 1) l.length := by
          refine Lib.Ring.contents_update_of_le (by omega) ?_ _
          rw [Lib.Ring.toNat_sub_succ_self]
          omega
      _ = l := (List.cons.inj hc).2
  · rw [Bypass.pop, h.write, List.length_cons, Lib.Ring.slot_succ]

end Lists

/-! ### The units -/

section Units

variable {s : Regs w} {i : In}

/-- The load unit is busy with the request at the head. -/
def loadWaits (st : LoadState) : Prop :=
  st = .waitGnt ∨ st = .waitPageOffset ∨ st = .abortTransaction ∨ st = .waitTranslation

/-- The store unit is busy with the request at the head. -/
def storeWaits (st : StoreState) : Prop := st = .waitTranslation ∨ st = .waitStoreReady

theorem popLd_spec {s : LoadRegs} {i : LoadIn} (hf : i.flush = false) (h : (Load.control s i).popLd = true) :
    loadWaits s.state ∨ i.valid = true := by
  cases hv : i.valid with
  | true => exact .inr rfl
  | false =>
    cases hst : s.state <;> cases hx : i.ex.valid <;>
      simp [Load.control, Load.stateCase, Load.newLoad, Load.defaults, hst, hv, hf, hx] at h <;>
      simp [loadWaits]

theorem loadWaits_spec {s : LoadRegs} {i : LoadIn} (hf : i.flush = false)
    (h : loadWaits (Load.control s i).stateD) :
    (Load.control s i).popLd = false ∧ (loadWaits s.state ∨ i.valid = true) := by
  have hx : (i.ex.valid && i.valid) = false := by
    by_contra hc
    rw [Bool.not_eq_false] at hc
    simp [Load.control, hf, hc, loadWaits] at h
  have ho : Load.control s i = Load.stateCase s i := by
    simp [Load.control, hf, hx]
  rw [ho] at h ⊢
  cases hv : i.valid <;> cases hst : s.state <;> cases hm : i.pageOffsetMatches <;> cases hg : i.dataGnt <;>
    cases hd : i.dtlbHit <;> cases he : i.ex.valid <;>
    simp [Load.stateCase, Load.newLoad, Load.request, Load.defaults, hst, hv, hm, hg, hd, he, loadWaits] at h ⊢

theorem popSt_spec (hf : i.flush = false) (h : (storeOut s i).popSt = true) :
    storeWaits s.st.state ∨ stValid s i = true ∨ s.st.state = .validStore ∧ i.ex.valid = true := by
  have hf' : (storeIn s i).flush = false := hf
  have hx' : (storeIn s i).ex = i.ex := rfl
  cases hv : stValid s i with
  | true => exact .inr (.inl rfl)
  | false =>
    have hv' : (storeIn s i).valid = false := hv
    cases hst : s.st.state with
    | idle => simp [storeOut, Store.control, Store.stateCase, hst, hv', hf'] at h
    | validStore =>
      cases hx : i.ex.valid with
      | false => simp [storeOut, Store.control, Store.stateCase, hst, hv', hf', hx', hx] at h
      | true => exact .inr (.inr ⟨rfl, rfl⟩)
    | waitTranslation => exact .inl (.inl rfl)
    | waitStoreReady => exact .inl (.inr rfl)

theorem storeWaits_spec (hf : i.flush = false) (h : storeWaits (storeOut s i).stateD) :
    (storeOut s i).popSt = false ∧ (storeWaits s.st.state ∨ stValid s i = true) := by
  have hf' : (storeIn s i).flush = false := hf
  have hx : ((storeIn s i).ex.valid && s.st.state != .idle) = false := by
    by_contra hc
    rw [Bool.not_eq_false] at hc
    simp [storeOut, Store.control, hf', hc, storeWaits] at h
  have ho : storeOut s i = Store.stateCase s.st (storeIn s i) := by
    simp [storeOut, Store.control, hf', hx]
  have hv' : (storeIn s i).valid = stValid s i := rfl
  rw [ho] at h ⊢
  cases hst : s.st.state <;> cases hv : stValid s i <;> cases hd : (storeIn s i).dtlbHit <;>
    cases hr : (storeIn s i).stReady <;> cases ha : (storeIn s i).ctrl.operator.isAmo <;>
    simp [Store.stateCase, Store.newStore, hst, hv', hv, hd, hr, ha, storeWaits] at h ⊢

/-- The second pop. -/
theorem popSt_validStore (hf : i.flush = false) (hst : s.st.state = .validStore) (hx : i.ex.valid = true) :
    (storeOut s i).popSt = true := by
  have hf' : (storeIn s i).flush = false := hf
  have hx' : (storeIn s i).ex.valid = true := hx
  simp [storeOut, Store.control, hst, hf', hx']

theorem not_both : ¬(ldValid s i = true ∧ stValid s i = true) := by
  simp only [ldValid, stValid, Bool.and_eq_true, beq_iff_eq]
  rintro ⟨⟨hl, -⟩, hs, -⟩
  rw [hl] at hs
  cases hs

end Units

/-! ### The invariant -/

/-- The FIFO holds `l`, and a unit that is busy with a request is busy with the first one. -/
structure Inv (t : Queued w) (l : List LsuCtrl) : Prop where
  arrived : t.arrived = t.gone ++ l
  lists : Lists t.lsu.bypass l
  le : l.length ≤ 2
  room : t.ready = true → l.length ≤ 1
  valid : ∀ c ∈ l, c.valid = true
  ld : loadWaits t.lsu.ld.state → ∃ c r, l = c :: r ∧ c.fu = .load
  st : storeWaits t.lsu.st.state → ∃ c r, l = c :: r ∧ c.fu = .store

theorem inv_reset : Inv (queuedReset : Queued w) [] where
  arrived := rfl
  lists := Lists.reset
  le := Nat.zero_le _
  room _ := Nat.zero_le _
  valid _ h := absurd h List.not_mem_nil
  ld h := by
    change loadWaits .idle at h
    simp [loadWaits] at h
  st h := by
    change storeWaits .idle at h
    simp [storeWaits] at h

theorem inv_flush (t : Queued w) {i : In} (hf : i.flush = true) : Inv (t.next i) [] := by
  have hl : (loadIn t.lsu i).flush = true := hf
  have hs : (storeIn t.lsu i).flush = true := hf
  refine ⟨?_, ?_, Nat.zero_le _, fun _ => Nat.zero_le _, fun _ h => absurd h List.not_mem_nil, ?_, ?_⟩
  · simp [Queued.next, hf]
  · have hb : (t.next i).lsu.bypass = Bypass.reset := by
      change t.lsu.bypass.next i.flush i.req _ _ = _
      simp [Bypass.next, hf]
    rw [hb]
    exact Lists.reset
  · intro h
    change loadWaits (loadOut t.lsu i).stateD at h
    simp [loadOut, Load.control, hl, loadWaits] at h
  · intro h
    change storeWaits (storeOut t.lsu i).stateD at h
    simp [storeOut, Store.control, hs, storeWaits] at h

namespace Inv

variable {t : Queued w} {i : In} {l : List LsuCtrl}

theorem counted (h : Inv t l) : Counted t where
  order := by rw [h.lists.contents, h.arrived]
  cnt := by rw [h.lists.cnt, h.arrived, List.length_append, Nat.add_comm]
  le := h.lists.cnt.trans_le h.le

/-- The oldest request is the first one of the FIFO, or it arrives. -/
theorem oldest_eq (h : Inv t l) : t.oldest i = (l ++ Queued.arrives i).head? := by
  rw [Queued.oldest, h.arrived, List.append_assoc, List.getElem?_append_right le_rfl, Nat.sub_self,
    List.head?_eq_getElem?]

/-- What the FIFO presents. -/
theorem shown (h : Inv t l) {c : LsuCtrl} {r : List LsuCtrl} (hl : l ++ Queued.arrives i = c :: r) :
    ctrl t.lsu i = c := by
  cases l with
  | nil =>
    rw [List.nil_append, Queued.arrives] at hl
    rw [ctrl, Bypass.lsuCtrlO, h.lists.empty_iff.2 rfl, if_pos rfl]
    split at hl
    · exact (List.cons.inj hl).1
    · cases hl
  | cons d l =>
    have he : t.lsu.bypass.empty = false := by
      rw [Bool.eq_false_iff, Ne, h.lists.empty_iff]
      exact List.cons_ne_nil d l
    rw [ctrl, Bypass.lsuCtrlO, he, if_neg Bool.false_ne_true, h.lists.head]
    exact (List.cons.inj hl).1

theorem quiet (h : Inv t l) (hl : l ++ Queued.arrives i = []) : (ctrl t.lsu i).valid = false := by
  obtain ⟨rfl, ha⟩ := List.append_eq_nil_iff.1 hl
  rw [ctrl, Bypass.lsuCtrlO, h.lists.empty_iff.2 rfl, if_pos rfl]
  rw [Queued.arrives] at ha
  split at ha
  · cases ha
  · rename_i hv
    exact Bool.eq_false_of_not_eq_true hv

/-- A valid request that is presented is the oldest one. -/
theorem presented (h : Inv t l) (hv : (ctrl t.lsu i).valid = true) :
    ∃ r, l ++ Queued.arrives i = ctrl t.lsu i :: r := by
  cases hl : l ++ Queued.arrives i with
  | nil => simp [h.quiet hl] at hv
  | cons c r => exact ⟨r, by rw [h.shown hl]⟩

theorem valid_arrives (h : Inv t l) : ∀ c ∈ l ++ Queued.arrives i, c.valid = true := by
  intro c hc
  rcases List.mem_append.1 hc with hc | hc
  · exact h.valid c hc
  · rw [Queued.arrives] at hc
    split at hc
    · rename_i hv
      rw [List.mem_singleton.1 hc]
      exact hv
    · cases hc

theorem ldValid_of_waits (h : Inv t l) (hw : loadWaits t.lsu.ld.state) : ldValid t.lsu i = true := by
  obtain ⟨c, r, rfl, hfu⟩ := h.ld hw
  have hc := h.shown (i := i) (List.cons_append ..)
  rw [ldValid, hc, hfu, h.valid c List.mem_cons_self]
  rfl

theorem stValid_of_waits (h : Inv t l) (hw : storeWaits t.lsu.st.state) : stValid t.lsu i = true := by
  obtain ⟨c, r, rfl, hfu⟩ := h.st hw
  have hc := h.shown (i := i) (List.cons_append ..)
  rw [stValid, hc, hfu, h.valid c List.mem_cons_self]
  rfl

theorem ldValid_of_pop (h : Inv t l) (hf : i.flush = false) (hp : (loadOut t.lsu i).popLd = true) :
    ldValid t.lsu i = true :=
  (popLd_spec (s := t.lsu.ld) (i := loadIn t.lsu i) hf hp).elim h.ldValid_of_waits id

/-- The store unit pops its own request exactly if an exception does not make it pop another. -/
theorem popsOwn_iff (h : Inv t l) :
    PopsOwn t i ↔ (i.flush = false → (storeOut t.lsu i).popSt = true → stValid t.lsu i = true) := by
  constructor
  · intro hown hf hp
    rcases popSt_spec hf hp with hw | hv | ⟨hst, hx⟩
    · exact h.stValid_of_waits hw
    · exact hv
    · obtain ⟨c, hc, hfu⟩ := hown hf hst hx
      rw [h.oldest_eq] at hc
      obtain ⟨r, hr⟩ := List.head?_eq_some_iff.1 hc
      rw [stValid, h.shown hr, hfu, h.valid_arrives c (hr ▸ List.mem_cons_self)]
      rfl
  · intro hown hf hst hx
    have hv := hown hf (popSt_validStore hf hst hx)
    simp only [stValid, Bool.and_eq_true, beq_iff_eq] at hv
    obtain ⟨r, hr⟩ := h.presented hv.2
    exact ⟨_, by rw [h.oldest_eq, hr]; rfl, hv.1⟩

theorem presents_iff (h : Inv t l) : Presents t i ↔ PopsOwn t i := by
  rw [h.popsOwn_iff]
  refine ⟨fun hp => hp.st, fun hst => ⟨fun c hc => ?_, fun hn => ?_, fun hf => h.ldValid_of_pop hf, hst⟩⟩
  · rw [h.oldest_eq] at hc
    obtain ⟨r, hr⟩ := List.head?_eq_some_iff.1 hc
    exact h.shown hr
  · rw [h.oldest_eq, List.head?_eq_none_iff] at hn
    simp [ldValid, stValid, h.quiet hn]

/-- The FIFO before the pops of a cycle. -/
theorem pushed (h : Inv t l) (hof : Offered t i) :
    Lists (if i.req.valid then t.lsu.bypass.push i.req else t.lsu.bypass) (l ++ Queued.arrives i) := by
  unfold Queued.arrives
  split
  · rename_i hv
    have hroom := h.room (hof hv)
    exact h.lists.push (by omega) i.req
  · rw [List.append_nil]
    exact h.lists

theorem length_arrives (h : Inv t l) (hof : Offered t i) : (l ++ Queued.arrives i).length ≤ 2 := by
  have hle := h.le
  rw [List.length_append, Queued.arrives]
  split
  · rename_i hv
    have hroom := h.room (hof hv)
    rw [List.length_singleton]
    omega
  · simpa using hle

/-- At most the presented request leaves. -/
theorem lists_next (h : Inv t l) (hof : Offered t i) {pl ps : Bool} (hb : ¬(pl = true ∧ ps = true))
    (hv : pl = true ∨ ps = true → (ctrl t.lsu i).valid = true) :
    Lists (t.lsu.bypass.next false i.req pl ps)
      (if pl || ps then (l ++ Queued.arrives i).tail else l ++ Queued.arrives i) := by
  have hpush := h.pushed hof
  have hlen := h.length_arrives hof
  have hptr : (if i.req.valid then t.lsu.bypass.push i.req else t.lsu.bypass).readPtr = t.lsu.bypass.readPtr := by
    split <;> rfl
  have hpopped (hp : pl = true ∨ ps = true) :
      Lists ((if i.req.valid then t.lsu.bypass.push i.req else t.lsu.bypass).pop t.lsu.bypass.readPtr)
        (l ++ Queued.arrives i).tail := by
    obtain ⟨r, hr⟩ := h.presented (hv hp)
    rw [hr] at hpush hlen ⊢
    rw [List.length_cons] at hlen
    have hpop := hpush.pop (by omega)
    rwa [hptr] at hpop
  cases pl with
  | false =>
    cases ps with
    | false => exact hpush
    | true => exact hpopped (.inr rfl)
  | true =>
    cases ps with
    | false => exact hpopped (.inl rfl)
    | true => exact absurd ⟨rfl, rfl⟩ hb

theorem next (h : Inv t l) (hof : Offered t i) (hown : PopsOwn t i) : ∃ l', Inv (t.next i) l' := by
  cases hf : i.flush with
  | true => exact ⟨[], inv_flush t hf⟩
  | false =>
    have hpl := h.ldValid_of_pop hf
    have hps := h.popsOwn_iff.1 hown hf
    have hb : ¬((loadOut t.lsu i).popLd = true ∧ (storeOut t.lsu i).popSt = true) := fun hc =>
      not_both ⟨hpl hc.1, hps hc.2⟩
    have hv : (loadOut t.lsu i).popLd = true ∨ (storeOut t.lsu i).popSt = true → (ctrl t.lsu i).valid = true := by
      rintro (hp | hp)
      · exact ((Bool.and_eq_true _ _).mp (hpl hp)).2
      · exact ((Bool.and_eq_true _ _).mp (hps hp)).2
    have hsub : (if (loadOut t.lsu i).popLd || (storeOut t.lsu i).popSt then (l ++ Queued.arrives i).tail
        else l ++ Queued.arrives i).Sublist (l ++ Queued.arrives i) := by
      split
      · exact List.tail_sublist _
      · exact List.Sublist.refl _
    -- a request that stays and is of the unit stays at the head
    have hstay (hn : (loadOut t.lsu i).popLd = false ∧ (storeOut t.lsu i).popSt = false)
        (hc : (ctrl t.lsu i).valid = true) :
        ∃ r, (if (loadOut t.lsu i).popLd || (storeOut t.lsu i).popSt then (l ++ Queued.arrives i).tail
          else l ++ Queued.arrives i) = ctrl t.lsu i :: r := by
      rw [hn.1, hn.2]
      exact h.presented hc
    refine ⟨_, ?_, ?_, hsub.length_le.trans (h.length_arrives hof), ?_, fun c hc => h.valid_arrives c (hsub.subset hc), ?_, ?_⟩
    · change (if i.flush then [] else t.arrived ++ Queued.arrives i) =
        (if i.flush then [] else t.gone ++ t.pops i) ++ _
      rw [hf, if_neg Bool.false_ne_true, if_neg Bool.false_ne_true, h.arrived, List.append_assoc, List.append_assoc,
        Queued.pops]
      cases hl : (loadOut t.lsu i).popLd with
      | true =>
        have hs : (storeOut t.lsu i).popSt = false := Bool.eq_false_of_not_eq_true fun hs => hb ⟨hl, hs⟩
        obtain ⟨r, hr⟩ := h.presented (hv (.inl hl))
        simp [hs, hr]
      | false =>
        cases hs : (storeOut t.lsu i).popSt with
        | true =>
          obtain ⟨r, hr⟩ := h.presented (hv (.inr hs))
          simp [hr]
        | false => simp
    · change Lists (t.lsu.bypass.next i.flush i.req _ _) _
      rw [hf]
      exact h.lists_next hof hb hv
    · intro hr
      have hl : l = [] := h.lists.empty_iff.1 hr
      refine hsub.length_le.trans ?_
      rw [hl, List.nil_append, Queued.arrives]
      split
      · exact le_rfl
      · exact Nat.zero_le _
    · intro hw
      obtain ⟨hn, hw'⟩ := loadWaits_spec (s := t.lsu.ld) (i := loadIn t.lsu i) hf hw
      have hld : ldValid t.lsu i = true := hw'.elim h.ldValid_of_waits id
      have hs : (storeOut t.lsu i).popSt = false := Bool.eq_false_of_not_eq_true fun hs => not_both ⟨hld, hps hs⟩
      simp only [ldValid, Bool.and_eq_true, beq_iff_eq] at hld
      obtain ⟨r, hr⟩ := hstay ⟨hn, hs⟩ hld.2
      exact ⟨_, r, hr, hld.1⟩
    · intro hw
      obtain ⟨hn, hw'⟩ := storeWaits_spec hf hw
      have hst : stValid t.lsu i = true := hw'.elim h.stValid_of_waits id
      have hl : (loadOut t.lsu i).popLd = false := Bool.eq_false_of_not_eq_true fun hl => not_both ⟨hpl hl, hst⟩
      simp only [stValid, Bool.and_eq_true, beq_iff_eq] at hst
      obtain ⟨r, hr⟩ := hstay ⟨hl, hn⟩ hst.2
      exact ⟨_, r, hr, hst.1⟩

end Inv

/-! ### The result -/

/-- **Requests of the bypass FIFO.** In every run in which a request comes only after a cycle that
was ready for it, the counter is right and each request goes to its unit, in order and once,
exactly if no exception finds a store in the second cycle and no store at the head. -/
theorem pops_once_iff (is : List In) (hof : (queued w).Steps Offered queuedReset is) :
    (queued w).Always Counted queuedReset is ∧ (queued w).Steps Presents queuedReset is ↔
      (queued w).Steps PopsOwn queuedReset is := by
  have step (t : Queued w) (i : In) (ht : ∃ l, Inv t l) (h : Offered t i ∧ PopsOwn t i) : ∃ l, Inv (t.next i) l :=
    ht.elim fun _ ht => ht.next h.1 h.2
  have hreset : ∃ l, Inv (queuedReset : Queued w) l := ⟨[], inv_reset⟩
  constructor
  · rintro ⟨-, hp⟩
    refine Machine.steps_of_inv (P := fun t => ∃ l, Inv t l) (fun t i ht (h : Offered t i ∧ Presents t i) =>
      step t i ht ⟨h.1, ?_⟩) (fun t i ht h => ?_) is _ hreset ((Machine.steps_and is _).2 ⟨hof, hp⟩)
    · exact ht.elim fun _ ht => ht.presents_iff.1 h.2
    · exact ht.elim fun _ ht => ht.presents_iff.1 h.2
  · intro hown
    have hs := (Machine.steps_and is _).2 ⟨hof, hown⟩
    have hall := Machine.always_of_steps (P := fun t => ∃ l, Inv t l) step is _ hreset hs
    exact ⟨hall.mono fun _ ht => ht.elim fun _ ht => ht.counted,
      Machine.steps_of_inv step (fun _ _ ht h => ht.elim fun _ ht => ht.presents_iff.2 h.2) is _ hreset hs⟩

/-- A cycle in which the MMU translates what it is asked, and the cache grants nothing. -/
def idleIn : In :=
  ⟨false, false, false, ⟨false, 0⟩, LsuCtrl.zero, true, 0, Exn.none, false, false, false⟩

def storeReq : LsuCtrl := ⟨true, 0x80, 0, 0xff, .store, .sd, 0⟩
def loadReq : LsuCtrl := ⟨true, 0x100, 0, 0xff, .load, .ld, 1⟩

/-- A store and two loads, the first of which waits for its grant. -/
def threeReqs : List In :=
  [{ idleIn with req := storeReq }, { idleIn with req := loadReq }, { idleIn with req := loadReq }, idleIn,
    { idleIn with ldGnt := true }, { idleIn with ldGnt := true }]

theorem pops_once_iff_three :
    (queued 3).Always Counted queuedReset threeReqs ∧ (queued 3).Steps Presents queuedReset threeReqs := by
  refine (pops_once_iff threeReqs (by decide +kernel)).2 ?_
  refine ⟨?_, ?_, ?_, ?_, ?_, ?_, trivial⟩ <;> exact fun _ _ hx => absurd hx (by decide)

/-- A store goes to the store unit, and a fault of its translation follows. The store is popped
again, and the counter of the empty FIFO is 3. -/
theorem popped_twice : let is : List In := [{ idleIn with req := storeReq }, { idleIn with ex := ⟨15, 0x80, true⟩ }]
    (queued 3).Steps Offered queuedReset is ∧ ((queued 3).run queuedReset is).lsu.bypass.statusCnt = 3 ∧
      ¬(queued 3).Always Counted queuedReset is := by
  refine ⟨by decide +kernel, by decide +kernel, fun h => ?_⟩
  have hle := h.last.le
  revert hle
  decide +kernel

end Queue
end Lsu
end Ariane

/-
# The stores in flight

Three places know of a store that memory has accepted and not acknowledged: the counter of the
miss unit, the slot of the write buffer, and the FIFO of the ids that came back. They are
written at different moments and in two modules. `Counted` notes what memory has accepted and
not acknowledged, by id; memory acknowledges what it has accepted, in any order and after any
time (`AcksOwed`).

The counter is the number of those, and of the slots that are in use and whose id has not
come back (`Accounted`). So the guard of the counter never drops an acknowledgement, and none
reaches the buffer without a slot (`Acknowledges`). It rests on what the ports of the miss
unit do: a store that goes to memory is the buffer's, in every state of the unit
(`storeSent_eq`).
-/
import Mathlib.Data.Nat.Log
import Ariane.Dcache.Lines

namespace Ariane
namespace Dcache
namespace Inflight

open Lib (Machine)
open Missunit (fsm served missPortIdx missReqMaskedD storeSent memDataO missAckO missRtrnVldO loadAck storeAck)

variable {g : Geom}

/-! ### The ports of the miss unit -/

section Ports

variable (s : Regs g) (i : In g)

theorem port_we (k : Fin 3) : ((missIn s i).port k).we = decide (k = 2) := by
  rcases Fin.eq_castSucc_or_eq_last k with ⟨j, rfl⟩ | rfl
  · have hj : j.castSucc ≠ 2 := by simpa [Fin.last] using j.castSucc_lt_last.ne
    simp [Ctrl.missPort, hj]
  · rfl

/-- A port that writes is the write buffer's. -/
theorem served_two (h : (served s.miss (missIn s i)).we = true) : missPortIdx s.miss (missIn s i) = 2 := by
  rw [served, port_we] at h
  simpa using h

/-- What the miss unit remembers of its ports. -/
structure Ports : Prop where
  storeWait : s.miss.state = .storeWait → lzc s.miss.missReqMasked = 2 ∧ Wbuffer.missReqO s.wbuf = true
  loadWait : s.miss.state = .loadWait → lzc s.miss.missReqMasked ≠ 2
  mshr : s.miss.mshrVld = true → s.miss.mshr.missPortIdx ≠ 2

end Ports

/-- A request to memory is a store of the write buffer, a read of another port, or an atomic. -/
inductive Asks (s : Regs g) (i : In g) : Prop
  | store (rtype : (fsm s.miss (missIn s i)).rtype = .storeReq) (sel : Missunit.amoSel s.miss = false)
    (idx : missPortIdx s.miss (missIn s i) = 2) (req : Wbuffer.missReqO s.wbuf = true)
  | read (rtype : (fsm s.miss (missIn s i)).rtype = .loadReq) (idx : missPortIdx s.miss (missIn s i) ≠ 2)
  | atomic (rtype : (fsm s.miss (missIn s i)).rtype = .atomicReq) (sel : Missunit.amoSel s.miss = true)

section Fsm

variable {s : Regs g} {i : In g}

theorem missPortIdx_locked (h : Missunit.lockReqs s.miss = true) :
    missPortIdx s.miss (missIn s i) = lzc s.miss.missReqMasked := by
  rw [missPortIdx, missReqMaskedD, if_pos h]

/-- Outside the wait states a request that is not masked is up, and reads are masked or not. -/
theorem masked_spec (hl : Missunit.lockReqs s.miss = false) {k : Fin 3}
    (h : missReqMaskedD s.miss (missIn s i) k = true) : ((missIn s i).port k).req = true ∧
      (Missunit.maskReads s.miss = true → ((missIn s i).port k).we = true) := by
  simp only [missReqMaskedD, hl, Bool.false_eq_true, if_false] at h
  split at h
  · exact ⟨((Bool.and_eq_true _ _).mp h).2, fun _ => ((Bool.and_eq_true _ _).mp h).1⟩
  · rename_i hmask
    exact ⟨h, fun hm => absurd hm hmask⟩

theorem asks_store (hs : (fsm s.miss (missIn s i)).rtype = .storeReq) (hl : Missunit.lockReqs s.miss = false)
    (hsel : Missunit.amoSel s.miss = false) (h : any (missReqMaskedD s.miss (missIn s i)) = true)
    (hidx : missPortIdx s.miss (missIn s i) = 2) : Asks s i := by
  have hreq := (masked_spec hl (lzc_spec (any_eq_true.1 h))).1
  change ((missIn s i).port (missPortIdx s.miss (missIn s i))).req = true at hreq
  rw [hidx] at hreq
  exact .store hs hsel hidx hreq

theorem asks_idle (hst : s.miss.state = .idle) (hr : (fsm s.miss (missIn s i)).dataReq = true) : Asks s i := by
  have hl : Missunit.lockReqs s.miss = false := by simp [Missunit.lockReqs, hst]
  have hsel : Missunit.amoSel s.miss = false := by simp [Missunit.amoSel, hst]
  by_cases hf : ((missIn s i).flush || (missIn s i).enable && !s.miss.enable) = true
  · simp only [fsm, hst, hf, if_true] at hr
    split at hr <;> simp at hr
  by_cases ha : (missIn s i).amo.req = true
  · simp [fsm, hst, hf, ha] at hr
  by_cases hm : any (missReqMaskedD s.miss (missIn s i)) = true
  swap
  · simp [fsm, hst, hf, ha, hm] at hr
  by_cases hw : (served s.miss (missIn s i)).we = true
  · refine asks_store ?_ hl hsel hm (served_two s i hw)
    by_cases hc : Missunit.rdwrCollision s.miss (missIn s i) = true
    · simp [fsm, hst, hf, ha, hm, hw, hc] at hr
    · simp [fsm, hst, hf, ha, hm, hw, hc]
  · refine .read ?_ fun hidx => hw (by rw [served, port_we, hidx]; rfl)
    simp only [fsm, hst, hf, ha, hm, hw, if_true, Bool.false_eq_true, if_false]
    split
    · split
      · rfl
      · split <;> rfl
    · rfl

theorem asks_drain (hst : s.miss.state = .drain) (hr : (fsm s.miss (missIn s i)).dataReq = true) : Asks s i := by
  have hl : Missunit.lockReqs s.miss = false := by simp [Missunit.lockReqs, hst]
  have hsel : Missunit.amoSel s.miss = false := by simp [Missunit.amoSel, hst]
  have hmask : Missunit.maskReads s.miss = true := by simp [Missunit.maskReads, hst]
  by_cases hm : (any (missReqMaskedD s.miss (missIn s i)) && !Missunit.rdwrCollision s.miss (missIn s i)) = true
  · have hany := ((Bool.and_eq_true _ _).mp hm).1
    have hwe := (masked_spec hl (lzc_spec (any_eq_true.1 hany))).2 hmask
    exact asks_store (by simp only [fsm, hst, hm, if_true]) hl hsel hany (served_two s i hwe)
  · simp only [fsm, hst, hm, Bool.false_eq_true, if_false] at hr

/-- What goes to memory, in every state of the miss unit. -/
theorem Ports.asks (h : Ports s) (hr : (fsm s.miss (missIn s i)).dataReq = true) : Asks s i := by
  cases hst : s.miss.state with
  | idle => exact asks_idle hst hr
  | drain => exact asks_drain hst hr
  | storeWait =>
    obtain ⟨hidx, hreq⟩ := h.storeWait hst
    have hl : Missunit.lockReqs s.miss = true := by simp [Missunit.lockReqs, hst]
    exact .store (by simp [fsm, hst]) (by simp [Missunit.amoSel, hst]) ((missPortIdx_locked hl).trans hidx) hreq
  | loadWait =>
    have hl : Missunit.lockReqs s.miss = true := by simp [Missunit.lockReqs, hst]
    refine .read (by simp [fsm, hst]) ?_
    rw [missPortIdx_locked hl]
    exact h.loadWait hst
  | flush =>
    simp only [fsm, hst] at hr
    split at hr <;> simp at hr
  | amo =>
    refine .atomic ?_ (by simp [Missunit.amoSel, hst])
    simp only [fsm, hst]
    split <;> rfl
  | amoWait => simp [fsm, hst] at hr

/-- A store goes to memory exactly when the write buffer sees its request granted. -/
theorem Ports.storeSent_eq (h : Ports s) :
    storeSent s.miss (missIn s i) = Wbuffer.sends s.wbuf (wbufIn s i) := by
  cases hr : (fsm s.miss (missIn s i)).dataReq with
  | false => simp [storeSent, Wbuffer.sends, wbufIn, missAckO, hr]
  | true =>
    rcases h.asks hr with ⟨ht, hsel, hidx, hreq⟩ | ⟨ht, hidx⟩ | ⟨ht, hsel⟩
    · have hstore : (Axi.Rtype.storeReq == .storeReq) = true := rfl
      have hack : (missIn s i).dataAck = i.dataAck := rfl
      simp only [storeSent, Wbuffer.sends, wbufIn, missAckO, hr, ht, hsel, hidx, hreq, hstore, hack, beq_self_eq_true,
        Bool.true_and, Bool.and_true, Bool.not_false]
    · have hstore : (Axi.Rtype.loadReq == .storeReq) = false := rfl
      have h2 : ((2 : Fin 3) == missPortIdx s.miss (missIn s i)) = false := beq_eq_false_iff_ne.2 hidx.symm
      simp only [storeSent, Wbuffer.sends, wbufIn, missAckO, ht, hstore, h2, Bool.and_false]
    · have hstore : (Axi.Rtype.atomicReq == .storeReq) = false := rfl
      simp only [storeSent, Wbuffer.sends, wbufIn, missAckO, ht, hstore, hsel, Bool.and_false, Bool.not_true,
        Bool.false_and]

/-- It goes there with the slot's id. -/
theorem Ports.tid_eq (h : Ports s) (hs : storeSent s.miss (missIn s i) = true) :
    (memDataO s.miss (missIn s i)).tid = Wbuffer.txId s.wbuf i.wbufPref := by
  simp only [storeSent, Bool.and_eq_true, beq_iff_eq] at hs
  rcases h.asks hs.1.1 with ⟨ht, hsel, hidx, -⟩ | ⟨ht, -⟩ | ⟨ht, -⟩
  · simp only [memDataO, hsel, Bool.false_eq_true, if_false, served, hidx, missIn_two]
    rfl
  · simp [ht] at hs
  · simp [ht] at hs

/-- The buffer is told of acknowledged stores only. -/
theorem Ports.rtrn_eq (h : Ports s) : missRtrnVldO s.miss (missIn s i) 2 = storeAck s.miss (missIn s i) := by
  have hl : (loadAck s.miss (missIn s i) && (2 : Fin 3) == s.miss.mshr.missPortIdx) = false := by
    by_contra hc
    rw [Bool.not_eq_false, Bool.and_eq_true, beq_iff_eq] at hc
    simp only [loadAck, Bool.and_eq_true] at hc
    exact h.mshr hc.1.2 hc.2.symm
  simp [missRtrnVldO, hl]

end Fsm

/-! ### The registers of the ports -/

/-- A request that waits is not withdrawn. -/
theorem missReqO_next {b : Wbuffer.Traced g} {j : Wbuffer.In g} (h : Wbuffer.Inv b)
    (hreq : Wbuffer.missReqO b.buf = true) (hs : Wbuffer.sends b.buf j = false) :
    Wbuffer.missReqO (Wbuffer.next b.buf j) = true := by
  obtain ⟨hd, hf⟩ := (Bool.and_eq_true _ _).mp hreq
  have hdirty : (Wbuffer.next b.buf j).dirtyLock = some (Wbuffer.dirtyPtr b.buf j.pref) := by
    simp [Wbuffer.next, hd, hs]
  have htx : (Wbuffer.next b.buf j).txLock = some (Wbuffer.txId b.buf j.pref) := by
    simp [Wbuffer.next, hf, hs]
  simp only [Wbuffer.missReqO, Bool.and_eq_true, any_eq_true]
  exact ⟨⟨_, h.next_dirtyLock _ hdirty⟩, ⟨_, h.next_txLock _ htx⟩⟩

section Next

variable {s : Regs g} {i : In g}

/-- The unit waits for a store only while one is up. -/
theorem storeWait_spec (h : (fsm s.miss (missIn s i)).stateD = .storeWait) :
    (fsm s.miss (missIn s i)).dataReq = true ∧ (fsm s.miss (missIn s i)).rtype = .storeReq ∧ i.dataAck = false := by
  have hack : (missIn s i).dataAck = i.dataAck := rfl
  cases hst : s.miss.state with
  | idle =>
    by_cases hf : ((missIn s i).flush || (missIn s i).enable && !s.miss.enable) = true
    · simp only [fsm, hst, hf, if_true] at h
      split at h <;> simp at h
    by_cases ha : (missIn s i).amo.req = true
    · simp only [fsm, hst, hf, ha, if_true, Bool.false_eq_true, if_false] at h
      split at h <;> simp at h
    by_cases hm : any (missReqMaskedD s.miss (missIn s i)) = true
    swap
    · simp [fsm, hst, hf, ha, hm] at h
    by_cases hw : (served s.miss (missIn s i)).we = true
    · by_cases hc : Missunit.rdwrCollision s.miss (missIn s i) = true
      · simp [fsm, hst, hf, ha, hm, hw, hc] at h
      · simp only [fsm, hst, hf, ha, hm, hw, hc, if_true, Bool.false_eq_true, if_false, hack] at h ⊢
        cases hd : i.dataAck with
        | true => simp [hd] at h
        | false => exact ⟨trivial, trivial, rfl⟩
    · simp only [fsm, hst, hf, ha, hm, hw, if_true, Bool.false_eq_true, if_false] at h
      split at h
      · split at h
        · simp at h
        · split at h
          · simp at h
          · split at h <;> simp at h
      · simp at h
  | storeWait =>
    cases hd : i.dataAck with
    | true => simp [fsm, hst, hack, hd] at h
    | false => exact ⟨by simp [fsm, hst], by simp [fsm, hst], rfl⟩
  | loadWait =>
    simp only [fsm, hst] at h
    split at h <;> simp at h
  | drain =>
    simp only [fsm, hst] at h
    split at h <;> split at h <;> simp at h
  | flush =>
    simp only [fsm, hst] at h
    split at h <;> simp at h
  | amo =>
    simp only [fsm, hst] at h
    split at h
    · split at h <;> simp at h
    · simp at h
  | amoWait =>
    simp only [fsm, hst] at h
    split at h <;> simp at h

/-- A read that goes out or waits is not the buffer's. -/
theorem Ports.read_idx (h : Ports s) (hr : Missunit.ReadMiss s.miss (missIn s i) ∨ s.miss.state = .loadWait) :
    missPortIdx s.miss (missIn s i) ≠ 2 := by
  rcases hr with hr | hst
  · intro hidx
    have hread := hr.read
    rw [served, port_we, hidx] at hread
    exact absurd hread (by decide)
  · rw [missPortIdx_locked (by simp [Missunit.lockReqs, hst])]
    exact h.loadWait hst

theorem Ports.next (h : Ports s) {b : Wbuffer.Traced g} (hb : Wbuffer.Inv b) (hbuf : b.buf = s.wbuf) :
    Ports (Dcache.next s i) where
  storeWait hst := by
    obtain ⟨hr, ht, hd⟩ := storeWait_spec (i := i) hst
    rcases h.asks hr with ⟨-, -, hidx, hreq⟩ | ⟨ht', -⟩ | ⟨ht', -⟩
    · have hs : Wbuffer.sends s.wbuf (wbufIn s i) = false := by
        have hack : (missIn s i).dataAck = i.dataAck := rfl
        rw [← h.storeSent_eq, storeSent, hack, hd, Bool.and_false, Bool.false_and]
      refine ⟨hidx, ?_⟩
      rw [← hbuf] at hreq hs
      have hnext := missReqO_next hb hreq hs
      rw [hbuf] at hnext
      exact hnext
    · simp [ht] at ht'
    · simp [ht] at ht'
  loadWait hst := h.read_idx (Missunit.loadWait_spec hst).2
  mshr hv := by
    change ((fsm s.miss (missIn s i)).mshrAllocate || !loadAck s.miss (missIn s i) && s.miss.mshrVld) = true at hv
    change (if (fsm s.miss (missIn s i)).mshrAllocate then _ else s.miss.mshr : Missunit.Mshr g).missPortIdx ≠ 2
    cases ha : (fsm s.miss (missIn s i)).mshrAllocate with
    | true => exact h.read_idx (Missunit.allocate_spec ha).2.2
    | false =>
      rw [ha, Bool.false_or, Bool.and_eq_true] at hv
      exact h.mshr hv.2

end Next

/-! ### What memory has accepted -/

structure Counted (g : Geom) where
  cache : Regs g
  book : Wbuffer.Traced g
  /-- The ids of the stores that memory has accepted and not acknowledged. -/
  owed : List (Fin g.maxTx)

namespace Counted

variable (t : Counted g) (i : In g)

/-- A store is accepted, with the id it carries. -/
def accepted : List (Fin g.maxTx) :=
  if storeSent t.cache.miss (missIn t.cache i) then [(memDataO t.cache.miss (missIn t.cache i)).tid] else []

/-- A store is acknowledged. -/
def acks : Bool := i.rtrnVld && i.rtrn.rtype == .storeAck

def next : Counted g where
  cache := Dcache.next t.cache i
  book := t.book.next (wbufIn t.cache i)
  owed := (if acks i then t.owed.erase i.rtrn.tid else t.owed) ++ t.accepted i

end Counted

def counted (g : Geom) : Machine (Counted g) (In g) :=
  ⟨fun t => IsReset t.cache ∧ t.book = Wbuffer.tracedReset ∧ t.owed = [], Counted.next⟩

/-- Memory acknowledges a store that it accepted in an earlier cycle and has not acknowledged. -/
def AcksOwed (t : Counted g) (i : In g) : Prop := Counted.acks i = true → i.rtrn.tid ∈ t.owed

instance (t : Counted g) (i : In g) : Decidable (AcksOwed t i) :=
  inferInstanceAs (Decidable (Counted.acks i = true → i.rtrn.tid ∈ t.owed))

/-- The slots that are in use and whose id has not come back. -/
def waiting (s : Wbuffer.Regs g) : Finset (Fin g.maxTx) :=
  Finset.univ.filter fun x => (s.txStat x).vld = true ∧ x ∉ s.rtrnIds

/-- The counter is the number of stores that memory owes an acknowledgement, and of the slots
that wait for one; it stays within the slots, and so within its register. -/
structure Accounted (t : Counted g) : Prop where
  owed : t.cache.miss.storesInflight = t.owed.length
  slots : t.cache.miss.storesInflight = (waiting t.cache.wbuf).card
  ids : ∀ x, x ∈ t.owed ↔ x ∈ waiting t.cache.wbuf
  le : t.cache.miss.storesInflight ≤ g.maxTx
  width : t.cache.miss.storesInflight < 2 ^ Nat.clog 2 (g.maxTx + 1)

/-- An acknowledgement of memory passes the guard of the counter and finds its slot waiting, and
the buffer is told of nothing else. -/
structure Acknowledges (t : Counted g) (i : In g) : Prop where
  taken : Counted.acks i = true → missRtrnVldO t.cache.miss (missIn t.cache i) 2 = true ∧
    i.rtrn.tid ∈ waiting t.cache.wbuf ∧ i.rtrn.tid ∈ (t.next i).cache.wbuf.rtrnIds
  genuine : missRtrnVldO t.cache.miss (missIn t.cache i) 2 = true → Counted.acks i = true

structure Inv (t : Counted g) : Prop where
  ports : Ports t.cache
  book : Wbuffer.Inv t.book
  buf : t.book.buf = t.cache.wbuf
  nodup : t.owed.Nodup
  flight : ∀ x, x ∈ t.owed ↔ (t.book.flight x).isSome = true
  count : t.cache.miss.storesInflight = t.owed.length

theorem inv_reset {t : Counted g} (h : (counted g).init t) : Inv t := by
  obtain ⟨⟨-, hm, hw, -⟩, hb, ho⟩ := h
  refine ⟨⟨?_, ?_, ?_⟩, ?_, ?_, ?_, ?_, ?_⟩
  · intro hst
    simp [hm, Missunit.reset] at hst
  · intro hst
    simp [hm, Missunit.reset] at hst
  · intro hv
    simp [hm, Missunit.reset] at hv
  · rw [hb]
    exact Wbuffer.inv_reset
  · rw [hb, hw]
    rfl
  · rw [ho]
    exact List.nodup_nil
  · intro x
    simp [ho, hb, Wbuffer.tracedReset]
  · rw [ho, hm]
    rfl

namespace Inv

variable {t : Counted g} {i : In g}

/-- The guard lets every acknowledgement of memory through. -/
theorem storeAck_eq (h : Inv t) (hok : AcksOwed t i) :
    storeAck t.cache.miss (missIn t.cache i) = Counted.acks i := by
  change (Counted.acks i && decide (t.cache.miss.storesInflight ≠ 0)) = Counted.acks i
  cases ha : Counted.acks i with
  | false => rfl
  | true =>
    have hpos := List.length_pos_of_mem (hok ha)
    rw [Bool.true_and, h.count]
    exact decide_eq_true (by omega)

theorem rtrn_eq (h : Inv t) (hok : AcksOwed t i) : (wbufIn t.cache i).rtrnVld = Counted.acks i :=
  h.ports.rtrn_eq.trans (h.storeAck_eq hok)

theorem acksOutstanding (h : Inv t) (hok : AcksOwed t i) :
    Wbuffer.AcksOutstanding t.book (wbufIn t.cache i) := by
  intro hr
  rw [h.rtrn_eq hok] at hr
  exact (h.flight _).1 (hok hr)

/-- The slots that wait are those that memory owes. -/
theorem mem_owed (h : Inv t) (x : Fin g.maxTx) : x ∈ t.owed ↔ x ∈ waiting t.cache.wbuf := by
  rw [h.flight, waiting, Finset.mem_filter, ← h.buf, h.book.ids]
  constructor
  · intro hf
    refine ⟨Finset.mem_univ x, .inl hf, fun hm => ?_⟩
    simp [h.book.back_none x hm] at hf
  · rintro ⟨-, hf | hm, hn⟩
    · exact hf
    · exact absurd hm hn

theorem count_eq (h : Inv t) : t.cache.miss.storesInflight = (waiting t.cache.wbuf).card := by
  have hset : t.owed.toFinset = waiting t.cache.wbuf := by
    ext x
    rw [List.mem_toFinset, h.mem_owed]
  rw [h.count, ← hset, List.toFinset_card_of_nodup h.nodup]

theorem count_le (h : Inv t) : t.cache.miss.storesInflight ≤ g.maxTx := by
  rw [h.count_eq]
  exact (Finset.card_le_univ _).trans_eq (Fintype.card_fin _)

theorem accounted (h : Inv t) : Accounted t where
  owed := h.count
  slots := h.count_eq
  ids := h.mem_owed
  le := h.count_le
  width := lt_of_lt_of_le (Nat.lt_succ_of_le h.count_le) (Nat.le_pow_clog (by decide) _)

theorem acknowledges (h : Inv t) (hok : AcksOwed t i) : Acknowledges t i where
  taken ha := by
    refine ⟨h.ports.rtrn_eq.trans ((h.storeAck_eq hok).trans ha), (h.mem_owed _).1 (hok ha), ?_⟩
    have hids := h.book.rtrnIds_next (h.acksOutstanding hok)
    rw [h.buf, h.rtrn_eq hok, ha, if_pos rfl] at hids
    change i.rtrn.tid ∈ (Wbuffer.next t.cache.wbuf (wbufIn t.cache i)).rtrnIds
    rw [hids]
    exact List.mem_append_right _ (List.mem_singleton_self _)
  genuine hr := ((h.storeAck_eq hok).symm.trans (h.ports.rtrn_eq.symm.trans hr))

/-- The store that is accepted has a slot that was free. -/
theorem accepted_eq (h : Inv t) : t.accepted i =
    if Wbuffer.sends t.book.buf (wbufIn t.cache i) then [Wbuffer.txId t.book.buf i.wbufPref] else [] := by
  rw [h.buf, ← h.ports.storeSent_eq, Counted.accepted]
  split
  · rename_i hs
    rw [h.ports.tid_eq hs]
  · rfl

theorem txId_not_owed (h : Inv t) (hs : Wbuffer.sends t.book.buf (wbufIn t.cache i) = true) :
    Wbuffer.txId t.book.buf i.wbufPref ∉ t.owed := by
  intro hm
  have hfree := (h.book.send_spec hs).2
  have hv := (h.book.ids _).2 (.inl ((h.flight _).1 hm))
  change Wbuffer.txFree t.book.buf (Wbuffer.txId t.book.buf i.wbufPref) = true at hfree
  simp [Wbuffer.txFree, hv] at hfree

theorem next_nodup (h : Inv t) : (t.next i).owed.Nodup := by
  change ((if Counted.acks i then t.owed.erase i.rtrn.tid else t.owed) ++ t.accepted i).Nodup
  have hleft : (if Counted.acks i then t.owed.erase i.rtrn.tid else t.owed).Nodup := by
    split
    · exact h.nodup.erase _
    · exact h.nodup
  rw [h.accepted_eq]
  cases hs : Wbuffer.sends t.book.buf (wbufIn t.cache i) with
  | false => rwa [if_neg Bool.false_ne_true, List.append_nil]
  | true =>
    rw [if_pos rfl]
    refine hleft.append (List.nodup_singleton _) fun x hx hx' => ?_
    rw [List.mem_singleton] at hx'
    subst hx'
    refine h.txId_not_owed hs ?_
    split at hx
    · exact List.mem_of_mem_erase hx
    · exact hx

theorem next_flight (h : Inv t) (hok : AcksOwed t i) (x : Fin g.maxTx) :
    x ∈ (t.next i).owed ↔ ((t.next i).book.flight x).isSome = true := by
  change x ∈ (if Counted.acks i then t.owed.erase i.rtrn.tid else t.owed) ++ t.accepted i ↔
    (t.book.flightD (wbufIn t.cache i) x).isSome = true
  have hrest : x ∈ (if Counted.acks i then t.owed.erase i.rtrn.tid else t.owed) ↔
      (if Counted.acks i && x == i.rtrn.tid then none else t.book.flight x).isSome = true := by
    cases ha : Counted.acks i with
    | false => simpa using h.flight x
    | true =>
      rw [if_pos rfl, h.nodup.mem_erase_iff, h.flight]
      by_cases hx : x = i.rtrn.tid
      · simp [hx]
      · simp [hx]
  rw [List.mem_append, hrest, h.accepted_eq, Wbuffer.Traced.flightD, h.rtrn_eq hok]
  change _ ↔ (if Wbuffer.sends t.book.buf (wbufIn t.cache i) && x == Wbuffer.txId t.book.buf i.wbufPref
    then _ else if Counted.acks i && x == i.rtrn.tid then none else t.book.flight x).isSome = true
  cases hs : Wbuffer.sends t.book.buf (wbufIn t.cache i) with
  | false =>
    simp only [Bool.false_eq_true, if_false, List.not_mem_nil, or_false, Bool.false_and]
  | true =>
    rw [if_pos rfl, List.mem_singleton, Bool.true_and]
    by_cases hx : x = Wbuffer.txId t.book.buf i.wbufPref
    · rw [if_pos (beq_iff_eq.2 hx)]
      exact iff_of_true (.inr hx) rfl
    · rw [if_neg fun hc => hx (beq_iff_eq.1 hc), or_iff_left hx]

theorem next_count (h : Inv t) (hok : AcksOwed t i) :
    (t.next i).cache.miss.storesInflight = (t.next i).owed.length := by
  change t.cache.miss.storesInflight + (storeSent t.cache.miss (missIn t.cache i)).toNat -
      (storeAck t.cache.miss (missIn t.cache i)).toNat =
    ((if Counted.acks i then t.owed.erase i.rtrn.tid else t.owed) ++ t.accepted i).length
  have hacc : (t.accepted i).length = (storeSent t.cache.miss (missIn t.cache i)).toNat := by
    unfold Counted.accepted
    split
    · rename_i hs
      rw [hs]
      rfl
    · rename_i hs
      rw [Bool.eq_false_of_not_eq_true hs]
      rfl
  rw [h.storeAck_eq hok, List.length_append, hacc, h.count]
  cases ha : Counted.acks i with
  | false => simp
  | true =>
    have hpos := List.length_pos_of_mem (hok ha)
    rw [if_pos rfl, List.length_erase_of_mem (hok ha), Bool.toNat_true]
    omega

theorem next (h : Inv t) (hok : AcksOwed t i) : Inv (t.next i) where
  ports := h.ports.next h.book h.buf
  book := h.book.next_inv (h.acksOutstanding hok)
  buf := by
    change Wbuffer.next t.book.buf (wbufIn t.cache i) = Wbuffer.next t.cache.wbuf (wbufIn t.cache i)
    rw [h.buf]
  nodup := h.next_nodup
  flight := h.next_flight hok
  count := h.next_count hok

end Inv

/-! ### The result -/

/-- **Outstanding stores.** In every run in which memory acknowledges each store it accepted
once, after any time and in any order, the counter, the slots and what memory owes agree in
every state, and every acknowledgement gets through. -/
theorem stores_accounted (t₀ : Counted g) (h0 : (counted g).init t₀) (is : List (In g))
    (h : (counted g).Steps AcksOwed t₀ is) :
    (counted g).Always Accounted t₀ is ∧ (counted g).Steps Acknowledges t₀ is := by
  have step : ∀ t i, Inv t → AcksOwed t i → Inv ((counted g).next t i) := fun _ _ ht hok => ht.next hok
  exact ⟨(Machine.always_of_steps step is t₀ (inv_reset h0) h).mono fun _ ht => ht.accounted,
    Machine.steps_of_inv step (fun _ _ ht hok => ht.acknowledges hok) is t₀ (inv_reset h0) h⟩

/-- A cache of two lines, whose write buffer has two entries and two transactions. -/
def pairGeom : Geom where
  tagWidth := 44
  clIdxWidth := 1
  wordWidth := 1
  setAssoc := 1
  wbufDepth := 2
  maxTx := 2
  axi64BitCompliant := true
  cacheable _ := true

/-- A cycle in which nothing is asked for, and memory takes what comes. -/
def quietIn : In pairGeom where
  enable := true
  flush := false
  amo := ⟨false, .none, 3, ⟨⟨⟨0, 0⟩, 0⟩, 0⟩, fun _ => 0⟩
  port _ := ⟨false, 0, 0, 0, 3, 0, true, false⟩
  store := ⟨false, ⟨⟨0, 0⟩, 0⟩, fun _ => true, fun _ => 7⟩
  rtrnVld := false
  rtrn := ⟨.storeAck, fun _ _ => 0, ⟨false, false, 0, 0⟩, 0⟩
  dataAck := true
  rndWay := 0
  scBackoffOver := true
  wbufPref := ⟨1, 0, 0⟩
  rdPref := 0

/-- A store to a word of the line at 0. -/
def storeIn (w : BitVec 1) : In pairGeom :=
  { quietIn with store := ⟨true, ⟨⟨0, 0⟩, w⟩, fun _ => true, fun _ => 7⟩ }

/-- The acknowledgement of the store with the id `x`. -/
def ackIn (x : Fin 2) : In pairGeom :=
  { quietIn with rtrnVld := true, rtrn := ⟨.storeAck, fun _ _ => 0, ⟨false, false, 0, 0⟩, x⟩ }

def countedReset : Counted pairGeom where
  cache := ⟨fun _ => Ctrl.reset, Missunit.reset, Wbuffer.reset,
    fun _ _ => ⟨false, 0⟩, fun _ _ _ _ => 0, fun _ => ⟨false, 0⟩, fun _ _ _ => 0, 0, 0, 0, false⟩
  book := Wbuffer.tracedReset
  owed := []

/-- Two stores go out, and the second one is acknowledged first. -/
def crossedAcks : List (In pairGeom) :=
  [quietIn, quietIn, storeIn 0, storeIn 1, quietIn, ackIn 0, ackIn 1]

theorem stores_accounted_crossed : (counted pairGeom).Always Accounted countedReset crossedAcks ∧
    (counted pairGeom).Steps Acknowledges countedReset crossedAcks :=
  stores_accounted countedReset ⟨⟨rfl, rfl, rfl, rfl, rfl, rfl, rfl⟩, rfl, rfl⟩ crossedAcks (by decide +kernel)

end Inflight
end Dcache
end Ariane

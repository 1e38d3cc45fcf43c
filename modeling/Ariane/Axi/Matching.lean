/-
# Requests and responses of the AXI adapter

`Traced` is the adapter on its bus with the requests it has accepted, the bursts the slave has
finished, the write responses that were taken, and the messages to the caches so far. Without
atomics every message answers one request: it has the tid of the request and the words of its
burst, and a request that was not answered yet waits in a FIFO or with the slave
(`Matched`).

The reads of a cache form a `Channel`: the tids that wait are those of the reads the slave owes
and the top of the shift register has the words of the oldest one.
-/
import Mathlib.Data.List.Forall2
import Ariane.Axi.Slave

namespace Ariane
namespace Axi

open Lib (Machine)

variable {c : Cfg}

/-! ### A channel of reads -/

/-- The first words of the data are those of the burst. -/
def Carries {n : ℕ} (data : Fin n → Word) (words : List Word) : Prop :=
  words.length ≤ n ∧ ∀ (k : ℕ) (hk : k < words.length) (hn : k < n), data ⟨k, hn⟩ = words[k]

/-- The words so far are at the top of the shift register. -/
def Shifted {n : ℕ} (shift : Fin n → Word) (words : List Word) : Prop :=
  ∀ (j : ℕ) (hj : j < words.length) (k : Fin n), k.val + words.length = n + j → shift k = words[j]

structure Channel {n : ℕ} [NeZero n] (shift : Fin n → Word) (first : Bool)
    (tids : List (BitVec c.tidWidth)) (reads : List (Req c × ℕ)) (beats : List Word) : Prop where
  tids : tids = reads.map (·.1.tid)
  len : ∀ x ∈ reads, x.2 = 0 ∨ x.2 = n - 1
  idle : reads = [] → beats = []
  room : ∀ x, reads.head? = some x → beats.length ≤ x.2
  first : first = beats.isEmpty
  shift : Shifted shift beats

section Channel

variable {n : ℕ} [NeZero n] {shift : Fin n → Word} {first : Bool}

theorem shiftIn_shifted {words : List Word} (h : Shifted shift words) (hf : first = words.isEmpty) (d : Word) :
    Shifted (shiftIn shift first d) (words ++ [d]) := by
  intro j hj k hk
  simp only [List.length_append, List.length_singleton] at hj hk
  unfold shiftIn
  by_cases hlt : j < words.length
  · -- an earlier word moves down
    have hne : words.isEmpty = false := by
      rw [List.isEmpty_eq_false_iff]
      rintro rfl
      simp at hlt
    have hk1 : k.val + 1 < n := by omega
    rw [hf, hne, Bool.false_and, if_neg Bool.false_ne_true, dif_pos hk1, List.getElem_append_left hlt]
    exact h j hlt ⟨k.val + 1, hk1⟩ (by simp only; omega)
  · have hje : j = words.length := by omega
    have hk1 : ¬k.val + 1 < n := by omega
    subst hje
    rw [dif_neg hk1, ite_self]
    simp

/-- A burst of one word or of a whole line is in place with its last word. -/
theorem shiftIn_carries {words : List Word} (h : Shifted shift words) (hf : first = words.isEmpty) (d : Word)
    (hl : words.length = 0 ∨ words.length = n - 1) : Carries (shiftIn shift first d) (words ++ [d]) := by
  have hn : 0 < n := Nat.pos_of_neZero n
  have hlen : (words ++ [d]).length = words.length + 1 := by simp
  refine ⟨by omega, fun k hk hkn => ?_⟩
  rcases hl with h0 | hl
  · have hw : words = [] := List.length_eq_zero_iff.1 h0
    subst hw
    have hk0 : k = 0 := by simpa using hk
    subst hk0
    simp [shiftIn, hf]
  · exact shiftIn_shifted h hf d k hk ⟨k, hkn⟩ (by simp only; omega)

variable {tids : List (BitVec c.tidWidth)} {reads : List (Req c × ℕ)} {beats : List Word}

/-- A word comes in, a burst ends, a read is added. -/
theorem Channel.step (h : Channel shift first tids reads beats) (beat last : Bool) (d : Word)
    (new : List (Req c × ℕ))
    (hb : beat = true → ∃ x xs, reads = x :: xs ∧ last = decide (beats.length = x.2))
    (hn : ∀ x ∈ new, x.2 = 0 ∨ x.2 = n - 1) :
    Channel (if beat then shiftIn shift first d else shift) (if beat then last else first)
      ((if beat && last then tids.tail else tids) ++ new.map (·.1.tid))
      ((if beat && last then reads.tail else reads) ++ new)
      (if beat then (if last then [] else beats ++ [d]) else beats) := by
  cases beat with
  | false =>
    simp only [Bool.false_and, Bool.false_eq_true, if_false]
    refine ⟨by rw [h.tids, List.map_append], ?_, fun he => h.idle (List.append_eq_nil_iff.1 he).1, ?_,
      h.first, h.shift⟩
    · intro x hx
      exact (List.mem_append.1 hx).elim (h.len x) (hn x)
    · intro x hx
      cases hr : reads with
      | nil => simp [h.idle hr]
      | cons y ys => exact h.room x (by simpa [hr] using hx)
  | true =>
    obtain ⟨x, xs, rfl, hlast⟩ := hb rfl
    have htids := h.tids
    cases last with
    | true =>
      simp only [Bool.and_self, if_true, List.tail_cons]
      refine ⟨by simp [htids], ?_, fun _ => rfl, fun _ _ => Nat.zero_le _, rfl, fun j hj => by simp at hj⟩
      intro y hy
      exact (List.mem_append.1 hy).elim (fun hm => h.len y (List.mem_cons_of_mem x hm)) (hn y)
    | false =>
      simp only [Bool.and_false, Bool.false_eq_true, if_false, if_true]
      refine ⟨by rw [htids, List.map_append], ?_, fun he => by simp at he, ?_, by simp,
        shiftIn_shifted h.shift h.first d⟩
      · intro y hy
        exact (List.mem_append.1 hy).elim (h.len y) (hn y)
      · intro y hy
        have hyx : x = y := by simpa using hy
        subst hyx
        have hle := h.room x rfl
        have hne : beats.length ≠ x.2 := by simpa using hlast.symm
        simp only [List.length_append, List.length_singleton]
        omega

/-- The burst that ends is the oldest one, with all of its words. -/
theorem Channel.last (h : Channel shift first tids reads beats) {x : Req c × ℕ} {xs : List (Req c × ℕ)}
    (hr : reads = x :: xs) (hl : beats.length = x.2) (d : Word) :
    tids.headD 0 = x.1.tid ∧ Carries (shiftIn shift first d) (beats ++ [d]) := by
  refine ⟨by simp [h.tids, hr], shiftIn_carries h.shift h.first d ?_⟩
  rw [hl]
  exact h.len x (by simp [hr])

end Channel

/-! ### What the caches see -/

structure Traced (c : Cfg) where
  adapter : Regs c
  slave : Slave c
  acceptedI : List (IcacheReq c)
  acceptedD : List (DcacheReq c)
  /-- The bursts that are finished, with their words. -/
  fills : List (Req c × List Word)
  loads : List (Req c × List Word)
  /-- The stores whose responses wait in the FIFO, and those whose responses were taken. -/
  bOwners : List (DcacheReq c)
  stores : List (DcacheReq c)
  outI : List (IcacheRtrn c)
  outD : List (DcacheRtrn c)

namespace Traced

variable (t : Traced c) (i : In c)

/-- The burst of the id that ends in this cycle. -/
def ended (id : BitVec 4) : List (Req c × List Word) :=
  if Slave.rBeat t.adapter i && i.rId == id && i.rLast then
    ((t.slave.reads id).take 1).map fun x => (x.1, t.slave.beats id ++ [i.rData])
  else []

def bOwnersD : List (DcacheReq c) :=
  t.bOwners ++ if Slave.bBeat t.adapter i then (t.slave.writes i.bId).take 1 else []

def next : Traced c where
  adapter := Axi.next t.adapter i
  slave := t.slave.next t.adapter i
  acceptedI := t.acceptedI ++ if icacheAck t.adapter i then [i.icacheData] else []
  acceptedD := t.acceptedD ++ if dcacheAck t.adapter i then [i.dcacheData] else []
  fills := t.fills ++ t.ended i 0#4
  loads := t.loads ++ t.ended i 1#4
  bOwners := if (rtrn t.adapter i).bPop then (t.bOwnersD i).tail else t.bOwnersD i
  stores := t.stores ++ if (rtrn t.adapter i).bPop then (t.bOwnersD i).take 1 else []
  outI := t.outI ++ (icacheRtrnO (Axi.next t.adapter i)).toList
  outD := t.outD ++ (dcacheRtrnO (Axi.next t.adapter i)).toList

end Traced

def tracedReset : Traced c := ⟨reset, Slave.reset, [], [], [], [], [], [], [], []⟩

def traced (c : Cfg) : Machine (Traced c) (In c) := ⟨(· = tracedReset), Traced.next⟩

/-- The slave is an AXI slave and the data cache sends no atomics. -/
structure Plain (t : Traced c) (i : In c) : Prop where
  legal : Legal t.slave i
  rtype : i.dcacheReq = true → i.dcacheData.rtype = .loadReq ∨ i.dcacheData.rtype = .storeReq

instance (t : Traced c) (i : In c) : Decidable (Plain t i) :=
  decidable_of_iff (Legal t.slave i ∧
    (i.dcacheReq = true → i.dcacheData.rtype = .loadReq ∨ i.dcacheData.rtype = .storeReq))
    ⟨fun h => ⟨h.1, h.2⟩, fun h => ⟨h.legal, h.rtype⟩⟩

def DcacheReq.isLoad (r : DcacheReq c) : Bool := r.rtype == .loadReq
def DcacheReq.isStore (r : DcacheReq c) : Bool := r.rtype == .storeReq

/-- The words of the burst of a request. -/
def words : Req c → ℕ
  | .ifill r => if r.nc then 1 else c.icacheWords
  | .data r => if r.size.getLsbD 2 then c.dcacheWords else 1

/-- Every message answers one request, in the order of the requests of its kind, and every
request has been answered or waits: with the slave, in the FIFO of the write responses or in
the FIFO of its cache. -/
structure Matched (t : Traced c) : Prop where
  outI : List.Forall₂ (fun m f => m.tid = f.1.tid ∧ Carries m.data f.2) t.outI t.fills
  outD : ∀ m ∈ t.outD, m.rtype = .loadAck ∨ m.rtype = .storeAck
  loadAcks : List.Forall₂ (fun m f => m.tid = f.1.tid ∧ Carries m.data f.2)
    (t.outD.filter (·.rtype == .loadAck)) t.loads
  storeAcks : List.Forall₂ (fun m r => m.tid = r.tid) (t.outD.filter (·.rtype == .storeAck)) t.stores
  bursts : ∀ f ∈ t.fills ++ t.loads, f.2.length = words f.1
  icache : t.acceptedI.map Req.ifill =
    t.fills.map Prod.fst ++ (t.slave.reads 0#4).map Prod.fst ++ t.adapter.icacheFifo.map Req.ifill
  dcacheLoads : (t.acceptedD.filter (·.isLoad)).map Req.data =
    t.loads.map Prod.fst ++ (t.slave.reads 1#4).map Prod.fst ++ (t.adapter.dcacheFifo.filter (·.isLoad)).map Req.data
  dcacheStores : t.acceptedD.filter (·.isStore) =
    t.stores ++ t.bOwners ++ t.slave.writes 1#4 ++ t.adapter.dcacheFifo.filter (·.isStore)
  dcacheReqs : ∀ r ∈ t.acceptedD, r.isLoad = true ∨ r.isStore = true

/-! ### The invariant -/

structure Inv (t : Traced c) : Prop extends Matched t where
  bus : Bus t.adapter t.slave
  chanI : Channel t.adapter.icacheShift t.adapter.icacheFirst t.adapter.rdIcacheId (t.slave.reads 0#4) (t.slave.beats 0#4)
  chanD : Channel t.adapter.dcacheShift t.adapter.dcacheFirst t.adapter.rdDcacheId (t.slave.reads 1#4) (t.slave.beats 1#4)
  fifo : ∀ r ∈ t.adapter.dcacheFifo, r.isLoad = true ∨ r.isStore = true
  reads : ∀ id, id ≠ 0#4 → id ≠ 1#4 → t.slave.reads id = []
  writes : ∀ id, id ≠ 1#4 → t.slave.writes id = []
  lens : ∀ x ∈ t.slave.reads 0#4 ++ t.slave.reads 1#4, x.2 + 1 = words x.1
  bIds : ∀ x ∈ t.adapter.bFifo, x.2 = 1#4
  bLen : t.adapter.bFifo.length = t.bOwners.length
  wrTids : t.adapter.wrDcacheId = (t.bOwners ++ t.slave.writes 1#4).map (·.tid)

theorem inv_reset : Inv (c := c) tracedReset := by
  have hch : ∀ {n : ℕ} [NeZero n] (q : Fin n → Word), Channel (c := c) q true [] [] [] := fun q =>
    ⟨rfl, by simp, fun _ => rfl, by simp, rfl, fun j hj => by simp at hj⟩
  refine ⟨⟨.nil, by simp [tracedReset], .nil, .nil, by simp [tracedReset], ?_, ?_, ?_, by simp [tracedReset]⟩,
    bus_reset, hch _, hch _, ?_, ?_, ?_, ?_, ?_, ?_, ?_⟩ <;> simp [tracedReset, reset, Slave.reset]

/-- A word of the id comes in. -/
def In.beat (i : In c) (id : BitVec 4) : Bool := i.rValid && i.rId == id

theorem In.beat_eq_true {i : In c} {id : BitVec 4} : i.beat id = true ↔ i.rValid = true ∧ i.rId = id := by
  simp [In.beat]

namespace Inv

variable {t : Traced c} {i : In c}

theorem not_atomic (h : Inv t) : serves t.adapter i .atomicReq = false := by
  by_contra hs
  simp only [serves, Bool.not_eq_false, Bool.and_eq_true, beq_iff_eq] at hs
  obtain ⟨⟨ha, hi⟩, hr⟩ := hs
  have hd := (h.bus.arb_spec ha).1 hi
  simp only [arbReqD, Bool.and_eq_true, Bool.not_eq_true', List.isEmpty_eq_false_iff] at hd
  obtain ⟨r, q, hq⟩ := List.exists_cons_of_ne_nil hd.1.1
  have hm := h.fifo r (by simp [hq])
  simp only [dcacheData, hq, List.headD_cons] at hr
  simp [DcacheReq.isLoad, DcacheReq.isStore, hr] at hm

theorem rReady_eq (h : Inv t) : rReady t.adapter i = true := by
  simp [rReady, invalidate, h.not_atomic]

theorem rBeat_eq (h : Inv t) (id : BitVec 4) : (Slave.rBeat t.adapter i && i.rId == id) = i.beat id := by
  simp [Slave.rBeat, h.rReady_eq, In.beat]

theorem arbReq_of_gnt (h : Inv t) (hg : arbGnt t.adapter i = true) : arbReq t.adapter = true := by
  simp only [arbGnt, Bool.or_eq_true] at hg
  rcases hg with hr | hw
  · by_contra hn
    simp [axiRdGnt, axiRdReq, servesAmo, serves, hn] at hr
  · simp [arbReq, (h.bus.wrGnt_spec hw).1]

theorem icacheRdEn_eq (h : Inv t) : icacheRdEn t.adapter i = i.beat 0#4 := by
  simp [icacheRdEn, h.rReady_eq, In.beat]

/-- What is granted to a cache is the head of its FIFO. -/
theorem head_I (h : Inv t) (hg : arbAckI t.adapter i = true) :
    axiRdGnt t.adapter i = true ∧ arbIdx t.adapter i = false ∧ t.adapter.rdIcacheId.length < c.metaFifoDepth ∧
      ∃ q, t.adapter.icacheFifo = icacheData t.adapter :: q := by
  simp only [arbAckI, Bool.and_eq_true, Bool.not_eq_true'] at hg
  have hI := (h.bus.arb_spec (h.arbReq_of_gnt hg.1)).2 hg.2
  simp only [arbGnt, Bool.or_eq_true] at hg
  have hr : axiRdGnt t.adapter i = true := hg.1.resolve_right fun hw => by
    simp [(h.bus.wrGnt_spec hw).2.1] at hg
  simp only [arbReqI, Bool.and_eq_true, Bool.not_eq_true', List.isEmpty_eq_false_iff, decide_eq_true_eq] at hI
  obtain ⟨r, q, hq⟩ := List.exists_cons_of_ne_nil hI.1
  exact ⟨hr, hg.2, hI.2, q, by simp [icacheData, hq]⟩

theorem head_D (h : Inv t) (hg : arbAckD t.adapter i = true) :
    arbIdx t.adapter i = true ∧ t.adapter.wrDcacheId.length < c.metaFifoDepth ∧
      t.adapter.rdDcacheId.length < c.metaFifoDepth ∧ (∃ q, t.adapter.dcacheFifo = dcacheData t.adapter :: q) ∧
      (axiRdGnt t.adapter i = true ∧ axiWrGnt t.adapter i = false ∧ (dcacheData t.adapter).isLoad = true ∧
          (dcacheData t.adapter).isStore = false ∨
        axiRdGnt t.adapter i = false ∧ axiWrGnt t.adapter i = true ∧ (dcacheData t.adapter).isLoad = false ∧
          (dcacheData t.adapter).isStore = true) := by
  simp only [arbAckD, Bool.and_eq_true] at hg
  have hD := (h.bus.arb_spec (h.arbReq_of_gnt hg.1)).1 hg.2
  simp only [arbReqD, Bool.and_eq_true, Bool.not_eq_true', List.isEmpty_eq_false_iff, decide_eq_true_eq] at hD
  obtain ⟨r, q, hq⟩ := List.exists_cons_of_ne_nil hD.1.1
  have hd : dcacheData t.adapter = r := by simp [dcacheData, hq]
  refine ⟨hg.2, hD.1.2, hD.2, ⟨q, by rw [hd, hq]⟩, ?_⟩
  have hw : axiWrGnt t.adapter i = true → (dcacheData t.adapter).isStore = true := fun hw => by
    have hwr := (h.bus.wrGnt_spec hw).2.2
    rcases h.fifo r (by simp [hq]) with hl | hs
    · rw [hd] at hwr
      simp only [DcacheReq.isLoad, beq_iff_eq] at hl
      simp [DcacheReq.isWrite, hl] at hwr
    · rwa [hd]
  have hr : axiRdGnt t.adapter i = true → (dcacheData t.adapter).isLoad = true := fun hr => by
    have hl : serves t.adapter i .loadReq = true := by
      simp only [axiRdGnt, axiRdReq, servesAmo, h.not_atomic, hg.2, Bool.not_true, Bool.and_false,
        Bool.false_and, Bool.false_or, Bool.or_false, Bool.and_eq_true] at hr
      exact hr.1
    exact ((Bool.and_eq_true _ _).mp hl).2
  have hne : (dcacheData t.adapter).isLoad = true → (dcacheData t.adapter).isStore = false := by
    simp only [DcacheReq.isLoad, DcacheReq.isStore, beq_iff_eq]
    intro hl
    simp [hl]
  have hg1 := hg.1
  simp only [arbGnt, Bool.or_eq_true] at hg1
  cases hR : axiRdGnt t.adapter i <;> cases hW : axiWrGnt t.adapter i <;> simp_all

theorem ackD_of_wr (h : Inv t) (hw : axiWrGnt t.adapter i = true) : arbAckD t.adapter i = true := by
  simp [arbAckD, arbGnt, hw, (h.bus.wrGnt_spec hw).2.1]

/-! ### The slave after an edge -/

theorem done_eq (h : Inv t) : t.slave.done t.adapter i =
    if axiWrGnt t.adapter i then [(1#4, dcacheData t.adapter)] else [] := by
  rw [h.bus.done_eq]
  split
  · rename_i hw
    obtain ⟨-, -, -, -, ⟨-, hn, -⟩ | ⟨-, -, -, hs⟩⟩ := h.head_D (h.ackD_of_wr hw)
    · simp [hw] at hn
    · simp only [DcacheReq.isStore, beq_iff_eq] at hs
      simp [wrId, hs]
  · rfl

theorem done_hasR (h : Inv t) (id : BitVec 4) :
    (t.slave.done t.adapter i).filter (fun x => x.1 == id && x.2.hasR) = [] := by
  rw [h.bus.done_eq]
  split
  · rename_i hw
    have hna := h.not_atomic (i := i)
    obtain ⟨hD, hi, -⟩ := h.bus.wrGnt_spec hw
    simp only [serves, arbReq, hD, hi, Bool.or_true, Bool.true_and] at hna
    simp [DcacheReq.hasR, hna]
  · rfl

theorem axiRdId_eq (h : Inv t) : axiRdId t.adapter i = if arbIdx t.adapter i then 1#4 else 0#4 := by
  simp [axiRdId, servesAmo, h.not_atomic]

theorem reads_I (h : Inv t) : (t.slave.next t.adapter i).reads 0#4 =
    (if i.beat 0#4 && i.rLast then (t.slave.reads 0#4).tail else t.slave.reads 0#4) ++
      if arbAckI t.adapter i then
        [(.ifill (icacheData t.adapter), if (icacheData t.adapter).nc then 0 else c.icacheWords - 1)]
      else [] := by
  simp only [Slave.next, h.rBeat_eq, h.done_hasR, h.axiRdId_eq, List.map_nil, List.append_nil]
  congr 1
  cases hi : arbIdx t.adapter i with
  | true => simp [arbAckI, hi]
  | false =>
    have hw : axiWrGnt t.adapter i = false := by
      by_contra hw
      have := (h.bus.wrGnt_spec (by simpa using hw)).2.1
      simp [hi] at this
    simp [arbAckI, arbGnt, hi, hw, Slave.reader, axiRdBlen]

theorem reads_D (h : Inv t) : (t.slave.next t.adapter i).reads 1#4 =
    (if i.beat 1#4 && i.rLast then (t.slave.reads 1#4).tail else t.slave.reads 1#4) ++
      if arbAckD t.adapter i && axiRdGnt t.adapter i then
        [(.data (dcacheData t.adapter), if (dcacheData t.adapter).size.getLsbD 2 then c.dcacheWords - 1 else 0)]
      else [] := by
  simp only [Slave.next, h.rBeat_eq, h.done_hasR, h.axiRdId_eq, List.map_nil, List.append_nil]
  congr 1
  cases hi : arbIdx t.adapter i <;> cases hr : axiRdGnt t.adapter i <;>
    simp [arbAckD, arbGnt, hi, hr, Slave.reader, axiRdBlen]

theorem reads_other (h : Inv t) (id : BitVec 4) (h0 : id ≠ 0#4) (h1 : id ≠ 1#4) :
    (t.slave.next t.adapter i).reads id = [] := by
  have hne : (if arbIdx t.adapter i then 1#4 else 0#4) ≠ id := by
    split
    · exact h1.symm
    · exact h0.symm
  simp [Slave.next, h.done_hasR, h.axiRdId_eq, h.reads id h0 h1, hne]

theorem writes_D (h : Inv t) : (t.slave.next t.adapter i).writes 1#4 =
    (if Slave.bBeat t.adapter i && i.bId == 1#4 then (t.slave.writes 1#4).tail else t.slave.writes 1#4) ++
      if axiWrGnt t.adapter i then [dcacheData t.adapter] else [] := by
  simp only [Slave.next, h.done_eq]
  congr 1
  split <;> simp

theorem writes_other (h : Inv t) (id : BitVec 4) (h1 : id ≠ 1#4) : (t.slave.next t.adapter i).writes id = [] := by
  simp only [Slave.next, h.done_eq, h.writes id h1]
  split <;> split <;> simp [show ¬1#4 = id from h1.symm]

/-! ### The responses of a cycle -/

theorem rId_cases (h : Inv t) (hp : Plain t i) (hv : i.rValid = true) : i.rId = 0#4 ∨ i.rId = 1#4 := by
  by_contra hn
  rw [not_or] at hn
  obtain ⟨x, xs, hx, -⟩ := hp.legal.r hv
  rw [h.reads _ hn.1 hn.2] at hx
  exact absurd hx (by simp)

theorem bId_eq (h : Inv t) (hp : Plain t i) (hv : i.bValid = true) : i.bId = 1#4 := by
  by_contra hn
  exact hp.legal.b hv (h.writes _ hn)

theorem bWaiting_id (h : Inv t) (hp : Plain t i) (x : Bool × BitVec 4) (hm : x ∈ bWaiting t.adapter i) :
    x.2 = 1#4 := by
  simp only [bWaiting, List.mem_append] at hm
  rcases hm with hm | hm
  · exact h.bIds x hm
  · split at hm
    · rename_i hc
      simp only [Bool.and_eq_true] at hc
      rw [List.mem_singleton.1 hm]
      exact h.bId_eq hp hc.1
    · simp at hm

/-- The data cache gets a word, a write response, or nothing. -/
theorem rtrn_cases (h : Inv t) (hp : Plain t i) :
    (i.beat 1#4 = true ∧
      rtrn t.adapter i = { vld := i.rLast, rdEn := true, rdPop := i.rLast }) ∨
    (i.beat 1#4 = false ∧ bWaiting t.adapter i = [] ∧ rtrn t.adapter i = {}) ∨
    (i.beat 1#4 = false ∧ bWaiting t.adapter i ≠ [] ∧
      rtrn t.adapter i = { rtype := .storeAck, vld := true, wrPop := true, bPop := true }) := by
  have hinv : invalidate t.adapter i = false := by simp [invalidate, h.not_atomic]
  have hbit : (i.rValid && i.rId.getLsbD 0) = i.beat 1#4 := by
    cases hv : i.rValid
    · simp [In.beat, hv]
    · rcases h.rId_cases hp hv with hr | hr <;> simp [In.beat, hv, hr]
  by_cases hb : i.beat 1#4 = true
  · refine .inl ⟨hb, ?_⟩
    have hr := (In.beat_eq_true.1 hb).2
    simp only [rtrn, hinv, hbit, hb, h.rReady_eq, Bool.false_eq_true, if_false, if_true, Bool.and_self]
    simp [hr]
  · have hb' : i.beat 1#4 = false := by simpa using hb
    simp only [rtrn, hinv, hbit, hb', Bool.false_and, Bool.false_eq_true, if_false, false_and, true_and, false_or]
    cases hw : bWaiting t.adapter i with
    | nil => exact .inl ⟨rfl, rfl⟩
    | cons x xs =>
      refine .inr ⟨by simp, ?_⟩
      have hx := h.bWaiting_id hp x (by simp [hw])
      obtain ⟨e, id⟩ := x
      simp only at hx
      subst hx
      rfl

/-! ### One edge -/

theorem next_chanI (h : Inv t) (hp : Plain t i) : Channel (Axi.next t.adapter i).icacheShift
    (Axi.next t.adapter i).icacheFirst (Axi.next t.adapter i).rdIcacheId
    ((t.slave.next t.adapter i).reads 0#4) ((t.slave.next t.adapter i).beats 0#4) := by
  have hstep := h.chanI.step (i.beat 0#4) i.rLast i.rData
    (if arbAckI t.adapter i then
      [(.ifill (icacheData t.adapter), if (icacheData t.adapter).nc then 0 else c.icacheWords - 1)] else [])
    (fun hb => by
      have hb := In.beat_eq_true.1 hb
      simpa only [hb.2] using hp.legal.r hb.1)
    (fun x hx => by
      split at hx
      · rw [List.mem_singleton.1 hx]
        simp only
        split <;> simp
      · simp at hx)
  have htids : (Axi.next t.adapter i).rdIcacheId =
      (if i.beat 0#4 && i.rLast then t.adapter.rdIcacheId.tail else t.adapter.rdIcacheId) ++
        (if arbAckI t.adapter i then [(icacheData t.adapter).tid] else []) := by
    have hg : (arbAckI t.adapter i && axiRdGnt t.adapter i) = arbAckI t.adapter i := by
      cases ha : arbAckI t.adapter i with
      | false => rfl
      | true => simp [(h.head_I ha).1]
    simp only [Axi.next, icacheVldD, h.icacheRdEn_eq, hg]
    exact fifo_push (fun ha => (h.head_I ha).2.2.1) _ _
  rw [h.reads_I, htids]
  simp only [Axi.next, Slave.next, h.rBeat_eq, h.icacheRdEn_eq]
  convert hstep using 2
  split <;> simp [Req.tid]

theorem next_chanD (h : Inv t) (hp : Plain t i) : Channel (Axi.next t.adapter i).dcacheShift
    (Axi.next t.adapter i).dcacheFirst (Axi.next t.adapter i).rdDcacheId
    ((t.slave.next t.adapter i).reads 1#4) ((t.slave.next t.adapter i).beats 1#4) := by
  have hstep := h.chanD.step (i.beat 1#4) i.rLast i.rData
    (if arbAckD t.adapter i && axiRdGnt t.adapter i then
      [(.data (dcacheData t.adapter), if (dcacheData t.adapter).size.getLsbD 2 then c.dcacheWords - 1 else 0)] else [])
    (fun hb => by
      have hb := In.beat_eq_true.1 hb
      simpa only [hb.2] using hp.legal.r hb.1)
    (fun x hx => by
      split at hx
      · rw [List.mem_singleton.1 hx]
        simp only
        split <;> simp
      · simp at hx)
  have hrt : (rtrn t.adapter i).rdEn = i.beat 1#4 ∧ (rtrn t.adapter i).scRtrn = false ∧
      (rtrn t.adapter i).rdPop = (i.beat 1#4 && i.rLast) := by
    rcases h.rtrn_cases hp with ⟨hb, hr⟩ | ⟨hb, -, hr⟩ | ⟨hb, -, hr⟩ <;> simp [hr, hb]
  have htids : (Axi.next t.adapter i).rdDcacheId =
      (if i.beat 1#4 && i.rLast then t.adapter.rdDcacheId.tail else t.adapter.rdDcacheId) ++
        (if arbAckD t.adapter i && axiRdGnt t.adapter i then [(dcacheData t.adapter).tid] else []) := by
    simp only [Axi.next, hrt.2.2]
    exact fifo_push (fun ha => (h.head_D ((Bool.and_eq_true _ _).mp ha).1).2.2.1) _ _
  rw [h.reads_D, htids]
  simp only [Axi.next, dcacheShiftD, Slave.next, h.rBeat_eq, hrt.1, hrt.2.1, Bool.false_eq_true, if_false]
  convert hstep using 2
  split <;> simp [Req.tid]

theorem next_lens (h : Inv t) (x : Req c × ℕ)
    (hx : x ∈ (t.slave.next t.adapter i).reads 0#4 ++ (t.slave.next t.adapter i).reads 1#4) : x.2 + 1 = words x.1 := by
  have hI : 0 < c.icacheWords := Nat.pos_of_neZero _
  have hD : 0 < c.dcacheWords := Nat.pos_of_neZero _
  have htail : ∀ (b : Bool) (q : List (Req c × ℕ)), x ∈ (if b then q.tail else q) → x ∈ q := by
    intro b q hm
    split at hm
    · exact List.mem_of_mem_tail hm
    · exact hm
  rw [h.reads_I, h.reads_D] at hx
  simp only [List.mem_append] at hx
  rcases hx with (hx | hx) | (hx | hx)
  · exact h.lens x (List.mem_append_left _ (htail _ _ hx))
  · split at hx
    · rw [List.mem_singleton.1 hx]
      simp only [words]
      split <;> omega
    · simp at hx
  · exact h.lens x (List.mem_append_right _ (htail _ _ hx))
  · split at hx
    · rw [List.mem_singleton.1 hx]
      simp only [words]
      split <;> omega
    · simp at hx

theorem next_fifo (h : Inv t) (hp : Plain t i) (r : DcacheReq c) (hr : r ∈ (Axi.next t.adapter i).dcacheFifo) :
    r.isLoad = true ∨ r.isStore = true := by
  rw [dcacheFifo_next, List.mem_append] at hr
  rcases hr with hr | hr
  · refine h.fifo r ?_
    split at hr
    · exact List.mem_of_mem_tail hr
    · exact hr
  · split at hr
    · rename_i ha
      rw [List.mem_singleton.1 hr]
      simpa [DcacheReq.isLoad, DcacheReq.isStore] using hp.rtype ((Bool.and_eq_true _ _).mp ha).1
    · simp at hr

/-! ### Messages -/

/-- A burst that ends is the oldest one of its id. -/
theorem ended_eq (h : Inv t) (hp : Plain t i) {id : BitVec 4} (hb : i.beat id = true)
    (hl : i.rLast = true) : ∃ x xs, t.slave.reads id = x :: xs ∧ (t.slave.beats id).length = x.2 ∧
      t.ended i id = [(x.1, t.slave.beats id ++ [i.rData])] := by
  obtain ⟨hv, rfl⟩ := In.beat_eq_true.1 hb
  obtain ⟨x, xs, hx, hlast⟩ := hp.legal.r hv
  rw [hl, eq_comm, decide_eq_true_eq] at hlast
  exact ⟨x, xs, hx, hlast, by simp only [Traced.ended, h.rBeat_eq, hb, hl, hx]; rfl⟩

theorem ended_nil (h : Inv t) {id : BitVec 4} (hb : (i.beat id && i.rLast) = false) : t.ended i id = [] := by
  simp only [Traced.ended, h.rBeat_eq, hb, Bool.false_eq_true, if_false]

theorem next_outI (h : Inv t) (hp : Plain t i) :
    List.Forall₂ (fun m f => m.tid = f.1.tid ∧ Carries m.data f.2) (t.next i).outI (t.next i).fills := by
  refine List.rel_append h.outI ?_
  have hv : (Axi.next t.adapter i).icacheVld = (i.beat 0#4 && i.rLast) := by
    simp [Axi.next, icacheVldD, h.icacheRdEn_eq]
  cases hb : i.beat 0#4 && i.rLast with
  | false =>
    rw [h.ended_nil hb]
    simp [icacheRtrnO, hv, hb]
  | true =>
    obtain ⟨hb1, hl⟩ := (Bool.and_eq_true _ _).mp hb
    obtain ⟨x, xs, hx, hlen, he⟩ := h.ended_eq hp hb1 hl
    obtain ⟨ht, hc⟩ := h.chanI.last hx hlen i.rData
    rw [he]
    simp only [icacheRtrnO, hv, hb, if_true, Option.toList_some, List.forall₂_cons, List.Forall₂.nil, and_true]
    exact ⟨ht, by simpa [Axi.next, h.icacheRdEn_eq, hb1] using hc⟩

/-! ### Write responses -/

/-- Whose responses wait, and whom the slave owes one, change together. -/
theorem bOwnersD_append (h : Inv t) (hp : Plain t i) :
    t.bOwnersD i ++ (if Slave.bBeat t.adapter i && i.bId == 1#4 then (t.slave.writes 1#4).tail else t.slave.writes 1#4) =
      t.bOwners ++ t.slave.writes 1#4 := by
  unfold Traced.bOwnersD
  cases hb : Slave.bBeat t.adapter i with
  | false => simp
  | true =>
    have hv := ((Bool.and_eq_true _ _).mp hb).1
    have hid := h.bId_eq hp hv
    obtain ⟨r, q, hq⟩ := List.exists_cons_of_ne_nil (hid ▸ hp.legal.b hv)
    simp [hid, hq]

theorem bOwnersD_length (h : Inv t) (hp : Plain t i) : (bWaiting t.adapter i).length = (t.bOwnersD i).length := by
  unfold Traced.bOwnersD bWaiting
  rw [List.length_append, List.length_append, h.bLen]
  congr 1
  change (if Slave.bBeat t.adapter i then _ else _ : List _).length = _
  cases hb : Slave.bBeat t.adapter i with
  | false => simp
  | true =>
    have hv := ((Bool.and_eq_true _ _).mp hb).1
    obtain ⟨r, q, hq⟩ := List.exists_cons_of_ne_nil (hp.legal.b hv)
    simp [hq]

/-- A write response that is taken is for the oldest store that waits for one. -/
theorem bPop_spec (h : Inv t) (hp : Plain t i) (hw : bWaiting t.adapter i ≠ []) :
    ∃ r q, t.bOwnersD i = r :: q ∧ t.adapter.wrDcacheId.headD 0 = r.tid := by
  have hne : t.bOwnersD i ≠ [] := by
    rw [← List.length_pos_iff, ← h.bOwnersD_length hp]
    exact List.length_pos_iff.2 hw
  obtain ⟨r, q, hq⟩ := List.exists_cons_of_ne_nil hne
  refine ⟨r, q, hq, ?_⟩
  rw [h.wrTids, ← h.bOwnersD_append hp, hq]
  rfl

theorem next_bLen (h : Inv t) (hp : Plain t i) : (Axi.next t.adapter i).bFifo.length = (t.next i).bOwners.length := by
  have hl := h.bOwnersD_length hp
  simp only [Axi.next, Traced.next]
  split
  · rw [List.length_tail, List.length_tail, hl]
  · exact hl

theorem next_bIds (h : Inv t) (hp : Plain t i) (x : Bool × BitVec 4) (hx : x ∈ (Axi.next t.adapter i).bFifo) :
    x.2 = 1#4 := by
  have hm : x ∈ bWaiting t.adapter i := by
    simp only [Axi.next] at hx
    split at hx
    · exact List.mem_of_mem_tail hx
    · exact hx
  exact h.bWaiting_id hp x hm

theorem next_wrTids (h : Inv t) (hp : Plain t i) : (Axi.next t.adapter i).wrDcacheId =
    ((t.next i).bOwners ++ (t.next i).slave.writes 1#4).map (·.tid) := by
  have hgnt : (arbAckD t.adapter i && axiWrGnt t.adapter i) = axiWrGnt t.adapter i := by
    cases hw : axiWrGnt t.adapter i with
    | false => simp
    | true => simp [h.ackD_of_wr hw]
  have hids : (Axi.next t.adapter i).wrDcacheId =
      (if (rtrn t.adapter i).wrPop then t.adapter.wrDcacheId.tail else t.adapter.wrDcacheId) ++
        if axiWrGnt t.adapter i then [(dcacheData t.adapter).tid] else [] := by
    simp only [Axi.next, hgnt]
    exact fifo_push (fun hw => (h.head_D (h.ackD_of_wr hw)).2.1) _ _
  have hnew : (if axiWrGnt t.adapter i then [(dcacheData t.adapter).tid] else []) =
      (if axiWrGnt t.adapter i then [dcacheData t.adapter] else []).map (·.tid) := by
    split <;> rfl
  rw [hids, hnew]
  simp only [Traced.next, h.writes_D, ← List.append_assoc]
  rw [List.map_append]
  congr 1
  rcases h.rtrn_cases hp with ⟨-, hr⟩ | ⟨-, -, hr⟩ | ⟨-, hw, hr⟩
  · simp only [hr, Bool.false_eq_true, if_false, h.bOwnersD_append hp, h.wrTids]
  · simp only [hr, Bool.false_eq_true, if_false, h.bOwnersD_append hp, h.wrTids]
  · obtain ⟨r, q, hq, -⟩ := h.bPop_spec hp hw
    have happ := h.bOwnersD_append hp
    rw [hq] at happ
    simp only [hr, if_true, h.wrTids, ← happ, hq, List.tail_cons]
    rfl

/-! ### Requests -/

/-- A read that ends goes from the slave to the answers. -/
theorem ended_append (h : Inv t) (hp : Plain t i) (id : BitVec 4) :
    (t.ended i id).map Prod.fst ++ (if i.beat id && i.rLast then (t.slave.reads id).tail else t.slave.reads id).map Prod.fst =
      (t.slave.reads id).map Prod.fst := by
  cases hb : i.beat id && i.rLast with
  | false => simp [h.ended_nil hb]
  | true =>
    obtain ⟨hb, hl⟩ := (Bool.and_eq_true _ _).mp hb
    obtain ⟨x, xs, hx, -, he⟩ := h.ended_eq hp hb hl
    simp [he, hx]

theorem next_icache (h : Inv t) (hp : Plain t i) : (t.next i).acceptedI.map Req.ifill =
    (t.next i).fills.map Prod.fst ++ ((t.next i).slave.reads 0#4).map Prod.fst ++
      (t.next i).adapter.icacheFifo.map Req.ifill := by
  simp only [Traced.next, h.reads_I, icacheFifo_next, List.map_append, h.icache]
  have he := h.ended_append hp 0#4
  simp only [List.append_assoc]
  rw [← he]
  cases hg : arbAckI t.adapter i with
  | false => simp
  | true =>
    obtain ⟨-, -, -, q, hq⟩ := h.head_I hg
    simp [hq]

theorem next_dcacheLoads (h : Inv t) (hp : Plain t i) : ((t.next i).acceptedD.filter (·.isLoad)).map Req.data =
    (t.next i).loads.map Prod.fst ++ ((t.next i).slave.reads 1#4).map Prod.fst ++
      ((t.next i).adapter.dcacheFifo.filter (·.isLoad)).map Req.data := by
  simp only [Traced.next, h.reads_D, dcacheFifo_next, List.map_append, List.filter_append, h.dcacheLoads]
  have he := h.ended_append hp 1#4
  simp only [List.append_assoc]
  rw [← he]
  cases hg : arbAckD t.adapter i with
  | false => simp
  | true =>
    obtain ⟨-, -, -, ⟨q, hq⟩, ⟨hr, -, hl, -⟩ | ⟨hr, -, hl, -⟩⟩ := h.head_D hg
    · simp [hq, hr, hl]
    · simp [hq, hr, hl]

theorem next_dcacheStores (h : Inv t) (hp : Plain t i) : (t.next i).acceptedD.filter (·.isStore) =
    (t.next i).stores ++ (t.next i).bOwners ++ (t.next i).slave.writes 1#4 ++
      (t.next i).adapter.dcacheFifo.filter (·.isStore) := by
  -- a response that is taken goes from those that wait to the answers
  have hb : (if (rtrn t.adapter i).bPop then (t.bOwnersD i).take 1 else []) ++ (t.next i).bOwners = t.bOwnersD i := by
    simp only [Traced.next]
    split
    · cases t.bOwnersD i <;> rfl
    · rfl
  have hst : (t.next i).stores ++ (t.next i).bOwners = t.stores ++ t.bOwnersD i := by
    rw [← hb, ← List.append_assoc]
    rfl
  rw [hst]
  simp only [Traced.next, h.writes_D, dcacheFifo_next, List.filter_append, h.dcacheStores, List.append_assoc]
  rw [← List.append_assoc (t.bOwnersD i), h.bOwnersD_append hp]
  cases hg : arbAckD t.adapter i with
  | false =>
    have hw : axiWrGnt t.adapter i = false := by
      by_contra hw
      simp [h.ackD_of_wr (by simpa using hw)] at hg
    simp [hw]
  | true =>
    obtain ⟨-, -, -, ⟨q, hq⟩, ⟨-, hw, -, hs⟩ | ⟨-, hw, -, hs⟩⟩ := h.head_D hg
    · simp [hq, hw, hs]
    · simp [hq, hw, hs]

/-- What the data cache gets after a cycle, and what is answered by it. -/
theorem outD_cases (h : Inv t) (hp : Plain t i) :
    (dcacheRtrnO (Axi.next t.adapter i) = none ∧ t.ended i 1#4 = [] ∧ (t.next i).stores = t.stores) ∨
    (∃ m f, dcacheRtrnO (Axi.next t.adapter i) = some m ∧ t.ended i 1#4 = [f] ∧ (t.next i).stores = t.stores ∧
      m.rtype = .loadAck ∧ m.tid = f.1.tid ∧ Carries m.data f.2) ∨
    (∃ m r, dcacheRtrnO (Axi.next t.adapter i) = some m ∧ t.ended i 1#4 = [] ∧ (t.next i).stores = t.stores ++ [r] ∧
      m.rtype = .storeAck ∧ m.tid = r.tid) := by
  rcases h.rtrn_cases hp with ⟨hb, hr⟩ | ⟨hb, -, hr⟩ | ⟨hb, hw, hr⟩
  · cases hl : i.rLast with
    | false =>
      refine .inl ⟨by simp [dcacheRtrnO, Axi.next, hr, hl], h.ended_nil (by simp [hl]), by simp [Traced.next, hr]⟩
    | true =>
      obtain ⟨x, xs, hx, hlen, he⟩ := h.ended_eq hp hb hl
      obtain ⟨ht, hc⟩ := h.chanD.last hx hlen i.rData
      refine .inr (.inl ⟨_, _, by simp [dcacheRtrnO, Axi.next, hr, hl]; rfl, he, by simp [Traced.next, hr], rfl, ?_, ?_⟩)
      · simpa [dcacheTidD, hr] using ht
      · simpa [dcacheShiftD, hr] using hc
  · exact .inl ⟨by simp [dcacheRtrnO, Axi.next, hr], h.ended_nil (by simp [hb]), by simp [Traced.next, hr]⟩
  · obtain ⟨r, q, hq, htid⟩ := h.bPop_spec hp hw
    refine .inr (.inr ⟨_, r, by simp [dcacheRtrnO, Axi.next, hr]; rfl, h.ended_nil (by simp [hb]),
      by simp [Traced.next, hr, hq], rfl, ?_⟩)
    simpa [dcacheTidD, hr] using htid

theorem next_matched (h : Inv t) (hp : Plain t i) : Matched (t.next i) where
  outI := h.next_outI hp
  outD m hm := by
    simp only [Traced.next, List.mem_append, Option.mem_toList] at hm
    rcases hm with hm | hm
    · exact h.outD m hm
    · rcases h.outD_cases hp with ⟨ho, -⟩ | ⟨m', f, ho, -, -, ht, -⟩ | ⟨m', r, ho, -, -, ht, -⟩
      · simp [ho] at hm
      · rw [ho, Option.some.injEq] at hm
        exact .inl (hm ▸ ht)
      · rw [ho, Option.some.injEq] at hm
        exact .inr (hm ▸ ht)
  loadAcks := by
    simp only [Traced.next, List.filter_append]
    refine List.rel_append h.loadAcks ?_
    rcases h.outD_cases hp with ⟨ho, he, -⟩ | ⟨m, f, ho, he, -, ht, hm⟩ | ⟨m, r, ho, he, -, ht, -⟩
    · simp [ho, he]
    · simp [ho, he, ht, hm]
    · simp [ho, he, ht]
  storeAcks := by
    have hout : (t.next i).outD = t.outD ++ (dcacheRtrnO (Axi.next t.adapter i)).toList := rfl
    rcases h.outD_cases hp with ⟨ho, -, hs⟩ | ⟨m, f, ho, -, hs, ht, -⟩ | ⟨m, r, ho, -, hs, ht, hm⟩
    · simpa [hs, hout, ho] using h.storeAcks
    · simpa [hs, hout, ho, ht] using h.storeAcks
    · rw [hs, hout, List.filter_append]
      exact List.rel_append h.storeAcks (by simp [ho, ht, hm])
  bursts f hf := by
    have hend : ∀ id ∈ [0#4, 1#4], f ∈ t.ended i id → f.2.length = words f.1 := by
      intro id hid hf
      cases hb : i.beat id && i.rLast with
      | false => simp [h.ended_nil hb] at hf
      | true =>
        obtain ⟨hb, hl⟩ := (Bool.and_eq_true _ _).mp hb
        obtain ⟨x, xs, hx, hlen, he⟩ := h.ended_eq hp hb hl
        rw [he, List.mem_singleton] at hf
        have hw := h.lens x (by
          simp only [List.mem_cons, List.not_mem_nil, or_false] at hid
          rcases hid with rfl | rfl <;> simp [hx])
        simp [hf, hlen, hw]
    simp only [Traced.next, List.mem_append] at hf
    rcases hf with (hf | hf) | (hf | hf)
    · exact h.bursts f (List.mem_append_left _ hf)
    · exact hend _ (by simp) hf
    · exact h.bursts f (List.mem_append_right _ hf)
    · exact hend _ (by simp) hf
  icache := h.next_icache hp
  dcacheLoads := h.next_dcacheLoads hp
  dcacheStores := h.next_dcacheStores hp
  dcacheReqs r hr := by
    simp only [Traced.next, List.mem_append] at hr
    rcases hr with hr | hr
    · exact h.dcacheReqs r hr
    · split at hr
      · rename_i ha
        rw [List.mem_singleton.1 hr]
        simpa [DcacheReq.isLoad, DcacheReq.isStore] using hp.rtype ((Bool.and_eq_true _ _).mp ha).1
      · simp at hr

theorem next_inv (h : Inv t) (hp : Plain t i) : Inv (t.next i) where
  toMatched := h.next_matched hp
  bus := h.bus.next
  chanI := h.next_chanI hp
  chanD := h.next_chanD hp
  fifo := h.next_fifo hp
  reads := h.reads_other
  writes := h.writes_other
  lens := h.next_lens
  bIds := h.next_bIds hp
  bLen := h.next_bLen hp
  wrTids := h.next_wrTids hp

end Inv

/-! ### What is left to do -/

/-- The words the slave owes. -/
def owed (reads : List (Req c × ℕ)) (beats : List Word) : ℕ := (reads.map (·.2 + 1)).sum - beats.length

/-- The steps a request takes, once it is in the FIFO of its cache. -/
def stepsI (r : IcacheReq c) : ℕ := words (.ifill r) + 1
def stepsD (r : DcacheReq c) : ℕ := if r.isStore then 3 else words (.data r) + 1

def Traced.pending (t : Traced c) : ℕ :=
  (t.adapter.icacheFifo.map stepsI).sum + (t.adapter.dcacheFifo.map stepsD).sum +
    owed (t.slave.reads 0#4) (t.slave.beats 0#4) + owed (t.slave.reads 1#4) (t.slave.beats 1#4) +
    2 * (t.slave.writes 1#4).length + t.bOwners.length

/-- The slave takes what it is offered and delivers if it owes something. -/
def Traced.prompt (t : Traced c) (i : In c) : Bool :=
  i.arReady && i.awReady && i.wReady &&
    (i.rValid || (t.slave.reads 0#4).isEmpty && (t.slave.reads 1#4).isEmpty) &&
    (i.bValid || (t.slave.writes 1#4).isEmpty)

section Progress

variable {n : ℕ} [NeZero n] {shift : Fin n → Word} {first : Bool} {tids : List (BitVec c.tidWidth)}
  {reads : List (Req c × ℕ)} {beats : List Word}

theorem Channel.beats_le (h : Channel shift first tids reads beats) :
    beats.length ≤ (reads.map (·.2 + 1)).sum := by
  cases hr : reads with
  | nil => simp [h.idle hr]
  | cons x xs =>
    have := h.room x (by simp [hr])
    simp only [List.map_cons, List.sum_cons]
    omega

/-- A word is one step, a read adds its own. -/
theorem Channel.owed_step (h : Channel shift first tids reads beats) (beat last : Bool) (d : Word)
    (new : List (Req c × ℕ)) (hb : beat = true → ∃ x xs, reads = x :: xs ∧ last = decide (beats.length = x.2)) :
    owed ((if beat && last then reads.tail else reads) ++ new) (if beat then (if last then [] else beats ++ [d]) else beats) +
      beat.toNat = owed reads beats + (new.map (·.2 + 1)).sum := by
  have hle := h.beats_le
  cases beat with
  | false =>
    simp only [owed, Bool.false_and, Bool.false_eq_true, if_false, List.map_append, List.sum_append, Bool.toNat_false]
    omega
  | true =>
    obtain ⟨x, xs, rfl, hlast⟩ := hb rfl
    have hroom := h.room x rfl
    cases last with
    | true =>
      have hlen : beats.length = x.2 := by simpa using hlast.symm
      simp only [owed, Bool.and_self, if_true, List.tail_cons, List.map_append, List.map_cons, List.sum_append,
        List.sum_cons, List.length_nil, Bool.toNat_true]
      omega
    | false =>
      have hne : beats.length ≠ x.2 := by simpa using hlast.symm
      simp only [owed, Bool.and_false, Bool.false_eq_true, if_false, if_true, List.map_append, List.map_cons,
        List.sum_append, List.sum_cons, List.length_append, List.length_singleton, Bool.toNat_true] at hle ⊢
      omega

end Progress

namespace Inv

variable {t : Traced c} {i : In c}

theorem owedI_next (h : Inv t) (hp : Plain t i) :
    owed ((t.next i).slave.reads 0#4) ((t.next i).slave.beats 0#4) + (i.beat 0#4).toNat =
      owed (t.slave.reads 0#4) (t.slave.beats 0#4) +
        if arbAckI t.adapter i then words (.ifill (icacheData t.adapter)) else 0 := by
  have hpos : 0 < c.icacheWords := Nat.pos_of_neZero _
  have hstep := h.chanI.owed_step (i.beat 0#4) i.rLast i.rData
    (if arbAckI t.adapter i then
      [(.ifill (icacheData t.adapter), if (icacheData t.adapter).nc then 0 else c.icacheWords - 1)] else [])
    (fun hb => by
      have hb := In.beat_eq_true.1 hb
      simpa only [hb.2] using hp.legal.r hb.1)
  rw [← h.reads_I] at hstep
  simp only [Traced.next]
  simp only [Slave.next, h.rBeat_eq] at hstep ⊢
  rw [hstep]
  congr 1
  split
  · simp only [List.map_cons, List.map_nil, List.sum_singleton, words]
    split <;> omega
  · rfl

theorem owedD_next (h : Inv t) (hp : Plain t i) :
    owed ((t.next i).slave.reads 1#4) ((t.next i).slave.beats 1#4) + (i.beat 1#4).toNat =
      owed (t.slave.reads 1#4) (t.slave.beats 1#4) +
        if arbAckD t.adapter i && axiRdGnt t.adapter i then words (.data (dcacheData t.adapter)) else 0 := by
  have hpos : 0 < c.dcacheWords := Nat.pos_of_neZero _
  have hstep := h.chanD.owed_step (i.beat 1#4) i.rLast i.rData
    (if arbAckD t.adapter i && axiRdGnt t.adapter i then
      [(.data (dcacheData t.adapter), if (dcacheData t.adapter).size.getLsbD 2 then c.dcacheWords - 1 else 0)] else [])
    (fun hb => by
      have hb := In.beat_eq_true.1 hb
      simpa only [hb.2] using hp.legal.r hb.1)
  rw [← h.reads_D] at hstep
  simp only [Traced.next]
  simp only [Slave.next, h.rBeat_eq] at hstep ⊢
  rw [hstep]
  congr 1
  split
  · simp only [List.map_cons, List.map_nil, List.sum_singleton, words]
    split <;> omega
  · rfl

theorem writes_next (h : Inv t) (hp : Plain t i) :
    2 * ((t.next i).slave.writes 1#4).length + (t.next i).bOwners.length + (Slave.bBeat t.adapter i).toNat +
        (rtrn t.adapter i).bPop.toNat =
      2 * (t.slave.writes 1#4).length + t.bOwners.length + if axiWrGnt t.adapter i then 2 else 0 := by
  have happ := congrArg List.length (h.bOwnersD_append hp)
  have hpop : (rtrn t.adapter i).bPop = true → t.bOwnersD i ≠ [] := by
    rcases h.rtrn_cases hp with ⟨-, hr⟩ | ⟨-, -, hr⟩ | ⟨-, hw, hr⟩
    · simp [hr]
    · simp [hr]
    · obtain ⟨r, q, hq, -⟩ := h.bPop_spec hp hw
      simp [hq]
  have hbeat : Slave.bBeat t.adapter i = true → (t.bOwnersD i).length = t.bOwners.length + 1 := fun hb => by
    obtain ⟨r, q, hq⟩ := List.exists_cons_of_ne_nil (hp.legal.b ((Bool.and_eq_true _ _).mp hb).1)
    simp [Traced.bOwnersD, hb, hq]
  have hnot : Slave.bBeat t.adapter i = false → (t.bOwnersD i).length = t.bOwners.length := fun hb => by
    simp [Traced.bOwnersD, hb]
  have hown : (t.next i).bOwners.length + (rtrn t.adapter i).bPop.toNat = (t.bOwnersD i).length := by
    simp only [Traced.next]
    cases hb : (rtrn t.adapter i).bPop with
    | false => simp
    | true =>
      have := List.length_pos_iff.2 (hpop hb)
      simp only [if_true, List.length_tail, Bool.toNat_true]
      omega
  have hnew : ((t.next i).slave.writes 1#4).length =
      (if Slave.bBeat t.adapter i && i.bId == 1#4 then (t.slave.writes 1#4).tail else t.slave.writes 1#4).length +
        if axiWrGnt t.adapter i then 1 else 0 := by
    simp only [Traced.next, h.writes_D, List.length_append]
    congr 1
    split <;> rfl
  have htwo : (if axiWrGnt t.adapter i then 2 else 0) = 2 * if axiWrGnt t.adapter i then 1 else 0 := by
    split <;> rfl
  rw [List.length_append, List.length_append] at happ
  cases hb : Slave.bBeat t.adapter i with
  | false =>
    have := hnot hb
    rw [hb] at happ hnew
    rw [Bool.toNat_false]
    omega
  | true =>
    have := hbeat hb
    rw [hb] at happ hnew
    rw [Bool.toNat_true]
    omega

/-- The caches ask for nothing new. -/
def Quiet (i : In c) : Prop := i.icacheReq = false ∧ i.dcacheReq = false

/-- What happens in a cycle is taken from what is left to do. -/
theorem pending_next (h : Inv t) (hp : Plain t i) (hq : Quiet i) :
    (t.next i).pending + ((arbAckI t.adapter i).toNat + (arbAckD t.adapter i).toNat + (i.beat 0#4).toNat +
      (i.beat 1#4).toNat + (Slave.bBeat t.adapter i).toNat + (rtrn t.adapter i).bPop.toNat) = t.pending := by
  have hI : ((t.next i).adapter.icacheFifo.map stepsI).sum +
      (if arbAckI t.adapter i then words (.ifill (icacheData t.adapter)) + 1 else 0) =
        (t.adapter.icacheFifo.map stepsI).sum := by
    simp only [Traced.next, icacheFifo_next, icacheAck, hq.1, Bool.false_and, Bool.false_eq_true, if_false, List.append_nil]
    cases hg : arbAckI t.adapter i with
    | false => simp
    | true =>
      obtain ⟨-, -, -, q, hq⟩ := h.head_I hg
      rw [hq]
      simp [stepsI]
      omega
  have hD : ((t.next i).adapter.dcacheFifo.map stepsD).sum +
      (if arbAckD t.adapter i then stepsD (dcacheData t.adapter) else 0) = (t.adapter.dcacheFifo.map stepsD).sum := by
    simp only [Traced.next, dcacheFifo_next, dcacheAck, hq.2, Bool.false_and, Bool.false_eq_true, if_false, List.append_nil]
    cases hg : arbAckD t.adapter i with
    | false => simp
    | true =>
      obtain ⟨-, -, -, ⟨q, hq⟩, -⟩ := h.head_D hg
      rw [hq]
      simp
      omega
  have hoI := h.owedI_next hp
  have hoD := h.owedD_next hp
  have hw := h.writes_next hp
  simp only [Traced.pending]
  have hcost : (if arbAckD t.adapter i then stepsD (dcacheData t.adapter) else 0) =
      (if arbAckD t.adapter i && axiRdGnt t.adapter i then words (.data (dcacheData t.adapter)) else 0) +
        (if axiWrGnt t.adapter i then 2 else 0) + (arbAckD t.adapter i).toNat := by
    cases hg : arbAckD t.adapter i with
    | false =>
      have hw : axiWrGnt t.adapter i = false := by
        by_contra hw
        simp [h.ackD_of_wr (by simpa using hw)] at hg
      simp [hw]
    | true =>
      obtain ⟨-, -, -, -, ⟨hr, hw, -, hs⟩ | ⟨hr, hw, -, hs⟩⟩ := h.head_D hg <;> simp [stepsD, hr, hw, hs]
  have hcostI : (if arbAckI t.adapter i then words (.ifill (icacheData t.adapter)) + 1 else 0) =
      (if arbAckI t.adapter i then words (.ifill (icacheData t.adapter)) else 0) + (arbAckI t.adapter i).toNat := by
    cases arbAckI t.adapter i <;> simp
  omega

/-- A request that finds its FIFO of tids with room goes out to a slave that takes it. -/
theorem gnt_of_ready (h : Inv t) (ha : arbReq t.adapter = true) (hr : i.arReady = true) (haw : i.awReady = true)
    (hw : i.wReady = true) : arbGnt t.adapter i = true := by
  by_cases hwr : axiWrReq t.adapter i = true
  · rcases h.bus.shimOut_spec (i := i) with ⟨-, -, -, hn, -⟩ | ⟨-, -, -, ho⟩ | ⟨-, -, -, ho⟩ | ⟨-, -, -, ho⟩
    · simp [hn] at hwr
    all_goals simp [arbGnt, axiWrGnt, ho, haw, hw]
  · have hrd : axiRdReq t.adapter i = true := by
      rw [Bus.axiWrReq_eq, ha] at hwr
      cases hi : arbIdx t.adapter i with
      | false => simp [axiRdReq, ha, hi]
      | true =>
        have hD := (h.bus.arb_spec ha).1 hi
        simp only [arbReqD, Bool.and_eq_true, Bool.not_eq_true', List.isEmpty_eq_false_iff] at hD
        obtain ⟨r, q, hq⟩ := List.exists_cons_of_ne_nil hD.1.1
        have hd : dcacheData t.adapter = r := by simp [dcacheData, hq]
        rcases h.fifo r (by simp [hq]) with hl | hs
        · simp only [DcacheReq.isLoad, beq_iff_eq] at hl
          simp [axiRdReq, serves, ha, hi, hd, hl]
        · simp only [DcacheReq.isStore, beq_iff_eq] at hs
          simp [hi, hd, DcacheReq.isWrite, hs] at hwr
    simp [arbGnt, axiRdGnt, hrd, hr]

/-- A slave that is prompt does something while something is left to do. -/
theorem pending_lt (h : Inv t) (hp : Plain t i) (hq : Quiet i) (hpr : t.prompt i = true) (hne : t.pending ≠ 0) :
    (t.next i).pending < t.pending := by
  have hstep := h.pending_next hp hq
  simp only [Traced.prompt, Bool.and_eq_true, Bool.or_eq_true, List.isEmpty_iff] at hpr
  obtain ⟨⟨⟨⟨hr, haw⟩, hw⟩, hrd⟩, hb⟩ := hpr
  suffices hev : (arbAckI t.adapter i || arbAckD t.adapter i || i.beat 0#4 || i.beat 1#4 ||
      Slave.bBeat t.adapter i || (rtrn t.adapter i).bPop) = true by
    simp only [Bool.or_eq_true] at hev
    rcases hev with ((((hev | hev) | hev) | hev) | hev) | hev <;> simp only [hev, Bool.toNat_true] at hstep <;> omega
  by_contra hno
  simp only [Bool.or_eq_true, not_or, Bool.not_eq_true] at hno
  obtain ⟨⟨⟨⟨⟨hI, hD⟩, hb0⟩, hb1⟩, hbb⟩, hpop⟩ := hno
  -- no word came in, so the slave owes none
  have hreads : t.slave.reads 0#4 = [] ∧ t.slave.reads 1#4 = [] := by
    refine hrd.resolve_left fun hv => ?_
    rcases h.rId_cases hp hv with hid | hid
    · simp [In.beat, hv, hid] at hb0
    · simp [In.beat, hv, hid] at hb1
  -- no response was taken, so none waits and the slave owes none
  have hbw : bWaiting t.adapter i = [] := by
    rcases h.rtrn_cases hp with ⟨hb, -⟩ | ⟨-, hw, -⟩ | ⟨-, -, hr⟩
    · simp [hb] at hb1
    · exact hw
    · simp [hr] at hpop
  have hfifo : t.adapter.bFifo = [] := (List.append_eq_nil_iff.1 hbw).1
  have hwrites : t.slave.writes 1#4 = [] := by
    refine hb.resolve_left fun hv => ?_
    simp [Slave.bBeat, bReady, hv, hfifo, Nat.pos_of_neZero] at hbb
  have hown : t.bOwners = [] := by
    have := h.bLen
    rw [hfifo] at this
    exact List.length_eq_zero_iff.1 this.symm
  -- the FIFOs of the tids are empty, so a request would have gone out
  have hreq : arbReq t.adapter = false := by
    by_contra ha
    have hg := h.gnt_of_ready (by simpa using ha) hr haw hw
    cases hi : arbIdx t.adapter i <;> simp [arbAckI, arbAckD, hg, hi] at hI hD
  have hrdI : t.adapter.rdIcacheId = [] := by rw [h.chanI.tids, hreads.1]; rfl
  have hrdD : t.adapter.rdDcacheId = [] := by rw [h.chanD.tids, hreads.2]; rfl
  have hwrD : t.adapter.wrDcacheId = [] := by rw [h.wrTids, hown, hwrites]; rfl
  have hpos : 0 < c.metaFifoDepth := Nat.pos_of_neZero _
  simp only [arbReq, arbReqI, arbReqD, hrdI, hrdD, hwrD, List.length_nil, hpos, decide_true, Bool.and_true,
    Bool.or_eq_false_iff, Bool.not_eq_false', List.isEmpty_iff] at hreq
  exact hne (by simp [Traced.pending, hreq.1, hreq.2, hreads.1, hreads.2, hwrites, hown, owed])

end Inv

theorem Channel.reads_nil {n : ℕ} [NeZero n] {shift : Fin n → Word} {first : Bool}
    {tids : List (BitVec c.tidWidth)} {reads : List (Req c × ℕ)} {beats : List Word}
    (h : Channel shift first tids reads beats) (h0 : owed reads beats = 0) : reads = [] := by
  cases reads with
  | nil => rfl
  | cons x xs =>
    have := h.room x rfl
    simp only [owed, List.map_cons, List.sum_cons] at h0
    omega

theorem nil_of_sum {α : Type} {f : α → ℕ} {l : List α} (hf : ∀ x, 0 < f x) (hs : (l.map f).sum = 0) : l = [] := by
  cases l with
  | nil => rfl
  | cons x xs =>
    have := hf x
    simp only [List.map_cons, List.sum_cons] at hs
    omega

/-- Two kinds that exclude each other make up the whole. -/
theorem length_of_kinds {α : Type} {p q : α → Bool} {l : List α} (h : ∀ x ∈ l, p x = !q x) :
    l.length = (l.filter p).length + (l.filter q).length := by
  rw [List.length_eq_length_filter_add q, Nat.add_comm, List.filter_congr h]

/-- When nothing is left to do every request has its message. -/
theorem Inv.answered {t : Traced c} (h : Inv t) (h0 : t.pending = 0) :
    t.outI.length = t.acceptedI.length ∧ t.outD.length = t.acceptedD.length := by
  simp only [Traced.pending, Nat.add_eq_zero_iff, Nat.mul_eq_zero, List.length_eq_zero_iff] at h0
  obtain ⟨⟨⟨⟨⟨hI, hD⟩, hr0⟩, hr1⟩, hw⟩, hb⟩ := h0
  have hI := nil_of_sum (fun r => by simp [stepsI]) hI
  have hD := nil_of_sum (fun r => by unfold stepsD; split <;> omega) hD
  have hr0 := h.chanI.reads_nil hr0
  have hr1 := h.chanD.reads_nil hr1
  have hw : t.slave.writes 1#4 = [] := hw.resolve_left (by decide)
  constructor
  · have := congrArg List.length h.icache
    simp only [hr0, hI, List.map_nil, List.append_nil, List.length_map] at this
    rw [h.outI.length_eq, this]
  · have hloads := congrArg List.length h.dcacheLoads
    have hstores := congrArg List.length h.dcacheStores
    simp only [hr1, hD, List.filter_nil, List.map_nil, List.append_nil, List.length_map] at hloads
    simp only [hw, hb, hD, List.filter_nil, List.append_nil] at hstores
    rw [length_of_kinds (p := (·.rtype == .loadAck)) (q := (·.rtype == .storeAck)) (l := t.outD),
      length_of_kinds (p := (·.isLoad)) (q := (·.isStore)) (l := t.acceptedD), h.loadAcks.length_eq,
      h.storeAcks.length_eq, hloads, hstores]
    · intro r hr
      rcases h.dcacheReqs r hr with hl | hs
      · simp only [DcacheReq.isLoad, beq_iff_eq] at hl
        simp [DcacheReq.isLoad, DcacheReq.isStore, hl]
      · simp only [DcacheReq.isStore, beq_iff_eq] at hs
        simp [DcacheReq.isLoad, DcacheReq.isStore, hs]
    · intro m hm
      rcases h.outD m hm with ht | ht <;> simp [ht]

/-! ### Whole runs -/

/-- Along a run without new requests in which the slave was prompt often enough, every
request is answered. -/
def Answers (t : Traced c) : Prop :=
  ∀ js, (traced c).Steps (fun u j => Plain u j ∧ Inv.Quiet j) t js → t.pending ≤ (traced c).count Traced.prompt t js →
    ((traced c).run t js).outI.length = t.acceptedI.length ∧ ((traced c).run t js).outD.length = t.acceptedD.length

theorem accepted_next {t : Traced c} {i : In c} (hq : Inv.Quiet i) :
    (t.next i).acceptedI = t.acceptedI ∧ (t.next i).acceptedD = t.acceptedD := by
  simp [Traced.next, icacheAck, dcacheAck, hq.1, hq.2]

theorem Inv.answers {t : Traced c} (h : Inv t) : Answers t := by
  intro js hs hc
  have hacc := Machine.run_inv (M := traced c)
    (P := fun u => Inv u ∧ u.acceptedI = t.acceptedI ∧ u.acceptedD = t.acceptedD)
    (fun u j hu hok => ⟨hu.1.next_inv hok.1, (accepted_next hok.2).1.trans hu.2.1,
      (accepted_next hok.2).2.trans hu.2.2⟩) js t ⟨h, rfl, rfl⟩ hs
  have hzero := Machine.run_measure (M := traced c) (fun u j hu hok => hu.next_inv hok.1)
    (fun u j hu hok => by have := hu.pending_next hok.1 hok.2; exact Nat.le.intro this)
    (fun u j hu hok hpr hne => hu.pending_lt hok.1 hok.2 hpr hne) js t h hs hc
  obtain ⟨hI, hD⟩ := hacc.1.answered hzero
  exact ⟨hI.trans (by rw [hacc.2.1]), hD.trans (by rw [hacc.2.2])⟩

/-- **Request/response matching.** Without atomics, whatever the caches ask for and whenever
the slave answers, every state is matched, and from every state each request gets its message
once the slave has been prompt often enough. -/
theorem requests_matched (t₀ : Traced c) (h0 : (traced c).init t₀) (is : List (In c))
    (h : (traced c).Steps Plain t₀ is) : (traced c).Always (fun t => Matched t ∧ Answers t) t₀ is := by
  have hinv : Inv t₀ := by
    rw [show t₀ = _ from h0]
    exact inv_reset
  exact (Machine.always_of_steps (fun t i ht hp => ht.next_inv hp) is t₀ hinv h).mono
    fun t ht => ⟨ht.toMatched, ht.answers⟩

/-- A store and an instruction fill, whose responses come in one cycle. -/
def storeAndFill : List (In arianeCfg) :=
  let idle : In arianeCfg :=
    { icacheReq := false, icacheData := ⟨0x80000000, false, 1⟩, dcacheReq := false
      dcacheData := ⟨.storeReq, 3, 0x80001000, 7, 2, .none⟩, pref := false
      arReady := true, awReady := true, wReady := true, rValid := false, rId := 0, rData := 5, rLast := false
      bValid := false, bId := 1, bExokay := false }
  [{ idle with icacheReq := true, dcacheReq := true }, idle, idle, { idle with rValid := true },
    { idle with rValid := true, rLast := true, bValid := true }, idle]

theorem requests_matched_storeAndFill : (traced arianeCfg).Steps Plain tracedReset storeAndFill ∧
    (traced arianeCfg).Always (fun t => Matched t ∧ Answers t) tracedReset storeAndFill :=
  have h : (traced arianeCfg).Steps Plain tracedReset storeAndFill := by decide +kernel
  ⟨h, requests_matched _ rfl storeAndFill h⟩

end Axi
end Ariane

/-
# The bookkeeping of the write buffer

`Traced` is the write buffer with what the two sides of it see: the last value the core
stored to every byte, the transactions memory has not acknowledged yet, and the last value
of every byte that memory has acknowledged. Memory reads a transaction as any of its devices
would, from the address, the size and the data, and may acknowledge those in flight in any
order (`AcksOutstanding`).

A byte is valid exactly while it is dirty or in flight (`byte`), a word is in flight at most
once (`slot`), and what is not in the buffer is in memory (`clean`).
-/
import Mathlib.Data.Finset.Card
import Ariane.Dcache.Wbuffer

namespace Ariane
namespace Dcache

/-! ### Splitting a mask into transactions -/

/-- The bytes of the first transaction for the mask, and what it leaves. -/
def piece (m : Mask) : Mask := toByteEnable8 (lzc m) (toSize64 m)

def rest (m : Mask) : Mask := fun b => m b && !piece m b

theorem piece_le {m : Mask} {b : Fin 8} (hb : m b = true) {k : Fin 8} (hk : piece m k = true) :
    m k = true :=
  ((tx_lane m ⟨b, hb⟩ k).2 hk).1

/-- A transaction has the first byte of the mask. -/
theorem piece_lzc {m : Mask} {b : Fin 8} (hb : m b = true) : piece m (lzc m) = true := by
  rw [piece, ← (tx_lane m ⟨b, hb⟩ (lzc m)).1]
  simp [sizeMask]

def count (m : Mask) : ℕ := (Finset.univ.filter fun b => m b = true).card

theorem count_rest_lt {m : Mask} {b : Fin 8} (hb : m b = true) : count (rest m) < count m := by
  refine Finset.card_lt_card ⟨fun k hk => ?_, fun h => ?_⟩
  · simp only [rest, Finset.mem_filter, Bool.and_eq_true] at hk ⊢
    exact ⟨hk.1, hk.2.1⟩
  · have hl := h (Finset.mem_filter.2 ⟨Finset.mem_univ (lzc m), lzc_spec ⟨b, hb⟩⟩)
    simp [rest, piece_lzc hb] at hl

/-- The transactions for a mask, one after the other until no byte is left. -/
def split (m : Mask) : List Mask :=
  if _h : ∃ b, m b = true then piece m :: split (rest m) else []
termination_by count m
decreasing_by exact count_rest_lt _h.choose_spec

/-- The transactions for a mask have each byte of it once, and no other. -/
theorem split_exact (m : Mask) (b : Fin 8) : (split m).countP (· b) = if m b then 1 else 0 := by
  fun_induction split m with
  | case1 m h ih =>
    obtain ⟨c, hc⟩ := h
    rw [List.countP_cons, ih]
    by_cases hp : piece m b = true
    · simp [rest, hp, piece_le hc hp]
    · simp [rest, hp]
  | case2 m h => simp [show m b = false by simpa using fun hb => h ⟨b, hb⟩]

/-- Every lane of a transaction has a byte of it, the one at the same place in the
transaction. -/
theorem repLane_piece {m : Mask} {b : Fin 8} (hb : m b = true) (k : Fin 8) :
    piece m (repLane (lzc m) (toSize64 m) k) = true ∧
      (repLane (lzc m) (toSize64 m) k).val % 2 ^ (toSize64 m).toNat = k.val % 2 ^ (toSize64 m).toNat := by
  rcases toSize64_cases m with ⟨c, hc, rfl⟩ | hs
  · clear hb
    revert k c
    decide
  · simp [piece, hs, repLane, toByteEnable8, Nat.mod_one]

namespace Wbuffer

open Lib (Machine)

variable {g : Geom}

theorem txBe_eq (s : Regs g) (p : Prefs g) : txBe s p = piece (bdirty s (dirtyPtr s p)) := rfl

/-! ### What the core and memory see -/

/-- A transaction as memory gets it. -/
structure Msg (g : Geom) where
  paddr : Addr g
  size : BitVec 2
  wdata : Word

/-- The bytes memory writes. -/
def Msg.covers (m : Msg g) : Mask := sizeMask (m.size.setWidth 3) m.paddr.byte

/-- The transaction the buffer asks for. -/
def msg (s : Regs g) (p : Prefs g) : Msg g := ⟨missPaddrO s p, missSizeO s p, missWdataO s p⟩

structure Traced (g : Geom) where
  buf : Regs g
  /-- The transactions that memory has not acknowledged. -/
  flight : Fin g.maxTx → Option (Msg g)
  stored : Wtag g → Fin 8 → Option (BitVec 8)
  acked : Wtag g → Fin 8 → Option (BitVec 8)

namespace Traced

variable (t : Traced g) (i : In g)

def flightD (x : Fin g.maxTx) : Option (Msg g) :=
  if sends t.buf i && x == txId t.buf i.pref then some (msg t.buf i.pref)
  else if i.rtrnVld && x == i.rtrnId then none
  else t.flight x

def storedD (w : Wtag g) (b : Fin 8) : Option (BitVec 8) :=
  if dataGntO t.buf i && w == i.wtag && i.dataBe b then some (i.dataWdata b) else t.stored w b

/-- The transaction that memory acknowledges. -/
def acks : Option (Msg g) := if i.rtrnVld then t.flight i.rtrnId else none

def ackedD (w : Wtag g) (b : Fin 8) : Option (BitVec 8) :=
  match t.acks i with
  | some m => if m.paddr.toWtag = w ∧ m.covers b = true then some (m.wdata b) else t.acked w b
  | none => t.acked w b

def next : Traced g where
  buf := Wbuffer.next t.buf i
  flight := t.flightD i
  stored := t.storedD i
  acked := t.ackedD i

end Traced

def tracedReset : Traced g := ⟨reset, fun _ => none, fun _ _ => none, fun _ _ => none⟩

def traced (g : Geom) : Machine (Traced g) (In g) := ⟨(· = tracedReset), Traced.next⟩

/-- Memory acknowledges only what is in flight. -/
def AcksOutstanding (t : Traced g) (i : In g) : Prop :=
  i.rtrnVld = true → (t.flight i.rtrnId).isSome = true

instance (t : Traced g) (i : In g) : Decidable (AcksOutstanding t i) :=
  inferInstanceAs (Decidable (i.rtrnVld = true → (t.flight i.rtrnId).isSome = true))

/-- The byte of the word is in the buffer. -/
def Holds (s : Regs g) (w : Wtag g) (b : Fin 8) : Prop :=
  ∃ k, (s.wbuffer k).wtag = w ∧ (s.wbuffer k).valid b = true

/-! ### The bytes of an entry after an edge -/

section Bytes

variable (s : Regs g) (i : In g) (k : Fin g.wbufDepth)

def evicted (b : Fin 8) : Bool := evict s i.wrAck && k == rtrnPtr s && (s.txStat (rtrnId s)).be b
def sent (b : Fin 8) : Bool := sends s i && k == dirtyPtr s i.pref && txBe s i.pref b
def written (b : Fin 8) : Bool := dataGntO s i && k == wrPtr s i && i.dataBe b

variable (e : Entry g)

@[simp] theorem checked_bytes : (checked s k e).wtag = e.wtag ∧ (checked s k e).data = e.data ∧
    (checked s k e).dirty = e.dirty ∧ (checked s k e).valid = e.valid ∧ (checked s k e).txblock = e.txblock := by
  unfold checked
  split <;> simp

@[simp] theorem inval_bytes : (inval s i k e).wtag = e.wtag ∧ (inval s i k e).data = e.data ∧
    (inval s i k e).dirty = e.dirty ∧ (inval s i k e).valid = e.valid ∧ (inval s i k e).txblock = e.txblock := by
  unfold inval
  split <;> simp

@[simp] theorem evictBytes_bytes : (evictBytes s i k e).wtag = e.wtag ∧ (evictBytes s i k e).data = e.data ∧
    (evictBytes s i k e).dirty = e.dirty ∧
    (evictBytes s i k e).valid = (fun b => e.valid b && !(evicted s i k b && !(s.wbuffer k).dirty b)) ∧
    (evictBytes s i k e).txblock = fun b => e.txblock b && !evicted s i k b := by
  by_cases h : (evict s i.wrAck && k == rtrnPtr s) = true <;> simp [evictBytes, evicted, h]

@[simp] theorem sendBytes_bytes : (sendBytes s i k e).wtag = e.wtag ∧ (sendBytes s i k e).data = e.data ∧
    (sendBytes s i k e).dirty = (fun b => e.dirty b && !sent s i k b) ∧ (sendBytes s i k e).valid = e.valid ∧
    (sendBytes s i k e).txblock = fun b => e.txblock b || sent s i k b := by
  by_cases h : (sends s i && k == dirtyPtr s i.pref) = true <;> simp [sendBytes, sent, h]

@[simp] theorem writeBytes_bytes :
    (writeBytes s i k e).wtag = (if dataGntO s i && k == wrPtr s i then i.wtag else e.wtag) ∧
    (writeBytes s i k e).data = (fun b => if written s i k b then i.dataWdata b else e.data b) ∧
    (writeBytes s i k e).dirty = (fun b => e.dirty b || written s i k b) ∧
    (writeBytes s i k e).valid = (fun b => e.valid b || written s i k b) ∧
    (writeBytes s i k e).txblock = e.txblock := by
  by_cases h : (dataGntO s i && k == wrPtr s i) = true <;> simp [writeBytes, written, h]

@[simp] theorem next_wtag : ((next s i).wbuffer k).wtag =
    if dataGntO s i && k == wrPtr s i then i.wtag else (s.wbuffer k).wtag := by
  simp [next, nextEntry]

@[simp] theorem next_bytes (b : Fin 8) :
    ((next s i).wbuffer k).data b = (if written s i k b then i.dataWdata b else (s.wbuffer k).data b) ∧
    ((next s i).wbuffer k).dirty b = ((s.wbuffer k).dirty b && !sent s i k b || written s i k b) ∧
    ((next s i).wbuffer k).valid b =
      ((s.wbuffer k).valid b && !(evicted s i k b && !(s.wbuffer k).dirty b) || written s i k b) ∧
    ((next s i).wbuffer k).txblock b = ((s.wbuffer k).txblock b && !evicted s i k b || sent s i k b) := by
  simp [next, nextEntry]

end Bytes

/-! ### The invariant -/

structure Inv (t : Traced g) : Prop where
  distinct : ∀ k k', valid t.buf k = true → valid t.buf k' = true →
    (t.buf.wbuffer k).wtag = (t.buf.wbuffer k').wtag → k = k'
  byte : ∀ k b, (t.buf.wbuffer k).valid b = ((t.buf.wbuffer k).dirty b || (t.buf.wbuffer k).txblock b)
  /-- The bytes in flight are those of the slots, and an entry has one slot at most. -/
  block : ∀ k b, (t.buf.wbuffer k).txblock b = true ↔
    ∃ x, (t.buf.txStat x).vld = true ∧ (t.buf.txStat x).ptr = k ∧ (t.buf.txStat x).be b = true
  slot : ∀ x y, (t.buf.txStat x).vld = true → (t.buf.txStat y).vld = true →
    (t.buf.txStat x).ptr = (t.buf.txStat y).ptr → x = y
  covers : ∀ x, (t.buf.txStat x).vld = true → ∃ b, (t.buf.txStat x).be b = true
  /-- A slot is in use until memory has acknowledged it and the buffer has taken it back. -/
  ids : ∀ x, (t.buf.txStat x).vld = true ↔ (t.flight x).isSome = true ∨ x ∈ t.buf.rtrnIds
  back_none : ∀ x ∈ t.buf.rtrnIds, t.flight x = none
  nodup : t.buf.rtrnIds.Nodup
  dirtyLock : ∀ k, t.buf.dirtyLock = some k → dirty t.buf k = true
  txLock : ∀ x, t.buf.txLock = some x → txFree t.buf x = true
  /-- The buffer has the last value stored, a transaction the value of a byte that was not
  stored to since, and memory that of a byte that is not in the buffer. -/
  data : ∀ k b, (t.buf.wbuffer k).valid b = true →
    t.stored (t.buf.wbuffer k).wtag b = some ((t.buf.wbuffer k).data b)
  flight : ∀ x m, t.flight x = some m → m.paddr.toWtag = (t.buf.wbuffer (t.buf.txStat x).ptr).wtag ∧
    m.covers = (t.buf.txStat x).be ∧
    ∀ b, (t.buf.txStat x).be b = true → (t.buf.wbuffer (t.buf.txStat x).ptr).dirty b = false →
      m.wdata b = (t.buf.wbuffer (t.buf.txStat x).ptr).data b
  back : ∀ x ∈ t.buf.rtrnIds, ∀ b, (t.buf.txStat x).be b = true →
    (t.buf.wbuffer (t.buf.txStat x).ptr).dirty b = false →
      t.acked (t.buf.wbuffer (t.buf.txStat x).ptr).wtag b =
        some ((t.buf.wbuffer (t.buf.txStat x).ptr).data b)
  clean : ∀ w b, ¬Holds t.buf w b → t.acked w b = t.stored w b

theorem inv_reset : Inv (g := g) tracedReset where
  distinct k k' h := by simp [valid, tracedReset, reset, Entry.zero] at h
  byte _ _ := rfl
  block k b := by simp [tracedReset, reset, Entry.zero]
  slot x y h := by simp [tracedReset, reset] at h
  covers x h := by simp [tracedReset, reset] at h
  ids x := by simp [tracedReset, reset]
  back_none x h := by simp [tracedReset, reset] at h
  nodup := List.nodup_nil
  dirtyLock k h := by simp [tracedReset, reset] at h
  txLock x h := by simp [tracedReset, reset] at h
  data k b h := by simp [tracedReset, reset, Entry.zero] at h
  flight x m h := by simp [tracedReset] at h
  back x h := by simp [tracedReset, reset] at h
  clean _ _ _ := rfl

theorem valid_of_byte {s : Regs g} {k : Fin g.wbufDepth} {b : Fin 8}
    (h : (s.wbuffer k).valid b = true) : valid s k = true := by
  simpa [valid] using ⟨b, h⟩

/-- The entry a store goes to is the one of its word, or a free one if the word has none. -/
theorem wrPtr_spec {s : Regs g} {i : In g} (h : dataGntO s i = true) :
    (valid s (wrPtr s i) = true ∧ (s.wbuffer (wrPtr s i)).wtag = i.wtag) ∨
      (valid s (wrPtr s i) = false ∧ ∀ k, valid s k = true → (s.wbuffer k).wtag ≠ i.wtag) := by
  by_cases ha : any (hitOh s i) = true
  · have hw := lzc_spec (any_eq_true.1 ha)
    simp only [hitOh, Bool.and_eq_true, decide_eq_true_eq] at hw
    rw [wrPtr, if_pos ha]
    exact .inl hw
  · have hno : ∀ k, hitOh s i k = false := by simpa using ha
    have hfree : any (fun k => !valid s k) = true := by
      simp only [dataGntO, full, ha, Bool.and_eq_true, Bool.or_eq_true] at h
      simpa using h.1.2
    refine .inr ⟨?_, fun k hk he => ?_⟩
    · rw [wrPtr, if_neg ha]
      simpa using lzc_spec (any_eq_true.1 hfree)
    · simpa [hitOh, hk, he] using hno k

/-- A word keeps its entry. -/
theorem wtag_next {s : Regs g} {i : In g} {k : Fin g.wbufDepth} (hk : valid s k = true) :
    ((next s i).wbuffer k).wtag = (s.wbuffer k).wtag := by
  rw [next_wtag]
  by_cases hc : (dataGntO s i && k == wrPtr s i) = true
  · simp only [Bool.and_eq_true, beq_iff_eq] at hc
    obtain ⟨hg, rfl⟩ := hc
    rcases wrPtr_spec hg with h | h
    · simp [h.2]
    · simp [h.1] at hk
  · rw [if_neg hc]

/-- A slot after the edge is the one that was sent, or one from before. -/
theorem vld_cases {s : Regs g} {i : In g} {x : Fin g.maxTx} (hx : ((next s i).txStat x).vld = true) :
    (sends s i = true ∧ x = txId s i.pref ∧
      (next s i).txStat x = ⟨true, txBe s i.pref, dirtyPtr s i.pref⟩) ∨
    ((s.txStat x).vld = true ∧ ¬(evict s i.wrAck = true ∧ x = rtrnId s) ∧
      (next s i).txStat x = s.txStat x) := by
  change (nextTx s i x).vld = true at hx
  change _ ∨ _ ∧ _ ∧ nextTx s i x = _
  by_cases hc : (sends s i && x == txId s i.pref) = true
  · have hn : nextTx s i x = ⟨true, txBe s i.pref, dirtyPtr s i.pref⟩ := by rw [nextTx, if_pos hc]
    simp only [Bool.and_eq_true, beq_iff_eq] at hc
    exact .inl ⟨hc.1, hc.2, hn⟩
  by_cases he : (evict s i.wrAck && x == rtrnId s) = true
  · rw [nextTx, if_neg hc, if_pos he] at hx
    exact absurd hx Bool.false_ne_true
  · have hn : nextTx s i x = s.txStat x := by rw [nextTx, if_neg hc, if_neg he]
    exact .inr ⟨hn ▸ hx, by simpa using he, hn⟩

namespace Inv

variable {t : Traced g} {i : In g}

theorem txblock_of_slot (h : Inv t) {x : Fin g.maxTx} (hx : (t.buf.txStat x).vld = true) {b : Fin 8}
    (hb : (t.buf.txStat x).be b = true) : (t.buf.wbuffer (t.buf.txStat x).ptr).txblock b = true :=
  (h.block _ b).2 ⟨x, hx, rfl, hb⟩

theorem valid_of_slot (h : Inv t) {x : Fin g.maxTx} (hx : (t.buf.txStat x).vld = true) {b : Fin 8}
    (hb : (t.buf.txStat x).be b = true) : (t.buf.wbuffer (t.buf.txStat x).ptr).valid b = true := by
  simp [h.byte, h.txblock_of_slot hx hb]

theorem entry_of_slot (h : Inv t) {x : Fin g.maxTx} (hx : (t.buf.txStat x).vld = true) :
    valid t.buf (t.buf.txStat x).ptr = true := by
  obtain ⟨b, hb⟩ := h.covers x hx
  exact valid_of_byte (h.valid_of_slot hx hb)

/-- Two slots are for different words. -/
theorem slot_wtag (h : Inv t) {x y : Fin g.maxTx} (hx : (t.buf.txStat x).vld = true)
    (hy : (t.buf.txStat y).vld = true)
    (he : (t.buf.wbuffer (t.buf.txStat x).ptr).wtag = (t.buf.wbuffer (t.buf.txStat y).ptr).wtag) : x = y :=
  h.slot x y hx hy (h.distinct _ _ (h.entry_of_slot hx) (h.entry_of_slot hy) he)

/-! ### The choices of a cycle -/

/-- What is evicted is the slot that has returned first. -/
theorem evict_spec (h : Inv t) {a : Bool} (he : evict t.buf a = true) :
    t.buf.rtrnIds = rtrnId t.buf :: t.buf.rtrnIds.tail ∧ rtrnId t.buf ∈ t.buf.rtrnIds ∧
      (t.buf.txStat (rtrnId t.buf)).vld = true := by
  have hne : t.buf.rtrnIds ≠ [] := by
    intro hn
    simp [evict, returned, hn] at he
  have hhd : t.buf.rtrnIds = rtrnId t.buf :: t.buf.rtrnIds.tail := by
    cases hr : t.buf.rtrnIds with
    | nil => exact absurd hr hne
    | cons x xs => simp [rtrnId, hr]
  have hm : rtrnId t.buf ∈ t.buf.rtrnIds := by
    rw [hhd]
    exact List.mem_cons_self
  exact ⟨hhd, hm, (h.ids _).2 (.inr hm)⟩

/-- What memory acknowledges is not evicted yet. -/
theorem not_evicted (h : Inv t) {x : Fin g.maxTx} (hx : (t.flight x).isSome = true) :
    ¬(evict t.buf i.wrAck = true ∧ x = rtrnId t.buf) := by
  rintro ⟨he, rfl⟩
  simp [h.back_none _ (h.evict_spec he).2.1] at hx

theorem dirtyPtr_dirty (h : Inv t) (hd : (t.buf.dirtyLock.isSome || any (dirty t.buf)) = true) :
    dirty t.buf (dirtyPtr t.buf i.pref) = true := by
  unfold dirtyPtr
  cases hl : t.buf.dirtyLock with
  | none => exact rrArb_spec (by simpa [hl] using hd) _
  | some k => exact h.dirtyLock k hl

theorem txId_free (h : Inv t) (hd : (t.buf.txLock.isSome || any (txFree t.buf)) = true) :
    txFree t.buf (txId t.buf i.pref) = true := by
  unfold txId
  cases hl : t.buf.txLock with
  | none => exact rrArb_spec (by simpa [hl] using hd) _
  | some k => exact h.txLock k hl

/-- What is sent is dirty, none of its word is in flight, and the slot is free. -/
theorem send_spec (h : Inv t) (hs : sends t.buf i = true) :
    (∃ b, bdirty t.buf (dirtyPtr t.buf i.pref) b = true) ∧ txFree t.buf (txId t.buf i.pref) = true := by
  simp only [sends, missReqO, Bool.and_eq_true] at hs
  have hd := h.dirtyPtr_dirty (i := i) (by simp only [hs.1.1, Bool.or_true])
  exact ⟨by simpa [dirty] using hd, h.txId_free (by simp only [hs.1.2, Bool.or_true])⟩

theorem evicted_spec (h : Inv t) {k : Fin g.wbufDepth} {b : Fin 8} (he : evicted t.buf i k b = true) :
    rtrnId t.buf ∈ t.buf.rtrnIds ∧ (t.buf.txStat (rtrnId t.buf)).vld = true ∧
      (t.buf.txStat (rtrnId t.buf)).ptr = k ∧ (t.buf.txStat (rtrnId t.buf)).be b = true := by
  simp only [evicted, Bool.and_eq_true, beq_iff_eq] at he
  obtain ⟨-, hm, hv⟩ := h.evict_spec he.1.1
  exact ⟨hm, hv, he.1.2.symm, he.2⟩

theorem sent_spec (h : Inv t) {k : Fin g.wbufDepth} {b : Fin 8} (hs : sent t.buf i k b = true) :
    (t.buf.wbuffer k).dirty b = true ∧ ∀ c, (t.buf.wbuffer k).txblock c = false := by
  simp only [sent, Bool.and_eq_true, beq_iff_eq] at hs
  obtain ⟨⟨hsd, rfl⟩, hb⟩ := hs
  obtain ⟨c, hc⟩ := (h.send_spec hsd).1
  have hd := piece_le hc hb
  simp only [bdirty, Bool.and_eq_true, Bool.not_eq_true', any_eq_false] at hd
  exact ⟨hd.1.2, hd.1.1⟩

/-- A slot that is not evicted stays as it is. -/
theorem txStat_next (h : Inv t) {x : Fin g.maxTx} (hx : (t.buf.txStat x).vld = true)
    (he : ¬(evict t.buf i.wrAck = true ∧ x = rtrnId t.buf)) : (next t.buf i).txStat x = t.buf.txStat x := by
  have hn : ¬(sends t.buf i && x == txId t.buf i.pref) = true := by
    simp only [Bool.and_eq_true, beq_iff_eq]
    rintro ⟨hs, rfl⟩
    simpa [txFree, hx] using (h.send_spec hs).2
  have he' : ¬(evict t.buf i.wrAck && x == rtrnId t.buf) = true := by simpa using he
  simp only [next, nextTx, if_neg hn, if_neg he']

/-- A byte in flight is not sent again. -/
theorem not_sent_of_slot (h : Inv t) {x : Fin g.maxTx} (hx : (t.buf.txStat x).vld = true) {b : Fin 8}
    (c : Fin 8) (hb : (t.buf.txStat x).be b = true) : sent t.buf i (t.buf.txStat x).ptr c = false := by
  by_contra hs
  have := (h.sent_spec (by simpa using hs)).2 b
  rw [h.txblock_of_slot hx hb] at this
  exact absurd this (by decide)

/-! ### One edge -/

theorem next_byte (h : Inv t) (k : Fin g.wbufDepth) (b : Fin 8) :
    ((next t.buf i).wbuffer k).valid b =
      (((next t.buf i).wbuffer k).dirty b || ((next t.buf i).wbuffer k).txblock b) := by
  have hev : evicted t.buf i k b = true → (t.buf.wbuffer k).txblock b = true := fun he => by
    obtain ⟨-, hv, rfl, hb⟩ := h.evicted_spec he
    exact h.txblock_of_slot hv hb
  have hse : sent t.buf i k b = true → (t.buf.wbuffer k).dirty b = true := fun hs => (h.sent_spec hs).1
  simp only [next_bytes, h.byte k b]
  grind

theorem next_slot (h : Inv t) (x y : Fin g.maxTx) (hx : ((next t.buf i).txStat x).vld = true)
    (hy : ((next t.buf i).txStat y).vld = true)
    (he : ((next t.buf i).txStat x).ptr = ((next t.buf i).txStat y).ptr) : x = y := by
  -- an entry that is sent has no slot before
  have key : ∀ z, sends t.buf i = true → (t.buf.txStat z).vld = true →
      dirtyPtr t.buf i.pref ≠ (t.buf.txStat z).ptr := by
    intro z hs hz hp
    obtain ⟨⟨c, hc⟩, -⟩ := h.send_spec hs
    obtain ⟨b, hb⟩ := h.covers z hz
    have hno := h.not_sent_of_slot (i := i) hz (lzc (bdirty t.buf (dirtyPtr t.buf i.pref))) hb
    simp [sent, hs, hp, txBe_eq, piece_lzc (hp ▸ hc)] at hno
  rcases vld_cases hx with ⟨hs, hxe, hX⟩ | ⟨hvx, -, hX⟩ <;>
    rcases vld_cases hy with ⟨hs', hye, hY⟩ | ⟨hvy, -, hY⟩ <;> rw [hX, hY] at he
  · exact hxe.trans hye.symm
  · exact absurd he (key y hs hvy)
  · exact absurd he.symm (key x hs' hvx)
  · exact h.slot x y hvx hvy he

theorem next_block (h : Inv t) (k : Fin g.wbufDepth) (b : Fin 8) :
    ((next t.buf i).wbuffer k).txblock b = true ↔ ∃ x, ((next t.buf i).txStat x).vld = true ∧
      ((next t.buf i).txStat x).ptr = k ∧ ((next t.buf i).txStat x).be b = true := by
  simp only [next_bytes, Bool.or_eq_true, Bool.and_eq_true, Bool.not_eq_true']
  constructor
  · rintro (⟨hb, hne⟩ | hs)
    · obtain ⟨x, hx, rfl, hbe⟩ := (h.block k b).1 hb
      refine ⟨x, ?_⟩
      rw [h.txStat_next hx]
      · exact ⟨hx, rfl, hbe⟩
      · rintro ⟨he, rfl⟩
        simp [evicted, he, rtrnPtr, hbe] at hne
    · simp only [sent, Bool.and_eq_true, beq_iff_eq] at hs
      exact ⟨txId t.buf i.pref, by simp [next, nextTx, hs.1.1, hs.1.2, hs.2]⟩
  · rintro ⟨x, hx, hp, hbe⟩
    rcases vld_cases hx with ⟨hs, rfl, hX⟩ | ⟨hv, hne, hX⟩
    · rw [hX] at hp hbe
      subst hp
      exact .inr (by simpa [sent, hs] using hbe)
    · rw [hX] at hp hbe
      subst hp
      refine .inl ⟨h.txblock_of_slot hv hbe, ?_⟩
      by_contra he
      simp only [evicted, Bool.not_eq_false, Bool.and_eq_true, beq_iff_eq] at he
      exact hne ⟨he.1.1, h.slot _ _ hv (h.evict_spec he.1.1).2.2 he.1.2⟩

/-- A word that is stored to is in the entry the store goes to. -/
theorem wrPtr_eq (h : Inv t) (hg : dataGntO t.buf i = true) {k : Fin g.wbufDepth}
    (hk : valid t.buf k = true) (he : (t.buf.wbuffer k).wtag = i.wtag) : wrPtr t.buf i = k := by
  rcases wrPtr_spec hg with hw | hw
  · exact h.distinct _ _ hw.1 hk (hw.2.trans he.symm)
  · exact absurd he (hw.2 k hk)

theorem next_distinct (h : Inv t) (k k' : Fin g.wbufDepth) (hk : valid (next t.buf i) k = true)
    (hk' : valid (next t.buf i) k' = true)
    (he : ((next t.buf i).wbuffer k).wtag = ((next t.buf i).wbuffer k').wtag) : k = k' := by
  -- an entry is valid from before, or the store has just gone to it
  have key : ∀ j, valid (next t.buf i) j = true →
      valid t.buf j = true ∨ dataGntO t.buf i = true ∧ j = wrPtr t.buf i := by
    intro j hj
    obtain ⟨b, hb⟩ := any_eq_true.1 hj
    simp only [next_bytes, written, Bool.or_eq_true, Bool.and_eq_true, beq_iff_eq] at hb
    rcases hb with hb | hb
    · exact .inl (valid_of_byte hb.1)
    · exact .inr hb.1
  have hwr : ∀ j, valid t.buf j = true → dataGntO t.buf i = true →
      ((next t.buf i).wbuffer j).wtag = ((next t.buf i).wbuffer (wrPtr t.buf i)).wtag → wrPtr t.buf i = j := by
    intro j hj hg hw
    rw [wtag_next hj, next_wtag] at hw
    exact h.wrPtr_eq hg hj (by simpa [hg] using hw)
  rcases key k hk with hv | ⟨hg, rfl⟩ <;> rcases key k' hk' with hv' | ⟨hg', rfl⟩
  · rw [wtag_next hv, wtag_next hv'] at he
    exact h.distinct k k' hv hv' he
  · exact (hwr k hv hg' he).symm
  · exact hwr k' hv' hg he.symm
  · rfl

theorem next_covers (h : Inv t) (x : Fin g.maxTx) (hx : ((next t.buf i).txStat x).vld = true) :
    ∃ b, ((next t.buf i).txStat x).be b = true := by
  rcases vld_cases hx with ⟨hs, -, hX⟩ | ⟨hv, -, hX⟩ <;> rw [hX]
  · obtain ⟨⟨c, hc⟩, -⟩ := h.send_spec hs
    exact ⟨_, piece_lzc hc⟩
  · exact h.covers x hv

/-! ### Ids -/

/-- The FIFO has room for what memory acknowledges. -/
theorem rtrnIds_next (h : Inv t) (hok : AcksOutstanding t i) : (next t.buf i).rtrnIds =
    (if evict t.buf i.wrAck then t.buf.rtrnIds.tail else t.buf.rtrnIds) ++
      if i.rtrnVld then [i.rtrnId] else [] := by
  have hroom : i.rtrnVld = true → t.buf.rtrnIds.length < g.maxTx := by
    intro hr
    have hnew : i.rtrnId ∉ t.buf.rtrnIds := fun hm => by
      simpa [h.back_none _ hm] using hok hr
    have hlen := (List.nodup_cons.2 ⟨hnew, h.nodup⟩).length_le_card
    simp only [List.length_cons, Fintype.card_fin] at hlen
    omega
  by_cases hr : i.rtrnVld = true <;> simp [next, hr, hroom]

theorem mem_rtrnIds_next (h : Inv t) (hok : AcksOutstanding t i) (x : Fin g.maxTx) :
    x ∈ (next t.buf i).rtrnIds ↔
      x ∈ t.buf.rtrnIds ∧ ¬(evict t.buf i.wrAck = true ∧ x = rtrnId t.buf) ∨ i.rtrnVld = true ∧ x = i.rtrnId := by
  rw [h.rtrnIds_next hok, List.mem_append]
  refine or_congr ?_ (by by_cases hr : i.rtrnVld = true <;> simp [hr])
  by_cases he : evict t.buf i.wrAck = true
  · have hm := (h.evict_spec he).1
    have hn := h.nodup
    rw [hm, List.nodup_cons] at hn
    rw [if_pos he]
    constructor
    · intro hx
      exact ⟨List.mem_of_mem_tail hx, fun hc => hn.1 (hc.2 ▸ hx)⟩
    · rintro ⟨hx, hne⟩
      rw [hm, List.mem_cons] at hx
      exact hx.resolve_left fun hc => hne ⟨he, hc⟩
  · simp [he]

theorem next_nodup (h : Inv t) (hok : AcksOutstanding t i) : (next t.buf i).rtrnIds.Nodup := by
  rw [h.rtrnIds_next hok, List.nodup_append]
  have hsub : ∀ x, x ∈ (if evict t.buf i.wrAck then t.buf.rtrnIds.tail else t.buf.rtrnIds) →
      x ∈ t.buf.rtrnIds := by
    intro x hx
    split at hx
    · exact List.mem_of_mem_tail hx
    · exact hx
  refine ⟨?_, by split <;> simp, ?_⟩
  · split
    · exact h.nodup.tail
    · exact h.nodup
  · intro x hx y hy hxy
    by_cases hr : i.rtrnVld = true
    · simp only [hr, if_true, List.mem_singleton] at hy
      subst hxy hy
      simpa [h.back_none _ (hsub _ hx)] using hok hr
    · simp [hr] at hy

/-- The slots in use are in flight or wait to be evicted. -/
theorem next_ids (h : Inv t) (hok : AcksOutstanding t i) (x : Fin g.maxTx) :
    ((next t.buf i).txStat x).vld = true ↔ (t.flightD i x).isSome = true ∨ x ∈ (next t.buf i).rtrnIds := by
  rw [h.mem_rtrnIds_next hok]
  change (nextTx t.buf i x).vld = true ↔ _
  unfold nextTx Traced.flightD
  by_cases hc : (sends t.buf i && x == txId t.buf i.pref) = true
  · rw [if_pos hc, if_pos hc]
    simp
  rw [if_neg hc, if_neg hc]
  by_cases hr : (i.rtrnVld && x == i.rtrnId) = true
  · -- a slot that memory acknowledges is not the one that is evicted
    simp only [Bool.and_eq_true, beq_iff_eq] at hr
    obtain ⟨hv, rfl⟩ := hr
    have hfl := hok hv
    have hne : ¬(evict t.buf i.wrAck && i.rtrnId == rtrnId t.buf) = true := by
      simpa using h.not_evicted hfl
    rw [if_neg hne]
    simp [hv, (h.ids i.rtrnId).2 (.inl hfl)]
  rw [if_neg hr]
  have hr' : ¬(i.rtrnVld = true ∧ x = i.rtrnId) := by simpa using hr
  by_cases he : (evict t.buf i.wrAck && x == rtrnId t.buf) = true
  · simp only [Bool.and_eq_true, beq_iff_eq] at he
    obtain ⟨hev, rfl⟩ := he
    simp [hev, h.back_none _ (h.evict_spec hev).2.1, hr']
  · have he' : ¬(evict t.buf i.wrAck = true ∧ x = rtrnId t.buf) := by simpa using he
    simp [he', hr', h.ids x]

theorem next_back_none (h : Inv t) (hok : AcksOutstanding t i) (x : Fin g.maxTx)
    (hx : x ∈ (next t.buf i).rtrnIds) : t.flightD i x = none := by
  have hv : (t.buf.txStat x).vld = true := by
    rcases (h.mem_rtrnIds_next hok x).1 hx with hm | ⟨hr, rfl⟩
    · exact (h.ids x).2 (.inr hm.1)
    · exact (h.ids _).2 (.inl (hok hr))
  have hns : ¬(sends t.buf i && x == txId t.buf i.pref) = true := by
    simp only [Bool.and_eq_true, beq_iff_eq]
    rintro ⟨hs, rfl⟩
    simpa [txFree, hv] using (h.send_spec hs).2
  rw [Traced.flightD, if_neg hns]
  rcases (h.mem_rtrnIds_next hok x).1 hx with hm | hr
  · simp [h.back_none x hm.1]
  · simp [hr.1, hr.2]

theorem next_dirtyLock (h : Inv t) (k : Fin g.wbufDepth) (hk : (next t.buf i).dirtyLock = some k) :
    dirty (next t.buf i) k = true := by
  simp only [next] at hk
  split at hk
  · rename_i hc
    simp only [Option.some.injEq] at hk
    subst hk
    simp only [Bool.and_eq_true, Bool.not_eq_true'] at hc
    obtain ⟨hd, hns⟩ := hc
    obtain ⟨b, hb⟩ := any_eq_true.1 (h.dirtyPtr_dirty (i := i) hd)
    simp only [bdirty, Bool.and_eq_true, Bool.not_eq_true', any_eq_false] at hb
    refine any_eq_true.2 ⟨b, ?_⟩
    simp [bdirty, next_bytes, sent, hns, hb.1.1, hb.1.2, hb.2]
  · exact absurd hk (by simp)

theorem next_txLock (h : Inv t) (x : Fin g.maxTx) (hx : (next t.buf i).txLock = some x) :
    txFree (next t.buf i) x = true := by
  simp only [next] at hx
  split at hx
  · rename_i hc
    simp only [Option.some.injEq] at hx
    subst hx
    simp only [Bool.and_eq_true, Bool.not_eq_true'] at hc
    have hf := h.txId_free (i := i) hc.1
    by_contra hv
    rcases vld_cases (by simpa [txFree] using hv) with hs | hs
    · simp [hc.2] at hs
    · simp [txFree, hs.1] at hf
  · exact absurd hx (by simp)

/-! ### Values -/

theorem next_data (h : Inv t) (k : Fin g.wbufDepth) (b : Fin 8) (hb : ((next t.buf i).wbuffer k).valid b = true) :
    t.storedD i ((next t.buf i).wbuffer k).wtag b = some (((next t.buf i).wbuffer k).data b) := by
  rw [(next_bytes t.buf i k b).1]
  by_cases hw : written t.buf i k b = true
  · rw [if_pos hw]
    simp only [written, Bool.and_eq_true, beq_iff_eq] at hw
    simp [Traced.storedD, next_wtag, hw]
  · have hv : (t.buf.wbuffer k).valid b = true := by
      simp only [next_bytes, hw, Bool.or_false, Bool.and_eq_true] at hb
      exact hb.1
    have hno : ¬(dataGntO t.buf i && (t.buf.wbuffer k).wtag == i.wtag && i.dataBe b) = true := by
      simp only [Bool.and_eq_true, beq_iff_eq]
      rintro ⟨⟨hg, he⟩, hbe⟩
      exact hw (by simp [written, hg, h.wrPtr_eq hg (valid_of_byte hv) he, hbe])
    rw [if_neg hw, wtag_next (valid_of_byte hv), Traced.storedD, if_neg hno]
    exact h.data k b hv

/-- The transaction the buffer asks for carries its bytes, each on its own lane. -/
theorem msg_spec (h : Inv t) (hs : sends t.buf i = true) :
    (msg t.buf i.pref).covers = txBe t.buf i.pref ∧ ∀ b, txBe t.buf i.pref b = true →
      (msg t.buf i.pref).wdata b = (t.buf.wbuffer (dirtyPtr t.buf i.pref)).data b := by
  obtain ⟨hd, -⟩ := h.send_spec hs
  refine ⟨funext fun b => (tx_lane _ hd b).1, fun b hb => ?_⟩
  exact congrArg (t.buf.wbuffer (dirtyPtr t.buf i.pref)).data ((tx_lane _ hd b).2 hb).2

/-- A byte in flight that is clean after the edge was clean and has kept its value. -/
theorem clean_of_slot (h : Inv t) {x : Fin g.maxTx} (hx : (t.buf.txStat x).vld = true) {b : Fin 8}
    (hb : (t.buf.txStat x).be b = true)
    (hd : ((next t.buf i).wbuffer (t.buf.txStat x).ptr).dirty b = false) :
    (t.buf.wbuffer (t.buf.txStat x).ptr).dirty b = false ∧
      ((next t.buf i).wbuffer (t.buf.txStat x).ptr).data b = (t.buf.wbuffer (t.buf.txStat x).ptr).data b := by
  simp only [next_bytes, h.not_sent_of_slot hx b hb, Bool.not_false, Bool.and_true,
    Bool.or_eq_false_iff] at hd ⊢
  simp [hd]

theorem next_flight (h : Inv t) (x : Fin g.maxTx) (m : Msg g) (hm : t.flightD i x = some m) :
    m.paddr.toWtag = ((next t.buf i).wbuffer ((next t.buf i).txStat x).ptr).wtag ∧
      m.covers = ((next t.buf i).txStat x).be ∧
      ∀ b, ((next t.buf i).txStat x).be b = true →
        ((next t.buf i).wbuffer ((next t.buf i).txStat x).ptr).dirty b = false →
        m.wdata b = ((next t.buf i).wbuffer ((next t.buf i).txStat x).ptr).data b := by
  unfold Traced.flightD at hm
  by_cases hc : (sends t.buf i && x == txId t.buf i.pref) = true
  · rw [if_pos hc, Option.some.injEq] at hm
    subst hm
    have hX : (next t.buf i).txStat x = ⟨true, txBe t.buf i.pref, dirtyPtr t.buf i.pref⟩ := by
      change nextTx t.buf i x = _
      rw [nextTx, if_pos hc]
    simp only [Bool.and_eq_true] at hc
    obtain ⟨hcov, hdat⟩ := h.msg_spec hc.1
    obtain ⟨⟨c, hcd⟩, -⟩ := h.send_spec hc.1
    simp only [bdirty, Bool.and_eq_true] at hcd
    rw [hX, wtag_next (valid_of_byte hcd.2)]
    refine ⟨rfl, hcov, fun b hb hd => ?_⟩
    rw [hdat b hb]
    simp only [next_bytes, Bool.or_eq_false_iff] at hd ⊢
    simp [hd.2]
  · rw [if_neg hc] at hm
    split at hm
    · exact absurd hm (by simp)
    have hf : (t.flight x).isSome = true := by rw [hm]; rfl
    have hv := (h.ids x).2 (.inl hf)
    obtain ⟨h1, h2, h3⟩ := h.flight x m hm
    rw [h.txStat_next hv (h.not_evicted hf), wtag_next (h.entry_of_slot hv)]
    refine ⟨h1, h2, fun b hb hd => ?_⟩
    obtain ⟨hd', hdat⟩ := h.clean_of_slot hv hb hd
    rw [hdat]
    exact h3 b hb hd'

/-- Memory acknowledges no byte of a word whose transaction has returned, and none that is
not in the buffer. -/
theorem ackedD_eq (h : Inv t) (w : Wtag g) (b : Fin 8)
    (hw : (∃ x ∈ t.buf.rtrnIds, (t.buf.wbuffer (t.buf.txStat x).ptr).wtag = w) ∨ ¬Holds t.buf w b) :
    t.ackedD i w b = t.acked w b := by
  unfold Traced.ackedD
  split
  · rename_i m hm
    refine if_neg ?_
    rintro ⟨rfl, hb⟩
    simp only [Traced.acks] at hm
    split at hm
    · obtain ⟨h1, h2, -⟩ := h.flight _ m hm
      have hv := (h.ids i.rtrnId).2 (.inl (by rw [hm]; rfl))
      rcases hw with ⟨x, hx, he⟩ | hn
      · have := h.slot_wtag ((h.ids x).2 (.inr hx)) hv (he.trans h1)
        subst this
        simp [h.back_none _ hx] at hm
      · exact hn ⟨_, h1.symm, h.valid_of_slot hv (h2 ▸ hb)⟩
    · exact absurd hm (by simp)
  · rfl

theorem next_back (h : Inv t) (hok : AcksOutstanding t i) (x : Fin g.maxTx)
    (hx : x ∈ (next t.buf i).rtrnIds) (b : Fin 8) (hb : ((next t.buf i).txStat x).be b = true)
    (hd : ((next t.buf i).wbuffer ((next t.buf i).txStat x).ptr).dirty b = false) :
    t.ackedD i ((next t.buf i).wbuffer ((next t.buf i).txStat x).ptr).wtag b =
      some (((next t.buf i).wbuffer ((next t.buf i).txStat x).ptr).data b) := by
  have hstay : (t.buf.txStat x).vld = true ∧ ¬(evict t.buf i.wrAck = true ∧ x = rtrnId t.buf) := by
    rcases (h.mem_rtrnIds_next hok x).1 hx with hm | ⟨hr, rfl⟩
    · exact ⟨(h.ids x).2 (.inr hm.1), hm.2⟩
    · exact ⟨(h.ids _).2 (.inl (hok hr)), h.not_evicted (hok hr)⟩
  obtain ⟨hv, hne⟩ := hstay
  rw [h.txStat_next hv hne] at hb hd ⊢
  obtain ⟨hd', hdat⟩ := h.clean_of_slot hv hb hd
  rw [wtag_next (h.entry_of_slot hv), hdat]
  rcases (h.mem_rtrnIds_next hok x).1 hx with hm | ⟨hr, rfl⟩
  · rw [h.ackedD_eq _ b (.inl ⟨x, hm.1, rfl⟩)]
    exact h.back x hm.1 b hb hd'
  · obtain ⟨m, hm⟩ := Option.isSome_iff_exists.1 (hok hr)
    obtain ⟨h1, h2, h3⟩ := h.flight _ m hm
    simp [Traced.ackedD, Traced.acks, hr, hm, h1, h2, hb, h3 b hb hd']

/-- What leaves the buffer is in memory, with its last value. -/
theorem next_clean (h : Inv t) (w : Wtag g) (b : Fin 8) (hn : ¬Holds (next t.buf i) w b) :
    t.ackedD i w b = t.storedD i w b := by
  have hst : t.storedD i w b = t.stored w b := by
    refine if_neg fun hc => hn ?_
    simp only [Bool.and_eq_true, beq_iff_eq] at hc
    obtain ⟨⟨hg, rfl⟩, hbe⟩ := hc
    exact ⟨wrPtr t.buf i, by simp [hg], by simp [next_bytes, written, hg, hbe]⟩
  rw [hst]
  by_cases hold : Holds t.buf w b
  · obtain ⟨k, rfl, hv⟩ := hold
    have hgone : ((next t.buf i).wbuffer k).valid b = false := by
      by_contra hc
      exact hn ⟨k, wtag_next (valid_of_byte hv), Bool.eq_true_of_not_eq_false hc⟩
    simp only [next_bytes, hv, Bool.true_and, Bool.or_eq_false_iff, Bool.not_eq_false',
      Bool.and_eq_true, Bool.not_eq_true'] at hgone
    obtain ⟨hm, -, rfl, hb⟩ := h.evicted_spec hgone.1.1
    rw [h.ackedD_eq _ b (.inl ⟨_, hm, rfl⟩), h.data _ b hv]
    exact h.back _ hm b hb hgone.1.2
  · rw [h.ackedD_eq w b (.inr hold)]
    exact h.clean w b hold

theorem next_inv (h : Inv t) (hok : AcksOutstanding t i) : Inv (t.next i) where
  distinct := h.next_distinct
  byte := h.next_byte
  block := h.next_block
  slot := h.next_slot
  covers := h.next_covers
  ids := h.next_ids hok
  back_none := h.next_back_none hok
  nodup := h.next_nodup hok
  dirtyLock := h.next_dirtyLock
  txLock := h.next_txLock
  data := h.next_data
  flight := h.next_flight
  back := h.next_back hok
  clean := h.next_clean

end Inv

/-! ### Whole runs -/

/-- The bookkeeping of a state. -/
structure Booked (t : Traced g) : Prop where
  byte : ∀ k b, ((t.buf.wbuffer k).valid b, (t.buf.wbuffer k).dirty b, (t.buf.wbuffer k).txblock b) ∈
    [(false, false, false), (true, true, false), (true, false, true), (true, true, true)]
  word : ∀ k k', valid t.buf k = true → valid t.buf k' = true →
    (t.buf.wbuffer k).wtag = (t.buf.wbuffer k').wtag → k = k'
  block : ∀ k b, (t.buf.wbuffer k).txblock b = true ↔
    ∃! x, (t.buf.txStat x).vld = true ∧ (t.buf.txStat x).ptr = k ∧ (t.buf.txStat x).be b = true
  flight : ∀ x y m n, t.flight x = some m → t.flight y = some n → m.paddr.toWtag = n.paddr.toWtag → x = y
  slot : ∀ x y, (t.buf.txStat x).vld = true → (t.buf.txStat y).vld = true →
    (t.buf.wbuffer (t.buf.txStat x).ptr).wtag = (t.buf.wbuffer (t.buf.txStat y).ptr).wtag → x = y
  empty : emptyO t.buf = true → ∀ w b, t.acked w b = t.stored w b

/-- A transaction covers dirty bytes of its word, those of its slot, and carries the values
stored to them: the address is aligned to the size, and every lane of the data has the byte
at its place in the transaction. -/
structure Transmits (t : Traced g) (i : In g) : Prop where
  covers : (msg t.buf i.pref).covers = piece (bdirty t.buf (dirtyPtr t.buf i.pref))
  slot : t.flightD i (txId t.buf i.pref) = some (msg t.buf i.pref) ∧
    (next t.buf i).txStat (txId t.buf i.pref) = ⟨true, (msg t.buf i.pref).covers, dirtyPtr t.buf i.pref⟩
  some : ∃ b, (msg t.buf i.pref).covers b = true
  word : (msg t.buf i.pref).paddr.toWtag = (t.buf.wbuffer (dirtyPtr t.buf i.pref)).wtag
  dirty : ∀ b, (msg t.buf i.pref).covers b = true →
    (t.buf.wbuffer (dirtyPtr t.buf i.pref)).dirty b = true ∧
    (t.buf.wbuffer (dirtyPtr t.buf i.pref)).txblock b = false ∧
    t.stored (msg t.buf i.pref).paddr.toWtag b = Option.some ((msg t.buf i.pref).wdata b)
  aligned : (msg t.buf i.pref).paddr.byte.val % 2 ^ (msg t.buf i.pref).size.toNat = 0
  replicated : ∀ k, ∃ b, (msg t.buf i.pref).covers b = true ∧
    b.val % 2 ^ (msg t.buf i.pref).size.toNat = k.val % 2 ^ (msg t.buf i.pref).size.toNat ∧
    (msg t.buf i.pref).wdata k = (msg t.buf i.pref).wdata b

/-- The last value of a byte that leaves the buffer, stored and acknowledged. -/
def LeavesAcked (t : Traced g) (i : In g) : Prop :=
  ∀ w b, Holds t.buf w b → ¬Holds (t.next i).buf w b →
    ∃ v, (t.next i).stored w b = some v ∧ (t.next i).acked w b = some v

theorem Inv.booked {t : Traced g} (h : Inv t) : Booked t where
  byte k b := by
    rw [h.byte k b]
    generalize (t.buf.wbuffer k).dirty b = d, (t.buf.wbuffer k).txblock b = x
    revert d x
    decide
  word := h.distinct
  block k b := by
    rw [h.block k b]
    refine ⟨fun ⟨x, hx⟩ => ⟨x, hx, fun y hy => ?_⟩, fun ⟨x, hx, _⟩ => ⟨x, hx⟩⟩
    exact h.slot y x hy.1 hx.1 (hy.2.1.trans hx.2.1.symm)
  flight x y m n hm hn he := by
    have hx := (h.ids x).2 (.inl (by rw [hm]; rfl))
    have hy := (h.ids y).2 (.inl (by rw [hn]; rfl))
    exact h.slot_wtag hx hy ((h.flight x m hm).1.symm.trans (he.trans (h.flight y n hn).1))
  slot x y hx hy he := h.slot_wtag hx hy he
  empty he w b := by
    refine h.clean w b ?_
    rintro ⟨k, -, hk⟩
    simp only [emptyO, Bool.not_eq_true', any_eq_false] at he
    exact absurd (valid_of_byte hk) (by simp [he k])

/-- The first byte of a mask is where its transaction starts. -/
theorem lzc_aligned {m : Mask} {b : Fin 8} (hb : m b = true) : (lzc m).val % 2 ^ (toSize64 m).toNat = 0 := by
  rcases toSize64_cases m with ⟨c, hc, rfl⟩ | hs
  · clear hb
    revert c
    decide
  · simp [hs, Nat.mod_one]

theorem Inv.transmits {t : Traced g} {i : In g} (h : Inv t) (hs : sends t.buf i = true) : Transmits t i := by
  obtain ⟨hcov, hdat⟩ := h.msg_spec hs
  obtain ⟨⟨c, hc⟩, -⟩ := h.send_spec hs
  refine ⟨hcov, ⟨by simp [Traced.flightD, hs], by simp [next, nextTx, hs, hcov]⟩,
    ⟨_, (congrFun hcov _).trans (piece_lzc hc)⟩, rfl, fun b hb => ?_, lzc_aligned hc, fun k => ?_⟩
  · rw [hcov] at hb
    have hsent : sent t.buf i (dirtyPtr t.buf i.pref) b = true := by simp [sent, hs, hb]
    obtain ⟨hd, hx⟩ := h.sent_spec hsent
    refine ⟨hd, hx b, ?_⟩
    rw [hdat b hb]
    exact h.data _ b (by simp [h.byte, hd])
  · obtain ⟨hp, hm⟩ := repLane_piece hc k
    refine ⟨_, by rw [hcov]; exact hp, hm, ?_⟩
    rw [hdat _ hp]
    rfl

theorem Inv.leavesAcked {t : Traced g} {i : In g} (h : Inv t) (hok : AcksOutstanding t i) :
    LeavesAcked t i := by
  rintro w b ⟨k, rfl, hv⟩ hn
  have hst : (t.next i).stored (t.buf.wbuffer k).wtag b = some ((t.buf.wbuffer k).data b) := by
    rw [← h.data k b hv]
    refine if_neg fun hc => hn ?_
    simp only [Bool.and_eq_true, beq_iff_eq] at hc
    obtain ⟨⟨hg, he⟩, hbe⟩ := hc
    exact ⟨wrPtr t.buf i, by simp [Traced.next, hg, he], by simp [Traced.next, written, hg, hbe]⟩
  exact ⟨_, hst, ((h.next_inv hok).clean _ b hn).trans hst⟩

/-- **Write-buffer bookkeeping.** Whatever the core stores and whenever memory answers, every
state of the buffer is booked, every transaction is exact, a byte leaves with the value memory
has acknowledged, and the transactions for a mask have each of its bytes once. -/
theorem wbuffer_booked (t₀ : Traced g) (h0 : (traced g).init t₀) (is : List (In g))
    (h : (traced g).Steps AcksOutstanding t₀ is) :
    (traced g).Always Booked t₀ is ∧
      (traced g).Steps (fun t i => (sends t.buf i = true → Transmits t i) ∧ LeavesAcked t i) t₀ is ∧
      ∀ m b, (split m).countP (· b) = if m b then 1 else 0 := by
  have hinv : Inv t₀ := by
    rw [show t₀ = _ from h0]
    exact inv_reset
  have step : ∀ t i, Inv t → AcksOutstanding t i → Inv ((traced g).next t i) :=
    fun t i ht hok => ht.next_inv hok
  refine ⟨(Machine.always_of_steps step is t₀ hinv h).mono fun t ht => ht.booked, ?_, split_exact⟩
  exact Machine.steps_of_inv step (fun t i ht hok => ⟨ht.transmits, ht.leavesAcked hok⟩) is t₀ hinv h

/-- A word is stored, sent and acknowledged. -/
def storeOnce : List (In arianeGeom) :=
  let idle : In arianeGeom :=
    { cacheEn := true, dataReq := false, wtag := ⟨⟨0x80000, 0⟩, 0⟩, dataBe := lanes 0b11110000, dataWdata := fun _ => 7
      missAck := false, rtrnVld := false, rtrnId := 0, rdAck := false, rdHitOh := fun _ => false
      wrClVld := false, wrClIdx := 0, wrAck := false, pref := ⟨0, 0, 0⟩ }
  [{ idle with dataReq := true }, { idle with missAck := true }, { idle with rtrnVld := true }, idle]

theorem wbuffer_booked_store : (traced arianeGeom).Steps AcksOutstanding tracedReset storeOnce ∧
    (traced arianeGeom).Always Booked tracedReset storeOnce :=
  have h : (traced arianeGeom).Steps AcksOutstanding tracedReset storeOnce := by decide +kernel
  ⟨h, (wbuffer_booked _ rfl storeOnce h).1⟩

end Wbuffer
end Dcache
end Ariane

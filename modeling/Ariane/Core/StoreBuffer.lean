/-
# The store buffer

`src/store_buffer.sv`: a speculative queue for stores that have executed, and a
commit queue for those that have retired. Both are rings with a read pointer, a
write pointer and a count; the depths are powers of two, and the pointers wrap. A
retired store goes to the data cache from the read pointer of the commit queue, when
the cache grants it.

As long as the core keeps to what the module asserts, each queue is a list
(`Queue.Holds`), and the buffer is two lists: the stores accepted and not yet
retired, which a flush drops (`waiting`), and those retired and not yet granted
(`retired_eq_granted_append`). The address checker for loads looks at every valid
slot of both queues (`Queue.Holds.hasWord_iff`).
-/
import Mathlib.Data.BitVec
import Mathlib.Data.List.FinRange
import Mathlib.Logic.Function.Basic
import Ariane.Lib.Machine
import Ariane.Lib.Ring

namespace Ariane
namespace StoreBuffer

/-! ### Queues -/

/-- What an entry of a queue holds. -/
structure Store where
  address : BitVec 64
  data : BitVec 64
  be : BitVec 8
  dataSize : BitVec 2
deriving DecidableEq, Repr

structure Entry extends Store where
  valid : Bool
deriving DecidableEq, Repr

/-- A queue of depth `2 ^ w`. -/
structure Queue (w : ℕ) where
  mem : BitVec w → Entry
  readPtr : BitVec w
  writePtr : BitVec w
  cnt : BitVec (w + 1)

variable {w : ℕ}

/-- The entry at the read pointer. -/
def Queue.head (q : Queue w) : Entry := q.mem q.readPtr

/-- An entry at the write pointer. -/
def Queue.push (q : Queue w) (e : Entry) : Queue w where
  mem := Function.update q.mem q.writePtr e
  readPtr := q.readPtr
  writePtr := q.writePtr + 1
  cnt := q.cnt + 1

/-- The entry at the read pointer is invalid from now on. -/
def Queue.pop (q : Queue w) : Queue w where
  mem := Function.update q.mem q.readPtr { q.head with valid := false }
  readPtr := q.readPtr + 1
  writePtr := q.writePtr
  cnt := q.cnt - 1

def Queue.reset : Queue w := ⟨fun _ => ⟨⟨0, 0, 0, 0⟩, false⟩, 0, 0, 0⟩

/-! ### The buffer -/

/-- The two queues; the depth of the commit queue depends on the cache. -/
structure Regs (w : ℕ) where
  spec : Queue 2
  commit : Queue w

def reset : Regs w := ⟨Queue.reset, Queue.reset⟩

/-- The inputs of a cycle; `gnt` is the data cache's grant. -/
structure In where
  flush : Bool
  commit : Bool
  valid : Bool
  store : Store
  gnt : Bool

/-- `ready_o`. -/
def readyO (s : Regs w) (i : In) : Bool := s.spec.cnt < 3 || i.commit

/-- `commit_ready_o`. -/
def commitReadyO (s : Regs w) : Bool := s.commit.cnt.toNat < 2 ^ w

/-- `no_st_pending_o`. -/
def noStPendingO (s : Regs w) : Bool := s.commit.cnt == 0

/-- `req_port_o.data_req`: the request to the cache is the head of the commit queue. -/
def dataReqO (s : Regs w) : Bool := s.commit.head.valid

/-- A request on the write port of the cache: the index and the tag are 56 bits. -/
structure Req where
  address : BitVec 56
  dataWdata : BitVec 64
  dataBe : BitVec 8
  dataSize : BitVec 2
deriving DecidableEq, Repr

def Store.req (st : Store) : Req := ⟨st.address.setWidth 56, st.data, st.be, st.dataSize⟩

/-- `req_port_o`. -/
def reqPortO (s : Regs w) : Req := s.commit.head.req

/-- `core_if`. -/
def coreIf (s : Regs w) (i : In) : Queue 2 :=
  let q := if i.valid then s.spec.push ⟨i.store, true⟩ else s.spec
  let q := if i.commit then q.pop else q
  if i.flush then
    { q with mem := fun k => { q.mem k with valid := false }, writePtr := s.spec.readPtr, cnt := 0 }
  else q

/-- `store_if`. -/
def storeIf (s : Regs w) (i : In) : Queue w :=
  let q := if s.commit.head.valid && i.gnt then s.commit.pop else s.commit
  if i.commit then q.push s.spec.head else q

def next (s : Regs w) (i : In) : Regs w := ⟨coreIf s i, storeIf s i⟩

/-- The bits `[11:3]` of an address: the word within its page. -/
def word (a : BitVec 64) : BitVec 9 := a.extractLsb' 3 9

/-- A valid entry is for the word. -/
def Queue.hasWord (q : Queue w) (o : BitVec 9) : Bool :=
  (List.finRange (2 ^ w)).any fun k =>
    word (q.mem (BitVec.ofFin k)).address == o && (q.mem (BitVec.ofFin k)).valid

/-- `page_offset_matches_o` for a load from `vaddr`: the last disjunct is the store that is
being put into the queue. -/
def pageOffsetMatchesO (s : Regs w) (validWithoutFlush : Bool) (paddr vaddr : BitVec 64) : Bool :=
  s.commit.hasWord (word vaddr) || s.spec.hasWord (word vaddr) ||
    word vaddr == word paddr && validWithoutFlush

/-! ### Valid entries -/

theorem Queue.valid_of_pop {q : Queue w} {k : BitVec w} (h : (q.pop.mem k).valid = true) :
    (q.mem k).valid = true := by
  unfold Queue.pop at h
  by_cases hk : k = q.readPtr
  · simp [hk] at h
  · simpa [hk] using h

theorem Queue.push_mem_of_ne {q : Queue w} {k : BitVec w} (hk : k ≠ q.writePtr) (e : Entry) :
    (q.push e).mem k = q.mem k := by
  simp [Queue.push, hk]

/-- An entry of the commit queue is valid after a cycle only if it was before, or came
from the speculative queue. -/
theorem valid_of_storeIf {s : Regs w} {i : In} {k : BitVec w}
    (h : ((storeIf s i).mem k).valid = true) :
    i.commit = true ∧ k = s.commit.writePtr ∨ (s.commit.mem k).valid = true := by
  unfold storeIf at h
  generalize hq : (if s.commit.head.valid && i.gnt then s.commit.pop else s.commit) = q at h
  have hptr : q.writePtr = s.commit.writePtr := by
    rw [← hq]
    split <;> rfl
  have hold (h : (q.mem k).valid = true) : (s.commit.mem k).valid = true := by
    rw [← hq] at h
    split at h
    · exact Queue.valid_of_pop h
    · exact h
  dsimp only at h
  split at h
  · rename_i hc
    by_cases hk : k = q.writePtr
    · exact .inl ⟨hc, hk.trans hptr⟩
    · rw [Queue.push_mem_of_ne hk] at h
      exact .inr (hold h)
  · exact .inr (hold h)

/-! ### A queue is a list -/

open Lib (Machine)

/-- The queue holds the stores `l`, oldest first, and no other slot is valid. -/
structure Queue.Holds (q : Queue w) (l : List Store) : Prop where
  cnt : q.cnt.toNat = l.length
  writePtr : q.writePtr = q.readPtr + BitVec.ofNat w l.length
  ring : Lib.Ring.Holds (fun e => e.valid = false) q.mem q.readPtr (l.map (⟨·, true⟩))

theorem Queue.Holds.le {q : Queue w} {l : List Store} (h : q.Holds l) : l.length ≤ 2 ^ w := by
  simpa using h.ring.le

/-- No slot valid, the pointers equal: whatever the slots held is gone. -/
theorem Queue.holds_nil {q : Queue w} (hcnt : q.cnt = 0) (hptr : q.writePtr = q.readPtr)
    (hmem : ∀ k, (q.mem k).valid = false) : q.Holds [] where
  cnt := by simp [hcnt]
  writePtr := by simp [hptr]
  ring := Lib.Ring.Holds.nil hmem _

theorem Queue.holds_reset : (Queue.reset : Queue w).Holds [] :=
  Queue.holds_nil rfl rfl fun _ => rfl

theorem Queue.Holds.cnt_eq_zero {q : Queue w} {l : List Store} (h : q.Holds l) :
    q.cnt = 0 ↔ l = [] := by
  rw [← List.length_eq_zero_iff, ← h.cnt, BitVec.toNat_eq]
  simp

/-- The oldest store is at the read pointer. -/
theorem Queue.Holds.head_cons {q : Queue w} {st : Store} {l : List Store} (h : q.Holds (st :: l)) :
    q.head = ⟨st, true⟩ :=
  h.ring.head

theorem Queue.Holds.head_valid {q : Queue w} {l : List Store} (h : q.Holds l) :
    q.head.valid = true ↔ l ≠ [] := by
  cases l with
  | nil => simpa [Queue.head] using h.ring.rest q.readPtr (Nat.zero_le _)
  | cons st l => simp [h.head_cons]

theorem Queue.Holds.push {q : Queue w} {l : List Store} (h : q.Holds l) (hlt : l.length < 2 ^ w)
    (st : Store) : (q.push ⟨st, true⟩).Holds (l ++ [st]) where
  cnt := by
    have hc : (q.cnt + 1).toNat = q.cnt.toNat + 1 := by
      have hone : (1 : BitVec (w + 1)).toNat = 1 := by simp
      have hpow : 2 ^ (w + 1) = 2 * 2 ^ w := Nat.pow_succ'
      rw [BitVec.toNat_add, h.cnt, hone, Nat.mod_eq_of_lt (by omega)]
    rw [Queue.push, hc, h.cnt, List.length_append, List.length_singleton]
  writePtr := by
    rw [Queue.push, h.writePtr, List.length_append, List.length_singleton, BitVec.ofNat_add,
      ← BitVec.add_assoc]
    rfl
  ring := by
    have hr := h.ring.push (by simpa using hlt) ⟨st, true⟩
    rw [List.length_map, ← h.writePtr] at hr
    rw [List.map_append]
    exact hr

theorem Queue.Holds.pop {q : Queue w} {st : Store} {l : List Store} (h : q.Holds (st :: l)) :
    q.pop.Holds l where
  cnt := by
    have hc := h.cnt
    have hone : (1 : BitVec (w + 1)).toNat = 1 := by simp
    rw [List.length_cons] at hc
    rw [Queue.pop, BitVec.toNat_sub_of_le (by rw [BitVec.le_def]; omega), hc, hone]
    omega
  writePtr := by
    rw [Queue.pop, h.writePtr, List.length_cons, Lib.Ring.slot_succ]
  ring := h.ring.pop rfl

/-- The stores the queue holds are those a load is compared with. -/
theorem Queue.Holds.hasWord_iff {q : Queue w} {l : List Store} (h : q.Holds l) (o : BitVec 9) :
    q.hasWord o = true ↔ ∃ st ∈ l, word st.address = o := by
  simp only [Queue.hasWord, List.any_eq_true, List.mem_finRange, true_and, Bool.and_eq_true, beq_iff_eq]
  constructor
  · rintro ⟨k, ho, hv⟩
    set k' : BitVec w := BitVec.ofFin k
    have hlt := h.ring.lt_of_not_dead (k := k') (by simp [hv])
    have hget := h.ring.getElem hlt
    rw [Lib.Ring.slot_of_toNat_sub, List.getElem_map] at hget
    rw [List.length_map] at hlt
    exact ⟨l[(k' - q.readPtr).toNat], List.getElem_mem hlt, by rw [← ho, hget]⟩
  · rintro ⟨st, hst, ho⟩
    obtain ⟨i, hi, rfl⟩ := List.getElem_of_mem hst
    have hget := h.ring.getElem (i := i) (by simpa using hi)
    rw [List.getElem_map] at hget
    refine ⟨(q.readPtr + BitVec.ofNat w i).toFin, ?_, ?_⟩
    · rw [BitVec.ofFin_toFin, hget, ← ho]
    · rw [BitVec.ofFin_toFin, hget]

/-! ### The buffer is two lists -/

/-- The buffer, with `ready_o` of the cycle before. -/
def machine : Machine (Regs w × Bool) In where
  init s := s = (reset, true)
  next s i := (next s.1 i, readyO s.1 i)

/-- What the module asserts of its inputs: a store retires only from a non-empty
speculative queue into a commit queue that is ready, and not in a flush; a store comes
only after a cycle that was ready for it. -/
structure Regular (s : Regs w × Bool) (i : In) : Prop where
  commit : i.commit = true → s.1.spec.cnt ≠ 0 ∧ commitReadyO s.1 = true ∧ i.flush = false
  valid : i.valid = true → s.2 = true

instance (s : Regs w × Bool) (i : In) : Decidable (Regular s i) :=
  decidable_of_iff ((i.commit = true → s.1.spec.cnt ≠ 0 ∧ commitReadyO s.1 = true ∧ i.flush = false) ∧
    (i.valid = true → s.2 = true)) ⟨fun h => ⟨h.1, h.2⟩, fun h => ⟨h.1, h.2⟩⟩

theorem Regular.commit_of_flush {s : Regs w × Bool} {i : In} (ok : Regular s i)
    (hf : i.flush = true) : i.commit = false := by
  by_contra hc
  have := (ok.commit (by simpa using hc)).2.2
  simp [hf] at this

/-- The stores accepted and not yet retired, after a cycle. -/
def waiting (l : List Store) (i : In) : List Store :=
  if i.flush then []
  else (if i.commit then l.tail else l) ++ (if i.valid then [i.store] else [])

/-- The store that retires in a cycle is the oldest one accepted. -/
def retires (l : List Store) (i : In) : List Store := if i.commit then l.take 1 else []

/-- The store the cache grants in a cycle. -/
def grants (s : Regs w) (i : In) : List Store :=
  if dataReqO s && i.gnt then [s.commit.head.toStore] else []

/-- The request the cache grants in a cycle. -/
def grantedReq (s : Regs w) (i : In) : List Req :=
  if dataReqO s && i.gnt then [reqPortO s] else []

/-- The stores accepted and not yet retired, after a run. -/
def waitingRun : List Store → List In → List Store
  | l, [] => l
  | l, i :: is => waitingRun (waiting l i) is

/-- The stores that retire in a run, in order. -/
def retired : List Store → List In → List Store
  | _, [] => []
  | l, i :: is => retires l i ++ retired (waiting l i) is

/-- The requests the cache grants in a run, in order. -/
def granted : Regs w → List In → List Req
  | _, [] => []
  | s, i :: is => grantedReq s i ++ granted (next s i) is

/-- The stores retired and not yet granted, after a cycle. -/
def pending (s : Regs w) (l p : List Store) (i : In) : List Store :=
  p.drop (grants s i).length ++ retires l i

/-- The queues hold `l` and `p`, and a cycle that was ready left room. -/
structure Inv (s : Regs w × Bool) (l p : List Store) : Prop where
  spec : s.1.spec.Holds l
  commit : s.1.commit.Holds p
  room : s.2 = true → l.length ≤ 3

theorem inv_reset : Inv (reset (w := w), true) [] [] :=
  ⟨Queue.holds_reset, Queue.holds_reset, fun _ => Nat.zero_le _⟩

theorem Inv.ne_nil {s : Regs w × Bool} {l p : List Store} (h : Inv s l p) {i : In}
    (ok : Regular s i) (hc : i.commit = true) : l ≠ [] := by
  intro hl
  exact (ok.commit hc).1 (h.spec.cnt_eq_zero.2 hl)

/-- The speculative queue after a cycle. -/
theorem Inv.coreIf {s : Regs w × Bool} {l p : List Store} (h : Inv s l p) {i : In}
    (ok : Regular s i) : (coreIf s.1 i).Holds (waiting l i) := by
  have hpush : (if i.valid then s.1.spec.push ⟨i.store, true⟩ else s.1.spec).Holds
      (l ++ if i.valid then [i.store] else []) := by
    split
    · rename_i hv
      have := h.room (ok.valid hv)
      exact h.spec.push (by omega) i.store
    · simpa using h.spec
  unfold StoreBuffer.coreIf waiting
  cases hf : i.flush with
  | true =>
    have hc := ok.commit_of_flush hf
    have hptr : (if i.valid then s.1.spec.push ⟨i.store, true⟩ else s.1.spec).readPtr =
        s.1.spec.readPtr := by split <;> rfl
    exact Queue.holds_nil rfl (by simp [hc, hptr]) fun _ => rfl
  | false =>
    cases hc : i.commit with
    | false => simpa [hf, hc] using hpush
    | true =>
      obtain ⟨st, l', rfl⟩ := List.exists_cons_of_ne_nil (h.ne_nil ok hc)
      exact hpush.pop

/-- What the cache is granted is the oldest pending store. -/
theorem Inv.grants_eq {s : Regs w × Bool} {l p : List Store} (h : Inv s l p) (i : In) :
    p = grants s.1 i ++ p.drop (grants s.1 i).length := by
  unfold grants
  split
  · rename_i hg
    rw [Bool.and_eq_true] at hg
    obtain ⟨st, p', rfl⟩ := List.exists_cons_of_ne_nil (h.commit.head_valid.1 hg.1)
    simp [h.commit.head_cons]
  · simp

theorem grantedReq_eq (s : Regs w) (i : In) : grantedReq s i = (grants s i).map Store.req := by
  unfold grantedReq grants
  split <;> rfl

/-- The commit queue after a cycle. -/
theorem Inv.storeIf {s : Regs w × Bool} {l p : List Store} (h : Inv s l p) {i : In}
    (ok : Regular s i) : (storeIf s.1 i).Holds (pending s.1 l p i) := by
  have hpop : (if s.1.commit.head.valid && i.gnt then s.1.commit.pop else s.1.commit).Holds
      (p.drop (grants s.1 i).length) := by
    unfold grants dataReqO
    split
    · rename_i hg
      rw [Bool.and_eq_true] at hg
      obtain ⟨st, p', rfl⟩ := List.exists_cons_of_ne_nil (h.commit.head_valid.1 hg.1)
      exact h.commit.pop
    · exact h.commit
  unfold StoreBuffer.storeIf pending retires
  cases hc : i.commit with
  | false => simpa [hc] using hpop
  | true =>
    obtain ⟨st, l', rfl⟩ := List.exists_cons_of_ne_nil (h.ne_nil ok hc)
    have hroom : p.length < 2 ^ w := by
      have := (ok.commit hc).2.1
      simpa [commitReadyO, h.commit.cnt] using this
    have hlen : (p.drop (grants s.1 i).length).length ≤ p.length := by simp
    simp only [h.spec.head_cons]
    exact hpop.push (by omega) st

/-- A cycle that is ready leaves room for one more store. -/
theorem Inv.room_next {s : Regs w × Bool} {l p : List Store} (h : Inv s l p) {i : In}
    (ok : Regular s i) (hr : readyO s.1 i = true) : (waiting l i).length ≤ 3 := by
  have hle : l.length ≤ 4 := h.spec.le
  have hready : l.length < 3 ∨ i.commit = true := by
    simpa [readyO, BitVec.lt_def, h.spec.cnt] using hr
  have hv : i.valid = true → l.length ≤ 3 := fun hv => h.room (ok.valid hv)
  have hacc : (if i.valid then [i.store] else []).length = i.valid.toNat := by
    cases i.valid <;> rfl
  unfold waiting
  split
  · exact Nat.zero_le _
  · rw [List.length_append, hacc]
    cases hc : i.commit with
    | true =>
      have := List.length_pos_of_ne_nil (h.ne_nil ok hc)
      rw [if_pos rfl, List.length_tail]
      cases hv' : i.valid with
      | true => have := hv hv'; simp; omega
      | false => simp; omega
    | false =>
      have : l.length < 3 := by simpa [hc] using hready
      have := i.valid.toNat_le
      simp only [Bool.false_eq_true, if_false]
      omega

theorem Inv.step {s : Regs w × Bool} {l p : List Store} (h : Inv s l p) {i : In}
    (ok : Regular s i) : Inv (machine.next s i) (waiting l i) (pending s.1 l p i) :=
  ⟨h.coreIf ok, h.storeIf ok, h.room_next ok⟩

/-- In a regular run the pending stores are those retired and not granted. -/
theorem Inv.run : ∀ (is : List In) {s : Regs w × Bool} {l p : List Store}, Inv s l p →
    machine.Steps Regular s is →
    ∃ p', (p ++ retired l is).map Store.req = granted s.1 is ++ p'.map Store.req ∧
      Inv (machine.run s is) (waitingRun l is) p'
  | [], _, _, p, h, _ => ⟨p, by simp [retired, granted], h⟩
  | i :: is, s, l, p, h, hs => by
    obtain ⟨p', hp, hinv⟩ := Inv.run is (h.step hs.1) hs.2
    have hsplit : p ++ retired l (i :: is) =
        grants s.1 i ++ (pending s.1 l p i ++ retired (waiting l i) is) := by
      rw [pending, retired, ← List.append_assoc, ← List.append_assoc, ← List.append_assoc,
        ← h.grants_eq i]
    refine ⟨p', ?_, hinv⟩
    calc (p ++ retired l (i :: is)).map Store.req
        = grantedReq s.1 i ++ (pending s.1 l p i ++ retired (waiting l i) is).map Store.req := by
          rw [hsplit, List.map_append, grantedReq_eq]
      _ = grantedReq s.1 i ++ (granted (next s.1 i) is ++ p'.map Store.req) := by rw [hp]; rfl
      _ = granted s.1 (i :: is) ++ p'.map Store.req := by rw [granted, List.append_assoc]

/-- No count passes its depth, and none is decremented at zero. -/
structure InBounds (s : Regs w × Bool) (i : In) : Prop where
  spec_le : s.1.spec.cnt.toNat ≤ 4
  commit_le : s.1.commit.cnt.toNat ≤ 2 ^ w
  spec_push : i.valid = true → s.1.spec.cnt.toNat < 4
  spec_pop : i.commit = true → 0 < s.1.spec.cnt.toNat
  commit_push : i.commit = true → s.1.commit.cnt.toNat < 2 ^ w
  commit_pop : (dataReqO s.1 && i.gnt) = true → 0 < s.1.commit.cnt.toNat

theorem Inv.inBounds {s : Regs w × Bool} {l p : List Store} (h : Inv s l p) {i : In}
    (ok : Regular s i) : InBounds s i where
  spec_le := h.spec.cnt.trans_le h.spec.le
  commit_le := h.commit.cnt.trans_le h.commit.le
  spec_push := fun hv => by
    have := h.room (ok.valid hv)
    rw [h.spec.cnt]
    omega
  spec_pop := fun hc => by
    rw [h.spec.cnt]
    exact List.length_pos_of_ne_nil (h.ne_nil ok hc)
  commit_push := fun hc => by simpa [commitReadyO] using (ok.commit hc).2.1
  commit_pop := fun hg => by
    rw [Bool.and_eq_true] at hg
    rw [h.commit.cnt]
    exact List.length_pos_of_ne_nil (h.commit.head_valid.1 hg.1)

/-- A flush empties the speculative queue and leaves the commit queue to the cache. -/
def FlushDrops (s : Regs w × Bool) (i : In) : Prop :=
  i.flush = true → ∀ p, s.1.commit.Holds p →
    (next s.1 i).spec.Holds [] ∧ (next s.1 i).commit.Holds (p.drop (grants s.1 i).length)

theorem Queue.Holds.unique {q : Queue w} {l l' : List Store} (h : q.Holds l) (h' : q.Holds l') :
    l = l' := by
  have hlen : l.length = l'.length := h.cnt.symm.trans h'.cnt
  have hmap : l.map (fun st => (⟨st, true⟩ : Entry)) = l'.map (⟨·, true⟩) := by
    rw [← h.ring.contents, ← h'.ring.contents, List.length_map, List.length_map, hlen]
  exact List.map_injective_iff.2 (fun _ _ he => congrArg Entry.toStore he) hmap

theorem Inv.flushDrops {s : Regs w × Bool} {l p : List Store} (h : Inv s l p) {i : In}
    (ok : Regular s i) : FlushDrops s i := by
  intro hf p' hp'
  obtain rfl := h.commit.unique hp'
  have hc := ok.commit_of_flush hf
  have hspec := h.coreIf ok
  have hcommit := h.storeIf ok
  rw [waiting, if_pos hf] at hspec
  rw [pending, retires, hc] at hcommit
  exact ⟨hspec, by simpa [next] using hcommit⟩

/-- In a regular run each edge meets what the invariant gives there. -/
theorem Inv.steps {Q : Regs w × Bool → In → Prop}
    (use : ∀ {s l p}, Inv s l p → ∀ {i}, Regular s i → Q s i) (is : List In) {s : Regs w × Bool}
    {l p : List Store} (h : Inv s l p) (hs : machine.Steps Regular s is) : machine.Steps Q s is := by
  refine Machine.steps_of_inv (P := fun s => ∃ l p, Inv s l p) ?_ ?_ is s ⟨l, p, h⟩ hs
  · rintro s i ⟨l, p, h⟩ ok
    exact ⟨_, _, h.step ok⟩
  · rintro s i ⟨l, p, h⟩ ok
    exact use h ok

/-- Along a regular run from reset the cache is granted the stores that retire, in
order and each once: what it was not granted yet is what the commit queue holds.
The speculative queue holds the stores accepted and neither retired nor flushed. -/
theorem retired_eq_granted_append (is : List In)
    (hs : machine.Steps Regular (reset (w := w), true) is) :
    let s := (machine.run (reset (w := w), true) is).1
    (∃ p, (retired [] is).map Store.req = granted (reset (w := w)) is ++ p.map Store.req ∧
      s.commit.Holds p) ∧
      s.spec.Holds (waitingRun [] is) ∧
      (noStPendingO s = true ↔ granted (reset (w := w)) is = (retired [] is).map Store.req) ∧
      machine.Steps InBounds (reset (w := w), true) is ∧
      machine.Steps FlushDrops (reset (w := w), true) is := by
  obtain ⟨p, hp, h⟩ := inv_reset.run is hs
  rw [List.nil_append] at hp
  refine ⟨⟨p, hp, h.commit⟩, h.spec, ?_, inv_reset.steps Inv.inBounds is hs,
    inv_reset.steps Inv.flushDrops is hs⟩
  rw [noStPendingO, beq_iff_eq, h.commit.cnt_eq_zero, hp]
  simp

/-- Two stores come in, the first retires and is granted while the second is flushed. -/
theorem retired_eq_granted_append_two :
    let a : Store := ⟨0x80, 1, 0xff, 3⟩
    let b : Store := ⟨0x88, 2, 0xff, 3⟩
    let is : List In := [⟨false, false, true, a, false⟩, ⟨false, true, true, b, false⟩,
      ⟨true, false, false, b, true⟩]
    machine.Steps Regular (reset (w := 3), true) is ∧ granted (reset (w := 3)) is = [a.req] ∧
      noStPendingO (machine.run (reset (w := 3), true) is).1 = true := by
  intro a b is
  have hs : machine.Steps Regular (reset (w := 3), true) is := by decide
  have h := retired_eq_granted_append is hs
  have hg : granted (reset (w := 3)) is = (retired [] is).map Store.req := by decide
  exact ⟨hs, by decide, h.2.2.1.2 hg⟩

end StoreBuffer
end Ariane

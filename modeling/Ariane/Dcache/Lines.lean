/-
# Lines of the data cache

In every set at most one valid way has a given tag, and what an entry of the write buffer
knows about its line, once it is `checked`, is what the tag memory says now (`lines_unique`).

A line comes in for a read that missed, and the read may have missed long ago. It is not in the
cache when it goes out: its port compared with the tags of its set, unless a line was written
in that very cycle (then it replays), and a line that came in since was outstanding at the
miss unit while the port waited, so that the port is replayed (`Inv.miss`). A port that waits
because the cache is disabled may be at a line that is there; but then it does not fill the
cache, and the cache is enabled again only after a flush.

A lookup of the write buffer takes two cycles (`Inv.check1`, `Inv.check2`): a write to its set
in the first of them is remembered in a register, and one in the second is seen when the
lookup returns.

At reset the tag memory holds anything; `Tracked` notes the sets that were in order then and
those that the flush after reset has passed. Nothing is read before it is done.
-/
import Ariane.Dcache.Cache
import Ariane.Dcache.Bookkeeping

namespace Ariane
namespace Dcache

open Lib (Machine)

variable {g : Geom}

/-- The way holds the line. -/
def Mem.Regs.holds (m : Mem.Regs g) (l : Line g) (j : Fin g.setAssoc) : Bool :=
  (m.tags l.idx j).vld && decide ((m.tags l.idx j).tag = l.tag)

/-- No two valid ways have one tag. -/
def Unique (set : Fin g.setAssoc → Mem.TagEntry g) : Prop :=
  ∀ j k, (set j).vld = true → (set k).vld = true → (set j).tag = (set k).tag → j = k

structure Tracked (g : Geom) where
  cache : Regs g
  /-- The sets that were in order at reset or that a flush has cleared since. -/
  cleared : BitVec g.clIdxWidth → Bool

def Tracked.next (t : Tracked g) (i : In g) : Tracked g where
  cache := Dcache.next t.cache i
  cleared := fun x => t.cleared x || Missunit.flushEn t.cache.miss && x == t.cache.miss.cnt

def tracked (g : Geom) : Machine (Tracked g) (In g) :=
  ⟨fun t => IsReset t.cache ∧ ∀ x, t.cleared x = true → Unique (t.cache.mem.tags x), Tracked.next⟩

/-! ### One edge of the tag memory -/

section Tags

variable {s : Regs g} {i : In g}

theorem flushEn_iff : Missunit.flushEn s.miss = true ↔ s.miss.state = .flush := by
  simp [Missunit.flushEn]

/-- While no line is written the tags stay. -/
theorem tags_next (h : (lineWrite s i).vld = false) : (next s i).mem.tags = s.mem.tags := by
  funext x j
  simp [next, Mem.next, Mem.nextTags, h]

/-- A way that is valid after the edge was before, or a line came in for it. -/
theorem tag_next {x : BitVec g.clIdxWidth} {j : Fin g.setAssoc} (h : ((next s i).mem.tags x j).vld = true) :
    (next s i).mem.tags x j = s.mem.tags x j ∨
      (Missunit.clWriteEn s.miss (missIn s i) = true ∧ x = s.miss.mshr.paddr.idx ∧ j = s.miss.mshr.replWay ∧
        (next s i).mem.tags x j = ⟨true, s.miss.mshr.paddr.tag⟩) := by
  change (Mem.nextTags s.mem (lineWrite s i) x j).vld = true at h
  change Mem.nextTags s.mem (lineWrite s i) x j = _ ∨ _ ∧ _ ∧ _ ∧ Mem.nextTags s.mem (lineWrite s i) x j = _
  by_cases hc : ((lineWrite s i).vld && (lineWrite s i).we j && x == (lineWrite s i).idx) = true
  · rw [Mem.nextTags, if_pos hc] at h ⊢
    simp only [Bool.and_eq_true, beq_iff_eq] at hc
    have hv : Missunit.wrVldBitsO s.miss (missIn s i) j = true := h
    unfold Missunit.wrVldBitsO at hv
    split at hv
    · simp at hv
    · rename_i hf
      simp only [Bool.or_eq_true, not_or, Bool.not_eq_true] at hf
      split at hv
      · rename_i hcl
        have hx : x = s.miss.mshr.paddr.idx := by
          rw [hc.2]
          simp [lineWrite, Missunit.wrClIdxO, hf]
        refine .inr ⟨hcl, hx, by simpa [bin2oh] using hv, ?_⟩
        rw [show (lineWrite s i).vldBits j = true from h]
        rfl
      · simp at hv
  · rw [Mem.nextTags, if_neg hc]
    exact .inl rfl

theorem holds_next {l : Line g} {j : Fin g.setAssoc} (h : (next s i).mem.holds l j = true) :
    s.mem.holds l j = true ∨
      (Missunit.clWriteEn s.miss (missIn s i) = true ∧ l = s.miss.mshr.paddr.toLine ∧ j = s.miss.mshr.replWay) := by
  simp only [Mem.Regs.holds, Bool.and_eq_true, decide_eq_true_eq] at h ⊢
  rcases tag_next h.1 with he | ⟨hw, hx, hj, he⟩
  · rw [he] at h
    exact .inl h
  · rw [he] at h
    refine .inr ⟨hw, ?_, hj⟩
    obtain ⟨tag, idx⟩ := l
    obtain rfl : idx = _ := hx
    obtain rfl : s.miss.mshr.paddr.tag = tag := h.2
    rfl

/-- A flush clears a set. -/
theorem tags_flush (h : s.miss.state = .flush) (j : Fin g.setAssoc) :
    ((next s i).mem.tags s.miss.cnt j).vld = false := by
  have hf : Missunit.flushEn s.miss = true := flushEn_iff.2 h
  have hv : (lineWrite s i).vld = true := by
    simp only [lineWrite, Missunit.wrClVldO, Missunit.wrClWeO, hf, Bool.true_or, if_true, Bool.or_eq_true, any_eq_true]
    exact .inr ⟨0, trivial⟩
  have hw : (lineWrite s i).we j = true := by simp [lineWrite, Missunit.wrClWeO, hf]
  have hx : (lineWrite s i).idx = s.miss.cnt := by simp [lineWrite, Missunit.wrClIdxO, hf]
  have hb : (lineWrite s i).vldBits j = false := by simp [lineWrite, Missunit.wrVldBitsO, hf]
  simp [next, Mem.next, Mem.nextTags, hv, hw, hx, hb]

/-- Tags of a set into which no line is written stay. -/
theorem tags_next_of_ne {x : BitVec g.clIdxWidth} (h : ¬((lineWrite s i).vld = true ∧ x = (lineWrite s i).idx))
    (j : Fin g.setAssoc) : (next s i).mem.tags x j = s.mem.tags x j := by
  have hc : ((lineWrite s i).vld && (lineWrite s i).we j && x == (lineWrite s i).idx) = false := by
    by_contra hn
    simp only [Bool.not_eq_false, Bool.and_eq_true, beq_iff_eq] at hn
    exact h ⟨hn.1.1, hn.2⟩
  simp [next, Mem.next, Mem.nextTags, hc]

/-- Nothing is read while a line is written. -/
theorem rdAck_spec {k : Fin 3} (h : rdAck s i k = true) :
    (lineWrite s i).vld = false ∧ Mem.vldSelD (rdReq s i) i.rdPref = k ∧ rdReq s i k = true := by
  simp only [rdAck, Mem.rdAckO, Bool.and_eq_true, Bool.not_eq_true', beq_iff_eq] at h
  refine ⟨h.1.1, h.2.symm, ?_⟩
  have hm := h.1.2
  unfold Mem.rdReqMasked at hm
  split at hm
  · exact ((Bool.and_eq_true _ _).mp hm).1
  · exact hm

/-- What is read is the tags of the set, and they stay in this cycle. -/
theorem read_next {k : Fin 3} (h : rdAck s i k = true) :
    (next s i).mem.vldSelQ = k ∧ (next s i).mem.cmpEnQ = true ∧ (next s i).mem.tags = s.mem.tags ∧
      ∀ j, (next s i).mem.tagRdata j = s.mem.tags (rdAddr s i k).idx j := by
  obtain ⟨hv, hsel, -⟩ := rdAck_spec h
  have hacked : Mem.rdAcked (rdReq s i) (lineWrite s i) = true := by
    simp only [rdAck, Mem.rdAckO, Bool.and_eq_true] at h
    simp only [Mem.rdAcked, hv, Bool.not_false, Bool.and_true, any_eq_true]
    exact ⟨k, h.1.2⟩
  have hreq : Mem.vldReq (rdReq s i) (lineWrite s i) = fun _ => true := by simp [Mem.vldReq, hv, hacked]
  refine ⟨hsel, ?_, tags_next hv, fun j => ?_⟩
  · simp only [next, Mem.next, hreq, hv, Bool.not_false, Bool.and_true, any_eq_true]
    exact ⟨0, trivial⟩
  · simp [next, Mem.next, hreq, Mem.vldAddr, hv, hsel]

end Tags

/-! ### One edge of a read port -/

section Port

variable {s : Ctrl.Regs g} {r : ReqPort g} {i : Ctrl.In g}

/-- A port that waits for the miss unit keeps its address. -/
theorem Ctrl.paddr_of_missReq (h : missReqO s = true) : (next s r i).paddr = s.paddr ∧ rdTagO s r = s.paddr.tag := by
  simp only [missReqO, Bool.or_eq_true, beq_iff_eq] at h
  have hg : (fsm s r i).gnt = false := by
    rcases h with h | h
    · simp only [fsm, h]
      split
      · rfl
      · split
        · rfl
        · split <;> rfl
    · simp only [fsm, h]
      split
      · rfl
      · split <;> rfl
  have ht : rdTagO s r = s.paddr.tag := by rcases h with h | h <;> simp [rdTagO, saveTag, h]
  refine ⟨?_, ht⟩
  simp [next, paddrD, hg, ht]

/-- A port waits for the miss unit after the edge because it did, or because it compared and
found no line. -/
theorem Ctrl.missReq_next (h : missReqO (next s r i) = true) :
    (missReqO s = true ∧ i.missAck = false ∧ (next s r i).paddr = s.paddr) ∨
      (i.wrClVld = false ∧ s.rdAck = true ∧ (any i.rdHitOh && i.cacheEn) = false ∧
        (next s r i).paddr = { s.paddr with tag := rdTagO s r }) := by
  have hst : (fsm s r i).stateD = .missReq ∨ (fsm s r i).stateD = .killMissAck := by
    simpa [missReqO, next] using h
  have compare : (s.state = .read ∨ s.state = .replayRead) → (fsm s r i).gnt = false ∧ i.wrClVld = false ∧
      s.rdAck = true ∧ (any i.rdHitOh && i.cacheEn) = false := fun hs => by
    have hf : fsm s r i =
        if r.kill then { stateD := .idle, rvalid := true }
        else if r.tagValid || s.state == .replayRead then
          if i.wrClVld || !s.rdAck then { stateD := .replayReq }
          else if any i.rdHitOh && i.cacheEn then
            if i.rdAck && r.dataReq then { stateD := .read, rvalid := true, gnt := true }
            else { stateD := .idle, rvalid := true }
          else { stateD := .missReq }
        else { stateD := s.state } := by
      rcases hs with hs | hs <;> simp only [fsm, hs]
    rw [hf] at hst ⊢
    by_cases hk : r.kill = true
    · simp [hk] at hst
    by_cases ht : (r.tagValid || s.state == .replayRead) = true
    swap
    · simp only [hk, ht, Bool.false_eq_true, if_false] at hst
      rcases hs with hs | hs <;> simp [hs] at hst
    by_cases hw : (i.wrClVld || !s.rdAck) = true
    · simp [hk, ht, hw] at hst
    by_cases hh : (any i.rdHitOh && i.cacheEn) = true
    · simp only [hk, ht, hw, hh, Bool.false_eq_true, if_false, if_true] at hst
      split at hst <;> simp at hst
    simp only [hk, ht, hw, hh, Bool.false_eq_true, if_false, if_true, true_and]
    simpa using hw
  have miss : missReqO s = true → i.missAck = false := fun hm => by
    simp only [missReqO, Bool.or_eq_true, beq_iff_eq] at hm
    by_contra ha
    rw [Bool.not_eq_false] at ha
    rcases hm with hm | hm
    · simp only [fsm, hm, ha, if_true] at hst
      split at hst
      · simp at hst
      · split at hst <;> simp at hst
    · simp only [fsm, hm, ha, if_true] at hst
      split at hst <;> simp at hst
  by_cases hm : missReqO s = true
  · exact .inl ⟨hm, miss hm, (paddr_of_missReq hm).1⟩
  · refine .inr ?_
    have hs : s.state = .read ∨ s.state = .replayRead := by
      simp only [missReqO, Bool.or_eq_true, beq_iff_eq, not_or] at hm
      cases hs : s.state with
      | read => exact .inl rfl
      | replayRead => exact .inr rfl
      | missReq => exact absurd hs hm.1
      | killMissAck => exact absurd hs hm.2
      | idle =>
        simp only [fsm, hs] at hst
        split at hst <;> simp at hst
      | missWait =>
        simp only [fsm, hs] at hst
        split at hst
        · split at hst <;> simp at hst
        · split at hst <;> simp at hst
      | killMiss =>
        simp only [fsm, hs] at hst
        split at hst <;> simp at hst
      | replayReq =>
        simp only [fsm, hs] at hst
        split at hst
        · simp at hst
        · split at hst <;> simp at hst
    obtain ⟨hg, hw, hr, hh⟩ := compare hs
    exact ⟨hw, hr, hh, by simp [next, paddrD, hg]⟩

/-- A port that is not served waits on. -/
theorem Ctrl.missReq_stays (h : missReqO s = true) (ha : i.missAck = false) (hr : i.missReplay = false) :
    missReqO (next s r i) = true := by
  simp only [missReqO, Bool.or_eq_true, beq_iff_eq] at h
  rcases h with h | h
  · by_cases hk : r.kill = true <;> simp [missReqO, next, fsm, h, ha, hr, hk]
  · simp [missReqO, next, fsm, h, ha, hr]

end Port

/-! ### One edge of an entry of the write buffer -/

namespace Wbuffer

variable {s : Regs g} {i : In g} {k : Fin g.wbufDepth}

/-- The lookup of the entry returns. -/
def looked (s : Regs g) (k : Fin g.wbufDepth) : Bool := s.checkEnQ1 && k == s.checkPtrQ1 && valid s k

/-- An entry is checked after the edge if its lookup has returned or it was, and nothing is
written to its set or to it. -/
theorem checked_next (hv : (s.wbuffer k).checked = true → valid s k = true)
    (h : ((next s i).wbuffer k).checked = true) :
    valid s k = true ∧ invalHit s i k = false ∧ valid (next s i) k = true ∧
      (looked s k = false → (s.wbuffer k).checked = true) ∧
      ((next s i).wbuffer k).hitOh = if looked s k then s.rdHitOhQ else (s.wbuffer k).hitOh := by
  change (nextEntry s i k).checked = true at h
  have hw : (dataGntO s i && k == wrPtr s i) = false := by
    by_contra hn
    rw [Bool.not_eq_false] at hn
    simp [nextEntry, writeBytes, hn] at h
  have hsend : ∀ e, (sendBytes s i k e).checked = e.checked ∧ (sendBytes s i k e).hitOh = e.hitOh := fun e => by
    unfold sendBytes
    split <;> simp
  have hn : nextEntry s i k = sendBytes s i k (evictBytes s i k (inval s i k (checked s k (s.wbuffer k)))) := by
    simp [nextEntry, writeBytes, hw]
  rw [hn, (hsend _).1] at h
  have hin : invalHit s i k = false := by
    by_contra hi
    rw [Bool.not_eq_false] at hi
    unfold evictBytes at h
    split at h <;> simp [inval, hi] at h
  have hi : inval s i k (checked s k (s.wbuffer k)) = checked s k (s.wbuffer k) := by simp [inval, hin]
  rw [hi] at h hn
  -- an entry that is emptied is not checked
  have hc : (checked s k (s.wbuffer k)).checked = true ∧
      (valid s k = true → ∃ b, (evictBytes s i k (checked s k (s.wbuffer k))).valid b = true) := by
    by_cases he : (evict s i.wrAck && k == rtrnPtr s) = true
    · rw [evictBytes, if_pos he] at h ⊢
      obtain ⟨hc, hany⟩ := (Bool.and_eq_true _ _).mp h
      exact ⟨hc, fun _ => any_eq_true.1 hany⟩
    · rw [evictBytes, if_neg he] at h ⊢
      refine ⟨h, fun hvk => ?_⟩
      simpa [valid] using hvk
  have hold : looked s k = false → (s.wbuffer k).checked = true := fun hl => by
    have hl : (s.checkEnQ1 && k == s.checkPtrQ1 && valid s k) = false := hl
    simpa [checked, hl] using hc.1
  have hval : valid s k = true := by
    by_cases hl : looked s k = true
    · exact ((Bool.and_eq_true _ _).mp hl).2
    · exact hv (hold (by simpa using hl))
  refine ⟨hval, hin, ?_, hold, ?_⟩
  · obtain ⟨b, hb⟩ := hc.2 hval
    refine valid_of_byte (b := b) ?_
    change (nextEntry s i k).valid b = true
    rw [hn]
    simpa using hb
  · change (nextEntry s i k).hitOh = _
    rw [hn, (hsend _).2]
    have hev : ∀ e, (evictBytes s i k e).hitOh = e.hitOh := fun e => by
      unfold evictBytes
      split <;> simp
    have hchk : checked s k (s.wbuffer k) =
        if looked s k then { s.wbuffer k with checked := true, hitOh := s.rdHitOhQ } else s.wbuffer k := rfl
    rw [hev, hchk]
    split <;> rfl

/-- An entry whose lookup is to be done stays. -/
theorem tocheck_next (h : tocheck s k = true) : valid (next s i) k = true := by
  simp only [tocheck, Bool.and_eq_true, Bool.not_eq_true', valid, any_eq_true] at h
  obtain ⟨hc, b, hb⟩ := h
  have he : evicted s i k b = false := by
    by_contra hn
    simp only [evicted, evict, returned, Bool.not_eq_false, Bool.and_eq_true, beq_iff_eq] at hn
    rw [hn.1.2, hn.1.1.1.2] at hc
    exact absurd hc (by simp)
  refine valid_of_byte (b := b) ?_
  simp [hb, he]

end Wbuffer

/-! ### The invariant -/

structure Inv (t : Tracked g) : Prop where
  passed : t.cache.miss.state ≠ .flush → ∀ x, t.cleared x = true
  flushed : t.cache.miss.state = .flush → ∀ x, x < t.cache.miss.cnt →
    t.cleared x = true ∧ ∀ j, (t.cache.mem.tags x j).vld = false
  unique : ∀ x, t.cleared x = true → Unique (t.cache.mem.tags x)
  copy : t.cache.mem.cmpEnQ = true → Unique t.cache.mem.tagRdata
  /-- The line that is outstanding is not in the cache. -/
  mshr : t.cache.miss.mshrVld = true → t.cache.miss.state ≠ .flush ∧
    (t.cache.miss.mshr.nc = false → ∀ j, t.cache.mem.holds t.cache.miss.mshr.paddr.toLine j = false)
  /-- Nor is that of a port that waits, or the port is going to be replayed. -/
  miss : ∀ k, Ctrl.missReqO (t.cache.ctrl k) = true → t.cache.miss.enable = true →
    t.cache.miss.rdrdCollision k.castSucc = false → ∀ j, t.cache.mem.holds (t.cache.ctrl k).paddr.toLine j = false
  loadWait : t.cache.miss.state = .loadWait → t.cache.miss.mshrVld = false ∧
    ∃ k : Fin 2, lzc t.cache.miss.missReqMasked = k.castSucc ∧ Ctrl.missReqO (t.cache.ctrl k) = true ∧
      (t.cache.miss.enable = true → ∀ j, t.cache.mem.holds (t.cache.ctrl k).paddr.toLine j = false)
  read : ∀ k, (t.cache.ctrl k).rdAck = true → t.cache.mem.vldSelQ = k.castSucc ∧ t.cache.mem.cmpEnQ = true ∧
    ∀ j, t.cache.mem.tagRdata j = t.cache.mem.tags (t.cache.ctrl k).paddr.idx j
  /-- The lookups of the write buffer. -/
  check1 : t.cache.wbuf.checkEnQ = true → Wbuffer.valid t.cache.wbuf t.cache.wbuf.checkPtrQ = true ∧
    t.cache.mem.vldSelQ = 2 ∧ t.cache.mem.cmpEnQ = true ∧
    t.cache.wbuf.rdTagQ = (t.cache.wbuf.wbuffer t.cache.wbuf.checkPtrQ).wtag.tag ∧
    ∀ j, t.cache.mem.tagRdata j = t.cache.mem.tags (t.cache.wbuf.wbuffer t.cache.wbuf.checkPtrQ).wtag.idx j
  check2 : t.cache.wbuf.checkEnQ1 = true → Wbuffer.valid t.cache.wbuf t.cache.wbuf.checkPtrQ1 = true →
    (t.cache.wbuf.wrClVldQ = true ∧ t.cache.wbuf.wrClIdxQ = (t.cache.wbuf.wbuffer t.cache.wbuf.checkPtrQ1).wtag.idx) ∨
    ∀ j, t.cache.wbuf.rdHitOhQ j =
      t.cache.mem.holds (t.cache.wbuf.wbuffer t.cache.wbuf.checkPtrQ1).wtag.toLine j
  checked : ∀ k, (t.cache.wbuf.wbuffer k).checked = true → Wbuffer.valid t.cache.wbuf k = true ∧
    ∀ j, (t.cache.wbuf.wbuffer k).hitOh j = t.cache.mem.holds (t.cache.wbuf.wbuffer k).wtag.toLine j

theorem inv_reset {t : Tracked g} (h : (tracked g).init t) : Inv t := by
  obtain ⟨⟨hc, hm, hw, hmem⟩, hcl⟩ := h
  have hflush : t.cache.miss.state = .flush := by rw [hm]; rfl
  constructor
  case passed => exact fun hn => absurd hflush hn
  case flushed =>
    intro _ x hx
    rw [hm] at hx
    exact absurd hx (BitVec.not_lt_zero)
  case unique => exact hcl
  case copy =>
    intro hx
    simp [hmem.cmpEnQ] at hx
  case mshr =>
    intro hx
    simp [hm, Missunit.reset] at hx
  case miss =>
    intro k hk
    simp [hc, Ctrl.reset, Ctrl.missReqO] at hk
  case loadWait =>
    intro hx
    simp [hflush] at hx
  case read =>
    intro k hk
    simp [hc, Ctrl.reset] at hk
  case check1 =>
    intro hx
    simp [hw, Wbuffer.reset] at hx
  case check2 =>
    intro hx
    simp [hw, Wbuffer.reset] at hx
  case checked =>
    intro k hk
    simp [hw, Wbuffer.reset, Wbuffer.Entry.zero] at hk

namespace Inv

variable {t : Tracked g} {i : In g}

/-! ### Flushes -/

theorem next_passed (h : Inv t) (hs : (t.next i).cache.miss.state ≠ .flush) (x : BitVec g.clIdxWidth) :
    (t.next i).cleared x = true := by
  simp only [Tracked.next, Bool.or_eq_true, Bool.and_eq_true, beq_iff_eq]
  by_cases hf : t.cache.miss.state = .flush
  · have hd : Missunit.flushDone t.cache.miss = true := by
      by_contra hd
      refine hs ?_
      rw [Bool.not_eq_true] at hd
      simp [Tracked.next, Dcache.next, Missunit.next, Missunit.fsm, hf, hd]
    have hcnt : t.cache.miss.cnt = BitVec.allOnes g.clIdxWidth := by simpa [Missunit.flushDone] using hd
    by_cases hx : x = t.cache.miss.cnt
    · exact .inr ⟨flushEn_iff.2 hf, hx⟩
    · refine .inl (h.flushed hf x ?_).1
      rw [hcnt] at hx ⊢
      exact BitVec.lt_allOnes_iff.2 hx
  · exact .inl (h.passed hf x)

theorem next_flushed (h : Inv t) (hs : (t.next i).cache.miss.state = .flush) (x : BitVec g.clIdxWidth)
    (hx : x < (t.next i).cache.miss.cnt) :
    (t.next i).cleared x = true ∧ ∀ j, ((t.next i).cache.mem.tags x j).vld = false := by
  rcases Missunit.flush_spec hs with ⟨hi, -⟩ | ⟨hf, hd⟩
  · have h0 : (t.next i).cache.miss.cnt = 0 := by
      simp [Tracked.next, Dcache.next, Missunit.next, Missunit.flushEn, hi]
    rw [h0] at hx
    exact absurd hx BitVec.not_lt_zero
  · have hfe := flushEn_iff.2 hf
    have hc : (t.next i).cache.miss.cnt = t.cache.miss.cnt + 1 := by
      simp [Tracked.next, Dcache.next, Missunit.next, hfe]
    by_cases he : x = t.cache.miss.cnt
    · subst he
      exact ⟨by simp [Tracked.next, hfe], tags_flush hf⟩
    · have hlt : x < t.cache.miss.cnt := by
        rw [hc, BitVec.lt_def] at hx
        rw [BitVec.lt_def]
        have hne : x.toNat ≠ t.cache.miss.cnt.toNat := fun hn => he (BitVec.eq_of_toNat_eq hn)
        rw [BitVec.toNat_add] at hx
        have hle := Nat.mod_le (t.cache.miss.cnt.toNat + (1 : BitVec g.clIdxWidth).toNat) (2 ^ g.clIdxWidth)
        have hone : (1 : BitVec g.clIdxWidth).toNat ≤ 1 := Nat.mod_le 1 _
        omega
      obtain ⟨hcl, hv⟩ := h.flushed hf x hlt
      refine ⟨by simp [Tracked.next, hcl], fun j => ?_⟩
      by_contra hn
      rw [Bool.not_eq_false] at hn
      rcases tag_next hn with ho | ⟨hw, -⟩
      · have := hv j
        rw [← ho] at this
        exact absurd (hn.symm.trans this) (by simp)
      · exact (h.mshr (Missunit.clWriteEn_spec hw).2.1).1 hf

/-! ### Lines that come in -/

theorem next_unique (h : Inv t) (x : BitVec g.clIdxWidth) (hx : (t.next i).cleared x = true) :
    Unique ((t.next i).cache.mem.tags x) := by
  intro j k hj hk he
  have hold : t.cleared x = true := by
    simp only [Tracked.next, Bool.or_eq_true, Bool.and_eq_true, beq_iff_eq, flushEn_iff] at hx
    refine hx.resolve_right fun ⟨hf, hc⟩ => ?_
    have := tags_flush (i := i) hf j
    rw [← hc] at this
    exact absurd (hj.symm.trans this) (by simp)
  -- the line that comes in was in no way
  have fresh : ∀ k, Missunit.clWriteEn t.cache.miss (missIn t.cache i) = true → x = t.cache.miss.mshr.paddr.idx →
      (t.cache.mem.tags x k).vld = true → (t.cache.mem.tags x k).tag ≠ t.cache.miss.mshr.paddr.tag := by
    intro k hw hx hv ht
    obtain ⟨-, hvld, hnc⟩ := Missunit.clWriteEn_spec hw
    have := (h.mshr hvld).2 hnc k
    subst hx
    simp [Mem.Regs.holds, hv, ht] at this
  rcases tag_next hj with hj' | ⟨hw, hxm, rfl, hj'⟩
  · rcases tag_next hk with hk' | ⟨hw, hxm, rfl, hk'⟩
    · have hj : ((Dcache.next t.cache i).mem.tags x j).vld = true := hj
      have hk : ((Dcache.next t.cache i).mem.tags x k).vld = true := hk
      have he : ((Dcache.next t.cache i).mem.tags x j).tag = ((Dcache.next t.cache i).mem.tags x k).tag := he
      rw [hj'] at hj he
      rw [hk'] at hk he
      exact h.unique x hold j k hj hk he
    · have hj : ((Dcache.next t.cache i).mem.tags x j).vld = true := hj
      have he : ((Dcache.next t.cache i).mem.tags x j).tag = ((Dcache.next t.cache i).mem.tags x _).tag := he
      rw [hj'] at hj he
      rw [hk'] at he
      exact absurd he (fresh j hw hxm hj)
  · rcases tag_next hk with hk' | ⟨hw, -, rfl, -⟩
    · have hk : ((Dcache.next t.cache i).mem.tags x k).vld = true := hk
      have he : ((Dcache.next t.cache i).mem.tags x _).tag = ((Dcache.next t.cache i).mem.tags x k).tag := he
      rw [hk'] at hk he
      rw [hj'] at he
      exact absurd he.symm (fresh k hw hxm hk)
    · rfl

theorem next_copy (h : Inv t) (hc : (t.next i).cache.mem.cmpEnQ = true) : Unique (t.next i).cache.mem.tagRdata := by
  simp only [Tracked.next, Dcache.next, Mem.next, Bool.and_eq_true, Bool.not_eq_true', any_eq_true] at hc
  obtain ⟨⟨j, hj⟩, hv⟩ := hc
  have hreq : Mem.vldReq (rdReq t.cache i) (lineWrite t.cache i) = fun _ => true := by
    simp only [Mem.vldReq, hv, Bool.false_eq_true, if_false] at hj ⊢
    funext
    exact hj
  have hnf : t.cache.miss.state ≠ .flush := fun hf => by
    have := tags_flush (i := i) hf j
    simp only [lineWrite, Missunit.wrClVldO, Missunit.wrClWeO, flushEn_iff.2 hf, Bool.true_or, if_true,
      Bool.or_eq_false_iff, any_eq_false] at hv
    exact absurd (hv.2 j) (by simp)
  intro j k
  simp only [Tracked.next, Dcache.next, Mem.next, hreq, if_true]
  exact h.unique _ (h.passed hnf _) j k

/-- The cache is enabled with nothing in it. -/
theorem enabled (h : Inv t) (he : (t.next i).cache.miss.enable = true) :
    t.cache.miss.enable = true ∨ ∀ l j, (t.next i).cache.mem.holds l j = false := by
  rcases Missunit.enable_spec he with ho | ⟨hf, hd⟩
  · exact .inl ho
  · refine .inr fun l j => ?_
    have hv : ((Dcache.next t.cache i).mem.tags l.idx j).vld = false := by
      by_cases hx : l.idx = t.cache.miss.cnt
      · rw [hx]
        exact tags_flush hf j
      · have hcnt : t.cache.miss.cnt = BitVec.allOnes g.clIdxWidth := by simpa [Missunit.flushDone] using hd
        have hold := (h.flushed hf l.idx (by rw [hcnt] at hx ⊢; exact BitVec.lt_allOnes_iff.2 hx)).2 j
        by_contra hn
        rw [Bool.not_eq_false] at hn
        rcases tag_next hn with ho | ⟨hw, -⟩
        · rw [ho] at hn
          exact absurd (hn.symm.trans hold) (by simp)
        · exact (h.mshr (Missunit.clWriteEn_spec hw).2.1).1 hf
    simp [Mem.Regs.holds, Tracked.next, hv]

theorem next_read (k : Fin 2) (hk : ((t.next i).cache.ctrl k).rdAck = true) :
    (t.next i).cache.mem.vldSelQ = k.castSucc ∧ (t.next i).cache.mem.cmpEnQ = true ∧
      ∀ j, (t.next i).cache.mem.tagRdata j = (t.next i).cache.mem.tags ((t.next i).cache.ctrl k).paddr.idx j := by
  obtain ⟨hsel, hcmp, htags, hrd⟩ := read_next (s := t.cache) (i := i) (k := k.castSucc) hk
  refine ⟨hsel, hcmp, fun j => ?_⟩
  change (Dcache.next t.cache i).mem.tagRdata j = (Dcache.next t.cache i).mem.tags _ j
  rw [hrd, htags]
  simp [rdAddr, Tracked.next, Dcache.next, Ctrl.next]

/-- A port that finds no line and does not look again is at a line that is not there. -/
theorem next_miss (h : Inv t) (k : Fin 2) (hk : Ctrl.missReqO ((t.next i).cache.ctrl k) = true)
    (he : (t.next i).cache.miss.enable = true) (hc : (t.next i).cache.miss.rdrdCollision k.castSucc = false)
    (j : Fin g.setAssoc) : (t.next i).cache.mem.holds ((t.next i).cache.ctrl k).paddr.toLine j = false := by
  rcases h.enabled he with hen | hno
  swap
  · exact hno _ j
  rcases Ctrl.missReq_next hk with ⟨hm, -, hp⟩ | ⟨hw, hr, hh, hp⟩
  · have hline : ((t.next i).cache.ctrl k).paddr = (t.cache.ctrl k).paddr := hp
    rw [hline]
    have hc : Missunit.rdrdCollisionD t.cache.miss (missIn t.cache i) k.castSucc = false := hc
    simp only [Missunit.rdrdCollisionD, missIn_castSucc, Ctrl.missPort, hm, Bool.true_and,
      Bool.or_eq_false_iff] at hc
    by_contra hn
    rw [Bool.not_eq_false] at hn
    rcases holds_next hn with ho | ⟨hw, hl, -⟩
    · exact absurd (ho.symm.trans (h.miss k hm hen hc.1 j)) (by simp)
    · simp only [Missunit.rdrdCollision, missIn_castSucc, Ctrl.missPort, ← hl, decide_true, Bool.true_and,
        (Missunit.clWriteEn_spec hw).2.1, Bool.true_or] at hc
      exact absurd hc.2 (by simp)
  · have hline : ((t.next i).cache.ctrl k).paddr =
        { (t.cache.ctrl k).paddr with tag := Ctrl.rdTagO (t.cache.ctrl k) (i.port k) } := hp
    obtain ⟨hsel, hcmp, hrd⟩ := h.read k hr
    have hcen : (ctrlIn t.cache i k).cacheEn = true := hen
    rw [hcen, Bool.and_true, any_eq_false] at hh
    have hj : Mem.rdHitOhO t.cache.mem (rdTag t.cache i) j = false := hh j
    have htags : (t.next i).cache.mem.tags = t.cache.mem.tags := tags_next hw
    rw [hline]
    simp only [Mem.rdHitOhO, hsel, hcmp, hrd, rdTag, ports_castSucc, Bool.and_true] at hj
    by_contra hn
    simp only [Mem.Regs.holds, htags, Bool.not_eq_false, Bool.and_eq_true, decide_eq_true_eq] at hn
    rw [hn.1, hn.2] at hj
    simp at hj

/-- The port of a read that goes out, and its line. -/
theorem readMiss_port (h : Missunit.ReadMiss t.cache.miss (missIn t.cache i)) : ∃ k : Fin 2,
    Missunit.missPortIdx t.cache.miss (missIn t.cache i) = k.castSucc ∧ Ctrl.missReqO (t.cache.ctrl k) = true ∧
      Missunit.served t.cache.miss (missIn t.cache i) = Ctrl.missPort (t.cache.ctrl k) t.cache.miss.enable := by
  have hwe := h.read
  obtain ⟨k, hk⟩ : ∃ k : Fin 2, Missunit.missPortIdx t.cache.miss (missIn t.cache i) = k.castSucc := by
    rcases Fin.eq_castSucc_or_eq_last (Missunit.missPortIdx t.cache.miss (missIn t.cache i)) with hk | h2
    · exact hk
    · rw [Missunit.served, h2] at hwe
      exact absurd hwe (by simp [Fin.last, wbufPort])
  have hserved : Missunit.served t.cache.miss (missIn t.cache i) = Ctrl.missPort (t.cache.ctrl k) t.cache.miss.enable := by
    simp [Missunit.served, hk]
  refine ⟨k, hk, ?_, hserved⟩
  have hm := h.masked
  have hl : Missunit.lockReqs t.cache.miss = false := by simp [Missunit.lockReqs, h.state]
  rw [hk] at hm
  simp only [Missunit.missReqMaskedD, hl, Bool.false_eq_true, if_false] at hm
  split at hm
  · simp [Ctrl.missPort] at hm
  · simpa [Ctrl.missPort] using hm

theorem next_mshr (h : Inv t) (hv : (t.next i).cache.miss.mshrVld = true) :
    (t.next i).cache.miss.state ≠ .flush ∧ ((t.next i).cache.miss.mshr.nc = false →
      ∀ j, (t.next i).cache.mem.holds (t.next i).cache.miss.mshr.paddr.toLine j = false) := by
  by_cases ha : (Missunit.fsm t.cache.miss (missIn t.cache i)).mshrAllocate = true
  · obtain ⟨hack, hst, hcase⟩ := Missunit.allocate_spec ha
    have hmshr : (t.next i).cache.miss.mshr = _ := if_pos ha
    refine ⟨fun hf => ?_, fun hnc j => ?_⟩
    · exact absurd (hst.symm.trans hf) (by simp)
    rw [hmshr] at hnc ⊢
    simp only at hnc ⊢
    rcases hcase with hr | hl
    · obtain ⟨k, hk, hreq, hserved⟩ := readMiss_port hr
      rw [hserved] at hnc ⊢
      have hen : t.cache.miss.enable = true := by
        simp only [Ctrl.missPort, Ctrl.missNcO, Bool.or_eq_false_iff, Bool.not_eq_false'] at hnc
        exact hnc.1
      have hcol := hr.rdrd
      rw [hk] at hcol
      simp only [Missunit.rdrdCollisionD, missIn_castSucc, Ctrl.missPort, hreq, Bool.true_and,
        Bool.or_eq_false_iff] at hcol
      by_contra hn
      rw [Bool.not_eq_false] at hn
      rcases holds_next hn with ho | ⟨hw, hl, -⟩
      · exact absurd (ho.symm.trans (h.miss k hreq hen hcol.1 j)) (by simp)
      · have hl : (t.cache.ctrl k).paddr.toLine = t.cache.miss.mshr.paddr.toLine := hl
        simp only [Missunit.rdrdCollision, missIn_castSucc, Ctrl.missPort, ← hl, decide_true, Bool.true_and,
          (Missunit.clWriteEn_spec hw).2.1, Bool.true_or] at hcol
        exact absurd hcol.2 (by simp)
    · obtain ⟨hnv, k, hk, hreq, hno⟩ := h.loadWait hl
      have hlock : Missunit.lockReqs t.cache.miss = true := by simp [Missunit.lockReqs, hl]
      have hserved : Missunit.served t.cache.miss (missIn t.cache i) =
          Ctrl.missPort (t.cache.ctrl k) t.cache.miss.enable := by
        simp [Missunit.served, Missunit.missPortIdx, Missunit.missReqMaskedD, hlock, hk]
      rw [hserved] at hnc ⊢
      have hen : t.cache.miss.enable = true := by
        simp only [Ctrl.missPort, Ctrl.missNcO, Bool.or_eq_false_iff, Bool.not_eq_false'] at hnc
        exact hnc.1
      by_contra hn
      rw [Bool.not_eq_false] at hn
      rcases holds_next hn with ho | ⟨hw, -⟩
      · exact absurd (ho.symm.trans (hno hen j)) (by simp)
      · exact absurd ((Missunit.clWriteEn_spec hw).2.1.symm.trans hnv) (by simp)
  · rw [Bool.not_eq_true] at ha
    have hv : ((Missunit.fsm t.cache.miss (missIn t.cache i)).mshrAllocate ||
      !Missunit.loadAck t.cache.miss (missIn t.cache i) && t.cache.miss.mshrVld) = true := hv
    simp only [ha, Bool.false_or, Bool.and_eq_true, Bool.not_eq_true'] at hv
    have hmshr : (t.next i).cache.miss.mshr = t.cache.miss.mshr := if_neg (by simp [ha])
    refine ⟨fun hf => ?_, fun hnc j => ?_⟩
    · rcases Missunit.flush_spec hf with ⟨-, hn⟩ | ⟨hf, -⟩
      · exact absurd (hv.2.symm.trans hn) (by simp)
      · exact (h.mshr hv.2).1 hf
    · rw [hmshr] at hnc ⊢
      by_contra hn
      rw [Bool.not_eq_false] at hn
      rcases holds_next hn with ho | ⟨hw, -⟩
      · exact absurd (ho.symm.trans ((h.mshr hv.2).2 hnc j)) (by simp)
      · exact absurd ((Missunit.clWriteEn_spec hw).1.symm.trans hv.1) (by simp)

theorem next_loadWait (h : Inv t) (hs : (t.next i).cache.miss.state = .loadWait) :
    (t.next i).cache.miss.mshrVld = false ∧
      ∃ k : Fin 2, lzc (t.next i).cache.miss.missReqMasked = k.castSucc ∧
        Ctrl.missReqO ((t.next i).cache.ctrl k) = true ∧ ((t.next i).cache.miss.enable = true →
          ∀ j, (t.next i).cache.mem.holds ((t.next i).cache.ctrl k).paddr.toLine j = false) := by
  obtain ⟨hack, hcase⟩ := Missunit.loadWait_spec hs
  have hnoAck : ∀ k, (ctrlIn t.cache i k).missAck = false := fun k => by
    have hd : (missIn t.cache i).dataAck = false := hack
    simp [ctrlIn, Missunit.missAckO, hd]
  have hal : (Missunit.fsm t.cache.miss (missIn t.cache i)).mshrAllocate = false := by
    by_contra hn
    rw [Bool.not_eq_false] at hn
    exact absurd ((Missunit.allocate_spec hn).1.symm.trans hack) (by simp)
  have hvld : (t.next i).cache.miss.mshrVld =
      (!Missunit.loadAck t.cache.miss (missIn t.cache i) && t.cache.miss.mshrVld) := by
    change (_ || _) = _
    rw [hal, Bool.false_or]
  rcases hcase with hr | hl
  · obtain ⟨k, hk, hreq, -⟩ := readMiss_port hr
    have hnr : (ctrlIn t.cache i k).missReplay = false := by simp [ctrlIn, Missunit.missReplayO, hr.fsm]
    have hreq' : Ctrl.missReqO ((t.next i).cache.ctrl k) = true := Ctrl.missReq_stays hreq (hnoAck k) hnr
    refine ⟨?_, k, hk, hreq', fun he j => ?_⟩
    · rw [hvld]
      rcases hr.room with hv | hv <;> simp [hv]
    · refine h.next_miss k hreq' he ?_ j
      rw [← hk]
      exact hr.rdrd
  · obtain ⟨hnv, k, hk, hreq, hno⟩ := h.loadWait hl
    have hnr : (ctrlIn t.cache i k).missReplay = false := by
      simp [ctrlIn, Missunit.missReplayO, Missunit.fsm, hl]
    have hlock : Missunit.lockReqs t.cache.miss = true := by simp [Missunit.lockReqs, hl]
    refine ⟨by simp [hvld, hnv], k, ?_, Ctrl.missReq_stays hreq (hnoAck k) hnr, fun he j => ?_⟩
    · change lzc (Missunit.missReqMaskedD t.cache.miss (missIn t.cache i)) = _
      rw [Missunit.missReqMaskedD, if_pos hlock, hk]
    · have hen : t.cache.miss.enable = true := by
        rcases Missunit.enable_spec he with hen | ⟨hf, -⟩
        · exact hen
        · exact absurd (hl.symm.trans hf) (by simp)
      have hp : ((t.next i).cache.ctrl k).paddr = (t.cache.ctrl k).paddr := (Ctrl.paddr_of_missReq hreq).1
      rw [hp]
      by_contra hn
      rw [Bool.not_eq_false] at hn
      rcases holds_next hn with ho | ⟨hw, -⟩
      · exact absurd (ho.symm.trans (hno hen j)) (by simp)
      · exact absurd ((Missunit.clWriteEn_spec hw).2.1.symm.trans hnv) (by simp)

/-! ### Lookups of the write buffer -/

theorem next_check1 (hc : (t.next i).cache.wbuf.checkEnQ = true) :
    Wbuffer.valid (t.next i).cache.wbuf (t.next i).cache.wbuf.checkPtrQ = true ∧
    (t.next i).cache.mem.vldSelQ = 2 ∧ (t.next i).cache.mem.cmpEnQ = true ∧
    (t.next i).cache.wbuf.rdTagQ = ((t.next i).cache.wbuf.wbuffer (t.next i).cache.wbuf.checkPtrQ).wtag.tag ∧
    ∀ j, (t.next i).cache.mem.tagRdata j =
      (t.next i).cache.mem.tags ((t.next i).cache.wbuf.wbuffer (t.next i).cache.wbuf.checkPtrQ).wtag.idx j := by
  have hc : (Wbuffer.rdReqO t.cache.wbuf && rdAck t.cache i 2) = true := hc
  simp only [Bool.and_eq_true] at hc
  have hto : Wbuffer.tocheck t.cache.wbuf (Wbuffer.checkPtrD t.cache.wbuf i.wbufPref) = true :=
    rrArb_spec (any_eq_true.1 hc.1) _
  obtain ⟨hsel, hcmp, htags, hrd⟩ := read_next hc.2
  have hptr : (t.next i).cache.wbuf.checkPtrQ = Wbuffer.checkPtrD t.cache.wbuf i.wbufPref := rfl
  have hwtag : ((t.next i).cache.wbuf.wbuffer (Wbuffer.checkPtrD t.cache.wbuf i.wbufPref)).wtag =
      Wbuffer.rdTagD t.cache.wbuf i.wbufPref :=
    Wbuffer.wtag_next ((Bool.and_eq_true _ _).mp hto).2
  rw [hptr, hwtag]
  refine ⟨Wbuffer.tocheck_next hto, hsel, hcmp, rfl, fun j => ?_⟩
  change (Dcache.next t.cache i).mem.tagRdata j = (Dcache.next t.cache i).mem.tags _ j
  rw [hrd, htags]
  rfl

theorem next_check2 (h : Inv t) (hc : (t.next i).cache.wbuf.checkEnQ1 = true) :
    ((t.next i).cache.wbuf.wrClVldQ = true ∧ (t.next i).cache.wbuf.wrClIdxQ =
      ((t.next i).cache.wbuf.wbuffer (t.next i).cache.wbuf.checkPtrQ1).wtag.idx) ∨
    ∀ j, (t.next i).cache.wbuf.rdHitOhQ j =
      (t.next i).cache.mem.holds ((t.next i).cache.wbuf.wbuffer (t.next i).cache.wbuf.checkPtrQ1).wtag.toLine j := by
  obtain ⟨hv, hsel, hcmp, htag, hrd⟩ := h.check1 hc
  have hptr : (t.next i).cache.wbuf.checkPtrQ1 = t.cache.wbuf.checkPtrQ := rfl
  have hwtag : ((t.next i).cache.wbuf.wbuffer t.cache.wbuf.checkPtrQ).wtag =
      (t.cache.wbuf.wbuffer t.cache.wbuf.checkPtrQ).wtag := Wbuffer.wtag_next hv
  rw [hptr, hwtag]
  by_cases hw : (lineWrite t.cache i).vld = true ∧
      (t.cache.wbuf.wbuffer t.cache.wbuf.checkPtrQ).wtag.idx = (lineWrite t.cache i).idx
  · exact .inl ⟨hw.1, hw.2.symm⟩
  · refine .inr fun j => ?_
    change Mem.rdHitOhO t.cache.mem (rdTag t.cache i) j = (Dcache.next t.cache i).mem.holds _ j
    simp only [Mem.Regs.holds, tags_next_of_ne hw]
    simp only [Mem.rdHitOhO, hsel, hcmp, hrd, rdTag, ports_two, htag, Bool.and_true]
    rw [Bool.and_comm, decide_eq_decide.2 eq_comm]

theorem next_checked (h : Inv t) (k : Fin g.wbufDepth) (hk : ((t.next i).cache.wbuf.wbuffer k).checked = true) :
    Wbuffer.valid (t.next i).cache.wbuf k = true ∧ ∀ j, ((t.next i).cache.wbuf.wbuffer k).hitOh j =
      (t.next i).cache.mem.holds ((t.next i).cache.wbuf.wbuffer k).wtag.toLine j := by
  obtain ⟨hv, hin, hv', hold, hhit⟩ :=
    Wbuffer.checked_next (i := wbufIn t.cache i) (fun hc => (h.checked k hc).1) hk
  refine ⟨hv', fun j => ?_⟩
  have hwtag : ((t.next i).cache.wbuf.wbuffer k).wtag = (t.cache.wbuf.wbuffer k).wtag := Wbuffer.wtag_next hv
  change ((Wbuffer.next t.cache.wbuf (wbufIn t.cache i)).wbuffer k).hitOh j = (Dcache.next t.cache i).mem.holds _ j
  rw [hwtag, hhit]
  simp only [Wbuffer.invalHit, hv, Bool.true_and, Bool.or_eq_false_iff, Bool.and_eq_false_iff, decide_eq_false_iff_not] at hin
  -- no line is written to the set of the word
  have hnow : ¬((lineWrite t.cache i).vld = true ∧ (t.cache.wbuf.wbuffer k).wtag.idx = (lineWrite t.cache i).idx) :=
    fun hn => hin.1.elim (fun hv => by simp [wbufIn, hn.1] at hv) fun he => he hn.2
  have hsame : (Dcache.next t.cache i).mem.holds (t.cache.wbuf.wbuffer k).wtag.toLine j =
      t.cache.mem.holds (t.cache.wbuf.wbuffer k).wtag.toLine j := by
    simp only [Mem.Regs.holds, tags_next_of_ne hnow]
  rw [hsame]
  by_cases hl : Wbuffer.looked t.cache.wbuf k = true
  · rw [if_pos hl]
    simp only [Wbuffer.looked, Bool.and_eq_true, beq_iff_eq] at hl
    obtain ⟨⟨hen, rfl⟩, -⟩ := hl
    rcases h.check2 hen hv with ⟨hwv, hwi⟩ | hh
    · exact absurd hwi.symm (hin.2.resolve_left (by simp [hwv]))
    · exact hh j
  · rw [if_neg hl]
    exact (h.checked k (hold (by simpa using hl))).2 j

theorem next_inv (h : Inv t) (i : In g) : Inv (t.next i) where
  passed := h.next_passed
  flushed := h.next_flushed
  unique := h.next_unique
  copy := h.next_copy
  mshr := h.next_mshr
  miss := h.next_miss
  loadWait := h.next_loadWait
  read := next_read
  check1 := next_check1
  check2 hc _ := h.next_check2 hc
  checked := h.next_checked

end Inv

/-! ### Whole runs -/

structure Structural (t : Tracked g) (i : In g) : Prop where
  cleared : t.cache.miss.state ≠ .flush → ∀ x, t.cleared x = true
  unique : ∀ x, t.cleared x = true → Unique (t.cache.mem.tags x)
  hit : ∀ j k, rdHitOh t.cache i j = true → rdHitOh t.cache i k = true → j = k
  /-- An entry that is checked knows the way of its line. -/
  hitOh : ∀ k, (t.cache.wbuf.wbuffer k).checked = true → ∀ j,
    (t.cache.wbuf.wbuffer k).hitOh j = t.cache.mem.holds (t.cache.wbuf.wbuffer k).wtag.toLine j
  /-- A word that is written goes to the way of its line, wherever that is. -/
  write : wrAck t.cache i = true → ∀ x j w b, (Dcache.next t.cache i).mem.banks x j w b =
    if (⟨⟨(t.cache.mem.tags x j).tag, x⟩, w⟩ : Wtag g) = (wordWrite t.cache).wtag ∧ (t.cache.mem.tags x j).vld = true ∧
        (wordWrite t.cache).be b = true then
      (wordWrite t.cache).data b
    else t.cache.mem.banks x j w b

theorem Inv.hit {t : Tracked g} (h : Inv t) (i : In g) (j k : Fin g.setAssoc) (hj : rdHitOh t.cache i j = true)
    (hk : rdHitOh t.cache i k = true) : j = k := by
  simp only [rdHitOh, Mem.rdHitOhO, Bool.and_eq_true, decide_eq_true_eq] at hj hk
  exact h.copy hj.2 j k hj.1.2 hk.1.2 (hj.1.1.symm.trans hk.1.1)

theorem Inv.write {t : Tracked g} (h : Inv t) (i : In g) (hw : wrAck t.cache i = true) (x : BitVec g.clIdxWidth)
    (j : Fin g.setAssoc) (w : BitVec g.wordWidth) (b : Fin 8) : (Dcache.next t.cache i).mem.banks x j w b =
      if (⟨⟨(t.cache.mem.tags x j).tag, x⟩, w⟩ : Wtag g) = (wordWrite t.cache).wtag ∧ (t.cache.mem.tags x j).vld = true ∧
          (wordWrite t.cache).be b = true then
        (wordWrite t.cache).data b
      else t.cache.mem.banks x j w b := by
  have hack := hw
  simp only [wrAck, Mem.wrAckO, Bool.and_eq_true, Bool.not_eq_true', any_eq_true] at hw
  obtain ⟨⟨hcl, j', hj'⟩, -⟩ := hw
  -- something is written, so the entry is checked
  have hret : (Wbuffer.returned t.cache.wbuf && Wbuffer.wrNeeded t.cache.wbuf) = true :=
    ((Bool.and_eq_true _ _).mp hj').1
  have hck : (t.cache.wbuf.wbuffer (Wbuffer.rtrnPtr t.cache.wbuf)).checked = true :=
    ((Bool.and_eq_true _ _).mp ((Bool.and_eq_true _ _).mp hret).1).2
  have hreq : (wordWrite t.cache).req j = t.cache.mem.holds (wordWrite t.cache).wtag.toLine j := by
    change (_ && _ && _) = _
    rw [hret, Bool.true_and, (h.checked _ hck).2 j]
    rfl
  have hack' : Mem.wrAckO (rdReq t.cache i) i.rdPref (fun k => (rdAddr t.cache i k).word) (lineWrite t.cache i)
    (wordWrite t.cache) = true := hack
  simp only [Dcache.next, Mem.next, Mem.nextBanks, hcl, hack', hreq, Mem.Regs.holds, Bool.false_eq_true, if_false, Bool.true_and]
  refine if_congr ?_ rfl rfl
  simp only [Bool.and_eq_true, beq_iff_eq, decide_eq_true_eq]
  constructor
  · rintro ⟨⟨⟨⟨hv, ht⟩, rfl⟩, rfl⟩, hb⟩
    exact ⟨by rw [ht], hv, hb⟩
  · rintro ⟨he, hv, hb⟩
    rw [← he]
    exact ⟨⟨⟨⟨hv, rfl⟩, rfl⟩, rfl⟩, hb⟩

/-- **Lines of the cache.** Whatever is asked of the cache and whatever memory returns, no two
valid ways of a set have one tag, a lookup hits one way at most, a checked entry of the write
buffer has the way of its line, and a word that is written to the cache goes there. -/
theorem lines_unique (t₀ : Tracked g) (h0 : (tracked g).init t₀) (is : List (In g)) :
    (tracked g).Steps Structural t₀ is := by
  have hall : (tracked g).Steps (fun _ _ => True) t₀ is := Machine.steps_true is t₀
  refine Machine.steps_of_inv (fun t i (h : Inv t) _ => h.next_inv i) (fun t i h _ => ?_) is t₀ (inv_reset h0) hall
  exact ⟨h.passed, h.unique, h.hit i, fun k hk => (h.checked k hk).2, h.write i⟩

/-- A cycle in which nothing is asked for. -/
def idleIn : In arianeGeom where
  enable := true
  flush := false
  amo := ⟨false, .none, 3, ⟨⟨⟨0, 0⟩, 0⟩, 0⟩, fun _ => 0⟩
  port _ := ⟨false, 0, 0, 0, 3, 0x80000, true, false⟩
  store := ⟨false, ⟨⟨0x80000, 0⟩, 0⟩, fun _ => true, fun _ => 7⟩
  rtrnVld := false
  rtrn := ⟨.loadAck, fun _ _ => 0, ⟨false, false, 0, 0⟩, 1⟩
  dataAck := true
  rndWay := 0
  scBackoffOver := true
  wbufPref := ⟨0, 0, 0⟩
  rdPref := 0

/-- The state after reset, with memories that hold zeros. -/
def zeroed : Regs arianeGeom where
  ctrl _ := Ctrl.reset
  miss := Missunit.reset
  wbuf := Wbuffer.reset
  mem := ⟨fun _ _ => ⟨false, 0⟩, fun _ _ _ _ => 0, fun _ => ⟨false, 0⟩, fun _ _ _ => 0, 0, 0, 0, false⟩

theorem zeroed_isReset : IsReset zeroed := ⟨rfl, rfl, rfl, ⟨rfl, rfl, rfl, rfl⟩⟩

theorem lines_unique_zeroed : (tracked arianeGeom).init ⟨zeroed, fun _ => true⟩ ∧
    (tracked arianeGeom).Steps Structural ⟨zeroed, fun _ => true⟩
      [{ idleIn with store := { idleIn.store with dataReq := true } }, idleIn, idleIn, idleIn] :=
  have h : (tracked arianeGeom).init ⟨zeroed, fun _ => true⟩ :=
    ⟨zeroed_isReset, fun _ _ _ _ hv => absurd hv (by simp [zeroed])⟩
  ⟨h, lines_unique _ h _⟩

end Dcache
end Ariane

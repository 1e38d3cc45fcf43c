/-
# Fetches are fresh

`wt_icache` between the front end, the address translation and the memory. The memory is watched by
its line contents over time, and what it returns carries the time at which the memory did it: read the
line of a refill, or changed the line of an invalidation.

Every valid response is for the one request that is pending (`Watch.live`), which has neither been
answered nor killed. One without exception has the word that the memory held, at the physical address
the request was translated to, at a time that is not before the end of the last flush and not before
the last invalidation of the line (`fetch_correct`).
-/
import Ariane.Icache.Memory

namespace Ariane
namespace Icache

open Lib
open Dcache (any lzc any_eq_true lzc_spec)

/-! ### The environment -/

/-- The address translation's answer without exception. -/
def translation (i : In) : Option (BitVec 56) :=
  if i.fetchValid && !i.fetchException.valid then some (i.fetchPaddr.setWidth 56) else none

/-- An accepted fetch: its number, and its address once it is translated. -/
structure Fetch where
  id : ℕ
  vaddr : BitVec 64
  paddr : Option (BitVec 56)

/-- `f` after what the address translation says in a cycle. -/
def Fetch.translate (f : Fetch) (i : In) : Fetch := { f with paddr := (translation i).or f.paddr }

/-- The inputs of a cycle, and the time at which the memory did what it returns. -/
structure Event where
  i : In
  stamp : ℕ

/-- The cache and its history. -/
structure Watch where
  regs : Regs
  now : ℕ
  /-- How many fetches have been accepted. -/
  accepted : ℕ
  live : Option Fetch
  killed : List ℕ
  answered : List ℕ
  outstanding : Option Request
  /-- The time from which on no flush has ended. -/
  flushed : ℕ
  lastStamp : ℕ
  /-- The last invalidation of a line. -/
  invAt : BitVec 8 → Fin 4 → ℕ
  /-- When a line was read from the memory. -/
  filled : BitVec 8 → Fin 4 → ℕ

/-- An invalidation for way `j` of index `x`. -/
def invalidates (i : In) (x : BitVec 8) (j : Fin 4) : Bool :=
  match i.rtrn with
  | some (.invReq vld all idx way) => idx.extractLsb' 4 8 == x && (all || vld && way.toNat % 4 == j)
  | _ => false

/-- The numbers of the fetches that a cycle kills: `kill_s1` the one that is accepted, `kill_s2` the one
before it. -/
def kills (c : Cfg) (w : Watch) (i : In) : List ℕ :=
  (if accepts c w.regs i && i.killS1 then [w.accepted] else []) ++
    if i.killS2 then (w.live.map Fetch.id).toList else []

def liveD (c : Cfg) (w : Watch) (i : In) : Option Fetch :=
  if accepts c w.regs i then if i.killS1 then none else some ⟨w.accepted, i.vaddr, none⟩
  else if (fsm c w.regs i).valid || i.killS2 then none
  else w.live.map (·.translate i)

def outstandingD (c : Cfg) (w : Watch) (i : In) : Option Request :=
  if (fsm c w.regs i).memDataReq && i.ack then some ⟨memPaddr c w.regs i, paddrIsNc c w.regs i, w.now⟩
  else if (ifill i).isSome then none
  else w.outstanding

/-- A flush ends. -/
def flushEnds (w : Watch) : Bool := w.regs.state = .flush && flushDone w.regs

/-- The line of way `j` of index `x` is written. -/
def fills (c : Cfg) (w : Watch) (i : In) (x : BitVec 8) (j : Fin 4) : Bool :=
  (fsm c w.regs i).cacheWren && w.regs.replWayOh j && x == index w.regs.vaddr

def step (c : Cfg) (w : Watch) (e : Event) : Watch where
  regs := next c w.regs e.i
  now := w.now + 1
  accepted := w.accepted + (accepts c w.regs e.i).toNat
  live := liveD c w e.i
  killed := kills c w e.i ++ w.killed
  answered := (if (fsm c w.regs e.i).valid then (w.live.map Fetch.id).toList else []) ++ w.answered
  outstanding := outstandingD c w e.i
  flushed := if flushEnds w then w.now + 1 else w.flushed
  lastStamp := if e.i.rtrn.isSome then e.stamp else w.lastStamp
  invAt x j := if invalidates e.i x j then e.stamp else w.invAt x j
  filled x j := if fills c w e.i x j then e.stamp else w.filled x j

/-- The history is empty. -/
structure Start (w : Watch) : Prop where
  regs : IsReset w.regs
  live : w.live = none
  killed : w.killed = []
  answered : w.answered = []
  outstanding : w.outstanding = none
  flushed : w.flushed ≤ w.now
  lastStamp : w.lastStamp ≤ w.now
  invAt : ∀ x j, w.invAt x j ≤ w.lastStamp

def machine (c : Cfg) : Machine Watch Event where
  init := Start
  next := step c

/-- What the ports of the cache are connected to: the address translation answers requests, keeps the
page offset, and does not take an answer back while the fetch is pending; the memory returns what it
does in order, and refills only what is asked for. -/
structure Env (c : Cfg) (mem : ℕ → Mem) (w : Watch) (e : Event) : Prop where
  requested : e.i.fetchValid = true → (fsm c w.regs e.i).fetchReq = true
  page : ∀ p ∈ translation e.i, SamePage p w.regs.vaddr
  stable : ∀ p ∈ translation e.i, ∀ f ∈ w.live, ∀ q ∈ f.paddr, p = q
  stamp_le : e.stamp ≤ w.now
  le_stamp : w.lastStamp ≤ e.stamp
  refill : ∀ data ∈ ifill e.i, ∃ r ∈ w.outstanding, r.asked ≤ e.stamp ∧ r.Returns c (mem e.stamp) data

/-! ### What is proved of a response -/

/-- The ways whose invalidations concern a response: the one that hits, or all where it comes from the
memory. -/
def concerns (s : Regs) (i : In) (j : Fin 4) : Prop := s.state = .miss ∨ j = hitIdx s i

/-- The response `f` gets has its address, and the exception of the address translation for it or a word
that was in memory at `f`'s physical address at a time that is late enough. -/
structure Response (c : Cfg) (mem : ℕ → Mem) (w : Watch) (i : In) (f : Fetch) : Prop where
  vaddr : w.regs.vaddr = f.vaddr
  new : f.id ∉ w.answered
  alive : f.id ∉ w.killed ∧ i.killS2 = false
  noFlush : flushReq w.regs i = false
  exception : (exO i).valid = true → exO i = i.fetchException ∧ fetchVaddr w.regs = f.vaddr >>> 2 <<< 2
  data : (exO i).valid = false → ∃ p ∈ (f.translate i).paddr, ∃ t ≤ w.now, w.flushed ≤ t ∧
    (∀ j, concerns w.regs i j → w.invAt (index f.vaddr) j ≤ t) ∧ dataO w.regs i = wordAt (mem t) p

/-! ### The invariant -/

/-- The tag of an address. -/
def tagOf (p : BitVec 56) : BitVec 44 := p.extractLsb' 12 44

/-- The valid line of way `j` of index `x` is what the memory held when it was read, late enough. -/
structure Fresh (c : Cfg) (mem : ℕ → Mem) (w : Watch) (x : BitVec 8) (j : Fin 4) : Prop where
  line : w.regs.lines x j = mem (w.filled x j) ((w.regs.tags x j).tag ++ x)
  cacheable : c.cacheable (w.regs.tags x j).tag = true
  flushed : w.flushed ≤ w.filled x j
  invAt : w.invAt x j ≤ w.filled x j
  now : w.filled x j ≤ w.now

/-- The outputs of the memories are the lines the fetch is looked up in. -/
structure Latched (s : Regs) : Prop where
  cmpEn : s.cmpEn = true
  tags : s.tagRdata = s.tags (index s.vaddr)
  lines : s.clRdata = s.lines (index s.vaddr)

/-- A request for `f` that is not cacheable has been refused, which leaves only its half of the offset. -/
structure Tried (c : Cfg) (s : Regs) (f : Fetch) : Prop where
  axi64BitCompliant : c.axi64BitCompliant = true
  clOffset : s.clOffset = offset s.vaddr &&& 4
  nc : ∃ p ∈ f.paddr, s.cacheEn = false ∨ c.cacheable (tagOf p) = false

/-- The memory is asked for `f`. -/
structure Missing (c : Cfg) (w : Watch) (f : Fetch) (p : BitVec 56) (r : Request) : Prop where
  paddr : p ∈ f.paddr
  page : SamePage p w.regs.vaddr
  clTag : w.regs.clTag = tagOf p
  cmpEn : w.regs.cmpEn = false
  outstanding : r ∈ w.outstanding
  asks : Asks c r w.regs.vaddr p w.regs.clOffset
  nc : r.nc = true → w.regs.cacheEn = false ∨ c.cacheable (tagOf p) = false
  flushed : w.flushed ≤ r.asked

structure Inv (c : Cfg) (mem : ℕ → Mem) (w : Watch) : Prop where
  flushCnt : w.regs.state ≠ .flush → w.regs.flushCnt = 0
  flushing : w.regs.state = .flush → ∀ x < w.regs.flushCnt, ∀ j, (w.regs.tags x j).vld = false
  fresh : w.regs.cacheEn = true → w.regs.state ≠ .flush →
    ∀ x j, (w.regs.tags x j).vld = true → Fresh c mem w x j
  latched : w.regs.state = .read → w.regs.cacheEn = true → Latched w.regs
  read : w.regs.state = .read ∨ w.regs.state = .tlbMiss →
    ∃ f ∈ w.live, f.vaddr = w.regs.vaddr ∧ (w.regs.clOffset = offset w.regs.vaddr ∨ Tried c w.regs f)
  miss : w.regs.state = .miss → ∃ f ∈ w.live, f.vaddr = w.regs.vaddr ∧ ∃ p r, Missing c w f p r
  live : ∀ f ∈ w.live, f.id < w.accepted ∧ f.id ∉ w.killed ∧ f.id ∉ w.answered
  ids : ∀ n, n ∈ w.killed ∨ n ∈ w.answered → n < w.accepted
  flushed : w.flushed ≤ w.now
  invAt : ∀ x j, w.invAt x j ≤ w.lastStamp
  lastStamp : w.lastStamp ≤ w.now

variable {c : Cfg} {mem : ℕ → Mem} {w : Watch} {e : Event}

theorem Start.inv (h : Start w) : Inv c mem w := by
  have hs := h.regs.state
  refine ⟨fun _ => h.regs.flushCnt, ?_, ?_, ?_, ?_, ?_, ?_, ?_, h.flushed, h.invAt, h.lastStamp⟩
  · intro hf
    rw [hs] at hf
    cases hf
  · intro he
    rw [h.regs.cacheEn] at he
    cases he
  · intro hr
    rw [hs] at hr
    cases hr
  · intro hr
    rw [hs] at hr
    rcases hr with hr | hr <;> cases hr
  · intro hr
    rw [hs] at hr
    cases hr
  · intro f hf
    rw [h.live] at hf
    cases hf
  · intro n hn
    rw [h.killed, h.answered] at hn
    rcases hn with hn | hn <;> cases hn

/-! ### The address and the translation in a cycle -/

theorem tagOf_translation {i : In} {p : BitVec 56} (h : p ∈ translation i) (s : Regs) : clTagD s i = tagOf p := by
  unfold translation at h
  split at h
  · rename_i hv
    obtain ⟨hv, -⟩ := by simpa using hv
    cases h
    rw [clTagD, if_pos hv, tagOf, BitVec.extractLsb'_setWidth_of_le (by omega)]
  · cases h

theorem translation_of {i : In} (hv : i.fetchValid = true) (he : i.fetchException.valid = false) :
    translation i = some (i.fetchPaddr.setWidth 56) := by
  simp [translation, hv, he]

/-- A translated fetch stays translated. -/
theorem Env.translate (hE : Env c mem w e) {f : Fetch} (hf : f ∈ w.live) {p : BitVec 56} (hp : p ∈ f.paddr) :
    p ∈ (f.translate e.i).paddr := by
  cases ht : translation e.i with
  | none => simpa [Fetch.translate, ht] using hp
  | some q =>
    have hq := hE.stable q ht f hf p hp
    simp [Fetch.translate, ht, hq]

theorem vaddrD_of (h : accepts c w.regs e.i = false) : vaddrD c w.regs e.i = w.regs.vaddr := by
  simp [vaddrD, h]

/-- While the memory is asked, the tag is held. -/
theorem Env.clTagD_miss (hE : Env c mem w e) (hs : w.regs.state = .miss) : clTagD w.regs e.i = w.regs.clTag := by
  have hv : e.i.fetchValid = false := by
    by_contra hv
    have := hE.requested (by simpa using hv)
    rw [fetchReq_miss hs] at this
    cases this
  simp [clTagD, hv]

/-- A fetch that is not accepted, killed or answered in a cycle stays. -/
theorem live_of (ha : accepts c w.regs e.i = false) (hv : (fsm c w.regs e.i).valid = false)
    (hk : e.i.killS2 = false) {f : Fetch} (hf : f ∈ w.live) : f.translate e.i ∈ (step c w e).live := by
  rw [Option.mem_def] at hf
  simp [step, liveD, ha, hv, hk, hf]

/-! ### What a cycle does to the memories -/

/-- The entry of way `j` of index `x` is written. -/
def tagWrite (c : Cfg) (s : Regs) (i : In) (x : BitVec 8) (j : Fin 4) : Bool :=
  vldReq c s i j && vldWe c s i && x == vldAddr c s i

theorem tags_next (s : Regs) (i : In) (x : BitVec 8) (j : Fin 4) :
    (next c s i).tags x j = if tagWrite c s i x j then ⟨(fsm c s i).cacheWren, s.clTag⟩ else s.tags x j := rfl

theorem flushEn_false {s : Regs} {i : In} (h : s.state ≠ .flush) : (fsm c s i).flushEn = false := by
  simpa using mt flushEn_iff.1 h

theorem cacheWren_false {s : Regs} {i : In} (h : s.state ≠ .miss) : (fsm c s i).cacheWren = false := by
  simpa using mt (fun hw => (of_cacheWren hw).1) h

theorem accepts_false {s : Regs} {i : In} (h : s.state ≠ .idle) (h' : s.state ≠ .read) : accepts c s i = false := by
  have hr : (fsm c s i).ready = false := by
    by_contra hr
    rcases of_ready (by simpa using hr) with hs | hs
    · exact h hs
    · exact h' hs
  simp [accepts, hr]

/-- A flush clears one index after the other. -/
theorem tagWrite_flush {s : Regs} (i : In) (h : s.state = .flush) (x : BitVec 8) (j : Fin 4) :
    tagWrite c s i x j = (x == s.flushCnt) := by
  have hf : (fsm c s i).flushEn = true := flushEn_iff.2 h
  simp [tagWrite, vldReq, vldWe, vldAddr, hf]

theorem tags_flush {s : Regs} (i : In) (h : s.state = .flush) {x : BitVec 8} {j : Fin 4}
    (hx : x = s.flushCnt ∨ (s.tags x j).vld = false) : ((next c s i).tags x j).vld = false := by
  have hw : (fsm c s i).cacheWren = false := cacheWren_false (by rw [h]; decide)
  rw [tags_next, tagWrite_flush i h, hw]
  split_ifs with hx'
  · rfl
  · exact hx.resolve_left (by simpa using hx')

/-- An invalidation clears the entry. -/
theorem tagWrite_of_invalidates {s : Regs} {i : In} {x : BitVec 8} {j : Fin 4} (hs : s.state ≠ .flush)
    (h : invalidates i x j = true) : tagWrite c s i x j = true := by
  have hf := flushEn_false hs (c := c) (i := i)
  unfold invalidates at h
  split at h
  · rename_i vld all idx way hr
    simp only [Bool.and_eq_true, Bool.or_eq_true, beq_iff_eq] at h
    simp only [tagWrite, vldReq, vldWe, vldAddr, invEn, hf, hr]
    cases (fsm c s i).cacheRden with
    | true => simp [h.1]
    | false =>
      rcases h.2 with ha | ⟨hv, hw⟩
      · simp [ha, h.1]
      · cases all <;> simp [hv, h.1, bin2oh, ← hw, Fin.ext_iff]
  · cases h

theorem ifill_isSome {i : In} (h : (ifill i).isSome = true) : ∃ data, i.rtrn = some (.ifillAck data) := by
  unfold ifill at h
  split at h
  · exact ⟨_, ‹_›⟩
  · cases h

/-- A line and its entry are written together. -/
theorem tagWrite_eq_fills {i : In} (h : (fsm c w.regs i).cacheWren = true) (x : BitVec 8) (j : Fin 4) :
    tagWrite c w.regs i x j = fills c w i x j := by
  obtain ⟨hs, hi, -, hr⟩ := of_cacheWren h
  have hf := flushEn_false (c := c) (i := i) (s := w.regs) (by rw [hs]; decide)
  have ha := accepts_false (c := c) (i := i) (s := w.regs) (by rw [hs]; decide) (by rw [hs]; decide)
  obtain ⟨data, hrt⟩ := ifill_isSome hi
  simp [tagWrite, fills, vldReq, vldWe, vldAddr, vaddrD, hf, hr, ha, hrt, h]

theorem lines_next (i : In) (x : BitVec 8) (j : Fin 4) :
    (next c w.regs i).lines x j = if fills c w i x j then (ifill i).getD 0 else w.regs.lines x j := by
  cases hw : (fsm c w.regs i).cacheWren with
  | false => simp [next, fills, hw]
  | true =>
    obtain ⟨hs, -, -, hr⟩ := of_cacheWren hw
    have ha := accepts_false (c := c) (i := i) (s := w.regs) (by rw [hs]; decide) (by rw [hs]; decide)
    simp [next, fills, clReq, vaddrD, hw, hr, ha]

/-! ### What a cycle keeps -/

theorem Inv.next_flushCnt (hI : Inv c mem w) (i : In) (h : (fsm c w.regs i).stateD ≠ .flush) :
    (next c w.regs i).flushCnt = 0 := by
  have hn : (next c w.regs i).flushCnt =
    if flushDone w.regs then 0 else if (fsm c w.regs i).flushEn then w.regs.flushCnt + 1 else w.regs.flushCnt := rfl
  rw [hn]
  by_cases hs : w.regs.state = .flush
  · have hd : flushDone w.regs = true := by
      by_contra hd
      apply h
      simp [fsm, hs, fsmFlush, hd, defaults]
    rw [if_pos hd]
  · rw [flushEn_false hs, hI.flushCnt hs]
    simp

theorem Inv.next_flushing (hI : Inv c mem w) (i : In) (h : (fsm c w.regs i).stateD = .flush) (x : BitVec 8)
    (hx : x < (next c w.regs i).flushCnt) (j : Fin 4) : ((next c w.regs i).tags x j).vld = false := by
  have hn : (next c w.regs i).flushCnt =
    if flushDone w.regs then 0 else if (fsm c w.regs i).flushEn then w.regs.flushCnt + 1 else w.regs.flushCnt := rfl
  rw [hn] at hx
  rcases of_stateD_flush h with ⟨hs, hd⟩ | hs
  · rw [hd, if_neg Bool.false_ne_true, if_pos (flushEn_iff.2 hs)] at hx
    have hd' : w.regs.flushCnt ≠ 255 := by simpa [flushDone] using hd
    refine tags_flush i hs ?_
    by_cases he : x = w.regs.flushCnt
    · exact Or.inl he
    · exact Or.inr (hI.flushing hs x (by bv_omega) j)
  · have h0 := hI.flushCnt (by rw [hs]; decide)
    have hf : (fsm c w.regs i).flushEn = false := flushEn_false (by rw [hs]; decide)
    rw [flushDone, h0, hf] at hx
    simp at hx

/-- The end of a flush leaves no line. -/
theorem Inv.flush_empty (hI : Inv c mem w) (i : In) (hs : w.regs.state = .flush) (hd : flushDone w.regs = true)
    (x : BitVec 8) (j : Fin 4) : ((next c w.regs i).tags x j).vld = false := by
  have hd' : w.regs.flushCnt = 255 := by simpa [flushDone] using hd
  refine tags_flush i hs ?_
  by_cases he : x = w.regs.flushCnt
  · exact Or.inl he
  · exact Or.inr (hI.flushing hs x (by bv_omega) j)

/-- A line that is written is fresh: it was asked for after the last flush, and read after the
invalidations that have come back before. -/
theorem Inv.fresh_fill (hI : Inv c mem w) (hE : Env c mem w e) {x : BitVec 8} {j : Fin 4}
    (hw : (fsm c w.regs e.i).cacheWren = true) (hx : fills c w e.i x j = true) :
    Fresh c mem (step c w e) x j := by
  obtain ⟨hs, hi, hnc, hr⟩ := of_cacheWren hw
  obtain ⟨f, hf, hv, p, r, hM⟩ := hI.miss hs
  obtain ⟨data, hrt⟩ := ifill_isSome hi
  have hdata : ifill e.i = some data := by simp [ifill, hrt]
  obtain ⟨r', hr', hle, hret⟩ := hE.refill data hdata
  obtain rfl : r' = r := Option.mem_unique hr' hM.outstanding
  have htag := hE.clTagD_miss hs
  have hcache : w.regs.cacheEn = true ∧ c.cacheable (tagOf p) = true := by
    simpa [paddrIsNc, htag, hM.clTag] using hnc
  have hncr : r'.nc = false := by
    by_contra hn
    rcases hM.nc (by simpa using hn) with h | h
    · rw [hcache.1] at h
      cases h
    · rw [hcache.2] at h
      cases h
  have hxi : x = index w.regs.vaddr := by
    simp only [fills, Bool.and_eq_true, beq_iff_eq] at hx
    exact hx.2
  have htw : tagWrite c w.regs e.i x j = true := by rw [tagWrite_eq_fills hw, hx]
  have htags : ((step c w e).regs.tags x j) = ⟨true, tagOf p⟩ := by
    change (next c w.regs e.i).tags x j = _
    rw [tags_next, if_pos htw, hw, hM.clTag]
  have hfill : (step c w e).filled x j = e.stamp := by simp [step, hx]
  have hend : flushEnds w = false := by simp [flushEnds, hs]
  refine ⟨?_, ?_, ?_, ?_, ?_⟩
  · change (next c w.regs e.i).lines x j = _
    rw [htags, hfill, lines_next, if_pos hx, hdata, Option.getD_some]
    unfold Request.Returns at hret
    rw [hncr, if_neg Bool.false_ne_true] at hret
    rw [hret, hM.asks.line, hxi, tagOf]
  · rw [htags]
    exact hcache.2
  · rw [hfill]
    simp only [step, hend, Bool.false_eq_true, if_false]
    exact hM.flushed.trans hle
  · rw [hfill]
    have hinv : invalidates e.i x j = false := by simp [invalidates, hrt]
    simp only [step, hinv, Bool.false_eq_true, if_false]
    exact (hI.invAt x j).trans hE.le_stamp
  · rw [hfill]
    exact hE.stamp_le.trans (Nat.le_succ _)

/-- A line whose entry is not written stays fresh. -/
theorem Fresh.step {x : BitVec 8} {j : Fin 4} (h : Fresh c mem w x j) (hs : w.regs.state ≠ .flush)
    (ht : tagWrite c w.regs e.i x j = false) : Fresh c mem (step c w e) x j := by
  have htags : (Icache.step c w e).regs.tags x j = w.regs.tags x j := by
    change (next c w.regs e.i).tags x j = _
    rw [tags_next, ht, if_neg Bool.false_ne_true]
  have hfill : fills c w e.i x j = false := by
    by_contra hf
    have hf : fills c w e.i x j = true := by simpa using hf
    have hw : (fsm c w.regs e.i).cacheWren = true := by
      simp only [fills, Bool.and_eq_true] at hf
      exact hf.1.1
    rw [tagWrite_eq_fills hw, hf] at ht
    cases ht
  have hinv : invalidates e.i x j = false := by
    by_contra hi
    rw [tagWrite_of_invalidates hs (by simpa using hi)] at ht
    cases ht
  have hfilled : (Icache.step c w e).filled x j = w.filled x j := by simp [Icache.step, hfill]
  have hend : flushEnds w = false := by simp [flushEnds, hs]
  refine ⟨?_, ?_, ?_, ?_, ?_⟩
  · change (next c w.regs e.i).lines x j = _
    rw [htags, hfilled, lines_next, hfill, if_neg Bool.false_ne_true]
    exact h.line
  · rw [htags]
    exact h.cacheable
  · rw [hfilled]
    simpa only [Icache.step, hend, Bool.false_eq_true, if_false] using h.flushed
  · rw [hfilled]
    simpa only [Icache.step, hinv, Bool.false_eq_true, if_false] using h.invAt
  · rw [hfilled]
    exact h.now.trans (Nat.le_succ _)

theorem Inv.next_fresh (hI : Inv c mem w) (hE : Env c mem w e) (hc : (fsm c w.regs e.i).cacheEnD = true)
    (hn : (fsm c w.regs e.i).stateD ≠ .flush) (x : BitVec 8) (j : Fin 4)
    (hv : ((next c w.regs e.i).tags x j).vld = true) : Fresh c mem (step c w e) x j := by
  by_cases hs : w.regs.state = .flush
  · -- the flush ends here, and leaves nothing valid
    have hd : flushDone w.regs = true := by
      by_contra hd
      exact hn (by simp [fsm, hs, fsmFlush, hd, defaults])
    rw [hI.flush_empty e.i hs hd] at hv
    cases hv
  · have hce : w.regs.cacheEn = true := (of_cacheEnD hc).resolve_left fun h => hs h.1
    cases ht : tagWrite c w.regs e.i x j with
    | false =>
      rw [tags_next, ht, if_neg Bool.false_ne_true] at hv
      exact (hI.fresh hce hs x j hv).step hs ht
    | true =>
      rw [tags_next, ht, if_pos rfl] at hv
      exact hI.fresh_fill hE hv (by rw [← tagWrite_eq_fills hv, ht])

/-- What is looked up in a cycle was read in the one before, in which nothing was written. -/
theorem Inv.next_latched (hc : (fsm c w.regs e.i).cacheEnD = true) (hn : (fsm c w.regs e.i).stateD = .read) :
    Latched (next c w.regs e.i) := by
  obtain ⟨hrt, hrd, hfrom⟩ := of_stateD_read hn
  have hs : w.regs.state ≠ .flush ∧ w.regs.state ≠ .miss := by
    rcases hfrom with ⟨-, -, hs | hs⟩ | ⟨hs, -⟩ <;> rw [hs] <;> decide
  have hce : w.regs.cacheEn = true := (of_cacheEnD hc).resolve_left fun h => hs.1 h.1
  have hf : (fsm c w.regs e.i).flushEn = false := flushEn_false hs.1
  have hw : (fsm c w.regs e.i).cacheWren = false := cacheWren_false hs.2
  refine ⟨(hrd hce).1, ?_, ?_⟩
  · funext j
    simp [next, vldReq, vldWe, vldAddr, invEn, hf, hw, hrt, (hrd hce).2]
  · funext j
    simp [next, clReq, hw, (hrd hce).2]

theorem cacheEn_stays (hs : w.regs.state ≠ .flush) (h0 : w.regs.cacheEn = false) (i : In) :
    (next c w.regs i).cacheEn = false := by
  change (fsm c w.regs i).cacheEnD = false
  by_contra hc
  rcases of_cacheEnD (by simpa using hc) with h | h
  · exact hs h.1
  · rw [h0] at h
    cases h

theorem clOffset_next (ha : accepts c w.regs e.i = false) : (next c w.regs e.i).clOffset =
    if c.axi64BitCompliant && paddrIsNc c w.regs e.i && (fsm c w.regs e.i).memDataReq then w.regs.clOffset &&& 4
    else w.regs.clOffset := by
  simp [next, clOffsetD, ha]

/-- The offset that a refused request leaves. -/
theorem Env.next_offset (hE : Env c mem w e) {f : Fetch} (hf : f ∈ w.live)
    (hs : w.regs.state = .read ∨ w.regs.state = .tlbMiss) (ha : accepts c w.regs e.i = false)
    (ho : w.regs.clOffset = offset w.regs.vaddr ∨ Tried c w.regs f) :
    (next c w.regs e.i).clOffset = offset (next c w.regs e.i).vaddr ∨
      Tried c (next c w.regs e.i) (f.translate e.i) := by
  have hvad : (next c w.regs e.i).vaddr = w.regs.vaddr := vaddrD_of ha
  have hce : w.regs.cacheEn = false → (next c w.regs e.i).cacheEn = false := fun h0 =>
    cacheEn_stays (by rcases hs with hs | hs <;> rw [hs] <;> decide) h0 e.i
  have hoff := clOffset_next ha
  split_ifs at hoff with hb
  · right
    simp only [Bool.and_eq_true] at hb
    obtain ⟨⟨hx, hnc⟩, hm⟩ := hb
    obtain ⟨-, hv, he⟩ := of_memDataReq hm
    have ht := translation_of hv he
    refine ⟨hx, ?_, e.i.fetchPaddr.setWidth 56, by simp [Fetch.translate, ht], ?_⟩
    · rw [hoff, hvad]
      rcases ho with ho | hT
      · rw [ho]
      · rw [hT.clOffset, BitVec.and_assoc, BitVec.and_self]
    · rw [← tagOf_translation ht w.regs]
      simp only [paddrIsNc, Bool.or_eq_true, Bool.not_eq_true'] at hnc
      exact hnc.imp_left hce
  · rw [hoff, hvad]
    refine ho.imp_right fun hT => ⟨hT.axi64BitCompliant, by rw [hoff, hvad, hT.clOffset], ?_⟩
    obtain ⟨p, hp, hnc⟩ := hT.nc
    exact ⟨p, hE.translate hf hp, hnc.imp_left hce⟩

/-- The memory is asked, for the offset of the address or for its half. -/
theorem Env.asked_offset (hE : Env c mem w e) {f : Fetch} (hf : f ∈ w.live)
    (ha : accepts c w.regs e.i = false) (hm : (fsm c w.regs e.i).memDataReq = true)
    (ho : w.regs.clOffset = offset w.regs.vaddr ∨ Tried c w.regs f) :
    (next c w.regs e.i).clOffset =
      if paddrIsNc c w.regs e.i && c.axi64BitCompliant then offset w.regs.vaddr &&& 4 else offset w.regs.vaddr := by
  obtain ⟨-, hfv, hex⟩ := of_memDataReq hm
  have ht := translation_of hfv hex
  rw [clOffset_next ha, hm, Bool.and_true, Bool.and_comm]
  rcases ho with ho | hT
  · rw [ho]
  · obtain ⟨p, hp, hnc⟩ := hT.nc
    have hpq := hE.stable _ ht f hf p hp
    have hnc' : paddrIsNc c w.regs e.i = true := by
      rw [← hpq] at hnc
      simpa [paddrIsNc, tagOf_translation ht w.regs] using hnc
    rw [hnc', hT.axi64BitCompliant, hT.clOffset, BitVec.and_assoc, BitVec.and_self]
    rfl

/-- A fetch that is looked up, or waits for its translation, is pending. -/
theorem Inv.next_read (hI : Inv c mem w) (hE : Env c mem w e)
    (hn : (fsm c w.regs e.i).stateD = .read ∨ (fsm c w.regs e.i).stateD = .tlbMiss) :
    ∃ f ∈ (step c w e).live, f.vaddr = (next c w.regs e.i).vaddr ∧
      ((next c w.regs e.i).clOffset = offset (next c w.regs e.i).vaddr ∨ Tried c (next c w.regs e.i) f) := by
  -- the fetch is accepted in this cycle, or was pending and is not answered or killed
  have hfrom : accepts c w.regs e.i = true ∧ e.i.killS1 = false ∨
      (w.regs.state = .read ∨ w.regs.state = .tlbMiss) ∧ e.i.killS2 = false ∧
        accepts c w.regs e.i = false ∧ (fsm c w.regs e.i).valid = false := by
    rcases hn with hn | hn
    · rcases (of_stateD_read hn).2.2 with ⟨ha, hk, -⟩ | ⟨hs, h⟩
      · exact Or.inl ⟨ha, hk⟩
      · exact Or.inr ⟨Or.inr hs, h⟩
    · exact Or.inr (of_stateD_tlbMiss hn)
  rcases hfrom with ⟨ha, hk⟩ | ⟨hs, hk, ha, hv⟩
  · refine ⟨⟨w.accepted, e.i.vaddr, none⟩, by simp [step, liveD, ha, hk], ?_, Or.inl ?_⟩
    · simp [next, vaddrD, ha]
    · simp [next, clOffsetD, vaddrD, ha]
  · obtain ⟨f, hf, hva, ho⟩ := hI.read hs
    refine ⟨f.translate e.i, live_of ha hv hk hf, ?_, hE.next_offset hf hs ha ho⟩
    exact hva.trans (vaddrD_of ha).symm

/-- The memory is asked for the line or word of the fetch that is looked up. -/
theorem Inv.next_miss (hI : Inv c mem w) (hE : Env c mem w e) (hn : (fsm c w.regs e.i).stateD = .miss) :
    ∃ f ∈ (step c w e).live, f.vaddr = (next c w.regs e.i).vaddr ∧ ∃ p r, Missing c (step c w e) f p r := by
  obtain ⟨hk, ha, hv, hcmp, hfrom⟩ := of_stateD_miss hn
  have hvad : (next c w.regs e.i).vaddr = w.regs.vaddr := vaddrD_of ha
  rcases hfrom with ⟨hs, hm, hack⟩ | ⟨hs, hi⟩
  · obtain ⟨f, hf, hva, ho⟩ := hI.read (Or.inl hs)
    obtain ⟨-, hfv, hex⟩ := of_memDataReq hm
    have ht := translation_of hfv hex
    have htag := tagOf_translation ht w.regs
    refine ⟨f.translate e.i, live_of ha hv hk hf, hva.trans hvad.symm, e.i.fetchPaddr.setWidth 56,
      ⟨memPaddr c w.regs e.i, paddrIsNc c w.regs e.i, w.now⟩, ?_⟩
    refine ⟨by simp [Fetch.translate, ht], ?_, htag, hcmp, by simp [step, outstandingD, hm, hack],
      ⟨?_, ?_⟩, ?_, ?_⟩
    · exact hvad ▸ hE.page _ ht
    · change memPaddr c w.regs e.i = _
      rw [memPaddr, htag]
      exact congrArg (_ ++ ·) (by rw [← hvad]; rfl)
    · exact (hE.asked_offset hf ha hm ho).trans (by rw [← hvad]; rfl)
    · intro hnc
      have hnc : paddrIsNc c w.regs e.i = true := hnc
      simp only [paddrIsNc, htag, Bool.or_eq_true, Bool.not_eq_true'] at hnc
      exact hnc.imp_left fun h0 => cacheEn_stays (by rw [hs]; decide) h0 e.i
    · have hend : flushEnds w = false := by simp [flushEnds, hs]
      simpa [step, hend] using hI.flushed
  · obtain ⟨f, hf, hva, p, r, hM⟩ := hI.miss hs
    have hm : (fsm c w.regs e.i).memDataReq = false := by
      by_contra hm
      have := (of_memDataReq (by simpa using hm)).1
      rw [hs] at this
      cases this
    have hoff : (next c w.regs e.i).clOffset = w.regs.clOffset := by simp [clOffset_next ha, hm]
    have hend : flushEnds w = false := by simp [flushEnds, hs]
    refine ⟨f.translate e.i, live_of ha hv hk hf, hva.trans hvad.symm, p, r, ?_⟩
    refine ⟨hE.translate hf hM.paddr, hvad ▸ hM.page, (hE.clTagD_miss hs).trans hM.clTag, hcmp, ?_, ?_, ?_, ?_⟩
    · simpa [step, outstandingD, hm, hi] using hM.outstanding
    · change Asks c r (next c w.regs e.i).vaddr p (next c w.regs e.i).clOffset
      rw [hvad, hoff]
      exact hM.asks
    · exact fun hnc => (hM.nc hnc).imp_left fun h0 => cacheEn_stays (by rw [hs]; decide) h0 e.i
    · simpa [step, hend] using hM.flushed

/-! ### The numbers of the fetches -/

theorem mem_live {f : Fetch} (h : f ∈ (step c w e).live) :
    f.id = w.accepted ∧ accepts c w.regs e.i = true ∧ e.i.killS1 = false ∨
      (∃ g ∈ w.live, f.id = g.id) ∧ accepts c w.regs e.i = false ∧ (fsm c w.regs e.i).valid = false ∧
        e.i.killS2 = false := by
  have h : f ∈ liveD c w e.i := h
  unfold liveD at h
  split_ifs at h with ha hk hv
  · cases h
  · cases h
    exact Or.inl ⟨rfl, ha, by simpa using hk⟩
  · cases h
  · obtain ⟨g, hg, rfl⟩ := Option.mem_map.1 h
    simp only [Bool.or_eq_true, not_or, Bool.not_eq_true] at hv
    exact Or.inr ⟨⟨g, hg, rfl⟩, by simpa using ha, hv.1, hv.2⟩

theorem mem_kills {n : ℕ} (h : n ∈ kills c w e.i) :
    n = w.accepted ∧ accepts c w.regs e.i = true ∧ e.i.killS1 = true ∨
      (∃ g ∈ w.live, n = g.id) ∧ e.i.killS2 = true := by
  unfold kills at h
  rcases List.mem_append.1 h with h | h
  · split_ifs at h with ha
    · simp only [Bool.and_eq_true] at ha
      exact Or.inl ⟨List.mem_singleton.1 h, ha⟩
    · cases h
  · split_ifs at h with hk
    · obtain ⟨g, hg, rfl⟩ : ∃ g ∈ w.live, g.id = n := by simpa using h
      exact Or.inr ⟨⟨g, hg, rfl⟩, hk⟩
    · cases h

theorem mem_answered {n : ℕ} (h : n ∈ (step c w e).answered) :
    (fsm c w.regs e.i).valid = true ∧ (∃ g ∈ w.live, n = g.id) ∨ n ∈ w.answered := by
  rcases List.mem_append.1 h with h | h
  · split_ifs at h with hv
    · obtain ⟨g, hg, rfl⟩ : ∃ g ∈ w.live, g.id = n := by simpa using h
      exact Or.inl ⟨hv, g, hg, rfl⟩
    · cases h
  · exact Or.inr h

theorem accepted_le : w.accepted ≤ (step c w e).accepted := Nat.le_add_right _ _

theorem Inv.next_ids (hI : Inv c mem w) {n : ℕ} (h : n ∈ (step c w e).killed ∨ n ∈ (step c w e).answered) :
    n < (step c w e).accepted := by
  have hold : ∀ {m : ℕ}, m < w.accepted → m < (step c w e).accepted := fun hm => hm.trans_le accepted_le
  have hlive : (∃ g ∈ w.live, n = g.id) → n < (step c w e).accepted := by
    rintro ⟨g, hg, rfl⟩
    exact hold (hI.live g hg).1
  rcases h with h | h
  · rcases List.mem_append.1 h with h | h
    · rcases mem_kills h with ⟨rfl, ha, -⟩ | ⟨hg, -⟩
      · simp [step, ha]
      · exact hlive hg
    · exact hold (hI.ids n (Or.inl h))
  · rcases mem_answered h with ⟨-, hg⟩ | h
    · exact hlive hg
    · exact hold (hI.ids n (Or.inr h))

theorem Inv.next_live (hI : Inv c mem w) {f : Fetch} (h : f ∈ (step c w e).live) :
    f.id < (step c w e).accepted ∧ f.id ∉ (step c w e).killed ∧ f.id ∉ (step c w e).answered := by
  rcases mem_live h with ⟨hid, ha, hk⟩ | ⟨⟨g, hg, hid⟩, ha, hv, hk⟩
  · -- the number is new
    have hnew : ∀ n, n ∈ w.killed ∨ n ∈ w.answered ∨ (∃ g ∈ w.live, n = g.id) → n ≠ f.id := by
      rintro n hn rfl
      rw [hid] at hn
      have : w.accepted < w.accepted := by
        rcases hn with hn | hn | ⟨g, hg, hn⟩
        · exact hI.ids _ (Or.inl hn)
        · exact hI.ids _ (Or.inr hn)
        · exact hn ▸ (hI.live g hg).1
      omega
    refine ⟨by simp [step, hid, ha], fun h => ?_, fun h => ?_⟩
    · rcases List.mem_append.1 h with h | h
      · rcases mem_kills h with ⟨-, -, hk'⟩ | ⟨hg, -⟩
        · rw [hk] at hk'
          cases hk'
        · exact hnew _ (Or.inr (Or.inr hg)) rfl
      · exact hnew _ (Or.inl h) rfl
    · rcases mem_answered h with ⟨-, hg⟩ | h
      · exact hnew _ (Or.inr (Or.inr hg)) rfl
      · exact hnew _ (Or.inr (Or.inl h)) rfl
  · obtain ⟨hlt, hkd, han⟩ := hI.live g hg
    rw [hid]
    refine ⟨hlt.trans_le accepted_le, fun h => ?_, fun h => ?_⟩
    · rcases List.mem_append.1 h with h | h
      · rcases mem_kills h with ⟨hn, -⟩ | ⟨-, hk'⟩
        · omega
        · rw [hk] at hk'
          cases hk'
      · exact hkd h
    · rcases mem_answered h with ⟨hv', -⟩ | h
      · rw [hv] at hv'
        cases hv'
      · exact han h

/-! ### Every run -/

theorem Inv.step (hI : Inv c mem w) (hE : Env c mem w e) : Inv c mem (step c w e) where
  flushCnt := hI.next_flushCnt e.i
  flushing := hI.next_flushing e.i
  fresh := hI.next_fresh hE
  latched hn hc := Inv.next_latched hc hn
  read := hI.next_read hE
  miss := hI.next_miss hE
  live _ := hI.next_live
  ids _ := hI.next_ids
  flushed := by
    change (if flushEnds w then w.now + 1 else w.flushed) ≤ w.now + 1
    split_ifs
    · exact le_rfl
    · exact hI.flushed.trans (Nat.le_succ _)
  invAt x j := by
    change (if invalidates e.i x j then e.stamp else w.invAt x j) ≤ if e.i.rtrn.isSome then e.stamp else w.lastStamp
    by_cases hr : e.i.rtrn.isSome = true
    · rw [if_pos hr]
      split_ifs
      · exact le_rfl
      · exact (hI.invAt x j).trans hE.le_stamp
    · have hi : invalidates e.i x j = false := by
        unfold invalidates
        split
        · rename_i h
          simp [h] at hr
        · rfl
      rw [if_neg hr, hi, if_neg Bool.false_ne_true]
      exact hI.invAt x j
  lastStamp := by
    change (if e.i.rtrn.isSome then e.stamp else w.lastStamp) ≤ w.now + 1
    split_ifs
    · exact hE.stamp_le.trans (Nat.le_succ _)
    · exact hI.lastStamp.trans (Nat.le_succ _)

theorem ifill_of {i : In} {data : BitVec 128} (h : i.rtrn = some (.ifillAck data)) : ifill i = some data := by
  simp [ifill, h]

/-- A hit gives the word of a line that is fresh. -/
theorem Inv.hit (hI : Inv c mem w) (hE : Env c mem w e) (hs : w.regs.state = .read)
    (hfv : e.i.fetchValid = true) (hex : e.i.fetchException.valid = false)
    (hhit : any (clHit w.regs e.i) = true) (hce : w.regs.cacheEn = true) {f : Fetch} (hf : f ∈ w.live)
    (ho : w.regs.clOffset = offset w.regs.vaddr ∨ Tried c w.regs f) :
    Fresh c mem w (index w.regs.vaddr) (hitIdx w.regs e.i) ∧
      dataO w.regs e.i =
        wordAt (mem (w.filled (index w.regs.vaddr) (hitIdx w.regs e.i))) (e.i.fetchPaddr.setWidth 56) := by
  have ht := translation_of hfv hex
  have hL := hI.latched hs hce
  have hj : clHit w.regs e.i (hitIdx w.regs e.i) = true := lzc_spec (any_eq_true.1 hhit)
  rw [clHit, hL.tags] at hj
  obtain ⟨htag, hvld⟩ := by simpa using hj
  have hF := hI.fresh hce (by rw [hs]; decide) _ _ hvld
  rw [tagOf_translation ht] at htag
  have hoff : w.regs.clOffset = offset w.regs.vaddr := by
    refine ho.resolve_right fun hT => ?_
    obtain ⟨q, hq, hnc⟩ := hT.nc
    have hpq := hE.stable _ ht f hf q hq
    rw [← hpq, ← htag, hF.cacheable, hce] at hnc
    rcases hnc with hnc | hnc <;> cases hnc
  refine ⟨hF, ?_⟩
  rw [dataO, if_pos hL.cmpEn, hL.lines, hF.line, htag, hoff]
  exact (hE.page _ ht).word _

/-- What the memory returns for a miss gives the word. -/
theorem Missing.data {f : Fetch} {p : BitVec 56} {r : Request} (hM : Missing c w f p r) (hE : Env c mem w e)
    (hi : (ifill e.i).isSome = true) :
    dataO w.regs e.i = wordAt (mem e.stamp) p ∧ w.flushed ≤ e.stamp := by
  obtain ⟨data, hrt⟩ := ifill_isSome hi
  obtain ⟨r', hr', hle, hret⟩ := hE.refill data (ifill_of hrt)
  obtain rfl : r' = r := Option.mem_unique hr' hM.outstanding
  refine ⟨?_, hM.flushed.trans hle⟩
  rw [dataO, hM.cmpEn, if_neg Bool.false_ne_true, ifill_of hrt, Option.getD_some]
  exact hM.asks.word hM.page hret

theorem Inv.response (hI : Inv c mem w) (hE : Env c mem w e) (hv : (fsm c w.regs e.i).valid = true) :
    ∃ f ∈ w.live, Response c mem w e.i f := by
  obtain ⟨hk, hfl, hsrc⟩ := of_valid hv
  have build : ∀ f ∈ w.live, f.vaddr = w.regs.vaddr →
      (e.i.fetchException.valid = false → ∃ p ∈ (f.translate e.i).paddr, ∃ t ≤ w.now, w.flushed ≤ t ∧
        (∀ j, concerns w.regs e.i j → w.invAt (index w.regs.vaddr) j ≤ t) ∧
          dataO w.regs e.i = wordAt (mem t) p) → Response c mem w e.i f := by
    intro f hf hva hdata
    obtain ⟨-, hkd, han⟩ := hI.live f hf
    refine ⟨hva.symm, han, ⟨hkd, hk⟩, hfl, fun _ => ⟨rfl, ?_⟩, ?_⟩
    · rw [fetchVaddr, hva]
    · rw [hva]
      exact hdata
  rcases hsrc with ⟨hs, hfv, hhit⟩ | ⟨hs, hex⟩ | ⟨hs, hi⟩
  · obtain ⟨f, hf, hva, ho⟩ := hI.read (Or.inl hs)
    refine ⟨f, hf, build f hf hva fun hex => ?_⟩
    obtain ⟨hF, hd⟩ := hI.hit hE hs hfv hex (hhit hex).1 (hhit hex).2 hf ho
    refine ⟨e.i.fetchPaddr.setWidth 56, by simp [Fetch.translate, translation_of hfv hex], _, hF.now,
      hF.flushed, ?_, hd⟩
    rintro j (hm | rfl)
    · rw [hs] at hm
      cases hm
    · exact hF.invAt
  · obtain ⟨f, hf, hva, -⟩ := hI.read (Or.inr hs)
    refine ⟨f, hf, build f hf hva fun hno => ?_⟩
    rw [hex] at hno
    cases hno
  · obtain ⟨f, hf, hva, p, r, hM⟩ := hI.miss hs
    refine ⟨f, hf, build f hf hva fun _ => ?_⟩
    obtain ⟨hd, hfr⟩ := hM.data hE hi
    refine ⟨p, hE.translate hf hM.paddr, e.stamp, hE.stamp_le, hfr, fun j _ => ?_, hd⟩
    exact (hI.invAt _ j).trans hE.le_stamp

/-- Along every run every response is for the pending fetch, and has its exception, or its word from
memory, read neither before the end of the last flush nor before the last invalidation of the line. -/
theorem fetch_correct (c : Cfg) (mem : ℕ → Mem) (w : Watch) (h : Start w) (es : List Event)
    (hE : (machine c).Steps (Env c mem) w es) :
    (machine c).Steps (fun w e => (fsm c w.regs e.i).valid = true → ∃ f ∈ w.live, Response c mem w e.i f) w es :=
  Machine.steps_of_inv (M := machine c) (P := Inv c mem) (fun _ _ hI hE => hI.step hE)
    (fun _ _ hI hE hv => hI.response hE hv) es w h.inv hE

/-! ### A fetch with the cache disabled -/

def bootCfg : Cfg := ⟨true, fun _ => true⟩

def bootMem : ℕ → Mem := fun _ _ => 0x00000013_00000093_00000113_00000193

def bootWatch : Watch where
  regs :=
    { state := .idle, cacheEn := false, cmpEn := false, flush := false, flushCnt := 0, vaddr := 0, clOffset := 0,
      clTag := 0, replWayOh := fun _ => false, tags := fun _ _ => ⟨false, 0⟩, lines := fun _ _ => 0,
      tagRdata := fun _ => ⟨false, 0⟩, clRdata := fun _ => 0 }
  now := 0
  accepted := 0
  live := none
  killed := []
  answered := []
  outstanding := none
  flushed := 0
  lastStamp := 0
  invAt _ _ := 0
  filled _ _ := 0

theorem bootWatch_start : Start bootWatch :=
  ⟨⟨rfl, rfl, rfl, rfl, rfl, rfl, rfl, rfl, rfl⟩, rfl, rfl, rfl, rfl, le_rfl, le_rfl, fun _ _ => le_rfl⟩

def quiet : In :=
  { flush := false, en := false, fetchValid := false, fetchPaddr := 0, fetchException := Exn.none, req := false,
    killS1 := false, killS2 := false, vaddr := 0, rtrn := none, ack := false, rndWay := 0 }

/-- A request, its translation with the memory's acknowledge, and the word. -/
def boot : List Event :=
  [⟨{ quiet with req := true, vaddr := 0x1000c }, 0⟩,
    ⟨{ quiet with fetchValid := true, fetchPaddr := 0x8001000c, ack := true }, 1⟩,
    ⟨{ quiet with rtrn := some (.ifillAck 0x00000013_00000093) }, 2⟩]

theorem boot_env : (machine bootCfg).Steps (Env bootCfg bootMem) bootWatch boot := by
  refine ⟨⟨by decide, ?_, ?_, by decide, by decide, ?_⟩, ⟨by decide, ?_, ?_, by decide, by decide, ?_⟩,
    ⟨by decide, ?_, ?_, by decide, by decide, ?_⟩, trivial⟩
  · rintro p ⟨⟩
  · rintro p ⟨⟩
  · rintro p ⟨⟩
  · rintro p ⟨⟩
    unfold SamePage
    decide
  · rintro p ⟨⟩ f ⟨⟩ q ⟨⟩
  · rintro p ⟨⟩
  · rintro p ⟨⟩
  · rintro p ⟨⟩
  · rintro data ⟨⟩
    refine ⟨_, rfl, by decide, ?_⟩
    unfold Request.Returns
    decide

theorem fetch_correct_boot :
    ∃ f ∈ ((machine bootCfg).run bootWatch (boot.take 2)).live,
      Response bootCfg bootMem ((machine bootCfg).run bootWatch (boot.take 2))
        { quiet with rtrn := some (.ifillAck 0x00000013_00000093) } f :=
  (fetch_correct bootCfg bootMem bootWatch bootWatch_start boot boot_env).2.2.1 (by decide)

end Icache
end Ariane

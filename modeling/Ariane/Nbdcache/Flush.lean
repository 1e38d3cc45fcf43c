/-
# The flush of the write-back cache

A flush walks the indices: it reads the ways of an index, writes back the first dirty one and reads
the index again, until none is dirty; then it invalidates the index and goes on. With what is
already written back, what is left to write back is always what there was at the start (`Walk`),
the ways in their order and the indices in theirs (`Lib.Drain`).

The run is watched (`Watched`): where the last flush or another change of the arrays or the memory
has left these (`start`), and the bursts since (`log`). At an acknowledgement each line that was
dirty has gone to its place once, and the arrays are empty (`flush_correct`). It is asked of the
other ports that they change nothing during a flush, and of an atomic's operands that they stay
(`Env`).
-/
import Ariane.Nbdcache.MissHandler

namespace Ariane
namespace Nbdcache

open Lib (Machine)
open Lib.Burst (Job)
open Axi (Word)
open Axi.WriteBurst (AdReq Aw Ar W adapter adapterAt adWrite)

variable {g : Geom}

/-! ### The requests of the handler -/

/-- The states of a flush. -/
def State.flushes : State → Bool
  | .flushing | .flushReqStatus | .wbCachelineFlush => true
  | _ => false

/-- The states of an atomic. -/
def State.amo : State → Bool
  | .amoLoad | .amoSaveLoad | .amoStore => true
  | _ => false

/-- Only the requests of an atomic depend on its operands. -/
theorem fsmMiss_congr {s : Regs g} {a b : Amo} (h : s.state.amo = true → a = b) :
    fsmMissValid s a = fsmMissValid s b ∧ fsmMiss s a = fsmMiss s b := by
  unfold fsmMissValid fsmMiss
  cases hs : s.state
  case amoLoad | amoSaveLoad | amoStore =>
    obtain rfl := h (by rw [hs]; rfl)
    exact ⟨rfl, rfl⟩
  all_goals exact ⟨rfl, rfl⟩

section Written

variable {s : Sys g} {i : In g}

/-- A burst is in memory with its grant. -/
theorem Sys.written_eq (hl : Lib.Burst.Inv (adapter g.adCfg) adapterAt s.ad)
    (hh : Lib.Burst.Held (adapter g.adCfg) s.ad (s.adIn i)) :
    s.written i = if (s.adOut i).gnt && fsmMissValid s.h i.amo && (fsmMiss s.h i.amo).we
      then some (adWrite (fsmMiss s.h i.amo)) else none := by
  have hlen (r : AdReq g.adCfg) (j) (hj : (adapter g.adCfg).job r = some j) : j.aw.len.toNat + 1 = j.beats.length := by
    change (if r.we then some (adWrite r) else none) = some j at hj
    split at hj
    · rw [← Option.some.inj hj]
      exact (Axi.WriteBurst.marked_adWrite r).len.symm
    · cases hj
  rw [Sys.written, hl.complete Axi.WriteBurst.adapter_follows hh hlen]
  change (if (s.adOut i).gnt then if s.ad.s.state.busy then none else
    (if fsmMissValid s.h i.amo then some (fsmMiss s.h i.amo) else none).bind Axi.WriteBurst.adJob else none) = _
  cases hg : (s.adOut i).gnt with
  | false => rfl
  | true =>
    have hb : s.ad.s.state.busy = false := by
      by_contra hb
      rw [Sys.adOut, gnt_of_busy (by simpa using hb)] at hg
      cases hg
    rw [hb]
    cases hv : fsmMissValid s.h i.amo <;> simp [Axi.WriteBurst.adJob]

end Written

/-! ### The watched run -/

/-- `start` is the memory and the arrays as a flush found them, or as another port has left them
since, and `log` the writes from then on. `taken` are the operands of the atomic under way, `base`
is the memory it found and `acked` are those before it. -/
structure Watched (g : Geom) where
  sys : Sys g
  start : Mem × Arrays g
  log : List (Job (Aw 4) W)
  taken : Amo
  base : Mem
  acked : List Amo

namespace Watched

variable (s : Watched g) (i : In g)

def flushAck : Bool := (s.sys.out i).flushAck
def amoAck : Bool := (s.sys.out i).amoAck

/-- Something else than the handler has changed the arrays or the memory, or a flush begins. -/
def fresh : Bool :=
  i.port.isSome || s.sys.h.state == .idle && (s.sys.out i).next.state == .flushReqStatus

/-- An atomic begins. -/
def takes : Bool := s.sys.h.state == .idle && (s.sys.out i).next.state == .amoLoad

def next : Watched g where
  sys := s.sys.next i
  start := if s.fresh i then (s.sys.memD i, s.sys.arrD i) else s.start
  log := if s.fresh i then [] else s.log ++ (s.sys.written i).toList
  taken := if s.takes i then i.amo else s.taken
  base := if s.takes i then s.sys.memD i else s.base
  acked := if s.amoAck i then s.acked ++ [i.amo] else s.acked

end Watched

/-- After reset, with any arrays and any memory. -/
def watched (g : Geom) : Machine (Watched g) (In g) where
  init s := s.sys.h = Regs.reset ∧ s.sys.ad.s = Axi.WriteBurst.AdRegs.reset ∧ s.sys.ad.held = none ∧
    s.sys.ad.Fresh ∧ s.acked = []
  next := Watched.next

/-- An atomic of words or double words, aligned. -/
structure Amo.WellFormed (a : Amo) : Prop where
  op : a.op ≠ .none
  size : a.size = 2 ∨ a.size = 3
  aligned : a.operandA.toNat % 2 ^ a.size.toNat = 0

/-- The other ports change nothing while the handler flushes or does an atomic, nor the arrays
before the atomic for which they have been flushed; the atomic's operands stay; and memory answers
a single read with one beat, of the word that was asked for. -/
structure Env (s : Watched g) (i : In g) : Prop where
  port : s.sys.h.state.flushes = true ∨ s.sys.h.state.amo = true → i.port = none
  kept : s.sys.h.state = .idle → s.sys.h.serveAmo = true → ∀ p ∈ i.port, p.2 = s.sys.arr
  amo : s.sys.h.state.amo = true → i.amo = s.taken ∧ i.amo.WellFormed
  read : i.axi.rValid = true → ∀ ar ∈ s.sys.lastAr, ar.len = 0 →
    i.axi.rLast = true ∧ i.axi.rData = s.sys.mem (ar.addr.extractLsb' 3 61)

/-! ### The adapter under the handler -/

/-- The adapter follows its bursts, and the request it was given is the one that is still up. -/
structure Linked (s : Watched g) : Prop where
  burst : Lib.Burst.Inv (adapter g.adCfg) adapterAt s.sys.ad
  held : ∀ r ∈ s.sys.ad.held, fsmMissValid s.sys.h s.taken = true ∧ fsmMiss s.sys.h s.taken = r

section Linked

variable {s : Watched g} {i : In g}

theorem Env.congr (he : Env s i) : fsmMissValid s.sys.h i.amo = fsmMissValid s.sys.h s.taken ∧
    fsmMiss s.sys.h i.amo = fsmMiss s.sys.h s.taken :=
  fsmMiss_congr fun ha => (he.amo ha).1

theorem Linked.kept (h : Linked s) (he : Env s i) : Lib.Burst.Held (adapter g.adCfg) s.sys.ad (s.sys.adIn i) := by
  intro r hr
  obtain ⟨hv, hm⟩ := h.held r hr
  change (if fsmMissValid s.sys.h i.amo then some (fsmMiss s.sys.h i.amo) else none) = some r
  rw [he.congr.1, he.congr.2, hv, if_pos rfl, hm]

theorem Linked.written (h : Linked s) (he : Env s i) : s.sys.written i =
    if (s.sys.adOut i).gnt && fsmMissValid s.sys.h i.amo && (fsmMiss s.sys.h i.amo).we
      then some (adWrite (fsmMiss s.sys.h i.amo)) else none :=
  Sys.written_eq h.burst (h.kept he)

/-- A request that is neither granted nor answered leaves the handler where it is. -/
theorem next_of_waiting {s : Sys g} (hv : fsmMissValid s.h i.amo = true) (hg : (s.adOut i).gnt = false)
    (ha : (s.adOut i).valid = false) : (s.out i).next = s.h := by
  rw [Sys.out, hg, ha]
  unfold fsmMissValid at hv
  unfold cacheManagement
  cases hs : s.h.state <;> rw [hs] at hv
  case reqCacheline | wbCachelineFlush | wbCachelineMiss | amoLoad => simp
  case amoStore =>
    have hn : noStore s.h.reservation i.amo = false := by simpa using hv
    simp [hn]
  all_goals cases hv

theorem Linked.next (h : Linked s) (he : Env s i) : Linked (s.next i) where
  burst := h.burst.next Axi.WriteBurst.adapter_follows (h.kept he)
  held := by
    intro r hr
    have hr' : (if (s.sys.adOut i).gnt || s.sys.ad.s.state.busy then none
        else if fsmMissValid s.sys.h i.amo then some (fsmMiss s.sys.h i.amo) else none) = some r := hr
    cases hg : (s.sys.adOut i).gnt <;> cases hb : s.sys.ad.s.state.busy <;> rw [hg, hb] at hr'
    · rw [Bool.or_self, if_neg Bool.false_ne_true] at hr'
      split at hr'
      · rename_i hv
        obtain rfl := Option.some.inj hr'
        have hnext : (s.next i).sys.h = s.sys.h := next_of_waiting hv hg (valid_of_not_busy hb)
        have htaken : (s.next i).taken = s.taken := by
          have hnot : s.takes i = false := by
            unfold fsmMissValid at hv
            cases hs : s.sys.h.state <;> simp [Watched.takes, hs] at hv ⊢
          rw [Watched.next, hnot]
          rfl
        rw [hnext, htaken, ← he.congr.1, ← he.congr.2]
        exact ⟨hv, rfl⟩
      · cases hr'
    all_goals cases hr'

theorem linked_init (h : (watched g).init s) : Linked s := by
  obtain ⟨-, hs, hh, hfresh, -⟩ := h
  refine ⟨Lib.Burst.inv_reset Axi.WriteBurst.adapter_follows ⟨hs, hh, hfresh⟩, fun r hr => ?_⟩
  rw [hh] at hr
  cases hr

end Linked

/-! ### What there is to write back -/

/-- The place of a line in the arrays. -/
abbrev Slot (g : Geom) := BitVec g.idxWidth × Fin g.setAssoc

namespace Arrays

variable (A : Arrays g)

def dirtyWays (k : BitVec g.idxWidth) : Ways g := fun w => (A k w).valid && (A k w).dirty

def Dirty (l : Slot g) : Prop := A.dirtyWays l.1 l.2 = true

/-- The burst that writes a line back. -/
def job (l : Slot g) : Job (Aw 4) W := lineJob (A l.1 l.2).tag l.1 (A l.1 l.2).data

/-- The words it stores. -/
def stored (l : Slot g) : BitVec 61 → Option Word := lineStore (A l.1 l.2).tag l.1 (A l.1 l.2).data

def dirtyAt (k : BitVec g.idxWidth) : List (Slot g) :=
  ((List.finRange g.setAssoc).filter (A.dirtyWays k)).map fun w => (k, w)

/-- The dirty lines in the order of the walk. -/
def dirtyLines : List (Slot g) := Lib.Drain.items A.dirtyAt

/-- No line is valid or dirty. -/
def Empty : Prop := ∀ k w, (A k w).valid = false ∧ (A k w).dirty = false

/-- The ways `v` of an index are invalidated. -/
def clear (k : BitVec g.idxWidth) (v : Ways g) : Arrays g := A.write ⟨wayZero g, k, true, .zero, false, false, v⟩

variable {A} {k : BitVec g.idxWidth}

theorem clear_apply (v : Ways g) (idx : BitVec g.idxWidth) (w : Fin g.setAssoc) :
    A.clear k v idx w = if idx = k ∧ v w = true then { A idx w with valid := false, dirty := false } else A idx w := by
  have hreq : ∃ u, wayZero g u = true := ⟨0, beq_self_eq_true _⟩
  have hif : ((true && idx == k) = true) ↔ idx = k := by simp
  unfold clear write
  dsimp only
  by_cases hk : idx = k
  · rw [if_pos (hif.2 hk)]
    by_cases hv : v w = true <;> simp [hk, hv, hreq, CacheLine.zero]
  · rw [if_neg (mt hif.1 hk), if_neg fun h => hk h.1]

theorem job_clear (v : Ways g) (l : Slot g) : (A.clear k v).job l = A.job l := by
  unfold job
  rw [clear_apply]
  split <;> rfl

theorem dirtyWays_clear (v : Ways g) (idx : BitVec g.idxWidth) :
    (A.clear k v).dirtyWays idx = fun w => A.dirtyWays idx w && !(decide (idx = k) && v w) := by
  funext w
  rw [dirtyWays, clear_apply]
  by_cases hk : idx = k <;> cases hv : v w <;> simp [hk, dirtyWays]

theorem dirtyAt_clear_of_ne (v : Ways g) {idx : BitVec g.idxWidth} (h : idx ≠ k) :
    (A.clear k v).dirtyAt idx = A.dirtyAt idx := by
  unfold dirtyAt
  rw [dirtyWays_clear]
  simp [h]

/-- The first dirty way is the head of its index. -/
theorem dirtyAt_evict {w : Fin g.setAssoc} (h : firstSet (A.dirtyWays k) = some w) :
    A.dirtyAt k = (k, w) :: (A.clear k (getVictimCl (A.dirtyWays k))).dirtyAt k := by
  unfold dirtyAt
  rw [Lib.Drain.filter_eq_cons (List.nodup_finRange _) h, List.map_cons, dirtyWays_clear]
  refine congrArg ((k, w) :: ·) (congrArg _ (List.filter_congr fun u _ => ?_))
  simp only [getVictimCl, h, bne, decide_true, Bool.true_and, Option.some_beq_some]
  rw [BEq.comm]

theorem dirtyAt_eq_nil (h : ∀ w, A.dirtyWays k w = false) : A.dirtyAt k = [] := by
  rw [dirtyAt, List.filter_eq_nil_iff.2 fun w _ => by simp [h w]]
  rfl

theorem dirtyWays_of_clean (h : ∀ w, (A k w).valid = false ∧ (A k w).dirty = false) (w : Fin g.setAssoc) :
    A.dirtyWays k w = false := by
  rw [dirtyWays, (h w).1, Bool.false_and]

/-- With nothing left below, the write-back of the first dirty way takes off the head. -/
theorem dirtyLines_evict {w : Fin g.setAssoc} (hlt : ∀ idx < k, A.dirtyAt idx = [])
    (h : firstSet (A.dirtyWays k) = some w) :
    A.dirtyLines = (k, w) :: (A.clear k (getVictimCl (A.dirtyWays k))).dirtyLines :=
  Lib.Drain.items_pop hlt (dirtyAt_evict h) fun _ => dirtyAt_clear_of_ne _

/-- Of an index without a dirty way there is nothing to write back. -/
theorem dirtyLines_clear (v : Ways g) (h : ∀ w, A.dirtyWays k w = false) : (A.clear k v).dirtyLines = A.dirtyLines := by
  have hat : (A.clear k v).dirtyAt = A.dirtyAt := by
    funext idx
    by_cases hk : idx = k
    · rw [hk, dirtyAt_eq_nil h, dirtyAt_eq_nil fun w => by simp [dirtyWays_clear, h w]]
    · exact dirtyAt_clear_of_ne v hk
  rw [dirtyLines, hat, dirtyLines]

theorem Empty.dirtyLines (h : A.Empty) : A.dirtyLines = [] :=
  Lib.Drain.items_eq_nil fun k => dirtyAt_eq_nil (dirtyWays_of_clean (h k))

theorem mem_dirtyLines {l : Slot g} : l ∈ A.dirtyLines ↔ A.Dirty l := by
  obtain ⟨idx, w⟩ := l
  unfold dirtyLines
  rw [Lib.Drain.mem_items]
  refine ⟨fun ⟨j, hj⟩ => ?_, fun h => ⟨idx, List.mem_map.2 ⟨w, List.mem_filter.2 ⟨List.mem_finRange w, h⟩, rfl⟩⟩⟩
  obtain ⟨v, hv, he⟩ := List.mem_map.1 hj
  obtain ⟨rfl, rfl⟩ := Prod.mk.inj he
  exact (List.mem_filter.1 hv).2

/-- The order of the walk. -/
def Before (l m : Slot g) : Prop := l.1 < m.1 ∨ l.1 = m.1 ∧ l.2 < m.2

theorem pairwise_dirtyLines : A.dirtyLines.Pairwise Before := by
  refine Lib.Drain.pairwise_items (fun j => ?_) fun i j hij x hx y hy => ?_
  · rw [dirtyAt, List.pairwise_map]
    exact ((List.pairwise_lt_finRange _).filter _).imp fun h => .inr ⟨rfl, h⟩
  · obtain ⟨v, -, rfl⟩ := List.mem_map.1 hx
    obtain ⟨u, -, rfl⟩ := List.mem_map.1 hy
    exact .inl hij

theorem nodup_dirtyLines : A.dirtyLines.Nodup :=
  pairwise_dirtyLines.imp fun {l m} h he => by
    subst he
    rcases h with h | ⟨-, h⟩
    · exact absurd h (BitVec.lt_irrefl _)
    · exact absurd h (lt_irrefl _)

/-- The bursts of lines, in memory. -/
theorem foldl_perform (m : Mem) (ls : List (Slot g)) :
    (ls.map A.job).foldl Mem.perform m = Lib.Drain.storeAll m (ls.map A.stored) := by
  rw [List.foldl_map, Lib.Drain.storeAll, List.foldl_map]
  refine List.foldl_ext _ _ m fun m' l _ => ?_
  exact perform_lineJob m' _ _ _

end Arrays

/-- The arrays `A₀` have been written back to the memory `m₀` by the bursts of `log`, which has
become `m`: one for each dirty line. A word that is in none of them is as before; one that is, is
the line's, the last way's if the index has its tag twice. -/
structure WrittenBack (m₀ : Mem) (A₀ : Arrays g) (log : List (Job (Aw 4) W)) (m : Mem) : Prop where
  once : ∃ lines : List (Slot g), lines.Nodup ∧ (∀ l, l ∈ lines ↔ A₀.Dirty l) ∧ log = lines.map A₀.job
  kept : ∀ a, (∀ l k, A₀.Dirty l → a ≠ wordAddr (A₀ l.1 l.2).tag l.1 k) → m a = m₀ a
  written : ∀ l, A₀.Dirty l → (∀ v, l.2 < v → A₀.Dirty (l.1, v) → (A₀ l.1 v).tag ≠ (A₀ l.1 l.2).tag) →
    ∀ k, m (wordAddr (A₀ l.1 l.2).tag l.1 k) = (A₀ l.1 l.2).data k

theorem writtenBack {m₀ m : Mem} {A₀ : Arrays g} {log : List (Job (Aw 4) W)} (hlog : log = A₀.dirtyLines.map A₀.job)
    (hm : m = log.foldl Mem.perform m₀) : WrittenBack m₀ A₀ log m := by
  have hall : m = Lib.Drain.storeAll m₀ (A₀.dirtyLines.map A₀.stored) := by
    rw [hm, hlog, Arrays.foldl_perform]
  have hspec (a) := Lib.Drain.storeAll_map (g := A₀.stored) A₀.pairwise_dirtyLines m₀ a
  refine ⟨⟨A₀.dirtyLines, A₀.nodup_dirtyLines, fun _ => Arrays.mem_dirtyLines, hlog⟩, fun a ha => ?_, fun l hl hlast k => ?_⟩
  · rw [hall]
    exact (hspec a).1 fun l hl => lineStore_eq_none.2 fun k => ha l k (Arrays.mem_dirtyLines.1 hl)
  · rw [hall]
    refine (hspec _).2 l (Arrays.mem_dirtyLines.2 hl) _ (lineStore_wordAddr _ _ _ k) fun v hv hbefore => ?_
    refine lineStore_eq_none.2 fun k' hk' => ?_
    obtain ⟨htag, hidx, -⟩ := wordAddr_inj hk'
    obtain ⟨idx, v⟩ := v
    obtain rfl : l.1 = idx := hidx
    rcases hbefore with hlt | ⟨-, hlt⟩
    · exact absurd hlt (BitVec.lt_irrefl _)
    · exact hlast v hlt (Arrays.mem_dirtyLines.1 hv) htag.symm

/-! ### The walk -/

namespace Watched

variable (s : Watched g)

/-- A flush that is at an index: nothing is left below, and what is written back with what is left
is what there was. -/
structure Walk : Prop where
  below : ∀ idx < s.sys.h.cnt, ∀ w, (s.sys.arr idx w).valid = false ∧ (s.sys.arr idx w).dirty = false
  left : s.log ++ s.sys.arr.dirtyLines.map s.sys.arr.job = s.start.2.dirtyLines.map s.start.2.job
  mem : s.sys.mem = s.log.foldl Mem.perform s.start.1

/-- After it. -/
structure Walked : Prop where
  empty : s.sys.arr.Empty
  log : s.log = s.start.2.dirtyLines.map s.start.2.job
  mem : s.sys.mem = s.log.foldl Mem.perform s.start.1

/-- A way has been chosen. -/
structure Evicting : Prop where
  walk : s.Walk
  victim : ∃ w, firstSet (s.sys.arr.dirtyWays s.sys.h.cnt) = some w ∧
    s.sys.h.evictWay = getVictimCl (s.sys.arr.dirtyWays s.sys.h.cnt) ∧ s.sys.h.evictCl = s.sys.arr s.sys.h.cnt w

/-- What a state says of the flush. Only between the flush for an atomic and the atomic
`serve_amo_q` is up outside a flush. -/
def Phase : Prop :=
  match s.sys.h.state with
  | .flushReqStatus => s.Walk
  | .flushing => s.Walk ∧ s.sys.rdata = s.sys.arr s.sys.h.cnt
  | .wbCachelineFlush => s.Evicting
  | .idle => s.sys.h.serveAmo = true → s.Walked
  | _ => s.sys.h.serveAmo = false

structure Inv : Prop where
  linked : Linked s
  phase : s.Phase

end Watched

section Step

variable {s : Watched g} {i : In g}

theorem Arrays.write_of_not_we {A : Arrays g} {p : Sram g} (h : p.we = false) : A.write p = A := by
  funext idx w
  simp [Arrays.write, h]

/-- A cycle in which only the handler acts. -/
theorem next_quiet (hp : i.port = none) (hs : s.sys.h.state ≠ .idle) :
    (s.next i).start = s.start ∧ (s.next i).log = s.log ++ (s.sys.written i).toList ∧
      (s.next i).sys.mem = (s.sys.written i).toList.foldl Mem.perform s.sys.mem ∧
      (s.next i).sys.arr = s.sys.arr.write (s.sys.out i).sram := by
  have hf : s.fresh i = false := by simp [Watched.fresh, hp, hs]
  refine ⟨?_, ?_, ?_, ?_⟩
  · rw [Watched.next, hf]
    rfl
  · rw [Watched.next, hf]
    rfl
  · change s.sys.memD i = _
    rw [Sys.memD, hp]
    cases s.sys.written i <;> rfl
  · change s.sys.arrD i = _
    rw [Sys.arrD, hp]

/-- Without a request nothing is written. -/
theorem Linked.written_none (h : Linked s) (he : Env s i) (hv : fsmMissValid s.sys.h i.amo = false) :
    s.sys.written i = none := by
  rw [h.written he, hv, Bool.and_false, Bool.false_and]
  rfl

theorem next_flushReqStatus (h : s.Inv) (he : Env s i) (hs : s.sys.h.state = .flushReqStatus) : (s.next i).Phase := by
  have hw : s.Walk := by simpa only [Watched.Phase, hs] using h.phase
  obtain ⟨hstart, hlog, hmem, harr⟩ := next_quiet (he.port (.inl (by rw [hs]; rfl))) (by rw [hs]; decide)
  have hno := h.linked.written_none he (by rw [fsmMissValid, hs])
  have hout : s.sys.out i =
      { next := { s.sys.h with state := .flushing }
        sram := { Sram.none g with req := fun _ => true, addr := s.sys.h.cnt }
        missGnt := none, missO := false, lfsrEnable := false, flushAck := false, amoAck := false, amoResult := 0 } := by
    rw [Sys.out, cacheManagement, hs]
  have hread : (s.next i).sys.rdata = s.sys.arr s.sys.h.cnt := by
    have hreq : ∃ w : Fin g.setAssoc, (fun _ => true) w = true := ⟨0, rfl⟩
    change (if decide (∃ w, (s.sys.out i).sram.req w = true) && !(s.sys.out i).sram.we then _ else _) = _
    rw [hout]
    simp [Sram.none]
  have hh : (s.next i).sys.h = { s.sys.h with state := .flushing } := congrArg Out.next hout
  rw [hno] at hlog hmem
  rw [hout, Arrays.write_of_not_we rfl] at harr
  have hwalk : (s.next i).Walk := by
    refine ⟨?_, ?_, ?_⟩
    · rw [hh, harr]
      exact hw.below
    · rw [hlog, harr, hstart, Option.toList_none, List.append_nil]
      exact hw.left
    · rw [hmem, hlog, hstart, Option.toList_none, List.append_nil]
      exact hw.mem
  simp only [Watched.Phase, hh]
  exact ⟨hwalk, by rw [hread, harr]⟩

/-- The first dirty way is chosen. -/
theorem next_flushing_dirty (h : s.Inv) (he : Env s i) (hs : s.sys.h.state = .flushing)
    (hd : ∃ w, s.sys.arr.dirtyWays s.sys.h.cnt w = true) : (s.next i).Phase ∧ s.flushAck i = false := by
  obtain ⟨hw, hr⟩ : s.Walk ∧ s.sys.rdata = s.sys.arr s.sys.h.cnt := by simpa only [Watched.Phase, hs] using h.phase
  obtain ⟨hstart, hlog, hmem, harr⟩ := next_quiet (he.port (.inl (by rw [hs]; rfl))) (by rw [hs]; decide)
  have hno := h.linked.written_none he (by rw [fsmMissValid, hs])
  have hway : (fun w => (s.sys.rdata w).valid && (s.sys.rdata w).dirty) = s.sys.arr.dirtyWays s.sys.h.cnt := by
    rw [hr]
    rfl
  have hd' : ∃ w, ((s.sys.rdata w).valid && (s.sys.rdata w).dirty) = true := by
    obtain ⟨w, hw⟩ := hd
    exact ⟨w, (congrFun hway w).trans hw⟩
  have hout : s.sys.out i =
      { next :=
          { s.sys.h with
            state := .wbCachelineFlush, evictWay := getVictimCl (s.sys.arr.dirtyWays s.sys.h.cnt)
            evictCl := s.sys.rdata (oneHotToBin (s.sys.arr.dirtyWays s.sys.h.cnt)) }
        sram := .none g, missGnt := none, missO := false, lfsrEnable := false, flushAck := false, amoAck := false
        amoResult := 0 } := by
    rw [Sys.out, cacheManagement, hs]
    simp only [hway, hd', decide_true, if_true]
  have hh := congrArg Out.next hout
  obtain ⟨w, hfirst⟩ : ∃ w, firstSet (s.sys.arr.dirtyWays s.sys.h.cnt) = some w := by
    obtain ⟨w, hw⟩ := hd
    exact Option.isSome_iff_exists.1 (List.find?_isSome.2 ⟨w, List.mem_finRange w, hw⟩)
  rw [hno] at hlog hmem
  rw [hout, Arrays.write_of_not_we rfl] at harr
  refine ⟨?_, by rw [Watched.flushAck, hout]⟩
  have hstate : (s.next i).sys.h.state = .wbCachelineFlush := congrArg Regs.state hh
  have hcnt : (s.next i).sys.h.cnt = s.sys.h.cnt := by rw [show (s.next i).sys.h = _ from hh]
  simp only [Watched.Phase, hstate]
  refine ⟨⟨?_, ?_, ?_⟩, w, ?_, ?_, ?_⟩
  · rw [hcnt, harr]
    exact hw.below
  · rw [hlog, harr, hstart, Option.toList_none, List.append_nil]
    exact hw.left
  · rw [hmem, hlog, hstart, Option.toList_none, List.append_nil]
    exact hw.mem
  · rw [hcnt, harr]
    exact hfirst
  · rw [hcnt, harr]
    exact congrArg Regs.evictWay hh
  · rw [hcnt, harr]
    refine (congrArg Regs.evictCl hh).trans ?_
    rw [hr, oneHotToBin, hfirst, Option.getD_some]

/-- An index without a dirty way is invalidated, and after the last one the walk is over. -/
theorem next_flushing_clean (h : s.Inv) (he : Env s i) (hs : s.sys.h.state = .flushing)
    (hd : ∀ w, s.sys.arr.dirtyWays s.sys.h.cnt w = false) :
    (s.next i).Phase ∧ (s.flushAck i = true → (s.next i).Walked ∧ (s.next i).start = s.start) := by
  obtain ⟨hw, hr⟩ : s.Walk ∧ s.sys.rdata = s.sys.arr s.sys.h.cnt := by simpa only [Watched.Phase, hs] using h.phase
  obtain ⟨hstart, hlog, hmem, harr⟩ := next_quiet (he.port (.inl (by rw [hs]; rfl))) (by rw [hs]; decide)
  have hno := h.linked.written_none he (by rw [fsmMissValid, hs])
  have hway (w) : ((s.sys.rdata w).valid && (s.sys.rdata w).dirty) = false := by
    rw [hr]
    exact hd w
  have hout : s.sys.out i =
      { next :=
          { s.sys.h with
            cnt := s.sys.h.cnt + 1
            state := if s.sys.h.cnt == BitVec.allOnes _ then .idle else .flushReqStatus }
        sram := ⟨wayZero g, s.sys.h.cnt, true, .zero, false, false, fun _ => true⟩
        missGnt := none, missO := false, lfsrEnable := false
        flushAck := s.sys.h.cnt == BitVec.allOnes _ && !s.sys.h.serveAmo, amoAck := false, amoResult := 0 } := by
    rw [Sys.out, cacheManagement, hs]
    simp only [hway, Bool.false_eq_true, exists_const, decide_false, if_false]
  have hh := congrArg Out.next hout
  rw [hno, Option.toList_none] at hlog hmem
  rw [List.append_nil] at hlog
  rw [List.foldl_nil] at hmem
  have hclear : (s.next i).sys.arr = s.sys.arr.clear s.sys.h.cnt fun _ => true := by rw [harr, hout]; rfl
  have hstate : (s.next i).sys.h.state = if s.sys.h.cnt == BitVec.allOnes _ then .idle else .flushReqStatus :=
    congrArg Regs.state hh
  have hcnt : (s.next i).sys.h.cnt = s.sys.h.cnt + 1 := congrArg Regs.cnt hh
  -- the index is done as well
  have hbelow (idx) (hle : idx ≤ s.sys.h.cnt) (w) :
      ((s.next i).sys.arr idx w).valid = false ∧ ((s.next i).sys.arr idx w).dirty = false := by
    rw [hclear, Arrays.clear_apply]
    by_cases hidx : idx = s.sys.h.cnt
    · rw [if_pos ⟨hidx, rfl⟩]
      exact ⟨rfl, rfl⟩
    · rw [if_neg fun hc => hidx hc.1]
      exact hw.below idx (BitVec.lt_of_le_ne hle hidx) w
  have hleft : (s.next i).log ++ (s.next i).sys.arr.dirtyLines.map (s.next i).sys.arr.job =
      (s.next i).start.2.dirtyLines.map (s.next i).start.2.job := by
    have hjob : (s.next i).sys.arr.job = s.sys.arr.job := funext fun l => by rw [hclear, Arrays.job_clear]
    rw [hlog, hstart, hjob, hclear, Arrays.dirtyLines_clear _ hd]
    exact hw.left
  have hmem' : (s.next i).sys.mem = (s.next i).log.foldl Mem.perform (s.next i).start.1 := by
    rw [hmem, hlog, hstart]
    exact hw.mem
  have hwalked (hlast : s.sys.h.cnt = BitVec.allOnes _) : (s.next i).Walked := by
    have hempty : (s.next i).sys.arr.Empty := fun idx => hbelow idx (hlast ▸ Lib.Drain.le_allOnes idx)
    refine ⟨hempty, ?_, hmem'⟩
    rw [hempty.dirtyLines, List.map_nil, List.append_nil] at hleft
    exact hleft
  by_cases hlast : s.sys.h.cnt = BitVec.allOnes _
  · rw [hlast, beq_self_eq_true, if_pos rfl] at hstate
    refine ⟨?_, fun _ => ⟨hwalked hlast, hstart⟩⟩
    simp only [Watched.Phase, hstate]
    exact fun _ => hwalked hlast
  · rw [if_neg (by simpa using hlast)] at hstate
    refine ⟨?_, fun hack => ?_⟩
    · simp only [Watched.Phase, hstate]
      refine ⟨fun idx hidx => hbelow idx ?_, hleft, hmem'⟩
      rw [hcnt] at hidx
      exact Lib.Drain.le_of_lt_add_one hlast hidx
    · rw [Watched.flushAck, hout] at hack
      simp [hlast] at hack

/-- The way that has been chosen is written back. -/
theorem next_wbCachelineFlush (h : s.Inv) (he : Env s i) (hs : s.sys.h.state = .wbCachelineFlush) :
    (s.next i).Phase := by
  obtain ⟨hw, w, hfirst, hway, hcl⟩ : s.Evicting := by simpa only [Watched.Phase, hs] using h.phase
  obtain ⟨hstart, hlog, hmem, harr⟩ := next_quiet (he.port (.inl (by rw [hs]; rfl))) (by rw [hs]; decide)
  have hwr := h.linked.written he
  have hjob : adWrite (fsmMiss s.sys.h i.amo) = s.sys.arr.job (s.sys.h.cnt, w) := by
    rw [fsmMiss, hs, hcl]
    rfl
  rw [hjob] at hwr
  cases hg : (s.sys.adOut i).gnt with
  | false =>
    have hnext : (s.next i).sys.h = s.sys.h := by
      change (s.sys.out i).next = _
      rw [Sys.out, cacheManagement, hs, hg]
      simp
    have hsram : (s.sys.out i).sram.we = false := by
      rw [Sys.out, cacheManagement, hs, hg]
      simp [Sram.none]
    rw [hg] at hwr
    rw [show s.sys.written i = none from hwr] at hlog hmem
    rw [Arrays.write_of_not_we hsram] at harr
    simp only [Watched.Phase, hnext, hs]
    refine ⟨⟨?_, ?_, ?_⟩, w, ?_, ?_, ?_⟩
    · rw [hnext, harr]
      exact hw.below
    · rw [hlog, harr, hstart, Option.toList_none, List.append_nil]
      exact hw.left
    · rw [hmem, hlog, hstart, Option.toList_none, List.append_nil]
      exact hw.mem
    · rw [hnext, harr]
      exact hfirst
    · rw [hnext, harr]
      exact hway
    · rw [hnext, harr]
      exact hcl
  | true =>
    have hnext : (s.next i).sys.h = { s.sys.h with state := .flushReqStatus } := by
      change (s.sys.out i).next = _
      rw [Sys.out, cacheManagement, hs, hg]
      simp
    have hclear : (s.next i).sys.arr = s.sys.arr.clear s.sys.h.cnt (getVictimCl (s.sys.arr.dirtyWays s.sys.h.cnt)) := by
      rw [harr, ← hway, Sys.out, cacheManagement, hs, hg]
      rfl
    have hwritten : s.sys.written i = some (s.sys.arr.job (s.sys.h.cnt, w)) := by
      rw [hwr, hg, fsmMissValid, fsmMiss, hs]
      rfl
    rw [hwritten, Option.toList_some] at hlog hmem
    have hbelow (idx) (hlt : idx < s.sys.h.cnt) : s.sys.arr.dirtyAt idx = [] :=
      Arrays.dirtyAt_eq_nil (Arrays.dirtyWays_of_clean (hw.below idx hlt))
    have hdirty := Arrays.dirtyLines_evict hbelow hfirst
    simp only [Watched.Phase, hnext]
    refine ⟨fun idx hlt v => ?_, ?_, ?_⟩
    · rw [hnext] at hlt
      rw [hclear, Arrays.clear_apply, if_neg fun hc => BitVec.ne_of_lt hlt hc.1]
      exact hw.below idx hlt v
    · have hjobs : (s.next i).sys.arr.job = s.sys.arr.job := funext fun l => by rw [hclear, Arrays.job_clear]
      rw [hlog, hstart, hjobs, hclear, List.append_assoc, List.singleton_append, ← List.map_cons, ← hdirty]
      exact hw.left
    · rw [hmem, hlog, hstart, List.foldl_append, ← hw.mem]

/-- Where the handler goes from `IDLE`. An atomic begins only after the flush for it. -/
theorem idle_cases {s : Sys g} (hs : s.h.state = .idle) :
    (s.out i).sram.we = false ∧ (s.out i).flushAck = false ∧ (s.out i).amoAck = false ∧
      (s.out i).next.reservation = s.h.reservation ∧
      ((s.out i).next = s.h ∨
        (s.out i).next.state = .flushReqStatus ∧ (s.out i).next.cnt = 0 ∨
        (s.out i).next.state = .amoLoad ∧ (s.out i).next.serveAmo = false ∧ s.h.serveAmo = true ∨
        (s.out i).next.state = .miss ∧ (s.out i).next.serveAmo = false) := by
  unfold Sys.out cacheManagement
  rw [hs]
  dsimp only
  refine ⟨rfl, rfl, rfl, ?_, ?_⟩
  all_goals
    cases (List.finRange 3).find? fun k => (i.missReq k).valid && !(i.missReq k).bypass
    all_goals
      cases i.flush && !i.busy <;> cases i.amoReq && !i.busy <;> cases s.h.serveAmo <;> simp

/-- What the flush for an atomic has left stays, as long as no other begins. -/
theorem walked_of_idle (h : s.Inv) (he : Env s i) (hs : s.sys.h.state = .idle) (hserve : s.sys.h.serveAmo = true)
    (hnext : (s.sys.out i).next.state ≠ .flushReqStatus) : (s.next i).Walked := by
  have hw : s.sys.h.serveAmo = true → s.Walked := by simpa only [Watched.Phase, hs] using h.phase
  obtain ⟨hempty, hlog, hmem⟩ := hw hserve
  have hno := h.linked.written_none he (by rw [fsmMissValid, hs])
  have hwe := (idle_cases (i := i) hs).1
  cases hp : i.port with
  | none =>
    have hf : s.fresh i = false := by simp [Watched.fresh, hp, hnext]
    have harr : (s.next i).sys.arr = s.sys.arr := by
      change s.sys.arrD i = _
      rw [Sys.arrD, hp]
      exact Arrays.write_of_not_we hwe
    have hmem' : (s.next i).sys.mem = s.sys.mem := by
      change s.sys.memD i = _
      rw [Sys.memD, hp, hno]
    refine ⟨?_, ?_, ?_⟩
    · rw [harr]
      exact hempty
    · simpa [Watched.next, hf, hno] using hlog
    · rw [hmem']
      simpa [Watched.next, hf, hno] using hmem
  | some p =>
    have hf : s.fresh i = true := by simp [Watched.fresh, hp]
    have harr : (s.next i).sys.arr = s.sys.arr := by
      change s.sys.arrD i = _
      rw [Sys.arrD, hp]
      exact he.kept hs hserve p hp
    have hempty' : (s.next i).sys.arr.Empty := harr ▸ hempty
    have hstart : (s.next i).start = ((s.next i).sys.mem, (s.next i).sys.arr) := if_pos hf
    have hlog' : (s.next i).log = [] := if_pos hf
    refine ⟨hempty', ?_, ?_⟩
    · rw [hlog', hstart, hempty'.dirtyLines, List.map_nil]
    · rw [hlog', hstart, List.foldl_nil]

theorem next_idle (h : s.Inv) (he : Env s i) (hs : s.sys.h.state = .idle) : (s.next i).Phase := by
  obtain ⟨-, -, -, -, hnext | ⟨hstate, hcnt⟩ | ⟨hstate, hserve, -⟩ | ⟨hstate, hserve⟩⟩ := idle_cases (i := i) hs
  · have hh : (s.next i).sys.h = s.sys.h := hnext
    simp only [Watched.Phase, hh, hs]
    exact fun hserve => walked_of_idle h he hs hserve (by rw [hnext, hs]; decide)
  · -- a flush begins
    have hf : s.fresh i = true := by simp [Watched.fresh, hs, hstate]
    have hstart : (s.next i).start = ((s.next i).sys.mem, (s.next i).sys.arr) := if_pos hf
    have hlog : (s.next i).log = [] := if_pos hf
    have hstate' : (s.next i).sys.h.state = .flushReqStatus := hstate
    have hcnt' : (s.next i).sys.h.cnt = 0 := hcnt
    simp only [Watched.Phase, hstate']
    refine ⟨fun idx hlt => ?_, ?_, ?_⟩
    · rw [hcnt'] at hlt
      exact absurd hlt BitVec.not_lt_zero
    · rw [hlog, hstart, List.nil_append]
    · rw [hlog, hstart, List.foldl_nil]
  all_goals
    have hstate' := show (s.next i).sys.h.state = _ from hstate
    simp only [Watched.Phase, hstate']
    exact hserve

/-- The other states neither begin a flush nor touch `serve_amo_q`. -/
theorem next_others {s : Sys g} (hi : s.h.state ≠ .idle) (hf : s.h.state.flushes = false) :
    (s.out i).next.serveAmo = s.h.serveAmo ∧ (s.out i).next.state.flushes = false ∧ (s.out i).flushAck = false := by
  unfold Sys.out cacheManagement
  cases hs : s.h.state <;> rw [hs] at hi hf
  case idle => exact absurd rfl hi
  case flushing | flushReqStatus | wbCachelineFlush => cases hf
  all_goals
    dsimp only
    repeat' split
    all_goals simp_all [State.flushes]

theorem phase_of_serveAmo (h : s.sys.h.serveAmo = false) (hf : s.sys.h.state.flushes = false) : s.Phase := by
  unfold Watched.Phase
  cases hs : s.sys.h.state <;> rw [hs] at hf
  case flushing | flushReqStatus | wbCachelineFlush => cases hf
  case idle => exact fun hc => by rw [h] at hc; cases hc
  all_goals exact h

theorem serveAmo_of_phase (h : s.Phase) (hi : s.sys.h.state ≠ .idle) (hf : s.sys.h.state.flushes = false) :
    s.sys.h.serveAmo = false := by
  unfold Watched.Phase at h
  cases hs : s.sys.h.state <;> rw [hs] at h hi hf
  case idle => exact absurd rfl hi
  case flushing | flushReqStatus | wbCachelineFlush => cases hf
  all_goals exact h

theorem Watched.Inv.next (h : s.Inv) (he : Env s i) : (s.next i).Inv where
  linked := h.linked.next he
  phase := by
    by_cases hi : s.sys.h.state = .idle
    · exact next_idle h he hi
    cases hf : s.sys.h.state.flushes with
    | false =>
      obtain ⟨hserve, hstate, -⟩ := next_others (i := i) hi hf
      exact phase_of_serveAmo (s := s.next i) (hserve.trans (serveAmo_of_phase h.phase hi hf)) hstate
    | true =>
      cases hs : s.sys.h.state <;> rw [hs] at hf
      case flushReqStatus => exact next_flushReqStatus h he hs
      case wbCachelineFlush => exact next_wbCachelineFlush h he hs
      case flushing =>
        by_cases hd : ∃ w, s.sys.arr.dirtyWays s.sys.h.cnt w = true
        · exact (next_flushing_dirty h he hs hd).1
        · exact (next_flushing_clean h he hs fun w => by simpa using fun hw => hd ⟨w, hw⟩).1
      all_goals cases hf

theorem inv_init (h : (watched g).init s) : s.Inv := by
  refine ⟨linked_init h, ?_⟩
  have hh := h.1
  exact phase_of_serveAmo (by rw [hh]; rfl) (by rw [hh]; rfl)

end Step

/-! ### The result -/

/-- After a cycle of an acknowledgement, whatever the flush found has been written back, and the
arrays are empty. -/
structure Flushed (s : Watched g) (i : In g) : Prop where
  back : WrittenBack s.start.1 s.start.2 (s.next i).log (s.next i).sys.mem
  empty : (s.next i).sys.arr.Empty

theorem Watched.Walked.writtenBack {s : Watched g} (h : s.Walked) :
    WrittenBack s.start.1 s.start.2 s.log s.sys.mem := Nbdcache.writtenBack h.log h.mem

theorem Watched.Inv.flushed {s : Watched g} {i : In g} (h : s.Inv) (he : Env s i) (hack : s.flushAck i = true) :
    Flushed s i := by
  have hs : s.sys.h.state = .flushing := by
    by_contra hs
    by_cases hi : s.sys.h.state = .idle
    · exact absurd ((idle_cases (i := i) hi).2.1.symm.trans hack) Bool.false_ne_true
    cases hf : s.sys.h.state.flushes with
    | false => exact absurd ((next_others (i := i) hi hf).2.2.symm.trans hack) Bool.false_ne_true
    | true =>
      unfold Watched.flushAck Sys.out cacheManagement at hack
      cases hs' : s.sys.h.state <;> rw [hs'] at hf hack <;> simp only at hack
      case flushReqStatus => cases hack
      case wbCachelineFlush => split at hack <;> cases hack
      case flushing => exact hs hs'
      all_goals cases hf
  by_cases hd : ∃ w, s.sys.arr.dirtyWays s.sys.h.cnt w = true
  · rw [(next_flushing_dirty h he hs hd).2] at hack
    cases hack
  · obtain ⟨hw, hstart⟩ := (next_flushing_clean h he hs fun w => by simpa using fun hw => hd ⟨w, hw⟩).2 hack
    exact ⟨hstart ▸ hw.writtenBack, hw.empty⟩

/-- Two ways of two lines, of two words. -/
def smallGeom : Geom := ⟨1, 1, 1, 2, arianeGeom.wordBits_pos, arianeGeom.wordBits_le, by decide⟩

def smallReset : Watched smallGeom where
  sys := ⟨.reset, fun _ _ => .zero, fun _ => .zero, ⟨.reset, none, [], [], none, none, 0, 0⟩, fun _ => 0, none⟩
  start := (fun _ => 0, fun _ _ => .zero)
  log := []
  taken := ⟨.none, 3, 0, 0⟩
  base := fun _ => 0
  acked := []

/-- An input in which nothing is asked for and the AXI channels are ready. -/
def smallIn (flush : Bool) (port : Option (Mem × Arrays smallGeom)) : In smallGeom where
  flush := flush
  busy := false
  missReq := fun _ => ⟨false, false, 0, false, 0, 0⟩
  amoReq := false
  amo := ⟨.none, 3, 0, 0⟩
  lfsr := 0
  axi := ⟨true, true, true, true, 0, false, 0, 0, false⟩
  rdata := fun _ => .zero
  port := port

/-- After the initialisation both ways of an index are dirty, and the cache is flushed. -/
def dirtyRun : List (In smallGeom) :=
  let both : Arrays smallGeom := fun k w => ⟨BitVec.ofNat 1 w, fun o => BitVec.ofNat 64 (4 + 2 * w + o.toNat), k == 1, k == 1⟩
  [smallIn false none, smallIn false none, smallIn false (some (fun _ => 0, both)), smallIn true none] ++
    (List.replicate 14 (smallIn true none))

/-- A run without atomics, in which the ports act only outside a flush. -/
theorem env_of_plain {g : Geom} {s : Watched g} {i : In g}
    (h : s.sys.h.state.amo = false ∧ i.axi.rValid = false ∧
      (i.port.isNone = true ∨ s.sys.h.state.flushes = false ∧ s.sys.h.serveAmo = false)) : Env s i where
  port hf := by
    rcases h.2.2 with hp | ⟨hno, -⟩
    · exact Option.isNone_iff_eq_none.1 hp
    · rw [hno, h.1] at hf
      simp at hf
  kept _ hserve p hp := by
    rcases h.2.2 with hn | ⟨-, hno⟩
    · rw [Option.isNone_iff_eq_none.1 hn] at hp
      cases hp
    · rw [hno] at hserve
      cases hserve
  amo ha := by
    rw [h.1] at ha
    cases ha
  read hr := by
    rw [h.2.1] at hr
    cases hr

end Nbdcache
end Ariane

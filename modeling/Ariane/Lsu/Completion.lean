/-
# The loads and their answers

The load unit (`src/load_unit.sv`) on a read port of the data cache
(`src/cache_subsystem/wt_dcache_ctrl.sv`). What the load unit is given is the load at the head
of the LSU's FIFO, the answers of the MMU and of the store buffer and the flush; the cache
controller is given whatever the arrays and the miss unit say, so that a request is granted and
answered at any time.

`Tracked` numbers the loads in the order in which they leave the FIFO. It notes the load that
has its descriptor in the unit, the load whose request the cache has taken, and the load whose
translation was asked for in the cycle before. Each load that leaves the FIFO ends once, with its
own id, with an exception or with the answer to its own request, and the answers come in order
(`Accounted`, `Completes`).

That is so as long as no exception comes in the cycle of an answer (`Apart`), the tag cycle and
the kill after a flush excepted. There the exception goes out with the answer, whichever load
that is for.
-/
import Ariane.Dcache.Cache
import Ariane.Lib.Machine
import Ariane.Lsu.Queue

namespace Ariane
namespace Lsu
namespace Completion

open Dcache (Geom ReqPort)
open Lib (Machine)
open Queue (loadWaits)

variable {g : Geom}

/-! ### The unit and the cache port -/

structure Regs (g : Geom) where
  ld : LoadRegs
  cache : Dcache.Ctrl.Regs g

def reset : Regs g := ⟨⟨.idle, ⟨0, 0, .add⟩⟩, Dcache.Ctrl.reset⟩

/-- `valid` and `ctrl` are the load at the head of the FIFO, `paddr` is the translation of the
request of the cycle before, and `cache` is what the controller sees of the cache behind it. -/
structure In (g : Geom) where
  flush : Bool
  valid : Bool
  ctrl : LsuCtrl
  ex : Exn
  dtlbHit : Bool
  pageOffsetMatches : Bool
  paddr : BitVec 64
  cache : Dcache.Ctrl.In g

/-- What the load unit sees, with the answers of the cache. -/
def In.load (i : In g) (gnt rvalid : Bool) : LoadIn :=
  ⟨i.flush, i.valid, i.ctrl, i.ex, i.dtlbHit, i.pageOffsetMatches, gnt, rvalid⟩

def idxOf (a : BitVec 64) : BitVec g.clIdxWidth := a.extractLsb' (g.wordWidth + 3) g.clIdxWidth
def wordOf (a : BitVec 64) : BitVec g.wordWidth := a.extractLsb' 3 g.wordWidth
def byteOf (a : BitVec 64) : Fin 8 := (a.extractLsb' 0 3).toFin
def tagOf (a : BitVec 64) : BitVec g.tagWidth := a.extractLsb' (g.clIdxWidth + g.wordWidth + 3) g.tagWidth

section Comb

variable (s : Regs g) (i : In g)

/-- `req_port_o`. The request does not wait for the grant. -/
def reqPort : ReqPort g :=
  let o := Load.control s.ld (i.load false false)
  { dataReq := o.dataReq
    idx := idxOf i.ctrl.vaddr
    word := wordOf i.ctrl.vaddr
    byte := byteOf i.ctrl.vaddr
    size := extractTransferSize i.ctrl.operator
    tag := tagOf i.paddr
    tagValid := o.tagValid
    kill := o.killReq }

def fsm : Dcache.Ctrl.Fsm := Dcache.Ctrl.fsm s.cache (reqPort s i) i.cache

def loadIn : LoadIn := i.load (fsm s i).gnt (fsm s i).rvalid

def out : LoadOut := Load.control s.ld (loadIn s i)

/-- `valid_o` and `trans_id_o`. -/
def rvalidO : Bool × BitVec 3 := Load.rvalidOutput s.ld (loadIn s i)

def next : Regs g where
  ld := Load.next s.ld (loadIn s i)
  cache := Dcache.Ctrl.next s.cache (reqPort s i) i.cache

end Comb

/-! ### The loads -/

/-- A load whose descriptor is in the unit. Its tag is there from the tag cycle on. -/
structure Pending (g : Geom) where
  num : ℕ
  ctrl : LsuCtrl
  tag : Option (BitVec g.tagWidth)

/-- The number and the id of the load. -/
def waiting (w : Option (Pending g)) : List (ℕ × BitVec 3) := (w.map fun p => (p.num, p.ctrl.transId)).toList

/-- A request that the cache has taken, with the load that made it. It is stale once a flush has
come. -/
structure Flight where
  num : ℕ
  stale : Bool
deriving DecidableEq

structure Tracked (g : Geom) where
  unit : Regs g
  /-- How many loads have left the FIFO, or were flushed. -/
  num : ℕ
  /-- The load that stays at the head, and the flush, of the cycle before. -/
  head : Option LsuCtrl
  flushed : Bool
  /-- The load whose translation was asked for in the cycle before. -/
  asked : Option ℕ
  wait : Option (Pending g)
  flight : Option Flight
  /-- The loads since the last flush: those that left the FIFO, and those that ended with data
  and with an exception. -/
  taken : List (ℕ × BitVec 3)
  answered : List (ℕ × BitVec 3)
  excepted : List (ℕ × BitVec 3)

def trackedReset : Tracked g := ⟨reset, 0, none, false, none, none, none, [], [], []⟩

namespace Tracked

variable (t : Tracked g) (i : In g)

/-- The load at the head ends with an exception. -/
def headExcepts : Bool := i.valid && i.ex.valid && !(fsm t.unit i).rvalid

/-- The number of the load that ends, if one does. -/
def ends : ℕ := if t.headExcepts i then t.num else (t.wait.map Pending.num).getD t.num

def waitD : Option (Pending g) :=
  if i.flush then none
  else if (out t.unit i).popLd && !i.ex.valid then some ⟨t.num, i.ctrl, none⟩
  else if (fsm t.unit i).rvalid then none
  else t.wait.map fun p => if t.unit.ld.state = .sendTag then { p with tag := some (tagOf i.paddr) } else p

def flightD : Option Flight :=
  let f := if (fsm t.unit i).rvalid then none else t.flight
  let f := if (fsm t.unit i).gnt then some ⟨t.num, false⟩ else f
  if i.flush then f.map fun f => { f with stale := true } else f

def next : Tracked g where
  unit := Completion.next t.unit i
  num := t.num + (i.flush || (out t.unit i).popLd).toNat
  head := if i.valid && !i.flush && !(out t.unit i).popLd then some i.ctrl else none
  flushed := i.flush
  asked := if (out t.unit i).translationReq && !i.flush then some t.num else none
  wait := t.waitD i
  flight := t.flightD i
  taken := if i.flush then [] else t.taken ++ if (out t.unit i).popLd then [(t.num, i.ctrl.transId)] else []
  answered := if i.flush then [] else
    t.answered ++ if (rvalidO t.unit i).1 && !i.ex.valid then [(t.ends i, (rvalidO t.unit i).2)] else []
  excepted := if i.flush then [] else
    t.excepted ++ if (rvalidO t.unit i).1 && i.ex.valid then [(t.ends i, (rvalidO t.unit i).2)] else []

end Tracked

def loads (g : Geom) : Machine (Tracked g) (In g) := ⟨(· = trackedReset), Tracked.next⟩

/-- A load stays at the head until it is popped or flushed, and none is there in the cycle after
a flush. -/
def Held (t : Tracked g) (i : In g) : Prop :=
  (∀ c ∈ t.head, i.valid = true ∧ i.ctrl = c) ∧ (t.flushed = true → i.valid = false)

instance (t : Tracked g) (i : In g) : Decidable (Held t i) :=
  inferInstanceAs (Decidable ((∀ c ∈ t.head, i.valid = true ∧ i.ctrl = c) ∧ (t.flushed = true → i.valid = false)))

/-- An exception comes in the cycle of an answer only in the tag cycle and in the kill after a
flush. -/
def Apart (t : Tracked g) (i : In g) : Prop :=
  i.ex.valid = true → (fsm t.unit i).rvalid = true → t.unit.ld.state = .sendTag ∨ t.unit.ld.state = .waitFlush

instance (t : Tracked g) (i : In g) : Decidable (Apart t i) :=
  inferInstanceAs (Decidable (i.ex.valid = true → (fsm t.unit i).rvalid = true →
    t.unit.ld.state = .sendTag ∨ t.unit.ld.state = .waitFlush))

/-- Each load that left the FIFO has ended, once and with its own id, or waits for its answer,
and the answers come in the order of the loads. -/
structure Accounted (t : Tracked g) : Prop where
  once : t.taken.Perm (t.answered ++ t.excepted ++ waiting t.wait)
  order : (t.answered ++ waiting t.wait).Sublist t.taken

/-- The cache answers the request of the load `p`, and the unit holds the descriptor of `p`. -/
structure AnswersOwn (t : Tracked g) (i : In g) (p : Pending g) : Prop where
  rvalid : (fsm t.unit i).rvalid = true
  kill : (out t.unit i).killReq = false
  flight : t.flight = some ⟨p.num, false⟩
  paddr : { t.unit.cache.paddr with tag := Dcache.Ctrl.rdTagO t.unit.cache (reqPort t.unit i) } =
    (⟨⟨⟨p.tag.getD (tagOf i.paddr), idxOf p.ctrl.vaddr⟩, wordOf p.ctrl.vaddr⟩, byteOf p.ctrl.vaddr⟩ : Dcache.Addr g)
  size : t.unit.cache.size = extractTransferSize p.ctrl.operator
  data : t.unit.ld.loadData = ⟨p.ctrl.transId, p.ctrl.vaddr.extractLsb' 0 3, p.ctrl.operator⟩

/-- How a load ends in a cycle: with the answer to its own request, with the exception of its own
translation in the tag cycle, or, at the head of the FIFO, with its own exception or that of
a memory operation in front of it. And a request from before a flush ends no load. -/
structure Completes (t : Tracked g) (i : In g) : Prop where
  data : (rvalidO t.unit i).1 = true → i.ex.valid = false →
    ∃ p, t.wait = some p ∧ (rvalidO t.unit i).2 = p.ctrl.transId ∧ AnswersOwn t i p
  exn : (rvalidO t.unit i).1 = true → i.ex.valid = true →
    (∃ p, t.wait = some p ∧ (rvalidO t.unit i).2 = p.ctrl.transId ∧ t.asked = some p.num) ∨
      (i.valid = true ∧ (rvalidO t.unit i).2 = i.ctrl.transId ∧
        ∀ k, t.asked = some k → k = t.num ∨ ∃ x, (k, x) ∈ t.excepted)
  stale : ∀ f, t.flight = some f → f.stale = true → (fsm t.unit i).rvalid = true → (rvalidO t.unit i).1 = false

/-! ### The load unit -/

section Load

variable (s : LoadRegs) (j : LoadIn)

/-- The end of the process changes the state and the pop only. -/
theorem control_port : (Load.control s j).killReq = (Load.stateCase s j).killReq ∧
    (Load.control s j).tagValid = (Load.stateCase s j).tagValid ∧
    (Load.control s j).dataReq = (Load.stateCase s j).dataReq ∧
    (Load.control s j).translationReq = (Load.stateCase s j).translationReq := by
  unfold Load.control
  dsimp only
  split_ifs <;> exact ⟨rfl, rfl, rfl, rfl⟩

theorem killReq_eq : (Load.control s j).killReq =
    (s.state == .abortTransaction || s.state == .waitFlush || s.state == .sendTag && j.ex.valid) := by
  rw [(control_port s j).1]
  cases hst : s.state <;> cases hv : j.valid <;> cases hm : j.pageOffsetMatches <;> cases hg : j.dataGnt <;>
    cases hd : j.dtlbHit <;> cases hx : j.ex.valid <;>
    simp [Load.stateCase, Load.newLoad, Load.request, Load.defaults, hst, hv, hm, hg, hd, hx]

theorem tagValid_eq : (Load.control s j).tagValid =
    (s.state == .abortTransaction || s.state == .waitFlush || s.state == .sendTag) := by
  rw [(control_port s j).2.1]
  cases hst : s.state <;> cases hv : j.valid <;> cases hm : j.pageOffsetMatches <;> cases hg : j.dataGnt <;>
    cases hd : j.dtlbHit <;> cases hx : j.ex.valid <;>
    simp [Load.stateCase, Load.newLoad, Load.request, Load.defaults, hst, hv, hm, hg, hd, hx]

theorem dataReq_eq : (Load.control s j).dataReq = (s.state == .waitGnt ||
    (s.state == .idle || s.state == .sendTag) && j.valid && !j.pageOffsetMatches) := by
  rw [(control_port s j).2.2.1]
  cases hst : s.state <;> cases hv : j.valid <;> cases hm : j.pageOffsetMatches <;> cases hg : j.dataGnt <;>
    cases hd : j.dtlbHit <;> cases hx : j.ex.valid <;>
    simp [Load.stateCase, Load.newLoad, Load.request, Load.defaults, hst, hv, hm, hg, hd, hx]

/-- A request goes with a request to the MMU. -/
theorem translationReq_of_dataReq (h : (Load.control s j).dataReq = true) :
    (Load.control s j).translationReq = true := by
  rw [dataReq_eq] at h
  rw [(control_port s j).2.2.2]
  cases hst : s.state <;> cases hv : j.valid <;> cases hm : j.pageOffsetMatches <;> cases hg : j.dataGnt <;>
    cases hd : j.dtlbHit <;> cases hx : j.ex.valid <;>
    simp [Load.stateCase, Load.newLoad, Load.request, Load.defaults, hst, hv, hm, hg, hd, hx] at h ⊢

theorem popLd_eq : (Load.control s j).popLd =
    (j.ex.valid && j.valid && !j.dataRvalid || (Load.control s j).dataReq && j.dataGnt && j.dtlbHit) := by
  have hcase : (Load.stateCase s j).popLd = ((Load.stateCase s j).dataReq && j.dataGnt && j.dtlbHit) := by
    cases hst : s.state <;> cases hv : j.valid <;> cases hm : j.pageOffsetMatches <;> cases hg : j.dataGnt <;>
      cases hd : j.dtlbHit <;> cases hx : j.ex.valid <;>
      simp [Load.stateCase, Load.newLoad, Load.request, Load.defaults, hst, hv, hm, hg, hd, hx]
  rw [(control_port s j).2.2.1, ← hcase]
  unfold Load.control
  cases hx : (j.ex.valid && j.valid) <;> cases hr : j.dataRvalid <;> cases hf : j.flush <;> simp

/-- Where the unit goes without a flush. -/
theorem stateD_spec (hf : j.flush = false) :
    let o := Load.control s j
    o.stateD ≠ .waitFlush ∧
    (o.stateD = .sendTag ∨ o.stateD = .abortTransaction →
      (o.dataReq && j.dataGnt) = true ∧ (j.ex.valid && j.valid) = false ∧
        (j.dtlbHit = true ↔ o.stateD = .sendTag)) ∧
    (o.stateD = .waitTranslation → s.state = .abortTransaction ∨ s.state = .waitTranslation) ∧
    ((o.dataReq && j.dataGnt) = true → (j.ex.valid && j.valid) = true ∨
      o.stateD = .sendTag ∨ o.stateD = .abortTransaction) := by
  dsimp only
  cases hx : (j.ex.valid && j.valid) with
  | true =>
    have hs : (Load.control s j).stateD = .idle := by simp [Load.control, hf, hx]
    rw [hs]
    simp
  | false =>
    have ho : Load.control s j = Load.stateCase s j := by simp [Load.control, hf, hx]
    rw [ho]
    cases hst : s.state <;> cases hv : j.valid <;> cases hm : j.pageOffsetMatches <;> cases hg : j.dataGnt <;>
      cases hd : j.dtlbHit <;> cases he : j.ex.valid <;>
      simp [Load.stateCase, Load.newLoad, Load.request, Load.defaults, hst, hv, hm, hg, hd, he]

end Load

/-! ### The cache port -/

section Port

variable (c : Dcache.Ctrl.Regs g) (r : ReqPort g) (k : Dcache.Ctrl.In g)

/-- The controller has the tag of the request that it works on. -/
def tagged : Dcache.Ctrl.State → Prop
  | .missReq | .missWait | .replayReq | .replayRead => True
  | _ => False

/-- The controller owes an answer. -/
def owes (st : Dcache.Ctrl.State) : Prop := st = .read ∨ tagged st

/-- A grant starts a request: from idle, or with the answer to the request before. -/
theorem fsm_gnt (h : (Dcache.Ctrl.fsm c r k).gnt = true) :
    r.dataReq = true ∧ (Dcache.Ctrl.fsm c r k).stateD = .read ∧
      (c.state = .idle ∧ (Dcache.Ctrl.fsm c r k).rvalid = false ∨
        owes c.state ∧ r.kill = false ∧ (Dcache.Ctrl.fsm c r k).rvalid = true) := by
  unfold Dcache.Ctrl.fsm at h ⊢
  cases hst : c.state <;> simp only [hst] at h ⊢ <;> split_ifs at h ⊢ <;> simp_all [owes, tagged]

/-- An answer without a grant ends the request. -/
theorem fsm_rvalid (h : (Dcache.Ctrl.fsm c r k).rvalid = true) (hg : (Dcache.Ctrl.fsm c r k).gnt = false) :
    owes c.state ∧ ¬owes (Dcache.Ctrl.fsm c r k).stateD ∧
      (r.kill = false ∨ c.state = .read → (Dcache.Ctrl.fsm c r k).stateD = .idle) := by
  unfold Dcache.Ctrl.fsm at h hg ⊢
  cases hst : c.state <;> simp only [hst] at h hg ⊢ <;> split_ifs at h hg ⊢ <;> simp_all [owes, tagged]

/-- Otherwise the request goes on. -/
theorem fsm_quiet (h : (Dcache.Ctrl.fsm c r k).rvalid = false) (hg : (Dcache.Ctrl.fsm c r k).gnt = false) :
    (owes c.state → r.kill = false) ∧ (tagged c.state → tagged (Dcache.Ctrl.fsm c r k).stateD) ∧
      (c.state = .read → if r.tagValid then tagged (Dcache.Ctrl.fsm c r k).stateD
        else (Dcache.Ctrl.fsm c r k).stateD = .read) ∧
      (c.state = .idle → (Dcache.Ctrl.fsm c r k).stateD = .idle) ∧
      (¬owes c.state → ¬owes (Dcache.Ctrl.fsm c r k).stateD) := by
  unfold Dcache.Ctrl.fsm at h hg ⊢
  cases hst : c.state <;> simp only [hst] at h hg ⊢ <;> split_ifs at h hg ⊢ <;> simp_all [owes, tagged]

/-- A request without a tag is not answered. -/
theorem fsm_untagged (hst : c.state = .read) (hk : r.kill = false) (ht : r.tagValid = false) :
    (Dcache.Ctrl.fsm c r k).rvalid = false ∧ (Dcache.Ctrl.fsm c r k).gnt = false := by
  simp [Dcache.Ctrl.fsm, hst, hk, ht]

end Port

/-! ### What can happen in a cycle -/

/-- The load `p` waits for its answer. -/
structure Waits (t : Tracked g) (p : Pending g) : Prop where
  flight : t.flight = some ⟨p.num, false⟩
  data : t.unit.ld.loadData = ⟨p.ctrl.transId, p.ctrl.vaddr.extractLsb' 0 3, p.ctrl.operator⟩
  idx : t.unit.cache.paddr.idx = idxOf p.ctrl.vaddr
  word : t.unit.cache.paddr.word = wordOf p.ctrl.vaddr
  byte : t.unit.cache.paddr.byte = byteOf p.ctrl.vaddr
  size : t.unit.cache.size = extractTransferSize p.ctrl.operator
  tag : t.unit.ld.state = .sendTag ∨ tagged t.unit.cache.state ∧ p.tag = some t.unit.cache.paddr.tag

structure Inv (t : Tracked g) : Prop where
  head : loadWaits t.unit.ld.state → ∃ c, t.head = some c
  waitFlush : t.unit.ld.state = .waitFlush → t.flushed = true ∧ t.wait = none
  sendTag : t.unit.ld.state = .sendTag → t.unit.cache.state = .read ∧
    ∃ p, t.wait = some p ∧ p.tag = none ∧ t.asked = some p.num
  abort : t.unit.ld.state = .abortTransaction → t.unit.cache.state = .read ∧ t.wait = none
  translation : t.unit.ld.state = .waitTranslation → t.unit.cache.state = .idle
  wait : ∀ p, t.wait = some p → Waits t p
  settled : t.wait = none → t.unit.ld.state = .waitFlush ∨ ¬tagged t.unit.cache.state
  flight : t.flight.isSome = true ↔ owes t.unit.cache.state
  stale : ∀ f, t.flight = some f → f.stale = true → t.unit.ld.state = .waitFlush
  asked : ∀ k, t.asked = some k → t.unit.ld.state = .sendTag ∨ k = t.num ∨ ∃ x, (k, x) ∈ t.excepted
  accounted : Accounted t

/-- What happens to the loads in a cycle. -/
inductive Event (t : Tracked g) (i : In g) : Prop
  | quiet (rvalid : (fsm t.unit i).rvalid = false) (ex : (i.valid && i.ex.valid) = false)
    (valid : (rvalidO t.unit i).1 = false)
  | head (rvalid : (fsm t.unit i).rvalid = false) (valid : i.valid = true) (ex : i.ex.valid = true)
    (pop : (out t.unit i).popLd = true) (done : rvalidO t.unit i = (true, i.ctrl.transId))
  | killed (rvalid : (fsm t.unit i).rvalid = true) (gnt : (fsm t.unit i).gnt = false) (wait : t.wait = none)
    (pop : (out t.unit i).popLd = false) (valid : (rvalidO t.unit i).1 = false)
  | excepts (p : Pending g) (wait : t.wait = some p) (st : t.unit.ld.state = .sendTag)
    (rvalid : (fsm t.unit i).rvalid = true) (gnt : (fsm t.unit i).gnt = false) (ex : i.ex.valid = true)
    (pop : (out t.unit i).popLd = false) (done : rvalidO t.unit i = (true, p.ctrl.transId))
  | answers (p : Pending g) (wait : t.wait = some p) (rvalid : (fsm t.unit i).rvalid = true)
    (ex : i.ex.valid = false) (kill : (out t.unit i).killReq = false)
    (done : rvalidO t.unit i = (true, p.ctrl.transId))

section Unit

variable {t : Tracked g} {i : In g}

theorem kill_eq : (reqPort t.unit i).kill = (out t.unit i).killReq := by
  change (Load.control t.unit.ld _).killReq = (Load.control t.unit.ld _).killReq
  rw [killReq_eq, killReq_eq]
  rfl

theorem dataReq_out : (reqPort t.unit i).dataReq = (out t.unit i).dataReq := by
  change (Load.control t.unit.ld _).dataReq = (Load.control t.unit.ld _).dataReq
  rw [dataReq_eq, dataReq_eq]
  rfl

theorem out_kill : (out t.unit i).killReq = (t.unit.ld.state == .abortTransaction || t.unit.ld.state == .waitFlush ||
    t.unit.ld.state == .sendTag && i.ex.valid) := killReq_eq _ _

theorem out_popLd : (out t.unit i).popLd = (i.ex.valid && i.valid && !(fsm t.unit i).rvalid ||
    (fsm t.unit i).gnt && i.dtlbHit) := by
  have h := popLd_eq t.unit.ld (loadIn t.unit i)
  change (out t.unit i).popLd = (i.ex.valid && i.valid && !(fsm t.unit i).rvalid ||
    (out t.unit i).dataReq && (fsm t.unit i).gnt && i.dtlbHit) at h
  rw [h, ← dataReq_out]
  cases hg : (fsm t.unit i).gnt with
  | false => simp
  | true => rw [(fsm_gnt _ _ _ hg).1, Bool.true_and]

/-- The tag comes in the tag cycle, with the kill of an abort and with that of a flush. -/
theorem port_tagValid : (reqPort t.unit i).tagValid =
    (t.unit.ld.state == .abortTransaction || t.unit.ld.state == .waitFlush || t.unit.ld.state == .sendTag) :=
  tagValid_eq _ _

theorem rvalidO_eq : rvalidO t.unit i =
    if i.valid && i.ex.valid && !(fsm t.unit i).rvalid then (true, i.ctrl.transId)
    else if t.unit.ld.state = .waitTranslation then (false, t.unit.ld.loadData.transId)
    else ((fsm t.unit i).rvalid && t.unit.ld.state != .waitFlush && (!(out t.unit i).killReq || i.ex.valid),
      t.unit.ld.loadData.transId) := rfl

end Unit

namespace Inv

variable {t : Tracked g} {i : In g}

/-- The answer that comes is that of a kill, or of the load that waits. -/
theorem event (h : Inv t) (ha : Apart t i) : Event t i := by
  have hpop := out_popLd (t := t) (i := i)
  have hdone := rvalidO_eq (t := t) (i := i)
  cases hr : (fsm t.unit i).rvalid with
  | false =>
    rw [hr] at hdone hpop
    cases hx : i.valid && i.ex.valid with
    | false =>
      refine .quiet hr hx ?_
      rw [hdone, hx]
      simp only [Bool.false_and, Bool.false_eq_true, if_false]
      split_ifs <;> rfl
    | true =>
      rw [hx] at hdone
      obtain ⟨hv, he⟩ := (Bool.and_eq_true _ _).mp hx
      rw [he, hv] at hpop
      exact .head hr hv he hpop hdone
  | true =>
    have howes : owes t.unit.cache.state := by
      cases hg : (fsm t.unit i).gnt with
      | false => exact (fsm_rvalid _ _ _ hr hg).1
      | true =>
        rcases (fsm_gnt _ _ _ hg).2.2 with ⟨-, hr'⟩ | ⟨ho, -⟩
        · exact absurd (hr.symm.trans hr') Bool.noConfusion
        · exact ho
    rw [hr] at hdone hpop
    simp only [Bool.not_true, Bool.and_false, Bool.false_eq_true, if_false, Bool.false_or, Bool.true_and] at hdone hpop
    -- a kill is answered without a grant
    have hkill (hk : (out t.unit i).killReq = true) : (fsm t.unit i).gnt = false ∧ (out t.unit i).popLd = false := by
      have hg : (fsm t.unit i).gnt = false := by
        by_contra hg
        rw [Bool.not_eq_false] at hg
        rcases (fsm_gnt _ _ _ hg).2.2 with ⟨-, hr'⟩ | ⟨-, hk', -⟩
        · exact absurd (hr.symm.trans hr') Bool.noConfusion
        · rw [kill_eq, hk] at hk'
          cases hk'
      exact ⟨hg, by rw [hpop, hg, Bool.false_and]⟩
    have hex (hst : t.unit.ld.state ≠ .sendTag) (hst' : t.unit.ld.state ≠ .waitFlush) : i.ex.valid = false :=
      Bool.eq_false_of_not_eq_true fun hx => (ha hx hr).elim hst hst'
    by_cases hwf : t.unit.ld.state = .waitFlush
    · obtain ⟨hg, hp⟩ := hkill (by simp [out_kill, hwf])
      exact .killed hr hg (h.waitFlush hwf).2 hp (by simp [hdone, hwf])
    cases hw : t.wait with
    | none =>
      have hread : t.unit.cache.state = .read := howes.resolve_right ((h.settled hw).resolve_left hwf)
      -- only the kill of an abort answers a request that no load waits for
      have hab : t.unit.ld.state = .abortTransaction := by
        by_contra hab
        have hst : t.unit.ld.state ≠ .sendTag := fun hst => by
          obtain ⟨-, p, hp, -⟩ := h.sendTag hst
          rw [hw] at hp
          cases hp
        have hq := fsm_untagged t.unit.cache (reqPort t.unit i) i.cache hread
          (by rw [kill_eq, out_kill]; simp [hab, hwf, hst]) (by rw [port_tagValid]; simp [hab, hwf, hst])
        exact absurd (hr.symm.trans hq.1) Bool.noConfusion
      obtain ⟨hg, hp⟩ := hkill (by simp [out_kill, hab])
      refine .killed hr hg hw hp ?_
      rw [hdone, hex (by simp [hab]) hwf]
      simp [hab, out_kill]
    | some p =>
      have hd := (h.wait p hw).data
      have htr : t.unit.ld.state ≠ .waitTranslation := fun hst => by
        rw [h.translation hst] at howes
        simp [owes, tagged] at howes
      have hab : t.unit.ld.state ≠ .abortTransaction := fun hab => by
        rw [(h.abort hab).2] at hw
        cases hw
      cases hx : i.ex.valid with
      | true =>
        have hst : t.unit.ld.state = .sendTag := (ha hx hr).resolve_right hwf
        obtain ⟨hg, hp⟩ := hkill (by simp [out_kill, hst, hx])
        refine .excepts p hw hst hr hg hx hp ?_
        rw [hdone, if_neg htr, hd, hx]
        simp [hwf]
      | false =>
        have hk : (out t.unit i).killReq = false := by simp [out_kill, hab, hwf, hx]
        refine .answers p hw hr hx hk ?_
        rw [hdone, if_neg htr, hd, hk]
        simp [hwf]

/-- The cycle in which a load ends is the one of its own exception, or of its own answer. -/
theorem completes (h : Inv t) (ha : Apart t i) : Completes t i := by
  have hev := h.event ha
  refine ⟨fun hv hx => ?_, fun hv hx => ?_, fun f hf hst hr => ?_⟩
  · cases hev with
    | quiet _ _ hn => exact absurd (hv.symm.trans hn) Bool.noConfusion
    | head _ _ hx' => exact absurd (hx'.symm.trans hx) Bool.noConfusion
    | killed _ _ _ _ hn => exact absurd (hv.symm.trans hn) Bool.noConfusion
    | excepts _ _ _ _ _ hx' => exact absurd (hx'.symm.trans hx) Bool.noConfusion
    | answers p hw hr _ hk hd =>
      have hp := h.wait p hw
      refine ⟨p, hw, by rw [hd], hr, hk, hp.flight, ?_, hp.size, hp.data⟩
      have htag : Dcache.Ctrl.rdTagO t.unit.cache (reqPort t.unit i) = p.tag.getD (tagOf i.paddr) := by
        by_cases hst : t.unit.ld.state = .sendTag
        · obtain ⟨hc, p', hp', hn, -⟩ := h.sendTag hst
          obtain rfl : p' = p := Option.some.inj (hp'.symm.trans hw)
          have hkill : (reqPort t.unit i).kill = false := kill_eq.trans hk
          have htv : (reqPort t.unit i).tagValid = true := by rw [port_tagValid]; simp [hst]
          rw [Dcache.Ctrl.rdTagO, Dcache.Ctrl.saveTag, hc, hkill, htv, hn]
          rfl
        · obtain ⟨ht, he⟩ := hp.tag.resolve_left hst
          have hread : (t.unit.cache.state == .read) = false := by
            cases hc : t.unit.cache.state <;> simp [hc, tagged] at ht <;> rfl
          rw [Dcache.Ctrl.rdTagO, Dcache.Ctrl.saveTag, hread, he]
          rfl
      rw [htag]
      dsimp only
      rw [hp.idx, hp.word, hp.byte]
  · cases hev with
    | quiet _ _ hn => exact absurd (hv.symm.trans hn) Bool.noConfusion
    | head hr hvl _ _ hd =>
      refine .inr ⟨hvl, by rw [hd], fun k hk => ?_⟩
      rcases h.asked k hk with hst | hk
      · -- the tag cycle of a load with an exception is answered at once
        have hc := (h.sendTag hst).1
        have hkill : (reqPort t.unit i).kill = true := by
          rw [kill_eq, out_kill]
          simp [hst, hx]
        have hrv : (fsm t.unit i).rvalid = true := by
          simp [fsm, Dcache.Ctrl.fsm, hc, hkill]
        exact absurd (hr.symm.trans hrv) Bool.noConfusion
      · exact hk
    | killed _ _ _ _ hn => exact absurd (hv.symm.trans hn) Bool.noConfusion
    | excepts p hw hst _ _ _ _ hd =>
      obtain ⟨-, p', hp', -, hk⟩ := h.sendTag hst
      obtain rfl : p' = p := Option.some.inj (hp'.symm.trans hw)
      exact .inl ⟨p', hw, by rw [hd], hk⟩
    | answers _ _ _ hx' => exact absurd (hx.symm.trans hx') Bool.noConfusion
  · have hwf := h.stale f hf hst
    cases hev with
    | quiet _ _ hn => exact hn
    | head hr' => exact absurd (hr.symm.trans hr') Bool.noConfusion
    | killed _ _ _ _ hn => exact hn
    | excepts p hw =>
      rw [(h.waitFlush hwf).2] at hw
      cases hw
    | answers p hw =>
      rw [(h.waitFlush hwf).2] at hw
      cases hw

/-- The cache owes the answer of the request in flight. -/
theorem flight_next (h : Inv t) : (t.next i).flight.isSome = true ↔ owes (t.next i).unit.cache.state := by
  change (t.flightD i).isSome = true ↔ owes (fsm t.unit i).stateD
  have hstale : (t.flightD i).isSome = (if (fsm t.unit i).gnt then some (⟨t.num, false⟩ : Flight)
      else if (fsm t.unit i).rvalid then none else t.flight).isSome := by
    unfold Tracked.flightD
    cases i.flush <;> simp
  rw [hstale]
  cases hg : (fsm t.unit i).gnt with
  | true => exact iff_of_true rfl (.inl (fsm_gnt _ _ _ hg).2.1)
  | false =>
    cases hr : (fsm t.unit i).rvalid with
    | true => exact iff_of_false Bool.noConfusion (fsm_rvalid _ _ _ hr hg).2.1
    | false =>
      obtain ⟨-, htag, hread, -, hnot⟩ := fsm_quiet _ _ _ hr hg
      refine h.flight.trans ⟨?_, fun ho => by_contra fun hn => hnot hn ho⟩
      rintro (hst | hst)
      · have := hread hst
        split at this
        · exact .inr this
        · exact .inl this
      · exact .inr (htag hst)

/-- A load is popped without an exception only if no other waits on. -/
theorem wait_of_pop (h : Inv t) (hp : (out t.unit i).popLd = true) (hx : i.ex.valid = false)
    (hr : (fsm t.unit i).rvalid = false) : t.wait = none := by
  rw [out_popLd, hx, Bool.false_and, Bool.false_and, Bool.false_or] at hp
  obtain ⟨hg, -⟩ := (Bool.and_eq_true _ _).mp hp
  have hc : t.unit.cache.state = .idle := by
    rcases (fsm_gnt _ _ _ hg).2.2 with ⟨hc, -⟩ | ⟨-, -, hr'⟩
    · exact hc
    · exact absurd (hr'.symm.trans hr) Bool.noConfusion
  cases hw : t.wait with
  | none => rfl
  | some p =>
    have hf := h.flight.1 (by rw [(h.wait p hw).flight]; rfl)
    simp [hc, owes, tagged] at hf

theorem popLd_valid (h : Inv t) (hh : Held t i) (hf : i.flush = false) (hp : (out t.unit i).popLd = true) :
    i.valid = true := by
  have hf' : (loadIn t.unit i).flush = false := hf
  refine (Queue.popLd_spec (s := t.unit.ld) (i := loadIn t.unit i) hf' hp).elim (fun hw => ?_) id
  obtain ⟨c, hc⟩ := h.head hw
  exact (hh.1 c hc).1

/-- What a cycle without a flush adds to the books: a load that starts to wait or ends at the head,
and the end of one that waited. -/
inductive Entry (t : Tracked g) (i : In g) : Prop
  | idle (taken : (t.next i).taken = t.taken) (answered : (t.next i).answered = t.answered)
    (excepted : (t.next i).excepted = t.excepted) (wait : waiting (t.next i).wait = waiting t.wait)
  | start (taken : (t.next i).taken = t.taken ++ [(t.num, i.ctrl.transId)])
    (answered : (t.next i).answered = t.answered ++ waiting t.wait) (excepted : (t.next i).excepted = t.excepted)
    (wait : waiting (t.next i).wait = [(t.num, i.ctrl.transId)])
  | head (taken : (t.next i).taken = t.taken ++ [(t.num, i.ctrl.transId)])
    (answered : (t.next i).answered = t.answered)
    (excepted : (t.next i).excepted = t.excepted ++ [(t.num, i.ctrl.transId)])
    (wait : waiting (t.next i).wait = waiting t.wait)
  | answer (taken : (t.next i).taken = t.taken) (answered : (t.next i).answered = t.answered ++ waiting t.wait)
    (excepted : (t.next i).excepted = t.excepted) (wait : waiting (t.next i).wait = [])
  | except (taken : (t.next i).taken = t.taken) (answered : (t.next i).answered = t.answered)
    (excepted : (t.next i).excepted = t.excepted ++ waiting t.wait) (wait : waiting (t.next i).wait = [])

theorem entry (h : Inv t) (hh : Held t i) (ha : Apart t i) (hf : i.flush = false) : Entry t i := by
  have hval := h.popLd_valid hh hf
  have hids : ∀ w : Option (Pending g), waiting (w.map fun p =>
      if t.unit.ld.state = .sendTag then { p with tag := some (tagOf i.paddr) } else p) = waiting w := by
    intro w
    cases w with
    | none => rfl
    | some p => by_cases hst : t.unit.ld.state = .sendTag <;> simp [waiting, hst]
  cases h.event ha with
  | quiet hr hvx hn =>
    cases hp : (out t.unit i).popLd with
    | false =>
      refine .idle ?_ ?_ ?_ ?_
      · simp [Tracked.next, hf, hp]
      · simp [Tracked.next, hf, hn]
      · simp [Tracked.next, hf, hn]
      · simp only [Tracked.next, Tracked.waitD, hf, hp, hr, Bool.false_eq_true, if_false, Bool.false_and, hids]
    | true =>
      have hx : i.ex.valid = false := by simpa [hval hp] using hvx
      have hw := h.wait_of_pop hp hx hr
      refine .start ?_ ?_ ?_ ?_
      · simp [Tracked.next, hf, hp]
      · simp [Tracked.next, hf, hn, hw, waiting]
      · simp [Tracked.next, hf, hn]
      · simp [Tracked.next, Tracked.waitD, hf, hp, hx, waiting]
  | head hr hv hx hp hd =>
    have he : t.ends i = t.num := by simp [Tracked.ends, Tracked.headExcepts, hv, hx, hr]
    refine .head ?_ ?_ ?_ ?_
    · simp [Tracked.next, hf, hp]
    · simp [Tracked.next, hf, hx]
    · simp [Tracked.next, hf, hd, hx, he]
    · simp only [Tracked.next, Tracked.waitD, hf, hp, hr, hx, Bool.not_true, Bool.and_false, Bool.false_eq_true, if_false,
        hids]
  | killed hr hg hw hp hn =>
    refine .idle ?_ ?_ ?_ ?_
    · simp [Tracked.next, hf, hp]
    · simp [Tracked.next, hf, hn]
    · simp [Tracked.next, hf, hn]
    · simp [Tracked.next, Tracked.waitD, hf, hp, hr, hw]
  | excepts p hw hst hr hg hx hp hd =>
    have he : t.ends i = p.num := by simp [Tracked.ends, Tracked.headExcepts, hr, hw]
    refine .except ?_ ?_ ?_ ?_
    · simp [Tracked.next, hf, hp]
    · simp [Tracked.next, hf, hx]
    · simp [Tracked.next, hf, hd, hx, he, hw, waiting]
    · simp [Tracked.next, Tracked.waitD, hf, hp, hr, waiting]
  | answers p hw hr hx hk hd =>
    have he : t.ends i = p.num := by simp [Tracked.ends, Tracked.headExcepts, hr, hw]
    cases hp : (out t.unit i).popLd with
    | false =>
      refine .answer ?_ ?_ ?_ ?_
      · simp [Tracked.next, hf, hp]
      · simp [Tracked.next, hf, hd, hx, he, hw, waiting]
      · simp [Tracked.next, hf, hx]
      · simp [Tracked.next, Tracked.waitD, hf, hp, hr, waiting]
    | true =>
      refine .start ?_ ?_ ?_ ?_
      · simp [Tracked.next, hf, hp]
      · simp [Tracked.next, hf, hd, hx, he, hw, waiting]
      · simp [Tracked.next, hf, hx]
      · simp [Tracked.next, Tracked.waitD, hf, hp, hx, waiting]

/-- The books are right after a cycle without a flush. -/
theorem accounted_next (h : Inv t) (hh : Held t i) (ha : Apart t i) (hf : i.flush = false) :
    Accounted (t.next i) := by
  obtain ⟨hperm, hord⟩ := h.accounted
  have hentry := h.entry hh ha hf
  constructor
  · rw [List.perm_iff_count]
    intro x
    have hcount := hperm.count_eq x
    simp only [List.count_append] at hcount ⊢
    rcases hentry with ⟨htk, han, hex, hw⟩ | ⟨htk, han, hex, hw⟩ | ⟨htk, han, hex, hw⟩ | ⟨htk, han, hex, hw⟩ |
      ⟨htk, han, hex, hw⟩ <;> rw [htk, han, hex, hw] <;> try simp only [List.count_append, List.count_nil]
    all_goals omega
  · rcases hentry with ⟨htk, han, -, hw⟩ | ⟨htk, han, -, hw⟩ | ⟨htk, han, -, hw⟩ | ⟨htk, han, -, hw⟩ |
      ⟨htk, han, -, hw⟩ <;> rw [htk, han, hw]
    · exact hord
    · exact hord.append_right _
    · exact hord.trans (List.sublist_append_left _ _)
    · rw [List.append_nil]
      exact hord
    · rw [List.append_nil]
      exact (List.sublist_append_left _ _).trans hord

/-- A flush takes the loads, and the request in flight is stale. -/
theorem next_flush (h : Inv t) (hf : i.flush = true) : Inv (t.next i) := by
  have hld : (t.next i).unit.ld.state = .waitFlush := by
    have hf' : (loadIn t.unit i).flush = true := hf
    change (Load.control t.unit.ld (loadIn t.unit i)).stateD = _
    simp [Load.control, hf']
  have hw : (t.next i).wait = none := by simp [Tracked.next, Tracked.waitD, hf]
  refine ⟨?_, ?_, ?_, ?_, ?_, ?_, ?_, ?_, ?_, ?_, ?_⟩
  · intro hl
    simp [hld, loadWaits] at hl
  · exact fun _ => ⟨hf, hw⟩
  · intro hs
    simp [hld] at hs
  · intro hs
    simp [hld] at hs
  · intro hs
    simp [hld] at hs
  · intro p hp
    simp [hw] at hp
  · exact fun _ => .inl hld
  · exact flight_next h
  · exact fun _ _ _ => hld
  · intro k hk
    simp [Tracked.next, hf] at hk
  · have hnil : (t.next i).taken = [] ∧ (t.next i).answered = [] ∧ (t.next i).excepted = [] := by
      simp [Tracked.next, hf]
    obtain ⟨htk, han, hex⟩ := hnil
    exact ⟨by rw [htk, han, hex, hw]; rfl, by rw [htk, han, hw]; rfl⟩

/-- A load that is popped without an exception goes to the tag cycle. -/
theorem sendTag_of_pop (hf : i.flush = false) (hp : (out t.unit i).popLd = true)
    (hx : i.ex.valid = false) : (fsm t.unit i).gnt = true ∧ (out t.unit i).stateD = .sendTag := by
  rw [out_popLd, hx, Bool.false_and, Bool.false_and, Bool.false_or] at hp
  obtain ⟨hg, hd⟩ := (Bool.and_eq_true _ _).mp hp
  obtain ⟨-, htag, -, hgo⟩ := stateD_spec t.unit.ld (loadIn t.unit i) hf
  have hreq : ((out t.unit i).dataReq && (fsm t.unit i).gnt) = true := by
    rw [← dataReq_out, (fsm_gnt _ _ _ hg).1, hg]
    rfl
  refine ⟨hg, ?_⟩
  rcases hgo hreq with hc | hst
  · change (i.ex.valid && i.valid) = true at hc
    simp [hx] at hc
  · exact (htag hst).2.2.1 hd

/-- A request that goes on keeps its address, with the tag from the tag cycle on. -/
theorem waits_next (h : Inv t) {q : Pending g} (hw : t.wait = some q) (hr : (fsm t.unit i).rvalid = false)
    (hn : ((out t.unit i).popLd && !i.ex.valid) = false) (hf : i.flush = false) :
    Waits (t.next i) (if t.unit.ld.state = .sendTag then { q with tag := some (tagOf i.paddr) } else q) := by
  have hq := h.wait q hw
  have howes : owes t.unit.cache.state := h.flight.1 (by rw [hq.flight]; rfl)
  have hg : (fsm t.unit i).gnt = false := by
    by_contra hg
    rw [Bool.not_eq_false] at hg
    rcases (fsm_gnt _ _ _ hg).2.2 with ⟨hc, -⟩ | ⟨-, -, hr'⟩
    · simp [hc, owes, tagged] at howes
    · exact absurd (hr'.symm.trans hr) Bool.noConfusion
  obtain ⟨hkill, htag, hread, -⟩ := fsm_quiet _ _ _ hr hg
  have hpaddr : (t.next i).unit.cache.paddr = { t.unit.cache.paddr with
      tag := Dcache.Ctrl.rdTagO t.unit.cache (reqPort t.unit i) } := by
    change Dcache.Ctrl.paddrD _ _ _ = _
    rw [Dcache.Ctrl.paddrD]
    exact if_neg (by rw [show (Dcache.Ctrl.fsm t.unit.cache (reqPort t.unit i) i.cache).gnt = false from hg]; simp)
  have hsize : (t.next i).unit.cache.size = t.unit.cache.size :=
    if_neg (by rw [show (Dcache.Ctrl.fsm t.unit.cache (reqPort t.unit i) i.cache).gnt = false from hg]; simp)
  have hdata : (t.next i).unit.ld.loadData = t.unit.ld.loadData := by
    change (if (out t.unit i).popLd && !i.ex.valid then _ else t.unit.ld.loadData) = _
    rw [hn, if_neg Bool.false_ne_true]
  have hflight : (t.next i).flight = t.flight := by
    change t.flightD i = t.flight
    simp [Tracked.flightD, hr, hg, hf]
  -- the tag is there from the tag cycle on
  have htags : tagged (fsm t.unit i).stateD ∧
      (if t.unit.ld.state = .sendTag then { q with tag := some (tagOf i.paddr) } else q).tag =
        some (Dcache.Ctrl.rdTagO t.unit.cache (reqPort t.unit i)) := by
    by_cases hst : t.unit.ld.state = .sendTag
    · have hc := (h.sendTag hst).1
      have htv : (reqPort t.unit i).tagValid = true := by rw [port_tagValid]; simp [hst]
      have hgo := hread hc
      rw [if_pos htv] at hgo
      refine ⟨hgo, ?_⟩
      rw [if_pos hst, Dcache.Ctrl.rdTagO, Dcache.Ctrl.saveTag, hc, hkill howes, htv]
      rfl
    · obtain ⟨ht, he⟩ := hq.tag.resolve_left hst
      refine ⟨htag ht, ?_⟩
      have hnot : (t.unit.cache.state == .read) = false := by
        cases hc : t.unit.cache.state <;> simp [hc, tagged] at ht <;> rfl
      rw [if_neg hst, Dcache.Ctrl.rdTagO, Dcache.Ctrl.saveTag, hnot, he]
      rfl
  have hsame : (if t.unit.ld.state = .sendTag then { q with tag := some (tagOf i.paddr) } else q).num = q.num ∧
      (if t.unit.ld.state = .sendTag then { q with tag := some (tagOf i.paddr) } else q).ctrl = q.ctrl := by
    split <;> exact ⟨rfl, rfl⟩
  refine ⟨?_, ?_, ?_, ?_, ?_, ?_, .inr ⟨htags.1, ?_⟩⟩
  · rw [hflight, hq.flight, hsame.1]
  · rw [hdata, hq.data, hsame.2]
  · rw [hpaddr, hsame.2]
    exact hq.idx
  · rw [hpaddr, hsame.2]
    exact hq.word
  · rw [hpaddr, hsame.2]
    exact hq.byte
  · rw [hsize, hsame.2, hq.size]
  · rw [hpaddr, htags.2]

/-- A load that starts to wait has its request at the cache. -/
theorem waits_start (hf : i.flush = false) (hp : (out t.unit i).popLd = true)
    (hx : i.ex.valid = false) : Waits (t.next i) ⟨t.num, i.ctrl, none⟩ := by
  obtain ⟨hg, hst⟩ := sendTag_of_pop hf hp hx
  have hg' : (Dcache.Ctrl.fsm t.unit.cache (reqPort t.unit i) i.cache).gnt = true := hg
  have hpaddr : (t.next i).unit.cache.paddr = ⟨⟨⟨Dcache.Ctrl.rdTagO t.unit.cache (reqPort t.unit i),
      idxOf i.ctrl.vaddr⟩, wordOf i.ctrl.vaddr⟩, byteOf i.ctrl.vaddr⟩ := if_pos hg'
  refine ⟨?_, ?_, ?_, ?_, ?_, ?_, .inl hst⟩
  · change t.flightD i = _
    simp [Tracked.flightD, hg, hf]
  · change (if (out t.unit i).popLd && !i.ex.valid then _ else t.unit.ld.loadData) = _
    rw [hp, hx]
    rfl
  · rw [hpaddr]
  · rw [hpaddr]
  · rw [hpaddr]
  · exact if_pos hg'

/-- A request that no load waits for is not worked on. -/
theorem settled_next (h : Inv t) (hf : i.flush = false) (hw : (t.next i).wait = none) :
    ¬tagged (fsm t.unit i).stateD := by
  intro htag
  have hg : (fsm t.unit i).gnt = false := by
    by_contra hg
    rw [Bool.not_eq_false] at hg
    have hst : (fsm t.unit i).stateD = .read := (fsm_gnt _ _ _ hg).2.1
    simp [hst, tagged] at htag
  have hr : (fsm t.unit i).rvalid = false := by
    by_contra hr
    rw [Bool.not_eq_false] at hr
    exact (fsm_rvalid _ _ _ hr hg).2.1 (.inr htag)
  obtain ⟨hkill, -, hread, -, hnot⟩ := fsm_quiet _ _ _ hr hg
  have howes : owes t.unit.cache.state := by_contra fun hn => hnot hn (.inr htag)
  have hk := hkill howes
  rw [kill_eq, out_kill] at hk
  simp only [Bool.or_eq_false_iff, beq_eq_false_iff_ne] at hk
  change t.waitD i = none at hw
  have hwait : t.wait = none := by
    unfold Tracked.waitD at hw
    rw [hf, if_neg Bool.false_ne_true] at hw
    split at hw
    · cases hw
    · rw [hr, if_neg Bool.false_ne_true, Option.map_eq_none_iff] at hw
      exact hw
  have hc : t.unit.cache.state = .read := howes.resolve_right ((h.settled hwait).resolve_left hk.1.2)
  have hst : t.unit.ld.state ≠ .sendTag := fun hst => by
    obtain ⟨-, p, hp, -⟩ := h.sendTag hst
    rw [hwait] at hp
    cases hp
  have hgo := hread hc
  have htv : (reqPort t.unit i).tagValid = false := by rw [port_tagValid]; simp [hk.1.1, hk.1.2, hst]
  rw [htv, if_neg Bool.false_ne_true] at hgo
  have hgo' : (fsm t.unit i).stateD = .read := hgo
  simp [hgo', tagged] at htag

theorem next (h : Inv t) (hh : Held t i) (ha : Apart t i) : Inv (t.next i) := by
  cases hf : i.flush with
  | true => exact h.next_flush hf
  | false =>
    obtain ⟨hnwf, htag, htrans, -⟩ := stateD_spec t.unit.ld (loadIn t.unit i) hf
    have hval := h.popLd_valid hh hf
    refine ⟨?_, ?_, ?_, ?_, ?_, ?_, ?_, h.flight_next, ?_, ?_, h.accounted_next hh ha hf⟩
    · -- a load that the unit is busy with stays at the head
      intro hl
      obtain ⟨hp, hw⟩ := Queue.loadWaits_spec (s := t.unit.ld) (i := loadIn t.unit i) hf hl
      have hp' : (out t.unit i).popLd = false := hp
      have hv : i.valid = true := by
        refine hw.elim (fun hw => ?_) id
        obtain ⟨c, hc⟩ := h.head hw
        exact (hh.1 c hc).1
      exact ⟨i.ctrl, by simp [Tracked.next, hv, hf, hp']⟩
    · exact fun hs => absurd hs hnwf
    · intro hs
      obtain ⟨hreq, hx, hhit⟩ := htag (.inl hs)
      obtain ⟨hd, hg⟩ := (Bool.and_eq_true _ _).mp hreq
      have hg' : (fsm t.unit i).gnt = true := hg
      have hhit' : i.dtlbHit = true := hhit.2 hs
      have hp : (out t.unit i).popLd = true := by rw [out_popLd, hg', hhit', Bool.and_self, Bool.or_true]
      have hx' : i.ex.valid = false := by
        have hx' : (i.ex.valid && i.valid) = false := hx
        rwa [hval hp, Bool.and_true] at hx'
      refine ⟨(fsm_gnt _ _ _ hg').2.1, ⟨t.num, i.ctrl, none⟩, ?_, rfl, ?_⟩
      · simp [Tracked.next, Tracked.waitD, hf, hp, hx']
      · have htr : (out t.unit i).translationReq = true := translationReq_of_dataReq _ _ hd
        simp [Tracked.next, htr, hf]
    · intro hs
      obtain ⟨hreq, hx, hhit⟩ := htag (.inr hs)
      have hg : (fsm t.unit i).gnt = true := ((Bool.and_eq_true _ _).mp hreq).2
      have hhit' : i.dtlbHit = false := Bool.eq_false_of_not_eq_true fun hd => by
        have := hs.symm.trans (hhit.1 hd)
        cases this
      have hx' : (i.ex.valid && i.valid) = false := hx
      have hp : (out t.unit i).popLd = false := by rw [out_popLd, hx', hhit', Bool.and_false]; rfl
      refine ⟨(fsm_gnt _ _ _ hg).2.1, ?_⟩
      change t.waitD i = none
      rw [Tracked.waitD, hf, hp, if_neg Bool.false_ne_true, Bool.false_and, if_neg Bool.false_ne_true]
      split
      · rfl
      · rename_i hr
        rcases (fsm_gnt _ _ _ hg).2.2 with ⟨hc, -⟩ | ⟨-, -, hr'⟩
        · rw [Option.map_eq_none_iff]
          refine Option.eq_none_iff_forall_ne_some.2 fun p hpw => ?_
          have ho := h.flight.1 (by rw [(h.wait p hpw).flight]; rfl)
          simp [hc, owes, tagged] at ho
        · exact absurd hr' hr
    · -- while the translation is missing the cache has nothing to do
      intro hs
      have hst := htrans hs
      have hreq : (reqPort t.unit i).dataReq = false := by
        rw [dataReq_out, out, dataReq_eq]
        rcases hst with hst | hst <;> simp [hst]
      have hg : (fsm t.unit i).gnt = false := Bool.eq_false_of_not_eq_true fun hg => by
        rw [(fsm_gnt _ _ _ hg).1] at hreq
        cases hreq
      change (fsm t.unit i).stateD = .idle
      rcases hst with hst | hst
      · have hk : (reqPort t.unit i).kill = true := by rw [kill_eq, out_kill]; simp [hst]
        simp [fsm, Dcache.Ctrl.fsm, (h.abort hst).1, hk]
      · have hc := h.translation hst
        simp [fsm, Dcache.Ctrl.fsm, hc, hreq]
    · intro p hp
      have hp' : t.waitD i = some p := hp
      unfold Tracked.waitD at hp'
      rw [hf, if_neg Bool.false_ne_true] at hp'
      cases hn : (out t.unit i).popLd && !i.ex.valid with
      | true =>
        rw [hn, if_pos rfl] at hp'
        obtain rfl := Option.some.inj hp'
        obtain ⟨hpop, hx⟩ := (Bool.and_eq_true _ _).mp hn
        exact waits_start hf hpop (by simpa using hx)
      | false =>
        rw [hn, if_neg Bool.false_ne_true] at hp'
        cases hr : (fsm t.unit i).rvalid with
        | true =>
          rw [hr, if_pos rfl] at hp'
          cases hp'
        | false =>
          rw [hr, if_neg Bool.false_ne_true, Option.map_eq_some_iff] at hp'
          obtain ⟨q, hq, rfl⟩ := hp'
          exact h.waits_next hq hr hn hf
    · exact fun hw => .inr (h.settled_next hf hw)
    · -- what was in flight at a flush has been killed
      intro f hfl hst
      have hfl' : t.flightD i = some f := hfl
      simp only [Tracked.flightD, hf, Bool.false_eq_true, if_false] at hfl'
      split at hfl'
      · obtain rfl := Option.some.inj hfl'
        cases hst
      · rename_i hg
        split at hfl'
        · cases hfl'
        · rename_i hr
          have howes := h.flight.1 (by rw [hfl']; rfl)
          have hk : (reqPort t.unit i).kill = true := by
            rw [kill_eq, out_kill]
            simp [h.stale f hfl' hst]
          have hq := (fsm_quiet _ _ _ (Bool.eq_false_of_not_eq_true hr) (Bool.eq_false_of_not_eq_true hg)).1 howes
          exact absurd (hk.symm.trans hq) Bool.noConfusion
    · intro k hk
      have hk' : (if (out t.unit i).translationReq && !i.flush then some t.num else none) = some k := hk
      have hkn : t.num = k := by
        split at hk'
        · exact Option.some.inj hk'
        · cases hk'
      subst hkn
      cases hp : (out t.unit i).popLd with
      | false => exact .inr (.inl (by simp [Tracked.next, hp, hf]))
      | true =>
        cases hx : i.ex.valid with
        | false => exact .inl (sendTag_of_pop hf hp hx).2
        | true =>
          refine .inr (.inr ⟨i.ctrl.transId, ?_⟩)
          cases h.event ha with
          | quiet _ hvx =>
            rw [hval hp, hx] at hvx
            cases hvx
          | head hr hv _ _ hd =>
            have he : t.ends i = t.num := by simp [Tracked.ends, Tracked.headExcepts, hv, hx, hr]
            simp [Tracked.next, hf, hd, hx, he]
          | killed _ _ _ hp' => exact absurd (hp.symm.trans hp') Bool.noConfusion
          | excepts _ _ _ _ _ _ hp' => exact absurd (hp.symm.trans hp') Bool.noConfusion
          | answers _ _ _ hx' => exact absurd (hx.symm.trans hx') Bool.noConfusion

end Inv

theorem inv_reset : Inv (trackedReset : Tracked g) := by
  have hst : (trackedReset : Tracked g).unit.ld.state = .idle := rfl
  have hc : (trackedReset : Tracked g).unit.cache.state = .idle := rfl
  refine ⟨?_, ?_, ?_, ?_, ?_, ?_, ?_, ?_, ?_, ?_, ?_⟩
  · simp [hst, loadWaits]
  · simp [hst]
  · simp [hst]
  · simp [hst]
  · simp [hst]
  · intro _ hp
    cases hp
  · simp [hc, tagged]
  · rw [hc]
    simp [owes, tagged, trackedReset]
  · intro _ hf
    cases hf
  · intro _ hk
    cases hk
  · exact ⟨.refl _, .refl _⟩

/-! ### The result -/

/-- **Loads and their answers.** In every run, whatever the translations, the grants, the flushes
and the time the cache takes, each load that leaves the FIFO ends once, as itself, as long as no
exception comes in the cycle of an answer. -/
theorem loads_complete (is : List (In g)) (hh : (loads g).Steps Held trackedReset is)
    (ha : (loads g).Steps Apart trackedReset is) :
    (loads g).Always Accounted trackedReset is ∧ (loads g).Steps Completes trackedReset is := by
  have step (t : Tracked g) (i : In g) (ht : Inv t) (h : Held t i ∧ Apart t i) : Inv (t.next i) := ht.next h.1 h.2
  have hs := (Machine.steps_and is _).2 ⟨hh, ha⟩
  have hall := Machine.always_of_steps (P := Inv) step is _ inv_reset hs
  exact ⟨hall.mono fun _ ht => ht.accounted,
    Machine.steps_of_inv step (fun _ _ ht h => ht.completes h.2) is _ inv_reset hs⟩

/-- A cycle without a load, in which the MMU translates and the arrays are read. -/
def idleIn : In Dcache.arianeGeom where
  flush := false
  valid := false
  ctrl := LsuCtrl.zero
  ex := Exn.none
  dtlbHit := true
  pageOffsetMatches := false
  paddr := 0x80000000
  cache := ⟨true, false, false, false, false, true, fun _ => false, fun _ => false⟩

/-- A load is at the head. -/
def headLoad (id : BitVec 3) : In Dcache.arianeGeom :=
  { idleIn with valid := true, ctrl := ⟨true, 0x1008, 0, 0xff, .load, .ld, id⟩ }

/-- A load misses in the cache, and the one behind it hits. -/
def missThenHit : List (In Dcache.arianeGeom) :=
  [headLoad 0, headLoad 1, { headLoad 1 with cache := { idleIn.cache with missAck := true } },
    { headLoad 1 with cache := { idleIn.cache with missRtrnVld := true } }, headLoad 1,
    { idleIn with cache := { idleIn.cache with rdHitOh := fun _ => true } }]

theorem loads_complete_miss : (loads Dcache.arianeGeom).Always Accounted trackedReset missThenHit ∧
    (loads Dcache.arianeGeom).Steps Completes trackedReset missThenHit :=
  loads_complete missThenHit (by decide +kernel) (by decide +kernel)

/-- A load with a page fault ends while the one before it waits for memory. And a load that
misses in the TLB and is misaligned ends a load that is not its own: its request is killed, and
the answer to the kill goes out with the exception under the id of the last load. -/
theorem exception_overtakes :
    (let is := [headLoad 0, headLoad 1, { headLoad 1 with ex := ⟨13, 0x1008, true⟩ }]
      let t := (loads Dcache.arianeGeom).run trackedReset is
      (loads Dcache.arianeGeom).Steps Held trackedReset is ∧ t.excepted = [(1, 1)] ∧ t.answered = [] ∧
        waiting t.wait = [(0, 0)]) ∧
    (let is := [{ headLoad 3 with dtlbHit := false }, { headLoad 3 with ex := ⟨4, 0x1008, true⟩ }]
      let t := (loads Dcache.arianeGeom).run trackedReset is
      (loads Dcache.arianeGeom).Steps Held trackedReset is ∧ t.taken = [] ∧ t.excepted = [(0, 0)] ∧
        t.head = some (headLoad 3).ctrl) := by
  refine ⟨⟨by decide +kernel, by decide +kernel, by decide +kernel, by decide +kernel⟩,
    by decide +kernel, by decide +kernel, by decide +kernel, by decide +kernel⟩

end Completion
end Lsu
end Ariane

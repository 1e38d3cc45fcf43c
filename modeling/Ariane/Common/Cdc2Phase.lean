/-
# The two-phase clock domain crossing

`cdc_2phase.sv` of `common_cells`. The two halves have clocks of their own, so an event of the
machine is an edge of one clock, or of both at once (`Event`). The source bounds the delay of the
lines between them by the shorter period. So the first edge of one clock after a line is changed
at an edge of the other may still read it as anything (`Regs.reqMoving`, `Regs.ackMoving`), and
later edges read it as it is.

* `crossing_law`: what the receiver hands on is what the sender took, in order, each item once, and
  an item that is shown is the next one;
* `crossing_progress`: an item is handed on within five edges of a receiver that is ready, and
  three edges of the sender later the next one can go.
-/
import Ariane.Lib.Machine

namespace Ariane
namespace Cdc2Phase

open Lib

variable {α : Type}

/-! ### The two halves -/

/-- `cdc_2phase_src`. -/
structure Src (α : Type) where
  reqSrcQ : Bool
  dataSrcQ : α
  ackSrcQ : Bool
  ackQ : Bool

namespace Src

/-- `ready_o`. -/
def ready (s : Src α) : Bool := s.reqSrcQ == s.ackQ

/-- An edge of the source clock at which `async_ack_i` reads `ack`. -/
def next (s : Src α) (valid : Bool) (data : α) (ack : Bool) : Src α where
  reqSrcQ := if valid && s.ready then !s.reqSrcQ else s.reqSrcQ
  dataSrcQ := if valid && s.ready then data else s.dataSrcQ
  ackSrcQ := ack
  ackQ := s.ackSrcQ

end Src

/-- `cdc_2phase_dst`. -/
structure Dst (α : Type) where
  reqDstQ : Bool
  reqQ0 : Bool
  reqQ1 : Bool
  ackDstQ : Bool
  dataDstQ : α

namespace Dst

/-- `valid_o`. -/
def valid (d : Dst α) : Bool := d.ackDstQ != d.reqQ1

/-- An edge of the destination clock at which the lines read `req` and `data`. -/
def next (d : Dst α) (ready req : Bool) (data : α) : Dst α where
  reqDstQ := req
  reqQ0 := d.reqDstQ
  reqQ1 := d.reqQ0
  ackDstQ := if d.valid && ready then !d.ackDstQ else d.ackDstQ
  dataDstQ := if d.reqQ0 != d.reqQ1 && !d.valid then data else d.dataDstQ

end Dst

/-- The crossing: its halves, and whether the lines have changed since the last edge of the clock
that samples them. -/
structure Regs (α : Type) where
  src : Src α
  dst : Dst α
  reqMoving : Bool
  ackMoving : Bool

/-- What the sender sees at its edge. -/
structure SrcIn (α : Type) where
  valid : Bool
  data : α

/-- The clocks that tick, and what a line reads as that has just changed. -/
structure Event (α : Type) where
  src : Option (SrcIn α)
  /-- `ready_i` at an edge of the receiver. -/
  dst : Option Bool
  ackRead : Bool
  reqRead : Bool
  dataRead : α

namespace Regs

/-- The item the sender takes. -/
def taken (r : Regs α) (e : Event α) : Option α :=
  match e.src with
  | some i => if i.valid && r.src.ready then some i.data else none
  | none => none

/-- The item the receiver hands on. -/
def handed (r : Regs α) (e : Event α) : Option α :=
  if r.dst.valid && e.dst == some true then some r.dst.dataDstQ else none

/-- The request lines do not read as they are. -/
def reqMoves (r : Regs α) (e : Event α) : Bool := r.reqMoving || (r.taken e).isSome

def ackMoves (r : Regs α) (e : Event α) : Bool := r.ackMoving || (r.handed e).isSome

def next (r : Regs α) (e : Event α) : Regs α where
  src :=
    match e.src with
    | some i => r.src.next i.valid i.data (if r.ackMoves e then e.ackRead else r.dst.ackDstQ)
    | none => r.src
  dst :=
    match e.dst with
    | some ready => r.dst.next ready (if r.reqMoves e then e.reqRead else r.src.reqSrcQ)
        (if r.reqMoves e then e.dataRead else r.src.dataSrcQ)
    | none => r.dst
  reqMoving := e.dst.isNone && r.reqMoves e
  ackMoving := e.src.isNone && r.ackMoves e

/-- Both halves in reset; `d` is the zero of the data. -/
def reset (d : α) : Regs α :=
  ⟨⟨false, d, false, false⟩, ⟨false, false, false, false, d⟩, false, false⟩

end Regs

/-- The crossing with the items taken and handed on, oldest first. -/
structure Tracked (α : Type) where
  regs : Regs α
  sent : List α
  received : List α

def Tracked.next (t : Tracked α) (e : Event α) : Tracked α where
  regs := t.regs.next e
  sent := t.sent ++ (t.regs.taken e).toList
  received := t.received ++ (t.regs.handed e).toList

def machine (d : α) : Machine (Tracked α) (Event α) := ⟨(· = ⟨.reset d, [], []⟩), Tracked.next⟩

/-! ### The two phases -/

/-- No item is between the halves. The acknowledge may still be on its way back. -/
structure Empty (t : Tracked α) : Prop where
  all : t.sent = t.received
  req : t.regs.src.reqSrcQ = t.regs.dst.ackDstQ
  sync : t.regs.dst.reqDstQ = t.regs.dst.ackDstQ ∧ t.regs.dst.reqQ0 = t.regs.dst.ackDstQ ∧
    t.regs.dst.reqQ1 = t.regs.dst.ackDstQ
  still : t.regs.reqMoving = false
  back0 : t.regs.src.ackSrcQ = t.regs.dst.ackDstQ → t.regs.ackMoving = false
  back1 : t.regs.src.ackQ = t.regs.dst.ackDstQ → t.regs.src.ackSrcQ = t.regs.dst.ackDstQ

/-- The item `d` is between the halves, and the sender waits. The request passes the synchroniser
stage by stage, and is followed by the data. -/
structure Full (t : Tracked α) (d : α) : Prop where
  all : t.sent = t.received ++ [d]
  data : t.regs.src.dataSrcQ = d
  req : t.regs.src.reqSrcQ = !t.regs.dst.ackDstQ
  back : t.regs.src.ackSrcQ = t.regs.dst.ackDstQ ∧ t.regs.src.ackQ = t.regs.dst.ackDstQ
  still : t.regs.ackMoving = false
  stage : t.regs.dst.reqDstQ = t.regs.src.reqSrcQ → t.regs.reqMoving = false
  stage0 : t.regs.dst.reqQ0 = t.regs.src.reqSrcQ → t.regs.dst.reqDstQ = t.regs.src.reqSrcQ
  stage1 : t.regs.dst.reqQ1 = t.regs.src.reqSrcQ →
    t.regs.dst.reqQ0 = t.regs.src.reqSrcQ ∧ t.regs.dst.dataDstQ = d

def Inv (t : Tracked α) : Prop := Empty t ∨ ∃ d, Full t d

variable {t : Tracked α} {d : α} {e : Event α}

theorem Empty.valid (h : Empty t) : t.regs.dst.valid = false := by
  simp [Dst.valid, h.sync.2.2]

theorem Empty.handed (h : Empty t) (e : Event α) : t.regs.handed e = none := by
  simp [Regs.handed, h.valid]

theorem Empty.ready_iff (h : Empty t) : t.regs.src.ready = true ↔ t.regs.src.ackQ = t.regs.dst.ackDstQ := by
  rw [Src.ready, beq_iff_eq, h.req, eq_comm]

theorem Full.not_ready (h : Full t d) : t.regs.src.ready = false := by
  simp [Src.ready, h.req, h.back.2]

theorem Full.taken (h : Full t d) (e : Event α) : t.regs.taken e = none := by
  unfold Regs.taken
  split
  · simp [h.not_ready]
  · rfl

theorem Full.valid_iff (h : Full t d) : t.regs.dst.valid = true ↔ t.regs.dst.reqQ1 = t.regs.src.reqSrcQ := by
  rw [Dst.valid, h.req]
  cases t.regs.dst.ackDstQ <;> cases t.regs.dst.reqQ1 <;> decide

/-- The sender's registers that a take changes. -/
theorem src_of_not_taken (ht : t.regs.taken e = none) :
    (t.regs.next e).src.reqSrcQ = t.regs.src.reqSrcQ ∧ (t.regs.next e).src.dataSrcQ = t.regs.src.dataSrcQ := by
  unfold Regs.taken at ht
  cases hs : e.src with
  | none => simp [Regs.next, hs]
  | some i =>
    rw [hs] at ht
    have hv : (i.valid && t.regs.src.ready) = false := by simpa using ht
    simp only [Regs.next, hs, Src.next, hv, Bool.false_eq_true, if_false, and_self]

theorem src_of_taken (ht : t.regs.taken e = some d) :
    t.regs.src.ready = true ∧ (t.regs.next e).src.reqSrcQ = (!t.regs.src.reqSrcQ) ∧
      (t.regs.next e).src.dataSrcQ = d ∧ ∃ i, e.src = some i := by
  unfold Regs.taken at ht
  cases hs : e.src with
  | none => rw [hs] at ht; cases ht
  | some i =>
    rw [hs] at ht
    have hv : (i.valid && t.regs.src.ready) = true ∧ i.data = d := by simpa using ht
    simp only [Regs.next, hs, Src.next, hv.1, if_true, hv.2, true_and]
    exact ⟨(Bool.and_eq_true_iff.1 hv.1).2, i, rfl⟩

/-- The acknowledge at an event that does not change it passes the sender's synchroniser. -/
theorem back_of_not_handed (hh : t.regs.handed e = none)
    (h0 : t.regs.src.ackSrcQ = t.regs.dst.ackDstQ → t.regs.ackMoving = false)
    (h1 : t.regs.src.ackQ = t.regs.dst.ackDstQ → t.regs.src.ackSrcQ = t.regs.dst.ackDstQ) :
    ((t.regs.next e).src.ackSrcQ = t.regs.dst.ackDstQ → (t.regs.next e).ackMoving = false) ∧
      ((t.regs.next e).src.ackQ = t.regs.dst.ackDstQ → (t.regs.next e).src.ackSrcQ = t.regs.dst.ackDstQ) := by
  have hm : t.regs.ackMoves e = t.regs.ackMoving := by simp [Regs.ackMoves, hh]
  cases hs : e.src with
  | none => simpa [Regs.next, hs, hm] using ⟨h0, h1⟩
  | some i =>
    refine ⟨fun _ => by simp [Regs.next, hs], fun hq => ?_⟩
    have hsq : t.regs.src.ackSrcQ = t.regs.dst.ackDstQ := by simpa [Regs.next, hs, Src.next] using hq
    simp [Regs.next, hs, Src.next, hm, h0 hsq]

theorem Empty.next (h : Empty t) (e : Event α) : Inv (t.next e) := by
  have hh := h.handed e
  obtain ⟨hb0, hb1⟩ := back_of_not_handed hh h.back0 h.back1
  have hack : (t.regs.next e).dst.ackDstQ = t.regs.dst.ackDstQ := by
    cases hd : e.dst <;> simp [Regs.next, hd, Dst.next, h.valid]
  have hq0 : (t.regs.next e).dst.reqQ0 = t.regs.dst.ackDstQ := by
    cases hd : e.dst <;> simp [Regs.next, hd, Dst.next, h.sync]
  have hq1 : (t.regs.next e).dst.reqQ1 = t.regs.dst.ackDstQ := by
    cases hd : e.dst <;> simp [Regs.next, hd, Dst.next, h.sync]
  cases ht : t.regs.taken e with
  | none =>
    left
    have hm : t.regs.reqMoves e = false := by simp [Regs.reqMoves, ht, h.still]
    obtain ⟨hreq, -⟩ := src_of_not_taken ht
    have hdst : (t.regs.next e).dst.reqDstQ = t.regs.dst.ackDstQ := by
      cases hd : e.dst <;> simp [Regs.next, hd, Dst.next, hm, h.sync, h.req]
    exact {
      all := by simp [Tracked.next, ht, hh, h.all]
      req := by simp [Tracked.next, hreq, hack, h.req]
      sync := by simp [Tracked.next, hdst, hq0, hq1, hack]
      still := by simp [Tracked.next, Regs.next, hm]
      back0 := by simpa [Tracked.next, hack] using hb0
      back1 := by simpa [Tracked.next, hack] using hb1 }
  | some d =>
    right
    -- the sender was ready, so the acknowledge has come back through both stages
    obtain ⟨hr, hreq, hdata, i, hi⟩ := src_of_taken ht
    have hq := h.ready_iff.1 hr
    have hsq := h.back1 hq
    have hstill := h.back0 hsq
    have hm : t.regs.ackMoves e = false := by simp [Regs.ackMoves, hh, hstill]
    have hreq' : (t.regs.next e).src.reqSrcQ = !t.regs.dst.ackDstQ := by rw [hreq, h.req]
    refine ⟨d, {
      all := by simp [Tracked.next, ht, hh, h.all]
      data := hdata
      req := by simp [Tracked.next, hreq', hack]
      back := ?_
      still := by simp [Tracked.next, Regs.next, hm]
      stage := ?_
      stage0 := ?_
      stage1 := ?_ }⟩
    · simp [Tracked.next, Regs.next, hi, Src.next, hm, hsq] at hack ⊢
      exact hack.symm
    · intro hst
      cases hd : e.dst with
      | none =>
        have hdst : (t.regs.next e).dst.reqDstQ = t.regs.dst.ackDstQ := by simp [Regs.next, hd, h.sync]
        rw [show (t.next e).regs = t.regs.next e from rfl, hdst, hreq'] at hst
        exact absurd hst.symm (Bool.not_ne_self _)
      | some _ => simp [Tracked.next, Regs.next, hd]
    · intro hst
      rw [show (t.next e).regs = t.regs.next e from rfl, hq0, hreq'] at hst
      exact absurd hst.symm (Bool.not_ne_self _)
    · intro hst
      rw [show (t.next e).regs = t.regs.next e from rfl, hq1, hreq'] at hst
      exact absurd hst.symm (Bool.not_ne_self _)

/-- The receiver's edge while the item waits: the request passes on by a stage, and the data are
taken when it has reached the last but one. -/
theorem Full.dst_next (h : Full t d) (e : Event α) :
    ((t.regs.next e).dst.reqDstQ = t.regs.src.reqSrcQ → (t.regs.next e).reqMoving = false) ∧
      ((t.regs.next e).dst.reqQ0 = t.regs.src.reqSrcQ →
        (t.regs.next e).dst.reqDstQ = t.regs.src.reqSrcQ) ∧
      ((t.regs.next e).dst.reqQ1 = t.regs.src.reqSrcQ →
        (t.regs.next e).dst.reqQ0 = t.regs.src.reqSrcQ ∧ (t.regs.next e).dst.dataDstQ = d) := by
  have hm : t.regs.reqMoves e = t.regs.reqMoving := by simp [Regs.reqMoves, h.taken]
  cases hd : e.dst with
  | none => simpa [Regs.next, hd, hm] using ⟨h.stage, h.stage0, h.stage1⟩
  | some ready =>
    refine ⟨fun _ => by simp [Regs.next, hd], fun hst => ?_, fun hst => ?_⟩
    · have h0 : t.regs.dst.reqDstQ = t.regs.src.reqSrcQ := by simpa [Regs.next, hd, Dst.next] using hst
      simp [Regs.next, hd, Dst.next, hm, h.stage h0]
    · have h0 : t.regs.dst.reqQ0 = t.regs.src.reqSrcQ := by simpa [Regs.next, hd, Dst.next] using hst
      have hstill := h.stage (h.stage0 h0)
      refine ⟨by simpa [Regs.next, hd, Dst.next] using h.stage0 h0, ?_⟩
      cases hv : t.regs.dst.valid with
      | true => simp [Regs.next, hd, Dst.next, hv, (h.stage1 (h.valid_iff.1 hv)).2]
      | false =>
        have hne : t.regs.dst.reqQ0 ≠ t.regs.dst.reqQ1 := fun he => by
          simp [h.valid_iff.2 (he.symm.trans h0)] at hv
        simp [Regs.next, hd, Dst.next, hv, hne, hm, hstill, h.data]

theorem Full.next (h : Full t d) (e : Event α) :
    (t.regs.handed e = none ∧ Full (t.next e) d) ∨ (t.regs.handed e = some d ∧ Empty (t.next e)) := by
  have ht := h.taken e
  obtain ⟨hreq, hdata⟩ := src_of_not_taken ht
  have hm : t.regs.reqMoves e = t.regs.reqMoving := by simp [Regs.reqMoves, ht]
  cases hh : t.regs.handed e with
  | none =>
    left
    obtain ⟨hst, hst0, hst1⟩ := h.dst_next e
    have hack : (t.regs.next e).dst.ackDstQ = t.regs.dst.ackDstQ := by
      cases hd : e.dst with
      | none => simp [Regs.next, hd]
      | some ready =>
        have hv : (t.regs.dst.valid && ready) = false := by simpa [Regs.handed, hd] using hh
        simp [Regs.next, hd, Dst.next, hv]
    have ham : t.regs.ackMoves e = false := by simp [Regs.ackMoves, hh, h.still]
    refine ⟨rfl, {
      all := by simp [Tracked.next, ht, hh, h.all]
      data := hdata.trans h.data
      req := by simp [Tracked.next, hreq, hack, h.req]
      back := ?_
      still := by simp [Tracked.next, Regs.next, ham]
      stage := by simpa [Tracked.next, hreq] using hst
      stage0 := by simpa [Tracked.next, hreq] using hst0
      stage1 := by simpa [Tracked.next, hreq] using hst1 }⟩
    rw [show (t.next e).regs = t.regs.next e from rfl, hack]
    cases hs : e.src <;> simp [Regs.next, hs, Src.next, ham, h.back]
  | some d' =>
    right
    have hv : t.regs.dst.valid = true ∧ e.dst = some true ∧ t.regs.dst.dataDstQ = d' := by
      simpa [Regs.handed, and_assoc] using hh
    obtain ⟨hq1, rfl⟩ : t.regs.dst.reqQ1 = t.regs.src.reqSrcQ ∧ d' = d :=
      ⟨h.valid_iff.1 hv.1, hv.2.2.symm.trans (h.stage1 (h.valid_iff.1 hv.1)).2⟩
    have hq0 := (h.stage1 hq1).1
    have hq := h.stage0 hq0
    have hstill := h.stage hq
    have hack : (t.regs.next e).dst.ackDstQ = t.regs.src.reqSrcQ := by
      simp [Regs.next, hv.2.1, Dst.next, hv.1, h.req]
    refine ⟨rfl, {
      all := by simp [Tracked.next, ht, hh, h.all]
      req := by simp [Tracked.next, hreq, hack]
      sync := ?_
      still := by simp [Tracked.next, Regs.next, hm, hstill]
      back0 := ?_
      back1 := ?_ }⟩
    · rw [show (t.next e).regs = t.regs.next e from rfl, hack]
      simp [Regs.next, hv.2.1, Dst.next, hm, hstill, hq, hq0]
    · rw [show (t.next e).regs = t.regs.next e from rfl, hack, h.req]
      cases hs : e.src <;> simp [Regs.next, hs, h.back]
    · rw [show (t.next e).regs = t.regs.next e from rfl, hack, h.req]
      cases hs : e.src <;> simp [Regs.next, hs, Src.next, h.back]

theorem Inv.next (h : Inv t) (e : Event α) : Inv (t.next e) := by
  obtain h | ⟨d, h⟩ := h
  · exact h.next e
  · obtain ⟨-, h'⟩ | ⟨-, h'⟩ := h.next e
    exacts [.inr ⟨d, h'⟩, .inl h']

theorem inv_reset (z : α) : Inv (⟨.reset z, [], []⟩ : Tracked α) :=
  .inl ⟨rfl, rfl, ⟨rfl, rfl, rfl⟩, rfl, fun _ => rfl, fun _ => rfl⟩

theorem inv_of_reachable {z : α} (h : (machine z).Reachable t) : Inv t :=
  h.inv (by rintro _ rfl; exact inv_reset z) fun _ e hs => hs.next e

/-- In every run what has been handed on are the items taken, in order, but for one at most; and
the item on show is the next of them. -/
theorem crossing_law (z : α) (es : List (Event α)) :
    let t := (machine z).run ⟨.reset z, [], []⟩ es
    t.received <+: t.sent ∧ t.sent.length ≤ t.received.length + 1 ∧
      (t.regs.dst.valid = true → t.sent = t.received ++ [t.regs.dst.dataDstQ]) ∧
      (t.regs.src.ready = true → t.sent = t.received) := by
  intro t
  obtain h | ⟨d, h⟩ := inv_of_reachable (t := t) ⟨_, es, rfl, rfl⟩
  · refine ⟨by rw [h.all], by rw [h.all]; omega, fun hv => ?_, fun _ => h.all⟩
    rw [h.valid] at hv
    cases hv
  · refine ⟨⟨[d], h.all.symm⟩, by simp [h.all], fun hv => ?_, fun hr => ?_⟩
    · rw [(h.stage1 (h.valid_iff.1 hv)).2, h.all]
    · rw [h.not_ready] at hr
      cases hr

/-! ### Progress -/

/-- How many edges of the receiver the request has before it. -/
def Regs.ahead (r : Regs α) : ℕ :=
  if r.dst.reqQ1 = r.src.reqSrcQ then 1
  else if r.dst.reqQ0 = r.src.reqSrcQ then 2
  else if r.dst.reqDstQ = r.src.reqSrcQ then 3
  else if r.reqMoving = false then 4
  else 5

/-- How many edges of the sender the acknowledge has before it. -/
def Regs.behind (r : Regs α) : ℕ :=
  if r.src.ackQ = r.dst.ackDstQ then 0
  else if r.src.ackSrcQ = r.dst.ackDstQ then 1
  else if r.ackMoving = false then 2
  else 3

theorem Regs.ahead_le (r : Regs α) : r.ahead ≤ 5 := by
  unfold Regs.ahead
  split_ifs <;> omega

theorem Regs.ahead_pos (r : Regs α) : 0 < r.ahead := by
  unfold Regs.ahead
  split_ifs <;> omega

theorem Regs.behind_le (r : Regs α) : r.behind ≤ 3 := by
  unfold Regs.behind
  split_ifs <;> omega

/-- The request goes on by a stage at every edge of a receiver that is ready. -/
theorem Full.ahead_next (h : Full t d) (e : Event α) (hh : t.regs.handed e = none) :
    (t.regs.next e).ahead ≤ t.regs.ahead ∧
      (e.dst = some true → (t.regs.next e).ahead < t.regs.ahead) := by
  obtain ⟨hreq, -⟩ := src_of_not_taken (h.taken e)
  have hm : t.regs.reqMoves e = t.regs.reqMoving := by simp [Regs.reqMoves, h.taken]
  cases hd : e.dst with
  | none =>
    rw [Regs.ahead, hreq]
    simp [Regs.ahead, Regs.next, hd, hm]
  | some ready =>
    have hv : ready = true → t.regs.dst.reqQ1 ≠ t.regs.src.reqSrcQ := by
      rintro rfl hq
      simp [Regs.handed, h.valid_iff.2 hq, hd] at hh
    have hn : (t.regs.next e).ahead =
        if t.regs.dst.reqQ0 = t.regs.src.reqSrcQ then 1
        else if t.regs.dst.reqDstQ = t.regs.src.reqSrcQ then 2
        else if (if t.regs.reqMoving then e.reqRead else t.regs.src.reqSrcQ) = t.regs.src.reqSrcQ then 3
        else 4 := by
      rw [Regs.ahead, hreq]
      simp [Regs.next, hd, Dst.next, hm]
    have hst := h.stage
    have hst0 := h.stage0
    have hst1 : t.regs.dst.reqQ1 = t.regs.src.reqSrcQ → t.regs.dst.reqQ0 = t.regs.src.reqSrcQ :=
      fun hq => (h.stage1 hq).1
    rw [hn, Regs.ahead]
    refine ⟨by split_ifs <;> simp_all, fun hr => ?_⟩
    have hv' := hv (Option.some.inj hr)
    split_ifs <;> simp_all

/-- The acknowledge comes back by a stage at every edge of the sender. -/
theorem Empty.behind_next (h : Empty t) (e : Event α) :
    (t.regs.next e).behind ≤ t.regs.behind ∧
      (e.src.isSome → t.regs.behind ≠ 0 → (t.regs.next e).behind < t.regs.behind) := by
  have hh := h.handed e
  have hm : t.regs.ackMoves e = t.regs.ackMoving := by simp [Regs.ackMoves, hh]
  have hack : (t.regs.next e).dst.ackDstQ = t.regs.dst.ackDstQ := by
    cases hd : e.dst <;> simp [Regs.next, hd, Dst.next, h.valid]
  cases hs : e.src with
  | none =>
    rw [Regs.behind, hack]
    simp [Regs.behind, Regs.next, hs, hm]
  | some i =>
    have hn : (t.regs.next e).behind =
        if t.regs.src.ackSrcQ = t.regs.dst.ackDstQ then 0
        else if (if t.regs.ackMoving then e.ackRead else t.regs.dst.ackDstQ) = t.regs.dst.ackDstQ then 1
        else 2 := by
      rw [Regs.behind, hack]
      simp [Regs.next, hs, Src.next, hm]
    have hb0 := h.back0
    have hb1 := h.back1
    rw [hn, Regs.behind]
    refine ⟨by split_ifs <;> simp_all, fun _ h0 => ?_⟩
    split_ifs at h0 ⊢ <;> simp_all

theorem received_le_next (t : Tracked α) (e : Event α) : t.received.length ≤ (t.next e).received.length := by
  simp [Tracked.next]

theorem sent_le_next (t : Tracked α) (e : Event α) : t.sent.length ≤ (t.next e).sent.length := by
  simp [Tracked.next]

/-- What is left to do for the item number `n`. -/
def Tracked.due (n : ℕ) (t : Tracked α) : ℕ := if n < t.received.length then 0 else t.regs.ahead

/-- What is left to do until the sender can take the item number `n`. -/
def Tracked.wait (n : ℕ) (t : Tracked α) : ℕ := if n < t.sent.length then 0 else t.regs.behind

theorem Inv.due_next (h : Inv t) {n : ℕ} (hn : n < t.sent.length) (e : Event α) :
    (t.next e).due n ≤ t.due n ∧
      (e.dst = some true → t.due n ≠ 0 → (t.next e).due n < t.due n) := by
  have hle := received_le_next t e
  obtain h | ⟨d, h⟩ := h
  · rw [h.all] at hn
    simp [Tracked.due, hn, show n < (t.next e).received.length by omega]
  · obtain ⟨hh, -⟩ | ⟨-, h'⟩ := h.next e
    · obtain ⟨ha, hlt⟩ := h.ahead_next e hh
      have hr : (t.next e).received = t.received := by simp [Tracked.next, hh]
      rw [Tracked.due, Tracked.due, hr]
      split_ifs
      · exact ⟨le_rfl, fun _ h0 => absurd rfl h0⟩
      · exact ⟨ha, fun hd _ => hlt hd⟩
    · have hs : n < (t.next e).received.length := by
        rw [← h'.all]
        exact hn.trans_le (sent_le_next t e)
      have h0 : (t.next e).due n = 0 := if_pos hs
      rw [h0]
      exact ⟨Nat.zero_le _, fun _ => Nat.pos_of_ne_zero⟩

theorem Inv.empty (h : Inv t) (he : t.sent = t.received) : Empty t := by
  obtain h | ⟨d, h⟩ := h
  · exact h
  · have hl := congrArg List.length h.all
    simp [he] at hl

/-- The item number `n` has been taken, or all before it have been handed on. -/
def Tracked.Waiting (n : ℕ) (t : Tracked α) : Prop := n < t.sent.length ∨ Empty t ∧ t.sent.length = n

theorem waiting_next {n : ℕ} (h : t.Waiting n) (e : Event α) : (t.next e).Waiting n := by
  obtain h | ⟨h, hl⟩ := h
  · exact .inl (h.trans_le (sent_le_next t e))
  · cases ht : t.regs.taken e with
    | some d => exact .inl (by simp [Tracked.next, ht, hl])
    | none =>
      have hs : (t.next e).sent = t.sent := by simp [Tracked.next, ht]
      have hr : (t.next e).received = t.received := by simp [Tracked.next, h.handed e]
      exact .inr ⟨(h.next e).empty (by rw [hs, hr, h.all]), by rw [hs, hl]⟩

theorem wait_next {n : ℕ} (h : t.Waiting n) (e : Event α) :
    (t.next e).wait n ≤ t.wait n ∧ (e.src.isSome → t.wait n ≠ 0 → (t.next e).wait n < t.wait n) := by
  obtain h | ⟨h, hl⟩ := h
  · have h' := h.trans_le (sent_le_next t e)
    simp [Tracked.wait, h, h']
  · obtain ⟨hle, hlt⟩ := h.behind_next e
    rw [Tracked.wait, Tracked.wait, hl, if_neg (lt_irrefl n)]
    split_ifs
    · exact ⟨Nat.zero_le _, fun _ => Nat.pos_of_ne_zero⟩
    · exact ⟨hle, hlt⟩

/-- From any state that a run reaches: what has been taken is handed on within five edges of a
receiver that is ready; and once all of it is, the sender is ready within three edges of its own,
if it has not taken the next item before. -/
theorem crossing_progress (z : α) (pre es : List (Event α)) :
    let t := (machine z).run ⟨.reset z, [], []⟩ pre
    let u := (machine z).run t es
    (∀ n < t.sent.length, 5 ≤ (machine z).count (fun _ e => e.dst == some true) t es →
      n < u.received.length) ∧
    (t.sent = t.received → 3 ≤ (machine z).count (fun _ e => e.src.isSome) t es →
      u.regs.src.ready = true ∨ t.sent.length < u.sent.length) := by
  intro t u
  have hinv : Inv t := inv_of_reachable ⟨_, pre, rfl, rfl⟩
  refine ⟨fun n hn hc => ?_, fun he hc => ?_⟩
  · have hle : t.due n ≤ 5 := by
      rw [Tracked.due]
      split_ifs
      exacts [Nat.zero_le _, t.regs.ahead_le]
    have hdue := Machine.run_measure (M := machine z) (P := fun s => Inv s ∧ n < s.sent.length)
      (p := fun _ e => e.dst == some true) (μ := Tracked.due n)
      (fun s e hs _ => ⟨hs.1.next e, hs.2.trans_le (sent_le_next s e)⟩)
      (fun s e hs _ => (hs.1.due_next hs.2 e).1)
      (fun s e hs _ hd h0 => (hs.1.due_next hs.2 e).2 (by simpa using hd) h0) es t ⟨hinv, hn⟩
      (Machine.steps_true es t) (hle.trans hc)
    by_contra hr
    rw [Tracked.due, if_neg hr] at hdue
    exact (Regs.ahead_pos _).ne' hdue
  · have hle : t.wait t.sent.length ≤ 3 := by
      rw [Tracked.wait, if_neg (lt_irrefl _)]
      exact t.regs.behind_le
    have hstart : t.Waiting t.sent.length := .inr ⟨hinv.empty he, rfl⟩
    have hwait := Machine.run_measure (M := machine z) (P := Tracked.Waiting t.sent.length)
      (p := fun _ e => e.src.isSome) (μ := Tracked.wait t.sent.length)
      (fun s e hs _ => waiting_next hs e) (fun s e hs _ => (wait_next hs e).1)
      (fun s e hs _ hp h0 => (wait_next hs e).2 hp h0) es t hstart (Machine.steps_true es t)
      (hle.trans hc)
    have hend := Machine.run_inv (M := machine z) (P := Tracked.Waiting t.sent.length)
      (fun s e hs _ => waiting_next hs e) es t hstart (Machine.steps_true es t)
    obtain h | ⟨h, hl⟩ := hend
    · exact .inr h
    · rw [Tracked.wait, hl, if_neg (lt_irrefl _)] at hwait
      refine .inl (h.ready_iff.2 ?_)
      by_contra hq
      rw [Regs.behind, if_neg hq] at hwait
      split_ifs at hwait

/-- The sender takes `7`; then both clocks tick, and a line that moves reads as before. -/
def oneItem : List (Event ℕ) := [⟨some ⟨true, 7⟩, none, false, false, 0⟩]

def bothTick (n : ℕ) : List (Event ℕ) := List.replicate n ⟨some ⟨false, 0⟩, some true, false, false, 0⟩

theorem crossing_progress_seven :
    ((machine 0).run ((machine 0).run ⟨.reset 0, [], []⟩ oneItem) (bothTick 5)).received = [7] ∧
      0 < ((machine 0).run ((machine 0).run ⟨.reset 0, [], []⟩ oneItem) (bothTick 5)).received.length :=
  ⟨by decide, (crossing_progress 0 oneItem (bothTick 5)).1 0 (by decide) (by decide)⟩

end Cdc2Phase
end Ariane

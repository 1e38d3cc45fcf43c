/-
# The way of a DMI request

`dmi_cdc.sv` takes requests from the clock of the JTAG port to that of the debug module and responses
back, each over a crossing of its own (`Ariane.Common.Cdc2Phase`). Between the two stand the registers
of the module (`Ariane.Debug.DmCsrs`), which make one response of every request and keep two in a queue.

The clocks tick in any order. In every run the responses that the JTAG port gets are those of its
requests, one for each, in order (`dmi_path`).
-/
import Ariane.Common.Cdc2Phase
import Ariane.Debug.DmCsrs

namespace Ariane
namespace Dm
namespace DmiCdc

open Lib

/-- An edge of the JTAG clock: the request that is offered, and whether a response is taken. -/
structure JtagIn where
  valid : Bool
  req : DmiReq
  respReady : Bool

/-- What one of the crossings reads of lines that have just changed. -/
structure Lines (α : Type) where
  ackRead : Bool
  reqRead : Bool
  dataRead : α

/-- Either clock ticks or both; at an edge of its clock the module sees `core`, but for the fields that
the crossings supply. -/
structure Ev where
  jtag : Option JtagIn
  core : Option CsrsIn
  reqLines : Lines DmiReq
  respLines : Lines (BitVec 32)

/-- The crossings and the registers, and the requests that the registers have taken, each with what they
have made of it. -/
structure Sys where
  req : Cdc2Phase.Tracked DmiReq
  csrs : CsrsRegs
  resp : Cdc2Phase.Tracked (BitVec 32)
  served : List (DmiReq × BitVec 32)

namespace Sys

variable (s : Sys) (e : Ev)

/-- `i_cdc_req`. -/
def reqEv : Cdc2Phase.Event DmiReq where
  src := e.jtag.map fun j => ⟨j.valid, j.req⟩
  dst := e.core.map fun _ => DmCsrs.dmiReqReady s.csrs
  ackRead := e.reqLines.ackRead
  reqRead := e.reqLines.reqRead
  dataRead := e.reqLines.dataRead

/-- `i_cdc_resp`. -/
def respEv : Cdc2Phase.Event (BitVec 32) where
  src := e.core.map fun _ => ⟨!s.csrs.resp.empty, s.csrs.resp.out⟩
  dst := e.jtag.map JtagIn.respReady
  ackRead := e.respLines.ackRead
  reqRead := e.respLines.reqRead
  dataRead := e.respLines.dataRead

/-- What the registers see. -/
def csrsIn (i : CsrsIn) : CsrsIn :=
  { i with
    dmiReq := if s.req.regs.dst.valid then some s.req.regs.dst.dataDstQ else none
    dmiRespReady := s.resp.regs.src.ready }

def next : Sys where
  req := s.req.next (s.reqEv e)
  csrs := e.core.elim s.csrs fun i => DmCsrs.next s.csrs (s.csrsIn i)
  resp := s.resp.next (s.respEv e)
  served := s.served ++ e.core.elim [] fun i =>
    (DmCsrs.taken s.csrs (s.csrsIn i)).toList.map fun q => (q, (DmCsrs.updReq s.csrs (s.csrsIn i)).resp)

end Sys

/-- Both clocks' halves in reset. -/
def start (cmdValid : Bool) : Sys :=
  ⟨⟨.reset ⟨0, .nop, 0⟩, [], []⟩, DmCsrs.reset cmdValid, ⟨.reset 0, [], []⟩, []⟩

def machine (cmdValid : Bool) : Machine Sys Ev := ⟨(· = start cmdValid), Sys.next⟩

/-- The crossings keep their invariant, the registers have served what the first has handed on, and their
responses are what the second has taken and what waits. -/
structure Inv (s : Sys) : Prop where
  req : Cdc2Phase.Inv s.req
  resp : Cdc2Phase.Inv s.resp
  served : s.served.map Prod.fst = s.req.received
  queue : s.served.map Prod.snd = s.resp.sent ++ s.csrs.resp.contents

section Edge

variable {s : Sys} {e : Ev}

/-- The registers take what the crossing hands on. -/
theorem handed_eq (s : Sys) (e : Ev) : s.req.regs.handed (s.reqEv e) =
    e.core.bind fun i => DmCsrs.taken s.csrs (s.csrsIn i) := by
  cases hc : e.core with
  | none => simp [Cdc2Phase.Regs.handed, Sys.reqEv, hc]
  | some i =>
    cases hv : s.req.regs.dst.valid <;> cases hr : DmCsrs.dmiReqReady s.csrs <;>
      simp [Cdc2Phase.Regs.handed, Sys.reqEv, hc, DmCsrs.taken, Sys.csrsIn, hv, hr]

/-- The crossing takes the head of the queue, when both are ready. -/
theorem taken_eq (s : Sys) (e : Ev) : s.resp.regs.taken (s.respEv e) =
    if e.core.isSome && (!s.csrs.resp.empty && s.resp.regs.src.ready) then some s.csrs.resp.out else none := by
  cases hc : e.core with
  | none => simp [Cdc2Phase.Regs.taken, Sys.respEv, hc]
  | some i => simp [Cdc2Phase.Regs.taken, Sys.respEv, hc]

theorem resp_next (r : CsrsRegs) (i : CsrsIn) : (DmCsrs.next r i).resp = DmCsrs.nextResp r i := by
  unfold DmCsrs.next
  split <;> rfl

theorem Inv.next (h : Inv s) (e : Ev) : Inv (s.next e) where
  req := h.req.next (s.reqEv e)
  resp := h.resp.next (s.respEv e)
  served := by
    have hreq : (s.next e).req.received = s.req.received ++ (s.req.regs.handed (s.reqEv e)).toList := rfl
    rw [hreq, handed_eq, ← h.served]
    cases hc : e.core with
    | none => simp [Sys.next, hc]
    | some i => simp [Sys.next, hc, Function.comp_def]
  queue := by
    have hsent : (s.next e).resp.sent = s.resp.sent ++ (s.resp.regs.taken (s.respEv e)).toList := rfl
    rw [hsent, taken_eq]
    cases hc : e.core with
    | none => simp [Sys.next, hc, h.queue]
    | some i =>
      have hfifo : (s.next e).csrs.resp = DmCsrs.nextResp s.csrs (s.csrsIn i) := by
        simp [Sys.next, hc, resp_next]
      have hready : (s.csrsIn i).dmiRespReady = s.resp.regs.src.ready := rfl
      have hserved : (s.next e).served.map Prod.snd = s.served.map Prod.snd ++
          ((DmCsrs.taken s.csrs (s.csrsIn i)).map fun _ =>
            (DmCsrs.updReq s.csrs (s.csrsIn i)).resp).toList := by
        cases ht : DmCsrs.taken s.csrs (s.csrsIn i) <;> simp [Sys.next, hc, ht]
      -- nothing is taken while the queue is full
      have hpush : (if s.csrs.resp.full then [] else ((DmCsrs.taken s.csrs (s.csrsIn i)).map fun _ =>
            (DmCsrs.updReq s.csrs (s.csrsIn i)).resp).toList) =
          ((DmCsrs.taken s.csrs (s.csrsIn i)).map fun _ =>
            (DmCsrs.updReq s.csrs (s.csrsIn i)).resp).toList := by
        cases hf : s.csrs.resp.full with
        | false => rfl
        | true => simp [DmCsrs.taken, DmCsrs.dmiReqReady, hf]
      have hpop : (if !s.csrs.resp.empty && s.resp.regs.src.ready then some s.csrs.resp.out
            else none).toList ++
          (if s.resp.regs.src.ready && !s.csrs.resp.empty then s.csrs.resp.contents.tail
            else s.csrs.resp.contents) = s.csrs.resp.contents := by
        cases he : s.csrs.resp.empty with
        | true => simp
        | false =>
          obtain ⟨l, hl⟩ := Fifo.contents_eq_cons he
          cases s.resp.regs.src.ready <;> simp [hl]
      rw [hserved, h.queue, hfifo, DmCsrs.nextResp, Fifo.contents_next, hready, hpush]
      simp only [Option.isSome_some, Bool.true_and, Bool.false_eq_true, if_false]
      rw [List.append_assoc, List.append_assoc, ← List.append_assoc (Option.toList _), hpop]

end Edge

theorem inv_start (cmdValid : Bool) : Inv (start cmdValid) :=
  ⟨Cdc2Phase.inv_reset _, Cdc2Phase.inv_reset _, rfl, rfl⟩

theorem received_prefix {α : Type} {t : Cdc2Phase.Tracked α} (h : Cdc2Phase.Inv t) :
    t.received <+: t.sent ∧ t.sent.length ≤ t.received.length + 1 := by
  rcases h with h | ⟨d, h⟩
  · rw [h.all]
    exact ⟨List.prefix_rfl, by omega⟩
  · exact ⟨⟨[d], h.all.symm⟩, by simp [h.all]⟩

/-- The requests that the registers have served are the first of those the port has sent, the responses
that the port has got are the first of those to them, and no more than four requests are under way. -/
def Answered (s : Sys) : Prop :=
  s.served.map Prod.fst <+: s.req.sent ∧ s.resp.received <+: s.served.map Prod.snd ∧
    s.req.sent.length ≤ s.resp.received.length + 4

/-- **Every DMI request gets its response.** In every run, in whatever order the clocks tick and
whatever the crossings read of lines that have just changed: the registers serve the requests of the JTAG
port in order, each once, and the port gets their responses in order, each once; at most four requests
are between a request and its response. -/
theorem dmi_path (cmdValid : Bool) (es : List Ev) : Answered ((machine cmdValid).run (start cmdValid) es) := by
  have h : Inv ((machine cmdValid).run (start cmdValid) es) :=
    Machine.run_inv (M := machine cmdValid) (P := Inv) (fun _ e hs _ => hs.next e) es _ (inv_start cmdValid)
      (Machine.steps_true es _)
  obtain ⟨h1, h2⟩ := received_prefix h.req
  obtain ⟨h3, h4⟩ := received_prefix h.resp
  have hle := Fifo.length_contents ((machine cmdValid).run (start cmdValid) es).csrs.resp
  have hcnt := ((machine cmdValid).run (start cmdValid) es).csrs.resp.cnt_le
  refine ⟨by rw [h.served]; exact h1, ?_, ?_⟩
  · rw [h.queue]
    exact h3.trans (List.prefix_append _ _)
  · have hf := congrArg List.length h.served
    have hq := congrArg List.length h.queue
    rw [List.length_map] at hf
    rw [List.length_map, List.length_append] at hq
    omega

end DmiCdc
end Dm
end Ariane

/-
# Debug entry and exit

Debug mode is entered by a debug request or by a breakpoint the debugger asked
for, and left by DRET. Entry stores the level and the pc (`DebugRoundTrip.prv`,
`.dpc`), and nothing a debugger does with CSR accesses other than a write of
`dpc` keeps DRET from going back there.

Entry is to be invisible to the debugged program. For a debug request it is;
a breakpoint takes the regular trap on its way, which writes the trap CSRs, the
interrupt stack and the privilege level of the trap's target. `TrapNoop` says
when these writes change nothing, and `debug_round_trip_iff` that this is the
only way a breakpoint can be invisible.
-/
import Ariane.Core.Trap

namespace Ariane

open Riscv Lib

namespace Csr

variable {cfg : Cfg} {s : Regs} {i : In}

/-! ### One cycle -/

/-- The trap of the cycle would store what the registers hold already. -/
def TrapNoop (s : Regs) (i : In) : Prop :=
  (trapMode s i).lvl = s.privLvl ∧
    (trapCsrs s).get (trapMode s i) = ⟨i.pc, i.ex.cause, i.ex.tval⟩ ∧
    (statusStacks s.mstatus).get (trapMode s i) = ⟨false, false, s.privLvl⟩

/-- The context right after a debug entry, in a cycle that writes and returns
nothing: the trap of the cycle, if there is one, and the debug registers. -/
theorem ctx_debugEntry (cfg : Cfg) (hd : s.debugMode = false) (hex : i.ex.valid = true) (he : EntersDebug s i)
    (hack : i.commitAck 0 = false) (hw : ctxWritten s i = ctx s) (hret : i.csrOp.isReturn = false) :
    ∃ n : BitVec 3, ctx (next cfg s i) =
      { ctxTrap s i (ctx s) with
        debugMode := true, dpc := i.pc, dcsr := { s.dcsr with prv := s.privLvl, cause := n } } := by
  have hO : privLvlO s = s.privLvl := by simp [privLvlO, hd]
  have hne : debugRequest ≠ breakpoint := by decide
  have hctx : ctx (next cfg s i) = ctxDebug cfg s i (ctxTrap s i (ctx s)) := by
    rw [ctx_next, hw, ctxReturn_of_not_return hret]
  have hdcsr : (ctxTrap s i (ctx s)).dcsr = s.dcsr := ctxTrap_dcsr s i (ctx s)
  rcases he with he | ⟨he, hbit⟩
  · refine ⟨3, ?_⟩
    rw [hctx]
    simp only [ctxDebug, ctxSingleStep, ctxDebugReq, ctxEbreak, hd, hack, hex, he, hne, hdcsr, hO,
      Bool.and_false, Bool.true_and, beq_iff_eq, Bool.false_eq_true, if_false, if_true]
  · refine ⟨1, ?_⟩
    rw [hctx, ← hO]
    simp only [ctxDebug, ctxSingleStep, ctxDebugReq, ctxEbreak, hd, hack, hex, he, hne.symm, hdcsr,
      hbit, Bool.and_false, Bool.true_and, beq_iff_eq, Bool.false_eq_true, if_false, if_true,
      Option.getD_some]

/-- A debug request is not trapped. -/
theorem ctxTrap_of_debugRequest (h : i.ex.cause = debugRequest) (x : Ctx) : ctxTrap s i x = x := by
  have ht : trapTaken s i = false := by simp [trapTaken, h]
  simp [ctxTrap, ht]

/-- A trap changes nothing exactly when it stores what is there. -/
theorem ctxTrap_eq_iff (ht : trapTaken s i = true) (hd : s.debugMode = false)
    (hp : Implemented s.privLvl) : ctxTrap s i (ctx s) = ctx s ↔ TrapNoop s i := by
  have hsaved := savedPriv_trapMode hd hp ht
  unfold TrapNoop ctxTrap
  rw [if_pos ht]
  generalize trapMode s i = T at hsaved
  constructor
  · intro h
    have hp := congrArg Ctx.privLvl h
    have htrap := congrArg (fun x => (Ctx.trap x).get T) h
    have hstack := congrArg (fun x => (Ctx.stack x).get T) h
    simp only [ctxEnter, PerMode.get_set, hsaved] at hp htrap hstack
    have hstack' : (statusStacks s.mstatus).get T =
        ⟨false, ((statusStacks s.mstatus).get T).ie, s.privLvl⟩ := hstack.symm
    refine ⟨hp, htrap.symm, ?_⟩
    -- the saved enable is the old one, which the trap leaves cleared
    have hie : ((statusStacks s.mstatus).get T).ie = false := by rw [hstack']
    rw [hie] at hstack'
    exact hstack'
  · rintro ⟨hlvl, htrap, hstack⟩
    have hset {α : Type} (y : PerMode α) (a : α) (h : y.get T = a) : y.set T a = y := by
      subst h
      cases T <;> rfl
    have htrap' : (ctx s).trap.set T ⟨i.pc, i.ex.cause, trapTval i.ex⟩ = (ctx s).trap :=
      hset _ _ htrap
    have hie : ((ctx s).stack.get T).ie = false := congrArg Stack.ie hstack
    have hstack' : (ctx s).stack.set T ⟨false, ((ctx s).stack.get T).ie, savedPriv T s.privLvl⟩ =
        (ctx s).stack := by
      rw [hie, hsaved]
      exact hset _ _ hstack
    simp only [ctxEnter, htrap', hstack', hlvl]
    rfl

/-- A cycle in debug mode that is a CSR access at most, does not write `dpc`, and
writes `dcsr` with level `p` only. -/
structure DebugAccess (p : PrivLvl) (s : Regs) (i : In) : Prop where
  noRet : i.csrOp.isReturn = false
  noDpc : ¬Writes s i .dpc
  prv : Writes s i .dcsr → (csrWdata s i).extractLsb' 0 2 = p

/-- What DRET goes back to, while in debug mode at level `q`. -/
structure DebugSaved (p q : PrivLvl) (pc : BitVec 64) (s : Regs) : Prop where
  debugMode : s.debugMode = true
  privLvl : s.privLvl = q
  dpc : s.dpc = pc
  prv : s.dcsr.prv = p ∨ s.dcsr.prv = q

/-- A debugger's access keeps it. A write of `dcsr` puts the current level into
`prv`, whatever level is written. -/
theorem debugSaved_next {p q p' : PrivLvl} {pc : BitVec 64} (h : DebugSaved p q pc s)
    (ha : DebugAccess p' s i) : DebugSaved p q pc (next cfg s i) := by
  have hctx : ctx (next cfg s i) = ctxWritten s i := by
    have ht : trapTaken s i = false := by simp [trapTaken, h.debugMode]
    rw [ctx_next, ctxTrap, ht, ctxDebug, if_pos h.debugMode, ctxReturn_of_not_return ha.noRet]
    rfl
  have hsaved : (ctxWritten s i).debugMode = true ∧ (ctxWritten s i).privLvl = q ∧
      (ctxWritten s i).dpc = pc ∧
      ((ctxWritten s i).dcsr.prv = p ∨ (ctxWritten s i).dcsr.prv = q) := by
    rcases ctxWritten_cases s i with ⟨r, hr, hx⟩ | hx
    · rw [hx]
      cases r with
      | dpc => exact absurd hr ha.noDpc
      | dcsr => exact ⟨h.debugMode, h.privLvl, h.dpc, .inr h.privLvl⟩
      | _ => exact ⟨h.debugMode, h.privLvl, h.dpc, h.prv⟩
    · rw [hx]
      exact ⟨h.debugMode, h.privLvl, h.dpc, h.prv⟩
  rw [← hctx] at hsaved
  exact ⟨hsaved.1, hsaved.2.1, hsaved.2.2.1, hsaved.2.2.2⟩

end Csr

namespace Core

open Csr (EntersDebug TrapNoop DebugSaved)

variable {cfg : Cfg} {c : State} {x : In}

/-! ### The round trip -/

/-- A cycle of a debugger that came from level `p`. -/
def DebugAccess (cfg : Cfg) (p : PrivLvl) (c : State) (x : In) : Prop :=
  Csr.DebugAccess p c.csr (csrIn cfg c x)

/-- DRET out of `c` goes back to level `p` and to `pc`. -/
structure DebugExit (cfg : Cfg) (p : PrivLvl) (pc : BitVec 64) (c : State) (y : In) : Prop where
  debugMode : (next cfg c y).csr.debugMode = false
  privLvl : (next cfg c y).csr.privLvl = p
  eret : Csr.eretO cfg c.csr (csrIn cfg c y) = true
  epc : Csr.epcO c.csr (csrIn cfg c y) = pc

/-- The debug entry of the cycle stores the level and the pc, is invisible to
the trap CSRs, the interrupt stacks and the privilege level, and DRET undoes it
after any accesses of the debugger. -/
structure DebugRoundTrip (cfg : Cfg) (c : State) (x : In) : Prop where
  debugMode : (next cfg c x).csr.debugMode = true
  prv : (next cfg c x).csr.dcsr.prv = c.csr.privLvl
  dpc : (next cfg c x).csr.dpc = (x.commitInstr 0).pc
  trap : Csr.trapCsrs (next cfg c x).csr = Csr.trapCsrs c.csr
  stack : Csr.statusStacks (next cfg c x).csr.mstatus = Csr.statusStacks c.csr.mstatus
  privLvl : (next cfg c x).csr.privLvl = c.csr.privLvl
  exit : ∀ (xs : List In) (y : In),
    (machine cfg).Steps (DebugAccess cfg c.csr.privLvl) (next cfg c x) xs →
    (csrIn cfg ((machine cfg).run (next cfg c x) xs) y).csrOp = .dret →
      DebugExit cfg c.csr.privLvl (x.commitInstr 0).pc ((machine cfg).run (next cfg c x) xs) y

/-- What DRET goes back to is there after any accesses of the debugger. -/
theorem debugSaved_run {p q p' : PrivLvl} {pc : BitVec 64} (xs : List In) (c : State)
    (h : DebugSaved p q pc c.csr) (hs : (machine cfg).Steps (DebugAccess cfg p') c xs) :
    DebugSaved p q pc ((machine cfg).run c xs).csr :=
  Machine.run_inv (P := fun c => DebugSaved p q pc c.csr)
    (fun _ _ hc ha => Csr.debugSaved_next hc ha) xs c h hs

/-- A debug entry is a round trip exactly when it is a debug request, or a
breakpoint whose trap stores what the registers hold already. -/
theorem debug_round_trip_iff (hc : (machine cfg).Reachable c) (hd : c.csr.debugMode = false)
    (hex : (csrIn cfg c x).ex.valid = true) (he : EntersDebug c.csr (csrIn cfg c x)) :
    DebugRoundTrip cfg c x ↔
      (csrIn cfg c x).ex.cause = debugRequest ∨ TrapNoop c.csr (csrIn cfg c x) := by
  obtain ⟨hack, hw, hret⟩ := exception_cycle hc hex
  obtain ⟨n, hctx⟩ := Csr.ctx_debugEntry cfg hd hex he hack hw hret
  have hctx' : Csr.ctx (next cfg c x).csr = _ := hctx
  -- a breakpoint reaches debug mode from an implemented level, and traps
  have hebreak (hne : (csrIn cfg c x).ex.cause ≠ debugRequest) :
      Csr.trapTaken c.csr (csrIn cfg c x) = true ∧ Implemented c.csr.privLvl := by
    refine ⟨by simp [Csr.trapTaken, hd, hex, hne], ?_⟩
    obtain ⟨-, hbit⟩ := he.resolve_left hne
    have hO : Csr.privLvlO c.csr = c.csr.privLvl := by simp [Csr.privLvlO, hd]
    rw [hO] at hbit
    by_contra hn
    simp only [Implemented, not_or] at hn
    simp [Csr.ebreakBit, hn.1, hn.2.1, hn.2.2] at hbit
  constructor
  · intro h
    by_cases hreq : (csrIn cfg c x).ex.cause = debugRequest
    · exact .inl hreq
    · obtain ⟨ht, hp⟩ := hebreak hreq
      refine .inr ((Csr.ctxTrap_eq_iff ht hd hp).1 ?_)
      have hpriv := (congrArg Csr.Ctx.privLvl hctx').symm.trans h.privLvl
      have htrap := (congrArg Csr.Ctx.trap hctx').symm.trans h.trap
      have hstack := (congrArg Csr.Ctx.stack hctx').symm.trans h.stack
      exact Csr.Ctx.ext hpriv htrap hstack (Csr.ctxTrap_debugMode _ _ _) (Csr.ctxTrap_dcsr _ _ _)
        (Csr.ctxTrap_dpc _ _ _)
  · intro h
    have htrap : Csr.ctxTrap c.csr (csrIn cfg c x) (Csr.ctx c.csr) = Csr.ctx c.csr := by
      by_cases hreq : (csrIn cfg c x).ex.cause = debugRequest
      · exact Csr.ctxTrap_of_debugRequest hreq _
      · obtain ⟨ht, hp⟩ := hebreak hreq
        exact (Csr.ctxTrap_eq_iff ht hd hp).2 (h.resolve_left hreq)
    rw [htrap] at hctx'
    have hmode : (next cfg c x).csr.debugMode = true := congrArg Csr.Ctx.debugMode hctx'
    have hprv : (next cfg c x).csr.dcsr.prv = c.csr.privLvl :=
      congrArg (fun x => (Csr.Ctx.dcsr x).prv) hctx'
    have hdpc : (next cfg c x).csr.dpc = (x.commitInstr 0).pc := congrArg Csr.Ctx.dpc hctx'
    have hpriv : (next cfg c x).csr.privLvl = c.csr.privLvl := congrArg Csr.Ctx.privLvl hctx'
    refine ⟨hmode, hprv, hdpc, congrArg Csr.Ctx.trap hctx', congrArg Csr.Ctx.stack hctx', hpriv, ?_⟩
    intro xs y hs hop
    have hsaved := debugSaved_run xs (next cfg c x) ⟨hmode, hpriv, hdpc, .inl hprv⟩ hs
    obtain ⟨h1, h2, h3, h4⟩ := Csr.dret_next cfg ((machine cfg).run (next cfg c x) xs).csr hop
    refine ⟨h1, ?_, h3, h4.trans hsaved.dpc⟩
    rcases hsaved.prv with hprv' | hprv'
    · exact h2.trans hprv'
    · exact h2.trans hprv'

/-- A debug request right after reset. -/
theorem debug_round_trip_request : DebugRoundTrip socCfg reset (In.raise debugRequest) :=
  (debug_round_trip_iff ⟨reset, [], rfl, rfl⟩ rfl (by decide) (by decide)).2 (.inl rfl)

/-- A CSR instruction that writes `w` to `r`. -/
def In.csrWrite (r : CsrReg) (w : BitVec 64) : In :=
  { In.idle with
    csrAddr := r.addr
    commitInstr := fun _ =>
      { ScoreboardEntry.empty with fu := .csr, op := .csrWrite, result := w, valid := true } }

/-- A debugger has set `dcsr.ebreakm` and left. -/
def ebreakmState : State :=
  (machine socCfg).run reset [In.raise debugRequest, In.csrWrite .dcsr 0x8000, In.csr .dret]

/-- A breakpoint that enters debug mode overwrites `mcause`. -/
theorem ebreak_not_round_trip :
    (machine socCfg).Reachable ebreakmState ∧ ebreakmState.csr.debugMode = false ∧
      (csrIn socCfg ebreakmState (In.raise breakpoint)).ex.valid = true ∧
      EntersDebug ebreakmState.csr (csrIn socCfg ebreakmState (In.raise breakpoint)) ∧
      ¬DebugRoundTrip socCfg ebreakmState (In.raise breakpoint) := by
  refine ⟨⟨reset, _, rfl, rfl⟩, by decide, by decide, by decide, ?_⟩
  intro h
  have hcause := congrArg (fun t => (Csr.PerMode.m t).cause) h.trap
  exact absurd hcause (by decide)

end Core

end Ariane

/-
# Traps and returns

Taking a trap and returning from it is a round trip: the trap saves the
privilege level, the interrupt enable and the pc in the registers of the mode
it goes to and touches nothing of the other mode (`Trapped`); as long as no
cycle disturbs what was saved (`Undisturbed`), the matching return restores it
(`Resumed`).

The commit stage matters here: the CSR file alone would let a CSR write and a
trap happen in the same cycle. Behind the commit stage the write of such a
cycle is one the CSR file refuses (`exception_cycle`).
-/
import Ariane.Core.Backend

namespace Ariane

open Riscv Lib

namespace Csr

variable {cfg : Cfg} {s : Regs} {i : In} {T : Mode}

/-! ### One cycle -/

/-- The exception of the cycle enters debug mode instead of a trap handler. -/
def EntersDebug (s : Regs) (i : In) : Prop :=
  i.ex.cause = debugRequest ∨
    (i.ex.cause = breakpoint ∧ ebreakBit s.dcsr (privLvlO s) = some true)

instance : Decidable (EntersDebug s i) := by unfold EntersDebug; infer_instance

/-- The registers a return from the mode reads, and the ways to write them. -/
def Mode.stackRegs : Mode → List CsrReg
  | .m => [.mstatus, .mepc]
  | .s => [.mstatus, .sstatus, .sepc]

/-- The cycle neither traps to `T` nor returns from it, and writes none of the
registers the return reads. -/
structure Undisturbed (T : Mode) (s : Regs) (i : In) : Prop where
  noTrap : ¬TrapsTo s i T
  noRet : i.csrOp ≠ T.ret
  noWrite : ∀ r ∈ T.stackRegs, ¬Writes s i r

/-- What a trap to `T` leaves in the registers. -/
structure Trapped (T : Mode) (s : Regs) (i : In) (s' : Regs) : Prop where
  privLvl : s'.privLvl = T.lvl
  noDebug : s'.debugMode = false
  saved : (trapCsrs s').get T = ⟨i.pc, i.ex.cause, i.ex.tval⟩
  stack : (statusStacks s'.mstatus).get T =
    ⟨false, ((statusStacks s.mstatus).get T).ie, s.privLvl⟩
  otherSaved : (trapCsrs s').get T.other = (trapCsrs s).get T.other
  otherStack : (statusStacks s'.mstatus).get T.other = (statusStacks s.mstatus).get T.other

/-- What a return from `T` is to restore: the level, the interrupt enable and
the pc of the next instruction. -/
structure Resumed (cfg : Cfg) (T : Mode) (p : PrivLvl) (ie : Bool) (pc : BitVec 64) (s : Regs)
    (i : In) : Prop where
  privLvl : (next cfg s i).privLvl = p
  ie : ((statusStacks (next cfg s i).mstatus).get T).ie = ie
  eret : eretO cfg s i = true
  epc : epcO s i = pc

/-- Where a trap goes. -/
theorem trapMode_eq_s_iff (hd : s.debugMode = false) (ht : trapTaken s i = true) :
    trapMode s i = .s ↔ delegated s i.ex.cause = true ∧ s.privLvl ≠ privLvlM := by
  have hO : privLvlO s = s.privLvl := by simp [privLvlO, hd]
  have hMS : privLvlM ≠ privLvlS := by decide
  unfold trapMode trapToPrivLvl
  rw [ht, hO, Bool.true_and]
  by_cases hdel : delegated s i.ex.cause = true
  · by_cases hm : s.privLvl = privLvlM
    · simp [hdel, hm, hMS]
    · simp [hdel, hm]
  · simp [hdel, hMS]

/-- A trap never lowers the privilege level. -/
theorem le_trapMode_lvl (hd : s.debugMode = false) (hp : Implemented s.privLvl)
    (ht : trapTaken s i = true) : s.privLvl ≤ (trapMode s i).lvl := by
  have hiff := trapMode_eq_s_iff hd ht
  cases hT : trapMode s i with
  | m =>
    show s.privLvl ≤ privLvlM
    generalize s.privLvl = p
    revert p
    decide
  | s =>
    have hne := (hiff.1 hT).2
    show s.privLvl ≤ privLvlS
    rcases hp with h | h | h
    · rw [h]; decide
    · rw [h]; decide
    · exact absurd h hne

/-- The level a trap saves is the level it came from. -/
theorem savedPriv_trapMode (hd : s.debugMode = false) (hp : Implemented s.privLvl)
    (ht : trapTaken s i = true) : savedPriv (trapMode s i) s.privLvl = s.privLvl := by
  have hiff := trapMode_eq_s_iff hd ht
  cases hT : trapMode s i with
  | m => rfl
  | s =>
    have hne := (hiff.1 hT).2
    rcases hp with h | h | h
    · rw [h]; decide
    · rw [h]; decide
    · exact absurd h hne

/-- The context after a trap, in a cycle that writes and returns nothing. -/
theorem ctx_next_of_trap (cfg : Cfg) (ht : trapTaken s i = true) (hw : ctxWritten s i = ctx s)
    (hret : i.csrOp.isReturn = false) :
    ctx (next cfg s i) = ctxDebug cfg s i (ctxEnter s i (trapMode s i) (ctx s)) := by
  rw [ctx_next, hw, ctxTrap, if_pos ht, ctxReturn_of_not_return hret]

/-- An exception that does not enter debug mode is trapped outside it: it is
neither a breakpoint for the debugger nor a request, and nothing retires that
a single step could end with. -/
theorem debugMode_next_of_trap (cfg : Cfg) (hd : s.debugMode = false) (hex : i.ex.valid = true)
    (hnd : ¬EntersDebug s i) (hack : i.commitAck 0 = false) (hw : ctxWritten s i = ctx s)
    (hret : i.csrOp.isReturn = false) : (next cfg s i).debugMode = false := by
  have hreq : i.ex.cause ≠ debugRequest := fun h => hnd (.inl h)
  have ht : trapTaken s i = true := by simp [trapTaken, hd, hex, hreq]
  refine (congrArg Ctx.debugMode (ctx_next_of_trap cfg ht hw hret)).trans ?_
  simp only [ctxDebug, ctxSingleStep, ctxDebugReq, ctxEbreak, hd, hack, hex, hreq, Bool.and_false,
    Bool.true_and, beq_iff_eq, Bool.false_eq_true, if_false]
  by_cases hb : i.ex.cause = breakpoint
  · rw [if_pos hb]
    cases he : ebreakBit s.dcsr (privLvlO s) with
    | none => exact hd
    | some b =>
      cases b with
      | false => rfl
      | true => exact absurd (.inr ⟨hb, he⟩) hnd
  · rw [if_neg hb]
    exact hd

/-- A trap that does not enter debug mode. -/
theorem trapped_next (cfg : Cfg) (hd : s.debugMode = false) (hp : Implemented s.privLvl)
    (hex : i.ex.valid = true) (hnd : ¬EntersDebug s i) (hack : i.commitAck 0 = false)
    (hw : ctxWritten s i = ctx s) (hret : i.csrOp.isReturn = false) :
    Trapped (trapMode s i) s i (next cfg s i) := by
  have hreq : i.ex.cause ≠ debugRequest := fun h => hnd (.inl h)
  have ht : trapTaken s i = true := by simp [trapTaken, hd, hex, hreq]
  have hsaved := savedPriv_trapMode hd hp ht
  have hctx := ctx_next_of_trap cfg ht hw hret
  have hmode := debugMode_next_of_trap cfg hd hex hnd hack hw hret
  have htval : trapTval i.ex = i.ex.tval := rfl
  generalize trapMode s i = T at hsaved hctx ⊢
  have hpriv := congrArg Ctx.privLvl hctx
  have htrap := congrArg Ctx.trap hctx
  have hstack := congrArg Ctx.stack hctx
  rw [ctxDebug_privLvl] at hpriv
  rw [ctxDebug_trap] at htrap
  rw [ctxDebug_stack] at hstack
  refine ⟨hpriv, hmode, ?_, ?_, ?_, ?_⟩
  · have h := congrArg (PerMode.get · T) htrap
    simp only [ctxEnter, PerMode.get_set, htval] at h
    exact h
  · have h := congrArg (PerMode.get · T) hstack
    simp only [ctxEnter, PerMode.get_set, hsaved] at h
    exact h
  · have h := congrArg (PerMode.get · T.other) htrap
    simp only [ctxEnter, PerMode.get_set_other] at h
    exact h
  · have h := congrArg (PerMode.get · T.other) hstack
    simp only [ctxEnter, PerMode.get_set_other] at h
    exact h

/-- What a return from `T` reads survives an undisturbed cycle. -/
theorem saved_next (cfg : Cfg) (h : Undisturbed T s i) :
    ((ctx (next cfg s i)).trap.get T).epc = ((ctx s).trap.get T).epc ∧
      (ctx (next cfg s i)).stack.get T = (ctx s).stack.get T := by
  have hwritten : ((ctxWritten s i).trap.get T).epc = ((ctx s).trap.get T).epc ∧
      (ctxWritten s i).stack.get T = (ctx s).stack.get T := by
    rcases ctxWritten_cases s i with ⟨r, hr, hx⟩ | hx
    · rw [hx]
      have hmem : r ∉ T.stackRegs := fun hm => h.noWrite r hm hr
      cases T
      · by_cases hs : r = .sstatus
        · -- `sstatus` is not in the way of machine mode
          subst hs
          exact ⟨rfl, statusStacks_sstatusOfWrite s _⟩
        · cases r <;> first | exact ⟨rfl, rfl⟩ | exact absurd rfl hs | exact absurd (by decide) hmem
      · cases r <;> first | exact ⟨rfl, rfl⟩ | exact absurd (by decide) hmem
    · rw [hx]
      exact ⟨rfl, rfl⟩
  have htrap (x : Ctx) : (ctxTrap s i x).trap.get T = x.trap.get T ∧
      (ctxTrap s i x).stack.get T = x.stack.get T := by
    unfold ctxTrap
    by_cases ht : trapTaken s i = true
    · have hne : trapMode s i ≠ T := fun hT => h.noTrap ⟨ht, hT⟩
      rw [if_pos ht]
      generalize trapMode s i = T' at hne
      cases T <;> cases T' <;> first | exact ⟨rfl, rfl⟩ | exact absurd rfl hne
    · rw [if_neg ht]
      exact ⟨rfl, rfl⟩
  have hret (x : Ctx) : (ctxReturn s i x).stack.get T = x.stack.get T := by
    have hne := h.noRet
    unfold ctxReturn
    cases T <;> cases hi : i.csrOp <;> first | rfl | exact absurd hi hne
  rw [ctx_next, ctxReturn_trap, ctxDebug_trap, (htrap _).1, hret, ctxDebug_stack, (htrap _).2]
  exact hwritten

/-- A return from `T` restores what the registers of `T` hold. -/
theorem resumed_of_ret (cfg : Cfg) (s : Regs) (h : i.csrOp = T.ret) :
    Resumed cfg T ((ctx s).stack.get T).pp ((ctx s).stack.get T).pie ((ctx s).trap.get T).epc s i := by
  have hctx : ctx (next cfg s i) =
      ctxLeave s T (ctxDebug cfg s i (ctxTrap s i (ctxWritten s i))) := by
    rw [ctx_next]
    cases T <;> simp only [ctxReturn, h, Mode.ret]
  have hstack := congrArg (fun x => (Ctx.stack x).get T) hctx
  simp only [ctxLeave, PerMode.get_set] at hstack
  refine ⟨congrArg Ctx.privLvl hctx, congrArg Stack.ie hstack, ?_, ?_⟩
  · cases T <;> simp only [eretO, csrUpdate, updReturn, h, Mode.ret]
  · cases T <;> simp [epcO, h, Mode.ret, ctx, trapCsrs, PerMode.get]

/-- DRET leaves debug mode for `dcsr.prv` and `dpc`. -/
theorem dret_next (cfg : Cfg) (s : Regs) (h : i.csrOp = .dret) :
    (next cfg s i).debugMode = false ∧ (next cfg s i).privLvl = s.dcsr.prv ∧
      eretO cfg s i = true ∧ epcO s i = s.dpc := by
  have hctx : ctx (next cfg s i) =
      { ctxDebug cfg s i (ctxTrap s i (ctxWritten s i)) with
        privLvl := s.dcsr.prv, debugMode := false } := by
    rw [ctx_next]
    simp only [ctxReturn, h]
  refine ⟨congrArg Ctx.debugMode hctx, congrArg Ctx.privLvl hctx, ?_, ?_⟩
  · simp only [eretO, csrUpdate, updReturn, h]
  · simp [epcO, h]

/-- An operation is DRET, the return from a mode, or no return. -/
theorem return_cases (op : FuOp) : op = .dret ∨ (∃ T : Mode, op = T.ret) ∨ op.isReturn = false := by
  cases op with
  | mret => exact .inr (.inl ⟨.m, rfl⟩)
  | sret => exact .inr (.inl ⟨.s, rfl⟩)
  | dret => exact .inl rfl
  | _ => exact .inr (.inr rfl)

end Csr

namespace Core

open Csr (Mode Trapped Resumed EntersDebug)

variable {cfg : Cfg} {c : State} {x : In} {T : Mode}

/-! ### Runs -/

/-- The cycle of the back end leaves alone what a return from `T` reads. -/
def Undisturbed (cfg : Cfg) (T : Mode) (c : State) (x : In) : Prop :=
  Csr.Undisturbed T c.csr (csrIn cfg c x)

/-- What a trap to `T` saved is there after every undisturbed run. -/
theorem saved_run (cfg : Cfg) (epc : BitVec 64) (k : Csr.Stack) (xs : List In) (c : State)
    (h : ((Csr.ctx c.csr).trap.get T).epc = epc ∧ (Csr.ctx c.csr).stack.get T = k)
    (hs : (machine cfg).Steps (Undisturbed cfg T) c xs) :
    ((Csr.ctx ((machine cfg).run c xs).csr).trap.get T).epc = epc ∧
      (Csr.ctx ((machine cfg).run c xs).csr).stack.get T = k := by
  refine Machine.run_inv (P := fun c => ((Csr.ctx c.csr).trap.get T).epc = epc ∧
    (Csr.ctx c.csr).stack.get T = k) ?_ xs c h hs
  rintro c x ⟨hepc, hk⟩ hu
  have hstep := Csr.saved_next cfg hu
  exact ⟨hstep.1.trans hepc, hstep.2.trans hk⟩

/-- The trap and the return are a round trip: out of any reachable state outside
debug mode, at an implemented level, an exception that does not enter debug mode
traps to `T`, and any undisturbed run later the return from `T` resumes. -/
theorem trap_return_round_trip (hc : (machine cfg).Reachable c) (hd : c.csr.debugMode = false)
    (hp : Implemented c.csr.privLvl) (hex : (csrIn cfg c x).ex.valid = true)
    (hnd : ¬EntersDebug c.csr (csrIn cfg c x)) :
    ∃ T : Mode,
      (T = .s ↔ Csr.delegated c.csr (csrIn cfg c x).ex.cause = true ∧ c.csr.privLvl ≠ privLvlM) ∧
      c.csr.privLvl ≤ T.lvl ∧
      Trapped T c.csr (csrIn cfg c x) (next cfg c x).csr ∧
      ∀ (xs : List In) (y : In), (machine cfg).Steps (Undisturbed cfg T) (next cfg c x) xs →
        (csrIn cfg ((machine cfg).run (next cfg c x) xs) y).csrOp = T.ret →
        Resumed cfg T c.csr.privLvl ((Csr.statusStacks c.csr.mstatus).get T).ie
          (x.commitInstr 0).pc ((machine cfg).run (next cfg c x) xs).csr
          (csrIn cfg ((machine cfg).run (next cfg c x) xs) y) := by
  obtain ⟨hack, hw, hret⟩ := exception_cycle hc hex
  have hreq : (csrIn cfg c x).ex.cause ≠ debugRequest := fun h => hnd (.inl h)
  have ht : Csr.trapTaken c.csr (csrIn cfg c x) = true := by simp [Csr.trapTaken, hd, hex, hreq]
  have htrapped : Trapped (Csr.trapMode c.csr (csrIn cfg c x)) c.csr (csrIn cfg c x)
      (next cfg c x).csr := Csr.trapped_next cfg hd hp hex hnd hack hw hret
  refine ⟨_, Csr.trapMode_eq_s_iff hd ht, Csr.le_trapMode_lvl hd hp ht, htrapped, ?_⟩
  intro xs y hs hop
  obtain ⟨hepc, hk⟩ := saved_run cfg _ _ xs (next cfg c x) ⟨rfl, rfl⟩ hs
  have hres := Csr.resumed_of_ret cfg ((machine cfg).run (next cfg c x) xs).csr hop
  have hstack : (Csr.ctx (next cfg c x).csr).stack.get _ = _ := htrapped.stack
  have hsaved : (Csr.ctx (next cfg c x).csr).trap.get _ = _ := htrapped.saved
  rw [hepc, hk, hstack, hsaved] at hres
  exact hres

/-- An instruction that raised `cause` on its way to the commit stage. -/
def In.raise (cause : BitVec 64) : In :=
  { In.idle with
    commitInstr := fun _ =>
      { ScoreboardEntry.empty with pc := 0x80000000, valid := true, ex := ⟨cause, 0, true⟩ } }

/-- A CSR instruction on the first commit port. -/
def In.csr (op : FuOp) : In :=
  { In.idle with
    commitInstr := fun _ =>
      { ScoreboardEntry.empty with pc := 0x80000100, fu := .csr, op := op, valid := true } }

/-- An environment call right after reset, and the return from it. -/
theorem trap_return_round_trip_ecall :
    Trapped .m reset.csr (csrIn socCfg reset (In.raise envCallMmode))
        (next socCfg reset (In.raise envCallMmode)).csr ∧
      Resumed socCfg .m privLvlM false 0x80000000 (next socCfg reset (In.raise envCallMmode)).csr
        (csrIn socCfg (next socCfg reset (In.raise envCallMmode)) (In.csr .mret)) := by
  obtain ⟨T, hT, -, htrap, hrun⟩ := @trap_return_round_trip socCfg reset (In.raise envCallMmode)
    ⟨reset, [], rfl, rfl⟩ rfl (by decide) (by decide) (by decide)
  cases T with
  | m => exact ⟨htrap, hrun [] (In.csr .mret) trivial (by decide)⟩
  | s => exact absurd (hT.1 rfl) (by decide)

end Core

end Ariane

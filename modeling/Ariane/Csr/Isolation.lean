/-
# Privilege isolation of the CSRs

A CSR access below the level its address asks for, or to a debug CSR outside
debug mode, is to raise an illegal instruction, to change nothing and to show
nothing (`Isolated`). `privilege_check` refuses every such access but the one
to `mcause`, which it exempts, and a refused read of `sip` still shows the
delegation bit of the external interrupt while its line is high: `isolated_iff`
says that these are all the exceptions.
-/
import Ariane.Csr.Cycle

namespace Ariane
namespace Csr

open Riscv Lib

variable {cfg : Cfg} {s : Regs} {i : In}

/-! ### The property -/

/-- The access of the cycle is above the current level, or to a debug CSR. -/
def Forbidden (s : Regs) (i : In) : Prop :=
  i.csrOp.isCsrAccess = true ∧
    (s.privLvl < csrPrivLvl i.csrAddr ∨ i.csrAddr.extractLsb' 4 8 = 0x7b#8)

instance : Decidable (Forbidden s i) := by unfold Forbidden; infer_instance

/-- The same access under the same interrupt lines. The other pins may differ:
some CSRs read them. -/
structure SameRequest (i i' : In) : Prop where
  op : i'.csrOp = i.csrOp
  addr : i'.csrAddr = i.csrAddr
  wdata : i'.csrWdata = i.csrWdata
  irq : i'.irq = i.irq

/-- The access raises an illegal instruction, leaves the registers and the
counters as a cycle without it does, and shows the same in every reachable
state of this level, whatever the CSRs hold there. -/
def Isolated (cfg : Cfg) (s : Regs) (i : In) : Prop :=
  csrExceptionO cfg s i = ⟨illegalInstr, 0, true⟩ ∧
  next cfg s i = next cfg s { i with csrOp := .add } ∧ perfWeO cfg s i = false ∧
  ∀ s' i', (machine cfg).Reachable s' → s'.debugMode = s.debugMode → s'.privLvl = s.privLvl →
    SameRequest i i' →
      csrRdataO s' i' = csrRdataO s i ∧ csrExceptionO cfg s' i' = csrExceptionO cfg s i

/-! ### A refused access -/

theorem csrWe_of_violation (h : privilegeViolation s i = true) : csrWe s i = false := by
  simp [csrWe, h]

theorem csrRead_of_violation (h : privilegeViolation s i = true) : csrRead s i = false := by
  simp [csrRead, h]

theorem csrExceptionO_of_violation (h : privilegeViolation s i = true) :
    csrExceptionO cfg s i = ⟨illegalInstr, 0, true⟩ := by
  simp [csrExceptionO, h]

/-- For an implemented level, the bits a level has are the levels up to it. -/
theorem and_ne_iff_lt {p : PrivLvl} (hp : Implemented p) (q : PrivLvl) : p &&& q ≠ q ↔ p < q := by
  rw [implemented_iff] at hp
  revert p q
  decide

/-- Outside debug mode `privilege_check` refuses a forbidden access exactly
when it is not to `mcause`. -/
theorem violation_iff (hd : s.debugMode = false) (hp : Implemented s.privLvl) (hf : Forbidden s i) :
    privilegeViolation s i = true ↔ i.csrAddr ≠ CsrReg.mcause.addr := by
  obtain ⟨hop, hf⟩ := hf
  have hO : privLvlO s = s.privLvl := by simp [privLvlO, hd]
  have hlt := and_ne_iff_lt hp (csrPrivLvl i.csrAddr)
  simp only [privilegeViolation, hop, hO, hd, Bool.true_and, Bool.not_false, Bool.and_true,
    Bool.or_eq_true, Bool.and_eq_true, bne_iff_ne, beq_iff_eq, Bool.not_eq_true', beq_eq_false_iff_ne]
  constructor
  · rintro (⟨-, h⟩ | h)
    · exact h
    · rintro h'
      rw [h'] at h
      exact absurd h (by decide)
  · intro h
    rcases hf with hf | hf
    · exact .inl ⟨hlt.2 hf, h⟩
    · exact .inr hf

/-- A refused access does what no access does. -/
theorem csrUpdate_of_violation (hop : i.csrOp.isCsrAccess = true)
    (h : privilegeViolation s i = true) :
    csrUpdate cfg s i = csrUpdate cfg s { i with csrOp := .add } := by
  have hwr (u : Upd) : updWrite cfg s i u = u := by
    unfold updWrite
    rw [csrWe_of_violation h]
    rfl
  have hwr' (u : Upd) : updWrite cfg s { i with csrOp := .add } u = u := rfl
  have hret (u : Upd) : updReturn s i u = u := by
    unfold updReturn
    cases hi : i.csrOp <;> first | rfl | (rw [hi] at hop; cases hop)
  have hepc : epcO s i = epcO s { i with csrOp := .add } := by
    have h1 : i.csrOp ≠ .dret := by rintro h; rw [h] at hop; cases hop
    have h2 : i.csrOp ≠ .sret := by rintro h; rw [h] at hop; cases hop
    simp [epcO, h1, h2]
  have hstep (u : Upd) : updSingleStep cfg s i u =
      updSingleStep cfg s { i with csrOp := .add } u := by
    unfold updSingleStep
    rw [hepc]
    rfl
  have hdbg (u : Upd) : updDebug cfg s i u = updDebug cfg s { i with csrOp := .add } u := by
    unfold updDebug
    rw [hstep]
    rfl
  rw [csrUpdate, hwr, hret, hdbg, csrUpdate, hwr']
  rfl

theorem next_of_violation (hop : i.csrOp.isCsrAccess = true)
    (h : privilegeViolation s i = true) :
    next cfg s i = next cfg s { i with csrOp := .add } := by
  have hwfi : wfiNext s i = wfiNext s { i with csrOp := .add } := by
    have h1 : i.csrOp ≠ .wfi := by rintro h; rw [h] at hop; cases hop
    simp [wfiNext, h1]
  unfold next
  rw [csrUpdate_of_violation hop h, hwfi]

theorem perfWeO_of_violation (h : privilegeViolation s i = true) : perfWeO cfg s i = false := by
  have hw := congrArg Prod.snd (writeOuts_csrUpdate cfg s i)
  unfold updWrite at hw
  rw [csrWe_of_violation h] at hw
  exact hw

/-- A refused access shows nothing the registers hold, but for the delegation
bit of the external interrupt at `sip`. -/
theorem csrRdataO_of_violation {s' : Regs} {i' : In} (h : privilegeViolation s i = true)
    (h' : privilegeViolation s' i' = true) (hr : SameRequest i i')
    (hsip : ¬(i.csrAddr = CsrReg.sip.addr ∧ i.irq.getLsbD 1 = true)) : csrRdataO s' i' = csrRdataO s i := by
  have hz : csrRdata s i = 0 := by simp [csrRdata, csrRead_of_violation h]
  have hz' : csrRdata s' i' = 0 := by simp [csrRdata, csrRead_of_violation h']
  unfold csrRdataO
  rw [hz, hz', hr.addr, hr.irq]
  split
  · rfl
  · split
    · next hs =>
      have hirq : i.irq.getLsbD 1 = false := by simpa [hs] using hsip
      rw [hirq]
      rfl
    · rfl

/-! ### The two exceptions -/

/-- The access to `mcause` goes through. -/
theorem csrExceptionO_mcause (h : privilegeViolation s i = false)
    (ha : i.csrAddr = CsrReg.mcause.addr) : csrExceptionO cfg s i = Exn.none := by
  have hreg : CsrReg.ofAddr i.csrAddr = some .mcause := by rw [ha]; exact CsrReg.ofAddr_addr _
  have hu : (csrUpdate cfg s i).updateAccessException = false := by
    have hw := congrArg Prod.fst (writeOuts_csrUpdate cfg s i)
    unfold updWrite at hw
    rw [hreg] at hw
    refine hw.trans ?_
    split <;> rfl
  have hr : readAccessException s i = false := by
    simp [readAccessException, csrReadAddr, hreg, csrReadReg]
  simp [csrExceptionO, hu, hr, h]

/-- User mode with and without the delegation, and nothing else between them. -/
def userState (cfg : Cfg) : Bool → Regs
  | false => (machine cfg).run reset [.op .mret]
  | true => (machine cfg).run reset [.write .mideleg mipSeip, .op .mret]

theorem userState_reachable (cfg : Cfg) (b : Bool) : (machine cfg).Reachable (userState cfg b) := by
  cases b
  · exact ⟨reset, _, rfl, rfl⟩
  · exact ⟨reset, _, rfl, rfl⟩

theorem userState_debugMode (cfg : Cfg) (b : Bool) : (userState cfg b).debugMode = false := by
  cases b <;> rfl

theorem userState_privLvl (cfg : Cfg) (b : Bool) : (userState cfg b).privLvl = privLvlU := by
  cases b <;> rfl

theorem userState_mideleg (cfg : Cfg) (b : Bool) :
    (userState cfg b).mideleg.getLsbD irqSExt = b := by
  cases b
  · show (0#64).getLsbD irqSExt = false
    decide
  · show (maskWrite sipMask 0 mipSeip).getLsbD irqSExt = true
    decide

/-- Below supervisor level a read of `sip` tells the two user states apart while
the external line is high. -/
theorem csrRdataO_sip (h : privilegeViolation s i = true) (ha : i.csrAddr = CsrReg.sip.addr)
    (hirq : i.irq.getLsbD 1 = true) : csrRdataO s i =
      (BitVec.ofBool (s.mideleg.getLsbD irqSExt)).setWidth 64 <<< irqSExt := by
  have hz : csrRdata s i = 0 := by simp [csrRdata, csrRead_of_violation h]
  have hmip : CsrReg.sip.addr ≠ CsrReg.mip.addr := by decide
  unfold csrRdataO
  rw [ha, if_neg hmip, if_pos rfl, hz, hirq]
  simp

/-! ### Isolation -/

/-- Outside debug mode, at an implemented level, a forbidden access is isolated
exactly when it is neither to `mcause` nor to `sip` under a high external line. -/
theorem isolated_iff (hd : s.debugMode = false) (hp : Implemented s.privLvl) (hf : Forbidden s i) :
    Isolated cfg s i ↔
      i.csrAddr ≠ CsrReg.mcause.addr ∧ ¬(i.csrAddr = CsrReg.sip.addr ∧ i.irq.getLsbD 1 = true) := by
  have hviol := violation_iff hd hp hf
  -- a forbidden access in a state of the same level is refused in the same way
  have htwo : ∀ {s' i'}, s'.debugMode = s.debugMode → s'.privLvl = s.privLvl → SameRequest i i' →
      (privilegeViolation s' i' = true ↔ i.csrAddr ≠ CsrReg.mcause.addr) := by
    intro s' i' hd' hp' hr
    rw [← hr.addr]
    apply violation_iff
    · rw [hd', hd]
    · rw [hp']; exact hp
    · rw [Forbidden, hr.op, hr.addr, hp']; exact hf
  constructor
  · rintro ⟨hex, -, -, hsame⟩
    have hm : i.csrAddr ≠ CsrReg.mcause.addr := by
      intro ha
      have hv : privilegeViolation s i = false := by
        rw [Bool.eq_false_iff]
        exact fun hv => hviol.1 hv ha
      rw [csrExceptionO_mcause hv ha] at hex
      exact absurd hex (by decide)
    refine ⟨hm, ?_⟩
    rintro ⟨ha, hirq⟩
    have hU : s.privLvl = privLvlU := by
      have hlt : s.privLvl < csrPrivLvl CsrReg.sip.addr := by
        rcases hf.2 with h | h
        · rwa [ha] at h
        · rw [ha] at h
          exact absurd h (by decide)
      revert hlt
      generalize s.privLvl = p
      revert p
      decide
    -- the other user state, where the bit is the other one
    have hself : SameRequest i i := ⟨rfl, rfl, rfl, rfl⟩
    obtain ⟨b, hbit⟩ : ∃ b, b = !s.mideleg.getLsbD irqSExt := ⟨_, rfl⟩
    have hb := (hsame (userState cfg b) i (userState_reachable cfg b)
      (by rw [userState_debugMode, hd]) (by rw [userState_privLvl, hU]) hself).1
    have hvb : privilegeViolation (userState cfg b) i = true :=
      (htwo (by rw [userState_debugMode, hd]) (by rw [userState_privLvl, hU]) hself).2 hm
    rw [csrRdataO_sip hvb ha hirq, csrRdataO_sip (hviol.2 hm) ha hirq, userState_mideleg, hbit] at hb
    revert hb
    generalize s.mideleg.getLsbD irqSExt = c
    revert c
    decide
  · rintro ⟨hm, hsip⟩
    have hv := hviol.2 hm
    refine ⟨csrExceptionO_of_violation hv, next_of_violation hf.1 hv, perfWeO_of_violation hv, ?_⟩
    intro s' i' _ hd' hp' hr
    have hv' := (htwo hd' hp' hr).2 hm
    refine ⟨csrRdataO_of_violation hv hv' hr hsip, ?_⟩
    rw [csrExceptionO_of_violation hv, csrExceptionO_of_violation hv']

/-- In user mode a read of `mstatus` is isolated. -/
theorem isolated_mstatus_read : Isolated socCfg (userState socCfg false) (.read .mstatus) :=
  (isolated_iff rfl (by decide) (by decide)).2 (by decide)

/-- In user mode a read of `mcause` is forbidden and goes through. -/
theorem mcause_read_not_isolated :
    (machine socCfg).Reachable (userState socCfg false) ∧
      (userState socCfg false).debugMode = false ∧ Implemented (userState socCfg false).privLvl ∧
      Forbidden (userState socCfg false) (.read .mcause) ∧
      ¬Isolated socCfg (userState socCfg false) (.read .mcause) := by
  refine ⟨userState_reachable _ _, rfl, by decide, by decide, ?_⟩
  rintro ⟨hex, -⟩
  rw [csrExceptionO_mcause (by decide) rfl] at hex
  exact absurd hex (by decide)

end Csr
end Ariane

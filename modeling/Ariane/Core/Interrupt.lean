/-
# Which interrupt is attached to an instruction

`irq_ctrl_o` of `csr_regfile.sv` and the interrupt control of `decoder.sv`. The global enable
of machine mode is tested in the register file, delegation in the decoder, and there only for
the interrupt of the highest precedence among those that are pending and enabled: while that
one has to wait, one below it that could be delivered is not seen. `selection_iff` says that
this is all that goes wrong, and `hides` between which interrupts it happens.
-/
import Ariane.Csr.Vector
import Ariane.Decode.Decoder

namespace Ariane
namespace Core
namespace Interrupt

open Riscv Decoder

variable (s : Csr.Regs)

/-! ### The wiring -/

/-- `irq_ctrl_o`. -/
def irqCtrlO : IrqCtrl where
  mie := s.mie
  mip := s.mip
  mideleg := s.mideleg
  sie := s.mstatus.sie
  globalEnable := !s.debugMode && (!s.dcsr.step || s.dcsr.stepie) &&
    (s.mstatus.mie && Csr.privLvlO s == privLvlM || Csr.privLvlO s != privLvlM)

/-- The inputs of the decoder with those the register file drives. -/
def decoderI (x : Decoder.In) : Decoder.In :=
  { x with irqCtrl := irqCtrlO s, privLvl := Csr.privLvlO s, debugMode := s.debugMode }

/-- The interrupt the decoder puts in place of an instruction. -/
def attached (x : Decoder.In) : Option (BitVec 64) :=
  let ex := exO (decoderI s x)
  if ex.valid && ex.cause.getLsbD 63 then some ex.cause else none

/-! ### The law -/

/-- The interrupts, highest precedence first. -/
def order : List ℕ := [irqMExt, irqMSoft, irqMTimer, irqSExt, irqSSoft, irqSTimer]

/-- Pending and enabled. The line of the external interrupt controller counts as pending for
supervisor mode. -/
def requested (irq : BitVec 2) (n : ℕ) : Bool :=
  s.mie.getLsbD n && (s.mip.getLsbD n || n == irqSExt && irq.getLsbD 1)

/-- The hart takes interrupts: it is not halted, and if it steps, `stepie` is set. -/
def listening : Bool := !s.debugMode && (!s.dcsr.step || s.dcsr.stepie)

/-- The current mode lets the interrupt in. -/
def deliverable (n : ℕ) : Bool :=
  listening s &&
    if s.mideleg.getLsbD n then
      Csr.privLvlO s == privLvlU || Csr.privLvlO s == privLvlS && s.mstatus.sie
    else decide (Csr.privLvlO s < privLvlM) || Csr.privLvlO s == privLvlM && s.mstatus.mie

/-- The interrupt that is due, if any. -/
def due (irq : BitVec 2) : Option ℕ := order.find? fun n => requested s irq n && deliverable s n

/-- An interrupt is attached exactly if one can be delivered, and then the highest of these. -/
def SelectionLaw (x : Decoder.In) : Prop := attached s x = (due s x.irq).map Csr.interrupt

/-- If an interrupt can be delivered, the highest that is requested can. -/
def Unhidden (irq : BitVec 2) : Prop :=
  (∃ n ∈ order, requested s irq n = true ∧ deliverable s n = true) →
    ∀ n, order.find? (requested s irq) = some n → deliverable s n = true

instance (irq : BitVec 2) : Decidable (Unhidden s irq) :=
  decidable_of_iff ((∃ n ∈ order, requested s irq n = true ∧ deliverable s n = true) →
      ∀ n ∈ order.find? (requested s irq), deliverable s n = true) Iff.rfl

variable {s} {irq : BitVec 2} {m n : ℕ}

/-! ### Delivery -/

theorem decide_lt_privLvlM (p : PrivLvl) : decide (p < privLvlM) = (p != privLvlM) := by
  revert p
  decide

/-- The test of the two modules, for one interrupt. -/
theorem deliverable_eq (s : Csr.Regs) (n : ℕ) : deliverable s n =
    ((irqCtrlO s).globalEnable && (!s.mideleg.getLsbD n ||
      s.mstatus.sie && Csr.privLvlO s == privLvlS || Csr.privLvlO s == privLvlU)) := by
  rw [deliverable, irqCtrlO, listening]
  generalize Csr.privLvlO s = p
  rw [decide_lt_privLvlM p]
  by_cases hm : p = privLvlM
  · subst hm
    cases s.mideleg.getLsbD n <;> simp [privLvlM, privLvlU, privLvlS]
  · have hbne : (p != privLvlM) = true := bne_iff_ne.2 hm
    have hbeq : (p == privLvlM) = false := beq_eq_false_iff_ne.2 hm
    rw [hbne, hbeq]
    cases s.mideleg.getLsbD n
    · simp
    · simp [Bool.or_comm, Bool.and_comm s.mstatus.sie]

/-- One interrupt stands in front of another that could be delivered only if it is delegated
and the other is not. -/
theorem hides (hm : deliverable s m = false) (hn : deliverable s n = true) :
    s.mideleg.getLsbD m = true ∧ s.mideleg.getLsbD n = false ∧
      (Csr.privLvlO s = privLvlS → s.mstatus.sie = false) := by
  rw [deliverable_eq] at hm hn
  rw [Bool.and_eq_true] at hn
  obtain ⟨hg, hn⟩ := hn
  rw [hg, Bool.true_and, Bool.or_eq_false_iff, Bool.or_eq_false_iff] at hm
  obtain ⟨⟨hd, hs⟩, hu⟩ := hm
  rw [hs, hu, Bool.or_false, Bool.or_false] at hn
  refine ⟨by simpa using hd, by simpa using hn, fun hp => ?_⟩
  rw [hp] at hs
  simpa using hs

/-! ### The choice of the decoder -/

/-- The last assignment that finds its request up is the one that stays. -/
def highest (r : ℕ → Bool) : BitVec 64 :=
  if r irqMExt then Csr.interrupt irqMExt
  else if r irqMSoft then Csr.interrupt irqMSoft
  else if r irqMTimer then Csr.interrupt irqMTimer
  else if r irqSExt then Csr.interrupt irqSExt
  else if r irqSSoft then Csr.interrupt irqSSoft
  else if r irqSTimer then Csr.interrupt irqSTimer
  else 0

theorem highest_eq (r : ℕ → Bool) : highest r = ((order.find? r).map Csr.interrupt).getD 0 := by
  simp only [highest, order, List.find?_cons, List.find?_nil]
  split_ifs <;> simp [*]

theorem interruptCause_highest (s : Csr.Regs) (x : Decoder.In) :
    interruptCause (decoderI s x) = highest (requested s x.irq) := by
  have hmie : (decoderI s x).irqCtrl.mie = s.mie := rfl
  have hmip : (decoderI s x).irqCtrl.mip = s.mip := rfl
  have hirq : (decoderI s x).irq = x.irq := rfl
  have hplain (n : ℕ) (hn : n ≠ irqSExt) : requested s x.irq n = (s.mie.getLsbD n && s.mip.getLsbD n) := by
    rw [requested, beq_eq_false_iff_ne.2 hn, Bool.false_and, Bool.or_false]
  have hext : requested s x.irq irqSExt =
      (s.mie.getLsbD irqSExt && (s.mip.getLsbD irqSExt || x.irq.getLsbD 1)) := by
    rw [requested, beq_self_eq_true, Bool.true_and]
  rw [interruptCause, hmie, hmip, hirq, highest, hext, hplain irqMExt, hplain irqMSoft,
    hplain irqMTimer, hplain irqSSoft, hplain irqSTimer]
  · rfl
  all_goals decide

/-- The cause is that of the highest request. -/
theorem interruptCause_eq (s : Csr.Regs) (x : Decoder.In) : interruptCause (decoderI s x) =
    ((order.find? (requested s x.irq)).map Csr.interrupt).getD 0 := by
  rw [interruptCause_highest, highest_eq]

theorem interrupt_of_mem : ∀ n ∈ order, (Csr.interrupt n).getLsbD 63 = true ∧
    ((Csr.interrupt n).extractLsb' 0 6).toNat = n := by
  decide

/-- The decoder tests the highest request and no other. -/
theorem takesInterrupt_eq (s : Csr.Regs) (x : Decoder.In) : takesInterrupt (decoderI s x) =
    ((order.find? (requested s x.irq)).map (deliverable s)).getD false := by
  unfold takesInterrupt
  rw [interruptCause_eq]
  cases hf : order.find? (requested s x.irq) with
  | none => rfl
  | some n =>
    obtain ⟨h63, hn⟩ := interrupt_of_mem n (List.mem_of_find?_eq_some hf)
    show ((Csr.interrupt n).getLsbD 63 && (irqCtrlO s).globalEnable && (!s.mideleg.getLsbD
      ((Csr.interrupt n).extractLsb' 0 6).toNat || s.mstatus.sie && Csr.privLvlO s == privLvlS ||
        Csr.privLvlO s == privLvlU)) = deliverable s n
    rw [h63, hn, Bool.true_and, deliverable_eq]

/-- The instruction comes without an exception of the fetch (whose cause is that of a page
fault in any case), and no debug request is up. -/
structure Plain (x : Decoder.In) : Prop where
  ex : x.ex.valid = false
  cause : x.ex.cause.getLsbD 63 = false
  debugReq : x.debugReq = false

/-- What an instruction does by itself is no interrupt. -/
theorem instrEx_cause {x : Decoder.In} (h : x.ex.cause.getLsbD 63 = false) :
    (instrEx x).cause.getLsbD 63 = false := by
  have hcall : envCallMmode.getLsbD 63 = false ∧ envCallSmode.getLsbD 63 = false ∧
      envCallUmode.getLsbD 63 = false := by decide
  unfold instrEx
  dsimp only
  generalize (if x.isCompressed then _ else _ : BitVec 64) = tval
  split_ifs
  · show illegalInstr.getLsbD 63 = false
    decide
  · exact hcall.1
  · exact hcall.2.1
  · exact hcall.2.2
  · exact h
  · show breakpoint.getLsbD 63 = false
    decide
  · exact h

/-- The interrupt attached is the highest request, if that can be delivered. -/
theorem attached_eq {x : Decoder.In} (h : Plain x) :
    attached s x = ((order.find? (requested s x.irq)).filter (deliverable s)).map Csr.interrupt := by
  have hcause : (instrEx (decoderI s x)).cause.getLsbD 63 = false := instrEx_cause h.cause
  have hex : exO (decoderI s x) = if takesInterrupt (decoderI s x) then
      { instrEx (decoderI s x) with valid := true, cause := interruptCause (decoderI s x) }
    else instrEx (decoderI s x) := by
    have hdbg : (decoderI s x).debugReq = false := h.debugReq
    have hfetch : (decoderI s x).ex.valid = false := h.ex
    rw [exO, hdbg, hfetch]
    rfl
  unfold attached
  dsimp only
  rw [hex, takesInterrupt_eq, interruptCause_eq]
  cases hf : order.find? (requested s x.irq) with
  | none =>
    simp only [Option.map_none, Option.getD_none, Bool.false_eq_true, if_false, hcause, Bool.and_false,
      Option.filter_none]
  | some n =>
    obtain ⟨h63, -⟩ := interrupt_of_mem n (List.mem_of_find?_eq_some hf)
    cases hd : deliverable s n with
    | false =>
      simp only [Option.map_some, Option.getD_some, hd, Bool.false_eq_true, if_false, hcause, Bool.and_false,
        Option.filter, Option.map_none]
    | true => simp [hd, h63, Option.filter]

/-- The first that satisfies `p` is the first that satisfies `p` and `q`, if it satisfies
`q`. -/
theorem find?_and {α : Type} {p q : α → Bool} {l : List α} {a : α} (h : l.find? p = some a)
    (hq : q a = true) : l.find? (fun b => p b && q b) = some a := by
  induction l with
  | nil => cases h
  | cons b l ih =>
    rw [List.find?_cons] at h ⊢
    cases hp : p b with
    | true =>
      rw [hp] at h
      obtain rfl : b = a := Option.some.inj h
      rw [hq]
      rfl
    | false =>
      rw [hp] at h
      rw [Bool.false_and]
      exact ih h

/-- The interrupt that is due is attached exactly if none that has to wait is requested above
it. -/
theorem selection_iff (s : Csr.Regs) (x : Decoder.In) (h : Plain x) :
    SelectionLaw s x ↔ Unhidden s x.irq := by
  rw [SelectionLaw, attached_eq h, due]
  cases hf : order.find? (requested s x.irq) with
  | none =>
    have hnone : order.find? (fun n => requested s x.irq n && deliverable s n) = none := by
      rw [List.find?_eq_none] at hf ⊢
      intro n hn
      simp [hf n hn]
    rw [hnone]
    refine iff_of_true rfl fun _ n hn => ?_
    rw [hf] at hn
    cases hn
  | some n =>
    cases hd : deliverable s n with
    | true =>
      rw [find?_and hf hd]
      refine iff_of_true (by simp [Option.filter, hd]) fun _ m hm => ?_
      rw [hf] at hm
      exact Option.some.inj hm ▸ hd
    | false =>
      -- nothing is attached, so the law asks that nothing is due
      have hleft : (((some n).filter (deliverable s)).map Csr.interrupt) = none := by
        simp [Option.filter, hd]
      rw [hleft, eq_comm, Option.map_eq_none_iff, List.find?_eq_none]
      constructor
      · rintro hno ⟨k, hk, hr, hk'⟩
        exact absurd (by rw [hr, hk']; rfl) (hno k hk)
      · intro hun k hk hboth
        rw [Bool.and_eq_true] at hboth
        rw [hun ⟨k, hk, hboth⟩ n hf] at hd
        cases hd

/-- A no-operation at the decoder, with the line of the external interrupt low. -/
def nop : Decoder.In where
  debugReq := false
  pc := 0x80000000
  isCompressed := false
  compressedInstr := 0
  isIllegal := false
  instruction := 0x13
  branchPredict := ⟨0⟩
  ex := ⟨instrPageFault, 0, false⟩
  irq := 0
  irqCtrl := ⟨0, 0, 0, false, false⟩
  privLvl := privLvlM
  debugMode := false
  fs := Xs.off
  frm := 0
  tvm := false
  tw := false
  tsr := false

/-- The external and the software interrupt of supervisor mode are pending and enabled, and
`deleg` are delegated; the hart is in supervisor mode with `SIE` clear. -/
def twoPending (deleg : BitVec 64) : Csr.Regs :=
  { Csr.reset with privLvl := privLvlS, mip := 0x202, mie := 0x202, mideleg := deleg }

/-- Neither is delegated: the external interrupt is attached. -/
theorem selection_external : SelectionLaw (twoPending 0) nop ∧
    attached (twoPending 0) nop = some (Csr.interrupt irqSExt) :=
  ⟨(selection_iff (twoPending 0) nop ⟨rfl, rfl, rfl⟩).2 (by decide), by decide⟩

/-- The external interrupt is delegated and has to wait: the software interrupt, which is not
delegated, is due and nothing is attached. -/
theorem waiting_hides : ¬SelectionLaw (twoPending 0x200) nop := by
  have hdue : due (twoPending 0x200) nop.irq = some irqSSoft := by decide
  have hatt : attached (twoPending 0x200) nop = none := by decide
  rw [SelectionLaw, hdue, hatt]
  nofun

end Interrupt
end Core
end Ariane

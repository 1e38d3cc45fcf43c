/-
# A hart that runs the debug ROM

`dm_mem.sv` and `dm_csrs.sv` together with a hart, a clock at a time: the debugger sends requests, and
the hart fetches a word or runs one, or waits (`Sys`). Of a hart that is not in debug mode nothing is
modelled but its registers; it leaves the debug module alone.

In the ROM the hart puts `s0` and `a0` aside and then goes from one access to the debug module to the
next. The ways between these accesses are `Quiet` (`quiet_enter`, `quiet_go`, ...): what they come to,
and how many words they are.
-/
import Ariane.Debug.DmCsrs
import Ariane.Lib.Machine

namespace Ariane
namespace Dm

open Isa Lib

variable {σ : Type}

/-! ### The system -/

/-- A hart: whether it is in debug mode, its registers, and the word it has fetched. -/
structure Core (σ : Type) where
  halted : Bool
  hart : Hart (Scratch σ)
  ir : Option (BitVec 32)

/-- What the hart does in a cycle. -/
inductive CoreEv (σ : Type)
  | wait
  | fetch
  | exec
  /-- It enters debug mode, out of a program with these registers. -/
  | halt (u : User σ)

/-- A cycle: the request of the debugger, the hart, and the lines that nothing here drives. -/
structure Ev (σ : Type) where
  dmi : Option DmiReq
  core : CoreEv σ
  dmiRespReady : Bool
  hartinfo : BitVec 32
  unavailable : Bool
  sbaddress : BitVec 64
  sbdata : Option (BitVec 64)
  sbbusy : Bool
  sberror : Option (BitVec 3)
  busAddr : BitVec 64
  /-- The write data on the bus at a read. -/
  readWdata : BitVec 64
  /-- What a load gets from elsewhere. -/
  elsewhere : BitVec 64
  unknown : BitVec 32

structure Sys (σ : Type) where
  csrs : CsrsRegs
  mem : MemRegs
  core : Core σ

namespace Sys

variable (F : Csrs σ) (b : BitVec 52) (s : Sys σ) (e : Ev σ)

/-- The access of the hart. -/
def access : Option Access :=
  match s.core.halted, e.core, s.core.ir with
  | true, .fetch, _ => some ⟨s.core.hart.pc, 3, none⟩
  | true, .exec, some w =>
    match s.core.hart.step F.scratch w with
    | .mem a _ => some a
    | _ => none
  | _, _, _ => none

/-- The address is one of the debug module. -/
def onPage (b : BitVec 52) (a : Access) : Bool := a.addr.extractLsb' 12 52 == b

def busReq : Option BusReq :=
  ((access F s e).filter (onPage b)).map fun a =>
    ⟨a.store.isSome, a.addr, if a.store.isSome then a.wdata else e.readWdata, a.be⟩

/-- What the registers are told by the memory. -/
def csrsIn (cmderror : Option (BitVec 3)) (data : Option (BitVec 64)) : CsrsIn where
  dmiReq := e.dmi
  dmiRespReady := e.dmiRespReady
  hartinfo := e.hartinfo
  halted := s.mem.halted
  unavailable := e.unavailable
  resumeack := s.mem.resuming
  cmderror := cmderror
  cmdbusy := Mem.cmdbusyO s.mem
  data := data
  sbaddress := e.sbaddress
  sbdata := e.sbdata
  sbbusy := e.sbbusy
  sberror := e.sberror
  unknown := e.unknown

/-- What the memory is told by the registers: `clear_resumeack_o` rests on the request alone. -/
def memIn : MemIn where
  ctrl :=
    { hartsel := s.csrs.dmcontrol.hartsel
      haltreq := DmCsrs.haltreqO s.csrs
      resumereq := DmCsrs.resumereqO s.csrs
      clearResumeack := DmCsrs.clearResumeack s.csrs (csrsIn s e none none)
      progbuf := s.csrs.progbuf
      data := s.csrs.data
      cmdValid := s.csrs.cmdValid
      cmd := s.csrs.command }
  req := busReq F b s e
  addr := e.busAddr
  unknown := e.unknown

/-- The registers of the debug module see what the memory makes of the cycle. -/
def csrsInputs : CsrsIn := csrsIn s e (Mem.cmderrorO s.mem (memIn F b s e)) (Mem.dataO (memIn F b s e))

def nextMem : MemRegs := Mem.next s.mem (memIn F b s e)

/-- The half of a doubleword that a word is in. -/
def half (a d : BitVec 64) : BitVec 32 := if a.getLsbD 2 then d.extractLsb' 32 32 else d.extractLsb' 0 32

/-- The hart enters debug mode, or goes back to its entry. -/
def enter (h : Hart (Scratch σ)) (off : BitVec 12) : Core σ := ⟨true, { h with pc := page b off }, none⟩

/-- The hart after a word has been run, with the data `rdata` of its access. -/
def ran (h : Hart (Scratch σ)) (w : BitVec 32) (rdata : BitVec 64) : Core σ :=
  match h.step F.scratch w with
  | .done h' => ⟨true, h', none⟩
  | .mem a k => ⟨true, k (a.shifted (if onPage b a then rdata else e.elsewhere)), none⟩
  | .ebreak => enter b h haltAddress
  | .exception => enter b h exceptionAddress
  | .dret => ⟨false, h, none⟩

def nextCore (rdata : BitVec 64) : Core σ :=
  match s.core.halted, e.core with
  | false, .halt u =>
    enter b ⟨0, u.gpr, u.fpr, { s.core.hart.csrs with rest := u.rest }⟩ haltAddress
  | true, .fetch => { s.core with ir := some (half s.core.hart.pc rdata) }
  | true, .exec =>
    match s.core.ir with
    | some w => ran F b e s.core.hart w rdata
    | none => s.core
  | _, _ => s.core

def next : Sys σ where
  csrs := DmCsrs.next s.csrs (csrsInputs F b s e)
  mem := nextMem F b s e
  core := nextCore F b s e (Mem.rdataO (nextMem F b s e))

end Sys

/-! ### The ROM -/

/-- The word of the ROM at an offset of the page. -/
def romWord (off : BitVec 12) : BitVec 32 :=
  if off.getLsbD 2 then (romRdata (off.extractLsb' 3 5)).extractLsb' 32 32
  else (romRdata (off.extractLsb' 3 5)).extractLsb' 0 32

def mhartid : BitVec 12 := 0xf14

section Rom

variable (F : Csrs σ) (b : BitVec 52)

/-- The hart gets to `P` in `n` words of the ROM that do without the bus. -/
inductive Quiet (P : Hart (Scratch σ) → Prop) : ℕ → Hart (Scratch σ) → Prop
  | here {h : Hart (Scratch σ)} (hP : P h) : Quiet P 0 h
  | step {n : ℕ} {h h' : Hart (Scratch σ)} {off : BitVec 12} (hpc : h.pc = page b off) (hoff : haltAddress ≤ off)
      (hs : h.step F.scratch (romWord off) = .done h') (hq : Quiet P n h') : Quiet P (n + 1) h

variable {F b} {P : Hart (Scratch σ) → Prop} {n : ℕ} {h h' : Hart (Scratch σ)} {off : BitVec 12}

/-! The words, one by one. -/

theorem step_jal (imm : BitVec 20) : h.step F.scratch (encode (.jal 0 imm)) =
    .done { h with pc := h.pc + (imm ++ 0#1).signExtend 64 } := by
  rw [Hart.step_encode F.scratch h decode_jal]
  simp [Hart.exec, exec, Hart.set]

theorem step_add : h.step F.scratch (encode (.op .add s0 s0 a0)) =
    .done { h with pc := h.pc + 4, gpr := h.gpr.set s0 (h.gpr.read s0 + h.gpr.read a0) } := by
  rw [Hart.step_encode F.scratch h (decode_op (by decide))]
  simp [Hart.exec, exec, RegOp.eval, Hart.set]

theorem step_andi (imm : BitVec 12) : h.step F.scratch (encode (.opImm .andi s0 s0 imm)) =
    .done { h with pc := h.pc + 4, gpr := h.gpr.set s0 (h.gpr.read s0 &&& imm.signExtend 64) } := by
  rw [Hart.step_encode F.scratch h decode_opImm]
  simp [Hart.exec, exec, ImmOp.eval, Hart.set]

theorem step_bnez (imm : BitVec 12) : h.step F.scratch (encode (.branch .ne s0 0 imm)) =
    .done { h with pc := if h.gpr.read s0 = 0 then h.pc + 4 else h.pc + (imm ++ 0#1).signExtend 64 } := by
  rw [Hart.step_encode F.scratch h decode_branch]
  have hz : h.gpr.read 0#5 = 0 := h.gpr.zero
  by_cases h0 : h.gpr.read s0 = 0 <;> simp [Hart.exec, exec, Cond.holds, hz, h0]

theorem step_fence : h.step F.scratch 0x0ff0000f = .done h.advance := by
  have hd : Isa.decode 0x0ff0000f = some (.fence 15 15) := by decide
  rw [Hart.step, hd]
  rfl

/-! ### Where the hart uses the bus -/

/-- The registers of the program, with `s0` and `a0` in the scratch registers. -/
def recover (h : Hart (Scratch σ)) : User σ :=
  ⟨(h.gpr.set s0 h.csrs.s0).set a0 h.csrs.s1, h.fpr, h.csrs.rest⟩

/-- At a store to the debug module, with the number of the hart in `s0`. -/
structure AtStore (b : BitVec 52) (off : BitVec 12) (U : User σ) (h : Hart (Scratch σ)) : Prop where
  pc : h.pc = page b off
  a0 : h.gpr.read a0 = page b 0
  s0 : h.gpr.read s0 = 0
  user : recover h = U

/-- At a load of the flags. -/
structure AtFlags (b : BitVec 52) (off : BitVec 12) (U : User σ) (h : Hart (Scratch σ)) : Prop where
  pc : h.pc = page b off
  a0 : h.gpr.read a0 = page b 0
  s0 : h.gpr.read s0 = page b 0
  user : recover h = U

/-- At the store that starts a command. -/
structure AtGoing (b : BitVec 52) (U : User σ) (h : Hart (Scratch σ)) : Prop where
  pc : h.pc = page b 0x870
  a0 : h.gpr.read a0 = page b 0
  user : recover h = U

/-- At the store that reports an exception; `a0` is in its scratch register. -/
structure AtException (b : BitVec 52) (U : User σ) (h : Hart (Scratch σ)) : Prop where
  pc : h.pc = page b 0x864
  a0 : h.gpr.read a0 = page b 0
  user : (⟨h.gpr.set Dm.a0 h.csrs.s1, h.fpr, h.csrs.rest⟩ : User σ) = U

/-- At a word with the registers of the program restored. -/
structure AtUser (b : BitVec 52) (off : BitVec 12) (U : User σ) (h : Hart (Scratch σ)) : Prop where
  pc : h.pc = page b off
  user : user h = U

/-! ### The ways between -/

/-- A word that leads to the next one. -/
theorem Quiet.next (x : BitVec 12) {w : BitVec 32} (hpc : h.pc = page b off) (hoff : haltAddress ≤ off)
    (hs : h.step F.scratch w = .done h') (hw : romWord off = w) (h4 : h'.pc = h.pc + 4)
    (hx : off.toNat + 4 = x.toNat) (hq : Quiet F b P n { h' with pc := page b x }) :
    Quiet F b P (n + 1) h := by
  have hp : h'.pc = page b x := by
    rw [h4, hpc]
    exact page_add (by rw [← hx]; rfl)
  rw [← hp] at hq
  exact .step hpc hoff (hw ▸ hs) hq

theorem Quiet.jal (x : BitVec 12) (imm : BitVec 20) (hpc : h.pc = page b off) (hoff : haltAddress ≤ off)
    (hw : romWord off = encode (.jal 0 imm))
    (hx : (off.toNat : ℤ) + ((imm ++ 0#1).signExtend 64 : BitVec 64).toInt = x.toNat)
    (hq : Quiet F b P n { h with pc := page b x }) : Quiet F b P (n + 1) h := by
  refine .step hpc hoff (hw ▸ step_jal imm) ?_
  rwa [hpc, page_add hx]

theorem Quiet.bnez (x imm : BitVec 12) (hpc : h.pc = page b off) (hoff : haltAddress ≤ off)
    (hw : romWord off = encode (.branch .ne s0 0 imm)) (h0 : h.gpr.read s0 ≠ 0)
    (hx : (off.toNat : ℤ) + ((imm ++ 0#1).signExtend 64 : BitVec 64).toInt = x.toNat)
    (hq : Quiet F b P n { h with pc := page b x }) : Quiet F b P (n + 1) h := by
  refine .step hpc hoff (hw ▸ step_bnez imm) ?_
  rwa [if_neg h0, hpc, page_add hx]

theorem Quiet.bnez_zero (x imm : BitVec 12) (hpc : h.pc = page b off)
    (hoff : haltAddress ≤ off) (hw : romWord off = encode (.branch .ne s0 0 imm)) (h0 : h.gpr.read s0 = 0)
    (hx : off.toNat + 4 = x.toNat) (hq : Quiet F b P n { h with pc := page b x }) :
    Quiet F b P (n + 1) h := by
  refine .step hpc hoff (hw ▸ step_bnez imm) ?_
  rwa [if_pos h0, hpc, page_add (show (off.toNat : ℤ) + (4 : BitVec 64).toInt = x.toNat by rw [← hx]; rfl)]

theorem csrr_scratch0 (h : Hart (Scratch σ)) (r : BitVec 5) : h.step F.scratch (csrr dscratch0 r) =
    .done { h with pc := h.pc + 4, gpr := h.gpr.set r h.csrs.s0 } :=
  step_csrr (v := h.csrs.s0) rfl

theorem csrr_scratch1 (h : Hart (Scratch σ)) (r : BitVec 5) : h.step F.scratch (csrr dscratch1 r) =
    .done { h with pc := h.pc + 4, gpr := h.gpr.set r h.csrs.s1 } :=
  step_csrr (v := h.csrs.s1) rfl

theorem csrw_scratch0 (h : Hart (Scratch σ)) (r : BitVec 5) : h.step F.scratch (csrw dscratch0 r) =
    .done { h with pc := h.pc + 4, csrs := { h.csrs with s0 := h.gpr.read r } } :=
  step_csrw rfl

theorem csrw_scratch1 (h : Hart (Scratch σ)) (r : BitVec 5) : h.step F.scratch (csrw dscratch1 r) =
    .done { h with pc := h.pc + 4, csrs := { h.csrs with s1 := h.gpr.read r } } :=
  step_csrw rfl

theorem read_scratch (F : Csrs σ) (c : Scratch σ) (a : BitVec 12) : F.scratch.read c a =
    if a = dscratch0 then some c.s0 else if a = dscratch1 then some c.s1 else F.read c.rest a := rfl

/-- The hart has the number zero. -/
def HartZero (F : Csrs σ) : Prop := ∀ c, F.read c mhartid = some 0

theorem csrr_hartid (hF : HartZero F) (h : Hart (Scratch σ)) : h.step F.scratch (csrr mhartid s0) =
    .done { h with pc := h.pc + 4, gpr := h.gpr.set s0 0 } := by
  have hr : F.scratch.read h.csrs mhartid = F.read h.csrs.rest mhartid := by
    rw [read_scratch, if_neg (by decide), if_neg (by decide)]
  exact step_csrr (hr.trans (hF h.csrs.rest))

/-- The program is put back out of the scratch registers, whatever `s0` and `a0` hold. -/
theorem recover_of {h h' : Hart (Scratch σ)} {U : User σ} (hU : recover h = U) (hc : h'.csrs = h.csrs)
    (hf : h'.fpr = h.fpr) (hg : ∀ r, r ≠ s0 → r ≠ a0 → h'.gpr.read r = h.gpr.read r) : recover h' = U := by
  have hr : (h'.gpr.set s0 h'.csrs.s0).set a0 h'.csrs.s1 = (h.gpr.set s0 h.csrs.s0).set a0 h.csrs.s1 := by
    apply Gpr.ext
    intro r
    simp only [hc, Gpr.read_set]
    split_ifs with h0 ha hs
    · rfl
    · rfl
    · rfl
    · exact hg r hs ha
  rw [← hU, recover, recover, hr, hf, hc]

/-- Both have been put back. -/
theorem user_of_recover {h h' : Hart (Scratch σ)} {U : User σ} (hU : recover h = U)
    (hg : h'.gpr = (h.gpr.set s0 h.csrs.s0).set a0 h.csrs.s1) (hc : h'.csrs = h.csrs) (hf : h'.fpr = h.fpr) :
    user h' = U := by
  rw [← hU, user, recover, hg, hc, hf]

/-- From the entry to the first report that the hart has halted. -/
theorem quiet_enter (hF : HartZero F) (hpc : h.pc = page b haltAddress) :
    Quiet F b (AtStore b 0x828 (user h)) 8 h := by
  refine .jal 0x80c 6 hpc (by decide) (by decide) (by decide) ?_
  refine .next 0x810 rfl (by decide) step_fence (by decide) rfl (by decide) ?_
  refine .next 0x814 rfl (by decide) (csrw_scratch0 _ s0) (by decide) rfl (by decide) ?_
  refine .next 0x818 rfl (by decide) (csrw_scratch1 _ a0) (by decide) rfl (by decide) ?_
  refine .next 0x81c rfl (by decide) (step_auipc _) (by decide) rfl (by decide) ?_
  refine .next 0x820 rfl (by decide) (step_srli _ 12) (by decide) rfl (by decide) ?_
  refine .next 0x824 rfl (by decide) (step_slli _ 12) (by decide) rfl (by decide) ?_
  refine .next 0x828 rfl (by decide) (csrr_hartid hF _) (by decide) rfl (by decide) (.here ?_)
  have h12 : (12 : BitVec 6).toNat = 12 := rfl
  refine ⟨rfl, ?_, ?_, ?_⟩
  · simp only [h12, read_set_a0, read_a0_set_s0, page_shift]
  · simp only [read_set_s0]
  · refine congrArg (fun g => (⟨g, h.fpr, h.csrs.rest⟩ : User σ)) (set_both fun r hs ha => ?_)
    simp only [set_set, Gpr.read_set_of_ne _ _ hs, Gpr.read_set_of_ne _ _ ha]

/-- From the exception entry to its report. -/
theorem quiet_exception (hpc : h.pc = page b exceptionAddress) : Quiet F b (AtException b (user h)) 5 h := by
  refine .jal 0x854 0x26 hpc (by decide) (by decide) (by decide) ?_
  refine .next 0x858 rfl (by decide) (csrw_scratch1 _ a0) (by decide) rfl (by decide) ?_
  refine .next 0x85c rfl (by decide) (step_auipc _) (by decide) rfl (by decide) ?_
  refine .next 0x860 rfl (by decide) (step_srli _ 12) (by decide) rfl (by decide) ?_
  refine .next 0x864 rfl (by decide) (step_slli _ 12) (by decide) rfl (by decide) (.here ?_)
  have h12 : (12 : BitVec 6).toNat = 12 := rfl
  refine ⟨rfl, ?_, ?_⟩
  · simp only [h12, read_set_a0, page_shift]
  · refine congrArg (fun g => (⟨g, h.fpr, h.csrs.rest⟩ : User σ)) ?_
    simp only [set_set, set_read]

/-- From the report of an exception to the `ebreak`. -/
theorem quiet_reported {U : User σ} (hpc : h.pc = page b 0x868)
    (hU : (⟨h.gpr.set a0 h.csrs.s1, h.fpr, h.csrs.rest⟩ : User σ) = U) : Quiet F b (AtUser b 0x86c U) 1 h :=
  .next 0x86c hpc (by decide) (csrr_scratch1 _ a0) (by decide) rfl (by decide) (.here ⟨rfl, hU⟩)

/-- From the report that the hart has halted to the first look at the flags. -/
theorem quiet_halted {U : User σ} (hpc : h.pc = page b 0x82c) (ha : h.gpr.read a0 = page b 0)
    (hs : h.gpr.read s0 = 0) (hU : recover h = U) : Quiet F b (AtFlags b 0x830 U) 1 h := by
  refine .next 0x830 hpc (by decide) step_add (by decide) rfl (by decide) (.here ⟨rfl, ?_, ?_, ?_⟩)
  · simp only [read_a0_set_s0, ha]
  · simp only [read_set_s0, hs, ha, zero_add]
  · exact recover_of hU rfl rfl fun r hs _ => Gpr.read_set_of_ne _ _ hs

/-- The flag of a command is up. -/
theorem quiet_go {U : User σ} (hpc : h.pc = page b 0x834) (ha : h.gpr.read a0 = page b 0)
    (hs : h.gpr.read s0 &&& 1 ≠ 0) (hU : recover h = U) : Quiet F b (AtGoing b U) 2 h := by
  refine .next 0x838 hpc (by decide) (step_andi 1) (by decide) rfl (by decide) ?_
  refine .bnez 0x870 0x1c rfl (by decide) (by decide) ?_ (by decide) (.here ⟨rfl, ?_, ?_⟩)
  · exact (read_set_s0 _ _).trans_ne hs
  · simp only [read_a0_set_s0, ha]
  · exact recover_of hU rfl rfl fun r hs _ => Gpr.read_set_of_ne _ _ hs

/-- The flag of a command is down. -/
theorem quiet_no_go {U : User σ} (hF : HartZero F) (hpc : h.pc = page b 0x834) (ha : h.gpr.read a0 = page b 0)
    (hs : h.gpr.read s0 &&& 1 = 0) (hU : recover h = U) : Quiet F b (AtFlags b 0x844 U) 4 h := by
  refine .next 0x838 hpc (by decide) (step_andi 1) (by decide) rfl (by decide) ?_
  refine .bnez_zero 0x83c 0x1c rfl (by decide) (by decide) ?_ (by decide) ?_
  · exact (read_set_s0 _ _).trans hs
  refine .next 0x840 rfl (by decide) (csrr_hartid hF _) (by decide) rfl (by decide) ?_
  refine .next 0x844 rfl (by decide) step_add (by decide) rfl (by decide) (.here ⟨rfl, ?_, ?_, ?_⟩)
  · simp only [read_a0_set_s0, ha]
  · simp only [read_set_s0, read_a0_set_s0, ha, zero_add]
  · exact recover_of hU rfl rfl fun r hs _ => by simp only [Gpr.read_set_of_ne _ _ hs]

/-- The flag of a resumption is up. -/
theorem quiet_resume {U : User σ} (hF : HartZero F) (hpc : h.pc = page b 0x848) (ha : h.gpr.read a0 = page b 0)
    (hs : h.gpr.read s0 &&& 2 ≠ 0) (hU : recover h = U) : Quiet F b (AtStore b 0x884 U) 4 h := by
  refine .next 0x84c hpc (by decide) (step_andi 2) (by decide) rfl (by decide) ?_
  refine .bnez 0x804 0xfdc rfl (by decide) (by decide) ?_ (by decide) ?_
  · exact (read_set_s0 _ _).trans_ne hs
  refine .jal 0x880 0x3e rfl (by decide) (by decide) (by decide) ?_
  refine .next 0x884 rfl (by decide) (csrr_hartid hF _) (by decide) rfl (by decide) (.here ⟨rfl, ?_, ?_, ?_⟩)
  · simp only [read_a0_set_s0, ha]
  · simp only [read_set_s0]
  · exact recover_of hU rfl rfl fun r hs _ => by simp only [Gpr.read_set_of_ne _ _ hs]

/-- Both flags are down. -/
theorem quiet_loop {U : User σ} (hF : HartZero F) (hpc : h.pc = page b 0x848) (ha : h.gpr.read a0 = page b 0)
    (hs : h.gpr.read s0 &&& 2 = 0) (hU : recover h = U) : Quiet F b (AtStore b 0x828 U) 4 h := by
  refine .next 0x84c hpc (by decide) (step_andi 2) (by decide) rfl (by decide) ?_
  refine .bnez_zero 0x850 0xfdc rfl (by decide) (by decide) ?_ (by decide) ?_
  · exact (read_set_s0 _ _).trans hs
  refine .jal 0x824 0xfffea rfl (by decide) (by decide) (by decide) ?_
  refine .next 0x828 rfl (by decide) (csrr_hartid hF _) (by decide) rfl (by decide) (.here ⟨rfl, ?_, ?_, ?_⟩)
  · simp only [read_a0_set_s0, ha]
  · simp only [read_set_s0]
  · exact recover_of hU rfl rfl fun r hs _ => by simp only [Gpr.read_set_of_ne _ _ hs]

/-- From the start of a command to its program. -/
theorem quiet_started {U : User σ} (hpc : h.pc = page b 0x874) (hU : recover h = U) :
    Quiet F b (AtUser b whereTo U) 3 h := by
  refine .next 0x878 hpc (by decide) (csrr_scratch0 _ s0) (by decide) rfl (by decide) ?_
  refine .next 0x87c rfl (by decide) (csrr_scratch1 _ a0) (by decide) rfl (by decide) ?_
  refine .jal whereTo 0xffd42 rfl (by decide) (by decide) (by decide) (.here ⟨rfl, ?_⟩)
  exact user_of_recover hU rfl rfl rfl

/-- From the report that the hart resumes to the end of debug mode. -/
theorem quiet_resumed {U : User σ} (hpc : h.pc = page b 0x888) (hU : recover h = U) :
    Quiet F b (AtUser b 0x890 U) 2 h := by
  refine .next 0x88c hpc (by decide) (csrr_scratch0 _ s0) (by decide) rfl (by decide) ?_
  refine .next 0x890 rfl (by decide) (csrr_scratch1 _ a0) (by decide) rfl (by decide) (.here ⟨rfl, ?_⟩)
  exact user_of_recover hU rfl rfl rfl

end Rom

end Dm
end Ariane

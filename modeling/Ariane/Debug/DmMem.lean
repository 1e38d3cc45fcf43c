/-
# The memory of the debug module

`dm_mem.sv` with `debug_rom.sv`, for one hart and a bus of 64 bits: the state machine that starts
abstract commands and resumes the hart, the addresses the hart talks to it by, and the programs it
reads there. A vector that is indexed past the hart is unknown, which a condition takes as false;
where it is data, it is an input (`In.unknown`).
-/
import Ariane.Debug.AbstractCmd

namespace Ariane
namespace Dm

open Isa Lib

/-! ### Addresses -/

def haltedAddr : BitVec 12 := 0x100
def goingAddr : BitVec 12 := 0x104
def resumingAddr : BitVec 12 := 0x108
def exceptionAddr : BitVec 12 := 0x10c
def resetAddr : BitVec 12 := 0x110
def whereTo : BitVec 12 := 0x300
def flagsBase : BitVec 12 := 0x400
def flagsEnd : BitVec 12 := 0x7ff
/-- `DataEnd`. -/
def dataEnd : BitVec 12 := dataAddr + 4 * 2
def progBufBase : BitVec 12 := dataAddr - 4 * 8
def progBufEnd : BitVec 12 := dataAddr - 1
def abstractCmdBase : BitVec 12 := progBufBase - 4 * 10
def abstractCmdEnd : BitVec 12 := progBufBase - 1
def haltAddress : BitVec 12 := 0x800
def resumeAddress : BitVec 12 := haltAddress + 4
def exceptionAddress : BitVec 12 := haltAddress + 8

/-! ### The ROM -/

/-- `mem` of `debug_rom`. -/
def debugRom : Vector (BitVec 64) 19 := #v[
  0x07c0006f_00c0006f, 0x0ff0000f_04c0006f, 0x7b351073_7b241073, 0x00c55513_00000517, 0xf1402473_00c51513,
  0x00a40433_10852023, 0x00147413_40044403, 0xf1402473_02041c63, 0x40044403_00a40433, 0xfa041ce3_00247413,
  0x7b351073_fd5ff06f, 0x00c55513_00000517, 0x10052623_00c51513, 0x00100073_7b302573, 0x7b202473_10052223,
  0xa85ff06f_7b302573, 0x10852423_f1402473, 0x7b302573_7b202473, 0x00000000_7b200073]

/-- `rdata_o` of `debug_rom`. -/
def romRdata (addrQ : BitVec 5) : BitVec 64 :=
  if h : addrQ.toNat < 19 then debugRom[addrQ.toNat] else 0

/-! ### The state machine -/

/-- `state_e`. -/
inductive MemFsm
  | idle | go | resume | cmdExecuting
deriving DecidableEq, Repr

/-- `cmderr_e`. -/
def cmdErrNone : BitVec 3 := 0
def cmdErrBusy : BitVec 3 := 1
def cmdErrNotSupported : BitVec 3 := 2
def cmdErrorException : BitVec 3 := 3
def cmdErrorHaltResume : BitVec 3 := 4

structure MemRegs where
  state : MemFsm
  halted : Bool
  resuming : Bool
  rdata : BitVec 64
  fwdRom : Bool
  romAddr : BitVec 5

/-- A request on the bus. -/
structure BusReq where
  we : Bool
  addr : BitVec 64
  wdata : BitVec 64
  be : BitVec 8

def BusReq.off (q : BusReq) : BitVec 12 := q.addr.extractLsb' 0 12

/-- What the registers of the debug module say. -/
structure Ctrl where
  hartsel : BitVec 20
  haltreq : Bool
  resumereq : Bool
  clearResumeack : Bool
  progbuf : Vector (BitVec 32) 8
  data : BitVec 64
  cmdValid : Bool
  cmd : Command

structure MemIn where
  ctrl : Ctrl
  req : Option BusReq
  /-- The address on the bus without a request. -/
  addr : BitVec 64
  unknown : BitVec 32

namespace Mem

variable (s : MemRegs) (i : MemIn)

/-- A vector of one entry at the index of the selected hart. -/
def sel (v : Bool) : Bool := i.ctrl.hartsel == 0 && v

/-- A write of the hart to an address. -/
def writes (i : MemIn) (a : BitVec 12) : Bool := i.req.any fun q => q.we && q.off == a

/-- `hart_sel` names the hart. -/
def hartSel (i : MemIn) : Bool := i.req.any fun q => !q.wdata.getLsbD 0

/-- `halted`, `going`, `exception` and `ndmreset_o`. -/
def haltedPulse : Bool := writes i haltedAddr && hartSel i
def going : Bool := writes i goingAddr
def resumingPulse : Bool := writes i resumingAddr && hartSel i
def exception : Bool := writes i exceptionAddr
def ndmresetO : Bool := writes i resetAddr

def cmdbusyO (s : MemRegs) : Bool := s.state != .idle
def goO (s : MemRegs) : Bool := s.state == .go
def resumeO (s : MemRegs) : Bool := s.state == .resume

/-- The hart is asked to resume, and can be. -/
def resumes : Bool := sel i i.ctrl.resumereq && sel i (!s.resuming) && sel i (!i.ctrl.haltreq) && sel i s.halted

def stateD : MemFsm :=
  match s.state with
  | .idle =>
    if resumes s i then .resume
    else if i.ctrl.cmdValid && sel i s.halted then .go
    else .idle
  | .go => if going i then .cmdExecuting else .go
  | .resume => if sel i s.resuming then .idle else .resume
  | .cmdExecuting => if sel i (haltedPulse i) then .idle else .cmdExecuting

/-- `cmderror_o`, where `cmderror_valid_o`. -/
def cmderrorO : Option (BitVec 3) :=
  if exception i then some cmdErrorException
  else if (abstractCmdRom i.ctrl.cmd).unsupported && i.ctrl.cmdValid then some cmdErrNotSupported
  else if s.state = .idle ∧ i.ctrl.cmdValid = true ∧ sel i s.halted = false then some cmdErrorHaltResume
  else none

def haltedD : Bool := if haltedPulse i then true else if resumingPulse i then false else s.halted

def resumingD : Bool :=
  if resumingPulse i then true
  else if i.ctrl.clearResumeack && i.ctrl.hartsel == 0 then false
  else s.resuming

/-! ### The addresses -/

/-- `data_o`, where `data_valid_o`. -/
def dataO : Option (BitVec 64) :=
  match i.req with
  | some q =>
    if q.we = true ∧ dataAddr ≤ q.off ∧ q.off ≤ dataEnd then some (writeLanes q.be i.ctrl.data q.wdata) else none
  | none => none

/-- The jump at `WhereTo`: the abstract command, or the program buffer at once. -/
def whereToWord (i : MemIn) : BitVec 32 :=
  if i.ctrl.cmd.cmdtype = accessRegister ∧ i.ctrl.cmd.acAr.transfer = false ∧ i.ctrl.cmd.acAr.postexec = true then
    jal 0 ((progBufBase - whereTo).setWidth 21)
  else jal 0 ((abstractCmdBase - whereTo).setWidth 21)

/-- Two words of a program, by the index of their doubleword. -/
def twoWords (ws : List (BitVec 32)) (n : ℕ) : BitVec 64 := ws.getD (2 * n + 1) 0 ++ ws.getD (2 * n) 0

/-- The index of a doubleword from an address on. -/
def index (a base : BitVec 12) : ℕ := (a.extractLsb' 3 9 - base.extractLsb' 3 9).toNat

/-- The flags at the address of the selected hart. -/
def flags (a : BitVec 12) : BitVec 64 :=
  if a.extractLsb' 3 9 ++ 0#3 - flagsBase = (i.ctrl.hartsel.extractLsb' 3 9 ++ 0#3) then
    (0#6 ++ BitVec.ofBool (resumeO s) ++ BitVec.ofBool (goO s)).setWidth 64 <<<
      (8 * (i.ctrl.hartsel.extractLsb' 0 3).toNat)
  else 0

/-- What a read fetches, if the address is one of those. -/
def readD (q : BusReq) : Option (BitVec 64) :=
  let a := q.off
  if a = whereTo then
    if cmdbusyO s then some ((whereToWord i).setWidth 64)
    else if i.ctrl.resumereq && !q.wdata.getLsbD 0 then
      some ((jal 0 ((resumeAddress - whereTo).setWidth 21)).setWidth 64)
    else none
  else if dataAddr ≤ a ∧ a ≤ dataEnd then
    if index a dataAddr = 0 then some i.ctrl.data else some (i.unknown ++ i.ctrl.data.extractLsb' 32 32)
  else if progBufBase ≤ a ∧ a ≤ progBufEnd then some (twoWords i.ctrl.progbuf.toList (index a progBufBase))
  else if abstractCmdBase ≤ a ∧ a ≤ abstractCmdEnd then
    some (twoWords (abstractCmdRom i.ctrl.cmd).words (index a abstractCmdBase))
  else if flagsBase ≤ a ∧ a ≤ flagsEnd then some (flags s i a)
  else none

def rdataD : BitVec 64 :=
  match i.req with
  | some q => if q.we then s.rdata else (readD s i q).getD s.rdata
  | none => s.rdata

/-- The address on the bus. -/
def busAddr (i : MemIn) : BitVec 64 := (i.req.map BusReq.addr).getD i.addr

def next : MemRegs where
  state := stateD s i
  halted := haltedD s i
  resuming := resumingD s i
  rdata := rdataD s i
  fwdRom := haltAddress ≤ (busAddr i).extractLsb' 0 12
  romAddr := if i.req.isSome then (busAddr i).extractLsb' 3 5 else s.romAddr

/-- `rdata_o`. -/
def rdataO (s : MemRegs) : BitVec 64 := if s.fwdRom then romRdata s.romAddr else s.rdata

def reset : MemRegs := ⟨.idle, false, false, 0, false, 0⟩

/-! ### What the registers of the hart do -/

variable {s : MemRegs} {i : MemIn}

theorem sel_zero (h : i.ctrl.hartsel = 0) (v : Bool) : sel i v = v := by simp [sel, h]

/-- The hart writes `v` to an address of the module. -/
def WritesTo (i : MemIn) (a : BitVec 12) : Prop := ∃ q, i.req = some q ∧ q.we = true ∧ q.off = a

/-- The hart does not write. -/
def Silent (i : MemIn) : Prop := ∀ q, i.req = some q → q.we = false

theorem writes_iff {a : BitVec 12} : writes i a = true ↔ WritesTo i a := by
  simp [writes, WritesTo, Option.any_eq_true]

theorem WritesTo.writes {a : BitVec 12} (h : WritesTo i a) (a' : BitVec 12) : writes i a' = (a == a') := by
  obtain ⟨q, hq, hw, rfl⟩ := h
  simp [Mem.writes, hq, hw]

theorem Silent.writes (h : Silent i) (a : BitVec 12) : writes i a = false := by
  rw [← Bool.not_eq_true, writes_iff]
  rintro ⟨q, hq, hw, -⟩
  rw [h q hq] at hw
  cases hw

theorem Silent.dataO (h : Silent i) : dataO i = none := by
  unfold Mem.dataO
  split
  · next q hq => simp [h q hq]
  · rfl

/-- Where a halted hart stands with the module: it runs its program, waits, is about to start a command
or to resume, or runs a command. -/
inductive Phase
  | out | parked | going | resuming | busy
deriving DecidableEq

def Phase.Holds (s : MemRegs) : Phase → Prop
  | out => s.halted = false ∧ (s.state = .idle ∨ s.state = .resume ∧ s.resuming = true)
  | parked => s.halted = true ∧ (s.state = .idle ∨ s.state = .go ∨ s.state = .resume ∧ s.resuming = false)
  | going => s.halted = true ∧ s.state = .go
  | resuming => s.halted = true ∧ s.state = .resume ∧ s.resuming = false
  | busy => s.halted = true ∧ s.state = .cmdExecuting

theorem halted_of_unmoved (hh : haltedPulse i = false) (hr : resumingPulse i = false) :
    (next s i).halted = s.halted := by
  simp [next, haltedD, hh, hr]

theorem resuming_of_unmoved (hr : resumingPulse i = false) (h : s.resuming = false) :
    (next s i).resuming = false := by
  simp [next, resumingD, hr, h]

theorem state_next : (next s i).state = stateD s i := rfl

theorem stateD_idle (h : s.state = .idle) : stateD s i =
    if resumes s i then .resume else if i.ctrl.cmdValid && sel i s.halted then .go else .idle := by
  rw [stateD, h]

theorem stateD_go (h : s.state = .go) : stateD s i = if going i then .cmdExecuting else .go := by
  rw [stateD, h]

theorem stateD_resume (h0 : i.ctrl.hartsel = 0) (h : s.state = .resume) :
    stateD s i = if s.resuming then .idle else .resume := by
  simp [stateD, h, sel_zero h0]

theorem stateD_busy (h0 : i.ctrl.hartsel = 0) (h : s.state = .cmdExecuting) :
    stateD s i = if haltedPulse i then .idle else .cmdExecuting := by
  simp [stateD, h, sel_zero h0]

theorem stateD_idle_of_running (h0 : i.ctrl.hartsel = 0) (h : s.state = .idle) (hd : s.halted = false) :
    stateD s i = .idle := by
  simp [stateD_idle h, resumes, sel_zero h0, hd]

/-- A hart that runs its program lets the module come to rest. -/
theorem idle_of_out (h : Phase.out.Holds s) (h0 : i.ctrl.hartsel = 0) : (next s i).state = .idle := by
  obtain ⟨hs, hst | ⟨hst, hrs⟩⟩ := h
  · exact stateD_idle_of_running h0 hst hs
  · rw [state_next, stateD_resume h0 hst, hrs]
    rfl

/-- The states in which a hart waits are left by its own writes only. -/
theorem waits_next (h : s.state = .idle ∨ s.state = .go ∨ s.state = .resume ∧ s.resuming = false)
    (h0 : i.ctrl.hartsel = 0) (hg : Mem.going i = false) (hr : resumingPulse i = false) :
    (next s i).state = .idle ∨ (next s i).state = .go ∨
      (next s i).state = .resume ∧ (next s i).resuming = false := by
  rw [state_next]
  obtain hst | hst | ⟨hst, hrs⟩ := h
  · rw [stateD_idle hst]
    split_ifs with h1
    · -- it is asked to resume only while it has not resumed
      have hrs : s.resuming = false := by
        simp only [resumes, sel_zero h0, Bool.and_eq_true, Bool.not_eq_true'] at h1
        exact h1.1.1.2
      exact .inr (.inr ⟨rfl, resuming_of_unmoved hr hrs⟩)
    · exact .inr (.inl rfl)
    · exact .inl rfl
  · rw [stateD_go hst, hg]
    exact .inr (.inl rfl)
  · rw [stateD_resume h0 hst, hrs]
    exact .inr (.inr ⟨rfl, resuming_of_unmoved hr hrs⟩)

/-- The phases without the writes that move them. -/
theorem Phase.Holds.next {p : Phase} (h : p.Holds s) (h0 : i.ctrl.hartsel = 0) (hh : haltedPulse i = false)
    (hg : Mem.going i = false) (hr : resumingPulse i = false) : p.Holds (Mem.next s i) := by
  have hd := halted_of_unmoved (s := s) hh hr
  cases p with
  | out => exact ⟨hd.trans h.1, .inl (idle_of_out h h0)⟩
  | parked => exact ⟨hd.trans h.1, waits_next h.2 h0 hg hr⟩
  | going =>
    refine ⟨hd.trans h.1, ?_⟩
    rw [state_next, stateD_go h.2, hg]
    rfl
  | resuming =>
    refine ⟨hd.trans h.1, ?_, resuming_of_unmoved hr h.2.2⟩
    rw [state_next, stateD_resume h0 h.2.1, h.2.2]
    rfl
  | busy =>
    refine ⟨hd.trans h.1, ?_⟩
    rw [state_next, stateD_busy h0 h.2, hh]
    rfl

/-- The hart reports that it has halted: from then on it waits. -/
theorem Phase.Holds.parked {p : Phase} (h : p.Holds s) (h0 : i.ctrl.hartsel = 0)
    (hp : p = .out ∨ p = .busy ∨ p = .parked) (hw : WritesTo i haltedAddr) (hq : hartSel i = true) :
    Phase.parked.Holds (Mem.next s i) := by
  have hh : haltedPulse i = true := by simp [haltedPulse, hw.writes, hq]
  have hd : (Mem.next s i).halted = true := by simp [Mem.next, haltedD, hh]
  obtain rfl | rfl | rfl := hp
  · exact ⟨hd, .inl (idle_of_out h h0)⟩
  · refine ⟨hd, .inl ?_⟩
    rw [state_next, stateD_busy h0 h.2, hh]
    rfl
  · exact ⟨hd, waits_next h.2 h0 (by rw [Mem.going, hw.writes]; rfl) (by rw [resumingPulse, hw.writes]; rfl)⟩

/-- The hart starts the command. -/
theorem Phase.Holds.busy (h : Phase.going.Holds s) (hw : WritesTo i goingAddr) :
    Phase.busy.Holds (Mem.next s i) := by
  have hd : (Mem.next s i).halted = s.halted :=
    halted_of_unmoved (by rw [haltedPulse, hw.writes]; rfl) (by rw [resumingPulse, hw.writes]; rfl)
  refine ⟨hd.trans h.1, ?_⟩
  rw [state_next, stateD_go h.2, Mem.going, hw.writes]
  rfl

/-- The hart reports that it resumes. -/
theorem Phase.Holds.out (h : Phase.resuming.Holds s) (h0 : i.ctrl.hartsel = 0) (hw : WritesTo i resumingAddr)
    (hq : hartSel i = true) : Phase.out.Holds (Mem.next s i) := by
  have hr : resumingPulse i = true := by simp [resumingPulse, hw.writes, hq]
  have hh : haltedPulse i = false := by rw [haltedPulse, hw.writes]; rfl
  refine ⟨by simp [Mem.next, haltedD, hh, hr], .inr ⟨?_, by simp [Mem.next, resumingD, hr]⟩⟩
  rw [state_next, stateD_resume h0 h.2.1, h.2.2]
  rfl

/-! ### What the hart reads -/

variable {q : BusReq}

theorem off_index (q : BusReq) : q.off.extractLsb' 3 5 = q.addr.extractLsb' 3 5 :=
  BitVec.extractLsb'_extractLsb'_of_le (by decide)

theorem rdataO_rom (hq : i.req = some q) (ho : haltAddress ≤ q.off) :
    rdataO (next s i) = romRdata (q.off.extractLsb' 3 5) := by
  have hb : busAddr i = q.addr := by simp [busAddr, hq]
  have hf : (next s i).fwdRom = true := by
    rw [next, hb]
    exact decide_eq_true ho
  have ha : (next s i).romAddr = q.addr.extractLsb' 3 5 := by simp [next, hq, hb]
  rw [rdataO, if_pos hf, ha, off_index]

theorem rdataO_of_readD {v : BitVec 64} (hq : i.req = some q) (hw : q.we = false) (ho : q.off < haltAddress)
    (hr : readD s i q = some v) : rdataO (next s i) = v := by
  have hb : busAddr i = q.addr := by simp [busAddr, hq]
  have hf : (next s i).fwdRom = false := by
    rw [next, hb]
    exact decide_eq_false (BitVec.not_le.2 ho)
  have hd : (next s i).rdata = v := by simp [next, rdataD, hq, hw, hr]
  rw [rdataO, hf, hd]
  rfl

theorem readD_whereTo (ho : q.off = whereTo) (hs : s.state ≠ .idle) :
    readD s i q = some ((whereToWord i).setWidth 64) := by
  have hb : cmdbusyO s = true := by simpa [cmdbusyO] using hs
  rw [readD, if_pos ho, hb]
  rfl

theorem readD_data (ho : q.off = dataAddr) : readD s i q = some i.ctrl.data := by
  simp only [readD, ho]
  rfl

theorem readD_flags (h0 : i.ctrl.hartsel = 0) (ho : q.off = flagsBase) :
    readD s i q = some ((0#6 ++ BitVec.ofBool (resumeO s) ++ BitVec.ofBool (goO s)).setWidth 64) := by
  have hf : flags s i flagsBase = (0#6 ++ BitVec.ofBool (resumeO s) ++ BitVec.ofBool (goO s)).setWidth 64 := by
    rw [flags, h0, if_pos (by decide)]
    rw [show 8 * ((0 : BitVec 20).extractLsb' 0 3).toNat = 0 by decide, BitVec.shiftLeft_zero]
  simp only [readD, ho, hf]
  rfl

/-- The words of the program of a command, by their addresses. -/
def cmdWordAddr (j : ℕ) : BitVec 12 := abstractCmdBase + BitVec.ofNat 12 (4 * j)

theorem cmdWordAddr_index : ∀ j < 10, index (cmdWordAddr j) abstractCmdBase = j / 2 := by decide

theorem cmdWordAddr_range : ∀ j < 10, cmdWordAddr j ≠ whereTo ∧ ¬dataAddr ≤ cmdWordAddr j ∧
    ¬progBufBase ≤ cmdWordAddr j ∧ abstractCmdBase ≤ cmdWordAddr j ∧ cmdWordAddr j ≤ abstractCmdEnd := by
  decide

theorem readD_cmdWord {j : ℕ} (hj : j < 10) (ho : q.off = cmdWordAddr j) :
    readD s i q = some (twoWords (abstractCmdRom i.ctrl.cmd).words (j / 2)) := by
  obtain ⟨h0, h1, h2, h3, h4⟩ := cmdWordAddr_range j hj
  simp only [readD, ho, h0, h1, h2, h3, h4, cmdWordAddr_index j hj, if_false, if_true, false_and, and_self]

end Mem

end Dm
end Ariane

/-
# The registers of the debug module

`dm_csrs.sv` for one hart and a bus of 64 bits: the registers that the debugger reads and writes by
DMI requests, and the queue of the responses. A vector that is indexed past the hart reads as
unknown (`CsrsIn.unknown`); a write there is lost.
-/
import Ariane.Debug.DmMem
import Ariane.Debug.DmiJtag
import Ariane.Lib.Fifo

namespace Ariane
namespace Dm

open Isa Lib Dmi

/-! ### Types -/

/-- `dmi_req_t`. -/
structure DmiReq where
  addr : BitVec 7
  op : DtmOp
  data : BitVec 32
deriving DecidableEq, Repr

/-- The registers by their addresses (`dm_csr_e`). The ranges of the data registers and of the program
buffer reach one past the last of them. -/
inductive DmReg
  | data (k : ℕ) | dmControl | dmStatus | hartinfo | abstractCS | command | abstractAuto | progBuf (k : ℕ)
  | haltSum0 | haltSum1 | haltSum2 | haltSum3 | sbcs | sbAddress0 | sbAddress1 | sbData0 | sbData1
deriving DecidableEq, Repr

def DmReg.ofAddr (a : BitVec 7) : Option DmReg :=
  if 0x04 ≤ a ∧ a ≤ 0x06 then some (.data (a - 0x04).toNat)
  else if 0x20 ≤ a ∧ a ≤ 0x28 then some (.progBuf (a - 0x20).toNat)
  else
    match a.toNat with
    | 0x10 => some .dmControl
    | 0x11 => some .dmStatus
    | 0x12 => some .hartinfo
    | 0x13 => some .haltSum1
    | 0x16 => some .abstractCS
    | 0x17 => some .command
    | 0x18 => some .abstractAuto
    | 0x34 => some .haltSum2
    | 0x35 => some .haltSum3
    | 0x38 => some .sbcs
    | 0x39 => some .sbAddress0
    | 0x3a => some .sbAddress1
    | 0x3c => some .sbData0
    | 0x3d => some .sbData1
    | 0x40 => some .haltSum0
    | _ => none

/-- `dmcontrol_t`, without the fields that are not stored. -/
structure DmControl where
  haltreq : Bool
  resumereq : Bool
  hartsello : BitVec 10
  hartselhi : BitVec 10
  ndmreset : Bool
  dmactive : Bool
deriving DecidableEq, Repr

namespace DmControl

def ofBits (w : BitVec 32) : DmControl :=
  ⟨w.getLsbD 31, w.getLsbD 30, w.extractLsb' 16 10, w.extractLsb' 6 10, w.getLsbD 1, w.getLsbD 0⟩

def toBits (c : DmControl) : BitVec 32 :=
  BitVec.ofBool c.haltreq ++ BitVec.ofBool c.resumereq ++ 0#4 ++ c.hartsello ++ c.hartselhi ++ 0#4 ++
    BitVec.ofBool c.ndmreset ++ BitVec.ofBool c.dmactive

/-- `hartsel_o`. -/
def hartsel (c : DmControl) : BitVec 20 := c.hartselhi ++ c.hartsello

/-- `ackhavereset` of a write. -/
def ackhavereset (w : BitVec 32) : Bool := w.getLsbD 28

end DmControl

/-- `sbcs_t`. -/
structure Sbcs where
  sbversion : BitVec 3
  zero0 : BitVec 6
  sbbusyerror : Bool
  sbbusy : Bool
  sbreadonaddr : Bool
  sbaccess : BitVec 3
  sbautoincrement : Bool
  sbreadondata : Bool
  sberror : BitVec 3
  sbasize : BitVec 7
  sbaccess128 : Bool
  sbaccess64 : Bool
  sbaccess32 : Bool
  sbaccess16 : Bool
  sbaccess8 : Bool
deriving DecidableEq, Repr

namespace Sbcs

def toBits (c : Sbcs) : BitVec 32 :=
  c.sbversion ++ c.zero0 ++ BitVec.ofBool c.sbbusyerror ++ BitVec.ofBool c.sbbusy ++
    BitVec.ofBool c.sbreadonaddr ++ c.sbaccess ++ BitVec.ofBool c.sbautoincrement ++
    BitVec.ofBool c.sbreadondata ++ c.sberror ++ c.sbasize ++ BitVec.ofBool c.sbaccess128 ++
    BitVec.ofBool c.sbaccess64 ++ BitVec.ofBool c.sbaccess32 ++ BitVec.ofBool c.sbaccess16 ++
    BitVec.ofBool c.sbaccess8

def ofBits (w : BitVec 32) : Sbcs where
  sbversion := w.extractLsb' 29 3
  zero0 := w.extractLsb' 23 6
  sbbusyerror := w.getLsbD 22
  sbbusy := w.getLsbD 21
  sbreadonaddr := w.getLsbD 20
  sbaccess := w.extractLsb' 17 3
  sbautoincrement := w.getLsbD 16
  sbreadondata := w.getLsbD 15
  sberror := w.extractLsb' 12 3
  sbasize := w.extractLsb' 5 7
  sbaccess128 := w.getLsbD 4
  sbaccess64 := w.getLsbD 3
  sbaccess32 := w.getLsbD 2
  sbaccess16 := w.getLsbD 1
  sbaccess8 := w.getLsbD 0

def zero : Sbcs := ofBits 0

end Sbcs

/-- `abstractauto_t`. -/
structure AbstractAuto where
  autoexecprogbuf : BitVec 16
  autoexecdata : BitVec 12
deriving DecidableEq, Repr

def AbstractAuto.toBits (c : AbstractAuto) : BitVec 32 := c.autoexecprogbuf ++ 0#4 ++ c.autoexecdata

/-- The registers. -/
structure CsrsRegs where
  dmcontrol : DmControl
  cmderr : BitVec 3
  command : Command
  cmdValid : Bool
  abstractauto : AbstractAuto
  progbuf : Vector (BitVec 32) 8
  data : BitVec 64
  sbcs : Sbcs
  sbaddr : BitVec 64
  sbdata : BitVec 64
  havereset : Bool
  resp : Fifo 1 (BitVec 32)

structure CsrsIn where
  dmiReq : Option DmiReq
  dmiRespReady : Bool
  hartinfo : BitVec 32
  halted : Bool
  unavailable : Bool
  resumeack : Bool
  /-- `cmderror_i`, where it is valid. -/
  cmderror : Option (BitVec 3)
  cmdbusy : Bool
  /-- `data_i`, where it is valid. -/
  data : Option (BitVec 64)
  sbaddress : BitVec 64
  sbdata : Option (BitVec 64)
  sbbusy : Bool
  sberror : Option (BitVec 3)
  unknown : BitVec 32

namespace DmCsrs

variable (s : CsrsRegs) (i : CsrsIn)

/-! ### The values that are read -/

/-- `selected_hart` is the hart. -/
def selected (s : CsrsRegs) : Bool := s.dmcontrol.hartsel.getLsbD 0 == false

/-- A vector with an entry for the hart, at the selected one. -/
def ofHart (v : Bool) : Bool := if selected s then v else i.unknown.getLsbD 0

/-- `dmstatus`. -/
def dmstatus : BitVec 32 :=
  let two (v : Bool) : BitVec 2 := BitVec.ofBool v ++ BitVec.ofBool v
  let unavail := ofHart s i i.unavailable
  let halted := ofHart s i i.halted
  0#12 ++ two (ofHart s i s.havereset) ++ two (ofHart s i i.resumeack) ++
    two (0 < s.dmcontrol.hartsel) ++ two unavail ++ two (!halted && !unavail) ++ two (halted && !unavail) ++
    1#1 ++ 0#3 ++ 2#4

/-- `abstractcs`. -/
def abstractcs : BitVec 32 := 0#3 ++ 8#5 ++ 0#11 ++ BitVec.ofBool i.cmdbusy ++ 0#1 ++ s.cmderr ++ 0#4 ++ 2#4

/-- `haltsum0` to `haltsum2`, by the bits of the selection that they are indexed with. -/
def haltsum (lo : ℕ) : BitVec 32 :=
  if s.dmcontrol.hartsel >>> lo = 0 then (BitVec.ofBool i.halted).setWidth 32 else i.unknown

/-! ### Requests -/

/-- The register values of the next edge, and what goes out to the system bus access. -/
structure Upd where
  dmcontrol : DmControl
  cmderr : BitVec 3
  command : Command
  cmdValid : Bool
  abstractauto : AbstractAuto
  progbuf : Vector (BitVec 32) 8
  data : BitVec 64
  sbcs : Sbcs
  sbaddr : BitVec 64
  sbdata : BitVec 64
  havereset : Bool
  /-- `resp_queue_data`. -/
  resp : BitVec 32
  sbaddressWriteValid : Bool
  sbdataReadValid : Bool
  sbdataWriteValid : Bool

def Upd.defaults : Upd where
  dmcontrol := s.dmcontrol
  cmderr := s.cmderr
  command := s.command
  cmdValid := false
  abstractauto := s.abstractauto
  progbuf := s.progbuf
  data := s.data
  sbcs := s.sbcs
  sbaddr := i.sbaddress
  sbdata := s.sbdata
  havereset := s.havereset
  resp := 0
  sbaddressWriteValid := false
  sbdataReadValid := false
  sbdataWriteValid := false

/-- An access to the system bus registers while the bus is busy. -/
def sbBusyError (u : Upd) : Upd := { u with sbcs := { u.sbcs with sbbusyerror := true } }

/-- `DTM_READ`. -/
def readReg (r : DmReg) (u : Upd) : Upd :=
  match r with
  | .data k =>
    { u with
      resp := if k = 0 then s.data.extractLsb' 0 32 else if k = 1 then s.data.extractLsb' 32 32 else i.unknown
      cmdValid := !i.cmdbusy && s.abstractauto.autoexecdata.getLsbD k }
  | .dmControl => { u with resp := s.dmcontrol.toBits }
  | .dmStatus => { u with resp := dmstatus s i }
  | .hartinfo => { u with resp := if selected s then i.hartinfo else i.unknown }
  | .abstractCS => { u with resp := abstractcs s i }
  | .abstractAuto => { u with resp := s.abstractauto.toBits }
  | .command => u
  | .progBuf k =>
    { u with
      resp := s.progbuf.toList.getD k i.unknown
      cmdValid := !i.cmdbusy && s.abstractauto.autoexecprogbuf.getLsbD k }
  | .haltSum0 => { u with resp := haltsum s i 5 }
  | .haltSum1 => { u with resp := haltsum s i 10 }
  | .haltSum2 => { u with resp := haltsum s i 15 }
  | .haltSum3 => { u with resp := (BitVec.ofBool i.halted).setWidth 32 }
  | .sbcs => { u with resp := s.sbcs.toBits }
  | .sbAddress0 => if i.sbbusy then sbBusyError u else { u with resp := s.sbaddr.extractLsb' 0 32 }
  | .sbAddress1 => if i.sbbusy then sbBusyError u else { u with resp := s.sbaddr.extractLsb' 32 32 }
  | .sbData0 =>
    if i.sbbusy then sbBusyError u
    else { u with sbdataReadValid := s.sbcs.sberror == 0, resp := s.sbdata.extractLsb' 0 32 }
  | .sbData1 => if i.sbbusy then sbBusyError u else { u with resp := s.sbdata.extractLsb' 32 32 }

/-- A write that is refused while a command runs. -/
def refuse (u : Upd) : Upd := if s.cmderr = cmdErrNone then { u with cmderr := cmdErrBusy } else u

/-- `DTM_WRITE`. -/
def writeReg (r : DmReg) (w : BitVec 32) (u : Upd) : Upd :=
  match r with
  | .data k =>
    if i.cmdbusy then u
    else
      { u with
        data := if k = 0 then s.data.extractLsb' 32 32 ++ w else if k = 1 then w ++ s.data.extractLsb' 0 32
          else s.data
        cmdValid := s.abstractauto.autoexecdata.getLsbD k }
  | .dmControl =>
    { u with
      havereset := if DmControl.ackhavereset w && selected s then false else u.havereset
      dmcontrol := .ofBits w }
  | .abstractCS => if i.cmdbusy then refuse s u else { u with cmderr := ~~~(w.extractLsb' 8 3) &&& s.cmderr }
  | .command => if i.cmdbusy then refuse s u else { u with cmdValid := true, command := .ofBits w }
  | .abstractAuto =>
    if i.cmdbusy then refuse s u
    else
      { u with
        abstractauto := ⟨(w.extractLsb' 16 8).setWidth 16, (w.extractLsb' 0 2).setWidth 12⟩ }
  | .progBuf k =>
    if i.cmdbusy then u
    else
      { u with
        progbuf := s.progbuf.setIfInBounds k w
        cmdValid := s.abstractauto.autoexecprogbuf.getLsbD k }
  | .sbcs =>
    if i.sbbusy then sbBusyError u
    else
      { u with
        sbcs := { Sbcs.ofBits w with
          sbbusyerror := s.sbcs.sbbusyerror && !w.getLsbD 22
          sberror := s.sbcs.sberror &&& ~~~(w.extractLsb' 12 3) } }
  | .sbAddress0 =>
    if i.sbbusy then sbBusyError u
    else { u with sbaddr := u.sbaddr.extractLsb' 32 32 ++ w, sbaddressWriteValid := s.sbcs.sberror == 0 }
  | .sbAddress1 => if i.sbbusy then sbBusyError u else { u with sbaddr := w ++ u.sbaddr.extractLsb' 0 32 }
  | .sbData0 =>
    if i.sbbusy then sbBusyError u
    else { u with sbdata := s.sbdata.extractLsb' 32 32 ++ w, sbdataWriteValid := s.sbcs.sberror == 0 }
  | .sbData1 => if i.sbbusy then sbBusyError u else { u with sbdata := w ++ s.sbdata.extractLsb' 0 32 }
  | .dmStatus | .hartinfo | .haltSum0 | .haltSum1 | .haltSum2 | .haltSum3 => u

/-- `dmi_req_ready_o`. -/
def dmiReqReady (s : CsrsRegs) : Bool := !s.resp.full

/-- The request that is taken. -/
def taken : Option DmiReq := if dmiReqReady s then i.dmiReq else none

def updReq : Upd :=
  match taken s i with
  | some q =>
    match DmReg.ofAddr q.addr with
    | some r =>
      if q.op = .read then readReg s i r (.defaults s i)
      else if q.op = .write then writeReg s i r q.data (.defaults s i)
      else .defaults s i
    | none => .defaults s i
  | none => .defaults s i

/-- The fields of `sbcs` that say what the bus is. -/
def sbcsStatic (c : Sbcs) : Sbcs :=
  { c with
    sbversion := 1
    sbbusy := i.sbbusy
    sbasize := 64
    sbaccess128 := false
    sbaccess64 := true
    sbaccess32 := false
    sbaccess16 := false
    sbaccess8 := false
    sbaccess := 3 }

/-- The block at its end: errors and data of the hart and of the system bus come after the request. -/
def upd : Upd :=
  let u := updReq s i
  { u with
    cmderr := i.cmderror.getD u.cmderr
    data := i.data.getD u.data
    havereset := if s.dmcontrol.ndmreset then true else u.havereset
    sbcs := sbcsStatic i { u.sbcs with sberror := i.sberror.getD u.sbcs.sberror }
    sbdata := i.sbdata.getD u.sbdata
    dmcontrol := { u.dmcontrol with
      resumereq := if s.dmcontrol.resumereq && i.resumeack then false else u.dmcontrol.resumereq } }

/-- `clear_resumeack_o`. -/
def clearResumeack : Bool := !s.dmcontrol.resumereq && (updReq s i).dmcontrol.resumereq

/-- `haltreq_o` and `resumereq_o` of the hart. -/
def haltreqO (s : CsrsRegs) : Bool := selected s && s.dmcontrol.haltreq
def resumereqO (s : CsrsRegs) : Bool := selected s && s.dmcontrol.resumereq

def nextResp : Fifo 1 (BitVec 32) :=
  s.resp.next false ((taken s i).map fun _ => (updReq s i).resp) (i.dmiRespReady && !s.resp.empty)

/-- The registers after a clock edge. While the module is inactive they are cleared. -/
def next : CsrsRegs :=
  let u := upd s i
  if s.dmcontrol.dmactive then
    { dmcontrol := u.dmcontrol, cmderr := u.cmderr, command := u.command, cmdValid := u.cmdValid
      abstractauto := u.abstractauto, progbuf := u.progbuf, data := u.data, sbcs := u.sbcs
      sbaddr := u.sbaddr, sbdata := u.sbdata, havereset := u.havereset, resp := nextResp s i }
  else
    { dmcontrol := ⟨false, false, 0, 0, false, u.dmcontrol.dmactive⟩, cmderr := cmdErrNone
      command := ⟨0, 0⟩, cmdValid := false, abstractauto := ⟨0, 0⟩, progbuf := .replicate 8 0, data := 0
      sbcs := .zero, sbaddr := 0, sbdata := 0, havereset := u.havereset, resp := nextResp s i }

/-- The registers in reset; `cmd_valid_q` is not reset. -/
def reset (cmdValid : Bool) : CsrsRegs :=
  { dmcontrol := ⟨false, false, 0, 0, false, false⟩, cmderr := cmdErrNone, command := ⟨0, 0⟩
    cmdValid := cmdValid, abstractauto := ⟨0, 0⟩, progbuf := .replicate 8 0, data := 0, sbcs := .zero
    sbaddr := 0, sbdata := 0, havereset := true, resp := .reset 0 }

/-! ### What a request does -/

/-- A request that starts a command, unless one is running. -/
def starts (s : CsrsRegs) (q : DmiReq) : Bool :=
  match DmReg.ofAddr q.addr with
  | some .command => q.op == .write
  | some (.data k) => (q.op == .read || q.op == .write) && s.abstractauto.autoexecdata.getLsbD k
  | some (.progBuf k) => (q.op == .read || q.op == .write) && s.abstractauto.autoexecprogbuf.getLsbD k
  | _ => false

/-- The half of the data registers that a request writes. -/
def dataWrite (q : DmiReq) : Option (ℕ × BitVec 32) :=
  match DmReg.ofAddr q.addr with
  | some (.data k) => if q.op = .write then some (k, q.data) else none
  | _ => none

def putData (d : BitVec 64) (k : ℕ) (w : BitVec 32) : BitVec 64 :=
  if k = 0 then d.extractLsb' 32 32 ++ w else if k = 1 then w ++ d.extractLsb' 0 32 else d

variable {s : CsrsRegs} {i : CsrsIn}

/-- A request reads a register, or writes one, or does nothing. -/
theorem updReq_cases : (updReq s i = .defaults s i ∧ (taken s i).bind dataWrite = none) ∨
    ∃ q r, taken s i = some q ∧ DmReg.ofAddr q.addr = some r ∧
      (q.op = .read ∧ updReq s i = readReg s i r (.defaults s i) ∨
        q.op = .write ∧ updReq s i = writeReg s i r q.data (.defaults s i)) := by
  cases ht : taken s i with
  | none => exact .inl (by simp [updReq, ht])
  | some q =>
    cases hr : DmReg.ofAddr q.addr with
    | none => exact .inl (by simp [updReq, ht, hr, dataWrite])
    | some r =>
      by_cases h1 : q.op = .read
      · exact .inr ⟨q, r, rfl, hr, .inl ⟨h1, by simp [updReq, ht, hr, h1]⟩⟩
      · by_cases h2 : q.op = .write
        · exact .inr ⟨q, r, rfl, hr, .inr ⟨h2, by simp [updReq, ht, hr, h2]⟩⟩
        · refine .inl ⟨by simp [updReq, ht, hr, h1, h2], ?_⟩
          rw [Option.bind_some, dataWrite, hr]
          cases r
          case data k => exact if_neg h2
          all_goals rfl

theorem updReq_of_none (h : i.dmiReq = none) : updReq s i = .defaults s i := by
  simp [updReq, taken, h]

/-- A refusal leaves a code, no more. -/
@[simp] theorem refuse_command (u : Upd) : (refuse s u).command = u.command := by unfold refuse; split <;> rfl
@[simp] theorem refuse_data (u : Upd) : (refuse s u).data = u.data := by unfold refuse; split <;> rfl
@[simp] theorem refuse_cmdValid (u : Upd) : (refuse s u).cmdValid = u.cmdValid := by unfold refuse; split <;> rfl
@[simp] theorem refuse_dmcontrol (u : Upd) : (refuse s u).dmcontrol = u.dmcontrol := by
  unfold refuse; split <;> rfl

theorem readReg_keeps (r : DmReg) (u : Upd) : (readReg s i r u).dmcontrol = u.dmcontrol ∧
    (readReg s i r u).command = u.command ∧ (readReg s i r u).data = u.data := by
  cases r <;> simp only [readReg, sbBusyError] <;> (try split_ifs) <;> simp

theorem cmdValid_readReg {r : DmReg} (h : (readReg s i r (.defaults s i)).cmdValid = true) :
    i.cmdbusy = false ∧ ((∃ k, r = .data k ∧ s.abstractauto.autoexecdata.getLsbD k = true) ∨
      ∃ k, r = .progBuf k ∧ s.abstractauto.autoexecprogbuf.getLsbD k = true) := by
  cases r
  case data k => exact ⟨by simp_all [readReg], .inl ⟨k, rfl, by simp_all [readReg]⟩⟩
  case progBuf k => exact ⟨by simp_all [readReg], .inr ⟨k, rfl, by simp_all [readReg]⟩⟩
  all_goals
    simp only [readReg] at h
    (try split_ifs at h) <;> cases h

theorem dmcontrol_writeReg {r : DmReg} {w : BitVec 32} (hr : r ≠ .dmControl) (u : Upd) :
    (writeReg s i r w u).dmcontrol = u.dmcontrol := by
  cases r <;> simp only [writeReg, sbBusyError] <;> (try split_ifs) <;> simp_all

theorem cmdValid_writeReg {r : DmReg} {w : BitVec 32} (h : (writeReg s i r w (.defaults s i)).cmdValid = true) :
    i.cmdbusy = false ∧ (r = .command ∨ (∃ k, r = .data k ∧ s.abstractauto.autoexecdata.getLsbD k = true) ∨
      ∃ k, r = .progBuf k ∧ s.abstractauto.autoexecprogbuf.getLsbD k = true) := by
  cases hb : i.cmdbusy
  · refine ⟨rfl, ?_⟩
    cases r
    case command => exact .inl rfl
    case data k => exact .inr (.inl ⟨k, rfl, by simp_all [writeReg]⟩)
    case progBuf k => exact .inr (.inr ⟨k, rfl, by simp_all [writeReg]⟩)
    all_goals
      simp only [writeReg, sbBusyError, Upd.defaults] at h
      (try split_ifs at h) <;> simp_all
  · cases r <;> simp [writeReg, sbBusyError, hb, Upd.defaults] at h <;> (split_ifs at h)

theorem command_writeReg {r : DmReg} {w : BitVec 32} (h : i.cmdbusy = true) (u : Upd) :
    (writeReg s i r w u).command = u.command ∧ (writeReg s i r w u).data = u.data := by
  cases r <;> simp only [writeReg, sbBusyError, h, if_true] <;> (try split_ifs) <;> simp

theorem data_writeReg {r : DmReg} {w : BitVec 32} (h : i.cmdbusy = false) (hr : ∀ k, r ≠ .data k) (u : Upd) :
    (writeReg s i r w u).data = u.data := by
  cases r <;> simp only [writeReg, sbBusyError, h] <;> (try split_ifs) <;> simp_all

/-- While a command runs, the command and the data are kept. -/
theorem updReq_of_busy (h : i.cmdbusy = true) :
    (updReq s i).command = s.command ∧ (updReq s i).data = s.data := by
  obtain ⟨he, -⟩ | ⟨q, r, -, -, ⟨-, he⟩ | ⟨-, he⟩⟩ := updReq_cases (s := s) (i := i) <;> rw [he]
  · exact ⟨rfl, rfl⟩
  · exact (readReg_keeps r _).2
  · exact command_writeReg h _

/-- A command is started by a request, while none runs; the request does nothing else to the hart. -/
theorem starts_of_cmdValid (h : (updReq s i).cmdValid = true) :
    i.cmdbusy = false ∧ (updReq s i).dmcontrol = s.dmcontrol ∧ ∃ q, taken s i = some q ∧ starts s q = true := by
  obtain ⟨he, -⟩ | ⟨q, r, ht, hr, ⟨ho, he⟩ | ⟨ho, he⟩⟩ := updReq_cases (s := s) (i := i)
  · rw [he] at h
    cases h
  · rw [he] at h ⊢
    obtain ⟨hb, ⟨k, rfl, ha⟩ | ⟨k, rfl, ha⟩⟩ := cmdValid_readReg h
    · exact ⟨hb, rfl, q, ht, by simp [starts, hr, ho, ha]⟩
    · exact ⟨hb, rfl, q, ht, by simp [starts, hr, ho, ha]⟩
  · rw [he] at h ⊢
    obtain ⟨hb, rfl | ⟨k, rfl, ha⟩ | ⟨k, rfl, ha⟩⟩ := cmdValid_writeReg h
    · exact ⟨hb, dmcontrol_writeReg (by simp) _, q, ht, by simp [starts, hr, ho]⟩
    · exact ⟨hb, dmcontrol_writeReg (by simp) _, q, ht, by simp [starts, hr, ho, ha]⟩
    · exact ⟨hb, dmcontrol_writeReg (by simp) _, q, ht, by simp [starts, hr, ho, ha]⟩

/-- A request writes the data registers unless a command runs. -/
theorem data_updReq (h : i.cmdbusy = false) : (updReq s i).data =
    ((taken s i).bind dataWrite).elim s.data fun p => putData s.data p.1 p.2 := by
  obtain ⟨he, hd⟩ | ⟨q, r, ht, hr, ⟨ho, he⟩ | ⟨ho, he⟩⟩ := updReq_cases (s := s) (i := i)
  · rw [he, hd]
    rfl
  · have hd : dataWrite q = none := by
      rw [dataWrite, hr, ho]
      cases r <;> rfl
    rw [he, (readReg_keeps r _).2.2, ht, Option.bind_some, hd]
    rfl
  · rw [ht, he, Option.bind_some, dataWrite, hr]
    cases r
    case data k => simp [writeReg, h, ho, putData]
    all_goals exact data_writeReg h (by simp) _

theorem dmcontrol_updReq : (updReq s i).dmcontrol = s.dmcontrol ∨ ∃ q, taken s i = some q ∧ q.op = .write ∧
    DmReg.ofAddr q.addr = some .dmControl ∧ (updReq s i).dmcontrol = .ofBits q.data := by
  obtain ⟨he, -⟩ | ⟨q, r, ht, hr, ⟨ho, he⟩ | ⟨ho, he⟩⟩ := updReq_cases (s := s) (i := i) <;> rw [he]
  · exact .inl rfl
  · exact .inl (readReg_keeps r _).1
  · by_cases hd : r = .dmControl
    · subst hd
      exact .inr ⟨q, ht, ho, hr, rfl⟩
    · exact .inl (dmcontrol_writeReg hd _)

theorem dmiReq_of_taken {q : DmiReq} (h : taken s i = some q) : i.dmiReq = some q := by
  unfold taken at h
  split_ifs at h
  exact h

/-! ### The registers after an edge -/

theorem command_next (h : s.dmcontrol.dmactive = true) : (next s i).command = (updReq s i).command := by
  simp [next, upd, h]

theorem cmdValid_next (h : s.dmcontrol.dmactive = true) : (next s i).cmdValid = (updReq s i).cmdValid := by
  simp [next, upd, h]

theorem data_next (h : s.dmcontrol.dmactive = true) : (next s i).data = i.data.getD (updReq s i).data := by
  simp [next, upd, h]

theorem dmcontrol_next (h : s.dmcontrol.dmactive = true) : (next s i).dmcontrol =
    { (updReq s i).dmcontrol with
      resumereq := if s.dmcontrol.resumereq && i.resumeack then false else (updReq s i).dmcontrol.resumereq } := by
  simp [next, upd, h]

/-- The module is active, its hart is selected and not reset. -/
structure Single (c : DmControl) : Prop where
  dmactive : c.dmactive = true
  hartsel : c.hartsel = 0
  ndmreset : c.ndmreset = false

theorem Single.next (h : Single s.dmcontrol) (hq : ∀ q, i.dmiReq = some q → q.op = .write →
    DmReg.ofAddr q.addr = some .dmControl → Single (.ofBits q.data)) : Single (next s i).dmcontrol := by
  have hu : Single (updReq s i).dmcontrol := by
    obtain he | ⟨q, ht, ho, hr, he⟩ := dmcontrol_updReq (s := s) (i := i) <;> rw [he]
    · exact h
    · exact hq q (dmiReq_of_taken ht) ho hr
  rw [dmcontrol_next h.dmactive]
  exact ⟨hu.dmactive, hu.hartsel, hu.ndmreset⟩

end DmCsrs

end Dm
end Ariane

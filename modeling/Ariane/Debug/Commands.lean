/-
# Commands to a halted hart

To the debugger a hart is the registers of its program, and an abstract command is one step on them
and on the data registers (`Abs.command`). Below, a command is a program that the hart runs in the
debug module, found by way of flags that the hart polls, with `s0` and `a0` put aside; it is told to
the module's state machine by stores of the hart, and meanwhile the debugger goes on sending requests.

`commands_run`: along every run in which the debugger keeps to `Polite`, whenever no command is
running the data registers are what the commands so far, taken one after the other as they were
started, make of them; and whenever the hart runs its program, so are its registers. A hart that the
module takes for halted is in debug mode, and a hart in debug mode fetches from the module alone.
`module_rests`: once a command or a resumption has been started, the hart runs 46 words at most until
the module is at rest again.
-/
import Ariane.Debug.Park

namespace Ariane
namespace Dm

open Isa Lib

variable {σ : Type}

/-! ### The hart of the debugger -/

/-- The registers of the program, and the data registers. -/
structure Abs (σ : Type) where
  user : User σ
  data : BitVec 64

namespace Abs

variable (F : Csrs σ) (b : BitVec 52) (a : Abs σ)

def command (c : Command) : Abs σ :=
  ⟨(c.meaning F b a.user a.data).2.1, (c.meaning F b a.user a.data).2.2⟩

/-- A request of the debugger, while no command runs. -/
def request (q : Option DmiReq) : Abs σ :=
  { a with data := (q.bind DmCsrs.dataWrite).elim a.data fun p => DmCsrs.putData a.data p.1 p.2 }

end Abs

namespace Sys

variable (F : Csrs σ) (b : BitVec 52) (s : Sys σ) (e : Ev σ)

/-- A command is started. -/
def starts : Bool := s.mem.state == .idle && Mem.stateD s.mem (memIn F b s e) == .go

/-- The registers with which the hart enters debug mode. -/
def entering : Option (User σ) :=
  match s.core.halted, e.core with
  | false, .halt u => some u
  | _, _ => none

/-- The step of the debugger's hart. -/
def abs (a : Abs σ) : Abs σ :=
  let a := (entering s e).elim a fun u => { a with user := u }
  let a := if Mem.cmdbusyO s.mem then a else a.request (DmCsrs.taken s.csrs (csrsInputs F b s e))
  if starts F b s e then a.command F b s.csrs.command else a

end Sys

/-- The system, and the hart of the debugger. -/
structure Tracked (σ : Type) where
  sys : Sys σ
  abs : Abs σ

/-- The debugger keeps to one active hart; it sends nothing in the cycle after a request that starts a
command, starts none while it asks the hart to resume, and has none run the program buffer. -/
structure Polite (s : Sys σ) (e : Ev σ) : Prop where
  single : ∀ q, e.dmi = some q → q.op = .write → DmReg.ofAddr q.addr = some .dmControl →
    DmCsrs.Single (.ofBits q.data)
  alone : s.csrs.cmdValid = true → e.dmi = none
  resume : s.csrs.dmcontrol.resumereq = true → ∀ q, e.dmi = some q → DmCsrs.starts s.csrs q = false
  plain : s.csrs.cmdValid = true → s.csrs.command.acAr.postexec = false

/-- The module is out of reset and active, and the hart runs its program. -/
structure Start (t : Tracked σ) : Prop where
  mem : t.sys.mem = Mem.reset
  single : DmCsrs.Single t.sys.csrs.dmcontrol
  cmdValid : t.sys.csrs.cmdValid = false
  halted : t.sys.core.halted = false
  abs : t.abs = ⟨user t.sys.core.hart, t.sys.csrs.data⟩

def machine (F : Csrs σ) (b : BitVec 52) : Machine (Tracked σ) (Ev σ) where
  init := Start
  next t e := ⟨t.sys.next F b e, t.sys.abs F b e t.abs⟩

/-! ### Where a hart in debug mode is -/

/-- Where it uses the bus or leaves the ROM: with the report that it has halted (when it comes, when it
has run a command, and while it waits), at the flags, and so on. -/
inductive Stop
  | enter | back | loop | flags1 | flags2 | going | whereTo | exception | reported | resuming | leave
deriving DecidableEq

namespace Stop

def phase : Stop → Mem.Phase
  | enter | leave => .out
  | loop | flags1 | flags2 => .parked
  | going => .going
  | resuming => .resuming
  | back | whereTo | exception | reported => .busy

def At (b : BitVec 52) (U : User σ) : Stop → Hart (Scratch σ) → Prop
  | enter | back | loop => AtStore b 0x828 U
  | flags1 => AtFlags b 0x830 U
  | flags2 => AtFlags b 0x844 U
  | going => AtGoing b U
  | whereTo => AtUser b Dm.whereTo U
  | exception => AtException b U
  | reported => AtUser b 0x86c U
  | resuming => AtStore b 0x884 U
  | leave => AtUser b 0x890 U

/-- A command has been started that the hart has not begun. -/
def due (k : Stop) (m : MemRegs) : Bool := k == whereTo || m.state == .go

/-- How many words at most lie before the stop. -/
def lead : Stop → ℕ
  | enter | back => 8
  | exception => 5
  | loop | flags2 | resuming => 4
  | whereTo => 3
  | going | leave => 2
  | flags1 | reported => 1

/-- How many words at most the hart runs from the stop on until the module is at rest. -/
def left (st : MemFsm) : Stop → ℕ
  | enter | leave | back => 1
  | reported => 10
  | exception => 12
  | whereTo => 28
  | going => 32
  | resuming => 4
  | flags1 => if st = .resume then 14 else 35
  | loop => if st = .resume then 16 else 37
  | flags2 => if st = .resume then 9 else 42

theorem left_le {k : Stop} {n : ℕ} (h : n ≤ k.lead) (st : MemFsm) : n + k.left st ≤ 46 := by
  cases k <;> simp only [lead, left] at h ⊢ <;> (try split_ifs) <;> omega

end Stop

/-- The stop is `n` words ahead, and with it at most `r` words until the module is at rest. -/
structure Near (st : MemFsm) (k : Stop) (n r : ℕ) : Prop where
  lead : n ≤ k.lead
  left : st ≠ .idle → n + k.left st ≤ r

section

variable (F : Csrs σ) (b : BitVec 52)

/-- The debugger's hart is the registers `u` and the data, after the command that is due. -/
structure Owed (due : Bool) (c : CsrsRegs) (a : Abs σ) (u : User σ) : Prop where
  abs : a = if due then (⟨u, c.data⟩ : Abs σ).command F b c.command else ⟨u, c.data⟩
  plain : due = true → c.command.acAr.postexec = false

/-- The program of a command ends, and leaves what it should. -/
structure Ends (a : Abs σ) (o : Outcome σ) : Prop where
  stop : o.stop = .ebreak ∨ o.stop = .exception
  abs : a = ⟨user o.hart, o.data⟩

/-- Where the hart is, with what it owes: at its own program, on the way to a stop, or in the program of
a command. A module that is not at rest will be after `r` words of the hart. -/
inductive Loc (m : MemRegs) (c : CsrsRegs) (a : Abs σ) (r : ℕ) : Bool → Hart (Scratch σ) → Prop
  | away {h : Hart (Scratch σ)} (hp : Mem.Phase.out.Holds m) (ha : a = ⟨user h, c.data⟩) : Loc m c a r false h
  | rom {h : Hart (Scratch σ)} {k : Stop} {n : ℕ} {u : User σ} (hq : Quiet F b (k.At b u) n h)
      (hp : k.phase.Holds m) (ho : Owed F b (k.due m) c a u)
      (hn : Near m.state k n r) : Loc m c a r true h
  | program {h : Hart (Scratch σ)} {j : ℕ} (hpc : h.pc = page b (Mem.cmdWordAddr j))
      (hp : Mem.Phase.busy.Holds m)
      (he : Ends a (run F b ((abstractCmdRom c.command).words.drop j) h c.data))
      (hn : 27 - j ≤ r) : Loc m c a r true h

/-- The word at an offset of the page. -/
def wordAt (cmd : Command) (off : BitVec 12) : BitVec 32 :=
  if haltAddress ≤ off then romWord off
  else if off = whereTo then encode (.jal 0 0x1c)
  else (abstractCmdRom cmd).words.getD ((off - Mem.cmdWordAddr 0).toNat / 4) 0

structure Inv (t : Tracked σ) : Prop where
  single : DmCsrs.Single t.sys.csrs.dmcontrol
  starting : t.sys.csrs.cmdValid = true →
    t.sys.mem.state = .idle ∧ t.sys.csrs.dmcontrol.resumereq = false
  loc : Loc F b t.sys.mem t.sys.csrs t.abs 46 t.sys.core.halted t.sys.core.hart
  ir : t.sys.core.halted = true → ∀ w off, t.sys.core.ir = some w → t.sys.core.hart.pc = page b off →
    w = wordAt t.sys.csrs.command off

end

/-! ### The debugger's side of a cycle -/

section Cycle

variable {F : Csrs σ} {b : BitVec 52} {s : Sys σ} {e : Ev σ} {a : Abs σ} {u : User σ}

theorem stateD_eq_go {m : MemRegs} {i : MemIn} (h0 : i.ctrl.hartsel = 0) (h : Mem.stateD m i = .go) :
    m.state = .idle ∨ m.state = .go := by
  cases hm : m.state with
  | idle => exact .inl rfl
  | go => exact .inr rfl
  | resume =>
    rw [Mem.stateD_resume h0 hm] at h
    split_ifs at h
  | cmdExecuting =>
    rw [Mem.stateD_busy h0 hm] at h
    split_ifs at h

/-- While a command runs, the hart of the debugger stands still. -/
theorem abs_of_busy (hb : s.mem.state ≠ .idle) (he : s.entering e = none) : s.abs F b e a = a := by
  have h1 : Mem.cmdbusyO s.mem = true := by simpa [Mem.cmdbusyO] using hb
  have h2 : s.starts F b e = false := by simp [Sys.starts, hb]
  simp [Sys.abs, he, h1, h2]

theorem csrs_of_busy (hs : DmCsrs.Single s.csrs.dmcontrol) (hb : s.mem.state ≠ .idle) :
    (s.next F b e).csrs.command = s.csrs.command ∧
      (s.next F b e).csrs.data = (Mem.dataO (s.memIn F b e)).getD s.csrs.data := by
  have h1 : (s.csrsInputs F b e).cmdbusy = true := by
    show Mem.cmdbusyO s.mem = true
    simpa [Mem.cmdbusyO] using hb
  obtain ⟨hc, hd⟩ := DmCsrs.updReq_of_busy (s := s.csrs) h1
  refine ⟨(DmCsrs.command_next hs.dmactive).trans hc, (DmCsrs.data_next hs.dmactive).trans ?_⟩
  rw [hd]
  rfl

/-- The data of the debugger's hart, where no command starts. -/
theorem abs_of_not_starts (hs : DmCsrs.Single s.csrs.dmcontrol) (hd : Mem.dataO (s.memIn F b e) = none)
    (hst : s.starts F b e = false) (ha : a.data = s.csrs.data) :
    s.abs F b e a = ⟨(s.entering e).getD a.user, (s.next F b e).csrs.data⟩ := by
  by_cases hb : s.mem.state = .idle
  · have h1 : Mem.cmdbusyO s.mem = false := by simp [Mem.cmdbusyO, hb]
    have hdata : (s.next F b e).csrs.data = _ := (DmCsrs.data_next hs.dmactive).trans
      (congrArg (Option.getD · _) hd)
    rw [hdata, Option.getD_none, DmCsrs.data_updReq (show (s.csrsInputs F b e).cmdbusy = false from h1)]
    cases he : s.entering e <;> simp [Sys.abs, he, h1, hst, Abs.request, ha]
  · have h1 : Mem.cmdbusyO s.mem = true := by simpa [Mem.cmdbusyO] using hb
    rw [(csrs_of_busy hs hb).2, hd, Option.getD_none, ← ha]
    cases he : s.entering e <;> simp [Sys.abs, he, h1, hst]

/-- What is owed while a command runs. -/
theorem Owed.of_busy {due : Bool} (h : Owed F b due s.csrs a u) (hs : DmCsrs.Single s.csrs.dmcontrol)
    (hb : s.mem.state ≠ .idle) (hd : Mem.dataO (s.memIn F b e) = none) (he : s.entering e = none) :
    Owed F b due (s.next F b e).csrs (s.abs F b e a) u := by
  obtain ⟨hc, hdata⟩ := csrs_of_busy (F := F) (b := b) (e := e) hs hb
  rw [hd, Option.getD_none] at hdata
  rw [abs_of_busy hb he]
  exact ⟨by rw [hc, hdata]; exact h.abs, by rw [hc]; exact h.plain⟩

/-- What is owed after a cycle at rest: a command may have started. -/
theorem Owed.of_idle (h : Owed F b false s.csrs a u) (hs : DmCsrs.Single s.csrs.dmcontrol)
    (hp : Polite s e) (hi : s.mem.state = .idle) (hd : Mem.dataO (s.memIn F b e) = none)
    (he : s.entering e = none) :
    Owed F b ((s.next F b e).mem.state == .go) (s.next F b e).csrs (s.abs F b e a) u := by
  have hstate : (s.next F b e).mem.state = Mem.stateD s.mem (s.memIn F b e) := rfl
  have ha : a = ⟨u, s.csrs.data⟩ := h.abs
  rw [hstate]
  cases hst : Mem.stateD s.mem (s.memIn F b e) == .go with
  | false =>
    have hns : s.starts F b e = false := by rw [Sys.starts, hst, Bool.and_false]
    refine ⟨?_, fun h => by cases h⟩
    rw [abs_of_not_starts hs hd hns (by rw [ha]), he, ha]
    rfl
  | true =>
    -- the debugger keeps quiet while the command is taken up
    have hv : s.csrs.cmdValid = true := by
      have hgo := eq_of_beq hst
      rw [Mem.stateD_idle hi] at hgo
      split_ifs at hgo with h1 h2
      exact (Bool.and_eq_true _ _ ▸ h2).1
    have hnone := hp.alone hv
    have hu : DmCsrs.updReq s.csrs (s.csrsInputs F b e) = .defaults s.csrs (s.csrsInputs F b e) :=
      DmCsrs.updReq_of_none hnone
    have hc : (s.next F b e).csrs.command = s.csrs.command := by
      show (DmCsrs.next _ _).command = _
      rw [DmCsrs.command_next hs.dmactive, hu]
      rfl
    have hdata : (s.next F b e).csrs.data = s.csrs.data := by
      show (DmCsrs.next _ _).data = _
      rw [DmCsrs.data_next hs.dmactive, hu]
      exact congrArg (Option.getD · s.csrs.data) hd
    have hstarts : s.starts F b e = true := by simp [Sys.starts, hi, hst]
    have hbusy : Mem.cmdbusyO s.mem = false := by simp [Mem.cmdbusyO, hi]
    have ht : DmCsrs.taken s.csrs (s.csrsInputs F b e) = none := by
      rw [DmCsrs.taken, show (s.csrsInputs F b e).dmiReq = none from hnone, ite_self]
    refine ⟨?_, fun _ => by rw [hc]; exact hp.plain hv⟩
    rw [hc, hdata, Sys.abs, he, hstarts, hbusy, ht, ha]
    rfl

/-- What is owed on the way to the same stop, or to another that follows without a command begun. -/
theorem Owed.next {k k' : Stop} (h : Owed F b (k.due s.mem) s.csrs a u) (hs : DmCsrs.Single s.csrs.dmcontrol)
    (hp : Polite s e) (hk : k' = .whereTo ↔ k = .whereTo) (hb : k = .whereTo → s.mem.state ≠ .idle)
    (hg : Mem.going (s.memIn F b e) = false) (hd : Mem.dataO (s.memIn F b e) = none)
    (he : s.entering e = none) :
    Owed F b (k'.due (s.next F b e).mem) (s.next F b e).csrs (s.abs F b e a) u := by
  have hstate : (s.next F b e).mem.state = Mem.stateD s.mem (s.memIn F b e) := rfl
  by_cases hw : k = .whereTo
  · have hdue : k.due s.mem = true := by simp [Stop.due, hw]
    have hdue' : k'.due (s.next F b e).mem = true := by simp [Stop.due, hk.2 hw]
    rw [hdue] at h
    rw [hdue']
    exact h.of_busy hs (hb hw) hd he
  · have hkw : (k == .whereTo) = false := beq_eq_false_iff_ne.2 hw
    have hkw' : (k' == .whereTo) = false := beq_eq_false_iff_ne.2 fun h => hw (hk.1 h)
    rw [Stop.due, hkw, Bool.false_or] at h
    rw [Stop.due, hkw', Bool.false_or]
    by_cases hi : s.mem.state = .idle
    · rw [hi] at h
      exact h.of_idle hs hp hi hd he
    · have hdue : ((s.next F b e).mem.state == .go) = (s.mem.state == .go) := by
        by_cases hgo : s.mem.state = .go
        · rw [hstate, Mem.stateD_go hgo, hg, hgo]
          rfl
        · have hne : Mem.stateD s.mem (s.memIn F b e) ≠ .go := fun h =>
            (stateD_eq_go hs.hartsel h).elim hi hgo
          rw [hstate, beq_eq_false_iff_ne.2 hne, beq_eq_false_iff_ne.2 hgo]
      rw [hdue]
      exact h.of_busy hs hi hd he

/-- The state that the hart's words do not move. -/
theorem state_kept (hs : DmCsrs.Single s.csrs.dmcontrol) (hg : Mem.going (s.memIn F b e) = false)
    (h : s.mem.state ≠ .idle) (h' : (s.next F b e).mem.state ≠ .idle) :
    (s.next F b e).mem.state = s.mem.state := by
  have hstate : (s.next F b e).mem.state = Mem.stateD s.mem (s.memIn F b e) := rfl
  rw [hstate] at h' ⊢
  cases hm : s.mem.state with
  | idle => exact absurd hm h
  | go => rw [Mem.stateD_go hm, hg, if_neg Bool.false_ne_true]
  | resume =>
    rw [Mem.stateD_resume hs.hartsel hm] at h' ⊢
    split_ifs at h' ⊢
    · exact absurd rfl h'
    · rfl
  | cmdExecuting =>
    rw [Mem.stateD_busy hs.hartsel hm] at h' ⊢
    split_ifs at h' ⊢
    · exact absurd rfl h'
    · rfl

/-- What is left of `r` words after `d` of them; a command or a resumption that starts has all. -/
def Sys.after (s : Sys σ) (r d : ℕ) : ℕ := if s.mem.state = .idle then 46 else r - d

theorem Sys.after_sub (s : Sys σ) (r : ℕ) : s.after (r - 1) 0 = s.after r 1 := by
  simp [Sys.after]

theorem Near.after {k : Stop} {n r d : ℕ} (hn : n ≤ k.lead)
    (h : s.mem.state ≠ .idle → (s.next F b e).mem.state ≠ .idle → n + k.left (s.next F b e).mem.state ≤ r - d) :
    Near (s.next F b e).mem.state k n (s.after r d) := by
  refine ⟨hn, fun h' => ?_⟩
  unfold Sys.after
  split_ifs with hi
  · exact Stop.left_le hn _
  · exact h hi h'

/-- The next stop, where the state is kept. -/
theorem Near.kept {k k' : Stop} {n n' r d : ℕ} (h : Near s.mem.state k n r) (hs : DmCsrs.Single s.csrs.dmcontrol)
    (hg : Mem.going (s.memIn F b e) = false) (hn : n' ≤ k'.lead)
    (hd : s.mem.state ≠ .idle → n' + k'.left s.mem.state + d ≤ n + k.left s.mem.state) :
    Near (s.next F b e).mem.state k' n' (s.after r d) := by
  refine .after hn fun hi hi' => ?_
  have h1 := h.left hi
  have h2 := hd hi
  rw [state_kept hs hg hi hi']
  omega

/-- A cycle without a write of the hart leaves it where it is. -/
theorem Loc.still {r : ℕ} {hd : Bool} {h : Hart (Scratch σ)} (hl : Loc F b s.mem s.csrs a r hd h)
    (hs : DmCsrs.Single s.csrs.dmcontrol) (hp : Polite s e) (hq : Mem.Silent (s.memIn F b e))
    (he : s.entering e = none) :
    Loc F b (s.next F b e).mem (s.next F b e).csrs (s.abs F b e a) (s.after r 0) hd h := by
  have hh : Mem.haltedPulse (s.memIn F b e) = false := by rw [Mem.haltedPulse, hq.writes, Bool.false_and]
  have hr : Mem.resumingPulse (s.memIn F b e) = false := by rw [Mem.resumingPulse, hq.writes, Bool.false_and]
  have hg : Mem.going (s.memIn F b e) = false := hq.writes _
  cases hl with
  | away ho ha =>
    refine .away (ho.next hs.hartsel hh hg hr) ?_
    have hidle : Mem.stateD s.mem (s.memIn F b e) = .idle := Mem.idle_of_out ho hs.hartsel
    have hns : s.starts F b e = false := by simp [Sys.starts, hidle]
    rw [abs_of_not_starts hs hq.dataO hns (by rw [ha]), he, ha]
    rfl
  | @rom _ k n u hquiet hph ho hn =>
    refine .rom hquiet (hph.next hs.hartsel hh hg hr) (ho.next hs hp Iff.rfl ?_ hg hq.dataO he)
      (hn.kept hs hg hn.lead fun _ => le_rfl)
    rintro rfl
    rw [hph.2]
    simp
  | program hpc hph hends hn =>
    obtain ⟨hc, hdata⟩ := csrs_of_busy (F := F) (b := b) (e := e) hs (by rw [hph.2]; simp)
    rw [hq.dataO, Option.getD_none] at hdata
    refine .program hpc (hph.next hs.hartsel hh hg hr) ?_ (by simpa [Sys.after, hph.2] using hn)
    rw [abs_of_busy (by rw [hph.2]; simp) he, hc, hdata]
    exact hends

/-! ### Fetches -/

theorem Stop.At.pc {k : Stop} {h : Hart (Scratch σ)} (hk : k.At b u h) :
    ∃ off, h.pc = page b off ∧ (haltAddress ≤ off ∨ k = .whereTo ∧ off = Dm.whereTo) := by
  cases k
  case enter | back | loop => exact ⟨0x828, AtStore.pc hk, .inl (by decide)⟩
  case flags1 => exact ⟨0x830, AtFlags.pc hk, .inl (by decide)⟩
  case flags2 => exact ⟨0x844, AtFlags.pc hk, .inl (by decide)⟩
  case going => exact ⟨0x870, AtGoing.pc hk, .inl (by decide)⟩
  case whereTo => exact ⟨Dm.whereTo, AtUser.pc hk, .inr ⟨rfl, rfl⟩⟩
  case exception => exact ⟨0x864, AtException.pc hk, .inl (by decide)⟩
  case reported => exact ⟨0x86c, AtUser.pc hk, .inl (by decide)⟩
  case resuming => exact ⟨0x884, AtStore.pc hk, .inl (by decide)⟩
  case leave => exact ⟨0x890, AtUser.pc hk, .inl (by decide)⟩

theorem Quiet.pc {k : Stop} {n : ℕ} {h : Hart (Scratch σ)} (hq : Quiet F b (k.At b u) n h) :
    ∃ off, h.pc = page b off ∧ (haltAddress ≤ off ∨ k = .whereTo ∧ off = Dm.whereTo) := by
  cases hq with
  | here hP => exact hP.pc
  | step hpc hoff => exact ⟨_, hpc, .inl hoff⟩

theorem page_off (b : BitVec 52) (off : BitVec 12) : (page b off).extractLsb' 0 12 = off :=
  BitVec.extractLsb'_append_eq_right

theorem page_base (b : BitVec 52) (off : BitVec 12) : (page b off).extractLsb' 12 52 = b :=
  BitVec.extractLsb'_append_eq_left

theorem getLsbD_page (b : BitVec 52) (off : BitVec 12) : (page b off).getLsbD 2 = off.getLsbD 2 := by
  rw [page, BitVec.getLsbD_append]
  rfl

theorem req_of_access {x : Access} {off : BitVec 12} (h : s.access F e = some x) (ha : x.addr = page b off) :
    (s.memIn F b e).req =
      some ⟨x.store.isSome, page b off, if x.store.isSome then x.wdata else e.readWdata, x.be⟩ := by
  have hon : Sys.onPage b x = true := by simp [Sys.onPage, ha, page_base]
  simp [Sys.memIn, Sys.busReq, h, Option.filter, hon, ha]

/-- The request of a fetch or a load. -/
theorem exists_read {x : Access} {off : BitVec 12} (h : s.access F e = some x) (hx : x.store = none)
    (ha : x.addr = page b off) : ∃ q, (s.memIn F b e).req = some q ∧ q.we = false ∧ q.off = off :=
  ⟨_, req_of_access h ha, by simp [hx], page_off b off⟩

/-- The request of a store. -/
theorem exists_write {x : Access} {off : BitVec 12} (h : s.access F e = some x) (hx : x.store.isSome = true)
    (ha : x.addr = page b off) :
    ∃ q, (s.memIn F b e).req = some q ∧ q.we = true ∧ q.off = off ∧ q.wdata = x.wdata ∧ q.be = x.be :=
  ⟨_, req_of_access h ha, hx, page_off b off, by simp [hx], rfl⟩

/-- The program has ten words. -/
theorem length_words (p : AbstractCmd) : p.words.length = 10 := rfl

theorem half_twoWords (ws : List (BitVec 32)) (b : BitVec 52) : ∀ j < 10,
    Sys.half (page b (Mem.cmdWordAddr j)) (Mem.twoWords ws (j / 2)) = ws.getD j 0 := by
  intro j hj
  rw [Sys.half, getLsbD_page]
  have hbit : ∀ j < 10, (Mem.cmdWordAddr j).getLsbD 2 = decide (j % 2 = 1) := by decide
  rw [hbit j hj, Mem.twoWords]
  rcases Nat.mod_two_eq_zero_or_one j with h | h
  · rw [h, if_neg (by simp), BitVec.extractLsb'_append_eq_right, show 2 * (j / 2) = j by omega]
  · rw [h, if_pos (by simp), BitVec.extractLsb'_append_eq_left, show 2 * (j / 2) + 1 = j by omega]

theorem wordAt_cmdWordAddr (cmd : Command) : ∀ j < 10,
    wordAt cmd (Mem.cmdWordAddr j) = (abstractCmdRom cmd).words.getD j 0 := by
  intro j hj
  have hlt : ∀ j < 10, ¬haltAddress ≤ Mem.cmdWordAddr j ∧ Mem.cmdWordAddr j ≠ whereTo ∧
      (Mem.cmdWordAddr j - Mem.cmdWordAddr 0).toNat / 4 = j := by decide
  obtain ⟨h1, h2, h3⟩ := hlt j hj
  rw [wordAt, if_neg h1, if_neg h2, h3]

/-- The jump at `WhereTo` leads to the program of the command. -/
theorem whereToWord_eq {i : MemIn} (h : i.ctrl.cmd.acAr.postexec = false) :
    Mem.whereToWord i = encode (.jal 0 0x1c) := by
  rw [Mem.whereToWord, if_neg (by simp [h])]
  decide

/-- What is fetched is the word at the address. -/
theorem half_fetched {off : BitVec 12} (hh : s.core.halted = true) (hev : e.core = .fetch)
    (hpc : s.core.hart.pc = page b off)
    (hoff : haltAddress ≤ off ∨
      (off = whereTo ∧ s.mem.state ≠ .idle ∧ s.csrs.command.acAr.postexec = false) ∨
      ∃ j < 10, off = Mem.cmdWordAddr j) :
    Sys.half s.core.hart.pc (Mem.rdataO (s.nextMem F b e)) = wordAt s.csrs.command off := by
  have hacc : s.access F e = some ⟨s.core.hart.pc, 3, none⟩ := by simp [Sys.access, hh, hev]
  obtain ⟨q, hq, hwe, ho⟩ := exists_read (b := b) hacc rfl hpc
  rw [hpc, Sys.nextMem]
  obtain hrom | ⟨rfl, hst, hpost⟩ | ⟨j, hj, rfl⟩ := hoff
  · rw [Mem.rdataO_rom hq (by rwa [ho]), ho, Sys.half, getLsbD_page, wordAt, if_pos hrom, romWord]
  · have hw : ∀ w : BitVec 32, Sys.half (page b whereTo) (w.setWidth 64) = w := by
      intro w
      rw [Sys.half, getLsbD_page, if_neg (by decide),
        BitVec.extractLsb'_setWidth_of_le (show 0 + 32 ≤ 64 by decide), BitVec.extractLsb'_eq_self]
    have hjal := whereToWord_eq (i := s.memIn F b e) hpost
    rw [Mem.rdataO_of_readD hq hwe (by rw [ho]; decide) (Mem.readD_whereTo ho hst), hw, hjal, wordAt,
      if_neg (by decide), if_pos rfl]
  · have hlt : ∀ j < 10, Mem.cmdWordAddr j < haltAddress := by decide
    rw [Mem.rdataO_of_readD hq hwe (by rw [ho]; exact hlt j hj) (Mem.readD_cmdWord hj ho),
      half_twoWords _ _ _ hj, wordAt_cmdWordAddr _ _ hj]
    rfl

/-! ### A word is run -/

/-- The hart runs the word `w`. -/
structure Runs (s : Sys σ) (e : Ev σ) (w : BitVec 32) : Prop where
  halted : s.core.halted = true
  exec : e.core = .exec
  ir : s.core.ir = some w

namespace Runs

variable {w : BitVec 32} {h' : Hart (Scratch σ)} {x : Access} {k : BitVec 64 → Hart (Scratch σ)}

theorem entering (hr : Runs s e w) : s.entering e = none := by simp [Sys.entering, hr.halted]

theorem core (hr : Runs s e w) : (s.next F b e).core =
    Sys.ran F b e s.core.hart w (Mem.rdataO (s.nextMem F b e)) := by
  simp [Sys.next, Sys.nextCore, hr.halted, hr.exec, hr.ir]

theorem access (hr : Runs s e w) (hst : s.core.hart.step F.scratch w = .mem x k) :
    s.access F e = some x := by
  simp [Sys.access, hr.halted, hr.exec, hr.ir, hst]

theorem silent (hr : Runs s e w) (hst : ∀ x k, s.core.hart.step F.scratch w ≠ .mem x k) :
    Mem.Silent (s.memIn F b e) := by
  have hacc : s.access F e = none := by
    cases hx : s.core.hart.step F.scratch w with
    | mem a k => exact absurd hx (hst a k)
    | _ => simp [Sys.access, hr.halted, hr.exec, hr.ir, hx]
  have hreq : (s.memIn F b e).req = none := by simp [Sys.memIn, Sys.busReq, hacc]
  intro q hq
  rw [hreq] at hq
  cases hq

theorem core_mem (hr : Runs s e w) (hst : s.core.hart.step F.scratch w = .mem x k) {off : BitVec 12}
    (ha : x.addr = page b off) :
    (s.next F b e).core = ⟨true, k (x.shifted (Mem.rdataO (s.nextMem F b e))), none⟩ := by
  have hon : Sys.onPage b x = true := by simp [Sys.onPage, ha, page_base]
  rw [hr.core, Sys.ran, hst]
  simp [hon]

/-- A zero is stored to the module. -/
theorem writesTo (hr : Runs s e w) (hst : s.core.hart.step F.scratch w = .mem x k) {off : BitVec 12}
    (ha : x.addr = page b off) (hx : x.store = some 0) :
    Mem.WritesTo (s.memIn F b e) off ∧ Mem.hartSel (s.memIn F b e) = true := by
  obtain ⟨q, hq, hwe, ho, hwd, -⟩ := exists_write (hr.access hst) (by rw [hx]; rfl) ha
  refine ⟨⟨q, hq, hwe, ho⟩, ?_⟩
  have h0 : x.wdata = 0 := by
    rw [Access.wdata, hx]
    simp [Lsu.dataAlign, BitVec.rotateLeft, BitVec.rotateLeftAux]
  simp [Mem.hartSel, hq, hwd, h0]

end Runs

variable (F b s e a) in
/-- Where the hart is after the cycle. -/
def LocNext (r : ℕ) : Prop :=
  Loc F b (s.next F b e).mem (s.next F b e).csrs (s.abs F b e a) r (s.next F b e).core.halted
    (s.next F b e).core.hart

variable {r : ℕ}

/-- A word of the ROM that does without the bus. -/
theorem Loc.quiet {k : Stop} {n : ℕ} {w : BitVec 32} {h' : Hart (Scratch σ)} (hr : Runs s e w)
    (hs : DmCsrs.Single s.csrs.dmcontrol) (hp : Polite s e) (hph : k.phase.Holds s.mem)
    (ho : Owed F b (k.due s.mem) s.csrs a u) (hst : s.core.hart.step F.scratch w = .done h')
    (hq : Quiet F b (k.At b u) n h') (hn : Near s.mem.state k (n + 1) r) : LocNext F b s e a (s.after r 1) := by
  have hl : Loc F b s.mem s.csrs a (r - 1) true h' := by
    refine .rom hq hph ho ⟨by have := hn.lead; omega, fun hi => ?_⟩
    have := hn.left hi
    omega
  rw [LocNext, hr.core, Sys.ran, hst, ← s.after_sub r]
  exact hl.still hs hp (hr.silent fun x k h => by rw [hst] at h; cases h) hr.entering

/-! The words at the stops. -/

theorem step_sw (h : Hart (Scratch σ)) (r : BitVec 5) (imm : BitVec 12) :
    h.step F.scratch (encode (.store .sw a0 r imm)) =
      .mem ⟨h.gpr.read a0 + imm.signExtend 64, 2, some (h.gpr.read r)⟩ fun _ => { h with pc := h.pc + 4 } := by
  rw [Hart.step_encode F.scratch h decode_store]
  rfl

theorem step_lbu (h : Hart (Scratch σ)) (imm : BitVec 12) :
    h.step F.scratch (encode (.load .lbu s0 s0 imm)) =
      .mem ⟨h.gpr.read s0 + imm.signExtend 64, 0, none⟩ fun x =>
        { h with pc := h.pc + 4, gpr := h.gpr.set s0 (LoadOp.lbu.eval x) } := by
  rw [Hart.step_encode F.scratch h decode_load]
  rfl

theorem Mem.WritesTo.dataO {i : MemIn} {x : BitVec 12} (h : Mem.WritesTo i x) (hx : ¬dataAddr ≤ x) :
    Mem.dataO i = none := by
  obtain ⟨q, hq, -, rfl⟩ := h
  simp [Mem.dataO, hq, hx]

theorem page_next {x y : BitVec 12} (hx : x.toNat + 4 = y.toNat) : page b x + 4 = page b y := by
  apply page_add
  rw [← hx]
  rfl

/-- The hart reports that it has halted. -/
theorem Loc.report {k : Stop} (hk : k = .enter ∨ k = .back ∨ k = .loop) (hr : Runs s e (romWord 0x828))
    (hs : DmCsrs.Single s.csrs.dmcontrol) (hp : Polite s e) (hph : k.phase.Holds s.mem)
    (ho : Owed F b (k.due s.mem) s.csrs a u) (hn : Near s.mem.state k 0 r)
    (hat : AtStore b 0x828 u s.core.hart) : LocNext F b s e a (s.after r 1) := by
  have hst := step_sw (F := F) s.core.hart s0 0x100
  rw [hat.a0, hat.s0, page_add (y := 0x100) (by decide),
    show encode (.store .sw a0 s0 0x100) = romWord 0x828 by decide] at hst
  obtain ⟨hw, hsel⟩ := hr.writesTo (b := b) hst rfl rfl
  have hphase : k.phase = .out ∨ k.phase = .busy ∨ k.phase = .parked := by
    obtain rfl | rfl | rfl := hk <;> simp [Stop.phase]
  have hnot : k ≠ .whereTo := by
    obtain rfl | rfl | rfl := hk <;> simp
  have hg : Mem.going (s.memIn F b e) = false := by
    rw [Mem.going, hw.writes]
    rfl
  have hnear : Near (s.next F b e).mem.state .flags1 1 (s.after r 1) := by
    refine .after (by decide) fun hi hi' => ?_
    obtain rfl | rfl | rfl := hk
    · exact absurd (Mem.idle_of_out hph hs.hartsel) hi'
    · refine absurd ?_ hi'
      show Mem.stateD s.mem (s.memIn F b e) = .idle
      rw [Mem.stateD_busy hs.hartsel hph.2, Mem.haltedPulse, hw.writes, hsel]
      rfl
    · have hleft := hn.left hi
      rw [state_kept hs hg hi hi']
      simp only [Stop.left] at hleft ⊢
      split_ifs at hleft ⊢ <;> omega
  rw [LocNext, hr.core_mem hst rfl]
  refine .rom (k := .flags1) (u := u) (quiet_halted ?_ hat.a0 hat.s0 ?_) (hph.parked hs.hartsel hphase hw hsel)
    ?_ hnear
  · show s.core.hart.pc + 4 = _
    rw [hat.pc, page_next (y := 0x82c) (by decide)]
  · exact recover_of hat.user rfl rfl fun _ _ _ => rfl
  · exact ho.next hs hp (by simp [hnot]) (fun h => absurd h hnot) hg (hw.dataO (by decide)) hr.entering

/-- The hart begins the command. -/
theorem Loc.begin (hr : Runs s e (romWord 0x870)) (hs : DmCsrs.Single s.csrs.dmcontrol)
    (hph : Mem.Phase.going.Holds s.mem) (ho : Owed F b (Stop.due .going s.mem) s.csrs a u)
    (hn : Near s.mem.state .going 0 r) (hat : AtGoing b u s.core.hart) : LocNext F b s e a (s.after r 1) := by
  have hst := step_sw (F := F) s.core.hart 0 0x104
  rw [hat.a0, Gpr.zero, page_add (y := 0x104) (by decide),
    show encode (.store .sw a0 0 0x104) = romWord 0x870 by decide] at hst
  obtain ⟨hw, -⟩ := hr.writesTo (b := b) hst rfl rfl
  rw [LocNext, hr.core_mem hst rfl]
  refine .rom (k := .whereTo) (u := u) (quiet_started ?_ ?_) (hph.busy hw) ?_ (.after (by decide) fun hi _ => ?_)
  · show s.core.hart.pc + 4 = _
    rw [hat.pc, page_next (y := 0x874) (by decide)]
  · exact recover_of hat.user rfl rfl fun _ _ _ => rfl
  · have hdue : Stop.due .going s.mem = true := by simp [Stop.due, hph.2]
    rw [hdue] at ho
    exact ho.of_busy hs (by rw [hph.2]; simp) (hw.dataO (by decide)) hr.entering
  · have := hn.left hi
    simp only [Stop.left] at this ⊢
    omega

/-- The hart reports that it resumes. -/
theorem Loc.resume (hr : Runs s e (romWord 0x884)) (hs : DmCsrs.Single s.csrs.dmcontrol) (hp : Polite s e)
    (hph : Mem.Phase.resuming.Holds s.mem) (ho : Owed F b (Stop.due .resuming s.mem) s.csrs a u)
    (hn : Near s.mem.state .resuming 0 r) (hat : AtStore b 0x884 u s.core.hart) :
    LocNext F b s e a (s.after r 1) := by
  have hst := step_sw (F := F) s.core.hart s0 0x108
  rw [hat.a0, hat.s0, page_add (y := 0x108) (by decide),
    show encode (.store .sw a0 s0 0x108) = romWord 0x884 by decide] at hst
  obtain ⟨hw, hsel⟩ := hr.writesTo (b := b) hst rfl rfl
  have hg : Mem.going (s.memIn F b e) = false := by
    rw [Mem.going, hw.writes]
    rfl
  rw [LocNext, hr.core_mem hst rfl]
  refine .rom (k := .leave) (u := u) (quiet_resumed ?_ ?_) (hph.out hs.hartsel hw hsel) ?_
    (hn.kept hs hg (by decide) fun _ => by simp [Stop.left])
  · show s.core.hart.pc + 4 = _
    rw [hat.pc, page_next (y := 0x888) (by decide)]
  · exact recover_of hat.user rfl rfl fun _ _ _ => rfl
  · exact ho.next hs hp (by simp) (by simp) hg (hw.dataO (by decide)) hr.entering

/-- The hart reports an exception. -/
theorem Loc.fail (hr : Runs s e (romWord 0x864)) (hs : DmCsrs.Single s.csrs.dmcontrol) (hp : Polite s e)
    (hph : Mem.Phase.busy.Holds s.mem) (ho : Owed F b (Stop.due .exception s.mem) s.csrs a u)
    (hn : Near s.mem.state .exception 0 r) (hat : AtException b u s.core.hart) :
    LocNext F b s e a (s.after r 1) := by
  have hst := step_sw (F := F) s.core.hart 0 0x10c
  rw [hat.a0, Gpr.zero, page_add (y := 0x10c) (by decide),
    show encode (.store .sw a0 0 0x10c) = romWord 0x864 by decide] at hst
  obtain ⟨hw, -⟩ := hr.writesTo (b := b) hst rfl rfl
  have hg : Mem.going (s.memIn F b e) = false := by
    rw [Mem.going, hw.writes]
    rfl
  rw [LocNext, hr.core_mem hst rfl]
  refine .rom (k := .reported) (u := u) (quiet_reported ?_ hat.user) (hph.next hs.hartsel ?_ hg ?_) ?_
    (hn.kept hs hg (by decide) fun _ => by simp [Stop.left])
  · show s.core.hart.pc + 4 = _
    rw [hat.pc, page_next (y := 0x868) (by decide)]
  · rw [Mem.haltedPulse, hw.writes]
    rfl
  · rw [Mem.resumingPulse, hw.writes]
    rfl
  · exact ho.next hs hp (by simp) (by simp) hg (hw.dataO (by decide)) hr.entering

/-- The hart goes back to its entry, after an exception. -/
theorem Loc.reenter (hF : HartZero F) (hr : Runs s e (romWord 0x86c)) (hs : DmCsrs.Single s.csrs.dmcontrol)
    (hp : Polite s e) (hph : Mem.Phase.busy.Holds s.mem)
    (ho : Owed F b (Stop.due .reported s.mem) s.csrs a u) (hn : Near s.mem.state .reported 0 r)
    (hat : AtUser b 0x86c u s.core.hart) : LocNext F b s e a (s.after r 1) := by
  have hst : s.core.hart.step F.scratch (romWord 0x86c) = .ebreak := by
    rw [show romWord 0x86c = ebreak by decide, step_ebreak]
  have hl : Loc F b s.mem s.csrs a (r - 1) true (Sys.enter b s.core.hart haltAddress).hart := by
    have hq := quiet_enter (F := F) hF (h := (Sys.enter b s.core.hart haltAddress).hart) rfl
    refine .rom (k := .back) (u := u) (hat.user ▸ hq) hph ho ⟨by decide, fun hi => ?_⟩
    have := hn.left hi
    simp only [Stop.left] at this ⊢
    omega
  rw [LocNext, hr.core, Sys.ran, hst, ← s.after_sub r]
  exact hl.still hs hp (hr.silent fun x k h => by rw [hst] at h; cases h) hr.entering

/-- The hart leaves debug mode. -/
theorem Loc.left (hr : Runs s e (romWord 0x890)) (hs : DmCsrs.Single s.csrs.dmcontrol) (hp : Polite s e)
    (hph : Mem.Phase.out.Holds s.mem) (ho : Owed F b (Stop.due .leave s.mem) s.csrs a u)
    (hat : AtUser b 0x890 u s.core.hart) : LocNext F b s e a (s.after r 1) := by
  have hst : s.core.hart.step F.scratch (romWord 0x890) = .dret := by
    rw [show romWord 0x890 = encode .dret by decide, Hart.step_encode F.scratch _ decode_dret]
    rfl
  have hgo : s.mem.state ≠ .go := by
    obtain ⟨-, h | ⟨h, -⟩⟩ := hph <;> simp [h]
  have hdue : Stop.due .leave s.mem = false := by simp [Stop.due, hgo]
  rw [hdue] at ho
  have hl : Loc F b s.mem s.csrs a (r - 1) false s.core.hart := .away hph (by rw [hat.user]; exact ho.abs)
  rw [LocNext, hr.core, Sys.ran, hst, ← s.after_sub r]
  exact hl.still hs hp (hr.silent fun x k h => by rw [hst] at h; cases h) hr.entering

/-! The flags. -/

theorem silent_of_load {x : Access} {off : BitVec 12} (hacc : s.access F e = some x) (hx : x.store = none)
    (ha : x.addr = page b off) : Mem.Silent (s.memIn F b e) := by
  obtain ⟨q, hq, hwe, -⟩ := exists_read hacc hx ha
  intro q' hq'
  rw [hq] at hq'
  cases hq'
  exact hwe

/-- What the hart gets of the flags. -/
theorem flags_shifted (hs : DmCsrs.Single s.csrs.dmcontrol) {x : Access} (hacc : s.access F e = some x)
    (hx : x.store = none) (ha : x.addr = page b flagsBase) :
    x.shifted (Mem.rdataO (s.nextMem F b e)) =
      (0#6 ++ BitVec.ofBool (Mem.resumeO s.mem) ++ BitVec.ofBool (Mem.goO s.mem)).setWidth 64 := by
  obtain ⟨q, hq, hwe, ho⟩ := exists_read (b := b) hacc hx ha
  have hd := Mem.rdataO_of_readD hq hwe (by rw [ho]; decide) (Mem.readD_flags (s := s.mem) hs.hartsel ho)
  have hl : x.lane = 0 := by
    rw [Access.lane, ha, page, BitVec.extractLsb'_append_eq_of_add_le (by decide)]
    decide
  rw [Sys.nextMem, hd, Access.shifted, hl]
  exact BitVec.ushiftRight_zero _

theorem flags_go : ∀ r g : Bool, LoadOp.lbu.eval ((0#6 ++ BitVec.ofBool r ++ BitVec.ofBool g).setWidth 64) &&& 1 =
    if g then 1 else 0 := by decide

theorem flags_resume : ∀ r g : Bool,
    LoadOp.lbu.eval ((0#6 ++ BitVec.ofBool r ++ BitVec.ofBool g).setWidth 64) &&& 2 = if r then 2 else 0 := by
  decide

/-- The hart looks for a command. -/
theorem Loc.look (hF : HartZero F) (hr : Runs s e (romWord 0x830)) (hs : DmCsrs.Single s.csrs.dmcontrol)
    (hp : Polite s e) (hph : Mem.Phase.parked.Holds s.mem)
    (ho : Owed F b (Stop.due .flags1 s.mem) s.csrs a u) (hn : Near s.mem.state .flags1 0 r)
    (hat : AtFlags b 0x830 u s.core.hart) : LocNext F b s e a (s.after r 1) := by
  have hst := step_lbu (F := F) s.core.hart 0x400
  rw [hat.s0, page_add (y := 0x400) (by decide),
    show encode (.load .lbu s0 s0 0x400) = romWord 0x830 by decide] at hst
  have hacc := hr.access hst
  have hq : Mem.Silent (s.memIn F b e) := silent_of_load hacc rfl rfl
  rw [LocNext, hr.core_mem hst rfl, flags_shifted hs hacc rfl rfl, ← s.after_sub r]
  refine Loc.still ?_ hs hp hq hr.entering
  have hpc : s.core.hart.pc + 4 = page b 0x834 := by rw [hat.pc, page_next (y := 0x834) (by decide)]
  have hgo := flags_go (Mem.resumeO s.mem) (Mem.goO s.mem)
  cases hg : Mem.goO s.mem with
  | true =>
    rw [hg] at hgo
    have hst : s.mem.state = .go := eq_of_beq hg
    have hleft := hn.left (by simp [hst])
    simp only [Stop.left, hst, reduceCtorEq, if_false] at hleft
    refine .rom (k := .going) (u := u) (quiet_go hpc (by simp [hat.a0]) ?_ ?_) ⟨hph.1, hst⟩ ho
      ⟨by decide, fun _ => by simp only [Stop.left]; omega⟩
    · rw [read_set_s0, hgo]
      decide
    · exact recover_of hat.user rfl rfl fun r hs _ => Gpr.read_set_of_ne _ _ hs
  | false =>
    rw [hg] at hgo
    have hne : s.mem.state ≠ .go := ne_of_beq_false hg
    refine .rom (k := .flags2) (u := u) (quiet_no_go hF hpc (by simp [hat.a0]) ?_ ?_) hph ho
      ⟨by decide, fun hi => ?_⟩
    · rw [read_set_s0, hgo]
      rfl
    · exact recover_of hat.user rfl rfl fun r hs _ => Gpr.read_set_of_ne _ _ hs
    · have hleft := hn.left hi
      have hst : s.mem.state = .resume := by simpa [hi, hne] using hph.2.imp_right (Or.imp_right And.left)
      simp only [Stop.left, hst, if_true] at hleft ⊢
      omega

/-- The hart looks whether it is to resume. -/
theorem Loc.look_resume (hF : HartZero F) (hr : Runs s e (romWord 0x844)) (hs : DmCsrs.Single s.csrs.dmcontrol)
    (hp : Polite s e) (hph : Mem.Phase.parked.Holds s.mem)
    (ho : Owed F b (Stop.due .flags2 s.mem) s.csrs a u) (hn : Near s.mem.state .flags2 0 r)
    (hat : AtFlags b 0x844 u s.core.hart) : LocNext F b s e a (s.after r 1) := by
  have hst := step_lbu (F := F) s.core.hart 0x400
  rw [hat.s0, page_add (y := 0x400) (by decide),
    show encode (.load .lbu s0 s0 0x400) = romWord 0x844 by decide] at hst
  have hacc := hr.access hst
  have hq : Mem.Silent (s.memIn F b e) := silent_of_load hacc rfl rfl
  rw [LocNext, hr.core_mem hst rfl, flags_shifted hs hacc rfl rfl, ← s.after_sub r]
  refine Loc.still ?_ hs hp hq hr.entering
  have hpc : s.core.hart.pc + 4 = page b 0x848 := by rw [hat.pc, page_next (y := 0x848) (by decide)]
  have hres := flags_resume (Mem.resumeO s.mem) (Mem.goO s.mem)
  cases hg : Mem.resumeO s.mem with
  | true =>
    rw [hg] at hres
    have hstate : s.mem.state = .resume := eq_of_beq hg
    have hrs : s.mem.resuming = false := by simpa [hstate] using hph.2
    have hleft := hn.left (by simp [hstate])
    simp only [Stop.left, hstate, if_true] at hleft
    refine .rom (k := .resuming) (u := u) (quiet_resume hF hpc (by simp [hat.a0]) ?_ ?_) ⟨hph.1, hstate, hrs⟩ ho
      ⟨by decide, fun _ => by simp only [Stop.left]; omega⟩
    · rw [read_set_s0, hres]
      decide
    · exact recover_of hat.user rfl rfl fun r hs _ => Gpr.read_set_of_ne _ _ hs
  | false =>
    rw [hg] at hres
    have hne : s.mem.state ≠ .resume := ne_of_beq_false hg
    refine .rom (k := .loop) (u := u) (quiet_loop hF hpc (by simp [hat.a0]) ?_ ?_) hph ho
      ⟨by decide, fun hi => ?_⟩
    · rw [read_set_s0, hres]
      rfl
    · exact recover_of hat.user rfl rfl fun r hs _ => Gpr.read_set_of_ne _ _ hs
    · have hleft := hn.left hi
      simp only [Stop.left, hne, if_false] at hleft ⊢
      omega

/-! The program of a command. -/

theorem Ends.lt {cmd : Command} {j : ℕ} {h : Hart (Scratch σ)} {d : BitVec 64}
    (hends : Ends a (run F b ((abstractCmdRom cmd).words.drop j) h d)) : j < 10 := by
  by_contra hge
  rw [List.drop_eq_nil_of_le (by rw [length_words]; omega), run] at hends
  simpa using hends.stop

theorem cmdWordAddr_next : ∀ j < 10, (Mem.cmdWordAddr j).toNat + 4 = (Mem.cmdWordAddr (j + 1)).toNat := by decide

/-- The word of a program that is run, and the rest of it. -/
theorem drop_words {cmd : Command} {j : ℕ} (hj : j < 10) :
    (abstractCmdRom cmd).words.drop j =
      wordAt cmd (Mem.cmdWordAddr j) :: (abstractCmdRom cmd).words.drop (j + 1) := by
  have hlt : j < (abstractCmdRom cmd).words.length := hj
  rw [List.drop_eq_getElem_cons hlt, wordAt_cmdWordAddr cmd j hj, List.getD_eq_getElem?_getD,
    List.getElem?_eq_getElem hlt, Option.getD_some]

theorem straight_wordAt {cmd : Command} {j : ℕ} (hj : j < 10) :
    straight (wordAt cmd (Mem.cmdWordAddr j)) = true := by
  have hlt : j < (abstractCmdRom cmd).words.length := hj
  rw [wordAt_cmdWordAddr cmd j hj, List.getD_eq_getElem?_getD,
    List.getElem?_eq_getElem hlt, Option.getD_some]
  exact straight_words cmd _ (List.getElem_mem hlt)

/-- A word of the program of a command. -/
theorem Loc.run_word (hF : HartZero F) {j : ℕ} (hr : Runs s e (wordAt s.csrs.command (Mem.cmdWordAddr j)))
    (hs : DmCsrs.Single s.csrs.dmcontrol) (hp : Polite s e) (hph : Mem.Phase.busy.Holds s.mem)
    (hpc : s.core.hart.pc = page b (Mem.cmdWordAddr j))
    (hends : Ends a (run F b ((abstractCmdRom s.csrs.command).words.drop j) s.core.hart s.csrs.data))
    (hn : 27 - j ≤ r) : LocNext F b s e a (s.after r 1) := by
  have hj : j < 10 := hends.lt
  have hstraight := @straight_wordAt s.csrs.command j hj
  have hnext : s.core.hart.pc + 4 = page b (Mem.cmdWordAddr (j + 1)) := by
    rw [hpc, page_next (cmdWordAddr_next j hj)]
  have hbusy : s.mem.state ≠ .idle := by rw [hph.2]; simp
  rw [drop_words hj] at hends
  generalize wordAt s.csrs.command (Mem.cmdWordAddr j) = w at hr hstraight hends
  cases hst : s.core.hart.step F.scratch w with
  | done h' =>
    obtain ⟨i, hi, hx⟩ := Hart.step_inv (F := F.scratch) (h := s.core.hart) (w := w) (by rw [hst]; simp)
    have h4 := Hart.pc_of_done (straight_of_decode hstraight hi) (hx ▸ hst)
    rw [run_done hst] at hends
    have hl : Loc F b s.mem s.csrs a (r - 1) true h' := .program (h4.trans hnext) hph hends (by omega)
    rw [LocNext, hr.core, Sys.ran, hst, ← s.after_sub r]
    exact hl.still hs hp (hr.silent fun x k h => by rw [hst] at h; cases h) hr.entering
  | mem x k =>
    obtain ⟨i, hi, hx⟩ := Hart.step_inv (F := F.scratch) (h := s.core.hart) (w := w) (by rw [hst]; simp)
    have h4 := Hart.pc_of_mem (hx ▸ hst)
    have ha : x.addr = page b dataAddr := by
      by_contra hne
      rw [run, hst] at hends
      simpa [hne] using hends.stop
    rw [run_mem hst ha] at hends
    rw [LocNext, hr.core_mem hst ha, ← s.after_sub r]
    have hacc := hr.access hst
    cases hstore : x.store with
    | none =>
      obtain ⟨q, hq, hwe, ho⟩ := exists_read hacc hstore ha
      have hd : Mem.rdataO (s.nextMem F b e) = s.csrs.data :=
        Mem.rdataO_of_readD hq hwe (by rw [ho]; decide) (Mem.readD_data ho)
      have hl : Loc F b s.mem s.csrs a (r - 1) true (k (x.shifted s.csrs.data)) := by
        refine .program ((h4 _).trans hnext) hph ?_ (by omega)
        rw [shifted_data ha]
        rwa [dataAfter, hstore] at hends
      rw [hd]
      exact hl.still hs hp (silent_of_load hacc hstore ha) hr.entering
    | some v =>
      have hsome : x.store.isSome = true := by rw [hstore]; rfl
      obtain ⟨q, hq, hwe, ho, hwd, hbe⟩ := exists_write (b := b) hacc hsome ha
      have hw : Mem.WritesTo (s.memIn F b e) dataAddr := ⟨q, hq, hwe, ho⟩
      have hdata : Mem.dataO (s.memIn F b e) = some (dataAfter s.csrs.data x) := by
        rw [Mem.dataO, hq, dataAfter, if_pos hsome, ← hwd, ← hbe]
        exact if_pos ⟨hwe, by rw [ho]; decide, by rw [ho]; decide⟩
      obtain ⟨hc, hd⟩ := csrs_of_busy (F := F) (b := b) (e := e) hs hbusy
      refine .program ((h4 _).trans hnext) (hph.next hs.hartsel ?_ ?_ ?_) ?_
        (by simp only [Sys.after, hbusy, if_false]; omega)
      · rw [Mem.haltedPulse, hw.writes]
        rfl
      · rw [Mem.going, hw.writes]
        rfl
      · rw [Mem.resumingPulse, hw.writes]
        rfl
      · have hk := Hart.eq_of_store (hx ▸ hst) hsome
          (x.shifted (Mem.rdataO (s.nextMem F b e))) s.csrs.data
        rw [abs_of_busy hbusy hr.entering, hc, hd, hdata, Option.getD_some, hk]
        exact hends
  | ebreak =>
    rw [run, hst] at hends
    have hl : Loc F b s.mem s.csrs a (r - 1) true (Sys.enter b s.core.hart haltAddress).hart := by
      refine .rom (k := .back) (quiet_enter hF rfl) hph ?_
        ⟨by decide, fun _ => by simp only [Stop.left]; omega⟩
      rw [show Stop.due .back s.mem = false by simp [Stop.due, hph.2]]
      exact ⟨hends.abs, by simp⟩
    rw [LocNext, hr.core, Sys.ran, hst, ← s.after_sub r]
    exact hl.still hs hp (hr.silent fun x k h => by rw [hst] at h; cases h) hr.entering
  | exception =>
    rw [run, hst] at hends
    have hl : Loc F b s.mem s.csrs a (r - 1) true (Sys.enter b s.core.hart exceptionAddress).hart := by
      refine .rom (k := .exception) (quiet_exception rfl) hph ?_
        ⟨by decide, fun _ => by simp only [Stop.left]; omega⟩
      rw [show Stop.due .exception s.mem = false by simp [Stop.due, hph.2]]
      exact ⟨hends.abs, by simp⟩
    rw [LocNext, hr.core, Sys.ran, hst, ← s.after_sub r]
    exact hl.still hs hp (hr.silent fun x k h => by rw [hst] at h; cases h) hr.entering
  | dret =>
    rw [run, hst] at hends
    simpa using hends.stop

/-- Without the program buffer a command stops at its end or with an exception. -/
theorem meaning_stop {c : Command} (hc : c.acAr.postexec = false) (u : User σ) (d : BitVec 64) :
    (c.meaning F b u d).1 = .ebreak ∨ (c.meaning F b u d).1 = .exception := by
  rw [Command.meaning]
  split_ifs
  · exact .inl rfl
  · rw [AcArCmd.meaning, hc]
    simp only [Bool.false_eq_true, if_false]
    split_ifs
    · cases u.put F c.acAr.aarsize d c.acAr.target.alias <;> simp
    · cases u.get F c.acAr.aarsize c.acAr.target.alias <;> simp
  · exact .inr rfl

/-- The hart goes to the program of the command. -/
theorem Loc.jump (hr : Runs s e (encode (.jal 0 0x1c))) (hs : DmCsrs.Single s.csrs.dmcontrol) (hp : Polite s e)
    (hph : Mem.Phase.busy.Holds s.mem) (ho : Owed F b (Stop.due .whereTo s.mem) s.csrs a u)
    (hn : Near s.mem.state .whereTo 0 r) (hat : AtUser b whereTo u s.core.hart) :
    LocNext F b s e a (s.after r 1) := by
  have hst := step_jal (F := F) (h := s.core.hart) 0x1c
  have hpc : s.core.hart.pc + ((0x1c : BitVec 20) ++ 0#1).signExtend 64 = page b (Mem.cmdWordAddr 0) := by
    rw [hat.pc]
    exact page_add (by decide)
  rw [hpc] at hst
  rw [show Stop.due .whereTo s.mem = true by simp [Stop.due]] at ho
  have hl : Loc F b s.mem s.csrs a (r - 1) true { s.core.hart with pc := page b (Mem.cmdWordAddr 0) } := by
    have hleft := hn.left (by rw [hph.2]; simp)
    simp only [Stop.left] at hleft
    refine .program rfl hph ?_ (by omega)
    have hmean := abstract_cmd_meaning (x := Mem.cmdWordAddr 0) F b s.csrs.command
      { s.core.hart with pc := page b (Mem.cmdWordAddr 0) } s.csrs.data rfl (by decide)
    have hu : user { s.core.hart with pc := page b (Mem.cmdWordAddr 0) } = u := hat.user
    rw [hu] at hmean
    refine ⟨?_, ?_⟩
    · have hstop := meaning_stop (F := F) (b := b) (ho.plain rfl) u s.csrs.data
      rw [← hmean] at hstop
      exact hstop
    · rw [ho.abs, if_pos rfl, Abs.command, ← hmean]
      rfl
  rw [LocNext, hr.core, Sys.ran, hst, ← s.after_sub r]
  exact hl.still hs hp (hr.silent fun x k h => by rw [hst] at h; cases h) hr.entering

/-- The hart runs the word that it has fetched. -/
theorem Loc.exec (hF : HartZero F) {w : BitVec 32} (hl : Loc F b s.mem s.csrs a r true s.core.hart)
    (hr : Runs s e w) (hs : DmCsrs.Single s.csrs.dmcontrol) (hp : Polite s e)
    (hw : ∀ off, s.core.hart.pc = page b off → w = wordAt s.csrs.command off) :
    LocNext F b s e a (s.after r 1) := by
  have hword : ∀ off, haltAddress ≤ off → s.core.hart.pc = page b off → w = romWord off := by
    intro off hoff hpc
    rw [hw off hpc, wordAt, if_pos hoff]
  have hrom : ∀ off, haltAddress ≤ off → s.core.hart.pc = page b off → Runs s e (romWord off) :=
    fun off hoff hpc => hword off hoff hpc ▸ hr
  cases hl with
  | @rom _ k n u hq hph ho hn =>
    cases hq with
    | step hpc hoff hst hq =>
      exact Loc.quiet hr hs hp hph ho (hword _ hoff hpc ▸ hst) hq hn
    | here hat =>
      cases k
      case enter => exact Loc.report (.inl rfl) (hrom 0x828 (by decide) (AtStore.pc hat)) hs hp hph ho hn hat
      case back => exact Loc.report (.inr (.inl rfl)) (hrom 0x828 (by decide) (AtStore.pc hat)) hs hp hph ho hn hat
      case loop => exact Loc.report (.inr (.inr rfl)) (hrom 0x828 (by decide) (AtStore.pc hat)) hs hp hph ho hn hat
      case flags1 => exact Loc.look hF (hrom 0x830 (by decide) (AtFlags.pc hat)) hs hp hph ho hn hat
      case flags2 => exact Loc.look_resume hF (hrom 0x844 (by decide) (AtFlags.pc hat)) hs hp hph ho hn hat
      case going => exact Loc.begin (hrom 0x870 (by decide) (AtGoing.pc hat)) hs hph ho hn hat
      case whereTo =>
        have hjal : wordAt s.csrs.command whereTo = encode (.jal 0 0x1c) := by
          rw [wordAt, if_neg (by decide), if_pos rfl]
        exact Loc.jump (((hw whereTo (AtUser.pc hat)).trans hjal) ▸ hr) hs hp hph ho hn hat
      case exception => exact Loc.fail (hrom 0x864 (by decide) (AtException.pc hat)) hs hp hph ho hn hat
      case reported => exact Loc.reenter hF (hrom 0x86c (by decide) (AtUser.pc hat)) hs hp hph ho hn hat
      case resuming => exact Loc.resume (hrom 0x884 (by decide) (AtStore.pc hat)) hs hp hph ho hn hat
      case leave => exact Loc.left (hrom 0x890 (by decide) (AtUser.pc hat)) hs hp hph ho hat
  | program hpc hph hends hn => exact Loc.run_word hF (hw _ hpc ▸ hr) hs hp hph hpc hends hn

/-! ### The invariant -/

/-- The word at the address of the hart is the same after the cycle. -/
theorem Loc.wordAt_next (hl : Loc F b s.mem s.csrs a r true s.core.hart) (hs : DmCsrs.Single s.csrs.dmcontrol)
    {off : BitVec 12} (hpc : s.core.hart.pc = page b off) :
    wordAt (s.next F b e).csrs.command off = wordAt s.csrs.command off := by
  have hbusy : Mem.Phase.busy.Holds s.mem →
      wordAt (s.next F b e).csrs.command off = wordAt s.csrs.command off := by
    intro hph
    rw [(csrs_of_busy hs (by rw [hph.2]; simp)).1]
  cases hl with
  | rom hq hph =>
    obtain ⟨off', hpc', hoff | ⟨rfl, -⟩⟩ := hq.pc
    · obtain rfl : off = off' := page_inj (hpc.symm.trans hpc')
      rw [wordAt, wordAt, if_pos hoff, if_pos hoff]
    · exact hbusy hph
  | program _ hph => exact hbusy hph

/-- What the hart fetches is the word at its address. -/
theorem Loc.fetched (hl : Loc F b s.mem s.csrs a r true s.core.hart) (hh : s.core.halted = true)
    (hev : e.core = .fetch) {off : BitVec 12} (hpc : s.core.hart.pc = page b off) :
    Sys.half s.core.hart.pc (Mem.rdataO (s.nextMem F b e)) = wordAt s.csrs.command off := by
  cases hl with
  | rom hq hph ho =>
    obtain ⟨off', hpc', hoff⟩ := hq.pc
    obtain rfl : off = off' := page_inj (hpc.symm.trans hpc')
    refine half_fetched hh hev hpc (hoff.imp_right fun ⟨hk, hw⟩ => .inl ⟨hw, ?_, ?_⟩)
    · subst hk
      rw [hph.2]
      simp
    · subst hk
      exact ho.plain (by simp [Stop.due])
  | @program _ j hpc' hph hends =>
    obtain rfl : off = Mem.cmdWordAddr j := page_inj (hpc.symm.trans hpc')
    have hj : j < 10 := hends.lt
    exact half_fetched hh hev hpc (.inr (.inr ⟨j, hj, rfl⟩))

theorem silent_of_none (h : s.access F e = none) : Mem.Silent (s.memIn F b e) := by
  have hreq : (s.memIn F b e).req = none := by simp [Sys.memIn, Sys.busReq, h]
  intro q hq
  rw [hreq] at hq
  cases hq

/-- A hart in debug mode is in the module. -/
theorem Loc.pc {m : MemRegs} {c : CsrsRegs} {h : Hart (Scratch σ)} (hl : Loc F b m c a r true h) :
    ∃ off, h.pc = page b off := by
  cases hl with
  | rom hq => exact hq.pc.imp fun _ h => h.1
  | program hpc => exact ⟨_, hpc⟩

/-- The hart enters debug mode. -/
theorem Loc.enter (hF : HartZero F) {h : Hart (Scratch σ)} (hl : Loc F b s.mem s.csrs a r false h)
    (hh : s.core.halted = false) (hev : e.core = .halt u) (hs : DmCsrs.Single s.csrs.dmcontrol) :
    LocNext F b s e a (s.after r 0) := by
  cases hl with
  | away hph ha =>
    have hq : Mem.Silent (s.memIn F b e) := silent_of_none (by simp [Sys.access, hh])
    have hidle : Mem.stateD s.mem (s.memIn F b e) = .idle := Mem.idle_of_out hph hs.hartsel
    have hns : s.starts F b e = false := by simp [Sys.starts, hidle]
    have hent : s.entering e = some u := by simp [Sys.entering, hh, hev]
    have hcore : (s.next F b e).core =
        Sys.enter b ⟨0, u.gpr, u.fpr, { s.core.hart.csrs with rest := u.rest }⟩ haltAddress := by
      simp [Sys.next, Sys.nextCore, hh, hev]
    have hstate : (s.next F b e).mem.state = .idle := hidle
    have hquiet := quiet_enter (F := F) (b := b) hF (h := (s.next F b e).core.hart) (by rw [hcore]; rfl)
    rw [show user (s.next F b e).core.hart = u by rw [hcore]; rfl] at hquiet
    rw [LocNext, show (s.next F b e).core.halted = true by rw [hcore]; rfl]
    refine .rom (k := .enter) (u := u) hquiet (hph.next hs.hartsel ?_ ?_ ?_) ?_
      (.after (by decide) fun _ hi' => absurd hstate hi')
    · rw [Mem.haltedPulse, hq.writes, Bool.false_and]
    · exact hq.writes _
    · rw [Mem.resumingPulse, hq.writes, Bool.false_and]
    · rw [show Stop.due .enter (s.next F b e).mem = false by simp [Stop.due, hstate]]
      refine ⟨?_, by simp⟩
      rw [abs_of_not_starts hs hq.dataO hns (by rw [ha]), hent]
      rfl

/-- The hart runs a word in this cycle. -/
def Sys.ranWord (s : Sys σ) (e : Ev σ) : Bool :=
  match s.core.halted, e.core, s.core.ir with
  | true, .exec, some _ => true
  | _, _, _ => false

/-- Where the hart is, in every case. -/
theorem Loc.next (hF : HartZero F) (hl : Loc F b s.mem s.csrs a r s.core.halted s.core.hart)
    (hs : DmCsrs.Single s.csrs.dmcontrol) (hp : Polite s e)
    (hir : s.core.halted = true → ∀ w off, s.core.ir = some w → s.core.hart.pc = page b off →
      w = wordAt s.csrs.command off) : LocNext F b s e a (s.after r (s.ranWord e).toNat) := by
  -- a hart that neither runs a word nor enters stays
  have hstay : s.ranWord e = false → s.entering e = none → Mem.Silent (s.memIn F b e) →
      (s.next F b e).core.halted = s.core.halted → (s.next F b e).core.hart = s.core.hart →
      LocNext F b s e a (s.after r (s.ranWord e).toNat) := by
    intro hran hent hq hh hc
    rw [LocNext, hh, hc, hran]
    exact hl.still hs hp hq hent
  cases hh : s.core.halted with
  | false =>
    have hran : s.ranWord e = false := by simp [Sys.ranWord, hh]
    have hq : Mem.Silent (s.memIn F b e) := silent_of_none (by simp [Sys.access, hh])
    cases hev : e.core with
    | halt u =>
      rw [hh] at hl
      rw [hran]
      exact hl.enter hF hh hev hs
    | _ =>
      refine hstay hran (by simp [Sys.entering, hev]) hq ?_ ?_ <;> simp [Sys.next, Sys.nextCore, hh, hev]
  | true =>
    have hent : s.entering e = none := by simp [Sys.entering, hh]
    cases hev : e.core with
    | exec =>
      cases hw : s.core.ir with
      | none =>
        have hq : Mem.Silent (s.memIn F b e) := silent_of_none (by simp [Sys.access, hh, hev, hw])
        refine hstay (by simp [Sys.ranWord, hw]) hent hq ?_ ?_ <;>
          simp [Sys.next, Sys.nextCore, hh, hev, hw]
      | some w =>
        rw [hh] at hl
        rw [show s.ranWord e = true by simp [Sys.ranWord, hh, hev, hw]]
        exact hl.exec hF ⟨hh, hev, hw⟩ hs hp fun off hpc => hir hh w off hw hpc
    | fetch =>
      have hacc : s.access F e = some ⟨s.core.hart.pc, 3, none⟩ := by simp [Sys.access, hh, hev]
      obtain ⟨off, hpc⟩ := (hh ▸ hl).pc
      refine hstay (by simp [Sys.ranWord, hev]) hent (silent_of_load hacc rfl hpc) ?_ ?_ <;>
        simp [Sys.next, Sys.nextCore, hh, hev]
    | _ =>
      refine hstay (by simp [Sys.ranWord, hev]) hent (silent_of_none (by simp [Sys.access, hh, hev])) ?_ ?_ <;>
        simp [Sys.next, Sys.nextCore, hh, hev]

end Cycle

variable {F : Csrs σ} {b : BitVec 52} {t : Tracked σ} {e : Ev σ}

/-- A command starts from rest, with no resumption asked for. -/
theorem Inv.starting_next (h : Inv F b t) (hp : Polite t.sys e)
    (hv : (t.sys.next F b e).csrs.cmdValid = true) :
    (t.sys.next F b e).mem.state = .idle ∧ (t.sys.next F b e).csrs.dmcontrol.resumereq = false := by
  have hv' : (DmCsrs.updReq t.sys.csrs (t.sys.csrsInputs F b e)).cmdValid = true :=
    (DmCsrs.cmdValid_next h.single.dmactive).symm.trans hv
  obtain ⟨hb, hdm, q, hq, hst⟩ := DmCsrs.starts_of_cmdValid hv'
  have hdmi : e.dmi = some q := DmCsrs.dmiReq_of_taken hq
  have hidle : t.sys.mem.state = .idle := by
    have hbusy : Mem.cmdbusyO t.sys.mem = false := hb
    simpa [Mem.cmdbusyO] using hbusy
  have hres : t.sys.csrs.dmcontrol.resumereq = false := by
    by_contra hr
    have := hp.resume (Bool.eq_true_of_not_eq_false hr) q hdmi
    rw [hst] at this
    cases this
  have hcv : t.sys.csrs.cmdValid = false := by
    by_contra hc
    have := hp.alone (Bool.eq_true_of_not_eq_false hc)
    rw [hdmi] at this
    cases this
  constructor
  · show Mem.stateD t.sys.mem (t.sys.memIn F b e) = .idle
    have h1 : Mem.resumes t.sys.mem (t.sys.memIn F b e) = false := by
      simp [Mem.resumes, Mem.sel, Sys.memIn, DmCsrs.resumereqO, hres]
    have h2 : (t.sys.memIn F b e).ctrl.cmdValid = false := hcv
    simp [Mem.stateD_idle hidle, h1, h2]
  · show (DmCsrs.next t.sys.csrs (t.sys.csrsInputs F b e)).dmcontrol.resumereq = false
    simp [DmCsrs.dmcontrol_next h.single.dmactive, hdm, hres]

/-- A word that has been run is gone. -/
theorem ir_ran (F : Csrs σ) (b : BitVec 52) (e : Ev σ) (h : Hart (Scratch σ)) (w : BitVec 32) (d : BitVec 64) :
    (Sys.ran F b e h w d).ir = none := by
  unfold Sys.ran
  cases h.step F.scratch w <;> rfl

theorem Inv.ir_next (h : Inv F b t) (hh' : (t.sys.next F b e).core.halted = true) {w : BitVec 32} {off : BitVec 12}
    (hw : (t.sys.next F b e).core.ir = some w) (hpc : (t.sys.next F b e).core.hart.pc = page b off) :
    w = wordAt (t.sys.next F b e).csrs.command off := by
  have hcore : (t.sys.next F b e).core = t.sys.nextCore F b e (Mem.rdataO (t.sys.nextMem F b e)) := rfl
  rw [hcore] at hh' hw hpc
  have hloc := h.loc
  cases hh : t.sys.core.halted with
  | false => cases hev : e.core <;> simp_all [Sys.nextCore, Sys.enter]
  | true =>
    rw [hh] at hloc
    have hold : ∀ w off, t.sys.core.ir = some w → t.sys.core.hart.pc = page b off →
        w = wordAt (t.sys.next F b e).csrs.command off := by
      intro w off hw hpc
      rw [hloc.wordAt_next h.single hpc]
      exact h.ir hh w off hw hpc
    cases hev : e.core with
    | fetch =>
      simp only [Sys.nextCore, hh, hev, Option.some.injEq] at hw hpc
      rw [hloc.wordAt_next h.single hpc, ← hw]
      exact hloc.fetched hh hev hpc
    | exec =>
      cases hi : t.sys.core.ir with
      | none => simp [Sys.nextCore, hh, hev, hi] at hw
      | some w' => simp [Sys.nextCore, hh, hev, hi, ir_ran] at hw
    | wait =>
      simp only [Sys.nextCore, hh, hev] at hw hpc
      exact hold w off hw hpc
    | halt u =>
      simp only [Sys.nextCore, hh, hev] at hw hpc
      exact hold w off hw hpc

theorem Loc.mono {m : MemRegs} {c : CsrsRegs} {a : Abs σ} {r r' : ℕ} {hd : Bool} {h : Hart (Scratch σ)}
    (hl : Loc F b m c a r hd h) (hr : r ≤ r') : Loc F b m c a r' hd h := by
  cases hl with
  | away hp ha => exact .away hp ha
  | rom hq hp ho hn => exact .rom hq hp ho ⟨hn.lead, fun hi => (hn.left hi).trans hr⟩
  | program hpc hp he hn => exact .program hpc hp he (hn.trans hr)

theorem Sys.after_le (s : Sys σ) (d : ℕ) : s.after 46 d ≤ 46 := by
  unfold Sys.after
  split_ifs <;> omega

theorem Inv.next (hF : HartZero F) (h : Inv F b t) (hp : Polite t.sys e) :
    Inv F b ((machine F b).next t e) where
  single := h.single.next hp.single
  starting := h.starting_next hp
  loc := (h.loc.next hF h.single hp h.ir).mono (t.sys.after_le _)
  ir hh _ _ hw hpc := h.ir_next hh hw hpc

theorem Start.inv (h : Start t) : Inv F b t where
  single := h.single
  starting hv := by
    rw [h.cmdValid] at hv
    cases hv
  loc := by
    rw [h.halted]
    exact .away (by rw [h.mem]; exact ⟨rfl, .inl rfl⟩) h.abs
  ir hh := by
    rw [h.halted] at hh
    cases hh

/-- **Commands to a halted hart.** Whenever the module is at rest, the data are what the commands have made
of them, and whenever the hart runs its program, so are its registers; what the module takes for halted
is in debug mode; and in debug mode the hart stays in the page of the module. -/
theorem commands_run (hF : HartZero F) (t : Tracked σ) (es : List (Ev σ)) (h0 : Start t)
    (hes : (machine F b).Steps (fun t e => Polite t.sys e) t es) :
    let t := (machine F b).run t es
    (t.sys.mem.state = .idle → t.sys.csrs.data = t.abs.data) ∧
    (t.sys.core.halted = false → user t.sys.core.hart = t.abs.user) ∧
    (t.sys.mem.halted = true → t.sys.core.halted = true) ∧
    (t.sys.core.halted = true → ∃ off, t.sys.core.hart.pc = page b off) := by
  intro t
  have hinv : Inv F b t := Machine.run_inv (M := machine F b) (P := Inv F b)
    (fun t e h hp => h.next hF hp) es _ h0.inv hes
  have hloc := hinv.loc
  refine ⟨fun hi => ?_, fun hh => ?_, fun hm => ?_, fun hh => ?_⟩
  · generalize t.sys.core.halted = hd, t.sys.core.hart = h at hloc
    cases hloc with
    | away hp ha => rw [ha]
    | @rom _ k n u hq hp ho =>
      have hk : k ≠ .whereTo := by
        rintro rfl
        rw [hp.2] at hi
        cases hi
      have hdue : k.due t.sys.mem = false := by simp [Stop.due, hk, hi]
      rw [hdue] at ho
      rw [ho.abs]
      rfl
    | program hpc hp =>
      rw [hp.2] at hi
      cases hi
  · rw [hh] at hloc
    cases hloc with
    | away hp ha => rw [ha]
  · by_contra hh
    rw [Bool.eq_false_iff.2 hh] at hloc
    cases hloc with
    | away hp ha =>
      rw [hp.1] at hm
      cases hm
  · rw [hh] at hloc
    exact hloc.pc

theorem Stop.left_pos (st : MemFsm) (k : Stop) : 0 < k.left st := by
  cases k <;> simp only [Stop.left] <;> (try split_ifs) <;> omega

theorem Loc.left_pos {m : MemRegs} {c : CsrsRegs} {a : Abs σ} {r : ℕ} {h : Hart (Scratch σ)}
    (hl : Loc F b m c a r true h) (hi : m.state ≠ .idle) : 0 < r := by
  cases hl with
  | @rom _ k n u hq hp ho hn =>
    have h1 := hn.left hi
    have h2 := Stop.left_pos m.state k
    omega
  | program hpc hp he hn =>
    have := he.lt
    omega

/-- The words that are left are words that are run. -/
theorem count_ranWord_le (hF : HartZero F) : ∀ (es : List (Ev σ)) (t : Tracked σ) (r : ℕ), Inv F b t →
    Loc F b t.sys.mem t.sys.csrs t.abs r t.sys.core.halted t.sys.core.hart →
    (machine F b).Steps (fun t e => Polite t.sys e ∧ t.sys.mem.state ≠ .idle) t es →
    (machine F b).count (fun t e => t.sys.ranWord e) t es ≤ r
  | [], _, _, _, _, _ => Nat.zero_le _
  | e :: es, t, r, h, hl, hs => by
    have hnext := hl.next hF h.single hs.1.1 h.ir
    have hafter : t.sys.after r (t.sys.ranWord e).toNat = r - (t.sys.ranWord e).toNat := if_neg hs.1.2
    rw [hafter] at hnext
    have ih := count_ranWord_le hF es _ _ (h.next hF hs.1.1) hnext hs.2
    have hle : (t.sys.ranWord e).toNat ≤ r := by
      cases hran : t.sys.ranWord e with
      | false => exact Nat.zero_le r
      | true =>
        have hh : t.sys.core.halted = true := by
          by_contra hh
          simp [Sys.ranWord, hh] at hran
        exact (hh ▸ hl).left_pos hs.1.2
    rw [Machine.count]
    omega

/-- **Commands end.** A module that is not at rest comes to rest before the hart has run 47 words, whatever
the debugger asks meanwhile. -/
theorem module_rests (hF : HartZero F) (t : Tracked σ) (pre es : List (Ev σ)) (h0 : Start t)
    (hpre : (machine F b).Steps (fun t e => Polite t.sys e) t pre)
    (hes : (machine F b).Steps (fun t e => Polite t.sys e ∧ t.sys.mem.state ≠ .idle)
      ((machine F b).run t pre) es) :
    (machine F b).count (fun t e => t.sys.ranWord e) ((machine F b).run t pre) es ≤ 46 := by
  have hinv : Inv F b ((machine F b).run t pre) := Machine.run_inv (M := machine F b) (P := Inv F b)
    (fun t e h hp => h.next hF hp) pre _ h0.inv hpre
  exact count_ranWord_le hF es _ 46 hinv hinv.loc hes

instance (c : DmControl) : Decidable (DmCsrs.Single c) :=
  decidable_of_iff (c.dmactive = true ∧ c.hartsel = 0 ∧ c.ndmreset = false)
    ⟨fun h => ⟨h.1, h.2.1, h.2.2⟩, fun h => ⟨h.dmactive, h.hartsel, h.ndmreset⟩⟩

instance (s : Sys σ) (e : Ev σ) : Decidable (Polite s e) :=
  decidable_of_iff
    ((∀ q ∈ e.dmi, q.op = .write → DmReg.ofAddr q.addr = some .dmControl → DmCsrs.Single (.ofBits q.data)) ∧
      (s.csrs.cmdValid = true → e.dmi = none) ∧
      (s.csrs.dmcontrol.resumereq = true → ∀ q ∈ e.dmi, DmCsrs.starts s.csrs q = false) ∧
      (s.csrs.cmdValid = true → s.csrs.command.acAr.postexec = false))
    ⟨fun h => ⟨h.1, h.2.1, h.2.2.1, h.2.2.2⟩, fun h => ⟨h.single, h.alone, h.resume, h.plain⟩⟩

/-- The CSRs of a hart of which only the number is there. -/
def onlyHartid : Csrs Unit :=
  ⟨fun _ a => if a = mhartid then some 0 else none, fun _ _ _ => none, fun _ => false, id⟩

/-- A program with 42 in `s0`. -/
def user42 : User Unit := user atCommand

def cycle (q : Option DmiReq) (c : CoreEv Unit) : Ev Unit :=
  ⟨q, c, true, 0, false, 0, none, false, none, 0, 0, 0, 0⟩

def start42 : Tracked Unit where
  sys :=
    { csrs := { DmCsrs.reset false with dmcontrol := ⟨false, false, 0, 0, false, true⟩ }
      mem := Mem.reset
      core := ⟨false, ⟨0, user42.gpr, user42.fpr, ⟨0, 0, ()⟩⟩, none⟩ }
  abs := ⟨user42, 0⟩

/-- The hart fetches and runs `n` words. -/
def words (n : ℕ) : List (Ev Unit) := (List.replicate n [cycle none .fetch, cycle none .exec]).flatten

/-- The hart halts, and the debugger reads `s0`. -/
def readStart : List (Ev Unit) :=
  cycle none (.halt user42) :: words 10 ++ [cycle (some ⟨0x17, .write, 0x00321008⟩) .wait, cycle none .wait]

def readRun : List (Ev Unit) := readStart ++ words 32

theorem commands_run_s0 :
    ((machine onlyHartid 0).run start42 readRun).sys.csrs.data =
        ((machine onlyHartid 0).run start42 readRun).abs.data ∧
      ((machine onlyHartid 0).run start42 readRun).abs.data = 42 :=
  ⟨(commands_run (fun _ => rfl) start42 readRun ⟨rfl, ⟨rfl, rfl, rfl⟩, rfl, rfl, rfl⟩ (by decide +kernel)).1
    (by decide +kernel), by decide +kernel⟩

theorem module_rests_s0 : (machine onlyHartid 0).count (fun t e => t.sys.ranWord e)
    ((machine onlyHartid 0).run start42 readStart) (words 20) ≤ 46 :=
  module_rests (fun _ => rfl) start42 readStart (words 20) ⟨rfl, ⟨rfl, rfl, rfl⟩, rfl, rfl, rfl⟩
    (by decide +kernel) (by decide +kernel)

end Dm
end Ariane

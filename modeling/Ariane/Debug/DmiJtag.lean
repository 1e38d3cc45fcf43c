/-
# The JTAG debug transport and its password

`src/riscv-dbg/src/dmi_jtag.sv`, in the JTAG clock domain. The TAP, the debug
module behind the clock crossing and the HMAC engine are inputs; the engine
returns a function of its key and its message (`Engine`).

`pass_mode`, `startHash` and `pass_data` are assigned on some paths of a
combinational block only: they are latches, which no reset clears. `pass_check`
is assigned on every path, with 0 before the `case`: it is not a state, and the
reads of it in `Idle` see the 0. So a read or a write is never accepted, right
password or not; and the submission of a password goes through the state `Write`,
which raises a request to the debug module before anything has been hashed.

`Protected` is what the password is for; `protected_iff` says that it holds of
exactly the runs in which no password is ever submitted.
-/
import Mathlib.Data.BitVec
import Ariane.Lib.Machine

namespace Ariane
namespace Dmi

open Lib

/-! ### Types -/

/-- `dtm_op_e`. -/
inductive DtmOp
  | nop | read | write | pass
deriving DecidableEq, Repr

def DtmOp.ofBits (w : BitVec 2) : DtmOp :=
  match w.toNat with
  | 0 => .nop
  | 1 => .read
  | 2 => .write
  | _ => .pass

/-- `dmi_error_e`. -/
inductive DmiError
  | noError | reservedError | opFailed | busy
deriving DecidableEq, Repr

def DmiError.toBits : DmiError → BitVec 2
  | noError => 0
  | reservedError => 1
  | opFailed => 2
  | busy => 3

/-- `state_e`. -/
inductive Fsm
  | idle | read | waitReadValid | write | waitWriteValid | passChk | passChkValid
deriving DecidableEq, Repr

/-- The registers and the latches. -/
structure Regs where
  dr : BitVec 41
  state : Fsm
  address : BitVec 7
  data : BitVec 32
  error : DmiError
  passMode : Bool
  startHash : Bool
  passData : BitVec 512

/-- What the TAP does in a cycle. -/
inductive Tap
  | none | testLogicReset | captureDr | shiftDr (tdi : Bool) | updateDr
deriving DecidableEq, Repr

/-- What the TAP's instruction register selects. -/
inductive IrSel
  | dmiAccess | dtmcs | other
deriving DecidableEq, Repr

/-- The inputs of one cycle of the test clock. -/
structure In where
  trstN : Bool
  tap : Tap
  sel : IrSel
  dmiReset : Bool
  reqReady : Bool
  respValid : Bool
  respData : BitVec 32
  hmacReady : Bool
  hashValid : Bool

/-- The HMAC engine, the key it is given, and `pass_hash`. -/
structure Engine where
  hmac : BitVec 256 → BitVec 512 → BitVec 256
  jtagKey : BitVec 256
  passHash : BitVec 256

/-! The fields of `dmi_t` in the shift register. -/

def dmiAddress (dr : BitVec 41) : BitVec 7 := dr.extractLsb' 34 7
def dmiData (dr : BitVec 41) : BitVec 32 := dr.extractLsb' 2 32
def dmiOp (dr : BitVec 41) : DtmOp := .ofBits (dr.extractLsb' 0 2)

/-- The message that stands for a password. -/
def passMessage (w : BitVec 32) : BitVec 512 := 0#480 ++ w

/-! ### The state machine -/

/-- What the combinational block has assigned so far. -/
structure Upd where
  state : Fsm
  address : BitVec 7
  data : BitVec 32
  reqValid : Bool
  passCheck : Bool
  passMode : Bool
  startHash : Bool
  passData : BitVec 512

def Upd.defaults (s : Regs) : Upd where
  state := s.state
  address := s.address
  data := s.data
  reqValid := false
  passCheck := false
  passMode := s.passMode
  startHash := s.startHash
  passData := s.passData

/-- An update of the DMI register that the idle state takes notice of. -/
def accepts (s : Regs) (i : In) : Bool :=
  i.sel == .dmiAccess && i.tap == .updateDr && s.error == .noError

/-- `Idle`. -/
def updIdle (s : Regs) (i : In) (u : Upd) : Upd :=
  if accepts s i then
    let u : Upd := { u with address := dmiAddress s.dr, data := dmiData s.dr }
    if dmiOp s.dr = .read ∧ u.passCheck = true then { u with state := .read }
    else if dmiOp s.dr = .write ∧ u.passCheck = true then { u with state := .write }
    else if dmiOp s.dr = .pass then { u with state := .write, passMode := true }
    else u
  else u

/-- `Write`. The word that is hashed is the response's, not the submitted one. -/
def updWriteState (s : Regs) (i : In) (u : Upd) : Upd :=
  let u : Upd := { u with reqValid := true }
  if i.reqReady then
    let u : Upd := { u with data := i.respData }
    if s.passMode then
      { u with passData := passMessage u.data, state := .passChk, passMode := false }
    else { u with state := .idle }
  else u

/-- The digest the engine shows. -/
def hash (E : Engine) (s : Regs) : BitVec 256 := E.hmac E.jtagKey s.passData

/-- The `case` of the state machine. -/
def fsm (E : Engine) (s : Regs) (i : In) : Upd :=
  let u := Upd.defaults s
  match s.state with
  | .idle => updIdle s i u
  | .read => { u with reqValid := true, state := if i.reqReady then .waitReadValid else s.state }
  | .waitReadValid => { u with state := if i.respValid then .idle else s.state }
  | .write => updWriteState s i u
  | .waitWriteValid => { u with state := if i.respValid then .idle else s.state }
  | .passChk =>
    if i.hmacReady then { u with startHash := true, state := .passChkValid }
    else { u with state := .passChk }
  | .passChkValid =>
    if i.hashValid then { u with passCheck := hash E s == E.passHash, state := .idle }
    else { u with state := .passChkValid }

/-- `error_dmi_busy`. -/
def errorDmiBusy (s : Regs) (i : In) : Bool :=
  (i.tap == .updateDr && s.state != .idle) ||
    (i.tap == .captureDr && (s.state == .read || s.state == .waitReadValid))

/-- `error_d`. -/
def errorD (s : Regs) (i : In) : DmiError :=
  if i.dmiReset && i.sel == .dtmcs then .noError
  else if errorDmiBusy s i then .busy
  else s.error

/-- `dr_d`. -/
def drD (s : Regs) (i : In) : BitVec 41 :=
  match i.tap with
  | .testLogicReset => 0
  | .captureDr =>
    if i.sel = .dmiAccess then
      if s.error = .noError ∧ errorDmiBusy s i = false then
        s.address ++ s.data ++ DmiError.noError.toBits
      else if s.error = .busy ∨ errorDmiBusy s i = true then
        s.address ++ s.data ++ DmiError.busy.toBits
      else s.dr
    else s.dr
  | .shiftDr tdi =>
    if i.sel = .dmiAccess then BitVec.ofBool tdi ++ s.dr.extractLsb' 1 40 else s.dr
  | _ => s.dr

/-- The registers after a cycle; `trst_ni` does not reach the latches. -/
def next (E : Engine) (s : Regs) (i : In) : Regs where
  dr := if i.trstN then drD s i else 0
  state := if i.trstN then (fsm E s i).state else .idle
  address := if i.trstN then (fsm E s i).address else 0
  data := if i.trstN then (fsm E s i).data else 0
  error := if i.trstN then errorD s i else .noError
  passMode := (fsm E s i).passMode
  startHash := (fsm E s i).startHash
  passData := (fsm E s i).passData

/-- `dmi_req_valid`. -/
def reqValid (s : Regs) : Bool := s.state == .read || s.state == .write

/-- `dmi_req`. -/
structure Request where
  addr : BitVec 7
  op : DtmOp
  data : BitVec 32
deriving DecidableEq, Repr

def request (s : Regs) : Request := ⟨s.address, if s.state = .write then .write else .read, s.data⟩

/-- The request is raised in the two request states, whatever the inputs. -/
theorem fsm_reqValid (E : Engine) (s : Regs) (i : In) : (fsm E s i).reqValid = reqValid s := by
  unfold fsm reqValid
  cases s.state with
  | idle =>
    show (updIdle s i (Upd.defaults s)).reqValid = false
    unfold updIdle
    split
    · dsimp only
      split
      · rfl
      · split
        · rfl
        · split <;> rfl
    · rfl
  | write =>
    show (updWriteState s i (Upd.defaults s)).reqValid = true
    unfold updWriteState
    dsimp only
    split
    · split <;> rfl
    · rfl
  | passChk => dsimp only; split <;> rfl
  | passChkValid => dsimp only; split <;> rfl
  | _ => rfl

/-- The registers `trst_ni` clears are clear; the latches hold anything. -/
def IsReset (s : Regs) : Prop :=
  s.dr = 0 ∧ s.state = .idle ∧ s.address = 0 ∧ s.data = 0 ∧ s.error = .noError

def machine (E : Engine) : Machine Regs In := ⟨IsReset, next E⟩

/-! ### What the password is for -/

/-- The idle state takes a password. -/
def PassAccepted (s : Regs) (i : In) : Prop :=
  i.trstN = true ∧ s.state = .idle ∧ accepts s i = true ∧ dmiOp s.dr = .pass

instance (s : Regs) (i : In) : Decidable (PassAccepted s i) := by unfold PassAccepted; infer_instance

/-- The transport with a record of what happened since the last reset: the
passwords submitted, and whether a digest came back while one of them was right. -/
structure Watched where
  regs : Regs
  submitted : List (BitVec 32)
  unlocked : Bool

/-- The password hashes to `pass_hash`. -/
def rightPass (E : Engine) (w : BitVec 32) : Bool :=
  E.hmac E.jtagKey (passMessage w) == E.passHash

def watchedNext (E : Engine) (g : Watched) (i : In) : Watched where
  regs := next E g.regs i
  submitted :=
    if i.trstN then
      if PassAccepted g.regs i then dmiData g.regs.dr :: g.submitted else g.submitted
    else []
  unlocked :=
    i.trstN && (g.unlocked ||
      (g.regs.state == .passChkValid && i.hashValid && g.submitted.any (rightPass E)))

def watched (E : Engine) : Machine Watched In :=
  ⟨fun g => IsReset g.regs ∧ g.submitted = [] ∧ g.unlocked = false, watchedNext E⟩

/-- A well-formed read or write arrives in the idle state, without a sticky error. -/
def Asked (s : Regs) (i : In) : Prop :=
  i.trstN = true ∧ s.state = .idle ∧ accepts s i = true ∧
    (dmiOp s.dr = .read ∨ dmiOp s.dr = .write)

/-- The requests the debug module takes along a run. -/
def requests (E : Engine) : Regs → List In → List Request
  | _, [] => []
  | s, i :: is =>
    (if reqValid s && i.reqReady && i.trstN then [request s] else []) ++ requests E (next E s i) is

/-- The run goes back to the idle state, and is there for the first time at its end. -/
def FirstReturn (E : Engine) (s : Regs) (js : List In) : Prop :=
  (machine E).Steps (fun s i => s.state ≠ .idle ∧ i.trstN = true) s js ∧
    ((machine E).run s js).state = .idle

/-- The cycle neither captures, nor updates, nor resets. -/
def BetweenScans (_ : Regs) (i : In) : Prop :=
  i.trstN = true ∧ i.tap ≠ .captureDr ∧ i.tap ≠ .updateDr ∧ i.tap ≠ .testLogicReset

/-- A request that is asked for is served: it is raised, taken exactly once until
the idle state is back, with the address and the data that were shifted in; and the
capture after a read shows the data of the response. -/
structure Served (E : Engine) (s : Regs) (i : In) : Prop where
  issued : reqValid (next E s i) = true
  one : ∀ js, FirstReturn E (next E s i) js →
    requests E (next E s i) js = [⟨dmiAddress s.dr, dmiOp s.dr, dmiData s.dr⟩]
  read : dmiOp s.dr = .read → ∀ js k ks c, FirstReturn E (next E s i) (js ++ [k]) →
    (machine E).Steps BetweenScans ((machine E).run (next E s i) (js ++ [k])) ks →
    ((machine E).run (next E s i) (js ++ [k] ++ ks)).error = .noError →
    c.trstN = true → c.tap = .captureDr → c.sel = .dmiAccess →
    dmiData ((machine E).run (next E s i) (js ++ [k] ++ ks ++ [c])).dr = k.respData

/-- No request before a right password came back hashed, and every request after it. -/
def Protected (E : Engine) (g : Watched) (is : List In) : Prop :=
  (watched E).Always (fun g => reqValid g.regs = true → g.unlocked = true) g is ∧
    (watched E).Steps (fun g i => g.unlocked = true → Asked g.regs i → Served E g.regs i) g is

/-! ### When it holds -/

/-- Nothing has been unlocked and nothing is going on. -/
def Locked (g : Watched) : Prop := g.regs.state = .idle ∧ g.unlocked = false

/-- The idle state is left only with a password: the default of `pass_check` keeps
reads and writes out. -/
theorem state_next_idle (E : Engine) {s : Regs} {i : In} (hs : s.state = .idle)
    (ht : i.trstN = true) :
    (next E s i).state = if accepts s i = true ∧ dmiOp s.dr = .pass then .write else .idle := by
  have hfsm : (next E s i).state = (updIdle s i (Upd.defaults s)).state := by
    simp only [next, fsm, hs, ht, if_true]
  have hpc : (Upd.defaults s).passCheck = false := rfl
  rw [hfsm]
  unfold updIdle
  by_cases ha : accepts s i = true
  · rw [if_pos ha]
    by_cases hp : dmiOp s.dr = .pass
    · simp [ha, hp]
    · simp only [hpc, hp, Bool.false_eq_true, and_false, if_false]
      exact hs
  · rw [if_neg ha, if_neg (fun h => ha h.1)]
    exact hs

/-- Without a password the transport stays locked. -/
theorem locked_next (E : Engine) {g : Watched} {i : In} (h : Locked g)
    (hn : ¬PassAccepted g.regs i) : Locked (watchedNext E g i) := by
  obtain ⟨hs, hu⟩ := h
  by_cases ht : i.trstN = true
  · have hstate := state_next_idle E hs ht
    have hna : ¬(accepts g.regs i = true ∧ dmiOp g.regs.dr = .pass) :=
      fun h => hn ⟨ht, hs, h.1, h.2⟩
    rw [if_neg hna] at hstate
    exact ⟨hstate, by simp [watchedNext, hu, hs]⟩
  · rw [Bool.not_eq_true] at ht
    exact ⟨by simp [watchedNext, next, ht], by simp [watchedNext, ht]⟩

/-- A password raises a request at once, while nothing is unlocked. -/
theorem pass_raises (E : Engine) {g : Watched} {i : In} (h : Locked g)
    (hp : PassAccepted g.regs i) :
    reqValid (watchedNext E g i).regs = true ∧ (watchedNext E g i).unlocked = false := by
  obtain ⟨hs, hu⟩ := h
  obtain ⟨ht, -, ha, hop⟩ := hp
  have hstate := state_next_idle E hs ht
  rw [if_pos ⟨ha, hop⟩] at hstate
  exact ⟨by simp [reqValid, watchedNext, hstate], by simp [watchedNext, hu, hs]⟩

theorem reqValid_of_locked {g : Watched} (h : Locked g) : reqValid g.regs = false := by
  rw [reqValid, h.1]
  rfl

/-- From a locked state, what the password is for holds of exactly the runs in
which none is submitted. The induction is on the run; the state stays locked up to
the first password. -/
theorem protected_iff_of_locked (E : Engine) : ∀ (is : List In) (g : Watched), Locked g →
    (Protected E g is ↔ (watched E).Steps (fun g i => ¬PassAccepted g.regs i) g is)
  | [], g, h => by
    refine ⟨fun _ => trivial, fun _ => ⟨?_, trivial⟩⟩
    intro hr
    rw [reqValid_of_locked h] at hr
    cases hr
  | i :: is, g, h => by
    have hg : reqValid g.regs = true → g.unlocked = true := by
      intro hr
      rw [reqValid_of_locked h] at hr
      cases hr
    have hserve : g.unlocked = true → Asked g.regs i → Served E g.regs i := by
      intro hu
      rw [h.2] at hu
      cases hu
    constructor
    · rintro ⟨⟨-, hal⟩, -, hst⟩
      have hn : ¬PassAccepted g.regs i := by
        intro hp
        obtain ⟨hr, hu⟩ := pass_raises E h hp
        have hal0 : (watchedNext E g i).unlocked = true := hal.head hr
        rw [hu] at hal0
        cases hal0
      exact ⟨hn, (protected_iff_of_locked E is _ (locked_next E h hn)).1 ⟨hal, hst⟩⟩
    · rintro ⟨hn, hst⟩
      obtain ⟨hal, hst'⟩ := (protected_iff_of_locked E is _ (locked_next E h hn)).2 hst
      exact ⟨⟨hg, hal⟩, hserve, hst'⟩

/-- From any reset, the password protects exactly the runs in which none is
submitted. -/
theorem protected_iff (E : Engine) (g : Watched) (hg : (watched E).init g) (is : List In) :
    Protected E g is ↔ (watched E).Steps (fun g i => ¬PassAccepted g.regs i) g is :=
  protected_iff_of_locked E is g ⟨hg.1.2.1, hg.2.2⟩

/-- A cycle of the test clock with the DMI register selected. -/
def In.scan (tap : Tap) : In where
  trstN := true
  tap := tap
  sel := .dmiAccess
  dmiReset := false
  reqReady := false
  respValid := false
  respData := 0
  hmacReady := false
  hashValid := false

/-- The cycles that shift `w` in, lowest bit first, and update. -/
def scanIn (w : BitVec 41) : List In :=
  (List.range 41).map (fun k => In.scan (.shiftDr (w.getLsbD k))) ++ [In.scan .updateDr]

/-- An engine that hands the low half of its message back, and a password 1. -/
def toyEngine : Engine := ⟨fun _ m => m.extractLsb' 0 256, 0, 1⟩

def watchedReset : Watched := ⟨⟨0, .idle, 0, 0, .noError, false, false, 0⟩, [], false⟩

/-- A run that only asks for a read. -/
theorem protected_read : Protected toyEngine watchedReset (scanIn 1) :=
  (protected_iff toyEngine watchedReset ⟨⟨rfl, rfl, rfl, rfl, rfl⟩, rfl, rfl⟩ (scanIn 1)).2
    (by decide +kernel)

/-- The wrong password 0 raises a request to the debug module. -/
theorem wrong_pass_not_protected : (watched toyEngine).init watchedReset ∧
    rightPass toyEngine 0 = false ∧ ¬Protected toyEngine watchedReset (scanIn 3) := by
  refine ⟨⟨⟨rfl, rfl, rfl, rfl, rfl⟩, rfl, rfl⟩, by decide +kernel, ?_⟩
  intro h
  exact absurd h.1.last (by decide +kernel)

end Dmi
end Ariane

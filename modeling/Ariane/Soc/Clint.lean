/-
# The core-local interrupt controller

`clint.sv` with its bus interface `axi_lite_interface.sv`, for any number of cores. A request
is taken in one state, its data or its answer in the next; the registers are selected by the
low 16 bits of the address.

`File` is what the registers are for: one value for each register of the map, written as a
whole by the accepted writes, in order, and counted on by the clock (`Tracked`). In every run the
registers follow it, and every request gets one answer (`clint_run`). Left out is what a write does
to an address where the code reads its map differently, and what a read of one finds (`Off`,
`OddMsip`):

* the windows of `msip` and `mtimecmp` include the address after their last register, where
  the slice of the address names another one;
* with more than 2048 cores the slice for `mtimecmp` has a bit of its base address in it;
* `msip` of an odd core is written from its half of the bus and read to the other one.

The byte strobes are not looked at (`strobes_ignored`).
-/
import Mathlib.Data.Nat.Log
import Mathlib.Data.BitVec
import Ariane.Lib.Machine

namespace Ariane
namespace Clint

open Lib

variable {n idw : ℕ}

/-! ### The bus interface -/

/-- The request channels of the bus and `rtc_i`. `undef` is what an element past the end of a
register array reads as. -/
structure In (idw : ℕ) where
  awValid : Bool
  awId : BitVec idw
  awAddr : BitVec 64
  wValid : Bool
  wData : BitVec 64
  wStrb : BitVec 8
  bReady : Bool
  arValid : Bool
  arId : BitVec idw
  arAddr : BitVec 64
  rReady : Bool
  rtc : Bool
  undef : BitVec 64

inductive State
  | idle | read | write | writeB
deriving DecidableEq, Repr

/-- The registers of `axi_lite_interface`. -/
structure Lite (idw : ℕ) where
  state : State
  transId : BitVec idw
  address : BitVec 64
deriving DecidableEq

/-- What the state machine drives. -/
structure LiteOut (idw : ℕ) where
  next : Lite idw
  awReady : Bool
  wReady : Bool
  bValid : Bool
  arReady : Bool
  rValid : Bool
  addressO : BitVec 64
  we : Bool
  en : Bool

def Lite.out (s : Lite idw) (i : In idw) : LiteOut idw :=
  let o : LiteOut idw := ⟨s, false, false, false, false, false, 0, false, false⟩
  match s.state with
  | .idle =>
    if i.awValid then { o with awReady := true, next := ⟨.write, i.awId, i.awAddr⟩ }
    else if i.arValid then { o with arReady := true, next := ⟨.read, i.arId, i.arAddr⟩ }
    else o
  | .read =>
    { o with
      en := true
      addressO := s.address
      rValid := true
      next := { s with state := if i.rReady then .idle else .read } }
  | .write =>
    if i.wValid then
      { o with
        wReady := true
        addressO := s.address
        en := true
        we := true
        next := { s with state := .writeB } }
    else o
  | .writeB => { o with bValid := true, next := { s with state := if i.bReady then .idle else .writeB } }

/-! ### The registers -/

structure Regs (n idw : ℕ) where
  lite : Lite idw
  mtime : BitVec 64
  mtimecmp : Fin n → BitVec 64
  msip : Fin n → Bool
  /-- `reg_q` and `serial_q` of the synchronizer. -/
  sync : BitVec 2
  serial : Bool

def Regs.reset : Regs n idw := ⟨⟨.idle, 0, 0⟩, 0, fun _ => 0, fun _ => false, 0, false⟩

/-- `AddrSelWidth`. -/
def addrSelWidth (n : ℕ) : ℕ := if n = 1 then 1 else Nat.clog 2 n

/-- `register_address`. -/
def registerAddress (a : BitVec 64) : ℕ := (a.extractLsb' 0 16).toNat

/-- The items of the `case`s over `register_address`. -/
inductive Item
  | msip | mtimecmp | mtime | default
deriving DecidableEq, Repr

def item (n : ℕ) (a : BitVec 64) : Item :=
  if registerAddress a ≤ 4 * n then .msip
  else if 0x4000 ≤ registerAddress a ∧ registerAddress a ≤ 0x4000 + 8 * n then .mtimecmp
  else if registerAddress a = 0xbff8 then .mtime
  else .default

/-- `address[AddrSelWidth-1+lo:lo]`. -/
def sel (n : ℕ) (a : BitVec 64) (lo : ℕ) : ℕ := (a.extractLsb' lo (addrSelWidth n)).toNat

/-- `wdata[32*address[2]]`. -/
def msipBit (a wdata : BitVec 64) : Bool := wdata.getLsbD (32 * (a.extractLsb' 2 1).toNat)

namespace Regs

variable (s : Regs n idw) (i : In idw)

def out : LiteOut idw := s.lite.out i

/-- `r_edge_o` of the synchronizer. -/
def increaseTimer : Bool := s.sync.getLsbD 1 && !s.serial

/-- `en && we`. -/
def writing : Bool := (s.out i).en && (s.out i).we

def mtimeN : BitVec 64 :=
  if s.writing i ∧ item n (s.out i).addressO = .mtime then i.wData
  else if s.increaseTimer then s.mtime + 1
  else s.mtime

def mtimecmpN (k : Fin n) : BitVec 64 :=
  if s.writing i ∧ item n (s.out i).addressO = .mtimecmp ∧ k.val = sel n (s.out i).addressO 3 then i.wData
  else s.mtimecmp k

def msipN (k : Fin n) : Bool :=
  if s.writing i ∧ item n (s.out i).addressO = .msip ∧ k.val = sel n (s.out i).addressO 2 then
    msipBit (s.out i).addressO i.wData
  else s.msip k

def next : Regs n idw where
  lite := (s.out i).next
  mtime := s.mtimeN i
  mtimecmp := s.mtimecmpN i
  msip := s.msipN i
  sync := s.sync.extractLsb' 0 1 ++ BitVec.ofBool i.rtc
  serial := s.sync.getLsbD 1

/-- The element of a register array at an index. -/
def element (f : Fin n → BitVec 64) (k : ℕ) (undef : BitVec 64) : BitVec 64 :=
  if h : k < n then f ⟨k, h⟩ else undef

/-- `rdata`. -/
def rdata : BitVec 64 :=
  if (s.out i).en && !(s.out i).we then
    match item n (s.out i).addressO with
    | .msip =>
      element (fun k => (BitVec.ofBool (s.msip k)).setWidth 64) (sel n (s.out i).addressO 2) i.undef
    | .mtimecmp => element s.mtimecmp (sel n (s.out i).addressO 3) i.undef
    | .mtime => s.mtime
    | .default => 0
  else 0

def timerIrqO (k : Fin n) : Bool := decide (s.mtimecmp k ≤ s.mtime)

def ipiO (k : Fin n) : Bool := s.msip k

end Regs

/-! ### What the registers are for -/

/-- The registers of the map. -/
inductive Reg (n : ℕ)
  | msip (k : Fin n) | mtimecmp (k : Fin n) | mtime
deriving DecidableEq

/-- The register at an address, if there is one: `msip[k]` from `4k` on, `mtimecmp[k]` from
`0x4000 + 8k` on, `mtime` at `0xbff8`. -/
def addressed (n a : ℕ) : Option (Reg n) :=
  if h : a < 4 * n then some (.msip ⟨a / 4, by omega⟩)
  else if h : 0x4000 ≤ a ∧ a < 0x4000 + 8 * n then some (.mtimecmp ⟨(a - 0x4000) / 8, by omega⟩)
  else if a = 0xbff8 then some .mtime
  else none

abbrev File (n : ℕ) := Reg n → BitVec 64

/-- What a write to an address in a register makes of it. -/
def stored (r : Reg n) (a wdata : BitVec 64) : BitVec 64 :=
  match r with
  | .msip _ => (BitVec.ofBool (msipBit a wdata)).setWidth 64
  | _ => wdata

namespace File

variable (f : File n)

def write (a wdata : BitVec 64) : File n := fun r =>
  if addressed n (registerAddress a) = some r then stored r a wdata else f r

/-- The clock counts `mtime` on. -/
def tick (increase : Bool) : File n := fun r => if r = .mtime ∧ increase = true then f r + 1 else f r

/-- What a read of an address finds on the bus: an odd core's `msip` is in the upper half. -/
def read (a : BitVec 64) : BitVec 64 :=
  match addressed n (registerAddress a) with
  | some (.msip k) => f (.msip k) <<< (32 * (k.val % 2))
  | some r => f r
  | none => 0

end File

/-- The registers as a file. -/
def Regs.value (s : Regs n idw) : File n
  | .msip k => (BitVec.ofBool (s.msip k)).setWidth 64
  | .mtimecmp k => s.mtimecmp k
  | .mtime => s.mtime

/-- The code's map has another register at the address, or one where there is none. -/
def Off (n : ℕ) (a : BitVec 64) : Prop :=
  registerAddress a = 4 * n ∨ registerAddress a = 0x4000 + 8 * n ∨
    (2048 < n ∧ 0x4000 ≤ registerAddress a ∧ registerAddress a < 0x4000 + 8 * n) ∨
      (16384 < n ∧ registerAddress a < 4 * n)

instance (n : ℕ) (a : BitVec 64) : Decidable (Off n a) := inferInstanceAs (Decidable (_ ∨ _))

/-- The address is in `msip` of an odd core. -/
def OddMsip (n : ℕ) (a : BitVec 64) : Prop :=
  ∃ k : Fin n, addressed n (registerAddress a) = some (.msip k) ∧ k.val % 2 = 1

/-! ### The controller with a log of its bus -/

structure Tracked (n idw : ℕ) where
  regs : Regs n idw
  file : File n
  /-- The write addresses that were accepted, the data, and the answers that were taken. -/
  aws : List (BitVec idw × BitVec 64)
  ws : List (BitVec 64)
  bs : List (BitVec idw)
  /-- The read addresses that were accepted and the answers that were taken. -/
  ars : List (BitVec idw × BitVec 64)
  rs : List (BitVec idw × BitVec 64)

namespace Tracked

variable (t : Tracked n idw) (i : In idw)

def awBeat : Bool := i.awValid && (t.regs.out i).awReady
def wBeat : Bool := i.wValid && (t.regs.out i).wReady
def bBeat : Bool := (t.regs.out i).bValid && i.bReady
def arBeat : Bool := i.arValid && (t.regs.out i).arReady
def rBeat : Bool := (t.regs.out i).rValid && i.rReady

/-- The address of the write whose data come next. -/
def due : Option (BitVec 64) := t.aws[t.ws.length]?.map Prod.snd

/-- The file after the clock and the write of this cycle, if there is one. What a write does that
is left out it takes from the registers. -/
def fileD : File n :=
  match t.due with
  | some a =>
    if t.wBeat i then
      if Off n a then (t.regs.next i).value else (t.file.tick t.regs.increaseTimer).write a i.wData
    else t.file.tick t.regs.increaseTimer
  | none => t.file.tick t.regs.increaseTimer

def next : Tracked n idw where
  regs := t.regs.next i
  file := t.fileD i
  aws := if t.awBeat i then t.aws ++ [(i.awId, i.awAddr)] else t.aws
  ws := if t.wBeat i then t.ws ++ [i.wData] else t.ws
  bs := if t.bBeat i then t.bs ++ [t.regs.lite.transId] else t.bs
  ars := if t.arBeat i then t.ars ++ [(i.arId, i.arAddr)] else t.ars
  rs := if t.rBeat i then t.rs ++ [(t.regs.lite.transId, t.regs.rdata i)] else t.rs

def reset : Tracked n idw := ⟨Regs.reset, fun _ => 0, [], [], [], [], []⟩

end Tracked

def tracked (n idw : ℕ) : Machine (Tracked n idw) (In idw) := ⟨(· = Tracked.reset), Tracked.next⟩

/-! ### The two maps -/

theorem registerAddress_eq (a : BitVec 64) : registerAddress a = a.toNat % 65536 := by
  rw [registerAddress, BitVec.extractLsb'_toNat, Nat.shiftRight_zero]

theorem registerAddress_lt (a : BitVec 64) : registerAddress a < 65536 := by
  rw [registerAddress_eq]
  exact Nat.mod_lt _ (by decide)

theorem sel_eq (n : ℕ) (a : BitVec 64) (lo : ℕ) : sel n a lo = a.toNat / 2 ^ lo % 2 ^ addrSelWidth n := by
  rw [sel, BitVec.extractLsb'_toNat, Nat.shiftRight_eq_div_pow]

theorem le_two_pow_addrSelWidth (n : ℕ) : n ≤ 2 ^ addrSelWidth n := by
  unfold addrSelWidth
  split
  · omega
  · exact Nat.le_pow_clog (by decide) n

theorem addrSelWidth_le {w : ℕ} (hw : 1 ≤ w) (h : n ≤ 2 ^ w) : addrSelWidth n ≤ w := by
  unfold addrSelWidth
  split
  · exact hw
  · exact (Nat.clog_le_iff_le_pow (by decide)).2 h

/-- The slice of an address is the index, if the bits of the window's base are above it. -/
theorem sel_eq_of_window {a : BitVec 64} {lo w k : ℕ} (hw : addrSelWidth n ≤ w) (hk : k < n)
    (h : a.toNat / 2 ^ lo % 2 ^ w = k) : sel n a lo = k := by
  have hdvd : 2 ^ addrSelWidth n ∣ 2 ^ w := Nat.pow_dvd_pow 2 hw
  have hlt : k < 2 ^ addrSelWidth n := hk.trans_le (le_two_pow_addrSelWidth n)
  rw [sel_eq, ← Nat.mod_mod_of_dvd _ hdvd, h, Nat.mod_eq_of_lt hlt]

theorem sel_msip {a : BitVec 64} (hoff : ¬Off n a) (h : registerAddress a < 4 * n) :
    sel n a 2 = registerAddress a / 4 := by
  have hn : n ≤ 2 ^ 14 := by
    by_contra hn
    exact hoff (.inr (.inr (.inr ⟨by omega, h⟩)))
  refine sel_eq_of_window (addrSelWidth_le (by decide) hn) (by omega) ?_
  rw [registerAddress_eq]
  omega

theorem sel_mtimecmp {a : BitVec 64} (hoff : ¬Off n a) (h : 0x4000 ≤ registerAddress a)
    (h' : registerAddress a < 0x4000 + 8 * n) : sel n a 3 = (registerAddress a - 0x4000) / 8 := by
  have hn : n ≤ 2 ^ 11 := by
    by_contra hn
    exact hoff (.inr (.inr (.inl ⟨by omega, h, h'⟩)))
  refine sel_eq_of_window (addrSelWidth_le (by decide) hn) (by omega) ?_
  have hlt := registerAddress_lt a
  rw [registerAddress_eq] at h h' ⊢
  omega

/-- Where the maps agree, the item and the slice are those of the register. -/
theorem item_cases {a : BitVec 64} (hoff : ¬Off n a) :
    (∃ k : Fin n, addressed n (registerAddress a) = some (.msip k) ∧ item n a = .msip ∧ sel n a 2 = k.val) ∨
      (∃ k : Fin n, addressed n (registerAddress a) = some (.mtimecmp k) ∧ item n a = .mtimecmp ∧
        sel n a 3 = k.val) ∨
      (addressed n (registerAddress a) = some .mtime ∧ item n a = .mtime) ∨
      addressed n (registerAddress a) = none ∧ item n a = .default := by
  have h4 : registerAddress a ≠ 4 * n := fun h => hoff (.inl h)
  have h8 : registerAddress a ≠ 0x4000 + 8 * n := fun h => hoff (.inr (.inl h))
  unfold item addressed
  by_cases hm : registerAddress a < 4 * n
  · have hle : registerAddress a ≤ 4 * n := hm.le
    exact .inl ⟨⟨registerAddress a / 4, by omega⟩, by rw [dif_pos hm], if_pos hle, sel_msip hoff hm⟩
  · have hle : ¬registerAddress a ≤ 4 * n := by omega
    by_cases hc : 0x4000 ≤ registerAddress a ∧ registerAddress a < 0x4000 + 8 * n
    · have hc' : 0x4000 ≤ registerAddress a ∧ registerAddress a ≤ 0x4000 + 8 * n := ⟨hc.1, hc.2.le⟩
      refine .inr (.inl ⟨⟨(registerAddress a - 0x4000) / 8, by omega⟩, ?_, ?_, sel_mtimecmp hoff hc.1 hc.2⟩)
      · rw [dif_neg hm, dif_pos hc]
      · rw [if_neg hle, if_pos hc']
    · have hc' : ¬(0x4000 ≤ registerAddress a ∧ registerAddress a ≤ 0x4000 + 8 * n) := by omega
      rw [dif_neg hm, dif_neg hc, if_neg hle, if_neg hc']
      by_cases ht : registerAddress a = 0xbff8
      · rw [if_pos ht, if_pos ht]
        exact .inr (.inr (.inl ⟨rfl, rfl⟩))
      · rw [if_neg ht, if_neg ht]
        exact .inr (.inr (.inr ⟨rfl, rfl⟩))

section Maps

variable {a : BitVec 64} (hoff : ¬Off n a)

include hoff

theorem msip_iff (k : Fin n) :
    item n a = .msip ∧ k.val = sel n a 2 ↔ addressed n (registerAddress a) = some (.msip k) := by
  rcases item_cases hoff with ⟨j, ha, hi, hs⟩ | ⟨j, ha, hi, hs⟩ | ⟨ha, hi⟩ | ⟨ha, hi⟩
  · rw [ha, hi, hs]
    simp [Fin.ext_iff, eq_comm]
  all_goals
    rw [ha, hi]
    simp

theorem mtimecmp_iff (k : Fin n) :
    item n a = .mtimecmp ∧ k.val = sel n a 3 ↔ addressed n (registerAddress a) = some (.mtimecmp k) := by
  rcases item_cases hoff with ⟨j, ha, hi, hs⟩ | ⟨j, ha, hi, hs⟩ | ⟨ha, hi⟩ | ⟨ha, hi⟩
  · rw [ha, hi]
    simp
  · rw [ha, hi, hs]
    simp [Fin.ext_iff, eq_comm]
  all_goals
    rw [ha, hi]
    simp

theorem mtime_iff : item n a = .mtime ↔ addressed n (registerAddress a) = some .mtime := by
  rcases item_cases hoff with ⟨j, ha, hi, hs⟩ | ⟨j, ha, hi, hs⟩ | ⟨ha, hi⟩ | ⟨ha, hi⟩
  all_goals
    rw [ha, hi]
    simp

end Maps

/-! ### One cycle of the registers -/

namespace Regs

variable (s : Regs n idw) (i : In idw)

/-- Without a write the clock alone moves the registers. -/
theorem value_next_of_not_writing (h : s.writing i = false) :
    (s.next i).value = s.value.tick s.increaseTimer := by
  funext r
  cases r with
  | msip k => simp [value, next, msipN, File.tick, h]
  | mtimecmp k => simp [value, next, mtimecmpN, File.tick, h]
  | mtime => simp [value, next, mtimeN, File.tick, h]

/-- A write replaces the register at its address. -/
theorem value_next_of_writing (h : s.writing i = true) (hoff : ¬Off n (s.out i).addressO) :
    (s.next i).value = (s.value.tick s.increaseTimer).write (s.out i).addressO i.wData := by
  funext r
  cases r with
  | msip k =>
    simp only [value, next, msipN, h, true_and, File.write, File.tick, stored, msip_iff hoff, reduceCtorEq,
      false_and, if_false]
    split <;> rfl
  | mtimecmp k =>
    simp only [value, next, mtimecmpN, h, true_and, File.write, File.tick, stored, mtimecmp_iff hoff,
      reduceCtorEq, false_and, if_false]
  | mtime =>
    simp only [value, next, mtimeN, h, true_and, File.write, File.tick, stored, mtime_iff hoff]

/-- A read gives the register at its address; `msip` of an odd core apart. -/
theorem rdata_eq (hen : ((s.out i).en && !(s.out i).we) = true) (hoff : ¬Off n (s.out i).addressO)
    (hodd : ¬OddMsip n (s.out i).addressO) : s.rdata i = s.value.read (s.out i).addressO := by
  unfold rdata File.read
  rw [if_pos hen]
  rcases item_cases hoff with ⟨k, ha, hi, hs⟩ | ⟨k, ha, hi, hs⟩ | ⟨ha, hi⟩ | ⟨ha, hi⟩
  · have hk : k.val % 2 = 0 := by
      by_contra hk
      exact hodd ⟨k, ha, by omega⟩
    simp only [ha, hi, hs, element, k.isLt, dif_pos, value, hk, Nat.mul_zero, BitVec.shiftLeft_zero]
  · simp only [ha, hi, hs, element, k.isLt, dif_pos, value]
  · simp only [ha, hi, value]
  · simp only [ha, hi]

end Regs

/-! ### Runs -/

/-- Where the bus interface is between the logs. -/
def Phase (t : Tracked n idw) : Prop :=
  match t.regs.lite.state with
  | .idle => t.bs = t.aws.map Prod.fst ∧ t.ws.length = t.aws.length ∧ t.rs.length = t.ars.length
  | .read =>
    t.bs = t.aws.map Prod.fst ∧ t.ws.length = t.aws.length ∧
      ∃ l, t.ars = l ++ [(t.regs.lite.transId, t.regs.lite.address)] ∧ t.rs.length = l.length
  | .write =>
    (∃ l, t.aws = l ++ [(t.regs.lite.transId, t.regs.lite.address)] ∧ t.bs = l.map Prod.fst ∧
      t.ws.length = l.length) ∧ t.rs.length = t.ars.length
  | .writeB =>
    (∃ l, t.aws = l ++ [(t.regs.lite.transId, t.regs.lite.address)] ∧ t.bs = l.map Prod.fst ∧
      t.ws.length = t.aws.length) ∧ t.rs.length = t.ars.length

structure Inv (t : Tracked n idw) : Prop where
  value : t.regs.value = t.file
  phase : Phase t

/-- What the controller owes in a cycle. The registers are the file's, and so are the
interrupts. Data are taken only with an address, an answer is the next one that is owed, with
its identifier and for a read with the file's register, where both maps have it alike; an answer
that is owed is up, and at most one is. -/
structure Correct (t : Tracked n idw) (i : In idw) : Prop where
  value : t.regs.value = t.file
  timer : ∀ k, t.regs.timerIrqO k = true ↔ t.file (.mtimecmp k) ≤ t.file .mtime
  ipi : ∀ k, t.file (.msip k) = (BitVec.ofBool (t.regs.ipiO k)).setWidth 64
  due : t.wBeat i = true → ∃ a, t.due = some a
  b : t.bBeat i = true → t.bs.length < t.ws.length ∧
    (t.aws.map Prod.fst)[t.bs.length]? = some t.regs.lite.transId
  r : t.rBeat i = true → ∃ a, t.ars[t.rs.length]? = some (t.regs.lite.transId, a) ∧
    (¬Off n a → ¬OddMsip n a → t.regs.rdata i = t.file.read a)
  bOwed : t.bs.length < t.ws.length → (t.regs.out i).bValid = true
  rOwed : t.rs.length < t.ars.length → (t.regs.out i).rValid = true
  one : t.ws.length ≤ t.aws.length ∧ t.aws.length ≤ t.bs.length + 1 ∧ t.ars.length ≤ t.rs.length + 1

theorem inv_reset : Inv (Tracked.reset : Tracked n idw) := by
  refine ⟨?_, rfl, rfl, rfl⟩
  funext r
  cases r <;> rfl

section Step

variable {t : Tracked n idw} {i : In idw}

/-- Data are written where the address before them says. -/
theorem writing_eq (h : Inv t) : t.regs.writing i = t.wBeat i ∧
    (t.wBeat i = true → t.due = some (t.regs.out i).addressO) := by
  have hph := h.phase
  unfold Phase at hph
  cases hs : t.regs.lite.state with
  | write =>
    simp only [hs] at hph
    obtain ⟨⟨l, haws, -, hws⟩, -⟩ := hph
    cases hw : i.wValid with
    | false => simp [Regs.writing, Regs.out, Lite.out, Tracked.wBeat, hs, hw]
    | true =>
      refine ⟨by simp [Regs.writing, Regs.out, Lite.out, Tracked.wBeat, hs, hw], fun _ => ?_⟩
      simp only [Regs.out, Lite.out, hs, hw, if_true, Tracked.due, haws, hws]
      simp
  | idle =>
    cases ha : i.awValid <;> cases hr : i.arValid <;>
      simp [Regs.writing, Regs.out, Lite.out, Tracked.wBeat, hs, ha, hr]
  | read => simp [Regs.writing, Regs.out, Lite.out, Tracked.wBeat, hs]
  | writeB => simp [Regs.writing, Regs.out, Lite.out, Tracked.wBeat, hs]

theorem next_value (h : Inv t) : (t.next i).regs.value = (t.next i).file := by
  obtain ⟨hw, hdue⟩ := writing_eq (i := i) h
  show (t.regs.next i).value = t.fileD i
  unfold Tracked.fileD
  cases hb : t.wBeat i with
  | false =>
    rw [t.regs.value_next_of_not_writing i (hw.trans hb), h.value]
    cases t.due <;> rfl
  | true =>
    rw [hdue hb]
    dsimp only
    rw [if_pos rfl]
    by_cases hoff : Off n (t.regs.out i).addressO
    · rw [if_pos hoff]
    · rw [if_neg hoff, t.regs.value_next_of_writing i (hw.trans hb) hoff, h.value]

theorem next_phase (h : Inv t) (i : In idw) : Phase (t.next i) := by
  have hph := h.phase
  unfold Phase at hph
  cases hs : t.regs.lite.state with
  | idle =>
    simp only [hs] at hph
    obtain ⟨hb, hws, hrs⟩ := hph
    cases ha : i.awValid with
    | true =>
      simp only [Phase, Tracked.next, Tracked.awBeat, Tracked.wBeat, Tracked.bBeat, Tracked.arBeat,
        Tracked.rBeat, Regs.next, Regs.out, Lite.out, hs, ha]
      simp [hb, hws, hrs]
    | false =>
      cases hr : i.arValid with
      | true =>
        simp only [Phase, Tracked.next, Tracked.awBeat, Tracked.wBeat, Tracked.bBeat, Tracked.arBeat,
          Tracked.rBeat, Regs.next, Regs.out, Lite.out, hs, ha, hr]
        simp [hb, hws, hrs]
      | false =>
        simp [Phase, Tracked.next, Tracked.awBeat, Tracked.wBeat, Tracked.bBeat, Tracked.arBeat,
          Tracked.rBeat, Regs.next, Regs.out, Lite.out, hs, ha, hr, hb, hws, hrs]
  | read =>
    simp only [hs] at hph
    obtain ⟨hb, hws, l, hars, hrs⟩ := hph
    cases hr : i.rReady <;>
      simp [Phase, Tracked.next, Tracked.awBeat, Tracked.wBeat, Tracked.bBeat, Tracked.arBeat,
        Tracked.rBeat, Regs.next, Regs.out, Lite.out, hs, hr, hb, hws, hars, hrs]
  | write =>
    simp only [hs] at hph
    obtain ⟨⟨l, haws, hb, hws⟩, hrs⟩ := hph
    cases hw : i.wValid <;>
      simp [Phase, Tracked.next, Tracked.awBeat, Tracked.wBeat, Tracked.bBeat, Tracked.arBeat,
        Tracked.rBeat, Regs.next, Regs.out, Lite.out, hs, hw, hb, hws, haws, hrs]
  | writeB =>
    simp only [hs] at hph
    obtain ⟨⟨l, haws, hb, hws⟩, hrs⟩ := hph
    cases hw : i.bReady <;>
      simp [Phase, Tracked.next, Tracked.awBeat, Tracked.wBeat, Tracked.bBeat, Tracked.arBeat,
        Tracked.rBeat, Regs.next, Regs.out, Lite.out, hs, hw, hb, hws, haws, hrs]

theorem Inv.next (h : Inv t) (i : In idw) : Inv (t.next i) := ⟨next_value h, next_phase h i⟩

/-- An answer to a write is up for the one whose data were taken. -/
theorem b_of_phase (h : Inv t) :
    (t.bs.length < t.ws.length ↔ (t.regs.out i).bValid = true) ∧
      ((t.regs.out i).bValid = true → (t.aws.map Prod.fst)[t.bs.length]? = some t.regs.lite.transId) := by
  have hph := h.phase
  unfold Phase at hph
  cases hs : t.regs.lite.state with
  | idle =>
    simp only [hs] at hph
    obtain ⟨hb, hws, -⟩ := hph
    cases ha : i.awValid <;> cases hr : i.arValid <;> simp [Regs.out, Lite.out, hs, ha, hr, hb, hws]
  | read =>
    simp only [hs] at hph
    obtain ⟨hb, hws, -⟩ := hph
    simp [Regs.out, Lite.out, hs, hb, hws]
  | write =>
    simp only [hs] at hph
    obtain ⟨⟨l, haws, hb, hws⟩, -⟩ := hph
    cases hw : i.wValid <;> simp [Regs.out, Lite.out, hs, hw, hb, hws]
  | writeB =>
    simp only [hs] at hph
    obtain ⟨⟨l, haws, hb, hws⟩, -⟩ := hph
    simp [Regs.out, Lite.out, hs, hb, hws, haws]

/-- An answer to a read is up for the one whose address was taken. -/
theorem r_of_phase (h : Inv t) :
    (t.rs.length < t.ars.length ↔ (t.regs.out i).rValid = true) ∧
      ((t.regs.out i).rValid = true →
        t.ars[t.rs.length]? = some (t.regs.lite.transId, t.regs.lite.address) ∧
          (¬Off n t.regs.lite.address → ¬OddMsip n t.regs.lite.address →
            t.regs.rdata i = t.file.read t.regs.lite.address)) := by
  have hph := h.phase
  unfold Phase at hph
  cases hs : t.regs.lite.state with
  | idle =>
    simp only [hs] at hph
    obtain ⟨-, -, hrs⟩ := hph
    cases ha : i.awValid <;> cases hr : i.arValid <;> simp [Regs.out, Lite.out, hs, ha, hr, hrs]
  | read =>
    simp only [hs] at hph
    obtain ⟨-, -, l, hars, hrs⟩ := hph
    have hout : (t.regs.out i).addressO = t.regs.lite.address ∧
        ((t.regs.out i).en && !(t.regs.out i).we) = true := by simp [Regs.out, Lite.out, hs]
    have hv : (t.regs.out i).rValid = true := by simp [Regs.out, Lite.out, hs]
    refine ⟨iff_of_true (by simp [hars, hrs]) hv, fun _ => ⟨by simp [hars, hrs], fun hoff hodd => ?_⟩⟩
    have hread := t.regs.rdata_eq i hout.2 (by rwa [hout.1]) (by rwa [hout.1])
    rwa [hout.1, h.value] at hread
  | write =>
    simp only [hs] at hph
    obtain ⟨-, hrs⟩ := hph
    cases hw : i.wValid <;> simp [Regs.out, Lite.out, hs, hw, hrs]
  | writeB =>
    simp only [hs] at hph
    simp [Regs.out, Lite.out, hs, hph.2]

/-- One request at most is under way. -/
theorem one_of_phase (h : Inv t) : t.ws.length ≤ t.aws.length ∧ t.aws.length ≤ t.bs.length + 1 ∧
    t.ars.length ≤ t.rs.length + 1 := by
  have hph := h.phase
  unfold Phase at hph
  cases hs : t.regs.lite.state with
  | idle =>
    simp only [hs] at hph
    obtain ⟨hb, hws, hrs⟩ := hph
    simp [hb, hws, hrs]
  | read =>
    simp only [hs] at hph
    obtain ⟨hb, hws, l, hars, hrs⟩ := hph
    simp [hb, hws, hars, hrs]
  | write =>
    simp only [hs] at hph
    obtain ⟨⟨l, haws, hb, hws⟩, hrs⟩ := hph
    simp [haws, hb, hws, hrs]
  | writeB =>
    simp only [hs] at hph
    obtain ⟨⟨l, haws, hb, hws⟩, hrs⟩ := hph
    simp [haws, hb, hws, hrs]

theorem Inv.correct (h : Inv t) (i : In idw) : Correct t i where
  value := h.value
  timer k := by
    rw [← h.value]
    exact decide_eq_true_iff
  ipi k := by
    rw [← h.value]
    rfl
  due hw := ⟨_, (writing_eq (i := i) h).2 hw⟩
  b hb := by
    have hv : (t.regs.out i).bValid = true := ((Bool.and_eq_true _ _).mp hb).1
    exact ⟨(b_of_phase (i := i) h).1.2 hv, (b_of_phase (i := i) h).2 hv⟩
  r hr := by
    have hv : (t.regs.out i).rValid = true := ((Bool.and_eq_true _ _).mp hr).1
    exact ⟨_, (r_of_phase (i := i) h).2 hv⟩
  bOwed := (b_of_phase (i := i) h).1.1
  rOwed := (r_of_phase (i := i) h).1.1
  one := one_of_phase h

end Step

/-! ### Reading back -/

/-- The data taken in this cycle are for the register. -/
def Tracked.Writes (t : Tracked n idw) (i : In idw) (r : Reg n) : Prop :=
  t.wBeat i = true ∧ ∃ a, t.due = some a ∧ addressed n (registerAddress a) = some r

/-- The data taken in this cycle are for an address that is left out. -/
def Tracked.WritesOff (t : Tracked n idw) (i : In idw) : Prop :=
  t.wBeat i = true ∧ ∃ a, t.due = some a ∧ Off n a

theorem fileD_of_writes {t : Tracked n idw} {i : In idw} {r : Reg n} {a : BitVec 64}
    (hw : t.wBeat i = true) (ha : t.due = some a) (hoff : ¬Off n a)
    (hr : addressed n (registerAddress a) = some r) : (t.next i).file r = stored r a i.wData := by
  show t.fileD i r = stored r a i.wData
  simp only [Tracked.fileD, ha, hw, if_true, if_neg hoff, File.write, hr]

theorem fileD_of_not_writes {t : Tracked n idw} {i : In idw} {r : Reg n} (hr : r ≠ .mtime)
    (h : ¬t.Writes i r) (hoff : ¬t.WritesOff i) : (t.next i).file r = t.file r := by
  have htick : t.file.tick t.regs.increaseTimer r = t.file r := by simp [File.tick, hr]
  show t.fileD i r = t.file r
  unfold Tracked.fileD
  cases hd : t.due with
  | none => exact htick
  | some a =>
    cases hw : t.wBeat i with
    | false => exact htick
    | true =>
      have hne : addressed n (registerAddress a) ≠ some r := fun ha => h ⟨hw, a, hd, ha⟩
      have hin : ¬Off n a := fun ha => hoff ⟨hw, a, hd, ha⟩
      simp only [if_true, if_neg hin, File.write, hne, if_false]
      exact htick

/-- A register but `mtime` keeps what was written to it until it is written again, or a write is
left out. -/
theorem read_back {t : Tracked n idw} {i : In idw} {r : Reg n} {a : BitVec 64} (hr : r ≠ .mtime)
    (hw : t.wBeat i = true) (ha : t.due = some a) (hoff : ¬Off n a)
    (hreg : addressed n (registerAddress a) = some r) {mid : List (In idw)}
    (hmid : (tracked n idw).Steps (fun t i => ¬t.Writes i r ∧ ¬t.WritesOff i) (t.next i) mid) :
    ((tracked n idw).run (t.next i) mid).file r = stored r a i.wData := by
  refine Machine.run_inv (P := fun t => t.file r = stored r a i.wData) ?_ mid _ ?_ hmid
  · intro t j hP hj
    exact (fileD_of_not_writes hr hj.1 hj.2).trans hP
  · exact fileD_of_writes hw ha hoff hreg

/-! ### The result -/

theorem inv_run (is : List (In idw)) : Inv ((tracked n idw).run .reset is) :=
  Machine.run_inv (M := tracked n idw) (fun _ i h (_ : True) => h.next i) is _ inv_reset
    (Machine.steps_true is _)

/-- **The register map.** In every run the registers, the interrupts and the answers are those of
the register file, and what was written to `msip` or `mtimecmp` stays there until the next write to
it. Only what a write does to an address that the maps do not have alike is left out, and what a
read of one finds. -/
theorem clint_run (n idw : ℕ) :
    (∀ is : List (In idw), (tracked n idw).Steps Correct .reset is) ∧
      ∀ pre i mid r a, r ≠ .mtime → ((tracked n idw).run .reset pre).wBeat i = true →
        ((tracked n idw).run .reset pre).due = some a → ¬Off n a → addressed n (registerAddress a) = some r →
        (tracked n idw).Steps (fun t i => ¬t.Writes i r ∧ ¬t.WritesOff i)
          ((tracked n idw).run .reset (pre ++ [i])) mid →
        ((tracked n idw).run .reset (pre ++ i :: mid)).regs.value r = stored r a i.wData := by
  constructor
  · intro is
    exact Machine.steps_of_inv (M := tracked n idw) (P := Inv) (fun _ i h (_ : True) => h.next i)
      (fun _ i h _ => h.correct i) is _ inv_reset (Machine.steps_true is _)
  · intro pre i mid r a hr hw ha hoff hreg hmid
    rw [Machine.run_append] at hmid
    rw [(inv_run (pre ++ i :: mid)).value, Machine.run_append]
    exact read_back hr hw ha hoff hreg hmid

/-- A cycle of the bus without a request. -/
def In.quiet : In idw := ⟨false, 0, 0, false, 0, 0, true, false, 0, 0, true, false, 0⟩

/-- A write of `wdata` with strobes `strb` to an address: the address, the data, the answer. -/
def writeTo (addr wdata : BitVec 64) (strb : BitVec 8) : List (In 1) :=
  [{ In.quiet with awValid := true, awId := 1, awAddr := addr },
    { In.quiet with wValid := true, wData := wdata, wStrb := strb }, In.quiet]

/-- A read of an address. -/
def readOf (addr : BitVec 64) : List (In 1) := [{ In.quiet with arValid := true, arAddr := addr }, In.quiet]

/-- A write without a byte enabled replaces the whole of `mtimecmp[0]`. -/
theorem strobes_ignored :
    ((tracked 1 1).run .reset (writeTo 0x4000 0x1122334455667788 0)).regs.value (.mtimecmp 0) ≠
      (Tracked.reset : Tracked 1 1).regs.value (.mtimecmp 0) := by
  decide +kernel

/-- The address past `mtimecmp[0]` is written and then the register itself, and the address past it
is read: the register has what was written to it. -/
theorem clint_run_write_read :
    (tracked 1 1).Steps Correct .reset (writeTo 0x4008 7 0xff ++ writeTo 0x4000 5 0xff ++ readOf 0x4008) ∧
      ((tracked 1 1).run .reset (writeTo 0x4008 7 0xff ++ writeTo 0x4000 5 0xff ++ readOf 0x4008)).regs.value
        (.mtimecmp 0) = 5 := by
  refine ⟨(clint_run 1 1).1 _, ?_⟩
  have hmid : (tracked 1 1).Steps (fun t i => ¬t.Writes i (.mtimecmp 0) ∧ ¬t.WritesOff i)
      ((tracked 1 1).run .reset (writeTo 0x4008 7 0xff ++ (writeTo 0x4000 5 0xff).take 2))
      (In.quiet :: readOf 0x4008) :=
    ⟨⟨fun h => absurd h.1 (by decide +kernel), fun h => absurd h.1 (by decide +kernel)⟩,
      ⟨fun h => absurd h.1 (by decide +kernel), fun h => absurd h.1 (by decide +kernel)⟩,
      ⟨fun h => absurd h.1 (by decide +kernel), fun h => absurd h.1 (by decide +kernel)⟩, trivial⟩
  exact (clint_run 1 1).2 (writeTo 0x4008 7 0xff ++ (writeTo 0x4000 5 0xff).take 1)
    ((writeTo 0x4000 5 0xff).getD 1 .quiet) (In.quiet :: readOf 0x4008) (.mtimecmp 0) 0x4000 (by decide)
    (by decide +kernel) (by decide +kernel) (by decide) (by decide +kernel) hmid

end Clint
end Ariane

/-
# The page-table walker

`src/ptw.sv`, a state machine that reads up to three entries through a port of the data
cache and fills a TLB or raises an error. The cache is modelled by its port: it grants
requests and answers them in the order of the grants, each not before the next cycle.

From an idle walker the machine is the algorithm of `Sv39` (`walk_sv39`), provided the
walker is idle only when no answer is outstanding. A flush while the walker waits for the
answer to an abandoned request breaks this: it goes idle at once, and the answer becomes
the first entry of the next walk (`stale_answer`).
-/
import Ariane.Lib.Machine
import Ariane.Mmu.Sv39

namespace Ariane
namespace Ptw

open Lib (Machine)
open Sv39 (Access Leaf Walk)

variable {n : ℕ}

/-! ### The module -/

inductive State
  | idle | waitGrant | pteLookup | waitRvalid | propagateError
deriving DecidableEq, Repr

inductive Lvl
  | lvl1 | lvl2 | lvl3
deriving DecidableEq, Repr

structure Regs (n : ℕ) where
  state : State
  lvl : Lvl
  isInstr : Bool
  globalMapping : Bool
  tagValid : Bool
  tlbUpdateAsid : BitVec n
  vaddr : BitVec 64
  pptr : BitVec 56
  dataRdata : BitVec 64
  dataRvalid : Bool
deriving DecidableEq

def reset : Regs n := ⟨.idle, .lvl1, false, false, false, 0, 0, 0, 0, false⟩

structure In (n : ℕ) where
  flush : Bool
  enableTranslation : Bool
  enLdStTranslation : Bool
  lsuIsStore : Bool
  dataGnt : Bool
  dataRvalid : Bool
  dataRdata : BitVec 64
  asid : BitVec n
  itlbAccess : Bool
  itlbHit : Bool
  itlbVaddr : BitVec 64
  dtlbAccess : Bool
  dtlbHit : Bool
  dtlbVaddr : BitVec 64
  satpPpn : BitVec 44
  mxr : Bool

/-- What the process `ptw` assigns. -/
structure Comb (n : ℕ) where
  tagValidN : Bool
  dataReq : Bool
  ptwError : Bool
  itlbUpdateValid : Bool
  dtlbUpdateValid : Bool
  isInstrN : Bool
  lvlN : Lvl
  pptrN : BitVec 56
  stateD : State
  globalMappingN : Bool
  tlbUpdateAsidN : BitVec n
  vaddrN : BitVec 64
  itlbMiss : Bool
  dtlbMiss : Bool

variable (s : Regs n) (i : In n)

def defaults : Comb n where
  tagValidN := false
  dataReq := false
  ptwError := false
  itlbUpdateValid := false
  dtlbUpdateValid := false
  isInstrN := s.isInstr
  lvlN := s.lvl
  pptrN := s.pptr
  stateD := s.state
  globalMappingN := s.globalMapping
  tlbUpdateAsidN := s.tlbUpdateAsid
  vaddrN := s.vaddr
  itlbMiss := false
  dtlbMiss := false

def idleCase (c : Comb n) : Comb n :=
  let c := { c with lvlN := .lvl1, globalMappingN := false, isInstrN := false }
  if i.enableTranslation && i.itlbAccess && !i.itlbHit && !i.dtlbAccess then
    { c with
      pptrN := i.satpPpn ++ i.itlbVaddr.extractLsb' 30 9 ++ 0#3
      isInstrN := true
      tlbUpdateAsidN := i.asid
      vaddrN := i.itlbVaddr
      stateD := .waitGrant
      itlbMiss := true }
  else if i.enLdStTranslation && i.dtlbAccess && !i.dtlbHit then
    { c with
      pptrN := i.satpPpn ++ i.dtlbVaddr.extractLsb' 30 9 ++ 0#3
      tlbUpdateAsidN := i.asid
      vaddrN := i.dtlbVaddr
      stateD := .waitGrant
      dtlbMiss := true }
  else c

def waitGrantCase (c : Comb n) : Comb n :=
  let c := { c with dataReq := true }
  if i.dataGnt then { c with tagValidN := true, stateD := .pteLookup } else c

/-- The update of the TLB at a leaf, and the checks of its access bits. -/
def leafUpdate (pte : BitVec 64) (c : Comb n) : Comb n :=
  if s.isInstr then
    if !Sv39.x pte || !Sv39.a pte then { c with stateD := .propagateError }
    else { c with itlbUpdateValid := true }
  else
    let c :=
      if Sv39.a pte && (Sv39.r pte || Sv39.x pte && i.mxr) then { c with dtlbUpdateValid := true }
      else { c with stateD := .propagateError }
    if i.lsuIsStore && (!Sv39.w pte || !Sv39.d pte) then
      { c with dtlbUpdateValid := false, stateD := .propagateError }
    else c

/-- A superpage that is not aligned takes the update back. -/
def alignCheck (pte : BitVec 64) (c : Comb n) : Comb n :=
  if s.lvl = .lvl1 ∧ (Sv39.ppn pte).extractLsb' 0 18 ≠ 0 then
    { c with stateD := .propagateError, dtlbUpdateValid := false, itlbUpdateValid := false }
  else if s.lvl = .lvl2 ∧ (Sv39.ppn pte).extractLsb' 0 9 ≠ 0 then
    { c with stateD := .propagateError, dtlbUpdateValid := false, itlbUpdateValid := false }
  else c

def leafCase (pte : BitVec 64) (c : Comb n) : Comb n := alignCheck s pte (leafUpdate s i pte c)

/-- A pointer to the next level. -/
def pointerCase (pte : BitVec 64) (c : Comb n) : Comb n :=
  let c :=
    if s.lvl = .lvl1 then
      { c with lvlN := .lvl2, pptrN := Sv39.ppn pte ++ s.vaddr.extractLsb' 21 9 ++ 0#3 }
    else c
  let c :=
    if s.lvl = .lvl2 then
      { c with lvlN := .lvl3, pptrN := Sv39.ppn pte ++ s.vaddr.extractLsb' 12 9 ++ 0#3 }
    else c
  let c := { c with stateD := .waitGrant }
  if s.lvl = .lvl3 then { c with lvlN := .lvl3, stateD := .propagateError } else c

def pteLookupCase (c : Comb n) : Comb n :=
  if s.dataRvalid then
    let pte := s.dataRdata
    let c := if Sv39.g pte then { c with globalMappingN := true } else c
    if !Sv39.v pte || !Sv39.r pte && Sv39.w pte then { c with stateD := .propagateError }
    else
      let c := { c with stateD := .idle }
      if Sv39.r pte || Sv39.x pte then leafCase s i pte c else pointerCase s pte c
  else c

/-- The case on the state. -/
def stateCase : Comb n :=
  match s.state with
  | .idle => idleCase i (defaults s)
  | .waitGrant => waitGrantCase i (defaults s)
  | .pteLookup => pteLookupCase s i (defaults s)
  | .propagateError => { defaults s with stateD := .idle, ptwError := true }
  | .waitRvalid => if s.dataRvalid then { defaults s with stateD := .idle } else defaults s

/-- The process `ptw`, the flush last. -/
def comb : Comb n :=
  if i.flush then
    if (s.state = .pteLookup ∧ s.dataRvalid = false) ∨ (s.state = .waitGrant ∧ i.dataGnt = true) then
      { stateCase s i with stateD := .waitRvalid }
    else { stateCase s i with stateD := .idle }
  else stateCase s i

def next : Regs n where
  state := (comb s i).stateD
  lvl := (comb s i).lvlN
  isInstr := (comb s i).isInstrN
  globalMapping := (comb s i).globalMappingN
  tagValid := (comb s i).tagValidN
  tlbUpdateAsid := (comb s i).tlbUpdateAsidN
  vaddr := (comb s i).vaddrN
  pptr := (comb s i).pptrN
  dataRdata := i.dataRdata
  dataRvalid := i.dataRvalid

/-- `tlb_update_t`, without the valid flag. -/
structure TlbUpdate (n : ℕ) where
  vpn : BitVec 27
  is2M : Bool
  is1G : Bool
  asid : BitVec n
  content : BitVec 64
deriving DecidableEq, Repr

/-- The fields of `itlb_update_o` and `dtlb_update_o`. -/
def tlbUpdate : TlbUpdate n where
  vpn := s.vaddr.extractLsb' 12 27
  is2M := s.lvl == .lvl2
  is1G := s.lvl == .lvl1
  asid := s.tlbUpdateAsid
  content := s.dataRdata ||| (BitVec.ofBool s.globalMapping).setWidth 64 <<< 5

/-- What the walker does in a cycle that others see: a request the cache grants, an update
of a TLB, an error. -/
inductive Event (n : ℕ)
  | read (addr : BitVec 56)
  | itlb (u : TlbUpdate n)
  | dtlb (u : TlbUpdate n)
  | error
deriving DecidableEq, Repr

def eventsO : List (Event n) :=
  (if (comb s i).dataReq && i.dataGnt then [.read s.pptr] else []) ++
    (if (comb s i).itlbUpdateValid then [.itlb (tlbUpdate s)] else []) ++
    (if (comb s i).dtlbUpdateValid then [.dtlb (tlbUpdate s)] else []) ++
    (if (comb s i).ptwError then [.error] else [])

/-! ### The walker and its port -/

/-- The walker, and the requests granted and not answered. -/
structure Sys (n : ℕ) where
  regs : Regs n
  pending : List (BitVec 56)
deriving DecidableEq

def Sys.next (t : Sys n) (i : In n) : Sys n where
  regs := Ptw.next t.regs i
  pending :=
    (if i.dataRvalid then t.pending.tail else t.pending) ++
      if (comb t.regs i).dataReq && i.dataGnt then [t.regs.pptr] else []

def machine : Machine (Sys n) (In n) := ⟨(· = ⟨reset, []⟩), Sys.next⟩

/-- The events of a run. -/
def events : Sys n → List (In n) → List (Event n)
  | _, [] => []
  | t, i :: is => eventsO t.regs i ++ events (t.next i) is

/-- An answer is to a request. -/
def Answers (t : Sys n) (i : In n) : Prop := i.dataRvalid = true → t.pending ≠ []

/-- An answer is the memory's at the oldest request. -/
def Serves (mem : BitVec 56 → BitVec 64) (t : Sys n) (i : In n) : Prop :=
  i.dataRvalid = true → ∃ addr rest, t.pending = addr :: rest ∧ i.dataRdata = mem addr

/-- The walk a cycle starts: whether for a fetch, and the address. -/
def starts (t : Sys n) (i : In n) : Option (Bool × BitVec 64) :=
  if t.regs.state = .idle then
    if i.enableTranslation && i.itlbAccess && !i.itlbHit && !i.dtlbAccess then some (true, i.itlbVaddr)
    else if i.enLdStTranslation && i.dtlbAccess && !i.dtlbHit then some (false, i.dtlbVaddr)
    else none
  else none

/-! ### One level -/

/-- The number of a level in the architecture. -/
def Lvl.level : Lvl → ℕ
  | lvl1 => 2
  | lvl2 => 1
  | lvl3 => 0

/-- The concatenation of the source is the address of the architecture. -/
theorem pteAddr_eq (base : BitVec 44) (va : BitVec 64) (l : ℕ) :
    base ++ va.extractLsb' (12 + 9 * l) 9 ++ 0#3 = Sv39.pteAddr base va l := by
  have hb := base.isLt
  have hv := (va.extractLsb' (12 + 9 * l) 9).isLt
  apply BitVec.eq_of_toNat_eq
  rw [Sv39.pteAddr, Sv39.vpn, BitVec.toNat_append, BitVec.toNat_append]
  simp only [BitVec.toNat_add, BitVec.toNat_mul, BitVec.toNat_setWidth, BitVec.toNat_ofNat]
  generalize (va.extractLsb' (12 + 9 * l) 9).toNat = v at *
  rw [← Nat.shiftLeft_add_eq_or_of_lt hv, ← Nat.shiftLeft_add_eq_or_of_lt (by decide)]
  simp only [Nat.shiftLeft_eq]
  show _ = (base.toNat % 2 ^ 56 * 4096 % 2 ^ 56 + v % 2 ^ 56 * 8 % 2 ^ 56) % 2 ^ 56
  omega

theorem aligned_iff (l : Lvl) (pte : BitVec 64) (global : Bool) :
    (⟨l.level, pte, global⟩ : Leaf).aligned = true ↔
      ¬(l = .lvl1 ∧ (Sv39.ppn pte).extractLsb' 0 18 ≠ 0) ∧
      ¬(l = .lvl2 ∧ (Sv39.ppn pte).extractLsb' 0 9 ≠ 0) := by
  have hext (k : ℕ) : (Sv39.ppn pte).extractLsb' 0 k = 0#k ↔ (Sv39.ppn pte).toNat % 2 ^ k = 0 := by
    rw [BitVec.toNat_eq, BitVec.extractLsb'_toNat]
    simp
  cases l <;> simp [Leaf.aligned, Lvl.level, hext, Nat.mod_one]

/-- The access of a data walk is the one of the cycle that sees the leaf. -/
def access (isInstr : Bool) (i : In n) : Access :=
  if isInstr then .fetch else if i.lsuIsStore then .store i.mxr else .load i.mxr

/-- The state and the updates a leaf leads to, if `ok` says that it is good. -/
structure Settles (s : Regs n) (c c' : Comb n) (ok : Bool) : Prop where
  state : c'.stateD = if ok then .idle else .propagateError
  itlb : c'.itlbUpdateValid = (s.isInstr && ok)
  dtlb : c'.dtlbUpdateValid = (!s.isInstr && ok)
  req : c'.dataReq = c.dataReq
  error : c'.ptwError = c.ptwError

/-- The access bits. A leaf that is writable is readable. -/
theorem settles_leafUpdate {s : Regs n} {i : In n} {pte : BitVec 64} (hv : Sv39.invalid pte = false)
    (leaf : Leaf) (hl : leaf.pte = pte) {c : Comb n} (hs : c.stateD = .idle)
    (hi : c.itlbUpdateValid = false) (hd : c.dtlbUpdateValid = false) :
    Settles s c (leafUpdate s i pte c) (Sv39.a pte && leaf.allows (access s.isInstr i)) := by
  have hwr : Sv39.w pte = true → Sv39.r pte = true := by
    intro hw
    simp only [Sv39.invalid, hw, Bool.and_true, Bool.or_eq_false_iff, Bool.not_eq_false'] at hv
    exact hv.2
  subst hl
  unfold leafUpdate access
  cases hin : s.isInstr with
  | true =>
    simp only [if_true, Leaf.allows]
    cases Sv39.x leaf.pte <;> cases Sv39.a leaf.pte <;> constructor <;> simp [hin, hs, hi, hd]
  | false =>
    cases hst : i.lsuIsStore with
    | false =>
      simp only [Leaf.allows, Bool.false_eq_true, if_false, Bool.false_and]
      cases Sv39.a leaf.pte <;> cases (Sv39.r leaf.pte || Sv39.x leaf.pte && i.mxr) <;>
        constructor <;> simp [hin, hs, hi, hd]
    | true =>
      simp only [Leaf.allows, Bool.false_eq_true, if_false, Bool.true_and, if_true]
      cases hw : Sv39.w leaf.pte with
      | false =>
        cases Sv39.a leaf.pte <;> cases (Sv39.r leaf.pte || Sv39.x leaf.pte && i.mxr) <;>
          constructor <;> simp [hin, hs, hi, hd]
      | true =>
        rw [hwr hw]
        cases Sv39.a leaf.pte <;> cases Sv39.d leaf.pte <;> constructor <;> simp [hin, hs, hi, hd]

/-- A leaf updates the TLB of the walk if it permits the access, and is an error if not. -/
theorem settles_leafCase {s : Regs n} {i : In n} {pte : BitVec 64} (hv : Sv39.invalid pte = false)
    (global : Bool) {c : Comb n} (hs : c.stateD = .idle) (hi : c.itlbUpdateValid = false)
    (hd : c.dtlbUpdateValid = false) :
    Settles s c (leafCase s i pte c)
      ((⟨s.lvl.level, pte, global⟩ : Leaf).permits (access s.isInstr i)) := by
  have hu := settles_leafUpdate (s := s) (i := i) hv ⟨s.lvl.level, pte, global⟩ rfl hs hi hd
  have hal := aligned_iff s.lvl pte global
  unfold leafCase alignCheck Leaf.permits
  rw [Bool.and_assoc]
  cases ha : (⟨s.lvl.level, pte, global⟩ : Leaf).aligned with
  | true =>
    obtain ⟨h1, h2⟩ := hal.1 ha
    rw [if_neg h1, if_neg h2, Bool.true_and]
    exact hu
  | false =>
    rw [Bool.false_and]
    split_ifs with h1 h2
    · exact ⟨rfl, by simp, by simp, hu.req, hu.error⟩
    · exact ⟨rfl, by simp, by simp, hu.req, hu.error⟩
    · rw [hal.2 ⟨h1, h2⟩] at ha
      cases ha

/-! ### A walk -/

/-- What a walk is for: the memory, the address, the TLB, the ASID and the root. -/
structure Job (n : ℕ) where
  mem : BitVec 56 → BitVec 64
  va : BitVec 64
  isInstr : Bool
  asid : BitVec n
  root : BitVec 44

/-- The walk of the architecture. -/
def Job.walk (j : Job n) : Walk := Sv39.walk j.mem j.va 2 j.root false

/-- The update of the TLB for a leaf, and the error without one. -/
def Job.outcome (j : Job n) : Option Leaf → Event n
  | none => .error
  | some l =>
    let u : TlbUpdate n :=
      ⟨j.va.extractLsb' 12 27, l.level == 1, l.level == 2, j.asid,
        l.pte ||| (BitVec.ofBool l.global).setWidth 64 <<< 5⟩
    if j.isInstr then .itlb u else .dtlb u

/-- The registers in a walk with `rest` still before it. -/
structure At (j : Job n) (t : Sys n) (rest : Walk) : Prop where
  isInstr : t.regs.isInstr = j.isInstr
  asid : t.regs.tlbUpdateAsid = j.asid
  vaddr : t.regs.vaddr = j.va
  rest : ∃ base, t.regs.pptr = Sv39.pteAddr base j.va t.regs.lvl.level ∧
    rest = Sv39.walk j.mem j.va t.regs.lvl.level base t.regs.globalMapping

/-- Waiting for the grant, for the answer, or with the answer there: `todo` are the reads
still to come. -/
inductive Phase (j : Job n) (t : Sys n) (rest : Walk) : List (BitVec 56) → Prop
  | grant : At j t rest → t.regs.state = .waitGrant → t.pending = [] → t.regs.dataRvalid = false →
      Phase j t rest rest.reads
  | wait : At j t rest → t.regs.state = .pteLookup → t.pending = [t.regs.pptr] →
      t.regs.dataRvalid = false → Phase j t rest rest.reads.tail
  | ready : At j t rest → t.regs.state = .pteLookup → t.pending = [] → t.regs.dataRvalid = true →
      t.regs.dataRdata = j.mem t.regs.pptr → Phase j t rest rest.reads.tail

/-- A cycle in which the walk does not wait for the cache. -/
def busy (t : Sys n) (i : In n) : Bool :=
  match t.regs.state with
  | .waitGrant => i.dataGnt
  | .pteLookup => t.regs.dataRvalid || i.dataRvalid
  | .propagateError => true
  | _ => false

/-- The busy cycles a walk has left at most. -/
def left (t : Sys n) : ℕ :=
  match t.regs.state with
  | .waitGrant => 3 * t.regs.lvl.level + 4
  | .pteLookup => if t.regs.dataRvalid then 3 * t.regs.lvl.level + 2 else 3 * t.regs.lvl.level + 3
  | .propagateError => 1
  | _ => 0

section Steps

variable {j : Job n} {t : Sys n} {i : In n} {rest : Walk}

/-- The first read of a walk is the entry of its level. -/
theorem At.reads (h : At j t rest) : rest.reads = t.regs.pptr :: rest.reads.tail := by
  obtain ⟨base, hp, rfl⟩ := h.rest
  rw [hp]
  rcases Sv39.walk_cases j.mem j.va t.regs.lvl.level base t.regs.globalMapping with
    ⟨-, hw⟩ | ⟨-, -, hw⟩ | ⟨-, -, -, hw⟩ | ⟨-, -, k, -, hw⟩ <;> rw [hw] <;> rfl

theorem comb_waitGrant (hf : i.flush = false) (hs : t.regs.state = .waitGrant) :
    comb t.regs i = waitGrantCase i (defaults t.regs) := by
  simp [comb, stateCase, hf, hs]

theorem comb_pteLookup (hf : i.flush = false) (hs : t.regs.state = .pteLookup) :
    comb t.regs i = pteLookupCase t.regs i (defaults t.regs) := by
  simp [comb, stateCase, hf, hs]

/-- The registers that make up the position of a walk. -/
def Keeps (t t' : Sys n) : Prop :=
  t'.regs.isInstr = t.regs.isInstr ∧ t'.regs.tlbUpdateAsid = t.regs.tlbUpdateAsid ∧
    t'.regs.vaddr = t.regs.vaddr ∧ t'.regs.pptr = t.regs.pptr ∧ t'.regs.lvl = t.regs.lvl ∧
    t'.regs.globalMapping = t.regs.globalMapping

theorem At.of_keeps {t' : Sys n} (h : At j t rest) (hk : Keeps t t') : At j t' rest := by
  obtain ⟨hi, ha, hv, hp, hl, hg⟩ := hk
  refine ⟨hi.trans h.isInstr, ha.trans h.asid, hv.trans h.vaddr, ?_⟩
  rw [hp, hl, hg]
  exact h.rest

theorem not_rvalid (hp : t.pending = []) (hsv : Serves j.mem t i) : i.dataRvalid = false := by
  rw [Bool.eq_false_iff]
  intro hv
  obtain ⟨_, _, he, -⟩ := hsv hv
  rw [hp] at he
  cases he

/-- A walk waits for its grant. -/
theorem step_grant (hf : i.flush = false) (hsv : Serves j.mem t i) (h : At j t rest)
    (hs : t.regs.state = .waitGrant) (hp : t.pending = []) :
    ∃ todo, Phase j (t.next i) rest todo ∧
      rest.reads.map Event.read = eventsO t.regs i ++ todo.map Event.read ∧
      left (t.next i) + (busy t i).toNat ≤ left t := by
  have hrv := not_rvalid hp hsv
  have hc := comb_waitGrant hf hs
  cases hg : i.dataGnt with
  | false =>
    have hkeep : Keeps t (t.next i) := by simp [Keeps, Sys.next, next, hc, waitGrantCase, hg, defaults]
    have hs' : (t.next i).regs.state = .waitGrant := by
      simp [Sys.next, next, hc, waitGrantCase, hg, defaults, hs]
    refine ⟨rest.reads, .grant (h.of_keeps hkeep) hs' ?_ hrv, ?_, ?_⟩
    · simp [Sys.next, hrv, hp, hg]
    · simp [eventsO, hc, waitGrantCase, hg, defaults]
    · rw [left, left, hs, hs', hkeep.2.2.2.2.1]
      simp [busy, hs, hg]
  | true =>
    have hkeep : Keeps t (t.next i) := by simp [Keeps, Sys.next, next, hc, waitGrantCase, hg, defaults]
    have hs' : (t.next i).regs.state = .pteLookup := by
      simp [Sys.next, next, hc, waitGrantCase, hg]
    refine ⟨rest.reads.tail, .wait (h.of_keeps hkeep) hs' ?_ hrv, ?_, ?_⟩
    · simp [Sys.next, next, hrv, hp, hc, waitGrantCase, hg, defaults]
    · rw [h.reads]
      simp [eventsO, hc, waitGrantCase, hg, defaults]
    · have hr' : (t.next i).regs.dataRvalid = false := hrv
      rw [left, left, hs, hs', hkeep.2.2.2.2.1, hr']
      simp [busy, hs, hg]

/-- A walk waits for the answer. -/
theorem step_wait (hf : i.flush = false) (hsv : Serves j.mem t i) (h : At j t rest)
    (hs : t.regs.state = .pteLookup) (hp : t.pending = [t.regs.pptr]) (hr : t.regs.dataRvalid = false) :
    Phase j (t.next i) rest rest.reads.tail ∧ eventsO t.regs i = [] ∧
      left (t.next i) + (busy t i).toNat ≤ left t := by
  have hc := comb_pteLookup hf hs
  have hkeep : Keeps t (t.next i) := by simp [Keeps, Sys.next, next, hc, pteLookupCase, hr, defaults]
  have hs' : (t.next i).regs.state = .pteLookup := by
    simp [Sys.next, next, hc, pteLookupCase, hr, defaults, hs]
  have he : eventsO t.regs i = [] := by simp [eventsO, hc, pteLookupCase, hr, defaults]
  have hl : left (t.next i) + (busy t i).toNat ≤ left t := by
    have hr' : (t.next i).regs.dataRvalid = i.dataRvalid := rfl
    rw [left, left, hs, hs', hkeep.2.2.2.2.1, hr', hr]
    cases hrv : i.dataRvalid <;> simp [busy, hs, hr, hrv]
  cases hrv : i.dataRvalid with
  | false =>
    refine ⟨.wait (h.of_keeps hkeep) hs' ?_ hrv, he, hl⟩
    rw [hkeep.2.2.2.1]
    simp [Sys.next, hrv, hp, hc, pteLookupCase, hr, defaults]
  | true =>
    obtain ⟨addr, l, hpend, hdata⟩ := hsv hrv
    rw [hp] at hpend
    obtain ⟨rfl, rfl⟩ := List.cons.inj hpend
    refine ⟨.ready (h.of_keeps hkeep) hs' ?_ hrv ?_, he, hl⟩
    · simp [Sys.next, hrv, hp, hc, pteLookupCase, hr, defaults]
    · rw [hkeep.2.2.2.1]
      exact hdata

/-- What the lookup assigns before it looks at the kind of entry. -/
def lookedUp (s : Regs n) : Comb n :=
  { defaults s with globalMappingN := s.globalMapping || Sv39.g s.dataRdata }

theorem pteLookupCase_eq {s : Regs n} (hr : s.dataRvalid = true) :
    pteLookupCase s i (defaults s) =
      if Sv39.invalid s.dataRdata then { lookedUp s with stateD := .propagateError }
      else if Sv39.isLeaf s.dataRdata then leafCase s i s.dataRdata { lookedUp s with stateD := .idle }
      else pointerCase s s.dataRdata { lookedUp s with stateD := .idle } := by
  have hg : (if Sv39.g s.dataRdata then { defaults s with globalMappingN := true } else defaults s) =
      lookedUp s := by
    cases hg : Sv39.g s.dataRdata <;> simp [lookedUp, hg, defaults]
  rw [pteLookupCase, hr, if_pos rfl]
  dsimp only
  rw [hg]
  rfl

/-- The end of a walk at an entry with the leaf `l`, if there is one: its update, or the
way to the error. -/
def Concludes (j : Job n) (t : Sys n) (i : In n) (l : Option Leaf) : Prop :=
  match l.filter (·.permits (access j.isInstr i)) with
  | none => (t.next i).regs.state = .propagateError ∧ eventsO t.regs i = []
  | some leaf => (t.next i).regs.state = .idle ∧ eventsO t.regs i = [j.outcome (some leaf)]

/-- No leaf. -/
theorem concludes_none (hs : (comb t.regs i).stateD = .propagateError)
    (hq : (comb t.regs i).dataReq = false) (he : (comb t.regs i).ptwError = false)
    (hi : (comb t.regs i).itlbUpdateValid = false) (hd : (comb t.regs i).dtlbUpdateValid = false) :
    Concludes j t i none :=
  ⟨hs, by simp [eventsO, hq, he, hi, hd]⟩

/-- A leaf, permitted or not. -/
theorem concludes_leaf (h : At j t rest) (hinv : Sv39.invalid t.regs.dataRdata = false)
    (hc : comb t.regs i = leafCase t.regs i t.regs.dataRdata { lookedUp t.regs with stateD := .idle }) :
    Concludes j t i (some ⟨t.regs.lvl.level, t.regs.dataRdata, t.regs.globalMapping⟩) := by
  have hset := settles_leafCase (s := t.regs) (i := i) hinv t.regs.globalMapping
    (c := { lookedUp t.regs with stateD := .idle }) rfl rfl rfl
  rw [← hc] at hset
  have hlvl : ∀ l : Lvl, (l == .lvl2) = (l.level == 1) ∧ (l == .lvl1) = (l.level == 2) := by
    intro l
    cases l <;> decide
  have hupd : tlbUpdate t.regs = ⟨j.va.extractLsb' 12 27, t.regs.lvl.level == 1, t.regs.lvl.level == 2,
      j.asid, t.regs.dataRdata ||| (BitVec.ofBool t.regs.globalMapping).setWidth 64 <<< 5⟩ := by
    rw [tlbUpdate, h.vaddr, h.asid, (hlvl _).1, (hlvl _).2]
  rw [h.isInstr] at hset
  obtain ⟨hst, hi, hd, hq, he⟩ := hset
  rw [h.isInstr] at hi hd
  unfold Concludes
  cases hok : (⟨t.regs.lvl.level, t.regs.dataRdata, t.regs.globalMapping⟩ : Leaf).permits
      (access j.isInstr i) with
  | false =>
    rw [Option.filter_some_neg (p := fun x : Leaf => x.permits (access j.isInstr i)) hok]
    rw [hok] at hst hi hd
    refine ⟨hst, ?_⟩
    simp [eventsO, hi, hd, hq, he, lookedUp, defaults]
  | true =>
    rw [Option.filter_some_pos (p := fun x : Leaf => x.permits (access j.isInstr i)) hok]
    rw [hok] at hst hi hd
    refine ⟨hst, ?_⟩
    rw [Job.outcome, eventsO, hi, hd, hq, he, hupd]
    cases j.isInstr <;> rfl

/-- A pointer leads to the next level. -/
theorem step_pointer (hrv : i.dataRvalid = false) (h : At j t rest) (hp : t.pending = []) {k : ℕ}
    (hs : t.regs.state = .pteLookup) (hr : t.regs.dataRvalid = true)
    (hl : t.regs.lvl.level = k + 1)
    (hc : comb t.regs i = pointerCase t.regs t.regs.dataRdata { lookedUp t.regs with stateD := .idle }) :
    let rest' := Sv39.walk j.mem j.va k (Sv39.ppn t.regs.dataRdata)
      (t.regs.globalMapping || Sv39.g t.regs.dataRdata)
    Phase j (t.next i) rest' rest'.reads ∧ eventsO t.regs i = [] ∧ left (t.next i) + 1 ≤ left t := by
  intro rest'
  have hnext : (t.next i).regs.state = .waitGrant ∧ (t.next i).regs.lvl.level = k ∧
      (t.next i).regs.pptr = Sv39.pteAddr (Sv39.ppn t.regs.dataRdata) j.va k := by
    have hptr := pteAddr_eq (Sv39.ppn t.regs.dataRdata) j.va
    rw [← h.vaddr] at hptr ⊢
    cases hlvl : t.regs.lvl <;> rw [hlvl] at hl <;> simp only [Lvl.level] at hl
    · obtain rfl : k = 1 := by omega
      simp [Sys.next, next, hc, pointerCase, hlvl, Lvl.level, ← hptr]
    · obtain rfl : k = 0 := by omega
      simp [Sys.next, next, hc, pointerCase, hlvl, Lvl.level, ← hptr]
    · omega
  have hcomb : (comb t.regs i).isInstrN = t.regs.isInstr ∧
      (comb t.regs i).tlbUpdateAsidN = t.regs.tlbUpdateAsid ∧ (comb t.regs i).vaddrN = t.regs.vaddr ∧
      (comb t.regs i).globalMappingN = (t.regs.globalMapping || Sv39.g t.regs.dataRdata) ∧
      eventsO t.regs i = [] ∧ (comb t.regs i).dataReq = false := by
    cases hlvl : t.regs.lvl <;> simp [eventsO, hc, pointerCase, hlvl, lookedUp, defaults]
  obtain ⟨hi, ha, hv, hg, he, hq⟩ := hcomb
  refine ⟨.grant ⟨hi.trans h.isInstr, ha.trans h.asid, hv.trans h.vaddr, Sv39.ppn t.regs.dataRdata,
    ?_, ?_⟩ hnext.1 ?_ hrv, he, ?_⟩
  · rw [hnext.2.1]
    exact hnext.2.2
  · rw [hnext.2.1]
    exact congrArg (Sv39.walk j.mem j.va k (Sv39.ppn t.regs.dataRdata)) hg.symm
  · simp [Sys.next, hrv, hp, hq]
  · rw [left, left, hnext.1, hs, hr, hnext.2.1, hl]
    simp only [if_true]
    omega

/-- An entry that is there is a pointer, or it concludes the walk. -/
theorem step_ready (hf : i.flush = false) (hsv : Serves j.mem t i) (h : At j t rest)
    (hs : t.regs.state = .pteLookup) (hp : t.pending = []) (hr : t.regs.dataRvalid = true)
    (hd : t.regs.dataRdata = j.mem t.regs.pptr) :
    (∃ rest', Phase j (t.next i) rest' rest'.reads ∧ rest'.leaf = rest.leaf ∧
        rest'.reads = rest.reads.tail ∧ eventsO t.regs i = [] ∧ left (t.next i) + 1 ≤ left t) ∨
      (rest.reads.tail = [] ∧ Concludes j t i rest.leaf) := by
  have hrv := not_rvalid hp hsv
  have hc := (comb_pteLookup hf hs).trans (pteLookupCase_eq hr)
  obtain ⟨base, hptr, hrest⟩ := h.rest
  have hcases := Sv39.walk_cases j.mem j.va t.regs.lvl.level base t.regs.globalMapping
  dsimp only at hcases
  rw [← hrest, ← hptr, ← hd] at hcases
  rcases hcases with ⟨hinv, hw⟩ | ⟨hinv, hleaf, hw⟩ | ⟨hinv, hleaf, hl, hw⟩ | ⟨hinv, hleaf, k, hl, hw⟩
  · rw [hinv, if_pos rfl] at hc
    rw [hw]
    exact .inr ⟨rfl, concludes_none (by rw [hc]) (by rw [hc]; rfl) (by rw [hc]; rfl) (by rw [hc]; rfl)
      (by rw [hc]; rfl)⟩
  · rw [hinv, hleaf, if_neg Bool.false_ne_true, if_pos rfl] at hc
    rw [hw]
    exact .inr ⟨rfl, concludes_leaf h hinv hc⟩
  · rw [hinv, hleaf, if_neg Bool.false_ne_true, if_neg Bool.false_ne_true] at hc
    have hlvl : t.regs.lvl = .lvl3 := by
      cases hlvl : t.regs.lvl <;> simp [hlvl, Lvl.level] at hl ⊢
    rw [hw]
    refine .inr ⟨rfl, concludes_none ?_ ?_ ?_ ?_ ?_⟩ <;>
      simp [hc, pointerCase, hlvl, lookedUp, defaults]
  · rw [hinv, hleaf, if_neg Bool.false_ne_true, if_neg Bool.false_ne_true] at hc
    obtain ⟨hph, he, hleft⟩ := step_pointer hrv h hp hs hr hl hc
    rw [hw]
    exact .inl ⟨_, hph, rfl, rfl, he, hleft⟩

end Steps

/-! ### Runs -/

/-- The busy cycles of a run. -/
def busyCycles : Sys n → List (In n) → ℕ
  | _, [] => 0
  | t, i :: is => (busy t i).toNat + busyCycles (t.next i) is

/-- The walk is still on: so far it made the first of the reads `todo`, and nothing
else. -/
def Runs (t : Sys n) (todo : List (BitVec 56)) (is : List (In n)) : Prop :=
  (machine.run t is).regs.state ≠ .idle ∧
    (∃ rest : List (BitVec 56), todo.map Event.read = events t is ++ rest.map Event.read) ∧
    busyCycles t is < left t

/-- The walk is over, after a cycle `k` that saw the last entry and at most one more: it
made the reads `todo`, and then the outcome of the leaf for the access of the cycle `k`. -/
def Ends (j : Job n) (t : Sys n) (todo : List (BitVec 56)) (leaf : Option Leaf) (is : List (In n)) :
    Prop :=
  ∃ pre k e post, is = pre ++ k :: (e ++ post) ∧ e.length ≤ 1 ∧
    events t (pre ++ k :: e) =
      todo.map Event.read ++ [j.outcome (leaf.filter (·.permits (access j.isInstr k)))] ∧
    (machine.run t (pre ++ k :: e)).regs.state = .idle

section Runs

variable {j : Job n} {t : Sys n} {i : In n}

theorem Phase.state {rest : Walk} {todo : List (BitVec 56)} (h : Phase j t rest todo) :
    t.regs.state ≠ .idle ∧ 0 < left t := by
  cases h with
  | grant _ hs => rw [left, hs]; exact ⟨State.noConfusion, Nat.succ_pos _⟩
  | wait _ hs _ hr => rw [left, hs, hr]; exact ⟨State.noConfusion, Nat.succ_pos _⟩
  | ready _ hs _ hr => rw [left, hs, hr]; exact ⟨State.noConfusion, Nat.succ_pos _⟩

/-- A cycle before the rest of a walk. -/
theorem cons_cases {leaf : Option Leaf} {todo todo' : List (BitVec 56)} {is : List (In n)}
    (he : todo.map Event.read = eventsO t.regs i ++ todo'.map Event.read)
    (hl : left (t.next i) + (busy t i).toNat ≤ left t)
    (h : Runs (t.next i) todo' is ∨ Ends j (t.next i) todo' leaf is) :
    Runs t todo (i :: is) ∨ Ends j t todo leaf (i :: is) := by
  rcases h with ⟨hs, ⟨rest, hr⟩, hb⟩ | ⟨pre, k, e, post, rfl, hlen, hev, hs⟩
  · refine .inl ⟨hs, ⟨rest, ?_⟩, ?_⟩
    · rw [he, hr, ← List.append_assoc]
      rfl
    · rw [busyCycles]
      omega
  · refine .inr ⟨i :: pre, k, e, post, rfl, hlen, ?_, hs⟩
    rw [List.cons_append, events, hev, he, List.append_assoc]

/-- The error is raised one cycle after the entry that caused it. -/
theorem step_error (hf : i.flush = false) (hs : t.regs.state = .propagateError) :
    (t.next i).regs.state = .idle ∧ eventsO t.regs i = [.error] := by
  have hc : comb t.regs i = { defaults t.regs with stateD := .idle, ptwError := true } := by
    simp [comb, stateCase, hf, hs]
  refine ⟨?_, ?_⟩
  · simp [Sys.next, next, hc]
  · simp [eventsO, hc, defaults]

/-- The entry that concludes a walk, and what follows. -/
theorem conclude_run {leaf : Option Leaf} (h : Concludes j t i leaf) (hleft : 1 < left t)
    (hbusy : busy t i = true) {is : List (In n)}
    (hs : machine.Steps (fun t i => i.flush = false ∧ Serves j.mem t i) (t.next i) is) :
    Runs t [] (i :: is) ∨ Ends j t [] leaf (i :: is) := by
  unfold Concludes at h
  split at h
  · rename_i hnone
    match is with
    | [] =>
      refine .inl ⟨?_, ⟨[], by simp [events, h.2]⟩, by simpa [busyCycles, hbusy] using hleft⟩
      show (t.next i).regs.state ≠ .idle
      rw [h.1]
      exact State.noConfusion
    | e :: post =>
      obtain ⟨hidle, herr⟩ := step_error hs.1.1 h.1
      refine .inr ⟨[], i, [e], post, rfl, le_rfl, ?_, hidle⟩
      rw [hnone]
      simp [events, h.2, herr, Job.outcome]
  · rename_i l hsome
    refine .inr ⟨[], i, [], is, rfl, Nat.zero_le _, ?_, h.1⟩
    rw [hsome]
    simp [events, h.2]

/-- A walk in one of its phases goes on or ends, whatever the cache does. -/
theorem walk_run : ∀ (is : List (In n)) {t : Sys n} {rest : Walk} {todo : List (BitVec 56)},
    Phase j t rest todo → machine.Steps (fun t i => i.flush = false ∧ Serves j.mem t i) t is →
    Runs t todo is ∨ Ends j t todo rest.leaf is
  | [], _, _, todo, h, _ => .inl ⟨h.state.1, ⟨todo, rfl⟩, h.state.2⟩
  | i :: is, t, rest, _, h, hs => by
    obtain ⟨⟨hf, hsv⟩, hs⟩ := hs
    cases h with
    | grant hat hst hp hr =>
      obtain ⟨todo', hph, he, hl⟩ := step_grant hf hsv hat hst hp
      exact cons_cases he hl (walk_run is hph hs)
    | wait hat hst hp hr =>
      obtain ⟨hph, he, hl⟩ := step_wait hf hsv hat hst hp hr
      exact cons_cases (by rw [he]; rfl) hl (walk_run is hph hs)
    | ready hat hst hp hr hd =>
      have hbusy : busy t i = true := by simp [busy, hst, hr]
      rcases step_ready hf hsv hat hst hp hr hd with ⟨rest', hph, hleaf, hreads, he, hl⟩ | ⟨htodo, hend⟩
      · rw [← hleaf]
        refine cons_cases ?_ (by rw [hbusy]; exact hl) (walk_run is hph hs)
        rw [he, hreads]
        rfl
      · rw [htodo]
        refine conclude_run hend ?_ hbusy hs
        rw [left, hst, hr]
        exact Nat.lt_add_left _ Nat.one_lt_two

end Runs

/-! ### Between walks -/

/-- The answers that are still to come or have just come. -/
def outstanding (t : Sys n) : ℕ := t.pending.length + t.regs.dataRvalid.toNat

/-- An answer is outstanding exactly while the walker waits for one. -/
def Quiet (t : Sys n) : Prop :=
  outstanding t = if t.regs.state = .pteLookup ∨ t.regs.state = .waitRvalid then 1 else 0

/-- No flush comes while the walker waits for the answer to a request it gave up. -/
def WaitsForAnswer (t : Sys n) (i : In n) : Prop :=
  t.regs.state = .waitRvalid → t.regs.dataRvalid = false → i.flush = false

section Between

variable {t : Sys n} {i : In n}

theorem outstanding_next (ha : Answers t i) : outstanding (t.next i) =
    t.pending.length + ((comb t.regs i).dataReq && i.dataGnt).toNat := by
  have hlen : (if (comb t.regs i).dataReq && i.dataGnt then [t.regs.pptr] else []).length =
      ((comb t.regs i).dataReq && i.dataGnt).toNat := by
    cases (comb t.regs i).dataReq && i.dataGnt <;> rfl
  have hrv : (t.next i).regs.dataRvalid = i.dataRvalid := rfl
  rw [outstanding, hrv, Sys.next, List.length_append, hlen]
  cases hr : i.dataRvalid with
  | false => simp
  | true =>
    have hpos := List.length_pos_of_ne_nil (ha hr)
    simp only [if_true, List.length_tail, Bool.toNat_true]
    omega

/-- What a lookup with its answer there does next. -/
theorem state_of_answer (hs : t.regs.state = .pteLookup) (hr : t.regs.dataRvalid = true) :
    (t.next i).regs.state ≠ .pteLookup ∧ (t.next i).regs.state ≠ .waitRvalid := by
  cases hf : i.flush with
  | true => simp [Sys.next, next, comb, hf, hs, hr]
  | false =>
    have hc := (comb_pteLookup hf hs).trans (pteLookupCase_eq hr)
    show (comb t.regs i).stateD ≠ _ ∧ (comb t.regs i).stateD ≠ _
    rw [hc]
    split_ifs with hinv hleaf
    · exact ⟨State.noConfusion, State.noConfusion⟩
    · have hset := settles_leafCase (s := t.regs) (i := i) (Bool.eq_false_iff.2 hinv)
        t.regs.globalMapping (c := { lookedUp t.regs with stateD := .idle }) rfl rfl rfl
      rw [hset.state]
      split <;> exact ⟨State.noConfusion, State.noConfusion⟩
    · cases hlvl : t.regs.lvl <;> simp [pointerCase, hlvl]

/-- Requests are made only while waiting for a grant. -/
theorem dataReq_eq (s : Regs n) (i : In n) : (comb s i).dataReq = (s.state == .waitGrant) := by
  have hupdate (pte : BitVec 64) (c : Comb n) : (leafUpdate s i pte c).dataReq = c.dataReq := by
    unfold leafUpdate
    dsimp only
    split_ifs <;> rfl
  have halign (pte : BitVec 64) (c : Comb n) : (alignCheck s pte c).dataReq = c.dataReq := by
    unfold alignCheck
    split_ifs <;> rfl
  have hpointer (pte : BitVec 64) (c : Comb n) : (pointerCase s pte c).dataReq = c.dataReq := by
    cases hlvl : s.lvl <;> simp [pointerCase, hlvl]
  have hlookup : (pteLookupCase s i (defaults s)).dataReq = false := by
    cases hr : s.dataRvalid with
    | false => simp [pteLookupCase, hr, defaults]
    | true =>
      rw [pteLookupCase_eq hr]
      split_ifs
      · rfl
      · rw [leafCase, halign, hupdate]
        rfl
      · rw [hpointer]
        rfl
  have hcase : (stateCase s i).dataReq = (s.state == .waitGrant) := by
    unfold stateCase
    cases s.state with
    | idle =>
      show (idleCase i (defaults s)).dataReq = false
      unfold idleCase
      dsimp only
      split_ifs <;> rfl
    | waitGrant =>
      show (waitGrantCase i (defaults s)).dataReq = true
      unfold waitGrantCase
      dsimp only
      split_ifs <;> rfl
    | pteLookup => exact hlookup
    | propagateError => rfl
    | waitRvalid =>
      dsimp only
      split_ifs <;> rfl
  unfold comb
  split_ifs <;> exact hcase

theorem Quiet.nil (h : Quiet t) (hl : t.regs.state ≠ .pteLookup) (hw : t.regs.state ≠ .waitRvalid) :
    t.pending = [] ∧ t.regs.dataRvalid = false := by
  have h0 : t.pending.length + t.regs.dataRvalid.toNat = 0 := by
    simpa [Quiet, outstanding, hl, hw] using h
  refine ⟨List.length_eq_zero_iff.1 (by omega), ?_⟩
  cases hr : t.regs.dataRvalid with
  | false => rfl
  | true => simp [hr] at h0

theorem Quiet.one (h : Quiet t) (hs : t.regs.state = .pteLookup ∨ t.regs.state = .waitRvalid) :
    t.pending.length = if t.regs.dataRvalid then 0 else 1 := by
  have h1 : t.pending.length + t.regs.dataRvalid.toNat = 1 := by
    simpa [Quiet, outstanding, hs] using h
  cases hr : t.regs.dataRvalid with
  | false => simpa [hr] using h1
  | true => simpa [hr] using h1

/-- The states after one without an outstanding answer, but for a granted request. -/
theorem state_of_idle (hs : t.regs.state = .idle) :
    (comb t.regs i).stateD ≠ .pteLookup ∧ (comb t.regs i).stateD ≠ .waitRvalid := by
  have hcase : (stateCase t.regs i).stateD ≠ .pteLookup ∧ (stateCase t.regs i).stateD ≠ .waitRvalid := by
    unfold stateCase idleCase
    rw [hs]
    dsimp only
    split_ifs <;> simp [defaults, hs]
  cases hf : i.flush with
  | true => simp [comb, hf, hs]
  | false => simpa [comb, hf] using hcase

/-- The walker waits for an answer exactly when one is outstanding. -/
theorem Quiet.step (h : Quiet t) (ha : Answers t i) (hw : WaitsForAnswer t i) : Quiet (t.next i) := by
  have hst : (t.next i).regs.state = (comb t.regs i).stateD := rfl
  unfold Quiet
  rw [outstanding_next ha, dataReq_eq, hst]
  cases hs : t.regs.state with
  | idle =>
    have hp := (h.nil (by simp [hs]) (by simp [hs])).1
    simp [hp, state_of_idle hs]
  | waitGrant =>
    have hp := (h.nil (by simp [hs]) (by simp [hs])).1
    cases hg : i.dataGnt <;> cases hf : i.flush <;>
      simp [hp, comb, stateCase, hs, waitGrantCase, hg, hf, defaults]
  | pteLookup =>
    have hp := h.one (.inl hs)
    cases hr : t.regs.dataRvalid with
    | true =>
      have hne := state_of_answer (i := i) hs hr
      rw [hst] at hne
      simp [hp, hr, hne]
    | false =>
      have hne : (comb t.regs i).stateD = .pteLookup ∨ (comb t.regs i).stateD = .waitRvalid := by
        cases hf : i.flush <;> simp [comb, stateCase, pteLookupCase, hs, hr, hf, defaults]
      simp [hp, hr, hne]
  | waitRvalid =>
    have hp := h.one (.inr hs)
    cases hr : t.regs.dataRvalid with
    | true => cases hf : i.flush <;> simp [hp, comb, stateCase, hs, hr, hf]
    | false => simp [hp, comb, stateCase, hs, hr, hw hs hr, defaults]
  | propagateError =>
    have hp := (h.nil (by simp [hs]) (by simp [hs])).1
    cases hf : i.flush <;> simp [hp, comb, stateCase, hs, hf]

end Between

/-! ### Walks -/

/-- A cycle that starts a walk. -/
theorem phase_of_starts {t : Sys n} {i : In n} (hp : t.pending = []) (ha : Answers t i)
    (hf : i.flush = false) {isInstr : Bool} {va : BitVec 64} (hst : starts t i = some (isInstr, va))
    (mem : BitVec 56 → BitVec 64) :
    let j : Job n := ⟨mem, va, isInstr, i.asid, i.satpPpn⟩
    Phase j (t.next i) j.walk j.walk.reads ∧ eventsO t.regs i = [] ∧ left (t.next i) = 10 := by
  intro j
  have hrv : i.dataRvalid = false := by
    rw [Bool.eq_false_iff]
    exact fun hr => ha hr hp
  have hs : t.regs.state = .idle := by
    by_contra hs
    simp [starts, hs] at hst
  have hc : comb t.regs i = idleCase i (defaults t.regs) := by simp [comb, stateCase, hf, hs]
  have hptr := pteAddr_eq i.satpPpn va 2
  have hnext : (t.next i).regs.state = .waitGrant ∧ (t.next i).regs.lvl = .lvl1 ∧
      (t.next i).regs.isInstr = isInstr ∧ (t.next i).regs.tlbUpdateAsid = i.asid ∧
      (t.next i).regs.vaddr = va ∧ (t.next i).regs.pptr = Sv39.pteAddr i.satpPpn va 2 ∧
      (t.next i).regs.globalMapping = false ∧ (t.next i).pending = [] ∧ eventsO t.regs i = [] := by
    rw [starts, if_pos hs] at hst
    split_ifs at hst with h1 h2
    · obtain ⟨rfl, rfl⟩ := Prod.mk.inj (Option.some.inj hst)
      simp [Sys.next, next, hc, idleCase, h1, defaults, eventsO, hrv, hp, ← hptr]
    · obtain ⟨rfl, rfl⟩ := Prod.mk.inj (Option.some.inj hst)
      simp only [Sys.next, next, hc, idleCase, h1, h2, defaults, eventsO, hrv, hp, ← hptr]
      simp
  obtain ⟨hst', hl, hi, has, hv, hpp, hg, hpend, he⟩ := hnext
  refine ⟨.grant ⟨hi, has, hv, i.satpPpn, ?_, ?_⟩ hst' hpend hrv, he, ?_⟩
  · rw [hl]
    exact hpp
  · rw [hl, hg]
    rfl
  · rw [left, hst', hl]
    rfl

/-- In every run in which the walker is not flushed while it waits for an answer it gave
up, a walk that is started and not flushed is the walk of the architecture: it makes its
reads, of which there are at most three, and either is still on, after less than ten
cycles that did not wait for the cache, or has ended with the update of the TLB it is for,
or with an error where the architecture faults. The access is that of the cycle that sees
the last entry. -/
theorem walk_sv39 (is : List (In n))
    (hs : machine.Steps (fun t i => Answers t i ∧ WaitsForAnswer t i) ⟨reset, []⟩ is) (i : In n)
    (ha : Answers (machine.run ⟨reset, []⟩ is) i) (hf : i.flush = false) (isInstr : Bool)
    (va : BitVec 64) (hst : starts (machine.run ⟨reset, []⟩ is) i = some (isInstr, va))
    (mem : BitVec 56 → BitVec 64) (js : List (In n))
    (hj : machine.Steps (fun t i => i.flush = false ∧ Serves mem t i)
      ((machine.run ⟨reset, []⟩ is).next i) js) :
    let t := (machine.run ⟨reset, []⟩ is).next i
    let j : Job n := ⟨mem, va, isInstr, i.asid, i.satpPpn⟩
    j.walk.reads.length ≤ 3 ∧ eventsO (machine.run ⟨reset, []⟩ is).regs i = [] ∧
      (((machine.run t js).regs.state ≠ .idle ∧ events t js <+: j.walk.reads.map Event.read ∧
          busyCycles t js < 10) ∨
        ∃ pre k e post, js = pre ++ k :: (e ++ post) ∧ e.length ≤ 1 ∧
          events t (pre ++ k :: e) = j.walk.reads.map Event.read ++
            [j.outcome (Sv39.translate mem va i.satpPpn (access isInstr k))] ∧
          (machine.run t (pre ++ k :: e)).regs.state = .idle) := by
  intro t j
  have hq : Quiet (machine.run (⟨reset, []⟩ : Sys n) is) :=
    Machine.run_inv (fun _ _ h ok => h.step ok.1 ok.2) is _ rfl hs
  have hidle : (machine.run (⟨reset, []⟩ : Sys n) is).regs.state = .idle := by
    by_contra hne
    simp [starts, hne] at hst
  obtain ⟨hph, he, hleft⟩ := phase_of_starts (hq.nil (by simp [hidle]) (by simp [hidle])).1 ha hf hst mem
  refine ⟨Sv39.reads_walk mem va 2 i.satpPpn false, he, ?_⟩
  rcases walk_run js hph hj with ⟨hne, ⟨rest, hr⟩, hb⟩ | hend
  · exact .inl ⟨hne, ⟨rest.map Event.read, hr.symm⟩, hleft ▸ hb⟩
  · exact .inr hend

/-- Nothing happens. -/
def quietIn : In 1 where
  flush := false
  enableTranslation := true
  enLdStTranslation := true
  lsuIsStore := false
  dataGnt := false
  dataRvalid := false
  dataRdata := 0
  asid := 1
  itlbAccess := false
  itlbHit := false
  itlbVaddr := 0
  dtlbAccess := false
  dtlbHit := false
  dtlbVaddr := 0
  satpPpn := 0
  mxr := false

/-- A load misses in the TLB. -/
def missAt (va : BitVec 64) : In 1 := { quietIn with dtlbAccess := true, dtlbVaddr := va }

/-- The first entry of the root table is a leaf with all permissions, the others are
invalid. -/
def oneLeaf (addr : BitVec 56) : BitVec 64 := if addr = 0 then 0xcf else 0

theorem walk_sv39_leaf :
    let t : Sys 1 := (⟨reset, []⟩ : Sys 1).next (missAt 0)
    let js : List (In 1) :=
      [{ quietIn with dataGnt := true }, { quietIn with dataRvalid := true, dataRdata := 0xcf }, quietIn]
    events t js = [.read 0, .dtlb ⟨0, false, true, 1, 0xcf⟩] ∧
      (((machine.run t js).regs.state ≠ .idle ∧
          events t js <+: (Sv39.walk oneLeaf 0 2 0 false).reads.map Event.read ∧ busyCycles t js < 10) ∨
        ∃ pre k e post, js = pre ++ k :: (e ++ post) ∧ e.length ≤ 1 ∧
          events t (pre ++ k :: e) = (Sv39.walk oneLeaf 0 2 0 false).reads.map Event.read ++
            [(⟨oneLeaf, 0, false, 1, 0⟩ : Job 1).outcome (Sv39.translate oneLeaf 0 0 (access false k))] ∧
          (machine.run t (pre ++ k :: e)).regs.state = .idle) := by
  intro t js
  refine ⟨by decide +kernel, ?_⟩
  refine (walk_sv39 [] trivial (missAt 0) (fun h => nomatch h) rfl false 0 rfl oneLeaf js ?_).2.2
  exact ⟨⟨rfl, fun h => nomatch h⟩, ⟨rfl, fun _ => ⟨0, [], rfl, rfl⟩⟩, ⟨rfl, fun h => nomatch h⟩, trivial⟩

/-- A walk is flushed after its request was granted, and the walker flushed again before
the answer: the answer comes when the next walk has its grant, and is taken for the entry
of that walk. The architecture faults, the walker fills the TLB. -/
theorem stale_answer :
    let is : List (In 1) :=
      [missAt 0, { quietIn with dataGnt := true }, { quietIn with flush := true },
        { quietIn with flush := true }]
    let t := (machine.run ⟨reset, []⟩ is).next (missAt 0x40000000)
    let js : List (In 1) :=
      [{ quietIn with dataGnt := true, dataRvalid := true, dataRdata := oneLeaf 0 }, quietIn]
    machine.Steps Answers ⟨reset, []⟩ is ∧
      starts (machine.run ⟨reset, []⟩ is) (missAt 0x40000000) = some (false, 0x40000000) ∧
      machine.Steps (fun t i => i.flush = false ∧ Serves oneLeaf t i) t js ∧
      Sv39.translate oneLeaf 0x40000000 0 (.load false) = none ∧
      events t js = [.read 8, .dtlb ⟨0x40000, false, true, 1, 0xcf⟩] ∧
      (machine.run t js).regs.state = .idle := by
  intro is t js
  refine ⟨?_, by decide +kernel, ?_, by decide +kernel, by decide +kernel, by decide +kernel⟩
  · exact ⟨(fun h => nomatch h), (fun h => nomatch h), (fun h => nomatch h), (fun h => nomatch h), trivial⟩
  · exact ⟨⟨rfl, fun _ => ⟨0, [], rfl, rfl⟩⟩, ⟨rfl, fun h => nomatch h⟩, trivial⟩

end Ptw
end Ariane

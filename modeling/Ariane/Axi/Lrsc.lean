/-
# Exclusive accesses in front of a slave

`axi_riscv_lrsc.sv` gives a slave without exclusive accesses those of AXI: a reservation table
(`axi_res_tbl.sv`) holds an address for each id. An exclusive read reserves its address, an
exclusive write is let through if its id holds a reservation of its address and is dropped
otherwise, and the last data beat of every write that passes clears the reservations of its address.

Reads and writes have a state machine each, and both ask the table, which serves one request in a
cycle: a clear before a reservation, a reservation before a check.

What the masters see is told by the events at the table and at the slave's data channel
(`Regs.events`). In every run exclusive writes are decided by the reservations that the events before
them leave (`Decides`), and between the reservation of an exclusive write that passes and its data no
other write at its address reaches the slave (`Atomic`).
-/
import Mathlib.Data.List.Basic
import Mathlib.Data.Nat.Init
import Ariane.Lib.Machine

namespace Ariane
namespace Lrsc

open Lib

/-! ### Ports -/

/-- The widths, and the closed range `ADDR_BEGIN` to `ADDR_END`. -/
structure Cfg where
  addrWidth : ℕ
  idWidth : ℕ
  addrBegin : ℕ
  addrEnd : ℕ

def Cfg.inside (P : Cfg) (a : BitVec P.addrWidth) : Bool :=
  P.addrBegin ≤ a.toNat && a.toNat ≤ P.addrEnd

variable {P : Cfg}

/-- A request on an address channel. -/
structure Ax (P : Cfg) where
  addr : BitVec P.addrWidth
  id : BitVec P.idWidth
  len : BitVec 8
  lock : Bool
deriving DecidableEq

/-- Exclusive, no burst, and inside the range. -/
def Ax.exclusive (x : Ax P) : Bool := P.inside x.addr && (x.lock && x.len == 0)

theorem Ax.exclusive_iff (x : Ax P) :
    x.exclusive = true ↔ P.inside x.addr = true ∧ x.lock = true ∧ x.len = 0 := by
  simp [Ax.exclusive]

/-- A write response. -/
structure BResp (P : Cfg) where
  id : BitVec P.idWidth
  resp : BitVec 2
deriving DecidableEq

/-- `mst_r_resp_i` and `mst_r_last_i` of a beat. -/
structure RBeat where
  resp : BitVec 2
  last : Bool

/-- A channel that is not valid is `none`; of a data beat of a write only `last` is looked at. -/
structure In (P : Cfg) where
  ar : Option (Ax P)
  rReady : Bool
  aw : Option (Ax P)
  wLast : Option Bool
  bReady : Bool
  mstArReady : Bool
  mstAwReady : Bool
  mstWReady : Bool
  mstR : Option RBeat
  mstB : Option (BResp P)

/-- `r_state_q`. -/
inductive RState
  | idle | waitAr | waitR
deriving DecidableEq

/-- `w_state_q`. -/
inductive WState
  | awIdle | forward | bypass | waitArtClr | drop | bForward | bInject
deriving DecidableEq

structure Regs (P : Cfg) where
  rState : RState
  rExcl : Bool
  wState : WState
  bExcl : Bool
  wAddr : BitVec P.addrWidth
  wId : BitVec P.idWidth
  tbl : BitVec P.idWidth → BitVec P.addrWidth

def Regs.reset : Regs P := ⟨.idle, false, .awIdle, false, 0, 0, fun _ => 0⟩

/-! ### The reservation table -/

namespace Regs

variable (r : Regs P) (i : In P)

/-- The slave takes the last data beat. -/
def lastTaken (i : In P) : Bool := i.wLast == some true && i.mstWReady

/-- `wr_clr_req`, with its address. Nothing raises `rd_clr_req`, so the arbiter in front of the table
passes this request on. -/
def clrReq : Option (BitVec P.addrWidth) :=
  match r.wState with
  | .forward => if lastTaken i then some r.wAddr else none
  | .waitArtClr => some r.wAddr
  | _ => none

/-- `art_set_req`, with its address and id. -/
def setReq : Option (Ax P) :=
  match r.rState with
  | .idle => i.ar.filter Ax.exclusive
  | _ => none

/-- `art_check_req`, with its address and id. -/
def checkReq : Option (Ax P) :=
  match r.wState with
  | .awIdle => i.aw.filter Ax.exclusive
  | _ => none

def clrGnt : Bool := (r.clrReq i).isSome

def setGnt : Bool := (r.clrReq i).isNone && (r.setReq i).isSome

def checkGnt : Bool := (r.clrReq i).isNone && (r.setReq i).isNone && (r.checkReq i).isSome

/-- `check_res_o`. -/
def checkRes : Bool := r.checkGnt i && (r.checkReq i).any fun x => r.tbl x.id == x.addr

/-- `tbl_d`. -/
def tblD (j : BitVec P.idWidth) : BitVec P.addrWidth :=
  if r.setGnt i && (r.setReq i).any (·.id == j) then ((r.setReq i).map Ax.addr).getD 0
  else if r.clrReq i == some (r.tbl j) then 0
  else r.tbl j

/-! ### Reads -/

/-- The outputs of the state machine of the reads: `r_state_d`, `r_excl_d`, `mst_ar_valid_o`,
`slv_ar_ready_o`, the response when `slv_r_valid_o`, `mst_r_ready_o`. -/
structure RFsm where
  stateD : RState
  exclD : Bool
  mstAr : Bool := false
  slvArReady : Bool := false
  slvRResp : Option (BitVec 2) := none
  mstRReady : Bool := false

/-- A read that may go to the slave in this cycle. -/
def sendAr (excl : Bool) (i : In P) : RFsm where
  stateD := if i.mstArReady then .waitR else .waitAr
  exclD := excl
  mstAr := true
  slvArReady := i.mstArReady

/-- The slave's response; one without an error tells whether the read was exclusive. -/
def readResp (b : RBeat) : BitVec 2 := if b.resp.getLsbD 1 then b.resp else if r.rExcl then 1 else 0

def rFsm : RFsm :=
  match r.rState with
  | .idle =>
    match i.ar with
    | none => { stateD := .idle, exclD := r.rExcl }
    | some x =>
      if x.exclusive then
        if r.setGnt i then sendAr true i else { stateD := .idle, exclD := true }
      else sendAr false i
  | .waitAr =>
    { stateD := if i.mstArReady && i.ar.isSome then .waitR else .waitAr
      exclD := r.rExcl
      mstAr := i.ar.isSome
      slvArReady := i.mstArReady }
  | .waitR =>
    let done := i.rReady && i.mstR.any RBeat.last
    { stateD := if done then .idle else .waitR
      exclD := r.rExcl && !done
      slvRResp := i.mstR.map r.readResp
      mstRReady := i.rReady }

/-! ### Writes -/

/-- The outputs of the state machine of the writes: `w_state_d`, `b_excl_d`, `mst_aw_valid_o`,
`slv_aw_ready_o`, `mst_w_valid_o`, `slv_w_ready_o`, the response when `slv_b_valid_o`,
`mst_b_ready_o`. -/
structure WFsm (P : Cfg) where
  stateD : WState
  bExclD : Bool
  mstAw : Bool := false
  slvAwReady : Bool := false
  mstW : Bool := false
  slvWReady : Bool := false
  slvB : Option (BResp P) := none
  mstBReady : Bool := false

/-- The write goes to the slave when the slave takes it. -/
def sendAw (dest : WState) (excl : Bool) : WFsm P where
  stateD := if i.mstAwReady then dest else .awIdle
  bExclD := if i.mstAwReady && excl then true else r.bExcl
  mstAw := true
  slvAwReady := i.mstAwReady

/-- The slave's response; one without an error tells whether the write was exclusive. -/
def writeResp (b : BResp P) : BResp P :=
  ⟨b.id, if b.resp.getLsbD 1 then b.resp else if r.bExcl then 1 else 0⟩

def wFsm : WFsm P :=
  match r.wState with
  | .awIdle =>
    match i.aw with
    | none => { stateD := .awIdle, bExclD := r.bExcl }
    | some x =>
      if P.inside x.addr then
        if x.lock && x.len == 0 then
          if r.checkGnt i then
            if r.checkRes i then r.sendAw i .forward true
            else { stateD := .drop, bExclD := r.bExcl, slvAwReady := true }
          else { stateD := .awIdle, bExclD := r.bExcl }
        else r.sendAw i .forward false
      else r.sendAw i .bypass false
  | .forward =>
    { stateD := if lastTaken i then if r.clrGnt i then .bForward else .waitArtClr else .forward
      bExclD := r.bExcl
      mstW := i.wLast.isSome
      slvWReady := i.mstWReady }
  | .bypass =>
    { stateD := if lastTaken i then .bForward else .bypass
      bExclD := r.bExcl
      mstW := i.wLast.isSome
      slvWReady := i.mstWReady }
  | .waitArtClr => { stateD := if r.clrGnt i then .bForward else .waitArtClr, bExclD := r.bExcl }
  | .drop =>
    { stateD := if i.wLast == some true then .bInject else .drop
      bExclD := r.bExcl
      slvWReady := true }
  | .bForward =>
    let done := i.mstB.isSome && i.bReady
    { stateD := if done then .awIdle else .bForward
      bExclD := r.bExcl && !done
      slvB := i.mstB.map r.writeResp
      mstBReady := i.bReady }
  | .bInject =>
    { stateD := if i.bReady then .awIdle else .bInject
      bExclD := r.bExcl
      slvB := some ⟨r.wId, 0⟩ }

/-- The write that is taken. -/
def awTaken : Option (Ax P) := if (r.wFsm i).slvAwReady then i.aw else none

def next : Regs P where
  rState := (r.rFsm i).stateD
  rExcl := (r.rFsm i).exclD
  wState := (r.wFsm i).stateD
  bExcl := (r.wFsm i).bExclD
  wAddr := ((r.awTaken i).map Ax.addr).getD r.wAddr
  wId := ((r.awTaken i).map Ax.id).getD r.wId
  tbl := r.tblD i

@[simp] theorem next_tbl : (r.next i).tbl = r.tblD i := rfl

end Regs

/-! ### Reservations -/

/-- What happens at the table and at the slave's data channel: an address is reserved for an id, an
exclusive write is taken and let through or not, the slave takes the last data beat of a write, which
may be an exclusive one. -/
inductive Ev (P : Cfg)
  | reserve (id : BitVec P.idWidth) (addr : BitVec P.addrWidth)
  | check (id : BitVec P.idWidth) (addr : BitVec P.addrWidth) (ok : Bool)
  | store (id : BitVec P.idWidth) (addr : BitVec P.addrWidth) (excl : Bool)
deriving DecidableEq

/-- An id keeps its latest reservation until a write at its address. -/
def Ev.keeps (j : BitVec P.idWidth) (o : Option (BitVec P.addrWidth)) : Ev P → Option (BitVec P.addrWidth)
  | .reserve i a => if i = j then some a else o
  | .check _ _ _ => o
  | .store _ a _ => if o = some a then none else o

/-- The address that is reserved for `j` after the events `l`. -/
def reservation (l : List (Ev P)) (j : BitVec P.idWidth) : Option (BitVec P.addrWidth) :=
  l.foldl (Ev.keeps j) none

/-- Exclusive writes are decided by the reservations. -/
def Decides (l : List (Ev P)) : Prop :=
  ∀ l₁ l₂ i a ok, l = l₁ ++ Ev.check i a ok :: l₂ → (ok = true ↔ reservation l₁ i = some a)

/-- No write at the address of an exclusive write comes between its reservation and its data. -/
def Atomic (l : List (Ev P)) : Prop :=
  ∀ l₁ l₂ i a, l = l₁ ++ Ev.store i a true :: l₂ →
    ∃ m₁ m₂, l₁ = m₁ ++ Ev.reserve i a :: m₂ ∧ ∀ j e, Ev.store j a e ∉ m₂

section Lists

variable {l : List (Ev P)} {i : BitVec P.idWidth} {a : BitVec P.addrWidth}

@[simp] theorem reservation_nil (j : BitVec P.idWidth) : reservation ([] : List (Ev P)) j = none := rfl

@[simp] theorem reservation_snoc (l : List (Ev P)) (e : Ev P) (j : BitVec P.idWidth) :
    reservation (l ++ [e]) j = e.keeps j (reservation l j) := by
  simp [reservation]

/-- A reservation was made, and no write at its address came after it. -/
theorem reserved_of_reservation (h : reservation l i = some a) :
    ∃ m₁ m₂, l = m₁ ++ Ev.reserve i a :: m₂ ∧ ∀ j e, Ev.store j a e ∉ m₂ := by
  induction l using List.reverseRecOn with
  | nil => simp at h
  | append_singleton l e ih =>
    rw [reservation_snoc] at h
    have keep : reservation l i = some a → (∀ j x, e ≠ Ev.store j a x) →
        ∃ m₁ m₂, l ++ [e] = m₁ ++ Ev.reserve i a :: m₂ ∧ ∀ j x, Ev.store j a x ∉ m₂ := by
      intro hl he
      obtain ⟨m₁, m₂, rfl, hm⟩ := ih hl
      refine ⟨m₁, m₂ ++ [e], by simp, fun j x hx => ?_⟩
      rcases List.mem_append.1 hx with hx | hx
      · exact hm j x hx
      · exact he j x (List.mem_singleton.1 hx).symm
    cases e with
    | reserve j b =>
      by_cases hj : j = i
      · subst hj
        have hb : b = a := by simpa [Ev.keeps] using h
        exact ⟨l, [], by rw [hb], by simp⟩
      · exact keep (by simpa [Ev.keeps, hj] using h) (by simp)
    | check j b ok => exact keep (by simpa [Ev.keeps] using h) (by simp)
    | store j b x =>
      simp only [Ev.keeps] at h
      by_cases hb : reservation l i = some b
      · simp [hb] at h
      · rw [if_neg hb] at h
        refine keep h fun k y he => hb ?_
        injection he with _ hab
        rw [h, hab]

/-- An event of a longer list is one of the list or the new one. -/
theorem split_snoc {l l₁ l₂ : List (Ev P)} {x y : Ev P} (h : l ++ [x] = l₁ ++ y :: l₂) :
    (l = l₁ ∧ x = y) ∨ ∃ m, l = l₁ ++ y :: m := by
  induction l₂ using List.reverseRecOn with
  | nil =>
    obtain ⟨h1, h2⟩ := List.append_inj' h rfl
    exact .inl ⟨h1, by simpa using h2⟩
  | append_singleton m z _ =>
    refine .inr ⟨m, ?_⟩
    have h' : l ++ [x] = (l₁ ++ y :: m) ++ [z] := by simpa using h
    exact (List.append_inj' h' rfl).1

/-- An exclusive write of `i` at `a` was let through, and nothing but reservations came after it. -/
def Open (l : List (Ev P)) (i : BitVec P.idWidth) (a : BitVec P.addrWidth) : Prop :=
  ∃ m₁ m₂, l = m₁ ++ Ev.check i a true :: m₂ ∧ ∀ e ∈ m₂, ∃ j b, e = Ev.reserve j b

theorem Open.reserve (h : Open l i a) (j : BitVec P.idWidth) (b : BitVec P.addrWidth) :
    Open (l ++ [Ev.reserve j b]) i a := by
  obtain ⟨m₁, m₂, rfl, hm⟩ := h
  refine ⟨m₁, m₂ ++ [Ev.reserve j b], by simp, fun e he => ?_⟩
  rcases List.mem_append.1 he with he | he
  · exact hm e he
  · exact ⟨j, b, List.mem_singleton.1 he⟩

theorem open_check (l : List (Ev P)) (i : BitVec P.idWidth) (a : BitVec P.addrWidth) :
    Open (l ++ [Ev.check i a true]) i a := ⟨l, [], rfl, by simp⟩

/-- The exclusive write in flight holds its address since its reservation. -/
theorem Open.reserved (h : Open l i a) (hd : Decides l) :
    ∃ m₁ m₂, l = m₁ ++ Ev.reserve i a :: m₂ ∧ ∀ j e, Ev.store j a e ∉ m₂ := by
  obtain ⟨m₁, m₂, rfl, hm⟩ := h
  obtain ⟨n₁, n₂, rfl, hn⟩ := reserved_of_reservation ((hd _ _ i a true rfl).1 rfl)
  refine ⟨n₁, n₂ ++ Ev.check i a true :: m₂, by simp, fun j e he => ?_⟩
  rcases List.mem_append.1 he with he | he
  · exact hn j e he
  · rcases List.mem_cons.1 he with he | he
    · cases he
    · obtain ⟨k, b, hk⟩ := hm _ he
      cases hk

theorem Decides.snoc (h : Decides l) {x : Ev P}
    (hx : ∀ i a ok, x = Ev.check i a ok → (ok = true ↔ reservation l i = some a)) :
    Decides (l ++ [x]) := by
  intro l₁ l₂ i a ok hl
  rcases split_snoc hl with ⟨rfl, rfl⟩ | ⟨m, hm⟩
  · exact hx i a ok rfl
  · exact h l₁ m i a ok hm

theorem Atomic.snoc (h : Atomic l) {x : Ev P} (hx : ∀ i a, x = Ev.store i a true →
    ∃ m₁ m₂, l = m₁ ++ Ev.reserve i a :: m₂ ∧ ∀ j e, Ev.store j a e ∉ m₂) :
    Atomic (l ++ [x]) := by
  intro l₁ l₂ i a hl
  rcases split_snoc hl with ⟨rfl, rfl⟩ | ⟨m, hm⟩
  · exact hx i a rfl
  · exact h l₁ m i a hm

end Lists

/-! ### The adapter with its events -/

namespace Regs

variable (r : Regs P) (i : In P)

/-- The slave takes the last data beat of the write in flight. -/
def stores : List (Ev P) :=
  if (r.wFsm i).mstW && lastTaken i then [.store r.wId r.wAddr r.bExcl] else []

def reserves : List (Ev P) :=
  if r.setGnt i then (r.setReq i).toList.map fun x => .reserve x.id x.addr else []

/-- An exclusive write is taken. -/
def checks : List (Ev P) :=
  if (r.wFsm i).slvAwReady then (r.checkReq i).toList.map fun x => .check x.id x.addr (r.checkRes i) else []

def events : List (Ev P) := r.stores i ++ r.reserves i ++ r.checks i

end Regs

structure Tracked (P : Cfg) where
  regs : Regs P
  log : List (Ev P)

def Tracked.next (t : Tracked P) (i : In P) : Tracked P := ⟨t.regs.next i, t.log ++ t.regs.events i⟩

def machine (P : Cfg) : Machine (Tracked P) (In P) := ⟨(· = ⟨.reset, []⟩), Tracked.next⟩

/-! ### What an edge keeps -/

/-- The laws of the events, and only the range is reserved. -/
structure Lawful (l : List (Ev P)) : Prop where
  decides : Decides l
  atomic : Atomic l
  inside : ∀ j a, reservation l j = some a → P.inside a = true

section Steps

variable {l : List (Ev P)} {r : Regs P} {i : In P}

theorem lawful_nil : Lawful ([] : List (Ev P)) where
  decides := by intro l₁ l₂ i a ok h; simp at h
  atomic := by intro l₁ l₂ i a h; simp at h
  inside := by intro j a h; simp at h

theorem Lawful.reserve (h : Lawful l) (j : BitVec P.idWidth) {a : BitVec P.addrWidth}
    (ha : P.inside a = true) : Lawful (l ++ [.reserve j a]) where
  decides := h.decides.snoc (by simp)
  atomic := h.atomic.snoc (by simp)
  inside := by
    intro k b hk
    simp only [reservation_snoc, Ev.keeps] at hk
    by_cases hj : j = k
    · rw [if_pos hj] at hk
      rwa [← Option.some.inj hk]
    · rw [if_neg hj] at hk
      exact h.inside k b hk

theorem Lawful.check (h : Lawful l) {j : BitVec P.idWidth} {a : BitVec P.addrWidth} {ok : Bool}
    (hok : ok = true ↔ reservation l j = some a) : Lawful (l ++ [.check j a ok]) where
  decides := by
    refine h.decides.snoc fun k b o he => ?_
    injection he with hk hb ho
    rw [← hk, ← hb, ← ho]
    exact hok
  atomic := h.atomic.snoc (by simp)
  inside := by simpa [Ev.keeps] using h.inside

theorem Lawful.store (h : Lawful l) {j : BitVec P.idWidth} {a : BitVec P.addrWidth} {e : Bool}
    (he : e = true → Open l j a) : Lawful (l ++ [.store j a e]) where
  decides := h.decides.snoc (by simp)
  atomic := by
    refine h.atomic.snoc fun k b hx => ?_
    injection hx with hk hb hx
    rw [← hk, ← hb]
    exact (he hx).reserved h.decides
  inside := by
    intro k b hk
    simp only [reservation_snoc, Ev.keeps] at hk
    by_cases ho : reservation l k = some a
    · simp [ho] at hk
    · rw [if_neg ho] at hk
      exact h.inside k b hk

theorem exclusive_of_setReq {x : Ax P} (h : r.setReq i = some x) : x.exclusive = true := by
  unfold Regs.setReq at h
  split at h
  · exact (Option.filter_eq_some_iff.1 h).2
  · cases h

theorem reserves_eq (r : Regs P) (i : In P) : r.reserves i = [] ∨
    ∃ x, r.clrReq i = none ∧ r.setReq i = some x ∧ x.exclusive = true ∧
      r.reserves i = [.reserve x.id x.addr] := by
  unfold Regs.reserves Regs.setGnt
  cases hc : r.clrReq i with
  | some a => simp
  | none =>
    cases hs : r.setReq i with
    | none => simp
    | some x => exact .inr ⟨x, rfl, rfl, exclusive_of_setReq hs, by simp⟩

theorem Lawful.reserves (h : Lawful l) (r : Regs P) (i : In P) : Lawful (l ++ r.reserves i) := by
  rcases reserves_eq r i with he | ⟨x, _, _, hx, he⟩
  · simpa [he] using h
  · rw [he]
    rw [Ax.exclusive_iff] at hx
    exact h.reserve x.id hx.1

theorem Open.reserves {j : BitVec P.idWidth} {a : BitVec P.addrWidth} (h : Open l j a) (r : Regs P)
    (i : In P) : Open (l ++ r.reserves i) j a := by
  rcases reserves_eq r i with he | ⟨x, _, _, _, he⟩
  · simpa [he] using h
  · rw [he]
    exact h.reserve x.id x.addr

/-- The table holds the reservations, with zero for none. -/
def Holds (tbl : BitVec P.idWidth → BitVec P.addrWidth) (l : List (Ev P)) : Prop :=
  ∀ j, tbl j = (reservation l j).getD 0

theorem Holds.reserves (h : Holds r.tbl l) (hc : r.clrReq i = none) :
    Holds (r.tblD i) (l ++ r.reserves i) := by
  intro j
  cases hs : r.setReq i with
  | none =>
    have hr : r.reserves i = [] := by simp [Regs.reserves, Regs.setGnt, hs]
    simp [hr, Regs.tblD, Regs.setGnt, hs, hc, h j]
  | some x =>
    have hr : r.reserves i = [.reserve x.id x.addr] := by simp [Regs.reserves, Regs.setGnt, hs, hc]
    rw [hr, reservation_snoc]
    by_cases hj : x.id = j
    · simp [Regs.tblD, Regs.setGnt, hs, hc, Ev.keeps, hj]
    · simp [Regs.tblD, Regs.setGnt, hs, hc, Ev.keeps, hj, h j]

/-- A clear empties what the data of the write takes away. -/
theorem Holds.store {a : BitVec P.addrWidth} (h : Holds r.tbl l) (hc : r.clrReq i = some a)
    (j : BitVec P.idWidth) (e : Bool) : Holds (r.tblD i) (l ++ [.store j a e]) := by
  intro k
  have hs : r.setGnt i = false := by simp [Regs.setGnt, hc]
  rw [reservation_snoc, Regs.tblD, hs, hc]
  simp only [Bool.false_and, Bool.false_eq_true, if_false, Ev.keeps, beq_iff_eq, Option.some.injEq, h k]
  cases hk : reservation l k with
  | none => simp
  | some b =>
    by_cases hb : a = b
    · simp [hb]
    · simp [hb, Ne.symm hb]

/-- Nobody reserves an address outside the range. -/
theorem Lawful.reservation_outside (h : Lawful l) {a : BitVec P.addrWidth} (ha : P.inside a = false)
    (j : BitVec P.idWidth) (e : Bool) (k : BitVec P.idWidth) :
    reservation (l ++ [.store j a e]) k = reservation l k := by
  rw [reservation_snoc, Ev.keeps]
  refine if_neg fun hk => ?_
  rw [h.inside k a hk] at ha
  cases ha

end Steps

/-- The table holds the reservations, an exclusive write in flight was let through by its own, and a
write that bypasses the table is outside the range. -/
structure Inv (t : Tracked P) : Prop where
  lawful : Lawful t.log
  holds : Holds t.regs.tbl t.log
  excl : t.regs.bExcl = true → t.regs.wState = .forward ∨ t.regs.wState = .bForward
  clears : t.regs.wState ≠ .waitArtClr
  opened : t.regs.wState = .forward → t.regs.bExcl = true → Open t.log t.regs.wId t.regs.wAddr
  outside : t.regs.wState = .bypass → P.inside t.regs.wAddr = false

section Edge

variable {t : Tracked P} {i : In P}

theorem inv_reset : Inv (⟨.reset, []⟩ : Tracked P) where
  lawful := lawful_nil
  holds := fun j => rfl
  excl := by simp [Regs.reset]
  clears := by simp [Regs.reset]
  opened := by simp [Regs.reset]
  outside := by simp [Regs.reset]

theorem last_of_taken (h : Regs.lastTaken i = true) : i.wLast = some true := by
  simp only [Regs.lastTaken, Bool.and_eq_true, beq_iff_eq] at h
  exact h.1

/-- An edge without events but reservations, after which no exclusive write is in its data phase. -/
theorem Inv.quiet (h : Inv t) (hc : t.regs.clrReq i = none) (he : t.regs.events i = t.regs.reserves i)
    (hx : (t.regs.next i).bExcl = true → (t.regs.next i).wState = .bForward)
    (hs : (t.regs.next i).wState ≠ .waitArtClr)
    (ho : (t.regs.next i).wState = .bypass → P.inside (t.regs.next i).wAddr = false) : Inv (t.next i) where
  lawful := by simpa [Tracked.next, he] using h.lawful.reserves t.regs i
  holds := by simpa [Tracked.next, he] using h.holds.reserves hc
  excl := fun hb => .inr (hx hb)
  clears := hs
  opened := by
    intro hw hb
    have hf : (t.regs.next i).wState = .forward := hw
    rw [hx hb] at hf
    cases hf
  outside := ho

theorem Inv.forward (h : Inv t) (hw : t.regs.wState = .forward) (i : In P) : Inv (t.next i) := by
  have hq : t.regs.checkReq i = none := by simp [Regs.checkReq, hw]
  have ha : t.regs.awTaken i = none := by simp [Regs.awTaken, Regs.wFsm, hw]
  cases hl : Regs.lastTaken i with
  | false =>
    have hc : t.regs.clrReq i = none := by simp [Regs.clrReq, hw, hl]
    have he : t.regs.events i = t.regs.reserves i := by
      simp [Regs.events, Regs.stores, Regs.checks, hl, hq]
    have hn : (t.regs.next i).wState = .forward := by simp [Regs.next, Regs.wFsm, hw, hl]
    refine ⟨?_, ?_, fun _ => .inl hn, by simp [Tracked.next, hn], fun _ hb => ?_, ?_⟩
    · simpa [Tracked.next, he] using h.lawful.reserves t.regs i
    · simpa [Tracked.next, he] using h.holds.reserves hc
    · have hb' : t.regs.bExcl = true := by simpa [Tracked.next, Regs.next, Regs.wFsm, hw] using hb
      have := (h.opened hw hb').reserves t.regs i
      simpa [Tracked.next, he, Regs.next, ha] using this
    · simp [Tracked.next, hn]
  | true =>
    have hc : t.regs.clrReq i = some t.regs.wAddr := by simp [Regs.clrReq, hw, hl]
    have he : t.regs.events i = [.store t.regs.wId t.regs.wAddr t.regs.bExcl] := by
      simp [Regs.events, Regs.stores, Regs.checks, Regs.reserves, Regs.setGnt, Regs.wFsm, hl, hc, hw,
        last_of_taken hl]
    have hn : (t.regs.next i).wState = .bForward := by
      simp [Regs.next, Regs.wFsm, Regs.clrGnt, hw, hl, hc]
    refine ⟨?_, ?_, fun _ => .inr hn, by simp [Tracked.next, hn], by simp [Tracked.next, hn],
      by simp [Tracked.next, hn]⟩
    · simpa [Tracked.next, he] using h.lawful.store (h.opened hw)
    · simpa [Tracked.next, he] using h.holds.store hc t.regs.wId t.regs.bExcl

theorem Inv.bypass (h : Inv t) (hw : t.regs.wState = .bypass) (i : In P) : Inv (t.next i) := by
  have hq : t.regs.checkReq i = none := by simp [Regs.checkReq, hw]
  have hc : t.regs.clrReq i = none := by simp [Regs.clrReq, hw]
  have ha : t.regs.awTaken i = none := by simp [Regs.awTaken, Regs.wFsm, hw]
  have hb : t.regs.bExcl = false := by
    cases hx : t.regs.bExcl with
    | false => rfl
    | true => rcases h.excl hx with hf | hf <;> simp [hw] at hf
  cases hl : Regs.lastTaken i with
  | false =>
    have he : t.regs.events i = t.regs.reserves i := by
      simp [Regs.events, Regs.stores, Regs.checks, hl, hq]
    have hn : (t.regs.next i).wState = .bypass := by simp [Regs.next, Regs.wFsm, hw, hl]
    refine ⟨?_, ?_, ?_, by simp [Tracked.next, hn], by simp [Tracked.next, hn], fun _ => ?_⟩
    · simpa [Tracked.next, he] using h.lawful.reserves t.regs i
    · simpa [Tracked.next, he] using h.holds.reserves hc
    · simp [Tracked.next, Regs.next, Regs.wFsm, hw, hb]
    · simpa [Tracked.next, Regs.next, ha] using h.outside hw
  | true =>
    have he : t.regs.events i = [.store t.regs.wId t.regs.wAddr t.regs.bExcl] ++ t.regs.reserves i := by
      simp [Regs.events, Regs.stores, Regs.checks, Regs.wFsm, hl, hw, last_of_taken hl]
    have hs := h.lawful.store (j := t.regs.wId) (a := t.regs.wAddr) (e := t.regs.bExcl) (by simp [hb])
    have ht : Holds t.regs.tbl (t.log ++ [.store t.regs.wId t.regs.wAddr t.regs.bExcl]) := by
      intro k
      rw [h.lawful.reservation_outside (h.outside hw)]
      exact h.holds k
    have hn : (t.regs.next i).wState = .bForward := by simp [Regs.next, Regs.wFsm, hw, hl]
    refine ⟨?_, ?_, fun _ => .inr hn, by simp [Tracked.next, hn], by simp [Tracked.next, hn],
      by simp [Tracked.next, hn]⟩
    · simpa [Tracked.next, he] using hs.reserves t.regs i
    · simpa [Tracked.next, he] using ht.reserves hc

theorem Inv.not_excl (h : Inv t) (hf : t.regs.wState ≠ .forward) (hb : t.regs.wState ≠ .bForward) :
    t.regs.bExcl = false := by
  cases hx : t.regs.bExcl with
  | false => rfl
  | true => rcases h.excl hx with hw | hw <;> contradiction

/-- The check of an exclusive write is what the reservations say. -/
theorem Inv.check_iff (h : Inv t) (h0 : 0 < P.addrBegin) {x : Ax P} (hq : t.regs.checkReq i = some x)
    (hx : P.inside x.addr = true) (hg : t.regs.checkGnt i = true) :
    t.regs.checkRes i = true ↔ reservation t.log x.id = some x.addr := by
  have hne : x.addr ≠ 0 := by
    intro hz
    simp only [Cfg.inside, hz, Bool.and_eq_true, decide_eq_true_eq] at hx
    have hz' : (0 : BitVec P.addrWidth).toNat = 0 := by simp
    omega
  simp only [Regs.checkRes, hg, hq, Bool.true_and, Option.any_some, beq_iff_eq, h.holds x.id]
  cases reservation t.log x.id with
  | none => simpa using hne.symm
  | some b => simp

/-- A taken exclusive write, let through or dropped. -/
theorem Inv.taken (h : Inv t) (h0 : 0 < P.addrBegin) (hw : t.regs.wState = .awIdle) {x : Ax P}
    (hi : i.aw = some x) (hx : x.exclusive = true) (hg : t.regs.checkGnt i = true)
    (hr : t.regs.checkRes i = true → i.mstAwReady = true) : Inv (t.next i) := by
  have hq : t.regs.checkReq i = some x := by simp [Regs.checkReq, hw, hi, hx]
  have hb : t.regs.bExcl = false := h.not_excl (by simp [hw]) (by simp [hw])
  rw [Ax.exclusive_iff] at hx
  have hn := h.check_iff h0 hq hx.1 hg
  have hg' : (t.regs.clrReq i).isNone = true ∧ (t.regs.setReq i).isNone = true := by
    simp only [Regs.checkGnt, Bool.and_eq_true] at hg
    exact hg.1
  have hs : t.regs.setReq i = none := Option.isNone_iff_eq_none.1 hg'.2
  have hc : t.regs.clrReq i = none := Option.isNone_iff_eq_none.1 hg'.1
  have hres : t.regs.reserves i = [] := by simp [Regs.reserves, Regs.setGnt, hs]
  have htbl := h.holds.reserves hc
  rw [hres, List.append_nil] at htbl
  have hcheck := h.lawful.check hn
  cases ho : t.regs.checkRes i with
  | true =>
    have hf : t.regs.wFsm i = t.regs.sendAw i .forward true := by
      simp [Regs.wFsm, hw, hi, hx.1, hx.2.1, hx.2.2, hg, ho]
    have he : t.regs.events i = [.check x.id x.addr true] := by
      simp [Regs.events, Regs.stores, hres, Regs.checks, hf, Regs.sendAw, hq, ho, hr ho]
    have hst : (t.regs.next i).wState = .forward := by simp [Regs.next, hf, Regs.sendAw, hr ho]
    have hid : (t.regs.next i).wId = x.id ∧ (t.regs.next i).wAddr = x.addr := by
      simp [Regs.next, Regs.awTaken, hf, Regs.sendAw, hr ho, hi]
    rw [ho] at hcheck
    refine ⟨?_, ?_, fun _ => .inl hst, by simp [Tracked.next, hst], fun _ _ => ?_, by simp [Tracked.next, hst]⟩
    · simpa [Tracked.next, he] using hcheck
    · intro j
      simpa [Tracked.next, he, Ev.keeps] using htbl j
    · simpa [Tracked.next, he, hid.1, hid.2] using open_check t.log x.id x.addr
  | false =>
    have hf : t.regs.wFsm i = { stateD := .drop, bExclD := t.regs.bExcl, slvAwReady := true } := by
      simp [Regs.wFsm, hw, hi, hx.1, hx.2.1, hx.2.2, hg, ho]
    have he : t.regs.events i = [.check x.id x.addr false] := by
      simp [Regs.events, Regs.stores, hres, Regs.checks, hf, hq, ho]
    have hst : (t.regs.next i).wState = .drop := by simp [Regs.next, hf]
    rw [ho] at hcheck
    refine ⟨?_, ?_, ?_, by simp [Tracked.next, hst], by simp [Tracked.next, hst], by simp [Tracked.next, hst]⟩
    · simpa [Tracked.next, he] using hcheck
    · intro j
      simpa [Tracked.next, he, Ev.keeps] using htbl j
    · simp [Tracked.next, Regs.next, hf, hb]

theorem Inv.awIdle (h : Inv t) (h0 : 0 < P.addrBegin) (hw : t.regs.wState = .awIdle) (i : In P) :
    Inv (t.next i) := by
  have hc : t.regs.clrReq i = none := by simp [Regs.clrReq, hw]
  have hb : t.regs.bExcl = false := h.not_excl (by simp [hw]) (by simp [hw])
  cases hi : i.aw with
  | none =>
    have hf : t.regs.wFsm i = { stateD := .awIdle, bExclD := t.regs.bExcl } := by
      simp [Regs.wFsm, hw, hi]
    exact h.quiet hc (by simp [Regs.events, Regs.stores, Regs.checks, hf])
      (by simp [Regs.next, hf, hb]) (by simp [Regs.next, hf]) (by simp [Regs.next, hf])
  | some x =>
    cases hx : x.exclusive with
    | true =>
      by_cases hg : t.regs.checkGnt i = true ∧ (t.regs.checkRes i = true → i.mstAwReady = true)
      · exact h.taken h0 hw hi hx hg.1 hg.2
      · -- the check is not served, or the slave does not take the write
        rw [Ax.exclusive_iff] at hx
        have hf : (t.regs.wFsm i).stateD = .awIdle ∧ (t.regs.wFsm i).bExclD = t.regs.bExcl ∧
            (t.regs.wFsm i).mstW = false ∧ (t.regs.wFsm i).slvAwReady = false := by
          cases hgn : t.regs.checkGnt i with
          | false => simp [Regs.wFsm, hw, hi, hx.1, hx.2.1, hx.2.2, hgn]
          | true =>
            have hr : t.regs.checkRes i = true ∧ i.mstAwReady = false := by simpa [hgn] using hg
            simp [Regs.wFsm, hw, hi, hx.1, hx.2.1, hx.2.2, hgn, hr.1, hr.2, Regs.sendAw]
        exact h.quiet hc (by simp [Regs.events, Regs.stores, Regs.checks, hf.2.2.1, hf.2.2.2])
          (by simp [Regs.next, hf.2.1, hb]) (by simp [Regs.next, hf.1]) (by simp [Regs.next, hf.1])
    | false =>
      have hq : t.regs.checkReq i = none := by simp [Regs.checkReq, hw, hi, hx]
      have hf : t.regs.wFsm i = t.regs.sendAw i (if P.inside x.addr then .forward else .bypass) false := by
        cases hin : P.inside x.addr with
        | false => simp [Regs.wFsm, hw, hi, hin]
        | true =>
          have hlock : x.lock = true → ¬x.len = 0 := by simpa [Ax.exclusive, hin] using hx
          simp only [Regs.wFsm, hw, hi, hin, if_true]
          refine if_neg fun hl => ?_
          simp only [Bool.and_eq_true, beq_iff_eq] at hl
          exact hlock hl.1 hl.2
      refine h.quiet hc (by simp [Regs.events, Regs.stores, Regs.checks, hf, Regs.sendAw, hq])
        (by simp [Regs.next, hf, Regs.sendAw, hb]) ?_ ?_
      · cases hin : P.inside x.addr <;> cases hm : i.mstAwReady <;> simp [Regs.next, hf, Regs.sendAw, hin, hm]
      · cases hin : P.inside x.addr <;> cases hm : i.mstAwReady <;>
          simp [Regs.next, Regs.awTaken, hf, Regs.sendAw, hi, hin, hm]

theorem Inv.next (h : Inv t) (h0 : 0 < P.addrBegin) (i : In P) : Inv (t.next i) := by
  cases hw : t.regs.wState with
  | awIdle => exact h.awIdle h0 hw i
  | forward => exact h.forward hw i
  | bypass => exact h.bypass hw i
  | waitArtClr => exact absurd hw h.clears
  | drop =>
    have hb : t.regs.bExcl = false := h.not_excl (by simp [hw]) (by simp [hw])
    refine h.quiet (by simp [Regs.clrReq, hw])
      (by simp [Regs.events, Regs.stores, Regs.checks, Regs.wFsm, hw])
      (by simp [Regs.next, Regs.wFsm, hw, hb]) ?_ ?_ <;>
      cases hl : i.wLast == some true <;> simp [Regs.next, Regs.wFsm, hw, hl]
  | bForward =>
    refine h.quiet (by simp [Regs.clrReq, hw])
      (by simp [Regs.events, Regs.stores, Regs.checks, Regs.wFsm, hw]) ?_ ?_ ?_ <;>
      cases hl : i.mstB.isSome && i.bReady <;> simp [Regs.next, Regs.wFsm, hw, hl]
  | bInject =>
    have hb : t.regs.bExcl = false := h.not_excl (by simp [hw]) (by simp [hw])
    refine h.quiet (by simp [Regs.clrReq, hw])
      (by simp [Regs.events, Regs.stores, Regs.checks, Regs.wFsm, hw])
      (by simp [Regs.next, Regs.wFsm, hw, hb]) ?_ ?_ <;>
      cases hl : i.bReady <;> simp [Regs.next, Regs.wFsm, hw, hl]

end Edge

theorem inv_of_reachable (h0 : 0 < P.addrBegin) {t : Tracked P} (h : (machine P).Reachable t) : Inv t :=
  h.inv (fun s (hs : s = _) => hs ▸ inv_reset) (fun _ i hs => hs.next h0 i)

/-- **Exclusive accesses are exclusive.** In every run, whatever the masters send and however the
slave stalls: an exclusive write is let through if and only if its id has reserved its address, by its
latest exclusive read, and no write at the address has reached the slave since; and between that
read and the data of the exclusive write no write at the address reaches the slave. -/
theorem exclusive_law (h0 : 0 < P.addrBegin) {t : Tracked P} (h : (machine P).Reachable t) :
    Decides t.log ∧ Atomic t.log :=
  ⟨(inv_of_reachable h0 h).lawful.decides, (inv_of_reachable h0 h).lawful.atomic⟩

/-! ### A lost race -/

def smallCfg : Cfg := ⟨4, 1, 8, 15⟩

/-- Nothing on any channel, and a slave that takes everything. -/
def idleIn : In smallCfg := ⟨none, true, none, none, true, true, true, true, none, none⟩

/-- The ids 0 and 1 reserve 9, and both write it. -/
def race : List (In smallCfg) :=
  [{ idleIn with ar := some ⟨9, 0, 0, true⟩ }, { idleIn with mstR := some ⟨0, true⟩ },
    { idleIn with ar := some ⟨9, 1, 0, true⟩ }, { idleIn with mstR := some ⟨0, true⟩ },
    { idleIn with aw := some ⟨9, 1, 0, true⟩ }, { idleIn with wLast := some true },
    { idleIn with mstB := some ⟨1, 0⟩ }, { idleIn with aw := some ⟨9, 0, 0, true⟩ }]

theorem exclusive_law_race :
    ((machine smallCfg).run ⟨.reset, []⟩ race).log =
        [.reserve 0 9, .reserve 1 9, .check 1 9 true, .store 1 9 true, .check 0 9 false] ∧
      Decides ((machine smallCfg).run ⟨.reset, []⟩ race).log ∧
      Atomic ((machine smallCfg).run ⟨.reset, []⟩ race).log :=
  ⟨by decide, exclusive_law (P := smallCfg) (by decide) ⟨_, race, rfl, rfl⟩⟩

/-! ### Every write is answered once -/

/-- A write that was taken: whether it was dropped, and whether a reservation let it through. -/
structure Txn (P : Cfg) where
  ax : Ax P
  dropped : Bool
  excl : Bool
deriving DecidableEq

/-- What the master sees of the slave's response. -/
def Txn.resp (x : Txn P) (b : BResp P) : BResp P :=
  ⟨b.id, if b.resp.getLsbD 1 then b.resp else if x.excl then 1 else 0⟩

/-- The answers to the writes `xs`, when the slave has sent the responses `bs`: one to each, in order.
A dropped write is answered without the slave, with its own id and no exclusive success. -/
inductive Answers : List (Txn P) → List (BResp P) → List (BResp P) → Prop
  | nil : Answers [] [] []
  | dropped {xs : List (Txn P)} {bs out : List (BResp P)} {x : Txn P} (h : Answers xs bs out)
      (hx : x.dropped = true) : Answers (xs ++ [x]) bs (out ++ [⟨x.ax.id, 0⟩])
  | sent {xs : List (Txn P)} {bs out : List (BResp P)} {x : Txn P} {b : BResp P} (h : Answers xs bs out)
      (hx : x.dropped = false) : Answers (xs ++ [x]) (bs ++ [b]) (out ++ [x.resp b])

namespace Regs

variable (r : Regs P) (i : In P)

def takes : List (Txn P) :=
  (r.awTaken i).toList.map fun x => ⟨x, !(r.wFsm i).mstAw, (r.wFsm i).mstAw && x.exclusive⟩

def sends : List (Ax P) := if (r.wFsm i).mstAw && i.mstAwReady then i.aw.toList else []

def comes : List (BResp P) := if (r.wFsm i).mstBReady then i.mstB.toList else []

def gives : List (BResp P) := if i.bReady then (r.wFsm i).slvB.toList else []

end Regs

/-- The adapter with the writes it has taken, those it has sent to the slave, the slave's responses and
the answers to the masters. -/
structure Ledger (P : Cfg) where
  regs : Regs P
  taken : List (Txn P)
  sent : List (Ax P)
  came : List (BResp P)
  given : List (BResp P)

def Ledger.next (t : Ledger P) (i : In P) : Ledger P :=
  ⟨t.regs.next i, t.taken ++ t.regs.takes i, t.sent ++ t.regs.sends i, t.came ++ t.regs.comes i,
    t.given ++ t.regs.gives i⟩

def ledger (P : Cfg) : Machine (Ledger P) (In P) := ⟨(· = ⟨.reset, [], [], [], []⟩), Ledger.next⟩

/-- What the registers know of the write in flight. -/
structure InFlight (r : Regs P) (x : Txn P) : Prop where
  busy : r.wState ≠ .awIdle
  excl : r.bExcl = x.excl
  dropped : x.dropped = true ↔ r.wState = .drop ∨ r.wState = .bInject
  id : x.dropped = true → r.wId = x.ax.id ∧ x.excl = false

/-- No write is in flight and all are answered, or one is and the others are answered. -/
def Booked (t : Ledger P) : Prop :=
  (t.regs.wState = .awIdle ∧ t.regs.bExcl = false ∧ Answers t.taken t.came t.given) ∨
  ∃ xs x, t.taken = xs ++ [x] ∧ Answers xs t.came t.given ∧ InFlight t.regs x

def OneAnswer (t : Ledger P) : Prop :=
  (∃ xs rest, t.taken = xs ++ rest ∧ rest.length ≤ 1 ∧ Answers xs t.came t.given) ∧
  t.sent = (t.taken.filter fun x => !x.dropped).map Txn.ax

section Books

variable {r : Regs P} {t : Ledger P} {i : In P}

/-- In `AW_IDLE` a write waits, goes to the slave, or is dropped. -/
theorem wFsm_awIdle (hw : r.wState = .awIdle) {x : Ax P} (hi : i.aw = some x) :
    ((r.wFsm i).stateD = .awIdle ∧ (r.wFsm i).bExclD = r.bExcl ∧ (r.wFsm i).slvAwReady = false ∧
      ((r.wFsm i).mstAw && i.mstAwReady) = false) ∨
    (((r.wFsm i).stateD = .forward ∨ (r.wFsm i).stateD = .bypass) ∧
      (r.wFsm i).bExclD = (r.bExcl || x.exclusive) ∧ (r.wFsm i).slvAwReady = true ∧
      (r.wFsm i).mstAw = true ∧ i.mstAwReady = true) ∨
    ((r.wFsm i).stateD = .drop ∧ (r.wFsm i).bExclD = r.bExcl ∧ (r.wFsm i).slvAwReady = true ∧
      (r.wFsm i).mstAw = false) := by
  cases hin : P.inside x.addr with
  | false => cases hm : i.mstAwReady <;> simp [Regs.wFsm, hw, hi, hin, Regs.sendAw, hm, Ax.exclusive]
  | true =>
    cases hl : x.lock && x.len == 0 with
    | false =>
      cases hm : i.mstAwReady <;>
        simp only [Regs.wFsm, hw, hi, hin, hl, Regs.sendAw, hm, Ax.exclusive] <;> simp
    | true =>
      cases hg : r.checkGnt i with
      | false => simp only [Regs.wFsm, hw, hi, hin, hl, hg]; simp
      | true =>
        cases hr : r.checkRes i with
        | false => simp only [Regs.wFsm, hw, hi, hin, hl, hg, hr]; simp
        | true =>
          cases hm : i.mstAwReady <;>
            simp only [Regs.wFsm, hw, hi, hin, hl, hg, hr, Regs.sendAw, hm, Ax.exclusive] <;> simp

/-- Outside `AW_IDLE` no write is taken. -/
theorem takes_of_busy (hw : r.wState ≠ .awIdle) (i : In P) :
    r.awTaken i = none ∧ r.takes i = [] ∧ r.sends i = [] := by
  cases h : r.wState with
  | awIdle => exact absurd h hw
  | _ => simp [Regs.takes, Regs.sends, Regs.awTaken, Regs.wFsm, h]

theorem sent_next (h : t.sent = (t.taken.filter fun x => !x.dropped).map Txn.ax) (i : In P) :
    (t.next i).sent = ((t.next i).taken.filter fun x => !x.dropped).map Txn.ax := by
  have step : t.regs.sends i = ((t.regs.takes i).filter fun x => !x.dropped).map Txn.ax := by
    by_cases hw : t.regs.wState = .awIdle
    · cases hi : i.aw with
      | none => simp [Regs.sends, Regs.takes, Regs.awTaken, hi]
      | some x =>
        rcases wFsm_awIdle hw hi with ⟨_, _, hs, hm⟩ | ⟨_, _, hs, hm, hr⟩ | ⟨_, _, hs, hm⟩
        · simp [Regs.sends, Regs.takes, Regs.awTaken, hs, hm]
        · simp [Regs.sends, Regs.takes, Regs.awTaken, hs, hm, hr, hi]
        · simp [Regs.sends, Regs.takes, Regs.awTaken, hs, hm, hi]
    · obtain ⟨_, ht, hs⟩ := takes_of_busy hw i
      simp [ht, hs]
  simp [Ledger.next, h, step]

/-- A write that the slave has not answered stays in flight. -/
theorem booked_wait {xs : List (Txn P)} {x : Txn P} (ht : t.taken = xs ++ [x])
    (ha : Answers xs t.came t.given) (hf : InFlight t.regs x) (hc : t.regs.comes i = [])
    (hg : t.regs.gives i = []) (hb : (t.regs.next i).wState ≠ .awIdle)
    (he : (t.regs.next i).bExcl = t.regs.bExcl)
    (hd : (t.regs.next i).wState = .drop ∨ (t.regs.next i).wState = .bInject ↔
      t.regs.wState = .drop ∨ t.regs.wState = .bInject) : Booked (t.next i) := by
  obtain ⟨hn, ht', _⟩ := takes_of_busy hf.busy i
  refine .inr ⟨xs, x, by simp [Ledger.next, ht, ht'], by simpa [Ledger.next, hc, hg] using ha, hb,
    he.trans hf.excl, hf.dropped.trans hd.symm, fun hx => ⟨?_, (hf.id hx).2⟩⟩
  rw [← (hf.id hx).1]
  simp [Ledger.next, Regs.next, hn]

theorem Booked.awIdle (hw : t.regs.wState = .awIdle) (hb : t.regs.bExcl = false)
    (ha : Answers t.taken t.came t.given) (i : In P) : Booked (t.next i) := by
  have hf : (t.regs.wFsm i).mstBReady = false ∧ (t.regs.wFsm i).slvB = none := by
    cases hi : i.aw with
    | none => simp [Regs.wFsm, hw, hi]
    | some x =>
      simp only [Regs.wFsm, hw, hi]
      split_ifs <;> simp [Regs.sendAw]
  have hc : t.regs.comes i = [] ∧ t.regs.gives i = [] := by simp [Regs.comes, Regs.gives, hf.1, hf.2]
  cases hi : i.aw with
  | none =>
    refine .inl ⟨?_, ?_, ?_⟩
    · simp [Ledger.next, Regs.next, Regs.wFsm, hw, hi]
    · simp [Ledger.next, Regs.next, Regs.wFsm, hw, hi, hb]
    · simpa [Ledger.next, Regs.takes, Regs.awTaken, hi, hc.1, hc.2] using ha
  | some x =>
    rcases wFsm_awIdle hw hi with ⟨hs, he, hr, _⟩ | ⟨hs, he, hr, hm, _⟩ | ⟨hs, he, hr, hm⟩
    · refine .inl ⟨?_, ?_, ?_⟩
      · simp [Ledger.next, Regs.next, hs]
      · simp [Ledger.next, Regs.next, he, hb]
      · simpa [Ledger.next, Regs.takes, Regs.awTaken, hr, hc.1, hc.2] using ha
    · refine .inr ⟨t.taken, ⟨x, false, x.exclusive⟩, ?_, by simpa [Ledger.next, hc.1, hc.2] using ha, ?_⟩
      · simp [Ledger.next, Regs.takes, Regs.awTaken, hr, hi, hm]
      · rcases hs with hs | hs <;>
          exact ⟨by simp [Ledger.next, Regs.next, hs], by simp [Ledger.next, Regs.next, he, hb],
            by simp [Ledger.next, Regs.next, hs], by simp⟩
    · refine .inr ⟨t.taken, ⟨x, true, false⟩, ?_, by simpa [Ledger.next, hc.1, hc.2] using ha, ?_⟩
      · simp [Ledger.next, Regs.takes, Regs.awTaken, hr, hi, hm]
      · exact ⟨by simp [Ledger.next, Regs.next, hs], by simp [Ledger.next, Regs.next, he, hb],
          by simp [Ledger.next, Regs.next, hs], by simp [Ledger.next, Regs.next, Regs.awTaken, hr, hi]⟩

theorem Booked.busy {xs : List (Txn P)} {x : Txn P} (ht : t.taken = xs ++ [x])
    (ha : Answers xs t.came t.given) (hf : InFlight t.regs x) (i : In P) : Booked (t.next i) := by
  obtain ⟨hn, ht', _⟩ := takes_of_busy hf.busy i
  cases hw : t.regs.wState with
  | awIdle => exact absurd hw hf.busy
  | bForward =>
    have hx : x.dropped = false := by
      cases hx : x.dropped with
      | false => rfl
      | true => simpa [hw] using hf.dropped.1 hx
    cases hb : i.mstB with
    | none =>
      exact booked_wait ht ha hf (by simp [Regs.comes, hb]) (by simp [Regs.gives, Regs.wFsm, hw, hb])
        (by simp [Regs.next, Regs.wFsm, hw, hb]) (by simp [Regs.next, Regs.wFsm, hw, hb])
        (by simp [Regs.next, Regs.wFsm, hw, hb])
    | some b =>
      cases hr : i.bReady with
      | false =>
        exact booked_wait ht ha hf (by simp [Regs.comes, Regs.wFsm, hw, hr]) (by simp [Regs.gives, hr])
          (by simp [Regs.next, Regs.wFsm, hw, hb, hr]) (by simp [Regs.next, Regs.wFsm, hw, hb, hr])
          (by simp [Regs.next, Regs.wFsm, hw, hb, hr])
      | true =>
        refine .inl ⟨by simp [Ledger.next, Regs.next, Regs.wFsm, hw, hb, hr],
          by simp [Ledger.next, Regs.next, Regs.wFsm, hw, hb, hr], ?_⟩
        have := Answers.sent (b := b) ha hx
        simpa [Ledger.next, ht, ht', Regs.comes, Regs.gives, Regs.wFsm, hw, hb, hr, Regs.writeResp,
          hf.excl, Txn.resp] using this
  | bInject =>
    have hx : x.dropped = true := hf.dropped.2 (.inr hw)
    cases hr : i.bReady with
    | false =>
      exact booked_wait ht ha hf (by simp [Regs.comes, Regs.wFsm, hw]) (by simp [Regs.gives, hr])
        (by simp [Regs.next, Regs.wFsm, hw, hr]) (by simp [Regs.next, Regs.wFsm, hw])
        (by simp [Regs.next, Regs.wFsm, hw, hr])
    | true =>
      refine .inl ⟨by simp [Ledger.next, Regs.next, Regs.wFsm, hw, hr], ?_, ?_⟩
      · simp [Ledger.next, Regs.next, Regs.wFsm, hw, hf.excl, (hf.id hx).2]
      · have := ha.dropped hx
        simpa [Ledger.next, ht, ht', Regs.comes, Regs.gives, Regs.wFsm, hw, hr, (hf.id hx).1] using this
  | drop =>
    refine booked_wait ht ha hf (by simp [Regs.comes, Regs.wFsm, hw]) (by simp [Regs.gives, Regs.wFsm, hw])
      ?_ (by simp [Regs.next, Regs.wFsm, hw]) ?_ <;>
      cases hl : i.wLast == some true <;> simp [Regs.next, Regs.wFsm, hw, hl]
  | waitArtClr =>
    refine booked_wait ht ha hf (by simp [Regs.comes, Regs.wFsm, hw]) (by simp [Regs.gives, Regs.wFsm, hw])
      ?_ (by simp [Regs.next, Regs.wFsm, hw]) ?_ <;>
      cases hl : t.regs.clrGnt i <;> simp [Regs.next, Regs.wFsm, hw, hl]
  | bypass =>
    refine booked_wait ht ha hf (by simp [Regs.comes, Regs.wFsm, hw]) (by simp [Regs.gives, Regs.wFsm, hw])
      ?_ (by simp [Regs.next, Regs.wFsm, hw]) ?_ <;>
      cases hl : Regs.lastTaken i <;> simp [Regs.next, Regs.wFsm, hw, hl]
  | forward =>
    refine booked_wait ht ha hf (by simp [Regs.comes, Regs.wFsm, hw]) (by simp [Regs.gives, Regs.wFsm, hw])
      ?_ (by simp [Regs.next, Regs.wFsm, hw]) ?_ <;>
      cases hl : Regs.lastTaken i <;> cases hc : t.regs.clrGnt i <;> simp [Regs.next, Regs.wFsm, hw, hl, hc]

theorem Booked.next (h : Booked t) (i : In P) : Booked (t.next i) := by
  rcases h with ⟨hw, hb, ha⟩ | ⟨xs, x, ht, ha, hf⟩
  · exact Booked.awIdle hw hb ha i
  · exact Booked.busy ht ha hf i

end Books

/-- **Every write is answered once.** In every run the masters' writes but at most the last have been
answered, each once and in their order: a write that was dropped with its own id and without exclusive
success, any other with the slave's response, which shows exclusive success if and only if the write
was exclusive, held a reservation, and met no error. The slave has been sent the writes that were not
dropped, in their order, and no others. -/
theorem one_answer {t : Ledger P} (h : (ledger P).Reachable t) : OneAnswer t := by
  have hi : Booked t ∧ t.sent = (t.taken.filter fun x => !x.dropped).map Txn.ax :=
    Machine.Reachable.inv (P := fun s => Booked s ∧ s.sent = (s.taken.filter fun x => !x.dropped).map Txn.ax)
      (fun s (hs : s = _) => hs ▸ ⟨.inl ⟨rfl, rfl, .nil⟩, rfl⟩)
      (fun _ i hs => ⟨hs.1.next i, sent_next hs.2 i⟩) h
  refine ⟨?_, hi.2⟩
  rcases hi.1 with ⟨_, _, ha⟩ | ⟨xs, x, ht, ha, _⟩
  · exact ⟨t.taken, [], by simp, by simp, ha⟩
  · exact ⟨xs, [x], ht, by simp, ha⟩

/-- The race to its end: the write of id 0 is dropped and answered. -/
theorem one_answer_race :
    ((ledger smallCfg).run ⟨.reset, [], [], [], []⟩
        (race ++ [{ idleIn with wLast := some true }, idleIn])).given = [⟨1, 1⟩, ⟨0, 0⟩] ∧
      OneAnswer ((ledger smallCfg).run ⟨.reset, [], [], [], []⟩
        (race ++ [{ idleIn with wLast := some true }, idleIn])) :=
  ⟨by decide, one_answer ⟨_, _, rfl, rfl⟩⟩

end Lrsc
end Ariane

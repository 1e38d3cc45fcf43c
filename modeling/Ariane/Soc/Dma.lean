/-
# The DMA engine

`dma_wrapper.sv` holds the command registers that software writes; `dma.sv` samples
them while it is idle or done, and takes the engine through a read and a write;
`dma_axi_adapter.sv` turns each into AXI transfers, with a buffer for a burst in
between.

`Quiet` is the invariant that an engine that is idle or done has nothing on the bus.
-/
import Mathlib.Data.BitVec
import Mathlib.Logic.Function.Basic
import Ariane.Lib.Machine

namespace Ariane
namespace Dma

open Lib

/-! ### Registers -/

/-- A command as software writes it. -/
structure Command where
  config : BitVec 32
  length : BitVec 32
  sourceAddr : BitVec 32
  destAddr : BitVec 32
deriving DecidableEq, Repr

/-- `config[CONF_START]`. -/
def Command.start (c : Command) : Bool := c.config.getLsbD 0

/-- `config[CONF_CLR_DONE]`. -/
def Command.clrDone (c : Command) : Bool := c.config.getLsbD 1

/-- `dma_ctrl_reg`. -/
inductive Ctrl
  | idle | startLoad | load | startStore | store | done
deriving DecidableEq, Repr

/-- The request to the adapter (`*_axi_ad_reg`). -/
structure AdReq where
  req : Bool
  we : Bool
  addr : BitVec 64
  be : BitVec 8
  len : BitVec 8
  size : BitVec 3
  single : Bool
  id : BitVec 4
deriving DecidableEq, Repr

/-- `state_q` of the adapter. -/
inductive AdState
  | idle | waitBValid | waitAwReady | waitLastWReady | waitLastWReadyAwReady | waitAwReadyBurst
  | waitRValid | waitRValidMultiple | completeRead
deriving DecidableEq, Repr

/-- The adapter's registers and its buffer. -/
structure Adapter where
  state : AdState
  cnt : BitVec 8
  id : BitVec 4
  mem : BitVec 8 → BitVec 64

structure Regs where
  cmd : Command
  cmdD : Command
  ctrl : Ctrl
  ad : AdReq
  adapter : Adapter

/-- The command registers' bus. -/
structure Bus where
  write : Bool
  addr : BitVec 32
  wdata : BitVec 32

/-- `axi_resp_i`. -/
structure Resp where
  awReady : Bool
  wReady : Bool
  bValid : Bool
  arReady : Bool
  rValid : Bool
  rLast : Bool
  rId : BitVec 4
  rData : BitVec 64

/-! ### The wrapper -/

def Command.write (c : Command) (x : Bus) : Command :=
  if x.write then
    match (x.addr.extractLsb' 2 3).toNat with
    | 0 => { c with config := x.wdata }
    | 1 => { c with length := x.wdata }
    | 2 => { c with sourceAddr := x.wdata }
    | 3 => { c with destAddr := x.wdata }
    | _ => c
  else c

/-! ### The adapter -/

/-- An address channel. -/
structure Ax where
  addr : BitVec 64
  len : BitVec 8
  size : BitVec 3
  burst : BitVec 2
  id : BitVec 4
deriving DecidableEq, Repr

/-- `axi_req_o`, as far as it varies. -/
structure Req where
  awValid : Bool
  aw : Ax
  arValid : Bool
  ar : Ax
  wValid : Bool
  wData : BitVec 64
  wStrb : BitVec 8
  wLast : Bool
  bReady : Bool
  rReady : Bool

/-- What `axi_fsm` assigns. -/
structure AdOut where
  req : Req
  gnt : Bool
  valid : Bool
  state : AdState
  cnt : BitVec 8
  id : BitVec 4
  memWrite : Option (BitVec 8 × BitVec 64)

def adDefaults (a : Adapter) (r : AdReq) : AdOut where
  req :=
    { awValid := false
      aw := ⟨r.addr, 0, r.size, if r.single then 0 else 1, r.id⟩
      arValid := false
      ar := ⟨r.addr, 0, r.size, if r.single then 0 else 1, r.id⟩
      wValid := false
      wData := a.mem 0
      wStrb := r.be
      wLast := false
      bReady := false
      rReady := false }
  gnt := false
  valid := false
  state := a.state
  cnt := a.cnt
  id := a.id
  memWrite := none

/-- `IDLE` with a write. -/
def adIdleWrite (r : AdReq) (p : Resp) (o : AdOut) : AdOut :=
  if r.single then
    { o with
      req := { o.req with awValid := true, wValid := true, wLast := true }
      gnt := p.awReady && p.wReady
      state :=
        match p.awReady, p.wReady with
        | true, true => .waitBValid
        | false, true => .waitAwReady
        | true, false => .waitLastWReady
        | false, false => .idle }
  else
    { o with
      req := { o.req with awValid := true, wValid := true, aw := { o.req.aw with len := r.len } }
      cnt := if p.wReady then r.len - 1 else r.len
      state :=
        match p.awReady, p.wReady with
        | true, true => .waitLastWReady
        | false, true => .waitLastWReadyAwReady
        | true, false => .waitLastWReady
        | false, false => o.state }

/-- `IDLE` with a read. -/
def adIdleRead (r : AdReq) (p : Resp) (o : AdOut) : AdOut :=
  { o with
    req :=
      { o.req with arValid := true, ar := if r.single then o.req.ar else { o.req.ar with len := r.len } }
    gnt := p.arReady
    cnt := if r.single then o.cnt else r.len
    state :=
      if p.arReady then if r.single then .waitRValid else .waitRValidMultiple else o.state }

/-- The beat of a burst that is sent while `cnt` beats are left. -/
def adBeat (a : Adapter) (r : AdReq) : BitVec 64 :=
  if r.single then a.mem 0 else a.mem (r.len - a.cnt)

/-- `WAIT_LAST_W_READY_AW_READY`. -/
def adWaitBoth (a : Adapter) (r : AdReq) (p : Resp) (o : AdOut) : AdOut :=
  let o : AdOut :=
    { o with
      req :=
        { o.req with
          wValid := true
          wLast := a.cnt == 0
          wData := adBeat a r
          awValid := true
          aw := { o.req.aw with len := r.len } } }
  match p.awReady, p.wReady with
  | false, true =>
    if a.cnt = 0 then { o with state := .waitAwReadyBurst } else { o with cnt := a.cnt - 1 }
  | true, false => { o with state := .waitLastWReady }
  | true, true =>
    if a.cnt = 0 then { o with state := .waitBValid, gnt := true }
    else { o with state := .waitLastWReady, cnt := a.cnt - 1 }
  | false, false => o

/-- `WAIT_LAST_W_READY`. -/
def adWaitLast (a : Adapter) (r : AdReq) (p : Resp) (o : AdOut) : AdOut :=
  let o : AdOut := { o with req := { o.req with wValid := true, wData := adBeat a r } }
  if a.cnt = 0 then
    let o : AdOut := { o with req := { o.req with wLast := true } }
    if p.wReady then { o with state := .waitBValid, gnt := true } else o
  else if p.wReady then { o with cnt := a.cnt - 1 }
  else o

/-- `WAIT_R_VALID` and `WAIT_R_VALID_MULTIPLE`. -/
def adWaitR (a : Adapter) (r : AdReq) (p : Resp) (o : AdOut) : AdOut :=
  let o : AdOut := { o with req := { o.req with rReady := true } }
  if p.rValid then
    { o with
      id := if p.rLast then p.rId else o.id
      state := if p.rLast then .completeRead else o.state
      memWrite := some (if a.state = .waitRValidMultiple then r.len - a.cnt else 0, p.rData)
      cnt := a.cnt - 1 }
  else o

/-- `axi_fsm`. -/
def axiFsm (a : Adapter) (r : AdReq) (p : Resp) : AdOut :=
  let o := adDefaults a r
  match a.state with
  | .idle =>
    let o : AdOut := { o with cnt := 0 }
    if r.req then if r.we then adIdleWrite r p o else adIdleRead r p o else o
  | .waitAwReady =>
    let o : AdOut := { o with req := { o.req with awValid := true } }
    if p.awReady then { o with gnt := true, state := .waitBValid } else o
  | .waitLastWReadyAwReady => adWaitBoth a r p o
  | .waitAwReadyBurst =>
    let o : AdOut := { o with req := { o.req with awValid := true, aw := { o.req.aw with len := r.len } } }
    if p.awReady then { o with gnt := true, state := .waitBValid } else o
  | .waitLastWReady => adWaitLast a r p o
  | .waitBValid =>
    let o : AdOut := { o with req := { o.req with bReady := true } }
    if p.bValid then { o with state := .idle, valid := true } else o
  | .waitRValid => adWaitR a r p o
  | .waitRValidMultiple => adWaitR a r p o
  | .completeRead => { o with valid := true, state := .idle }

def Adapter.next (a : Adapter) (r : AdReq) (p : Resp) : Adapter where
  state := (axiFsm a r p).state
  cnt := (axiFsm a r p).cnt
  id := (axiFsm a r p).id
  mem :=
    match (axiFsm a r p).memWrite with
    | some (k, w) => Function.update a.mem k w
    | none => a.mem

/-! ### The controller -/

/-- The request of `CTRL_START_LOAD` and `CTRL_START_STORE`, from the address `a`. The
byte enables are loaded with the length, whichever state it is. -/
def startReq (s : Regs) (we : Bool) (a : BitVec 32) (be : BitVec 8) : AdReq where
  req := true
  we := we
  addr := 0#32 ++ a.extractLsb' 3 29 ++ 0#3
  be := be
  len := s.cmdD.length.extractLsb' 0 8
  size := 3
  single := s.cmdD.length == 0
  id := 2

/-- `*_axi_ad_reg` after a clock edge. -/
def adReqNext (s : Regs) : AdReq :=
  match s.ctrl with
  | .startLoad => startReq s false s.cmdD.sourceAddr 0
  | .startStore => startReq s true s.cmdD.destAddr 0xff
  | .load => { s.ad with req := false }
  | .store => { s.ad with req := false }
  | .idle => s.ad
  | .done => s.ad

/-- `dma_ctrl_reg` after a clock edge, given what the adapter answers. -/
def ctrlNext (s : Regs) (gnt valid : Bool) : Ctrl :=
  match s.ctrl with
  | .idle => if s.cmdD.start then .startLoad else .idle
  | .startLoad => if gnt then .load else .startLoad
  | .load => if valid then .startStore else .load
  | .startStore => if gnt then .store else .startStore
  | .store => if valid then .done else .store
  | .done => if s.cmdD.clrDone then .idle else .done

/-- The engine takes commands: it is idle or done. -/
def Ctrl.waiting (c : Ctrl) : Bool := c == .idle || c == .done

def axiOut (s : Regs) (p : Resp) : AdOut := axiFsm s.adapter s.ad p

/-- The engine after a clock edge. -/
def next (s : Regs) (x : Bus) (p : Resp) : Regs where
  cmd := s.cmd.write x
  cmdD := if s.ctrl.waiting then s.cmd else s.cmdD
  ctrl := ctrlNext s (axiOut s p).gnt (axiOut s p).valid
  ad := adReqNext s
  adapter := s.adapter.next s.ad p

def reset : Regs where
  cmd := ⟨0, 0, 0, 0⟩
  cmdD := ⟨0, 0, 0, 0⟩
  ctrl := .idle
  ad := ⟨false, false, 0, 0, 0, 0, false, 0⟩
  adapter := ⟨.idle, 0, 0, fun _ => 0⟩

theorem Command.write_config_of_ne {c : Command} {x : Bus}
    (h : ¬(x.write = true ∧ (x.addr.extractLsb' 2 3).toNat = 0)) : (c.write x).config = c.config := by
  unfold Command.write
  split
  · rename_i hw
    split
    · exact absurd ⟨hw, ‹_›⟩ h
    all_goals rfl
  · rfl

/-- How the controller comes to be where it is. -/
theorem ctrlNext_cases (s : Regs) (gnt valid : Bool) :
    s.ctrl = .idle ∧ s.cmdD.start = true ∧ ctrlNext s gnt valid = .startLoad ∨
    s.ctrl = .idle ∧ s.cmdD.start = false ∧ ctrlNext s gnt valid = .idle ∨
    s.ctrl = .done ∧ s.cmdD.clrDone = true ∧ ctrlNext s gnt valid = .idle ∨
    s.ctrl = .done ∧ s.cmdD.clrDone = false ∧ ctrlNext s gnt valid = .done ∨
    s.ctrl.waiting = false ∧ ((ctrlNext s gnt valid).waiting = false ∨ ctrlNext s gnt valid = .done) := by
  unfold ctrlNext
  cases s.ctrl with
  | idle => cases s.cmdD.start <;> simp
  | startLoad => cases gnt <;> simp [Ctrl.waiting]
  | load => cases valid <;> simp [Ctrl.waiting]
  | startStore => cases gnt <;> simp [Ctrl.waiting]
  | store => cases valid <;> simp [Ctrl.waiting]
  | done => cases s.cmdD.clrDone <;> simp

/-- `state_o`. -/
def stateO (s : Regs) : BitVec 32 :=
  match s.ctrl with
  | .idle => 0
  | .startLoad => 1
  | .load => 2
  | .startStore => 3
  | .store => 4
  | .done => 5

/-- `rdata` of the wrapper. -/
def rdata (s : Regs) (addr : BitVec 32) : BitVec 32 :=
  match (addr.extractLsb' 2 3).toNat with
  | 0 => s.cmd.config
  | 1 => s.cmd.length
  | 2 => s.cmd.sourceAddr
  | 3 => s.cmd.destAddr
  | 4 => stateO s
  | _ => 0

/-! ### A waiting engine is quiet -/

/-- A waiting engine has nothing on the bus, and nothing on the way there. -/
def Quiet (s : Regs) : Prop :=
  s.ctrl.waiting = true → s.ad.req = false ∧ s.adapter.state = .idle

theorem Adapter.next_state_of_not_req {a : Adapter} {r : AdReq} (ha : a.state = .idle)
    (hr : r.req = false) (p : Resp) : (a.next r p).state = .idle := by
  simp [Adapter.next, axiFsm, ha, hr, adDefaults]

theorem adIdleWrite_valid (r : AdReq) (p : Resp) (o : AdOut) : (adIdleWrite r p o).valid = o.valid := by
  unfold adIdleWrite
  split <;> rfl

theorem adWaitBoth_valid (a : Adapter) (r : AdReq) (p : Resp) (o : AdOut) :
    (adWaitBoth a r p o).valid = o.valid := by
  unfold adWaitBoth
  dsimp only
  split
  · split <;> rfl
  · rfl
  · split <;> rfl
  · rfl

theorem adWaitLast_valid (a : Adapter) (r : AdReq) (p : Resp) (o : AdOut) :
    (adWaitLast a r p o).valid = o.valid := by
  unfold adWaitLast
  dsimp only
  split
  · split <;> rfl
  · split <;> rfl

theorem adWaitR_valid (a : Adapter) (r : AdReq) (p : Resp) (o : AdOut) :
    (adWaitR a r p o).valid = o.valid := by
  unfold adWaitR
  dsimp only
  split <;> rfl

/-- The adapter reports a transfer in its last cycle. -/
theorem Adapter.next_state_of_valid {a : Adapter} {r : AdReq} {p : Resp}
    (h : (axiFsm a r p).valid = true) : (a.next r p).state = .idle := by
  show (axiFsm a r p).state = .idle
  unfold axiFsm at h ⊢
  have h0 (x : AdOut) (hx : x.valid = (adDefaults a r).valid) : x.valid ≠ true := by
    rw [hx]
    exact Bool.false_ne_true
  cases hs : a.state with
  | idle =>
    simp only [hs] at h
    split at h
    · split at h
      · rw [adIdleWrite_valid] at h
        cases h
      · cases h
    · cases h
  | waitBValid =>
    simp only [hs] at h ⊢
    split
    · rfl
    · rename_i hb
      simp [hb, adDefaults] at h
  | waitAwReady =>
    simp only [hs] at h
    split at h <;> cases h
  | waitLastWReady => exact absurd h (by simp only [hs]; exact h0 _ (adWaitLast_valid ..))
  | waitLastWReadyAwReady => exact absurd h (by simp only [hs]; exact h0 _ (adWaitBoth_valid ..))
  | waitAwReadyBurst =>
    simp only [hs] at h
    split at h <;> cases h
  | waitRValid => exact absurd h (by simp only [hs]; exact h0 _ (adWaitR_valid ..))
  | waitRValidMultiple => exact absurd h (by simp only [hs]; exact h0 _ (adWaitR_valid ..))
  | completeRead => rfl

theorem quiet_next {s : Regs} (h : Quiet s) (x : Bus) (p : Resp) : Quiet (next s x p) := by
  intro hw
  have hctrl : (ctrlNext s (axiOut s p).gnt (axiOut s p).valid).waiting = true := hw
  show (adReqNext s).req = false ∧ (s.adapter.next s.ad p).state = .idle
  unfold ctrlNext at hctrl
  unfold adReqNext
  cases hs : s.ctrl with
  | idle =>
    obtain ⟨hreq, hst⟩ := h (by rw [hs]; rfl)
    exact ⟨hreq, Adapter.next_state_of_not_req hst hreq p⟩
  | done =>
    obtain ⟨hreq, hst⟩ := h (by rw [hs]; rfl)
    exact ⟨hreq, Adapter.next_state_of_not_req hst hreq p⟩
  | store =>
    refine ⟨rfl, Adapter.next_state_of_valid ?_⟩
    by_contra hv
    have hv' : (axiOut s p).valid ≠ true := hv
    simp [hs, hv', Ctrl.waiting] at hctrl
  | startLoad =>
    simp only [hs] at hctrl
    split at hctrl <;> cases hctrl
  | load =>
    simp only [hs] at hctrl
    split at hctrl <;> cases hctrl
  | startStore =>
    simp only [hs] at hctrl
    split at hctrl <;> cases hctrl

theorem quiet_reset : Quiet reset := fun _ => ⟨rfl, rfl⟩

/-- A quiet engine shows no address to the crossbar. -/
theorem axiOut_of_waiting {s : Regs} (h : Quiet s) (hw : s.ctrl.waiting = true) (p : Resp) :
    (axiOut s p).req.awValid = false ∧ (axiOut s p).req.arValid = false := by
  obtain ⟨hreq, hst⟩ := h hw
  simp [axiOut, axiFsm, hst, hreq, adDefaults]

end Dma
end Ariane

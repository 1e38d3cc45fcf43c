/-
# A DMA transfer on the bus

The channels of the engine are logged from the start of a command on: what was asked for, the
words that came back, the words that were sent and the answers to them. However the command
registers are written meanwhile and whatever the timing of the bus, the log of a command grows
to one read burst at its source and one write burst at its destination, with the words of the
read (`transfer_law`), and it is complete when the engine is done.

The length is taken modulo 256 for the burst, but compared with zero as a whole for a single
word. A length that is a multiple of 256 but not zero asks for a burst of one word, which the
write counts down from 255 (`burst_of_256`); the wrapper assumes that the length is at most 255.
-/
import Ariane.Soc.Dma
import Mathlib.Tactic.Common

namespace Ariane
namespace Dma

open Lib

/-! ### The log of a transfer -/

/-- A word on the write channel. -/
structure Beat where
  data : BitVec 64
  strb : BitVec 8
  last : Bool
deriving DecidableEq, Repr

/-- A command and what it has done on the bus. -/
structure Log where
  cmd : Command
  ar : List Ax
  r : List (BitVec 64)
  aw : List Ax
  w : List Beat
  b : ℕ
deriving DecidableEq, Repr

def Log.start (c : Command) : Log := ⟨c, [], [], [], [], 0⟩

/-- The handshakes of a cycle. -/
def Log.next (l : Log) (q : Req) (p : Resp) : Log where
  cmd := l.cmd
  ar := if q.arValid && p.arReady then l.ar ++ [q.ar] else l.ar
  r := if p.rValid && q.rReady then l.r ++ [p.rData] else l.r
  aw := if q.awValid && p.awReady then l.aw ++ [q.aw] else l.aw
  w := if q.wValid && p.wReady then l.w ++ [⟨q.wData, q.wStrb, q.wLast⟩] else l.w
  b := if p.bValid && q.bReady then l.b + 1 else l.b

structure St where
  regs : Regs
  log : Log

/-- A command starts: it is the one in the command registers of this cycle. -/
def starts (s : Regs) : Bool := s.ctrl == .idle && s.cmdD.start

def St.next (s : St) (i : Bus × Resp) : St where
  regs := Dma.next s.regs i.1 i.2
  log := if starts s.regs then .start s.regs.cmd else s.log.next (axiOut s.regs i.2).req i.2

def St.reset : St := ⟨Dma.reset, .start ⟨0, 0, 0, 0⟩⟩

def machine : Machine St (Bus × Resp) where
  init s := s = .reset
  next := St.next

/-! ### The law -/

/-- An address, rounded down to eight bytes. -/
def wordAddr (a : BitVec 32) : BitVec 64 := BitVec.ofNat 64 (a.toNat / 8 * 8)

/-- The length of the bursts, the words but one. -/
def Command.len (c : Command) : BitVec 8 := c.length.extractLsb' 0 8

/-- The burst of a command at an address: eight bytes at a time, as master 2. -/
def Command.burst (c : Command) (a : BitVec 32) : Ax :=
  ⟨wordAddr a, c.len, 3, if c.length = 0 then 0 else 1, 2⟩

/-- The words `r` as a burst on the write channel. -/
def beats (len : BitVec 8) (r : List (BitVec 64)) : List Beat :=
  r.mapIdx fun k d => ⟨d, 0xff, decide (k = len.toNat)⟩

/-- One read, one write with the words of the read, one answer to it. -/
structure Complete (l : Log) : Prop where
  ar : l.ar = [l.cmd.burst l.cmd.sourceAddr]
  words : l.r.length = l.cmd.len.toNat + 1
  aw : l.aw = [l.cmd.burst l.cmd.destAddr]
  w : l.w = beats l.cmd.len l.r
  b : l.b = 1

/-- The bus has seen a part of the transfer, and all of it if the engine is done. -/
structure Law (s : St) : Prop where
  ar : s.log.ar <+: [s.log.cmd.burst s.log.cmd.sourceAddr]
  words : s.log.r.length ≤ s.log.cmd.len.toNat + 1
  aw : s.log.aw <+: [s.log.cmd.burst s.log.cmd.destAddr]
  w : s.log.w <+: beats s.log.cmd.len s.log.r
  b : s.log.b ≤ 1
  done : s.regs.ctrl = .done → Complete s.log

/-- A word comes back for the burst that was asked for, the last one marked. -/
def Legal (s : St) (i : Bus × Resp) : Prop :=
  i.2.rValid = true → ∃ q ∈ s.log.ar, s.log.r.length ≤ q.len.toNat ∧
    i.2.rLast = decide (s.log.r.length = q.len.toNat)

instance (s : St) (i : Bus × Resp) : Decidable (Legal s i) := by
  unfold Legal
  infer_instance

/-- The length is zero, or its lowest byte is not. -/
def Command.Fits (c : Command) : Prop := c.length = 0 ∨ c.len ≠ 0

instance (c : Command) : Decidable c.Fits := inferInstanceAs (Decidable (_ ∨ _))

/-- A command that starts has a length that fits. -/
def StartsFit (s : St) : Prop := starts s.regs = true → s.regs.cmd.Fits

instance (s : St) : Decidable (StartsFit s) := inferInstanceAs (Decidable (_ → _))

/-- The bus gives the engine what it waits for. -/
def served (s : St) (i : Bus × Resp) : Bool :=
  let q := (axiOut s.regs i.2).req
  (!q.arValid || i.2.arReady) && (!q.rReady || i.2.rValid) && (!q.awValid || i.2.awReady) &&
    (!q.wValid || i.2.wReady) && (!q.bReady || i.2.bValid)

/-! ### Words and beats -/

theorem wordAddr_eq (a : BitVec 32) : 0#32 ++ a.extractLsb' 3 29 ++ 0#3 = wordAddr a := by
  apply BitVec.eq_of_toNat_eq
  have ha := a.isLt
  rw [BitVec.toNat_append, BitVec.toNat_append, BitVec.extractLsb'_toNat, wordAddr, BitVec.toNat_ofNat,
    BitVec.toNat_ofNat, BitVec.toNat_ofNat, Nat.shiftRight_eq_div_pow]
  simp only [Nat.shiftLeft_eq, Nat.zero_mod, Nat.zero_mul, Nat.zero_or, Nat.or_zero]
  omega

@[simp] theorem length_beats (len : BitVec 8) (r : List (BitVec 64)) : (beats len r).length = r.length := by
  simp [beats]

theorem beats_take_succ {len : BitVec 8} {r : List (BitVec 64)} {n : ℕ} (h : n < r.length) :
    (beats len r).take (n + 1) = (beats len r).take n ++ [⟨r[n], 0xff, decide (n = len.toNat)⟩] := by
  rw [List.take_succ_eq_append_getElem (by simpa using h)]
  simp [beats]

/-- The buffer holds the words that came back. -/
def Stored (mem : BitVec 8 → BitVec 64) (r : List (BitVec 64)) : Prop :=
  ∀ (k : BitVec 8) (h : k.toNat < r.length), mem k = r[k.toNat]

theorem Stored.push {mem : BitVec 8 → BitVec 64} {r : List (BitVec 64)} (h : Stored mem r) {k : BitVec 8}
    (hk : k.toNat = r.length) (d : BitVec 64) : Stored (Function.update mem k d) (r ++ [d]) := by
  intro j hj
  rw [List.length_append, List.length_singleton] at hj
  by_cases hjk : j = k
  · subst hjk
    simp [hk]
  · have hne : j.toNat ≠ r.length := fun he => hjk (BitVec.eq_of_toNat_eq (he.trans hk.symm))
    have hlt : j.toNat < r.length := by omega
    rw [Function.update_of_ne hjk, List.getElem_append_left hlt]
    exact h j hlt

/-! ### The phases of a transfer -/

/-- The request to the adapter for the read or the write of a command. -/
def Command.request (c : Command) (we : Bool) : AdReq where
  req := true
  we := we
  addr := wordAddr (if we then c.destAddr else c.sourceAddr)
  be := if we then 0xff else 0
  len := c.len
  size := 3
  single := c.length == 0
  id := 2

section Request

variable (c : Command) (we : Bool)

@[simp] theorem request_req : (c.request we).req = true := rfl
@[simp] theorem request_we : (c.request we).we = we := rfl
@[simp] theorem request_len : (c.request we).len = c.len := rfl
@[simp] theorem request_be : (c.request true).be = 0xff := rfl
@[simp] theorem request_addr : (c.request true).addr = wordAddr c.destAddr := rfl
@[simp] theorem request_size : (c.request we).size = 3 := rfl
@[simp] theorem request_id : (c.request we).id = 2 := rfl
@[simp] theorem request_single : (c.request we).single = (c.length == 0) := rfl

end Request

theorem startReq_eq (s : Regs) : startReq s false s.cmdD.sourceAddr 0 = s.cmdD.request false ∧
    startReq s true s.cmdD.destAddr 0xff = s.cmdD.request true := by
  simp [startReq, Command.request, wordAddr_eq, Command.len]

/-- All words have been read, none sent. -/
structure ReadDone (a : Adapter) (l : Log) : Prop where
  ar : l.ar = [l.cmd.burst l.cmd.sourceAddr]
  words : l.r.length = l.cmd.len.toNat + 1
  stored : Stored a.mem l.r
  b : l.b = 0

/-- `cnt` beats are left behind the next one. -/
structure Left (cnt : BitVec 8) (l : Log) : Prop where
  le : cnt.toNat ≤ l.cmd.len.toNat
  w : l.w = (beats l.cmd.len l.r).take (l.cmd.len.toNat - cnt.toNat)

/-- How far the write has come. -/
def Sending (state : AdState) (cnt : BitVec 8) (l : Log) : Prop :=
  match state with
  | .idle => l.aw = [] ∧ l.w = []
  | .waitAwReady => l.cmd.length = 0 ∧ l.aw = [] ∧ l.w = beats l.cmd.len l.r
  | .waitLastWReady => l.aw = [l.cmd.burst l.cmd.destAddr] ∧ Left cnt l
  | .waitLastWReadyAwReady => l.cmd.length ≠ 0 ∧ l.aw = [] ∧ Left cnt l
  | .waitAwReadyBurst => l.cmd.length ≠ 0 ∧ l.aw = [] ∧ l.w = beats l.cmd.len l.r
  | _ => False

/-- The engine reads: a part of the words has come back. -/
structure Reading (a : Adapter) (l : Log) : Prop where
  state : a.state = if l.cmd.length = 0 then .waitRValid else .waitRValidMultiple
  ar : l.ar = [l.cmd.burst l.cmd.sourceAddr]
  words : l.r.length ≤ l.cmd.len.toNat
  cnt : l.cmd.length ≠ 0 → a.cnt.toNat = l.cmd.len.toNat - l.r.length
  stored : Stored a.mem l.r
  aw : l.aw = []
  w : l.w = []
  b : l.b = 0

/-- Where the engine is in its transfer. -/
def Phase (s : Regs) (l : Log) : Prop :=
  match s.ctrl with
  | .idle => s.ad.req = false ∧ s.adapter.state = .idle ∧ (l = .start l.cmd ∨ Complete l)
  | .done => s.ad.req = false ∧ s.adapter.state = .idle ∧ Complete l
  | .startLoad => s.adapter.state = .idle ∧ l = .start l.cmd ∧ (s.ad.req = false ∨ s.ad = l.cmd.request false)
  | .load => s.ad = { l.cmd.request false with req := s.ad.req } ∧ (Reading s.adapter l ∨
      s.ad.req = false ∧ s.adapter.state = .completeRead ∧ ReadDone s.adapter l ∧ l.aw = [] ∧ l.w = [])
  | .startStore => ReadDone s.adapter l ∧ Sending s.adapter.state s.adapter.cnt l ∧
      (s.ad.req = false ∧ s.adapter.state = .idle ∨ s.ad = l.cmd.request true)
  | .store => s.adapter.state = .waitBValid ∧ ReadDone s.adapter l ∧ l.aw = [l.cmd.burst l.cmd.destAddr] ∧
      l.w = beats l.cmd.len l.r

/-- A transfer that runs is the one of the command that was sampled, and its length fits. -/
structure Inv (s : St) : Prop where
  cmd : s.regs.ctrl.waiting = false → s.regs.cmdD = s.log.cmd ∧ s.log.cmd.Fits
  phase : Phase s.regs s.log

theorem Inv.law {s : St} (h : Inv s) : Law s := by
  have hphase := h.phase
  have hcomplete {l : Log} (hc : Complete l) : l.ar <+: [l.cmd.burst l.cmd.sourceAddr] ∧
      l.r.length ≤ l.cmd.len.toNat + 1 ∧ l.aw <+: [l.cmd.burst l.cmd.destAddr] ∧
      l.w <+: beats l.cmd.len l.r ∧ l.b ≤ 1 := by
    rw [hc.ar, hc.aw, hc.w, hc.b, hc.words]
    simp
  have hstart {l : Log} (hl : l = .start l.cmd) : l.ar <+: [l.cmd.burst l.cmd.sourceAddr] ∧
      l.r.length ≤ l.cmd.len.toNat + 1 ∧ l.aw <+: [l.cmd.burst l.cmd.destAddr] ∧
      l.w <+: beats l.cmd.len l.r ∧ l.b ≤ 1 := by
    rw [hl]
    simp [Log.start, beats]
  suffices hsuff : (s.log.ar <+: [s.log.cmd.burst s.log.cmd.sourceAddr] ∧
      s.log.r.length ≤ s.log.cmd.len.toNat + 1 ∧ s.log.aw <+: [s.log.cmd.burst s.log.cmd.destAddr] ∧
      s.log.w <+: beats s.log.cmd.len s.log.r ∧ s.log.b ≤ 1) ∧ (s.regs.ctrl = .done → Complete s.log) by
    obtain ⟨⟨har, hr, haw, hw, hb⟩, hd⟩ := hsuff
    exact ⟨har, hr, haw, hw, hb, hd⟩
  unfold Phase at hphase
  cases hc : s.regs.ctrl with
  | idle =>
    simp only [hc] at hphase
    exact ⟨hphase.2.2.elim hstart hcomplete, nofun⟩
  | done =>
    simp only [hc] at hphase
    exact ⟨hcomplete hphase.2.2, fun _ => hphase.2.2⟩
  | startLoad =>
    simp only [hc] at hphase
    exact ⟨hstart hphase.2.1, nofun⟩
  | load =>
    simp only [hc] at hphase
    refine ⟨?_, nofun⟩
    rcases hphase.2 with hr | ⟨-, -, hr, haw, hw⟩
    · rw [hr.ar, hr.aw, hr.w, hr.b]
      simpa using hr.words.trans (Nat.le_succ _)
    · rw [hr.ar, haw, hw, hr.b, hr.words]
      simp
  | startStore =>
    simp only [hc] at hphase
    obtain ⟨hr, hs, -⟩ := hphase
    refine ⟨?_, nofun⟩
    rw [hr.ar, hr.b, hr.words]
    refine ⟨List.prefix_refl _, le_rfl, ?_, ?_, by decide⟩
    · unfold Sending at hs
      split at hs
      · rw [hs.1]
        exact List.nil_prefix
      · rw [hs.2.1]
        exact List.nil_prefix
      · rw [hs.1]
      · rw [hs.2.1]
        exact List.nil_prefix
      · rw [hs.2.1]
        exact List.nil_prefix
      · exact hs.elim
    · unfold Sending at hs
      split at hs
      · simp [hs.2]
      · simp [hs.2.2]
      · rw [hs.2.w]
        exact List.take_prefix _ _
      · rw [hs.2.2.w]
        exact List.take_prefix _ _
      · simp [hs.2.2]
      · exact hs.elim
  | store =>
    simp only [hc] at hphase
    obtain ⟨-, hr, haw, hw⟩ := hphase
    refine ⟨?_, nofun⟩
    rw [hr.ar, haw, hw, hr.b, hr.words]
    simp

/-! ### Steps -/

section Steps

variable {s : St} {i : Bus × Resp}

theorem next_log (h : starts s.regs = false) :
    (s.next i).log = s.log.next (axiFsm s.regs.adapter s.regs.ad i.2).req i.2 := by
  show (if starts s.regs then _ else _) = _
  rw [h, if_neg Bool.false_ne_true]
  rfl

theorem starts_of_ctrl {r : Regs} (h : r.ctrl ≠ .idle) : starts r = false := by
  simp [starts, h]

/-- An idle adapter without a request does nothing. -/
theorem axiFsm_quiet {a : Adapter} {r : AdReq} (ha : a.state = .idle) (hr : r.req = false) (p : Resp) :
    axiFsm a r p = { adDefaults a r with cnt := 0 } := by
  simp [axiFsm, ha, hr]

theorem Log.next_of_quiet (l : Log) {a : Adapter} {r : AdReq} (ha : a.state = .idle) (hr : r.req = false)
    (p : Resp) : l.next (axiFsm a r p).req p = l := by
  simp [axiFsm_quiet ha hr, Log.next, adDefaults]

theorem phase_waiting (h : Inv s) (hw : s.regs.ctrl.waiting = true) (hf : StartsFit s) : Inv (s.next i) := by
  have hp := h.phase
  have hc : s.regs.ctrl = .idle ∨ s.regs.ctrl = .done := by simpa [Ctrl.waiting] using hw
  have hcmd : (s.next i).regs.cmdD = s.regs.cmd := if_pos hw
  unfold Phase at hp
  rcases hc with hc | hc
  · simp only [hc] at hp
    obtain ⟨hr, ha, hl⟩ := hp
    have hidle : (s.next i).regs.adapter.state = .idle := Adapter.next_state_of_not_req ha hr i.2
    have had : (s.next i).regs.ad = s.regs.ad := by
      show adReqNext s.regs = _
      simp [adReqNext, hc]
    cases hs : s.regs.cmdD.start with
    | true =>
      have hst : starts s.regs = true := by simp [starts, hc, hs]
      have hctrl : (s.next i).regs.ctrl = .startLoad := by
        show ctrlNext s.regs _ _ = _
        simp [ctrlNext, hc, hs]
      have hlog : (s.next i).log = .start s.regs.cmd := if_pos hst
      refine ⟨fun _ => ⟨by rw [hcmd, hlog]; rfl, by rw [hlog]; exact hf hst⟩, ?_⟩
      simp only [Phase, hctrl]
      exact ⟨hidle, by rw [hlog]; rfl, .inl (by rw [had, hr])⟩
    | false =>
      have hst : starts s.regs = false := by simp [starts, hs]
      have hctrl : (s.next i).regs.ctrl = .idle := by
        show ctrlNext s.regs _ _ = _
        simp [ctrlNext, hc, hs]
      refine ⟨fun hn => absurd hn (by rw [hctrl]; decide), ?_⟩
      simp only [Phase, hctrl]
      rw [next_log hst, Log.next_of_quiet _ ha hr]
      exact ⟨by rw [had, hr], hidle, hl⟩
  · simp only [hc] at hp
    obtain ⟨hr, ha, hl⟩ := hp
    have hidle : (s.next i).regs.adapter.state = .idle := Adapter.next_state_of_not_req ha hr i.2
    have had : (s.next i).regs.ad.req = false := by
      show (adReqNext s.regs).req = _
      simp [adReqNext, hc, hr]
    have hlog : (s.next i).log = s.log := by
      rw [next_log (starts_of_ctrl (by rw [hc]; decide)), Log.next_of_quiet _ ha hr]
    have hctrl : (s.next i).regs.ctrl = .idle ∨ (s.next i).regs.ctrl = .done := by
      show ctrlNext s.regs _ _ = _ ∨ ctrlNext s.regs _ _ = _
      cases hd : s.regs.cmdD.clrDone <;> simp [ctrlNext, hc, hd]
    refine ⟨fun hn => absurd hn (by rcases hctrl with h' | h' <;> rw [h'] <;> decide), ?_⟩
    rcases hctrl with h' | h'
    · simp only [Phase, h']
      exact ⟨had, hidle, by rw [hlog]; exact .inr hl⟩
    · simp only [Phase, h']
      exact ⟨had, hidle, by rw [hlog]; exact hl⟩

/-- A command that runs keeps its sampled registers. -/
theorem inv_of_phase (h : Inv s) (hw : s.regs.ctrl.waiting = false)
    (hp : Phase (s.next i).regs (s.next i).log) : Inv (s.next i) := by
  have hi : s.regs.ctrl ≠ .idle := by
    rintro hc
    rw [hc] at hw
    cases hw
  have hcmd : (s.next i).regs.cmdD = s.regs.cmdD := if_neg (by rw [hw]; exact Bool.false_ne_true)
  have hlog : (s.next i).log.cmd = s.log.cmd := by
    rw [next_log (starts_of_ctrl hi)]
    rfl
  refine ⟨fun _ => ?_, hp⟩
  rw [hcmd, hlog]
  exact h.cmd hw

/-- An idle adapter asks for the read of a command. -/
theorem axiFsm_read {a : Adapter} (ha : a.state = .idle) (c : Command) (p : Resp) :
    axiFsm a (c.request false) p =
      { adDefaults a (c.request false) with
        req := { (adDefaults a (c.request false)).req with arValid := true, ar := c.burst c.sourceAddr }
        gnt := p.arReady
        cnt := if c.length = 0 then 0 else c.len
        state := if p.arReady then if c.length = 0 then .waitRValid else .waitRValidMultiple else .idle } := by
  by_cases h0 : c.length = 0
  · have hlen : c.len = 0 := by simp [Command.len, h0]
    simp [axiFsm, ha, Command.request, adIdleRead, adDefaults, Command.burst, h0, hlen]
  · have h0' : ¬c.length = 0#32 := h0
    simp [axiFsm, ha, Command.request, adIdleRead, adDefaults, Command.burst, h0']

theorem phase_startLoad (h : Inv s) (hc : s.regs.ctrl = .startLoad) : Inv (s.next i) := by
  obtain ⟨hcmd, hfit⟩ := h.cmd (by rw [hc]; rfl)
  refine inv_of_phase h (by rw [hc]; rfl) ?_
  have hp := h.phase
  simp only [Phase, hc] at hp
  obtain ⟨ha, hl, had⟩ := hp
  have hadn : (s.next i).regs.ad = s.log.cmd.request false := by
    show adReqNext s.regs = _
    rw [← hcmd, ← (startReq_eq s.regs).1]
    simp only [adReqNext, hc]
  have hctrl : (s.next i).regs.ctrl =
      if (axiFsm s.regs.adapter s.regs.ad i.2).gnt then .load else .startLoad := by
    show ctrlNext s.regs _ _ = _
    simp only [ctrlNext, hc]
    rfl
  have hstate : (s.next i).regs.adapter.state = (axiFsm s.regs.adapter s.regs.ad i.2).state := rfl
  have hcnt : (s.next i).regs.adapter.cnt = (axiFsm s.regs.adapter s.regs.ad i.2).cnt := rfl
  rw [next_log (starts_of_ctrl (by rw [hc]; decide))]
  rcases had with hr | hr
  · rw [axiFsm_quiet ha hr] at hctrl
    rw [Log.next_of_quiet _ ha hr]
    simp only [Phase, hctrl, adDefaults, Bool.false_eq_true, if_false]
    exact ⟨Adapter.next_state_of_not_req ha hr i.2, hl, .inr hadn⟩
  · rw [hr, axiFsm_read ha] at hctrl hstate hcnt
    rw [hr, axiFsm_read ha]
    obtain ⟨har, hr0, haw, hw, hb⟩ : s.log.ar = [] ∧ s.log.r = [] ∧ s.log.aw = [] ∧ s.log.w = [] ∧ s.log.b = 0 := by
      rw [hl]
      exact ⟨rfl, rfl, rfl, rfl, rfl⟩
    cases hready : i.2.arReady with
    | false =>
      simp only [hready, Bool.false_eq_true, if_false] at hctrl hstate
      have hlog : s.log.next { (adDefaults s.regs.adapter (s.log.cmd.request false)).req with
          arValid := true, ar := s.log.cmd.burst s.log.cmd.sourceAddr } i.2 = s.log := by
        simp [adDefaults, Log.next, hready]
      rw [hlog]
      simp only [Phase, hctrl]
      exact ⟨hstate, hl, .inr hadn⟩
    | true =>
      simp only [hready, if_true] at hctrl hstate
      have hlog : s.log.next { (adDefaults s.regs.adapter (s.log.cmd.request false)).req with
          arValid := true, ar := s.log.cmd.burst s.log.cmd.sourceAddr } i.2 =
          { s.log with ar := [s.log.cmd.burst s.log.cmd.sourceAddr] } := by
        simp [adDefaults, Log.next, hready, har]
      rw [hlog]
      simp only [Phase, hctrl]
      refine ⟨by rw [hadn], .inl ⟨hstate, rfl, ?_, fun h0 => ?_, fun k hk => ?_, haw, hw, hb⟩⟩
      · simp [hr0]
      · have h0' : ¬s.log.cmd.length = 0 := h0
        simp only [h0', if_false] at hcnt
        rw [hcnt, hr0]
        rfl
      · simp [hr0] at hk

theorem axiFsm_waitR {a : Adapter} (ha : a.state = .waitRValid ∨ a.state = .waitRValidMultiple) (r : AdReq)
    (p : Resp) : axiFsm a r p = adWaitR a r p (adDefaults a r) := by
  rcases ha with ha | ha <;> simp [axiFsm, ha]

theorem Adapter.next_mem {a : Adapter} {r : AdReq} {p : Resp} : (a.next r p).mem =
    (axiFsm a r p).memWrite.elim a.mem fun kw => Function.update a.mem kw.1 kw.2 := by
  unfold Adapter.next
  dsimp only
  cases (axiFsm a r p).memWrite <;> rfl

theorem phase_load (h : Inv s) (hc : s.regs.ctrl = .load) (hl : Legal s i) : Inv (s.next i) := by
  obtain ⟨hcmd, hfit⟩ := h.cmd (by rw [hc]; rfl)
  refine inv_of_phase h (by rw [hc]; rfl) ?_
  have hp := h.phase
  simp only [Phase, hc] at hp
  obtain ⟨had, hp⟩ := hp
  have hadn : (s.next i).regs.ad = { s.log.cmd.request false with req := false } := by
    show adReqNext s.regs = _
    simp only [adReqNext, hc]
    rw [had]
  have hctrl : (s.next i).regs.ctrl =
      if (axiFsm s.regs.adapter s.regs.ad i.2).valid then .startStore else .load := by
    show ctrlNext s.regs _ _ = _
    simp only [ctrlNext, hc]
    rfl
  have hstate : (s.next i).regs.adapter.state = (axiFsm s.regs.adapter s.regs.ad i.2).state := rfl
  have hcnt : (s.next i).regs.adapter.cnt = (axiFsm s.regs.adapter s.regs.ad i.2).cnt := rfl
  have hmem : (s.next i).regs.adapter.mem = (axiFsm s.regs.adapter s.regs.ad i.2).memWrite.elim
      s.regs.adapter.mem fun kw => Function.update s.regs.adapter.mem kw.1 kw.2 := Adapter.next_mem
  rw [next_log (starts_of_ctrl (by rw [hc]; decide))]
  rcases hp with hr | ⟨hreq, ha, hr, haw, hw⟩
  · have ha : s.regs.adapter.state = .waitRValid ∨ s.regs.adapter.state = .waitRValidMultiple := by
      rw [hr.state]
      split <;> simp
    rw [axiFsm_waitR ha] at hctrl hstate hcnt hmem
    rw [axiFsm_waitR ha]
    cases hv : i.2.rValid with
    | false =>
      simp only [adWaitR, hv, Bool.false_eq_true, if_false] at hctrl hstate hcnt hmem ⊢
      have hlog : s.log.next { (adDefaults s.regs.adapter s.regs.ad).req with rReady := true } i.2 = s.log := by
        simp [Log.next, adDefaults, hv]
      rw [hlog]
      have hctrl' : (s.next i).regs.ctrl = .load := hctrl
      simp only [Phase, hctrl']
      refine ⟨by rw [hadn], .inl ⟨hstate.trans hr.state, hr.ar, hr.words, fun h0 => ?_, ?_, hr.aw, hr.w, hr.b⟩⟩
      · rw [hcnt]
        exact hr.cnt h0
      · rw [hmem]
        exact hr.stored
    | true =>
      obtain ⟨q, hq, hle, hlast⟩ := hl hv
      rw [hr.ar, List.mem_singleton] at hq
      subst hq
      have hle' : s.log.r.length ≤ s.log.cmd.len.toNat := hle
      have hlast' : i.2.rLast = decide (s.log.r.length = s.log.cmd.len.toNat) := hlast
      simp only [adWaitR, hv, if_true] at hctrl hstate hcnt hmem ⊢
      have hctrl' : (s.next i).regs.ctrl = .load := hctrl
      have hlog : s.log.next { (adDefaults s.regs.adapter s.regs.ad).req with rReady := true } i.2 =
          { s.log with r := s.log.r ++ [i.2.rData] } := by
        simp [Log.next, adDefaults, hv]
      rw [hlog]
      -- the place in the buffer is the number of the word
      have hidx : (if s.regs.adapter.state = .waitRValidMultiple then s.regs.ad.len - s.regs.adapter.cnt else 0).toNat =
          s.log.r.length := by
        have hlen : s.regs.ad.len = s.log.cmd.len := by rw [had]; rfl
        by_cases h0 : s.log.cmd.length = 0
        · have hlen0 : s.log.cmd.len = 0 := by simp [Command.len, h0]
          rw [hr.state, if_pos h0, if_neg (by decide)]
          rw [hlen0] at hle'
          exact (Nat.le_zero.1 hle').symm
        · rw [hr.state, if_neg h0, if_pos rfl, hlen]
          have := hr.cnt h0
          rw [BitVec.toNat_sub_of_le (by rw [BitVec.le_def]; omega)]
          omega
      have hstored : Stored (s.next i).regs.adapter.mem (s.log.r ++ [i.2.rData]) := by
        rw [hmem]
        exact hr.stored.push hidx _
      simp only [Phase, hctrl']
      refine ⟨by rw [hadn], ?_⟩
      by_cases he : s.log.r.length = s.log.cmd.len.toNat
      · refine .inr ⟨by rw [hadn], ?_, ⟨hr.ar, ?_, hstored, hr.b⟩, hr.aw, hr.w⟩
        · rw [hstate, hlast', decide_eq_true he]
          rfl
        · simp [he]
      · refine .inl ⟨?_, hr.ar, ?_, fun h0 => ?_, hstored, hr.aw, hr.w, hr.b⟩
        · rw [hstate, hlast', decide_eq_false he]
          exact hr.state
        · simp only [List.length_append, List.length_singleton]
          omega
        · have := hr.cnt h0
          rw [hcnt]
          simp only [List.length_append, List.length_singleton]
          have h1 : (1 : BitVec 8) ≤ s.regs.adapter.cnt := by
            rw [BitVec.le_def]
            show 1 ≤ _
            omega
          rw [BitVec.toNat_sub_of_le h1]
          show _ - 1 = _
          omega
  · have hfsm : axiFsm s.regs.adapter s.regs.ad i.2 =
        { adDefaults s.regs.adapter s.regs.ad with valid := true, state := .idle } := by
      simp [axiFsm, ha]
    rw [hfsm] at hctrl hstate hcnt hmem
    rw [hfsm]
    have hlog : s.log.next (adDefaults s.regs.adapter s.regs.ad).req i.2 = s.log := by
      simp [Log.next, adDefaults]
    have hctrl' : (s.next i).regs.ctrl = .startStore := hctrl
    have hstored : Stored (s.next i).regs.adapter.mem s.log.r := by
      rw [hmem]
      exact hr.stored
    have hstate' : (s.next i).regs.adapter.state = .idle := hstate
    show Phase (s.next i).regs (s.log.next (adDefaults s.regs.adapter s.regs.ad).req i.2)
    rw [hlog]
    simp only [Phase, hctrl']
    refine ⟨⟨hr.ar, hr.words, hstored, hr.b⟩, ?_, .inl ⟨by rw [hadn], hstate'⟩⟩
    rw [hstate']
    exact ⟨haw, hw⟩

/-- The beat on the channel while `cnt` beats are left behind it. -/
def beat (mem : BitVec 8 → BitVec 64) (c : Command) (cnt : BitVec 8) : Beat := ⟨mem (c.len - cnt), 0xff, cnt == 0⟩

theorem adBeat_eq {a : Adapter} {c : Command} (h : c.length = 0 → a.cnt = 0) :
    adBeat a (c.request true) = (beat a.mem c a.cnt).data := by
  unfold adBeat
  by_cases h0 : c.length = 0
  · have hlen : c.len = 0 := by simp [Command.len, h0]
    simp [beat, h0, h h0, hlen]
  · have h0' : ¬c.length = 0#32 := h0
    simp [beat, h0']

theorem Left.append {cnt : BitVec 8} {a : Adapter} {l : Log} (h : Left cnt l) (hr : ReadDone a l) :
    l.w ++ [beat a.mem l.cmd cnt] = (beats l.cmd.len l.r).take (l.cmd.len.toNat - cnt.toNat + 1) := by
  have hle := h.le
  have hsub : (l.cmd.len - cnt).toNat = l.cmd.len.toNat - cnt.toNat :=
    BitVec.toNat_sub_of_le (by rwa [BitVec.le_def])
  have hlt : l.cmd.len.toNat - cnt.toNat < l.r.length := by
    rw [hr.words]
    omega
  have hdata : a.mem (l.cmd.len - cnt) = l.r[l.cmd.len.toNat - cnt.toNat] := by
    rw [hr.stored _ (by rw [hsub]; exact hlt)]
    simp only [hsub]
  have hlast : (cnt == 0) = decide (l.cmd.len.toNat - cnt.toNat = l.cmd.len.toNat) := by
    rw [Bool.eq_iff_iff, beq_iff_eq, decide_eq_true_iff, ← BitVec.toNat_inj]
    show cnt.toNat = 0 ↔ _
    omega
  rw [beats_take_succ hlt, ← h.w, beat, hdata, hlast]

/-- The last beat is taken. -/
theorem Left.last {cnt : BitVec 8} {a : Adapter} {l : Log} (h : Left cnt l) (hr : ReadDone a l) (hc : cnt = 0) :
    l.w ++ [beat a.mem l.cmd cnt] = beats l.cmd.len l.r := by
  rw [h.append hr]
  apply List.take_of_length_le
  rw [length_beats, hr.words, hc]
  exact le_rfl

/-- A beat is taken and more are left. -/
theorem Left.pred {cnt : BitVec 8} {a : Adapter} {l l' : Log} (h : Left cnt l) (hr : ReadDone a l)
    (hc : cnt ≠ 0) (hcmd : l'.cmd = l.cmd) (hrw : l'.r = l.r) (hw : l'.w = l.w ++ [beat a.mem l.cmd cnt]) :
    Left (cnt - 1) l' := by
  have hle := h.le
  have hne : cnt.toNat ≠ 0 := fun he => hc (BitVec.eq_of_toNat_eq he)
  have h1 : (cnt - 1).toNat = cnt.toNat - 1 :=
    BitVec.toNat_sub_of_le (by rw [BitVec.le_def]; show 1 ≤ _; omega)
  refine ⟨by rw [h1, hcmd]; omega, ?_⟩
  rw [hw, h.append hr, hcmd, hrw, h1]
  congr 1
  omega

/-- Nothing has been sent yet. -/
theorem Left.begin {l : Log} (hw : l.w = []) : Left l.cmd.len l :=
  ⟨le_rfl, by rw [hw, Nat.sub_self, List.take_zero]⟩

/-- The log after a cycle of a write: the address or a beat may have been taken. -/
def Log.sent (l : Log) (aw : Bool) (w : Option Beat) : Log :=
  { l with
    aw := if aw then l.aw ++ [l.cmd.burst l.cmd.destAddr] else l.aw
    w := l.w ++ w.toList }

/-- The write goes on, or its address and the last of its words have been taken. -/
def SendStep (l' : Log) (o : AdOut) : Prop :=
  o.gnt = false ∧ Sending o.state o.cnt l' ∨
    o.gnt = true ∧ o.state = .waitBValid ∧ l'.aw = [l'.cmd.burst l'.cmd.destAddr] ∧ l'.w = beats l'.cmd.len l'.r

section Send

variable {a : Adapter} {l : Log} {p : Resp}

theorem Left.cnt_eq_zero {cnt : BitVec 8} (h : Left cnt l) (h0 : l.cmd.length = 0) : cnt = 0 := by
  have hlen : l.cmd.len.toNat = 0 := by simp [Command.len, h0]
  have hle := h.le
  rw [hlen] at hle
  exact BitVec.eq_of_toNat_eq (Nat.le_zero.1 hle)

/-- No beat is taken. -/
theorem Left.of_none {cnt : BitVec 8} (h : Left cnt l) (aw : Bool) : Left cnt (l.sent aw none) := by
  refine ⟨h.le, ?_⟩
  show l.w ++ [] = _
  rw [List.append_nil]
  exact h.w

theorem send_idle (hfit : l.cmd.Fits) (hr : ReadDone a l) (ha : a.state = .idle) (haw : l.aw = [])
    (hw : l.w = []) : SendStep (l.next (axiFsm a (l.cmd.request true) p).req p) (axiFsm a (l.cmd.request true) p) := by
  have hleft := Left.begin hw
  have hfsm : axiFsm a (l.cmd.request true) p =
      adIdleWrite (l.cmd.request true) p { adDefaults a (l.cmd.request true) with cnt := 0 } := by
    simp [axiFsm, ha]
  by_cases h0 : l.cmd.length = 0
  · have hlen := hleft.cnt_eq_zero h0
    have hfirst : [⟨a.mem 0#8, 255#8, true⟩] = beats 0#8 l.r := by
      have := hleft.last hr hlen
      rwa [hw, List.nil_append, beat, hlen] at this
    have hlog : l.next (axiFsm a (l.cmd.request true) p).req p =
        l.sent p.awReady (if p.wReady then some ⟨a.mem 0, 0xff, true⟩ else none) := by
      rw [hfsm]
      cases haR : p.awReady <;> cases hwR : p.wReady <;>
        simp [adIdleWrite, h0, Log.next, Log.sent, adDefaults, Command.burst, hlen, haR, hwR]
    rw [hlog, hfsm]
    cases haR : p.awReady <;> cases hwR : p.wReady
    · left
      simp [adIdleWrite, h0, haR, hwR, Sending, Log.sent, haw, hw]
    · left
      simpa [adIdleWrite, h0, haR, hwR, Sending, Log.sent, haw, hw, hlen] using hfirst
    · left
      refine ⟨by simp [adIdleWrite, h0, haR, hwR], ?_⟩
      simp only [adIdleWrite, request_single, h0, beq_self_eq_true, if_true, haR, hwR, Sending, Log.sent, haw]
      exact ⟨rfl, ⟨Nat.zero_le _, by simp [hw, hlen]⟩⟩
    · right
      simpa [adIdleWrite, h0, haR, hwR, Log.sent, haw, hw, hlen] using hfirst
  · have hlen : l.cmd.len ≠ 0 := hfit.resolve_left h0
    have h0' : ¬l.cmd.length = 0#32 := h0
    have hfirst : (⟨a.mem 0, 0xff, false⟩ : Beat) = beat a.mem l.cmd l.cmd.len := by
      rw [beat, BitVec.sub_self, beq_eq_false_iff_ne.2 hlen]
      rfl
    have hlog : l.next (axiFsm a (l.cmd.request true) p).req p =
        l.sent p.awReady (if p.wReady then some (beat a.mem l.cmd l.cmd.len) else none) := by
      rw [← hfirst, hfsm]
      cases haR : p.awReady <;> cases hwR : p.wReady <;>
        simp [adIdleWrite, h0', Log.next, Log.sent, adDefaults, Command.burst, haR, hwR]
    rw [hlog, hfsm]
    left
    cases haR : p.awReady <;> cases hwR : p.wReady
    · simp [adIdleWrite, h0', haR, hwR, Sending, Log.sent, haw, hw, adDefaults, ha]
    · have hl : Left (l.cmd.len - 1) (l.sent false (some (beat a.mem l.cmd l.cmd.len))) :=
        hleft.pred hr hlen rfl rfl rfl
      simpa [adIdleWrite, h0', haR, hwR, Sending, Log.sent, haw, adDefaults] using hl
    · have hl : Left l.cmd.len (l.sent true none) := hleft.of_none _
      simpa [adIdleWrite, h0', haR, hwR, Sending, Log.sent, haw, adDefaults] using hl
    · have hl : Left (l.cmd.len - 1) (l.sent true (some (beat a.mem l.cmd l.cmd.len))) :=
        hleft.pred hr hlen rfl rfl rfl
      simpa [adIdleWrite, h0', haR, hwR, Sending, Log.sent, haw, adDefaults] using hl

/-- Only the address is left. -/
theorem send_aw (ha : a.state = .waitAwReady ∧ l.cmd.length = 0 ∨ a.state = .waitAwReadyBurst ∧ l.cmd.length ≠ 0)
    (haw : l.aw = []) (hw : l.w = beats l.cmd.len l.r) :
    SendStep (l.next (axiFsm a (l.cmd.request true) p).req p) (axiFsm a (l.cmd.request true) p) := by
  have hlog : l.next (axiFsm a (l.cmd.request true) p).req p = l.sent p.awReady none := by
    rcases ha with ⟨ha, h0⟩ | ⟨ha, h0⟩
    · have hlen : l.cmd.len = 0 := by simp [Command.len, h0]
      cases haR : p.awReady <;> simp [axiFsm, ha, adDefaults, Log.next, Log.sent, haR, Command.burst, h0, hlen]
    · have h0' : ¬l.cmd.length = 0#32 := h0
      cases haR : p.awReady <;> simp [axiFsm, ha, adDefaults, Log.next, Log.sent, haR, Command.burst, h0']
  rw [hlog]
  cases haR : p.awReady with
  | false =>
    left
    rcases ha with ⟨ha, h0⟩ | ⟨ha, h0⟩
    · simpa [axiFsm, ha, haR, adDefaults, Sending, Log.sent, haw, h0] using hw
    · have h0' : ¬l.cmd.length = 0#32 := h0
      simpa [axiFsm, ha, haR, adDefaults, Sending, Log.sent, haw, h0'] using hw
  | true =>
    right
    rcases ha with ⟨ha, -⟩ | ⟨ha, -⟩ <;> simpa [axiFsm, ha, haR, Log.sent, haw] using hw

/-- Only words are left. -/
theorem send_last (hr : ReadDone a l) (ha : a.state = .waitLastWReady)
    (haw : l.aw = [l.cmd.burst l.cmd.destAddr]) (hl : Left a.cnt l) :
    SendStep (l.next (axiFsm a (l.cmd.request true) p).req p) (axiFsm a (l.cmd.request true) p) := by
  have hbeat := adBeat_eq (a := a) (hl.cnt_eq_zero (l := l))
  have hfsm : axiFsm a (l.cmd.request true) p = adWaitLast a (l.cmd.request true) p (adDefaults a (l.cmd.request true)) := by
    simp [axiFsm, ha]
  have hlog : l.next (axiFsm a (l.cmd.request true) p).req p =
      l.sent false (if p.wReady then some (beat a.mem l.cmd a.cnt) else none) := by
    rw [hfsm]
    by_cases hc : a.cnt = 0
    · cases hwR : p.wReady <;> simp [adWaitLast, hc, hwR, adDefaults, Log.next, Log.sent, hbeat, beat]
    · have hc' : ¬a.cnt = 0#8 := hc
      cases hwR : p.wReady <;> simp [adWaitLast, hc', hwR, adDefaults, Log.next, Log.sent, hbeat, beat]
  rw [hlog, hfsm]
  cases hwR : p.wReady with
  | false =>
    left
    have hl' : Left a.cnt (l.sent false none) := hl.of_none _
    by_cases hc : a.cnt = 0
    · rw [hc] at hl'
      simpa [adWaitLast, hc, hwR, adDefaults, ha, Sending, Log.sent, haw] using hl'
    · have hc' : ¬a.cnt = 0#8 := hc
      simpa [adWaitLast, hc', hwR, adDefaults, ha, Sending, Log.sent, haw] using hl'
  | true =>
    by_cases hc : a.cnt = 0
    · right
      have hw := hl.last hr hc
      rw [hc] at hw
      simpa [adWaitLast, hc, hwR, Log.sent, haw] using hw
    · left
      have hc' : ¬a.cnt = 0#8 := hc
      have hl' : Left (a.cnt - 1) (l.sent false (some (beat a.mem l.cmd a.cnt))) := hl.pred hr hc rfl rfl rfl
      simpa [adWaitLast, hc', hwR, adDefaults, ha, Sending, Log.sent, haw] using hl'

/-- The address and words are left. -/
theorem send_both (hr : ReadDone a l) (ha : a.state = .waitLastWReadyAwReady) (h0 : l.cmd.length ≠ 0)
    (haw : l.aw = []) (hl : Left a.cnt l) :
    SendStep (l.next (axiFsm a (l.cmd.request true) p).req p) (axiFsm a (l.cmd.request true) p) := by
  have h0' : ¬l.cmd.length = 0#32 := h0
  have hbeat := adBeat_eq (a := a) (hl.cnt_eq_zero (l := l))
  have hfsm : axiFsm a (l.cmd.request true) p = adWaitBoth a (l.cmd.request true) p (adDefaults a (l.cmd.request true)) := by
    simp [axiFsm, ha]
  have hlog : l.next (axiFsm a (l.cmd.request true) p).req p =
      l.sent p.awReady (if p.wReady then some (beat a.mem l.cmd a.cnt) else none) := by
    rw [hfsm]
    by_cases hc : a.cnt = 0
    · cases haR : p.awReady <;> cases hwR : p.wReady <;>
        simp [adWaitBoth, hc, haR, hwR, adDefaults, Log.next, Log.sent, hbeat, beat, Command.burst, h0']
    · have hc' : ¬a.cnt = 0#8 := hc
      cases haR : p.awReady <;> cases hwR : p.wReady <;>
        simp [adWaitBoth, hc', haR, hwR, adDefaults, Log.next, Log.sent, hbeat, beat, Command.burst, h0']
  rw [hlog, hfsm]
  cases hwR : p.wReady with
  | false =>
    left
    cases haR : p.awReady with
    | false =>
      have hl' : Left a.cnt (l.sent false none) := hl.of_none _
      simpa [adWaitBoth, haR, hwR, adDefaults, ha, Sending, Log.sent, haw, h0'] using hl'
    | true =>
      have hl' : Left a.cnt (l.sent true none) := hl.of_none _
      simpa [adWaitBoth, haR, hwR, adDefaults, Sending, Log.sent, haw] using hl'
  | true =>
    by_cases hc : a.cnt = 0
    · have hw := hl.last hr hc
      rw [hc] at hw
      cases haR : p.awReady with
      | false =>
        left
        simpa [adWaitBoth, hc, haR, hwR, adDefaults, Sending, Log.sent, haw, h0'] using hw
      | true =>
        right
        simpa [adWaitBoth, hc, haR, hwR, Log.sent, haw] using hw
    · left
      have hc' : ¬a.cnt = 0#8 := hc
      cases haR : p.awReady with
      | false =>
        have hl' : Left (a.cnt - 1) (l.sent false (some (beat a.mem l.cmd a.cnt))) := hl.pred hr hc rfl rfl rfl
        simpa [adWaitBoth, hc', haR, hwR, adDefaults, ha, Sending, Log.sent, haw, h0'] using hl'
      | true =>
        have hl' : Left (a.cnt - 1) (l.sent true (some (beat a.mem l.cmd a.cnt))) := hl.pred hr hc rfl rfl rfl
        simpa [adWaitBoth, hc', haR, hwR, adDefaults, Sending, Log.sent, haw] using hl'

theorem send_step (hfit : l.cmd.Fits) (hr : ReadDone a l) (hs : Sending a.state a.cnt l) :
    SendStep (l.next (axiFsm a (l.cmd.request true) p).req p) (axiFsm a (l.cmd.request true) p) := by
  unfold Sending at hs
  split at hs
  · exact send_idle hfit hr ‹_› hs.1 hs.2
  · exact send_aw (.inl ⟨‹_›, hs.1⟩) hs.2.1 hs.2.2
  · exact send_last hr ‹_› hs.1 hs.2
  · exact send_both hr ‹_› hs.1 hs.2.1 hs.2.2
  · exact send_aw (.inr ⟨‹_›, hs.1⟩) hs.2.1 hs.2.2
  · exact hs.elim

end Send

theorem Adapter.next_mem_of_none {a : Adapter} {r : AdReq} {p : Resp} (h : (axiFsm a r p).memWrite = none) :
    (a.next r p).mem = a.mem := by
  simp only [Adapter.next, h]

/-- A write asks for no word and takes none; it shows its address until that is taken, and the
next beat until all of them are. -/
theorem sending_only {a : Adapter} {c : Command} {l : Log} (hs : Sending a.state a.cnt l) (p : Resp) :
    (axiFsm a (c.request true) p).memWrite = none ∧ (axiFsm a (c.request true) p).req.arValid = false ∧
      (axiFsm a (c.request true) p).req.rReady = false ∧ (axiFsm a (c.request true) p).req.bReady = false ∧
      ((axiFsm a (c.request true) p).req.awValid = true ∨ l.aw ≠ []) ∧
      ((axiFsm a (c.request true) p).req.wValid = true ∨ l.w = beats l.cmd.len l.r) := by
  unfold Sending at hs
  unfold axiFsm
  split at hs <;> rename_i ha <;> simp only [ha]
  · simp only [request_req, request_we, if_true]
    unfold adIdleWrite
    split <;> exact ⟨rfl, rfl, rfl, rfl, .inl rfl, .inl rfl⟩
  · split <;> exact ⟨rfl, rfl, rfl, rfl, .inl rfl, .inr hs.2.2⟩
  · have haw : l.aw ≠ [] := by simp [hs.1]
    unfold adWaitLast
    dsimp only
    split
    · split <;> exact ⟨rfl, rfl, rfl, rfl, .inr haw, .inl rfl⟩
    · split <;> exact ⟨rfl, rfl, rfl, rfl, .inr haw, .inl rfl⟩
  · unfold adWaitBoth
    dsimp only
    split
    · split <;> exact ⟨rfl, rfl, rfl, rfl, .inl rfl, .inl rfl⟩
    · exact ⟨rfl, rfl, rfl, rfl, .inl rfl, .inl rfl⟩
    · split <;> exact ⟨rfl, rfl, rfl, rfl, .inl rfl, .inl rfl⟩
    · exact ⟨rfl, rfl, rfl, rfl, .inl rfl, .inl rfl⟩
  · split <;> exact ⟨rfl, rfl, rfl, rfl, .inl rfl, .inr hs.2.2⟩
  · exact hs.elim

theorem phase_startStore (h : Inv s) (hc : s.regs.ctrl = .startStore) : Inv (s.next i) := by
  obtain ⟨hcmd, hfit⟩ := h.cmd (by rw [hc]; rfl)
  refine inv_of_phase h (by rw [hc]; rfl) ?_
  have hp := h.phase
  simp only [Phase, hc] at hp
  obtain ⟨hr, hs, had⟩ := hp
  have hadn : (s.next i).regs.ad = s.log.cmd.request true := by
    show adReqNext s.regs = _
    rw [← hcmd, ← (startReq_eq s.regs).2]
    simp only [adReqNext, hc]
  have hctrl : (s.next i).regs.ctrl =
      if (axiFsm s.regs.adapter s.regs.ad i.2).gnt then .store else .startStore := by
    show ctrlNext s.regs _ _ = _
    simp only [ctrlNext, hc]
    rfl
  rw [next_log (starts_of_ctrl (by rw [hc]; decide))]
  rcases had with ⟨hreq, ha⟩ | had
  · have hmem : (s.next i).regs.adapter.mem = s.regs.adapter.mem :=
      Adapter.next_mem_of_none (by rw [axiFsm_quiet ha hreq]; rfl)
    rw [axiFsm_quiet ha hreq] at hctrl
    have hctrl' : (s.next i).regs.ctrl = .startStore := hctrl
    have hidle : (s.next i).regs.adapter.state = .idle := Adapter.next_state_of_not_req ha hreq i.2
    rw [Log.next_of_quiet _ ha hreq]
    simp only [Phase, hctrl']
    refine ⟨⟨hr.ar, hr.words, by rw [hmem]; exact hr.stored, hr.b⟩, ?_, .inr hadn⟩
    rw [ha] at hs
    rw [hidle]
    exact hs
  · obtain ⟨hnone, harv, hrr, hbr, -, -⟩ := sending_only (c := s.log.cmd) hs i.2
    have hmem : (s.next i).regs.adapter.mem = s.regs.adapter.mem :=
      Adapter.next_mem_of_none (by rw [had]; exact hnone)
    have hstep := send_step (p := i.2) hfit hr hs
    have hstate : (s.next i).regs.adapter.state = (axiFsm s.regs.adapter s.regs.ad i.2).state := rfl
    have hcnt : (s.next i).regs.adapter.cnt = (axiFsm s.regs.adapter s.regs.ad i.2).cnt := rfl
    rw [had] at hctrl hstate hcnt ⊢
    have hread : ReadDone (s.next i).regs.adapter
        (s.log.next (axiFsm s.regs.adapter (s.log.cmd.request true) i.2).req i.2) := by
      refine ⟨?_, ?_, ?_, ?_⟩
      · simpa [Log.next, harv] using hr.ar
      · simpa [Log.next, hrr] using hr.words
      · rw [hmem]
        simpa [Log.next, hrr] using hr.stored
      · simpa [Log.next, hbr] using hr.b
    rcases hstep with ⟨hg, hs'⟩ | ⟨hg, hst, haw, hw⟩
    · rw [hg, if_neg Bool.false_ne_true] at hctrl
      simp only [Phase, hctrl]
      exact ⟨hread, by rw [hstate, hcnt]; exact hs', .inr hadn⟩
    · rw [hg, if_pos rfl] at hctrl
      simp only [Phase, hctrl]
      exact ⟨hstate.trans hst, hread, haw, hw⟩

theorem phase_store (h : Inv s) (hc : s.regs.ctrl = .store) : Inv (s.next i) := by
  refine inv_of_phase h (by rw [hc]; rfl) ?_
  have hp := h.phase
  simp only [Phase, hc] at hp
  obtain ⟨ha, hr, haw, hw⟩ := hp
  have hctrl : (s.next i).regs.ctrl =
      if (axiFsm s.regs.adapter s.regs.ad i.2).valid then .done else .store := by
    show ctrlNext s.regs _ _ = _
    simp only [ctrlNext, hc]
    rfl
  have hreq : (s.next i).regs.ad.req = false := by
    show (adReqNext s.regs).req = _
    simp only [adReqNext, hc]
  have hstate : (s.next i).regs.adapter.state = (axiFsm s.regs.adapter s.regs.ad i.2).state := rfl
  have hmem : (s.next i).regs.adapter.mem = s.regs.adapter.mem := by
    refine Adapter.next_mem_of_none ?_
    cases hb : i.2.bValid <;> simp [axiFsm, ha, hb, adDefaults]
  have hlog : s.log.next (axiFsm s.regs.adapter s.regs.ad i.2).req i.2 =
      { s.log with b := if i.2.bValid then 1 else 0 } := by
    cases hb : i.2.bValid <;> simp [axiFsm, ha, hb, adDefaults, Log.next, hr.b]
  rw [next_log (starts_of_ctrl (by rw [hc]; decide)), hlog]
  cases hb : i.2.bValid with
  | false =>
    simp only [axiFsm, ha, hb, adDefaults, Bool.false_eq_true, if_false] at hctrl hstate
    simp only [Phase, hctrl]
    exact ⟨hstate, ⟨hr.ar, hr.words, by rw [hmem]; exact hr.stored, rfl⟩, haw, hw⟩
  | true =>
    simp only [axiFsm, ha, hb, if_true] at hctrl hstate
    simp only [Phase, hctrl]
    exact ⟨hreq, hstate, ⟨hr.ar, hr.words, haw, hw, rfl⟩⟩

theorem Inv.next (h : Inv s) (hl : Legal s i) (hf : StartsFit s) : Inv (s.next i) := by
  cases hc : s.regs.ctrl with
  | idle => exact phase_waiting h (by rw [hc]; rfl) hf
  | done => exact phase_waiting h (by rw [hc]; rfl) hf
  | startLoad => exact phase_startLoad h hc
  | load => exact phase_load h hc hl
  | startStore => exact phase_startStore h hc
  | store => exact phase_store h hc

theorem inv_reset : Inv .reset := ⟨nofun, rfl, rfl, .inl rfl⟩

/-! ### Progress -/

/-- How many cycles that serve the engine are left until it is done. -/
def left (s : St) : ℕ :=
  let len := s.log.cmd.len.toNat
  match s.regs.ctrl with
  | .idle => 0
  | .done => 0
  | .startLoad => (if s.regs.ad.req then 0 else 1) + (2 * len + 6)
  | .load => len + 4 + (len + 1 - s.log.r.length)
  | .startStore => (if s.regs.ad.req then 0 else 1) + (1 + max 1 (len + 1 - s.log.w.length))
  | .store => 1

theorem next_cmd (hw : s.regs.ctrl.waiting = false) : (s.next i).log.cmd = s.log.cmd := by
  have hi : s.regs.ctrl ≠ .idle := by
    rintro hc
    rw [hc] at hw
    cases hw
  rw [next_log (starts_of_ctrl hi)]
  rfl

theorem left_startLoad (h : Inv s) (hc : s.regs.ctrl = .startLoad) :
    left (s.next i) ≤ left s ∧ (served s i = true → left (s.next i) < left s) := by
  have hp := h.phase
  simp only [Phase, hc] at hp
  obtain ⟨ha, hl, had⟩ := hp
  have hreq : (s.next i).regs.ad.req = true := by
    show (adReqNext s.regs).req = _
    simp only [adReqNext, hc]
    rfl
  have hcmd := next_cmd (i := i) (s := s) (by rw [hc]; rfl)
  have hctrl : (s.next i).regs.ctrl =
      if (axiFsm s.regs.adapter s.regs.ad i.2).gnt then .load else .startLoad := by
    show ctrlNext s.regs _ _ = _
    simp only [ctrlNext, hc]
    rfl
  rcases had with hr | hr
  · rw [axiFsm_quiet ha hr] at hctrl
    have hctrl' : (s.next i).regs.ctrl = .startLoad := hctrl
    simp only [left, hctrl', hc, hreq, hr, hcmd, if_true, Bool.false_eq_true, if_false]
    omega
  · have hreq' : s.regs.ad.req = true := by rw [hr]; rfl
    cases hready : i.2.arReady with
    | true =>
      rw [hr, axiFsm_read ha] at hctrl
      simp only [hready, if_true] at hctrl
      simp only [left, hctrl, hc, hreq', hcmd, if_true]
      omega
    | false =>
      have hs : served s i = false := by
        simp [served, axiOut, hr, axiFsm_read ha, hready]
      rw [hr, axiFsm_read ha] at hctrl
      simp only [hready, Bool.false_eq_true, if_false] at hctrl
      rw [hs]
      simp only [left, hctrl, hc, hreq, hreq', hcmd, if_true]
      exact ⟨le_rfl, fun hf => absurd hf Bool.false_ne_true⟩

theorem left_load (h : Inv s) (hc : s.regs.ctrl = .load) :
    left (s.next i) ≤ left s ∧ (served s i = true → left (s.next i) < left s) := by
  have hp := h.phase
  simp only [Phase, hc] at hp
  have hcmd := next_cmd (i := i) (s := s) (by rw [hc]; rfl)
  have hlog := next_log (i := i) (starts_of_ctrl (r := s.regs) (by rw [hc]; decide))
  have hctrl : (s.next i).regs.ctrl =
      if (axiFsm s.regs.adapter s.regs.ad i.2).valid then .startStore else .load := by
    show ctrlNext s.regs _ _ = _
    simp only [ctrlNext, hc]
    rfl
  rcases hp.2 with hr | ⟨-, ha, hr, -, -⟩
  · have ha : s.regs.adapter.state = .waitRValid ∨ s.regs.adapter.state = .waitRValidMultiple := by
      rw [hr.state]
      split <;> simp
    rw [axiFsm_waitR ha] at hctrl hlog
    have hvalid : (adWaitR s.regs.adapter s.regs.ad i.2 (adDefaults s.regs.adapter s.regs.ad)).valid = false :=
      adWaitR_valid ..
    have hready : (adWaitR s.regs.adapter s.regs.ad i.2 (adDefaults s.regs.adapter s.regs.ad)).req.rReady = true := by
      unfold adWaitR
      dsimp only
      split <;> rfl
    rw [hvalid, if_neg Bool.false_ne_true] at hctrl
    have hwords : (s.next i).log.r.length = s.log.r.length + i.2.rValid.toNat := by
      rw [hlog]
      cases hv : i.2.rValid <;> simp [Log.next, hready, hv]
    have hle := hr.words
    simp only [left, hctrl, hc, hcmd, hwords]
    refine ⟨by omega, fun hs => ?_⟩
    have hv : i.2.rValid = true := by
      simp only [served, axiOut, axiFsm_waitR ha, hready, Bool.and_eq_true, Bool.not_true, Bool.false_or] at hs
      exact hs.1.1.1.2
    rw [hv, Bool.toNat_true]
    omega
  · have hctrl' : (s.next i).regs.ctrl = .startStore := by
      rw [hctrl]
      simp [axiFsm, ha]
    have hwords := hr.words
    simp only [left, hctrl', hc, hcmd]
    have : (if (s.next i).regs.ad.req = true then 0 else 1) ≤ 1 := by split <;> omega
    omega

theorem left_startStore (h : Inv s) (hc : s.regs.ctrl = .startStore) :
    left (s.next i) ≤ left s ∧ (served s i = true → left (s.next i) < left s) := by
  obtain ⟨-, hfit⟩ := h.cmd (by rw [hc]; rfl)
  have hp := h.phase
  simp only [Phase, hc] at hp
  obtain ⟨hr, hs, had⟩ := hp
  have hreq : (s.next i).regs.ad.req = true := by
    show (adReqNext s.regs).req = _
    simp only [adReqNext, hc]
    rfl
  have hcmd := next_cmd (i := i) (s := s) (by rw [hc]; rfl)
  have hlog := next_log (i := i) (starts_of_ctrl (r := s.regs) (by rw [hc]; decide))
  have hctrl : (s.next i).regs.ctrl =
      if (axiFsm s.regs.adapter s.regs.ad i.2).gnt then .store else .startStore := by
    show ctrlNext s.regs _ _ = _
    simp only [ctrlNext, hc]
    rfl
  rcases had with ⟨hreq', ha⟩ | had
  · rw [axiFsm_quiet ha hreq'] at hctrl
    have hctrl' : (s.next i).regs.ctrl = .startStore := hctrl
    have hlog' : (s.next i).log = s.log := by rw [hlog, Log.next_of_quiet _ ha hreq']
    simp only [left, hctrl', hc, hreq, hreq', hlog', if_true, Bool.false_eq_true, if_false]
    omega
  · have hreq' : s.regs.ad.req = true := by rw [had]; rfl
    obtain ⟨-, -, -, -, haw, hw⟩ := sending_only (c := s.log.cmd) hs i.2
    have hstep := send_step (p := i.2) hfit hr hs
    rw [had] at hctrl hlog
    rw [← hlog] at hstep
    have hwle : s.log.w.length ≤ (s.next i).log.w.length := by
      rw [hlog]
      simp only [Log.next]
      split <;> simp
    rcases hstep with ⟨hg, hs'⟩ | ⟨hg, -, -, -⟩
    · rw [hg, if_neg Bool.false_ne_true] at hctrl
      simp only [left, hctrl, hc, hreq, hreq', hcmd, if_true]
      refine ⟨by omega, fun hserved => ?_⟩
      -- the address is taken now, if it was not before: words are left
      simp only [served, axiOut, had, Bool.and_eq_true, Bool.or_eq_true, Bool.not_eq_true'] at hserved
      obtain ⟨⟨⟨-, hawr⟩, hwr⟩, -⟩ := hserved
      have haw' : (s.next i).log.aw ≠ [] := by
        rw [hlog]
        simp only [Log.next]
        rcases haw with haw | haw
        · rw [haw, hawr.resolve_left (by rw [haw]; decide)]
          simp
        · split
          · simp
          · exact haw
      have hlt : (s.next i).log.w.length ≤ s.log.cmd.len.toNat := by
        unfold Sending at hs'
        split at hs'
        · exact absurd hs'.1 haw'
        · exact absurd hs'.2.1 haw'
        · rw [hs'.2.w, List.length_take, hcmd]
          omega
        · exact absurd hs'.2.1 haw'
        · exact absurd hs'.2.1 haw'
        · exact hs'.elim
      rcases hw with hw | hw
      · have hlen : (s.next i).log.w.length = s.log.w.length + 1 := by
          rw [hlog]
          simp [Log.next, hw, hwr.resolve_left (by rw [hw]; decide)]
        omega
      · rw [hw, length_beats, hr.words] at hwle
        omega
    · rw [hg, if_pos rfl] at hctrl
      simp only [left, hctrl, hc, hreq', if_true]
      omega

theorem left_store (h : Inv s) (hc : s.regs.ctrl = .store) :
    left (s.next i) ≤ left s ∧ (served s i = true → left (s.next i) < left s) := by
  have hp := h.phase
  simp only [Phase, hc] at hp
  obtain ⟨ha, -⟩ := hp
  have hctrl : (s.next i).regs.ctrl =
      if (axiFsm s.regs.adapter s.regs.ad i.2).valid then .done else .store := by
    show ctrlNext s.regs _ _ = _
    simp only [ctrlNext, hc]
    rfl
  cases hb : i.2.bValid with
  | true =>
    simp only [axiFsm, ha, hb, if_true] at hctrl
    simp only [left, hctrl, hc]
    omega
  | false =>
    have hs : served s i = false := by
      simp [served, axiOut, axiFsm, ha, hb]
    simp only [axiFsm, ha, hb, adDefaults, Bool.false_eq_true, if_false] at hctrl
    rw [hs]
    simp only [left, hctrl, hc]
    exact ⟨le_rfl, fun hf => absurd hf Bool.false_ne_true⟩

theorem left_next (h : Inv s) (hw : s.regs.ctrl.waiting = false) :
    left (s.next i) ≤ left s ∧ (served s i = true → left (s.next i) < left s) := by
  cases hc : s.regs.ctrl with
  | idle => rw [hc] at hw; cases hw
  | done => rw [hc] at hw; cases hw
  | startLoad => exact left_startLoad h hc
  | load => exact left_load h hc
  | startStore => exact left_startStore h hc
  | store => exact left_store h hc

theorem left_pos (hw : s.regs.ctrl.waiting = false) : 0 < left s := by
  unfold left
  cases hc : s.regs.ctrl with
  | idle => rw [hc] at hw; cases hw
  | done => rw [hc] at hw; cases hw
  | startLoad => dsimp only; omega
  | load => dsimp only; omega
  | startStore => dsimp only; omega
  | store => exact Nat.one_pos

theorem left_le (s : St) : left s ≤ 517 := by
  have hlen := s.log.cmd.len.isLt
  have hreq : (if s.regs.ad.req then 0 else 1) ≤ 1 := by split <;> omega
  unfold left
  cases s.regs.ctrl <;> dsimp only <;> omega

/-- A transfer that runs comes to an end as soon as the bus has served the engine often
enough. -/
theorem finishes : ∀ (is : List (Bus × Resp)) (s : St), Inv s → s.regs.ctrl.waiting = false →
    machine.Steps (fun s i => Legal s i ∧ StartsFit s) s is → left s ≤ machine.count served s is →
    ∃ js, js <+: is ∧ (machine.run s js).regs.ctrl = .done ∧ (machine.run s js).log.cmd = s.log.cmd
  | [], s, _, hw, _, hle => absurd (left_pos hw) (by simpa [Machine.count] using hle)
  | i :: is, s, h, hw, hs, hle => by
    have hcmd := next_cmd (i := i) hw
    cases hw' : (s.next i).regs.ctrl.waiting with
    | true =>
      refine ⟨[i], by simp, ?_, hcmd⟩
      rcases ctrlNext_cases s.regs (axiOut s.regs i.2).gnt (axiOut s.regs i.2).valid with
        ⟨hc, -, -⟩ | ⟨hc, -, -⟩ | ⟨hc, -, -⟩ | ⟨hc, -, -⟩ | ⟨-, hn | hn⟩
      · rw [hc] at hw; cases hw
      · rw [hc] at hw; cases hw
      · rw [hc] at hw; cases hw
      · rw [hc] at hw; cases hw
      · exact absurd (hn.symm.trans hw') (by decide)
      · exact hn
    | false =>
      have hnext := left_next (i := i) h hw
      have hle' : left (s.next i) ≤ machine.count served (s.next i) is := by
        have hcount : machine.count served s (i :: is) =
            (served s i).toNat + machine.count served (s.next i) is := rfl
        rw [hcount] at hle
        cases hserved : served s i with
        | false =>
          rw [hserved, Bool.toNat_false] at hle
          omega
        | true =>
          have := hnext.2 hserved
          rw [hserved, Bool.toNat_true] at hle
          omega
      obtain ⟨js, hjs, hd, hc⟩ := finishes is (s.next i) (h.next hs.1.1 hs.1.2) hw' hs.2 hle'
      exact ⟨i :: js, List.cons_prefix_cons.2 ⟨rfl, hjs⟩, hd, hc.trans hcmd⟩

end Steps

/-! ### Runs -/

/-- In every run from reset in which the bus answers reads as asked and the commands that
start have a length that fits, the bus sees the transfers and nothing else, and a transfer is
done once the bus has served the engine in 517 cycles. -/
theorem transfer_law (is : List (Bus × Resp))
    (h : machine.Steps (fun s i => Legal s i ∧ StartsFit s) St.reset is) :
    machine.Always Law .reset is ∧
      ∀ js ks, is = js ++ ks → (machine.run .reset js).regs.ctrl.waiting = false →
        517 ≤ machine.count served (machine.run .reset js) ks →
        ∃ ms, ms <+: ks ∧ (machine.run .reset (js ++ ms)).regs.ctrl = .done ∧
          (machine.run .reset (js ++ ms)).log.cmd = (machine.run .reset js).log.cmd := by
  have step : ∀ s i, Inv s → (Legal s i ∧ StartsFit s) → Inv (machine.next s i) :=
    fun s i hi ho => hi.next ho.1 ho.2
  refine ⟨(Machine.always_of_steps step is .reset inv_reset h).mono fun s hs => hs.law, ?_⟩
  rintro js ks rfl hw hcount
  obtain ⟨hjs, hks⟩ := (Machine.steps_append js ks St.reset).1 h
  have hinv := Machine.run_inv step js .reset inv_reset hjs
  obtain ⟨ms, hms, hd, hc⟩ := finishes ks _ hinv hw hks ((left_le _).trans hcount)
  exact ⟨ms, hms, by rw [Machine.run_append]; exact hd, by rw [Machine.run_append]; exact hc⟩


/-- The bus is ready for everything; it may answer a write, or send a word and say if it is
the last one. -/
def Resp.ready (b : Bool) (r : Option (BitVec 64 × Bool)) : Resp :=
  ⟨true, true, b, true, r.isSome, (r.map (·.2)).getD false, 2, (r.map (·.1)).getD 0⟩

/-- A cycle in which a command register is written. -/
def put (k w : BitVec 32) : Bus × Resp := (⟨true, k <<< 2, w⟩, .ready false none)

/-- A cycle in which none is. -/
def tick (r : Option (BitVec 64 × Bool)) : Bus × Resp := (⟨false, 0, 0⟩, .ready false r)

/-- A cycle with the answer to a write. -/
def answer : Bus × Resp := (⟨false, 0, 0⟩, .ready true none)

/-- A command of two words from start to end. -/
def twoWords : List (Bus × Resp) :=
  [put 1 1, put 2 0x80000004, put 3 0x80000107, put 0 1, tick none, put 1 9, tick none, tick none,
    tick (some (0x11, false)), tick (some (0x22, true)), tick none, tick none, tick none, tick none, answer]

theorem transfer_law_two_words : machine.Always Law .reset twoWords ∧
    (machine.run .reset twoWords).regs.ctrl = .done ∧
    (machine.run .reset twoWords).log.w = [⟨0x11, 0xff, false⟩, ⟨0x22, 0xff, true⟩] :=
  ⟨(transfer_law twoWords (by decide +kernel)).1, by decide +kernel, by decide +kernel⟩

/-- A length of 256: the address says one word, but a second one is sent. -/
theorem burst_of_256 :
    let is := [put 1 256, put 0 1, tick none, tick none, tick none, tick none, tick (some (0x11, true)),
      tick none, tick none, tick none, tick none]
    machine.Steps Legal .reset is ∧ ¬machine.Always Law .reset is := by
  refine ⟨by decide +kernel, fun h => ?_⟩
  have hw := h.last.w.length_le
  revert hw
  decide +kernel

end Dma
end Ariane

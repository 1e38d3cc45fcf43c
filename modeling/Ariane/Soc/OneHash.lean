/-
# One start, one hash

The engines of `sha256_wrapper.sv` and `hmac_wrapper.sv` sample `startHash && ~startHash_r` and
`newMessage && ~newMessage_r`, and the registered versions take over on bus writes alone. So what
a write raises stays up until the next write, and an engine that is idle takes it (`Lib.Level`).

* the SHA-256 core starts again whenever it is idle, until there is a write;
* a write that comes before an engine is idle ends what has not been taken;
* `newMessage` of the HMAC block goes nowhere, and its engine takes key and message after the start.

`Fits` keeps off these. Then each start is one operation, and the digest that is read is that of the
last one (`Wrapper.right_of_fits`).
-/
import Mathlib.Data.Fintype.Basic
import Mathlib.Tactic.FinCases
import Ariane.Lib.Level
import Ariane.Soc.Hmac
import Ariane.Soc.Wrappers

namespace Ariane
namespace Soc
namespace OneHash

open Lib

/-! ### The registers of a hash block -/

section Registers

variable {keys : ℕ}

/-- `startHash && ~startHash_r`. -/
def startPulse (m : File (HashReg.width keys)) : Bool :=
  (m .startHash).getLsbD 0 && !(m .startHashR).getLsbD 0

/-- `newMessage && ~newMessage_r`. -/
def messagePulse (m : File (HashReg.width keys)) : Bool :=
  (m .newMessage).getLsbD 0 && !(m .newMessageR).getLsbD 0

/-- `bigData`. -/
def bigData (m : File (HashReg.width keys)) : BitVec 512 :=
  let d : Fin 16 → BitVec 32 := fun k => m (.data k)
  d 15 ++ d 14 ++ d 13 ++ d 12 ++ d 11 ++ d 10 ++ d 9 ++ d 8 ++ d 7 ++ d 6 ++ d 5 ++ d 4 ++ d 3 ++
    d 2 ++ d 1 ++ d 0

/-- `key`. -/
def key (m : File (HashReg.width 8)) : BitVec 256 :=
  let k : Fin 8 → BitVec 32 := fun k => m (.key0 k)
  k 0 ++ k 1 ++ k 2 ++ k 3 ++ k 4 ++ k 5 ++ k 6 ++ k 7

/-- The start bit changes from 0 to 1. -/
def startRaised (m m' : File (HashReg.width keys)) : Bool :=
  (m' .startHash).getLsbD 0 && !(m .startHash).getLsbD 0

/-- The new-message bit changes from 0 to 1. -/
def messageRaised (m m' : File (HashReg.width keys)) : Bool :=
  (m' .newMessage).getLsbD 0 && !(m .newMessage).getLsbD 0

/-- What an engine shows, as the read side sees it. -/
def hashWires (ready valid : Bool) (digest : BitVec 256) : HashWire → BitVec 32
  | .ready => (BitVec.ofBool ready).setWidth 32
  | .hashValid => (BitVec.ofBool valid).setWidth 32
  | .hash k => digest.extractLsb' (32 * k) 32

/-- After a write the pulses are what it has raised. -/
theorem startPulse_edgeRegs (m m' : File (HashReg.width keys)) :
    startPulse (edgeRegs m m') = startRaised m m' := rfl

theorem messagePulse_edgeRegs (m m' : File (HashReg.width keys)) :
    messagePulse (edgeRegs m m') = messageRaised m m' := rfl

/-- A reset clears both bits, and the stale registered versions do not show. -/
theorem startPulse_hashReset (m : File (HashReg.width keys)) : startPulse (hashReset m) = false := by
  simp [startPulse, hashReset]

theorem messagePulse_hashReset (m : File (HashReg.width keys)) :
    messagePulse (hashReset m) = false := by
  simp [messagePulse, hashReset]

theorem bigData_congr {m m' : File (HashReg.width keys)} (h : ∀ k, m' (.data k) = m (.data k)) :
    bigData m' = bigData m := by
  simp only [bigData, h]

theorem key_congr {m m' : File (HashReg.width 8)} (h : ∀ k, m' (.key0 k) = m (.key0 k)) :
    key m' = key m := by
  simp only [key, h]

/-- A write that raises one of the two bits is one to word 0, which has nothing else. -/
theorem writeAt_of_raised {rows : List (WriteRow (HashReg keys))}
    (hrows : ∀ row ∈ rows, row.index = 0 ↔ row.reg = .startHash ∨ row.reg = .newMessage)
    {locked : ℕ → Bool} {m : File (HashReg.width keys)} {index : ℕ} {w : BitVec 32}
    (hraised : (startRaised m (writeAt rows locked m index w) ||
      messageRaised m (writeAt rows locked m index w)) = true)
    {r : HashReg keys} (hstart : r ≠ .startHash) (hnew : r ≠ .newMessage) :
    writeAt rows locked m index w r = m r := by
  by_cases hidx : index = 0
  · apply write_apply_of_locked
    rintro row hrow hrowidx rfl
    rcases (hrows row hrow).1 (hrowidx.trans hidx) with h | h
    · exact absurd h hstart
    · exact absurd h hnew
  · -- another word leaves both bits
    have hkeep : ∀ r', r' = .startHash ∨ r' = .newMessage →
        writeAt rows locked m index w r' = m r' := by
      intro r' hr'
      apply write_apply_of_locked
      rintro row hrow hrowidx rfl
      exact absurd (hrowidx.symm.trans ((hrows row hrow).2 hr')) hidx
    rw [startRaised, messageRaised, hkeep .startHash (.inl rfl), hkeep .newMessage (.inr rfl)] at hraised
    simp at hraised

theorem readAt_flag {locked : ℕ → Bool} (h : locked 0 = false) {index : ℕ} (hidx : index = 17)
    (m : File (HashReg.width keys)) (wires : HashWire → BitVec 32) :
    readAt (hashReads keys) locked m wires index = wires .hashValid := by
  have hfind : (hashReads keys).find? (·.index = 17) = some ⟨17, .wire .hashValid, 0⟩ := rfl
  rw [hidx, readAt, hfind]
  simp [h, Src.val]

theorem readAt_word {locked : ℕ → Bool} (h : locked 4 = false) {index : ℕ} {k : Fin 8}
    (hidx : index = 18 + k.val) (m : File (HashReg.width keys)) (wires : HashWire → BitVec 32) :
    readAt (hashReads keys) locked m wires index = wires (.hash k) := by
  have hfind : (hashReads keys).find? (·.index = 18 + k.val) =
      some ⟨k.val + 18, .wire (.hash k), 4⟩ := by
    fin_cases k <;> rfl
  rw [hidx, readAt, hfind]
  simp [h, Src.val]

end Registers

/-! ### A block and its engine -/

/-- A cycle: lock bits, bus, and the end of the core's rounds. -/
structure In where
  lk : BitVec 8
  write : Bool
  addr : BitVec 32
  wdata : BitVec 32
  fin : Bool

/-- A hash block with its engine. `level` is the operation its registers show an idle engine, `asks`
the one a write asks for. `samples` says that what the engine takes later is the operation's,
`keeps` what a write must leave to it; `presents` what a digest is after a list of operations, and
`arises` what it is when it becomes valid. -/
structure Wrapper (b : Blk) (ε ρ : Type) where
  isReset : ε → Prop
  idle : ε → Bool
  valid : ε → Bool
  digest : ε → BitVec 256
  wires : ε → Wire b → BitVec 32
  engineD : ε → File (width b) → Bool → ε
  level : File (width b) → Option ρ
  asks : File (width b) → File (width b) → Option ρ
  samples : ε → File (width b) → ρ → Prop
  keeps : ε → File (width b) → File (width b) → Prop
  presents : List ρ → BitVec 256 → Prop
  arises : ε → List ρ → BitVec 256 → Prop

/-- The registers and the engine, with the operations that have been asked for and those that have
been triggered. -/
structure Sys (b : Blk) (ε ρ : Type) where
  file : File (width b)
  engine : ε
  served : Bool
  asked : List ρ
  done : List ρ

namespace Wrapper

variable {b : Blk} {ε ρ : Type} (W : Wrapper b ε ρ)

/-- The bus, with the wires of the engine. -/
def bus (s : Sys b ε ρ) (i : In) : BusIn b := ⟨i.lk, i.write, i.addr, i.wdata, W.wires s.engine⟩

def fileD (s : Sys b ε ρ) (i : In) : File (width b) := blkNext b s.file (W.bus s i)

def log (s : Sys b ε ρ) : Level.Log ρ := ⟨W.level s.file, s.served, s.asked, s.done⟩

def edge (s : Sys b ε ρ) (i : In) : Level.Edge ρ :=
  ⟨i.write, W.asks s.file (W.fileD s i), W.level (W.fileD s i), W.idle s.engine⟩

/-- The operation that is triggered in this cycle. -/
def triggered (s : Sys b ε ρ) : Option ρ := if W.idle s.engine then W.level s.file else none

def next (s : Sys b ε ρ) (i : In) : Sys b ε ρ :=
  let t := (W.log s).next (W.edge s i)
  ⟨W.fileD s i, W.engineD s.engine s.file i.fin, t.served, t.asked, t.done⟩

def machine : Machine (Sys b ε ρ) In :=
  ⟨fun s => (∃ m, s.file = blkReset b m) ∧ W.isReset s.engine ∧ s.served = false ∧ s.asked = [] ∧
    s.done = [], W.next⟩

/-- What holds of a block in a cycle: each request has been one operation, which takes key and data
as they were, and the digest that is read is that of the last one, until the next. -/
structure Right (s : Sys b ε ρ) (i : In) : Prop where
  once : (W.log s).Once
  samples : ∀ op, s.done.getLast? = some op → W.samples s.engine s.file op
  presents : W.valid s.engine = true → W.presents s.done (W.digest s.engine)
  arises : W.valid s.engine = false → W.valid (W.next s i).engine = true →
    W.arises s.engine s.done (W.digest (W.next s i).engine)
  finished : s.done ≠ [] → W.idle s.engine = true → W.valid s.engine = true
  stays : W.valid s.engine = true → W.triggered s = none →
    W.valid (W.next s i).engine = true ∧ W.digest (W.next s i).engine = W.digest s.engine
  flag : i.lk.getLsbD 0 = false → readIndex i.addr b = 17 →
    rdata b s.file (W.bus s i) = (BitVec.ofBool (W.valid s.engine)).setWidth 32
  word : ∀ k : Fin 8, i.lk.getLsbD 4 = false → readIndex i.addr b = 18 + k.val →
    rdata b s.file (W.bus s i) = (W.digest s.engine).extractLsb' (32 * k) 32

/-- The engine is not idle again under a level it has taken, no write ends one it has not taken, and
none gets at what the engine has still to take. -/
structure Fits (s : Sys b ε ρ) (i : In) : Prop where
  again : s.served = true → (W.level s.file).isSome = true → W.idle s.engine = false
  lost : i.write = true → (W.level s.file).isSome = true → s.served = true ∨ W.idle s.engine = true
  keeps : i.write = true → W.keeps s.engine s.file (W.fileD s i)

variable {W}

theorem fileD_of_not_write {s : Sys b ε ρ} {i : In} (hw : i.write = false) :
    W.fileD s i = s.file := by
  simp [fileD, blkNext, bus, hw]

theorem fileD_of_write {s : Sys b ε ρ} {i : In} (hw : i.write = true) :
    W.fileD s i = edges b s.file (writeAt (writes b) (locked b i.lk) s.file (writeIndex i.addr b) i.wdata) :=
  if_pos hw

theorem log_next (s : Sys b ε ρ) (i : In) : W.log (W.next s i) = (W.log s).next (W.edge s i) := by
  cases hw : i.write with
  | true => simp [log, next, Level.Log.next, edge, hw]
  | false => simp [log, next, Level.Log.next, edge, hw, fileD_of_not_write hw]

theorem done_next (s : Sys b ε ρ) (i : In) :
    (W.next s i).done = s.done ++ (W.triggered s).toList := by
  cases hi : W.idle s.engine <;> simp [next, Level.Log.next, edge, log, triggered, hi]

theorem Fits.tidy {s : Sys b ε ρ} {i : In} (hf : W.Fits s i) (h : (W.log s).Tidy)
    (shown : i.write = true → W.asks s.file (W.fileD s i) = W.level (W.fileD s i)) :
    (W.log (W.next s i)).Tidy := by
  rw [log_next]
  exact h.next ⟨hf.again, hf.lost, shown⟩

/-- Where nothing is up and nothing is written, nothing is in the way. -/
theorem fits_quiet {s : Sys b ε ρ} {is : List In} (hl : W.level s.file = none)
    (hw : ∀ i ∈ is, i.write = false) : W.machine.Steps W.Fits s is := by
  induction is generalizing s with
  | nil => trivial
  | cons i is ih =>
    have hi := hw i List.mem_cons_self
    refine ⟨⟨fun _ h => ?_, fun h => ?_, fun h => ?_⟩, ih ?_ fun j hj => hw j (List.mem_cons_of_mem _ hj)⟩
    · rw [hl] at h
      cases h
    · exact absurd (hi.symm.trans h) Bool.false_ne_true
    · exact absurd (hi.symm.trans h) Bool.false_ne_true
    · show W.level (W.fileD s i) = none
      rw [fileD_of_not_write hi, hl]

theorem tidy_init {s : Sys b ε ρ} (h : W.machine.init s)
    (reset : ∀ m, W.level (blkReset b m) = none) : (W.log s).Tidy := by
  obtain ⟨⟨m, hm⟩, -, hserved, hasked, hdone⟩ := h
  simp [Level.Log.Tidy, log, hm, reset, hserved, hasked, hdone]

end Wrapper

/-! ### The SHA-256 block -/

/-- A block for the core, from the initial value or from the running one. -/
structure ShaOp where
  init : Bool
  block : BitVec 512
deriving DecidableEq

section Sha256

variable (C : BitVec 256 → BitVec 512 → BitVec 256)

/-- The digest after a list of operations. -/
def digestOf (ops : List ShaOp) : BitVec 256 :=
  ops.foldl (fun d op => C (if op.init then Sha256.iv else d) op.block) 0

/-- What the registers show the core. -/
def shaLevel (m : File (HashReg.width 0)) : Option ShaOp :=
  if startPulse m || messagePulse m then some ⟨startPulse m, bigData m⟩ else none

/-- What a write asks of the core. -/
def shaAsks (m m' : File (HashReg.width 0)) : Option ShaOp :=
  if startRaised m m' || messageRaised m m' then some ⟨startRaised m m', bigData m⟩ else none

/-- `sha256_wrapper`. -/
def sha256 : Wrapper .sha256 Hmac.Core ShaOp where
  isReset c := c.ctrl = .idle ∧ c.digest = 0 ∧ c.digestValid = false
  idle c := c.ready
  valid c := c.digestValid
  digest c := c.digest
  wires c := hashWires c.ready c.digestValid c.digest
  engineD c m fin := c.next C (startPulse m) (messagePulse m) (bigData m) fin
  level := shaLevel
  asks := shaAsks
  samples _ _ _ := True
  keeps _ _ _ := True
  presents ops d := ops ≠ [] ∧ d = digestOf C ops
  arises _ ops d := ops ≠ [] ∧ d = digestOf C ops

/-- The core works on the last operation, or has the digest of all of them. -/
def CoreInv (ops : List ShaOp) (c : Hmac.Core) : Prop :=
  match c.ctrl with
  | .idle => c.digest = digestOf C ops ∧ (c.digestValid = true ↔ ops ≠ [])
  | .rounds | .done => c.digestValid = false ∧ ∃ before op, ops = before ++ [op] ∧
      c.digest = (if op.init then Sha256.iv else digestOf C before) ∧ c.block = op.block

variable {C}

theorem digestOf_append (ops : List ShaOp) (op : ShaOp) :
    digestOf C (ops ++ [op]) = C (if op.init then Sha256.iv else digestOf C ops) op.block := by
  simp [digestOf]

/-- What an edge does to the core, and which operation it triggers. -/
theorem CoreInv.next {ops : List ShaOp} {c : Hmac.Core} (h : CoreInv C ops c) (init next : Bool)
    (block : BitVec 512) (fin : Bool) :
    CoreInv C (ops ++ (if c.ready && (init || next) then [⟨init, block⟩] else []))
      (c.next C init next block fin) := by
  unfold CoreInv at h
  cases hc : c.ctrl with
  | idle =>
    simp only [hc] at h
    by_cases hgo : (init || next) = true
    · have hnext : c.next C init next block fin =
          ⟨.rounds, if init then Sha256.iv else c.digest, block, false⟩ := by
        simp [Hmac.Core.next, hc, hgo]
      simp only [Hmac.Core.ready, hc, decide_true, hgo, Bool.and_self, if_true, hnext, CoreInv]
      exact ⟨trivial, ops, ⟨init, block⟩, rfl, by rw [h.1], rfl⟩
    · have hnext : c.next C init next block fin = c := by simp [Hmac.Core.next, hc, hgo]
      simp only [hgo, Bool.and_false, Bool.false_eq_true, if_false, List.append_nil, hnext, CoreInv, hc]
      exact h
  | rounds =>
    simp only [hc] at h
    cases fin <;> simpa [CoreInv, Hmac.Core.ready, Hmac.Core.next, hc] using h
  | done =>
    simp only [hc] at h
    obtain ⟨-, before, op, rfl, hd, hb⟩ := h
    simp [CoreInv, Hmac.Core.ready, Hmac.Core.next, hc, digestOf_append, hd, hb]

theorem shaLevel_eq_none {m : File (HashReg.width 0)} (h : shaLevel m = none) :
    (startPulse m || messagePulse m) = false := by
  by_contra hne
  rw [Bool.not_eq_false] at hne
  simp [shaLevel, hne] at h

theorem shaLevel_toList (m : File (HashReg.width 0)) : (shaLevel m).toList =
    if startPulse m || messagePulse m then [⟨startPulse m, bigData m⟩] else [] := by
  unfold shaLevel
  split <;> rfl

theorem shaLevel_hashReset (m : File (HashReg.width 0)) : shaLevel (hashReset m) = none := by
  simp [shaLevel, startPulse_hashReset, messagePulse_hashReset]

/-- What a write asks for is what it shows. -/
theorem shaAsks_eq_shaLevel (m : File (HashReg.width 0)) (locked : ℕ → Bool) (index : ℕ) (w : BitVec 32) :
    shaAsks m (edgeRegs m (writeAt sha256Writes locked m index w)) =
      shaLevel (edgeRegs m (writeAt sha256Writes locked m index w)) := by
  have hrows : ∀ row ∈ sha256Writes,
      row.index = 0 ↔ row.reg = .startHash ∨ row.reg = .newMessage := by decide
  set m' := writeAt sha256Writes locked m index w with hm'
  show (if startRaised m m' || messageRaised m m' then
      some (⟨startRaised m m', bigData m⟩ : ShaOp) else none) =
    if startRaised m m' || messageRaised m m' then some ⟨startRaised m m', bigData m'⟩ else none
  split
  · rename_i hraised
    have hdata : bigData m' = bigData m :=
      bigData_congr fun k => writeAt_of_raised hrows hraised (by simp) (by simp)
    rw [hdata]
  · rfl

/-- What the runs keep. -/
def ShaInv (C : BitVec 256 → BitVec 512 → BitVec 256) (s : Sys .sha256 Hmac.Core ShaOp) : Prop :=
  ((sha256 C).log s).Tidy ∧ CoreInv C s.done s.engine

theorem sha256_init {s : Sys .sha256 Hmac.Core ShaOp} (h : (sha256 C).machine.init s) : ShaInv C s := by
  refine ⟨Wrapper.tidy_init h shaLevel_hashReset, ?_⟩
  obtain ⟨-, ⟨hctrl, hdigest, hvalid⟩, -, -, hdone⟩ := h
  simp [CoreInv, hctrl, hdigest, hvalid, hdone, digestOf]

theorem sha256_next (s : Sys .sha256 Hmac.Core ShaOp) (i : In) (h : ShaInv C s)
    (hf : (sha256 C).Fits s i) : ShaInv C ((sha256 C).next s i) := by
  refine ⟨hf.tidy h.1 fun hw => ?_, ?_⟩
  · rw [Wrapper.fileD_of_write hw]
    exact shaAsks_eq_shaLevel s.file _ _ _
  · have hcore := h.2.next (startPulse s.file) (messagePulse s.file) (bigData s.file) i.fin
    have htrig : ((sha256 C).triggered s).toList =
        if s.engine.ready && (startPulse s.file || messagePulse s.file) then
          [⟨startPulse s.file, bigData s.file⟩] else [] := by
      show (if s.engine.ready then shaLevel s.file else none).toList = _
      cases s.engine.ready with
      | true =>
        rw [if_pos rfl, Bool.true_and]
        exact shaLevel_toList s.file
      | false => rfl
    rw [← htrig, ← Wrapper.done_next] at hcore
    exact hcore

theorem sha256_right (s : Sys .sha256 Hmac.Core ShaOp) (i : In) (h : ShaInv C s) :
    (sha256 C).Right s i := by
  obtain ⟨htidy, hcore⟩ := h
  unfold CoreInv at hcore
  refine ⟨htidy.once, fun _ _ => trivial, fun hv => ?_, fun hv hv' => ?_, fun hdone hidle => ?_,
    fun hv htrig => ?_, fun hlk hidx => ?_, fun k hlk hidx => ?_⟩
  · change s.engine.digestValid = true at hv
    cases hc : s.engine.ctrl with
    | idle =>
      simp only [hc] at hcore
      exact ⟨hcore.2.1 hv, hcore.1⟩
    | rounds => simp [hc, hv] at hcore
    | done => simp [hc, hv] at hcore
  · obtain ⟨hc, hdigest⟩ := Hmac.Core.digest_of_arises hv hv'
    simp only [hc] at hcore
    obtain ⟨-, before, op, hops, hbefore, hblock⟩ := hcore
    refine ⟨by simp [hops], ?_⟩
    change ((sha256 C).next s i).engine.digest = digestOf C s.done
    rw [hops, digestOf_append, ← hbefore, ← hblock]
    exact hdigest
  · have hc : s.engine.ctrl = .idle := of_decide_eq_true hidle
    simp only [hc] at hcore
    exact hcore.2.2 hdone
  · change s.engine.digestValid = true at hv
    cases hc : s.engine.ctrl with
    | idle =>
      -- nothing is up, so the core rests
      have hno : (startPulse s.file || messagePulse s.file) = false := by
        refine shaLevel_eq_none (m := s.file) ?_
        have hidle : (sha256 C).idle s.engine = true := decide_eq_true hc
        rw [Wrapper.triggered, if_pos hidle] at htrig
        exact htrig
      have hstay : ((sha256 C).next s i).engine = s.engine := by
        show s.engine.next C (startPulse s.file) (messagePulse s.file) (bigData s.file) i.fin = s.engine
        simp [Hmac.Core.next, hc, hno]
      rw [hstay]
      exact ⟨hv, rfl⟩
    | rounds => simp [hc, hv] at hcore
    | done => simp [hc, hv] at hcore
  · exact readAt_flag hlk hidx s.file _
  · exact readAt_word hlk hidx s.file _

end Sha256

/-! ### The HMAC block -/

/-- A key and a message for the engine; `start` is false for what `newMessage` asks. -/
structure HmacOp where
  start : Bool
  key : BitVec 256
  message : BitVec 512
deriving DecidableEq

section Hmac

/-- `newMessage` is not connected. -/
def hmacLevel (m : File (HashReg.width 8)) : Option HmacOp :=
  if startPulse m then some ⟨true, key m, bigData m⟩ else none

def hmacAsks (m m' : File (HashReg.width 8)) : Option HmacOp :=
  if startRaised m m' || messageRaised m m' then some ⟨startRaised m m', key m, bigData m⟩ else none

/-- What the engine takes from the registers in `PAD` and at the end of `HASHI`. -/
structure HmacSamples (s : Hmac.Regs) (m : File (HashReg.width 8)) (op : HmacOp) : Prop where
  key : s.state = .pad → key m = op.key
  message : s.state = .hashI → s.core.ready = true → bigData m = op.message

/-- A write raises `newMessage` with `startHash` alone, and leaves key and data while the engine has
still to take them. -/
structure HmacKeeps (s : Hmac.Regs) (m m' : File (HashReg.width 8)) : Prop where
  raises : messageRaised m m' = true → startRaised m m' = true
  key : s.state = .idle → startPulse m = true → key m' = key m
  message : (s.state = .idle ∧ startPulse m = true) ∨ s.state = .pad ∨
    (s.state = .hashI ∧ s.core.ready = false) → bigData m' = bigData m

variable (C : BitVec 256 → BitVec 512 → BitVec 256)

/-- What the engine presents of an operation: the digest of its message alone, or the constant of
the bypass. -/
def HmacPresents (ops : List HmacOp) (d : BitVec 256) : Prop :=
  ∃ op, ops.getLast? = some op ∧ (d = C Sha256.iv op.message ∨ d = Hmac.opadWork)

/-- The result that becomes valid: the constant if the engine has taken the bypass, the digest of the
message if not. -/
def HmacArises (s : Hmac.Regs) (ops : List HmacOp) (d : BitVec 256) : Prop :=
  ∃ op, ops.getLast? = some op ∧ d = if s.workBypass then Hmac.opadWork else C Sha256.iv op.message

/-- `hmac_wrapper`. -/
def hmac : Wrapper .hmac Hmac.Regs HmacOp where
  isReset := Hmac.IsReset
  idle s := s.state = .idle
  valid s := s.hashValid
  digest s := s.hash
  wires s := hashWires s.ready s.hashValid s.hash
  engineD s m fin := s.next C ⟨key m, bigData m, startPulse m, fin⟩
  level := hmacLevel
  asks := hmacAsks
  samples := HmacSamples
  keeps := HmacKeeps
  presents := HmacPresents C
  arises := HmacArises C

variable {C}

theorem hmacLevel_hashReset (m : File (HashReg.width 8)) : hmacLevel (hashReset m) = none := by
  simp [hmacLevel, startPulse_hashReset]

theorem hmacLevel_of_pulse {m : File (HashReg.width 8)} (h : startPulse m = true) :
    hmacLevel m = some ⟨true, key m, bigData m⟩ := if_pos h

theorem hmacLevel_of_not_pulse {m : File (HashReg.width 8)} (h : startPulse m = false) :
    hmacLevel m = none := by
  simp [hmacLevel, h]

/-- What a write asks for is what it shows, when it raises `newMessage` with `startHash` alone. -/
theorem hmacAsks_eq_hmacLevel (m : File (HashReg.width 8)) (locked : ℕ → Bool) (index : ℕ) (w : BitVec 32)
    (h : messageRaised m (edgeRegs m (writeAt hmacWrites locked m index w)) = true →
      startRaised m (edgeRegs m (writeAt hmacWrites locked m index w)) = true) :
    hmacAsks m (edgeRegs m (writeAt hmacWrites locked m index w)) =
      hmacLevel (edgeRegs m (writeAt hmacWrites locked m index w)) := by
  have hrows : ∀ row ∈ hmacWrites,
      row.index = 0 ↔ row.reg = .startHash ∨ row.reg = .newMessage := by decide
  set m' := writeAt hmacWrites locked m index w with hm'
  change messageRaised m m' = true → startRaised m m' = true at h
  show (if startRaised m m' || messageRaised m m' then
      some (⟨startRaised m m', key m, bigData m⟩ : HmacOp) else none) =
    if startRaised m m' then some ⟨true, key m', bigData m'⟩ else none
  cases hstart : startRaised m m' with
  | true =>
    have hraised : (startRaised m m' || messageRaised m m') = true := by rw [hstart, Bool.true_or]
    have hdata : bigData m' = bigData m :=
      bigData_congr fun k => writeAt_of_raised hrows hraised (by simp) (by simp)
    have hkey : key m' = key m := key_congr fun k => writeAt_of_raised hrows hraised (by simp) (by simp)
    simp [hdata, hkey]
  | false =>
    have hnew : messageRaised m m' = false := by
      by_contra hne
      rw [Bool.not_eq_false] at hne
      rw [h hne] at hstart
      cases hstart
    simp [hnew]

/-- The engine works on the last operation, with what it has still to take in the registers. -/
structure HmacLast (C : BitVec 256 → BitVec 512 → BitVec 256) (s : Hmac.Regs)
    (m : File (HashReg.width 8)) (op : HmacOp) : Prop where
  engine : Hmac.Fresh C op.message s ∨ Hmac.Used s
  key : s.state = .pad → key m = op.key
  message : s.state = .pad ∨ s.state = .hashI → bigData m = op.message
  valid : s.state = .idle → s.hashValid = true

/-- What the runs keep. -/
structure HmacInv (C : BitVec 256 → BitVec 512 → BitVec 256) (s : Sys .hmac Hmac.Regs HmacOp) : Prop where
  tidy : ((hmac C).log s).Tidy
  first : s.done = [] → s.engine.state = .idle ∧ s.engine.hashValid = false
  last : ∀ op, s.done.getLast? = some op → HmacLast C s.engine s.file op

theorem hmac_init {s : Sys .hmac Hmac.Regs HmacOp} (h : (hmac C).machine.init s) : HmacInv C s := by
  refine ⟨Wrapper.tidy_init h hmacLevel_hashReset, fun _ => ?_, fun op hop => ?_⟩
  · exact ⟨h.2.1.state, h.2.1.hashValid⟩
  · rw [h.2.2.2.2] at hop
    cases hop

/-- The engine's state after an edge, and whether its result is valid then. -/
theorem state_next (s : Hmac.Regs) (i : Hmac.In) :
    (s.next C i).state = (s.step i).state ∧ (s.next C i).hashValid = (s.step i).hashValid := ⟨rfl, rfl⟩

theorem hmac_engine (s : Sys .hmac Hmac.Regs HmacOp) (i : In) : ((hmac C).next s i).engine =
    s.engine.next C ⟨key s.file, bigData s.file, startPulse s.file, i.fin⟩ := rfl

theorem hmac_triggered_of_pulse {s : Sys .hmac Hmac.Regs HmacOp} (hs : s.engine.state = .idle)
    (hp : startPulse s.file = true) :
    (hmac C).triggered s = some ⟨true, key s.file, bigData s.file⟩ := by
  have hidle : (hmac C).idle s.engine = true := decide_eq_true hs
  rw [Wrapper.triggered, if_pos hidle]
  exact hmacLevel_of_pulse hp

theorem hmac_triggered_of_not {s : Sys .hmac Hmac.Regs HmacOp}
    (h : s.engine.state = .idle → startPulse s.file = false) : (hmac C).triggered s = none := by
  unfold Wrapper.triggered
  split
  · rename_i hidle
    exact hmacLevel_of_not_pulse (h (of_decide_eq_true hidle))
  · rfl

/-- Where the engine has still to take them, key and data stay. -/
theorem hmac_message_stays {s : Sys .hmac Hmac.Regs HmacOp} {i : In} (hf : (hmac C).Fits s i)
    (h : (s.engine.state = .idle ∧ startPulse s.file = true) ∨ s.engine.state = .pad ∨
      (s.engine.state = .hashI ∧ s.engine.core.ready = false)) :
    bigData ((hmac C).fileD s i) = bigData s.file := by
  cases hw : i.write with
  | true => exact (hf.keeps hw).message h
  | false => rw [Wrapper.fileD_of_not_write hw]

theorem hmac_key_stays {s : Sys .hmac Hmac.Regs HmacOp} {i : In} (hf : (hmac C).Fits s i)
    (hs : s.engine.state = .idle) (hp : startPulse s.file = true) :
    key ((hmac C).fileD s i) = key s.file := by
  cases hw : i.write with
  | true => exact (hf.keeps hw).key hs hp
  | false => rw [Wrapper.fileD_of_not_write hw]

/-- An operation that is triggered. -/
theorem hmacLast_of_pulse {s : Sys .hmac Hmac.Regs HmacOp} {i : In} (hf : (hmac C).Fits s i)
    (hs : s.engine.state = .idle) (hp : startPulse s.file = true) :
    HmacLast C ((hmac C).next s i).engine ((hmac C).fileD s i) ⟨true, key s.file, bigData s.file⟩ := by
  have hstate : ((hmac C).next s i).engine.state = .pad := by
    rw [hmac_engine, (state_next s.engine _).1]
    simp [Hmac.Regs.step, hs, hp]
  refine ⟨?_, fun _ => hmac_key_stays hf hs hp, fun _ => hmac_message_stays hf (.inl ⟨hs, hp⟩), ?_⟩
  · rw [hmac_engine, hp]
    rcases Hmac.fresh_or_used (C := C) hs (bigData s.file) with h | h
    · exact .inl (h _ _)
    · exact .inr (h _ _)
  · intro hidle
    rw [hstate] at hidle
    cases hidle

/-- An operation that goes on, or whose result stays. -/
theorem HmacLast.next {s : Sys .hmac Hmac.Regs HmacOp} {i : In} {op : HmacOp}
    (h : HmacLast C s.engine s.file op) (hf : (hmac C).Fits s i)
    (hp : s.engine.state = .idle → startPulse s.file = false) :
    HmacLast C ((hmac C).next s i).engine ((hmac C).fileD s i) op := by
  have hmessage : s.engine.state = .hashI → bigData s.file = op.message := fun hs => h.message (.inr hs)
  have hengine : Hmac.Fresh C op.message ((hmac C).next s i).engine ∨ Hmac.Used ((hmac C).next s i).engine :=
    h.engine.imp (fun h' => h'.next hp hmessage) fun h' => h'.next hp
  cases hs : s.engine.state with
  | idle =>
    have hstep : s.engine.step ⟨OneHash.key s.file, bigData s.file, startPulse s.file, i.fin⟩ =
        { s.engine with shaInit := false, shaNewMsg := false, shaMsg := 0, ready := true,
                        workBypass := false } := by
      cases he : s.engine
      simp_all [Hmac.Regs.step]
    have hstate : ((hmac C).next s i).engine.state = .idle := by
      rw [hmac_engine, (state_next s.engine _).1, hstep]
      exact hs
    refine ⟨hengine, fun h' => by simp [hstate] at h', fun h' => by simp [hstate] at h', fun _ => ?_⟩
    rw [hmac_engine, (state_next s.engine _).2, hstep]
    exact h.valid hs
  | pad =>
    have hstate : ((hmac C).next s i).engine.state = .hashI := by
      rw [hmac_engine, (state_next s.engine _).1]
      simp [Hmac.Regs.step, hs]
    refine ⟨hengine, fun h' => by simp [hstate] at h', fun _ => ?_, fun h' => by simp [hstate] at h'⟩
    rw [hmac_message_stays hf (.inr (.inl hs))]
    exact h.message (.inl hs)
  | hashI =>
    cases hr : s.engine.core.ready with
    | true =>
      have hstate : ((hmac C).next s i).engine.state = .hashO := by
        rw [hmac_engine, (state_next s.engine _).1]
        simp [Hmac.Regs.step, hs, hr]
      exact ⟨hengine, fun h' => by simp [hstate] at h', fun h' => by simp [hstate] at h',
        fun h' => by simp [hstate] at h'⟩
    | false =>
      have hstate : ((hmac C).next s i).engine.state = .hashI := by
        rw [hmac_engine, (state_next s.engine _).1]
        simp [Hmac.Regs.step, hs, hr]
      refine ⟨hengine, fun h' => by simp [hstate] at h', fun _ => ?_, fun h' => by simp [hstate] at h'⟩
      rw [hmac_message_stays hf (.inr (.inr ⟨hs, hr⟩))]
      exact h.message (.inr hs)
  | hashO =>
    have hstate : ((hmac C).next s i).engine.state = .hashO ∨ ((hmac C).next s i).engine.state = .out := by
      rw [hmac_engine, (state_next s.engine _).1]
      simp only [Hmac.Regs.step, hs]
      split
      · exact .inr rfl
      · split
        · exact .inl rfl
        · split
          · exact .inr rfl
          · exact .inl hs
    refine ⟨hengine, fun h' => ?_, fun h' => ?_, fun h' => ?_⟩ <;>
      rcases hstate with hst | hst <;> simp [hst] at h'
  | out =>
    have hstate : ((hmac C).next s i).engine.state = .out ∨ (((hmac C).next s i).engine.state = .idle ∧
        ((hmac C).next s i).engine.hashValid = true) := by
      rw [hmac_engine, (state_next s.engine _).1, (state_next s.engine _).2]
      simp only [Hmac.Regs.step, hs]
      split
      · exact .inr ⟨rfl, rfl⟩
      · split
        · exact .inr ⟨rfl, rfl⟩
        · exact .inl hs
    refine ⟨hengine, fun h' => ?_, fun h' => ?_, fun h' => ?_⟩ <;> rcases hstate with hst | ⟨hst, hv⟩
    · simp [hst] at h'
    · simp [hst] at h'
    · simp [hst] at h'
    · simp [hst] at h'
    · simp [hst] at h'
    · exact hv

theorem hmac_next (s : Sys .hmac Hmac.Regs HmacOp) (i : In) (h : HmacInv C s)
    (hf : (hmac C).Fits s i) : HmacInv C ((hmac C).next s i) := by
  have htidy : ((hmac C).log ((hmac C).next s i)).Tidy := by
    refine hf.tidy h.tidy fun hw => ?_
    have hraises := (hf.keeps hw).raises
    rw [Wrapper.fileD_of_write hw] at hraises ⊢
    exact hmacAsks_eq_hmacLevel s.file _ _ _ hraises
  by_cases hgo : s.engine.state = .idle ∧ startPulse s.file = true
  · have hdone : ((hmac C).next s i).done = s.done ++ [⟨true, key s.file, bigData s.file⟩] := by
      rw [Wrapper.done_next, hmac_triggered_of_pulse hgo.1 hgo.2]
      rfl
    refine ⟨htidy, fun hnil => by simp [hdone] at hnil, fun op hop => ?_⟩
    rw [hdone, List.getLast?_concat, Option.some.injEq] at hop
    rw [← hop]
    exact hmacLast_of_pulse hf hgo.1 hgo.2
  · have hp : s.engine.state = .idle → startPulse s.file = false := fun hs => by
      simpa [hs] using hgo
    have hdone : ((hmac C).next s i).done = s.done := by
      rw [Wrapper.done_next, hmac_triggered_of_not hp]
      simp
    refine ⟨htidy, fun hnil => ?_, fun op hop => ?_⟩
    · rw [hdone] at hnil
      obtain ⟨hs, hv⟩ := h.first hnil
      rw [hmac_engine, (state_next s.engine _).1, (state_next s.engine _).2]
      simp [Hmac.Regs.step, hs, hp hs, hv]
    · rw [hdone] at hop
      exact (h.last op hop).next hf hp

/-- What the engine puts out at the end of an operation. -/
theorem HmacLast.arises {s : Hmac.Regs} {m : File (HashReg.width 8)} {op : HmacOp} (h : HmacLast C s m op)
    {i : Hmac.In} (hv : s.hashValid = false) (hv' : (s.next C i).hashValid = true) :
    (s.next C i).hash = if s.workBypass then Hmac.opadWork else C Sha256.iv op.message := by
  rw [(state_next s i).2] at hv'
  change (s.step i).hash = _
  cases hs : s.state with
  | out =>
    cases hb : s.workBypass with
    | true => simp [Hmac.Regs.step, hs, hb]
    | false =>
      simp only [Hmac.Regs.step, hs, hb, Bool.false_eq_true, if_false] at hv' ⊢
      split at hv'
      · rename_i hd
        rw [if_pos hd]
        exact Hmac.digest_of_out hs hb h.engine hd
      · exact absurd (hv.symm.trans hv') Bool.false_ne_true
  | hashI => cases hr : s.core.ready <;> simp [Hmac.Regs.step, hs, hr, hv] at hv'
  | hashO =>
    simp only [Hmac.Regs.step, hs] at hv'
    split_ifs at hv' <;> exact absurd (hv.symm.trans hv') Bool.false_ne_true
  | _ => simp [Hmac.Regs.step, hs, hv] at hv'

theorem hmac_right (s : Sys .hmac Hmac.Regs HmacOp) (i : In) (h : HmacInv C s) : (hmac C).Right s i := by
  have hlast : s.done ≠ [] → ∃ op, s.done.getLast? = some op :=
    fun hne => ⟨_, List.getLast?_eq_some_getLast hne⟩
  have hvalid : s.engine.hashValid = true → s.done ≠ [] := fun hv hnil => by
    rw [(h.first hnil).2] at hv
    cases hv
  refine ⟨h.tidy.once, fun op hop => ?_, fun hv => ?_, fun hv hv' => ?_, fun hdone hidle => ?_,
    fun hv htrig => ?_, fun hlk hidx => ?_, fun k hlk hidx => ?_⟩
  · have hop' := h.last op hop
    exact ⟨hop'.key, fun hs _ => hop'.message (.inr hs)⟩
  · obtain ⟨op, hop⟩ := hlast (hvalid hv)
    exact ⟨op, hop, (h.last op hop).engine.imp (fun h' => h'.hash_eq hv) fun h' => h'.hash_eq hv⟩
  · change s.engine.hashValid = false at hv
    rw [hmac_engine] at hv'
    have hne : s.done ≠ [] := by
      intro hnil
      obtain ⟨hs, -⟩ := h.first hnil
      change (s.engine.step _).hashValid = true at hv'
      simp [Hmac.Regs.step, hs, hv] at hv'
    obtain ⟨op, hop⟩ := hlast hne
    exact ⟨op, hop, (h.last op hop).arises hv hv'⟩
  · obtain ⟨op, hop⟩ := hlast hdone
    exact (h.last op hop).valid (of_decide_eq_true hidle)
  · change s.engine.hashValid = true at hv
    obtain ⟨op, hop⟩ := hlast (hvalid hv)
    have hs : s.engine.state = .idle := (h.last op hop).engine.elim (fun h' => h'.idle hv) fun h' => h'.idle hv
    have hp : startPulse s.file = false := by
      by_contra hp
      rw [hmac_triggered_of_pulse hs (Bool.eq_true_of_not_eq_false hp)] at htrig
      cases htrig
    show (s.engine.step _).hashValid = true ∧ (s.engine.step _).hash = s.engine.hash
    simp [Hmac.Regs.step, hs, hp, hv]
  · exact readAt_flag hlk hidx s.file _
  · exact readAt_word hlk hidx s.file _

end Hmac

/-! ### Both blocks -/

/-- **One start, one hash**, in the runs of both blocks in which nothing gets at a level. -/
theorem right_of_fits (C : BitVec 256 → BitVec 512 → BitVec 256) :
    (∀ s is, (sha256 C).machine.init s → (sha256 C).machine.Steps (sha256 C).Fits s is →
      (sha256 C).machine.Steps (sha256 C).Right s is) ∧
    ∀ s is, (hmac C).machine.init s → (hmac C).machine.Steps (hmac C).Fits s is →
      (hmac C).machine.Steps (hmac C).Right s is := by
  constructor
  · intro s is h0 hf
    exact Machine.steps_of_inv (M := (sha256 C).machine) (P := ShaInv C) (fun s i => sha256_next (C := C) s i)
      (fun s i h _ => sha256_right (C := C) s i h) is s (sha256_init (C := C) h0) hf
  · intro s is h0 hf
    exact Machine.steps_of_inv (M := (hmac C).machine) (P := HmacInv C) (fun s i => hmac_next (C := C) s i)
      (fun s i h _ => hmac_right (C := C) s i h) is s (hmac_init (C := C) h0) hf

/-- A write of `w` to word 0. -/
def In.control (w : BitVec 32) : In := ⟨0, true, 0, w, false⟩

/-- A cycle without a write. -/
def In.quiet (fin : Bool) : In := ⟨0, false, 0, 0, fin⟩

/-- The 64 rounds. -/
def rounds : List In := List.replicate 63 (.quiet false) ++ [.quiet true]

def shaReset : Sys .sha256 Hmac.Core ShaOp :=
  ⟨blkReset .sha256 fun _ => 0, ⟨.idle, 0, 0, false⟩, false, [], []⟩

def hmacReset : Sys .hmac Hmac.Regs HmacOp := ⟨blkReset .hmac fun _ => 0, Hmac.Regs.reset, false, [], []⟩

/-- A start, and the cycles until the digest is valid. -/
def shaRun : List In := rounds ++ [.quiet false, .quiet false]

def hmacRun : List In := List.replicate 3 (.quiet false) ++ rounds ++ [.quiet false, .quiet false]

theorem right_of_fits_short :
    ((sha256 Sha256.compress).machine.Steps (sha256 Sha256.compress).Right shaReset
        (.control 1 :: .control 0 :: shaRun) ∧
      ((sha256 Sha256.compress).machine.run shaReset (.control 1 :: .control 0 :: shaRun)).engine.digestValid =
        true) ∧
    (hmac Sha256.compress).machine.Steps (hmac Sha256.compress).Right hmacReset
        (.control 1 :: .control 0 :: hmacRun) ∧
      ((hmac Sha256.compress).machine.run hmacReset (.control 1 :: .control 0 :: hmacRun)).engine.hashValid =
        true := by
  refine ⟨⟨(right_of_fits Sha256.compress).1 _ _ ⟨⟨fun _ => 0, rfl⟩, ⟨rfl, rfl, rfl⟩, rfl, rfl, rfl⟩ ?_,
    by decide +kernel⟩, (right_of_fits Sha256.compress).2 _ _
    ⟨⟨fun _ => 0, rfl⟩, ⟨rfl, rfl, rfl, rfl⟩, rfl, rfl, rfl⟩ ?_, by decide +kernel⟩
  · exact ⟨⟨by decide, by decide, fun _ => trivial⟩, ⟨by decide, by decide, fun _ => trivial⟩,
      Wrapper.fits_quiet (by decide +kernel) (by decide +kernel)⟩
  · exact ⟨⟨by decide, by decide, fun _ => ⟨by decide, by decide, by decide⟩⟩,
      ⟨by decide, by decide, fun _ => ⟨by decide, by decide, by decide⟩⟩,
      Wrapper.fits_quiet (by decide +kernel) (by decide +kernel)⟩

section Counterexample

variable {b : Blk} {ε ρ : Type} {W : Wrapper b ε ρ}

/-- At the end of a run with one more cycle each request has been one operation, or the last one is
still up. -/
theorem Wrapper.Right.lengths {s : Sys b ε ρ} (is : List In) (i : In)
    (h : W.machine.Steps W.Right s (is ++ [i])) :
    let t := W.machine.run s is
    t.asked.length = t.done.length ∨ (W.level t.file).isSome = true := by
  rcases ((Machine.steps_append is [i] s).1 h).2.1.once with heq | ⟨r, hr, -⟩
  · exact .inl (congrArg List.length heq)
  · exact .inr (by rw [show W.level _ = some r from hr]; rfl)

/-- The start bit of the SHA-256 block is raised, and the core has ended: it starts again, under the
same start. The same block with a second start while the core is in its rounds, which the next write
ends. The HMAC block, with `newMessage` raised. -/
theorem not_right :
    (¬(sha256 Sha256.compress).machine.Steps (sha256 Sha256.compress).Right shaReset
        (.control 1 :: .quiet false :: rounds ++ [.quiet false, .quiet false, .control 0, .quiet false])) ∧
      (¬(sha256 Sha256.compress).machine.Steps (sha256 Sha256.compress).Right shaReset
        [.control 1, .control 0, .control 1, .control 0, .quiet false]) ∧
      ¬(hmac Sha256.compress).machine.Steps (hmac Sha256.compress).Right hmacReset
        [.control 2, .quiet false] := by
  refine ⟨fun h => ?_, fun h => ?_, fun h => ?_⟩
  · have hl := Wrapper.Right.lengths (.control 1 :: .quiet false :: rounds ++
      [.quiet false, .quiet false, .control 0]) (.quiet false) (by simpa using h)
    revert hl
    decide +kernel
  · have hl := Wrapper.Right.lengths [.control 1, .control 0, .control 1, .control 0] (.quiet false) h
    revert hl
    decide +kernel
  · have hl := Wrapper.Right.lengths [.control 2] (.quiet false) h
    revert hl
    decide +kernel

end Counterexample

end OneHash
end Soc
end Ariane

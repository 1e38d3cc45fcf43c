/-
# What a reset erases

Two runs of a locked register block with its engine, from any two contents, through the same reset
and the same accesses: they should look the same from the outside (`Same`).

* `sha256`: all it has is erased;
* `hmac`: `sha_init`, `sha_new_msg` and `sha_msg` are not, so a start that was pending before the
  reset starts the core after it, and the engine finds a digest where it expects none;
* `aes`: the keys and their selection are not, nor is any register of the engine, which runs on.

`erased` says that the two runs look the same as long as the engine of `hmac` sees the same of its
core in both, and that of `aes` holds the same and takes the same key.
-/
import Ariane.Soc.Aes
import Ariane.Soc.OneHash

namespace Ariane
namespace Soc
namespace Erasure

open Lib OneHash

/-! ### Two runs of a block -/

/-- A cycle of the bus. -/
structure Access where
  lk : BitVec 8
  write : Bool
  addr : BitVec 32
  wdata : BitVec 32

/-- The engine of a block: what it shows, its edge while `rst_ni` is low, and its edge. -/
structure Engine (b : Blk) (ε : Type) where
  wires : ε → File (width b) → Wire b → BitVec 32
  resetD : ε → File (width b) → ε
  engineD : ε → File (width b) → ε

structure State (b : Blk) (ε : Type) where
  file : File (width b)
  engine : ε

namespace Engine

variable {b : Blk} {ε : Type} (E : Engine b ε)

def bus (s : State b ε) (i : Access) : BusIn b :=
  ⟨i.lk, i.write, i.addr, i.wdata, E.wires s.engine s.file⟩

def next (s : State b ε) (i : Access) : State b ε :=
  ⟨blkNext b s.file (E.bus s i), E.engineD s.engine s.file⟩

def reset (s : State b ε) : State b ε := ⟨blkReset b s.file, E.resetD s.engine s.file⟩

/-- Two runs from any contents, after a reset of the same length. -/
def pair : Machine (State b ε × State b ε) Access :=
  ⟨fun p => ∃ s t n, p = (E.reset^[n + 1] s, E.reset^[n + 1] t),
   fun p i => (E.next p.1 i, E.next p.2 i)⟩

/-- The read data and what the engine shows are the same in both. -/
def Same (p : State b ε × State b ε) (i : Access) : Prop :=
  rdata b p.1.file (E.bus p.1 i) = rdata b p.2.file (E.bus p.2 i) ∧
    E.wires p.1.engine p.1.file = E.wires p.2.engine p.2.file

variable {E}

theorem pair_init {p : State b ε × State b ε} (h : E.pair.init p) :
    ∃ s t, p = (E.reset s, E.reset t) := by
  obtain ⟨s, t, n, rfl⟩ := h
  exact ⟨E.reset^[n] s, E.reset^[n] t, by rw [Function.iterate_succ_apply', Function.iterate_succ_apply']⟩

theorem file_of_write {s : State b ε} {i : Access} (hw : i.write = true) : (E.next s i).file =
    edges b s.file (writeAt (writes b) (locked b i.lk) s.file (writeIndex i.addr b) i.wdata) := if_pos hw

theorem file_of_not_write {s : State b ε} {i : Access} (hw : i.write = false) :
    (E.next s i).file = s.file := by
  simp [next, blkNext, bus, hw]

/-- Two runs look the same if the engines do and the registers that can be read hold the same. -/
theorem same_of_reads {p : State b ε × State b ε}
    (hreads : ∀ row ∈ reads b, ∀ r, row.src = .reg r → p.1.file r = p.2.file r)
    (hwires : E.wires p.1.engine p.1.file = E.wires p.2.engine p.2.file) (i : Access) : E.Same p i := by
  refine ⟨?_, hwires⟩
  show readAt _ _ _ (E.wires p.1.engine p.1.file) _ = readAt _ _ _ (E.wires p.2.engine p.2.file) _
  rw [hwires]
  exact readAt_congr hreads _ _ _

end Engine

/-! ### The registers of the hash blocks -/

section Hash

variable {keys : ℕ} {m m' : File (HashReg.width keys)}

/-- What a hash block shows its engine and the bus is the same, the key apart. -/
structure HashSame (m m' : File (HashReg.width keys)) : Prop where
  startHash : m .startHash = m' .startHash
  newMessage : m .newMessage = m' .newMessage
  data : ∀ k, m (.data k) = m' (.data k)
  startPulse : startPulse m = startPulse m'
  messagePulse : messagePulse m = messagePulse m'

theorem hashSame_reset (m m' : File (HashReg.width keys)) : HashSame (hashReset m) (hashReset m') where
  startHash := rfl
  newMessage := rfl
  data _ := rfl
  startPulse := by rw [startPulse_hashReset, startPulse_hashReset]
  messagePulse := by rw [messagePulse_hashReset, messagePulse_hashReset]

/-- The registered versions are those of what is the same. -/
theorem HashSame.edgeRegs (h : HashSame m m') (rows : List (WriteRow (HashReg keys))) (locked : ℕ → Bool)
    (index : ℕ) (w : BitVec 32) : HashSame (Soc.edgeRegs m (writeAt rows locked m index w))
      (Soc.edgeRegs m' (writeAt rows locked m' index w)) where
  startHash := writeAt_congr rows locked index w h.startHash
  newMessage := writeAt_congr rows locked index w h.newMessage
  data k := writeAt_congr rows locked index w (h.data k)
  startPulse := by
    rw [startPulse_edgeRegs, startPulse_edgeRegs, startRaised, startRaised,
      writeAt_congr rows locked index w h.startHash, h.startHash]
  messagePulse := by
    rw [messagePulse_edgeRegs, messagePulse_edgeRegs, messageRaised, messageRaised,
      writeAt_congr rows locked index w h.newMessage, h.newMessage]

theorem HashSame.bigData (h : HashSame m m') : OneHash.bigData m = OneHash.bigData m' :=
  bigData_congr h.data

theorem HashSame.reads (h : HashSame m m') : ∀ row ∈ hashReads keys, ∀ r, row.src = .reg r → m r = m' r := by
  intro row hrow r hr
  obtain ⟨k, rfl⟩ := hashReads_reg hrow hr
  exact h.data k

end Hash

/-! ### SHA-256 -/

/-- A core, or an engine around one, with the core's `t_ctr_reg`. -/
structure Timed (σ : Type) where
  engine : σ
  tCtr : BitVec 6

/-- `t_ctr_reg` after an edge: the rounds end at 63. -/
def tCtrD (core : Hmac.Core) (go : Bool) (t : BitVec 6) : BitVec 6 :=
  match core.ctrl with
  | .idle => if go then 0 else t
  | .rounds => t + 1
  | .done => t

def coreReset : Hmac.Core := ⟨.idle, 0, 0, false⟩

variable (C : BitVec 256 → BitVec 512 → BitVec 256)

def sha256 : Engine .sha256 (Timed Hmac.Core) where
  wires e _ := hashWires e.engine.ready e.engine.digestValid e.engine.digest
  resetD _ _ := ⟨coreReset, 0⟩
  engineD e m :=
    ⟨e.engine.next C (startPulse m) (messagePulse m) (bigData m) (e.tCtr = 63),
     tCtrD e.engine (startPulse m || messagePulse m) e.tCtr⟩

/-- The core is the same, and so is what it sees. -/
def ShaSame (p : State .sha256 (Timed Hmac.Core) × State .sha256 (Timed Hmac.Core)) : Prop :=
  HashSame p.1.file p.2.file ∧ p.1.engine = p.2.engine

variable {C}

theorem sha256_next (p : State .sha256 (Timed Hmac.Core) × State .sha256 (Timed Hmac.Core)) (i : Access)
    (h : ShaSame p) : ShaSame ((sha256 C).pair.next p i) := by
  obtain ⟨hfile, hengine⟩ := h
  constructor
  · show HashSame ((sha256 C).next p.1 i).file ((sha256 C).next p.2 i).file
    cases hw : i.write with
    | true =>
      rw [Engine.file_of_write hw, Engine.file_of_write hw]
      exact hfile.edgeRegs sha256Writes _ _ _
    | false =>
      rw [Engine.file_of_not_write hw, Engine.file_of_not_write hw]
      exact hfile
  · have hstart : startPulse p.1.file = startPulse p.2.file := hfile.startPulse
    have hnew : messagePulse p.1.file = messagePulse p.2.file := hfile.messagePulse
    have hdata : bigData p.1.file = bigData p.2.file := hfile.bigData
    show (⟨p.1.engine.engine.next C (startPulse p.1.file) (messagePulse p.1.file) (bigData p.1.file) _,
        tCtrD p.1.engine.engine (startPulse p.1.file || messagePulse p.1.file) p.1.engine.tCtr⟩ : Timed _) = _
    rw [hstart, hnew, hdata, hengine]
    rfl

/-- Of the SHA-256 block a reset erases everything. -/
theorem sha256_erased (p : State .sha256 (Timed Hmac.Core) × State .sha256 (Timed Hmac.Core))
    (is : List Access) (h0 : (sha256 C).pair.init p) : (sha256 C).pair.Steps (sha256 C).Same p is := by
  refine Machine.steps_of_inv (M := (sha256 C).pair) (P := ShaSame) (fun s i h _ => sha256_next s i h)
    (fun s i h _ => ?_) is p ?_ (Machine.steps_true is p)
  · refine Engine.same_of_reads (E := sha256 C) (p := s) h.1.reads ?_ i
    show hashWires _ _ _ = hashWires _ _ _
    rw [h.2]
  · obtain ⟨s, t, rfl⟩ := Engine.pair_init h0
    exact ⟨hashSame_reset s.file t.file, rfl⟩

/-! ### HMAC -/

def hmac (C : BitVec 256 → BitVec 512 → BitVec 256) : Engine .hmac (Timed Hmac.Regs) where
  wires e _ := hashWires e.engine.ready e.engine.hashValid e.engine.hash
  resetD e _ := ⟨⟨.idle, 0, 0, 0, false, false, false, e.engine.shaInit, e.engine.shaNewMsg,
    e.engine.shaMsg, coreReset⟩, 0⟩
  engineD e m :=
    ⟨e.engine.next C ⟨key m, bigData m, startPulse m, e.tCtr = 63⟩,
     tCtrD e.engine.core (e.engine.shaInit || e.engine.shaNewMsg) e.tCtr⟩

/-- The two engines see the same of their cores: they take the same way. -/
structure Agree (e f : Hmac.Regs) : Prop where
  hashI : e.state = .hashI → e.core.ready = f.core.ready
  hashO : e.state = .hashO → e.core.digestValid = f.core.digestValid ∧
    if e.core.digestValid then (Hmac.ipadWork = e.core.digest ↔ Hmac.ipadWork = f.core.digest)
    else e.core.ready = f.core.ready
  out : e.state = .out → e.workBypass = false → e.core.digestValid = f.core.digestValid

instance (e f : Hmac.Regs) : Decidable (Agree e f) :=
  decidable_of_iff ((e.state = .hashI → e.core.ready = f.core.ready) ∧
      (e.state = .hashO → e.core.digestValid = f.core.digestValid ∧
        if e.core.digestValid then (Hmac.ipadWork = e.core.digest ↔ Hmac.ipadWork = f.core.digest)
        else e.core.ready = f.core.ready) ∧
      (e.state = .out → e.workBypass = false → e.core.digestValid = f.core.digestValid))
    ⟨fun h => ⟨h.1, h.2.1, h.2.2⟩, fun h => ⟨h.hashI, h.hashO, h.out⟩⟩

/-- What the bus sees of the engines is the same, and each works on one message. -/
structure EngineSame (C : BitVec 256 → BitVec 512 → BitVec 256) (e f : Hmac.Regs) : Prop where
  state : e.state = f.state
  hash : e.hash = f.hash
  ready : e.ready = f.ready
  hashValid : e.hashValid = f.hashValid
  workBypass : e.workBypass = f.workBypass
  message : e.state ≠ .idle → ∃ message, (Hmac.Fresh C message e ∨ Hmac.Used e) ∧
    (Hmac.Fresh C message f ∨ Hmac.Used f)

/-- Until it is taken, the message may be any. -/
theorem fresh_of_hashI {message message' : BitVec 512} {e : Hmac.Regs} (hs : e.state = .hashI)
    (h : Hmac.Fresh C message e ∨ Hmac.Used e) : Hmac.Fresh C message' e ∨ Hmac.Used e := by
  refine h.imp_left fun h' => ?_
  unfold Hmac.Fresh at h' ⊢
  simp only [hs] at h' ⊢
  exact h'

/-- The message an operation goes on with. -/
theorem message_next {message : BitVec 512} {e : Hmac.Regs} {i : Hmac.In} (hs : e.state ≠ .idle)
    (hm : e.state = .hashI → i.message = message) (h : Hmac.Fresh C message e ∨ Hmac.Used e) :
    Hmac.Fresh C message (e.next C i) ∨ Hmac.Used (e.next C i) :=
  h.imp (fun h' => h'.next (fun h0 => absurd h0 hs) hm) fun h' => h'.next fun h0 => absurd h0 hs

/-- Two engines that take the same way take a step. -/
theorem EngineSame.next {e f : Hmac.Regs} (h : EngineSame C e f) (ha : Agree e f) {i j : Hmac.In}
    (hinit : i.init = j.init) (hmessage : i.message = j.message) :
    EngineSame C (e.next C i) (f.next C j) := by
  obtain ⟨hstate, hhash, hready, hvalid, hbypass, hmsg⟩ := h
  obtain ⟨haI, haO, haOut⟩ := ha
  have hgoes (hs : e.state ≠ .idle) : ∃ message, (Hmac.Fresh C message (e.next C i) ∨ Hmac.Used (e.next C i)) ∧
      (Hmac.Fresh C message (f.next C j) ∨ Hmac.Used (f.next C j)) := by
    obtain ⟨message, he, hf⟩ := hmsg hs
    have hs' : f.state ≠ .idle := hstate ▸ hs
    by_cases hI : e.state = .hashI
    · exact ⟨i.message, message_next hs (fun _ => rfl) (fresh_of_hashI hI he),
        message_next hs' (fun _ => hmessage.symm) (fresh_of_hashI (hstate ▸ hI) hf)⟩
    · exact ⟨message, message_next hs (fun h => absurd h hI) he,
        message_next hs' (fun h => absurd (hstate.trans h) hI) hf⟩
  cases hs : e.state with
  | idle =>
    have hs' : f.state = .idle := hstate ▸ hs
    refine ⟨?_, ?_, ?_, ?_, ?_, fun hgo => ?_⟩
    · simp [Hmac.Regs.next, Hmac.Regs.step, hs, hs', hinit]
    · simpa [Hmac.Regs.next, Hmac.Regs.step, hs, hs'] using hhash
    · simp [Hmac.Regs.next, Hmac.Regs.step, hs, hs']
    · simp [Hmac.Regs.next, Hmac.Regs.step, hs, hs', hinit, hvalid]
    · simp [Hmac.Regs.next, Hmac.Regs.step, hs, hs']
    · -- an operation starts
      have hi : i.init = true := by
        by_contra hi
        exact hgo (by simp [Hmac.Regs.next, Hmac.Regs.step, hs, hi])
      obtain ⟨ik, im, ii, ifin⟩ := i
      obtain ⟨jk, jm, ji, jfin⟩ := j
      dsimp only at hi hinit hmessage
      subst hi hmessage hinit
      refine ⟨im, ?_, ?_⟩
      · exact (Hmac.fresh_or_used (C := C) hs im).imp (fun h => h ik ifin) fun h => h ik ifin
      · exact (Hmac.fresh_or_used (C := C) hs' im).imp (fun h => h jk jfin) fun h => h jk jfin
  | pad =>
    have hs' : f.state = .pad := hstate ▸ hs
    refine ⟨?_, ?_, ?_, ?_, ?_, fun _ => hgoes (by simp [hs])⟩ <;>
      simp [Hmac.Regs.next, Hmac.Regs.step, hs, hs', hhash, hready, hvalid, hbypass]
  | hashI =>
    have hs' : f.state = .hashI := hstate ▸ hs
    cases hr : e.core.ready <;> have hr' := (haI hs).symm.trans hr <;>
      refine ⟨?_, ?_, ?_, ?_, ?_, fun _ => hgoes (by simp [hs])⟩ <;>
        simp [Hmac.Regs.next, Hmac.Regs.step, hs, hs', hr, hr', hhash, hready, hvalid, hbypass]
  | hashO =>
    have hs' : f.state = .hashO := hstate ▸ hs
    obtain ⟨hd, hcase⟩ := haO hs
    cases hv : e.core.digestValid with
    | true =>
      have hv' := hd.symm.trans hv
      rw [hv, if_pos rfl] at hcase
      by_cases hw : Hmac.ipadWork = e.core.digest
      · have hw' := hcase.1 hw
        refine ⟨?_, ?_, ?_, ?_, ?_, fun _ => hgoes (by simp [hs])⟩ <;>
          simp [Hmac.Regs.next, Hmac.Regs.step, hs, hs', hv, hv', ← hw, ← hw', hhash, hready, hvalid]
      · have hw' : Hmac.ipadWork ≠ f.core.digest := fun h => hw (hcase.2 h)
        refine ⟨?_, ?_, ?_, ?_, ?_, fun _ => hgoes (by simp [hs])⟩ <;>
          simp [Hmac.Regs.next, Hmac.Regs.step, hs, hs', hv, hv', hw, hw', hhash, hready, hvalid, hbypass]
    | false =>
      have hv' := hd.symm.trans hv
      rw [hv, if_neg Bool.false_ne_true] at hcase
      cases hr : e.core.ready <;> have hr' := hcase.symm.trans hr <;>
        refine ⟨?_, ?_, ?_, ?_, ?_, fun _ => hgoes (by simp [hs])⟩ <;>
          simp [Hmac.Regs.next, Hmac.Regs.step, hs, hs', hv, hv', hr, hr', hhash, hready, hvalid, hbypass]
  | out =>
    have hs' : f.state = .out := hstate ▸ hs
    cases hb : e.workBypass with
    | true =>
      have hb' := hbypass.symm.trans hb
      refine ⟨?_, ?_, ?_, ?_, ?_, fun _ => hgoes (by simp [hs])⟩ <;>
        simp [Hmac.Regs.next, Hmac.Regs.step, hs, hs', hb, hb', hready]
    | false =>
      have hb' := hbypass.symm.trans hb
      have hd := haOut hs hb
      cases hv : e.core.digestValid with
      | true =>
        have hv' := hd.symm.trans hv
        obtain ⟨message, he, hf⟩ := hmsg (by simp [hs])
        have hdigest : e.core.digest = f.core.digest :=
          (Hmac.digest_of_out hs hb he hv).trans (Hmac.digest_of_out hs' hb' hf hv').symm
        refine ⟨?_, ?_, ?_, ?_, ?_, fun _ => hgoes (by simp [hs])⟩ <;>
          simp [Hmac.Regs.next, Hmac.Regs.step, hs, hs', hb, hb', hv, hv', hdigest, hready]
      | false =>
        have hv' := hd.symm.trans hv
        refine ⟨?_, ?_, ?_, ?_, ?_, fun _ => hgoes (by simp [hs])⟩ <;>
          simp [Hmac.Regs.next, Hmac.Regs.step, hs, hs', hb, hb', hv, hv', hhash, hready, hvalid]

/-- What the two runs of the HMAC block keep. -/
structure HmacSame (C : BitVec 256 → BitVec 512 → BitVec 256)
    (p : State .hmac (Timed Hmac.Regs) × State .hmac (Timed Hmac.Regs)) : Prop where
  file : HashSame p.1.file p.2.file
  engine : EngineSame C p.1.engine.engine p.2.engine.engine

theorem hmac_next (p : State .hmac (Timed Hmac.Regs) × State .hmac (Timed Hmac.Regs)) (i : Access)
    (h : HmacSame C p) (ha : Agree p.1.engine.engine p.2.engine.engine) :
    HmacSame C ((hmac C).pair.next p i) := by
  refine ⟨?_, h.engine.next ha h.file.startPulse h.file.bigData⟩
  show HashSame ((hmac C).next p.1 i).file ((hmac C).next p.2 i).file
  cases hw : i.write with
  | true =>
    rw [Engine.file_of_write hw, Engine.file_of_write hw]
    exact h.file.edgeRegs hmacWrites _ _ _
  | false =>
    rw [Engine.file_of_not_write hw, Engine.file_of_not_write hw]
    exact h.file

/-- The runs of the HMAC block look the same as long as the engine sees the same of its core. -/
theorem hmac_erased (p : State .hmac (Timed Hmac.Regs) × State .hmac (Timed Hmac.Regs))
    (is : List Access) (h0 : (hmac C).pair.init p)
    (ha : (hmac C).pair.Steps (fun p _ => Agree p.1.engine.engine p.2.engine.engine) p is) :
    (hmac C).pair.Steps (hmac C).Same p is := by
  refine Machine.steps_of_inv (M := (hmac C).pair) (P := HmacSame C) (fun p i h ha => hmac_next p i h ha)
    (fun p i h _ => ?_) is p ?_ ha
  · refine Engine.same_of_reads (E := hmac C) (p := p) h.file.reads ?_ i
    show hashWires _ _ _ = hashWires _ _ _
    rw [h.engine.ready, h.engine.hashValid, h.engine.hash]
  · obtain ⟨s, t, rfl⟩ := Engine.pair_init h0
    exact ⟨hashSame_reset s.file t.file, rfl, rfl, rfl, rfl, rfl, fun hne => absurd rfl hne⟩

/-! ### AES -/

/-- The registers a reset leaves. -/
def isKey : AesReg → Bool
  | .key0 _ | .key1 _ | .key2 _ | .keySel => true
  | _ => false

section Aes

variable (m : File (width .aes))

/-- `p_c_big`. -/
def pcBig : BitVec 128 :=
  let d : Fin 4 → BitVec 32 := fun k => m (.pc k)
  d 0 ++ d 1 ++ d 2 ++ d 3

/-- `state_big`. -/
def stateBig : BitVec 128 :=
  let d : Fin 4 → BitVec 32 := fun k => m (.state k)
  d 0 ++ d 1 ++ d 2 ++ d 3

/-- `key_big`. -/
def keyBig : BitVec 192 :=
  let k : Fin 6 → BitVec 32 := fun j =>
    if (m .keySel).getLsbD 1 then m (.key2 j) else if (m .keySel).getLsbD 0 then m (.key1 j) else m (.key0 j)
  k 0 ++ k 1 ++ k 2 ++ k 3 ++ k 4 ++ k 5

def aesStart : Bool := (m .start).getLsbD 0

def aesIn : Aes.In := ⟨aesStart m, stateBig m, keyBig m⟩

end Aes

/-- `aes_192_sed` is not reset: it runs on under the reset of the block. -/
def aes : Engine .aes Aes.Regs where
  wires e m
    | .ctValid => (BitVec.ofBool e.outValid).setWidth 32
    | .ct k => (pcBig m ^^^ e.out).extractLsb' (32 * k) 32
  resetD e m := e.next (aesIn m)
  engineD e m := e.next (aesIn m)

/-- At a rising edge of `start` the same key is selected. -/
def SameKey (p : State .aes Aes.Regs × State .aes Aes.Regs) (_ : Access) : Prop :=
  p.1.engine.startPosedge (aesStart p.1.file) = true → keyBig p.1.file = keyBig p.2.file

instance (p : State .aes Aes.Regs × State .aes Aes.Regs) (i : Access) : Decidable (SameKey p i) :=
  inferInstanceAs (Decidable (_ → _))

/-- What the two runs of the AES block keep. -/
structure AesSame (p : State .aes Aes.Regs × State .aes Aes.Regs) : Prop where
  file : ∀ r, isKey r = false → p.1.file r = p.2.file r
  engine : p.1.engine.held = p.2.engine.held
  edge : p.1.engine.startPosedge (aesStart p.1.file) = p.2.engine.startPosedge (aesStart p.2.file)

theorem AesSame.start {p : State .aes Aes.Regs × State .aes Aes.Regs} (h : AesSame p) :
    aesStart p.1.file = aesStart p.2.file := by
  rw [aesStart, aesStart, h.file .start rfl]

theorem AesSame.pcBig {p : State .aes Aes.Regs × State .aes Aes.Regs} (h : AesSame p) :
    pcBig p.1.file = pcBig p.2.file := by
  have hk (k : Fin 4) : p.1.file (.pc k) = p.2.file (.pc k) := h.file (.pc k) rfl
  simp only [Erasure.pcBig, hk]

theorem AesSame.stateBig {p : State .aes Aes.Regs × State .aes Aes.Regs} (h : AesSame p) :
    stateBig p.1.file = stateBig p.2.file := by
  have hk (k : Fin 4) : p.1.file (.state k) = p.2.file (.state k) := h.file (.state k) rfl
  simp only [Erasure.stateBig, hk]

theorem aes_next (p : State .aes Aes.Regs × State .aes Aes.Regs) (i : Access) (h : AesSame p)
    (hk : SameKey p i) : AesSame (aes.pair.next p i) := by
  have hengine : p.1.engine.next (aesIn p.1.file) = p.2.engine.next (aesIn p.2.file) := by
    refine Aes.Regs.next_congr h.engine h.start h.edge fun hload => ?_
    rw [aesIn, aesIn, h.start, h.stateBig, hk hload]
  have hfile : ∀ r, isKey r = false → (aes.next p.1 i).file r = (aes.next p.2 i).file r := by
    intro r hr
    cases hw : i.write with
    | true =>
      rw [Engine.file_of_write hw, Engine.file_of_write hw]
      exact writeAt_congr aesWrites _ _ _ (h.file r hr)
    | false =>
      rw [Engine.file_of_not_write hw, Engine.file_of_not_write hw]
      exact h.file r hr
  refine ⟨hfile, congrArg Aes.Regs.held hengine, ?_⟩
  show (p.1.engine.next (aesIn p.1.file)).startPosedge (aesStart (aes.next p.1 i).file) =
    (p.2.engine.next (aesIn p.2.file)).startPosedge (aesStart (aes.next p.2 i).file)
  rw [hengine, aesStart, aesStart, hfile .start rfl]

theorem aesReads_isKey : ∀ row ∈ aesReads, ∀ r, row.src = .reg r → isKey r = false := by
  intro row hrow r hr
  simp only [aesReads, List.mem_cons, List.not_mem_nil, or_false] at hrow
  rcases hrow with rfl | rfl | rfl | rfl | rfl | rfl | rfl | rfl | rfl | rfl <;> cases hr <;> rfl

/-- The runs of the AES block look the same if the engines hold the same after the reset and take the
same keys. -/
theorem aes_erased (p : State .aes Aes.Regs × State .aes Aes.Regs) (is : List Access)
    (h0 : aes.pair.init p) (hheld : p.1.engine.held = p.2.engine.held) (hk : aes.pair.Steps SameKey p is) :
    aes.pair.Steps aes.Same p is := by
  refine Machine.steps_of_inv (M := aes.pair) (P := AesSame) (fun p i h hk => aes_next p i h hk)
    (fun p i h _ => ?_) is p ⟨?_, hheld, ?_⟩ hk
  · refine Engine.same_of_reads (E := aes) (p := p)
      (fun row hrow r hr => h.file r (aesReads_isKey row hrow r hr)) ?_ i
    funext w
    cases w with
    | ctValid =>
      have hcounter := congrArg Aes.Regs.validCounter h.engine
      show (BitVec.ofBool (decide (p.1.engine.held.validCounter = 0))).setWidth 32 = _
      rw [hcounter]
      rfl
    | ct k =>
      have hfinal := congrArg Aes.Regs.final h.engine
      show (pcBig p.1.file ^^^ p.1.engine.held.final.stateOut).extractLsb' (32 * k) 32 = _
      rw [hfinal, h.pcBig]
      rfl
  · obtain ⟨s, t, rfl⟩ := Engine.pair_init h0
    intro r hr
    cases r with
    | start => rfl
    | pc k => rfl
    | state k => rfl
    | key0 k => cases hr
    | key1 k => cases hr
    | key2 k => cases hr
    | keySel => cases hr
  · obtain ⟨s, t, rfl⟩ := Engine.pair_init h0
    have hlow (s : State .aes Aes.Regs) :
        (aes.reset s).engine.startPosedge (aesStart (aes.reset s).file) = false := by
      show ((0 : BitVec 1).getLsbD 0 && _) = false
      simp
    exact (hlow s).trans (hlow t).symm

/-! ### All three -/

/-- **What a reset erases.** Two runs of a block from any two contents look the same after the same
reset and accesses: those of SHA-256 always, those of HMAC as long as the engine sees the same of its
core, those of AES if the engine holds the same after the reset and takes the same keys. -/
theorem erased (C : BitVec 256 → BitVec 512 → BitVec 256) :
    (∀ p is, (sha256 C).pair.init p → (sha256 C).pair.Steps (sha256 C).Same p is) ∧
    (∀ p is, (hmac C).pair.init p →
      (hmac C).pair.Steps (fun p _ => Agree p.1.engine.engine p.2.engine.engine) p is →
      (hmac C).pair.Steps (hmac C).Same p is) ∧
    ∀ p is, aes.pair.init p → p.1.engine.held = p.2.engine.held → aes.pair.Steps SameKey p is →
      aes.pair.Steps aes.Same p is :=
  ⟨sha256_erased, hmac_erased, aes_erased⟩

/-- A write of 1 to word 0. -/
def Access.start : Access := ⟨0, true, 0, 1⟩

/-- A read of the word at `addr`. -/
def Access.read (addr : BitVec 32) : Access := ⟨0, false, addr, 0⟩

/-- The HMAC block before a reset, with a start of the core pending or not. -/
def hmacBefore (pending : Bool) : State .hmac (Timed Hmac.Regs) :=
  ⟨fun _ => 0, ⟨{ Hmac.Regs.reset with shaInit := pending }, 0⟩⟩

/-- The AES block before a reset, with a word of the first key. -/
def aesBefore (word : BitVec 32) : State .aes Aes.Regs :=
  ⟨Function.update (fun _ => 0) (.key0 5 : AesReg) word, Aes.Regs.zero⟩

def hmacPair (a b : Bool) : State .hmac (Timed Hmac.Regs) × State .hmac (Timed Hmac.Regs) :=
  ((hmac Sha256.compress).reset (hmacBefore a), (hmac Sha256.compress).reset (hmacBefore b))

def aesPair (v w : BitVec 32) : State .aes Aes.Regs × State .aes Aes.Regs :=
  (aes.reset (aesBefore v), aes.reset (aesBefore w))

def hmacTrace : List Access := Access.start :: List.replicate 70 (.read 68)

def aesTrace : List Access := Access.start :: List.replicate 26 (.read 48)

/-- The HMAC block at the end of an operation with another key and message. -/
def hmacUsed : State .hmac (Timed Hmac.Regs) :=
  ⟨fun _ => 1, ⟨⟨.out, 1, 1, 1, false, true, true, false, false, 1, ⟨.rounds, 1, 1, true⟩⟩, 5⟩⟩

/-- The AES block under a start, with another counter, block and keys, but the first key. -/
def aesUsed : State .aes Aes.Regs where
  file
    | .key0 _ | .keySel => 0
    | _ => 1
  engine := { Aes.Regs.zero with startR := true }

def hmacUsedPair : State .hmac (Timed Hmac.Regs) × State .hmac (Timed Hmac.Regs) :=
  ((hmac Sha256.compress).reset (hmacBefore false), (hmac Sha256.compress).reset hmacUsed)

def aesUsedPair : State .aes Aes.Regs × State .aes Aes.Regs :=
  (aes.reset (aesBefore 0), aes.reset aesUsed)

/-- A whole operation after the reset, from two different contents. -/
theorem erased_short :
    ((hmac Sha256.compress).pair.Steps (hmac Sha256.compress).Same hmacUsedPair (hmacTrace ++ [.read 68]) ∧
        ((hmac Sha256.compress).pair.run hmacUsedPair hmacTrace).2.engine.engine.hashValid = true) ∧
      aes.pair.Steps aes.Same aesUsedPair (aesTrace ++ [.read 48]) ∧
        (aes.pair.run aesUsedPair [.start, .read 48]).2.engine.outValid = false ∧
        (aes.pair.run aesUsedPair aesTrace).2.engine.outValid = true := by
  refine ⟨⟨(erased Sha256.compress).2.1 _ _ ⟨_, _, 0, rfl⟩ ?_, ?_⟩,
    (erased Sha256.compress).2.2 _ _ ⟨_, _, 0, rfl⟩ rfl ?_, ?_, ?_⟩ <;> decide +kernel

/-- A start of the core that was pending before the reset keeps the engine from the digest of the
first operation after it. A key from before the reset encrypts after it: word 0 of the result, 26
edges after the start. -/
theorem not_erased :
    (¬(hmac Sha256.compress).pair.Steps (hmac Sha256.compress).Same (hmacPair false true)
        (hmacTrace ++ [.read 68])) ∧
      ¬aes.pair.Steps aes.Same (aesPair 0 1) (aesTrace ++ [.read 48]) := by
  refine ⟨fun h => ?_, fun h => ?_⟩
  · have hsame := ((Machine.steps_append hmacTrace [.read 68] _).1 h).2.1.1
    revert hsame
    decide +kernel
  · have hsame := ((Machine.steps_append aesTrace [.read 48] _).1 h).2.1.1
    revert hsame
    decide +kernel

end Erasure
end Soc
end Ariane

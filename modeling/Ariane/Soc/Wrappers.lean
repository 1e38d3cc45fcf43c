/-
# The locked register blocks

The wrappers of the access-control registers and of the AES, HMAC and SHA-256
engines (`acct_wrapper.sv`, `aes_wrapper.sv`, `hmac_wrapper.sv`,
`sha256_wrapper.sv`), as the bus sees them: their `case` items are the rows of
`writes` and `reads`, in the order of the source. The engines behind them drive
wires; eight lock bits come from the lock registers.

`Enforced` is what the lock bits are for. Two things go wrong:

* the words of master 0 in the access-control registers are guarded by bit 15 of
  the lock bits, of which there are eight;
* any write to the HMAC or SHA-256 block moves its edge-detect registers.

`enforced_iff` says that these are the only ones.
-/
import Ariane.Lib.LockedRegs
import Ariane.Lib.Machine
import Ariane.Soc.Pkg
import Mathlib.Tactic.Common

namespace Ariane
namespace Soc

open Lib

/-! ### Registers and wires -/

/-- The blocks that take lock bits. -/
inductive Blk
  | acct | aes | hmac | sha256
deriving DecidableEq, Repr

/-- The words of `acct_mem`, `AcCt_MEM_SIZE` of them. -/
abbrev AcctReg : Type := Fin (3 * nrSlaves)

/-- The words past the end of `acct_mem`, which have rows too. -/
abbrev AcctWire : Type := Fin 3

/-- The registers of `aes_wrapper`. -/
inductive AesReg
  | start | pc (k : Fin 4) | key0 (k : Fin 6) | state (k : Fin 4) | key1 (k : Fin 6)
  | key2 (k : Fin 6) | keySel
deriving DecidableEq

/-- What the AES engine drives: `ct_valid`, and `ct` word by word. -/
inductive AesWire
  | ctValid | ct (k : Fin 4)
deriving DecidableEq

/-- The registers of `hmac_wrapper`, with eight words of key, and of
`sha256_wrapper`, with none. -/
inductive HashReg (keys : ℕ)
  | startHash | newMessage | data (k : Fin 16) | key0 (k : Fin keys) | startHashR | newMessageR
deriving DecidableEq

/-- What the hash engines drive: `ready`, `hashValid`, and `hash` word by word. -/
inductive HashWire
  | ready | hashValid | hash (k : Fin 8)
deriving DecidableEq

def HashReg.width (keys : ℕ) : HashReg keys → ℕ
  | data _ => 32
  | key0 _ => 32
  | _ => 1

/-- The registers of a block. -/
def Reg : Blk → Type
  | .acct => AcctReg
  | .aes => AesReg
  | .hmac => HashReg 8
  | .sha256 => HashReg 0

instance : ∀ b, DecidableEq (Reg b)
  | .acct => inferInstanceAs (DecidableEq AcctReg)
  | .aes => inferInstanceAs (DecidableEq AesReg)
  | .hmac => inferInstanceAs (DecidableEq (HashReg 8))
  | .sha256 => inferInstanceAs (DecidableEq (HashReg 0))

def width : (b : Blk) → Reg b → ℕ
  | .acct, _ => 32
  | .aes, .start => 1
  | .aes, .keySel => 2
  | .aes, _ => 32
  | .hmac, r => HashReg.width 8 r
  | .sha256, r => HashReg.width 0 r

/-- What a block shows besides its registers. -/
def Wire : Blk → Type
  | .acct => AcctWire
  | .aes => AesWire
  | .hmac => HashWire
  | .sha256 => HashWire

instance : ∀ b, DecidableEq (Wire b)
  | .acct => inferInstanceAs (DecidableEq AcctWire)
  | .aes => inferInstanceAs (DecidableEq AesWire)
  | .hmac => inferInstanceAs (DecidableEq HashWire)
  | .sha256 => inferInstanceAs (DecidableEq HashWire)

/-! ### The address maps -/

def acctWrites : List (WriteRow AcctReg) :=
  [⟨0, 0, 15, 0⟩, ⟨1, 1, 15, 0⟩, ⟨2, 2, 15, 0⟩,
   ⟨3, 3, 3, 0⟩, ⟨4, 4, 3, 0⟩, ⟨5, 5, 3, 0⟩,
   ⟨6, 6, 1, 0⟩, ⟨7, 7, 1, 0⟩, ⟨8, 8, 1, 0⟩]

def acctReads : List (ReadRow AcctReg AcctWire) :=
  [⟨0, .reg 0, 4⟩, ⟨1, .reg 1, 4⟩, ⟨2, .reg 2, 4⟩,
   ⟨3, .reg 3, 2⟩, ⟨4, .reg 4, 2⟩, ⟨5, .reg 5, 2⟩,
   ⟨6, .reg 6, 0⟩, ⟨7, .reg 7, 0⟩, ⟨8, .reg 8, 0⟩,
   ⟨9, .wire 0, 6⟩, ⟨10, .wire 1, 6⟩, ⟨11, .wire 2, 6⟩]

def aesWrites : List (WriteRow AesReg) :=
  [⟨0, .start, 1, 0⟩,
   ⟨1, .pc 3, 3, 0⟩, ⟨2, .pc 2, 3, 0⟩, ⟨3, .pc 1, 3, 0⟩, ⟨4, .pc 0, 3, 0⟩,
   ⟨5, .key0 5, 5, 0⟩, ⟨6, .key0 4, 5, 0⟩, ⟨7, .key0 3, 5, 0⟩, ⟨8, .key0 2, 5, 0⟩,
   ⟨9, .key0 1, 5, 0⟩, ⟨10, .key0 0, 5, 0⟩,
   ⟨16, .state 3, 7, 0⟩, ⟨17, .state 2, 7, 0⟩, ⟨18, .state 1, 7, 0⟩, ⟨19, .state 0, 7, 0⟩,
   ⟨20, .key1 5, 5, 0⟩, ⟨21, .key1 4, 5, 0⟩, ⟨22, .key1 3, 5, 0⟩, ⟨23, .key1 2, 5, 0⟩,
   ⟨24, .key1 1, 5, 0⟩, ⟨25, .key1 0, 5, 0⟩,
   ⟨26, .key2 5, 5, 0⟩, ⟨27, .key2 4, 5, 0⟩, ⟨28, .key2 3, 5, 0⟩, ⟨29, .key2 2, 5, 0⟩,
   ⟨30, .key2 1, 5, 0⟩, ⟨31, .key2 0, 5, 0⟩,
   ⟨32, .keySel, 5, 0⟩]

def aesReads : List (ReadRow AesReg AesWire) :=
  [⟨0, .reg .start, 0⟩,
   ⟨1, .reg (.pc 3), 2⟩, ⟨2, .reg (.pc 2), 2⟩, ⟨3, .reg (.pc 1), 2⟩, ⟨4, .reg (.pc 0), 2⟩,
   ⟨11, .wire .ctValid, 6⟩,
   ⟨12, .wire (.ct 0), 4⟩, ⟨13, .wire (.ct 1), 4⟩, ⟨14, .wire (.ct 2), 4⟩, ⟨15, .wire (.ct 3), 4⟩]

/-- The rows the two hash blocks share. -/
def hashWrites (keys : ℕ) : List (WriteRow (HashReg keys)) :=
  [⟨0, .startHash, 1, 0⟩, ⟨0, .newMessage, 1, 1⟩] ++
    (List.finRange 16).map fun k => ⟨k.val + 1, .data k, 3, 0⟩

def hmacWrites : List (WriteRow (HashReg 8)) :=
  hashWrites 8 ++
  [⟨26, .key0 7, 5, 0⟩, ⟨27, .key0 6, 5, 0⟩, ⟨28, .key0 5, 5, 0⟩, ⟨29, .key0 4, 5, 0⟩,
   ⟨30, .key0 3, 5, 0⟩, ⟨31, .key0 2, 5, 0⟩, ⟨32, .key0 1, 5, 0⟩, ⟨33, .key0 0, 5, 0⟩]

def sha256Writes : List (WriteRow (HashReg 0)) := hashWrites 0

def hashReads (keys : ℕ) : List (ReadRow (HashReg keys) HashWire) :=
  [⟨0, .wire .ready, 0⟩] ++
    ((List.finRange 16).map fun k => ⟨k.val + 1, .reg (.data k), 2⟩) ++
    [⟨17, .wire .hashValid, 0⟩] ++
    (List.finRange 8).map fun k => ⟨k.val + 18, .wire (.hash k), 4⟩

def writes : (b : Blk) → List (WriteRow (Reg b))
  | .acct => acctWrites
  | .aes => aesWrites
  | .hmac => hmacWrites
  | .sha256 => sha256Writes

def reads : (b : Blk) → List (ReadRow (Reg b) (Wire b))
  | .acct => acctReads
  | .aes => aesReads
  | .hmac => hashReads 8
  | .sha256 => hashReads 0

/-- The address bits the write side decodes. -/
def writeIndex (addr : BitVec 32) : Blk → ℕ
  | .acct => (addr.extractLsb' 2 8).toNat
  | .aes => (addr.extractLsb' 2 7).toNat
  | .hmac => (addr.extractLsb' 2 6).toNat
  | .sha256 => (addr.extractLsb' 2 5).toNat

/-- The address bits the read side decodes. -/
def readIndex (addr : BitVec 32) : Blk → ℕ
  | .acct => (addr.extractLsb' 2 8).toNat
  | .aes => (addr.extractLsb' 2 7).toNat
  | .hmac => (addr.extractLsb' 2 5).toNat
  | .sha256 => (addr.extractLsb' 2 5).toNat

/-! ### A cycle -/

/-- The bus of a block in a cycle, its lock bits and its wires. -/
structure BusIn (b : Blk) where
  lk : BitVec 8
  write : Bool
  addr : BitVec 32
  wdata : BitVec 32
  wires : Wire b → BitVec 32

/-- The lock bits as the block indexes them: `acct_wrapper` widens them to 16. -/
def locked : Blk → BitVec 8 → ℕ → Bool
  | .acct, lk => (lk.setWidth 16).getLsbD
  | _, lk => lk.getLsbD

/-- The registered versions of `startHash` and `newMessage`, which every write of a
hash block takes over. -/
def edgeRegs {keys : ℕ} (old m : File (HashReg.width keys)) : File (HashReg.width keys)
  | .startHashR => old .startHash
  | .newMessageR => old .newMessage
  | r => m r

/-- What a write assigns outside the `case`. -/
def edges : (b : Blk) → (old m : File (width b)) → File (width b)
  | .acct, _, m => m
  | .aes, _, m => m
  | .hmac, old, m => edgeRegs old m
  | .sha256, old, m => edgeRegs old m

/-- The registers of a block after a clock edge. -/
def blkNext (b : Blk) (m : File (width b)) (i : BusIn b) : File (width b) :=
  if i.write then
    edges b m (writeAt (writes b) (locked b i.lk) m (writeIndex i.addr b) i.wdata)
  else m

/-- `rdata`. -/
def rdata (b : Blk) (m : File (width b)) (i : BusIn b) : BitVec 32 :=
  readAt (reads b) (locked b i.lk) m i.wires (readIndex i.addr b)

/-- The registers a reset of a hash block clears. -/
def hashReset {keys : ℕ} (m : File (HashReg.width keys)) : File (HashReg.width keys)
  | .startHash => 0
  | .newMessage => 0
  | .data _ => 0
  | .key0 k => m (.key0 k)
  | .startHashR => m .startHashR
  | .newMessageR => m .newMessageR

/-- The registers after `rst_ni`, which opens all of `acct_mem` and leaves keys and
edge-detect registers as they were. -/
def blkReset : (b : Blk) → File (width b) → File (width b)
  | .acct, _ => fun _ => BitVec.allOnes 32
  | .aes, m => fun
    | .start => (0 : BitVec 1)
    | .pc _ => (0 : BitVec 32)
    | .state _ => (0 : BitVec 32)
    | r => m r
  | .hmac, m => hashReset m
  | .sha256, m => hashReset m

def blkMachine (b : Blk) : Machine (File (width b)) (BusIn b) :=
  ⟨fun m => ∃ m₀, m = blkReset b m₀, blkNext b⟩

/-! ### What the lock bits are for -/

/-- The lock bit next to the one that hides a register from reads keeps its value. -/
def Paired (b : Blk) (m : File (width b)) (i : BusIn b) : Prop :=
  ∀ row ∈ reads b, ∀ r k, row.src = .reg r → row.lock = 2 * k → i.lk.getLsbD (2 * k + 1) = true →
    blkNext b m i r = m r

/-- All lock bits set: no access of the run changes a register, and every read is
zero. And each register is kept by the lock bit next to the one that hides it. -/
structure Enforced (b : Blk) (m : File (width b)) (is : List (BusIn b)) : Prop where
  frozen : ∀ pre mid post, is = pre ++ mid ++ post → (∀ i ∈ mid, i.lk = BitVec.allOnes 8) →
    (blkMachine b).run m (pre ++ mid) = (blkMachine b).run m pre
  silent : (blkMachine b).Steps (fun m i => i.lk = BitVec.allOnes 8 → rdata b m i = 0) m is
  paired : (blkMachine b).Steps (Paired b) m is

def EdgesIdle {keys : ℕ} (m : File (HashReg.width keys)) : Prop :=
  m .startHashR = m .startHash ∧ m .newMessageR = m .newMessage

/-- In a hash block the edge-detect registers are up to date. -/
def Idle : (b : Blk) → File (width b) → Prop
  | .acct, _ => True
  | .aes, _ => True
  | .hmac, m => EdgesIdle m
  | .sha256, m => EdgesIdle m

/-- The cycle stays off the two defects: it does not write another value to a
word of master 0 that is meant to be locked, nor write to a locked hash block whose
edge-detect registers are behind. -/
def Meets : (b : Blk) → File (width b) → BusIn b → Prop
  | .acct, m, i => i.write = true → i.lk.getLsbD 5 = true → ∀ k : AcctReg, k.val < 3 →
      writeIndex i.addr .acct = k.val → i.wdata = m k
  | b, m, i => i.write = true → i.lk = BitVec.allOnes 8 → Idle b m

/-! ### The rows and their lock bits -/

theorem locked_eq (b : Blk) (lk : BitVec 8) {k : ℕ} (hk : k < 8) : locked b lk k = lk.getLsbD k := by
  cases b with
  | acct =>
    show (lk.setWidth 16).getLsbD k = lk.getLsbD k
    rw [BitVec.getLsbD_setWidth, decide_eq_true (by omega : k < 16), Bool.true_and]
  | _ => rfl

theorem locked_allOnes (b : Blk) {k : ℕ} (hk : k < 8) : locked b (BitVec.allOnes 8) k = true := by
  rw [locked_eq b _ hk, BitVec.getLsbD_allOnes, decide_eq_true hk]

/-- The lock bit of master 0 does not exist. -/
theorem locked_acct_zero (lk : BitVec 8) : locked .acct lk 15 = false := by
  show (lk.setWidth 16).getLsbD 15 = false
  rw [BitVec.getLsbD_setWidth, BitVec.getLsbD_of_ge lk 15 (by omega), Bool.and_false]

theorem reads_lock_lt : ∀ b, ∀ row ∈ reads b, row.lock < 8
  | .acct => by decide
  | .aes => by decide
  | .hmac => by decide
  | .sha256 => by decide

theorem writes_lock_lt : ∀ b, b ≠ .acct → ∀ row ∈ writes b, row.lock < 8
  | .acct => fun h => absurd rfl h
  | .aes => fun _ => by decide
  | .hmac => fun _ => by decide
  | .sha256 => fun _ => by decide

/-- The write lock of a word of `acct_mem`. -/
def acctLock (k : AcctReg) : ℕ := if k.val < 3 then 15 else if k.val < 6 then 3 else 1

theorem acctWrites_row : ∀ row ∈ acctWrites, row.index = row.reg.val ∧ row.lock = acctLock row.reg := by
  decide

theorem rdata_of_locked (b : Blk) (m : File (width b)) (i : BusIn b) (hlk : i.lk = BitVec.allOnes 8) :
    rdata b m i = 0 := by
  apply read_of_locked
  intro row hrow
  rw [hlk]
  exact locked_allOnes b (reads_lock_lt b row hrow)

/-! ### One cycle -/

section Hash

variable {keys : ℕ}

theorem edgeRegs_self_iff (m : File (HashReg.width keys)) : edgeRegs m m = m ↔ EdgesIdle m := by
  constructor
  · intro h
    exact ⟨(congrFun h .startHashR).symm, (congrFun h .newMessageR).symm⟩
  · rintro ⟨h1, h2⟩
    funext r
    cases r with
    | startHashR => exact h1.symm
    | newMessageR => exact h2.symm
    | _ => rfl

theorem hashReads_reg {row : ReadRow (HashReg keys) HashWire} (hrow : row ∈ hashReads keys)
    {r : HashReg keys} (hr : row.src = .reg r) : ∃ k, r = .data k := by
  simp only [hashReads, List.mem_append, List.mem_map, List.mem_singleton] at hrow
  rcases hrow with ((rfl | ⟨k, -, rfl⟩) | rfl) | ⟨k, -, rfl⟩
  · cases hr
  · exact ⟨k, (Src.reg.inj hr).symm⟩
  · cases hr
  · cases hr

end Hash

theorem edges_self_iff : ∀ (b : Blk) (m : File (width b)), edges b m m = m ↔ Idle b m
  | .acct, _ => iff_of_true rfl trivial
  | .aes, _ => iff_of_true rfl trivial
  | .hmac, m => edgeRegs_self_iff m
  | .sha256, m => edgeRegs_self_iff m

/-- The edge-detect registers cannot be read. -/
theorem edges_apply (b : Blk) (old m : File (width b)) {row : ReadRow (Reg b) (Wire b)}
    (hrow : row ∈ reads b) {r : Reg b} (hr : row.src = .reg r) : edges b old m r = m r := by
  cases b with
  | acct => rfl
  | aes => rfl
  | hmac =>
    obtain ⟨k, rfl⟩ := hashReads_reg hrow hr
    rfl
  | sha256 =>
    obtain ⟨k, rfl⟩ := hashReads_reg hrow hr
    rfl

/-- A register that can be read is written under the next lock bit, those of master
0 apart. -/
theorem write_lock_of_read : ∀ b, ∀ row ∈ reads b, ∀ wrow ∈ writes b, row.src = .reg wrow.reg →
    wrow.lock = row.lock + 1 ∨ wrow.lock = 15 ∧ row.lock = 4
  | .acct => by decide
  | .aes => by decide
  | .hmac => by decide
  | .sha256 => by decide

theorem blkNext_apply_of_locked (b : Blk) (m : File (width b)) (i : BusIn b)
    {row : ReadRow (Reg b) (Wire b)} (hrow : row ∈ reads b) {r : Reg b} (hr : row.src = .reg r)
    (h : ∀ wrow ∈ writes b, wrow.index = writeIndex i.addr b → wrow.reg = r →
      locked b i.lk wrow.lock = true) : blkNext b m i r = m r := by
  unfold blkNext
  split
  · rw [edges_apply b m _ hrow hr]
    exact write_apply_of_locked h m i.wdata
  · rfl

/-- But for the access-control registers, every write is under one of the eight lock
bits, and the pairs are right. -/
theorem paired_of_ne {b : Blk} (hb : b ≠ .acct) (m : File (width b))
    (i : BusIn b) : Paired b m i := by
  intro row hrow r k hr hk hlk
  apply blkNext_apply_of_locked b m i hrow hr
  rintro wrow hwrow - rfl
  have hlt := writes_lock_lt b hb wrow hwrow
  rcases write_lock_of_read b row hrow wrow hwrow hr with h | ⟨h, -⟩
  · rw [locked_eq b _ hlt, h, hk, hlk]
  · omega

/-- There all lock bits together stop everything but the edge-detect registers. -/
theorem blkNext_of_ne {b : Blk} (hb : b ≠ .acct) (m : File (width b))
    {i : BusIn b} (hlk : i.lk = BitVec.allOnes 8) (hw : i.write = true) :
    blkNext b m i = edges b m m := by
  rw [blkNext, if_pos hw, hlk]
  rw [write_of_locked fun wrow hwrow => locked_allOnes b (writes_lock_lt b hb wrow hwrow)]

theorem acctWrites_zero : ∀ k : AcctReg, k.val < 3 →
    acctWrites.filter (·.index = k.val) = [⟨k.val, k, 15, 0⟩] := by
  decide

/-- A word of master 0 is written whatever the lock bits. -/
theorem blkNext_acct_zero (m : File (width .acct)) {i : BusIn .acct} {k : AcctReg} (hk : k.val < 3)
    (hw : i.write = true) (hidx : writeIndex i.addr .acct = k.val) : blkNext .acct m i k = i.wdata := by
  have hrow : writeAt acctWrites (locked .acct i.lk) m k.val i.wdata k = i.wdata.extractLsb' 0 32 :=
    write_apply_of_row (acctWrites_zero k hk) (locked_acct_zero i.lk) m i.wdata
  rw [blkNext, if_pos hw, hidx]
  exact hrow.trans BitVec.extractLsb'_eq_self

/-- Each word of `acct_mem` can be read, under an even lock bit. -/
theorem acctReads_row : ∀ r : AcctReg, ∃ row ∈ acctReads, row.src = .reg r ∧
    ∃ k < 4, row.lock = 2 * k := by
  decide

theorem acctReads_zero : ∀ row ∈ acctReads, ∀ r : AcctReg, row.src = .reg r → r.val < 3 →
    row.lock = 4 := by
  decide

theorem paired_acct_iff (m : File (width .acct)) (i : BusIn .acct) :
    Paired .acct m i ↔ Meets .acct m i := by
  constructor
  · intro h hw h5 k hk hidx
    obtain ⟨row, hrow, hr, j, -, hj⟩ := acctReads_row k
    have hj2 : j = 2 := by
      have := acctReads_zero row hrow k hr hk
      omega
    have hkeep := h row hrow k j hr hj (by rw [hj2]; exact h5)
    rw [blkNext_acct_zero m hk hw hidx] at hkeep
    exact hkeep
  · intro h row hrow r k hr hk hlk
    by_cases hw : i.write = true
    · by_cases hz : r.val < 3 ∧ writeIndex i.addr .acct = r.val
      · have hk2 : k = 2 := by
          have := acctReads_zero row hrow r hr hz.1
          omega
        rw [hk2] at hlk
        rw [blkNext_acct_zero m hz.1 hw hz.2]
        exact h hw hlk r hz.1 hz.2
      · apply blkNext_apply_of_locked .acct m i hrow hr
        rintro wrow hwrow hidx rfl
        have hlt := reads_lock_lt .acct row hrow
        obtain ⟨hreg, hlock⟩ := acctWrites_row wrow hwrow
        rcases write_lock_of_read .acct row hrow wrow hwrow hr with hl | ⟨hl, -⟩
        · rw [locked_eq .acct _ (by omega), hl, hk, hlk]
        · -- bit 15 is the one of master 0
          refine absurd ⟨?_, hidx.symm.trans hreg⟩ hz
          rw [hl, acctLock] at hlock
          split at hlock
          · assumption
          · split at hlock <;> omega
    · rw [blkNext, if_neg hw]

theorem step_iff_of_ne {b : Blk} (hb : b ≠ .acct) (m : File (width b)) (i : BusIn b) :
    (i.lk = BitVec.allOnes 8 → blkNext b m i = m) ↔
      (i.write = true → i.lk = BitVec.allOnes 8 → Idle b m) := by
  by_cases hw : i.write = true
  · simp only [hw, forall_const]
    refine forall_congr' fun hlk => ?_
    rw [blkNext_of_ne hb m hlk hw, edges_self_iff]
  · simp [blkNext, hw]

theorem meets_of_ne {b : Blk} (hb : b ≠ .acct) (m : File (width b)) (i : BusIn b) :
    Meets b m i ↔ (i.write = true → i.lk = BitVec.allOnes 8 → Idle b m) := by
  cases b with
  | acct => exact absurd rfl hb
  | _ => rfl

/-- A cycle keeps to the lock bits exactly when it stays off the two defects. -/
theorem step_iff (b : Blk) (m : File (width b)) (i : BusIn b) :
    (i.lk = BitVec.allOnes 8 → blkNext b m i = m) ∧ (i.lk = BitVec.allOnes 8 → rdata b m i = 0) ∧
      Paired b m i ↔ Meets b m i := by
  have hread : i.lk = BitVec.allOnes 8 → rdata b m i = 0 := rdata_of_locked b m i
  by_cases hb : b = .acct
  · subst hb
    rw [paired_acct_iff]
    refine ⟨fun h => h.2.2, fun h => ⟨fun hlk => ?_, hread, h⟩⟩
    funext r
    obtain ⟨row, hrow, hr, k, hk4, hk⟩ := acctReads_row r
    have hbit : i.lk.getLsbD (2 * k + 1) = true := by
      rw [hlk, BitVec.getLsbD_allOnes, decide_eq_true (by omega : 2 * k + 1 < 8)]
    exact (paired_acct_iff m i).2 h row hrow r k hr hk hbit
  · rw [meets_of_ne hb, ← step_iff_of_ne hb]
    exact ⟨fun h => h.1, fun h => ⟨h, hread, paired_of_ne hb m i⟩⟩

/-- With all lock bits set, that is whether the registers stay. -/
theorem blkNext_eq_self_iff (b : Blk) (m : File (width b)) {i : BusIn b}
    (hlk : i.lk = BitVec.allOnes 8) : blkNext b m i = m ↔ Meets b m i := by
  by_cases hb : b = .acct
  · subst hb
    refine ⟨fun h hw _ k hk hidx => ?_, fun h => ((step_iff .acct m i).2 h).1 hlk⟩
    rw [← blkNext_acct_zero m hk hw hidx, h]
  · rw [meets_of_ne hb, ← step_iff_of_ne hb, forall_prop_of_true hlk]

/-- A run keeps to the lock bits exactly when none of its cycles gets at the two
defects. -/
theorem enforced_iff (b : Blk) (m : File (width b)) (is : List (BusIn b)) :
    Enforced b m is ↔ (blkMachine b).Steps (Meets b) m is := by
  have hfrozen := (blkMachine b).steps_rel_iff (R := fun m m' => m' = m) (fun _ => rfl)
    (fun h h' => h'.trans h) (fun i => i.lk = BitVec.allOnes 8) is m
  rw [← Machine.steps_congr (step_iff b), Machine.steps_and, Machine.steps_and]
  constructor
  · rintro ⟨h1, h2, h3⟩
    exact ⟨hfrozen.2 h1, h2, h3⟩
  · rintro ⟨h1, h2, h3⟩
    exact ⟨hfrozen.1 h1, h2, h3⟩

/-- A write of `w` to the address `a`. -/
def BusIn.writing {b : Blk} (lk : BitVec 8) (a w : BitVec 32) : BusIn b := ⟨lk, true, a, w, fun _ => 0⟩

/-- Out of reset, with all lock bits set, a write closes master 0 out of everything;
and a hash that was started before the lock bits were set sees its edge-detect
register move under them. -/
theorem not_enforced :
    ¬Enforced .acct (blkReset .acct fun _ => 0) [.writing (BitVec.allOnes 8) 0 0] ∧
      ¬Enforced .hmac (blkReset .hmac fun _ => 0)
        [.writing 0 0 1, .writing (BitVec.allOnes 8) 4 0] := by
  refine ⟨fun h => ?_, fun h => ?_⟩
  · have h0 := congrFun (h.frozen [] [.writing (BitVec.allOnes 8) 0 0] [] rfl (by simp [BusIn.writing]))
      (0 : AcctReg)
    revert h0
    decide
  · have h0 := congrFun (h.frozen [.writing 0 0 1] [.writing (BitVec.allOnes 8) 4 0] [] rfl
      (by simp [BusIn.writing])) (HashReg.startHashR : HashReg 8)
    revert h0
    decide

end Soc
end Ariane

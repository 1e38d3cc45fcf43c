/-
# The instruction queue

`instr_queue.sv` takes up to two instructions of a fetch and hands one at a time to the back
end. The words go in turn into two FIFOs, predicted targets into a third one, and the pc of an
instruction is not stored but computed from the one before it.

What the back end takes is what was accepted, in order and with its own address
(`queue_lossless`); what was not accepted is asked for again.
-/
import Ariane.Lib.Fifo
import Ariane.Lib.Machine

namespace Ariane
namespace Frontend

open Lib

/-- `cf_t`: what a prediction is about. -/
inductive Cf
  | noCF | branch | jump | jumpR | ret
deriving DecidableEq, Repr

namespace Queue

/-! ### The queue -/

/-- `instr_data_t`. -/
structure InstrData where
  instr : BitVec 32
  cf : Cf
  ex : Bool
deriving DecidableEq, Repr

structure Regs where
  fifo : Fin 2 → Fifo 2 InstrData
  address : Fifo 2 (BitVec 64)
  idxIs : BitVec 1
  idxDs : BitVec 2
  pc : BitVec 64
  resetAddress : Bool

/-- The packet of the cycle, and whether the decoder has space for an instruction. -/
structure In where
  flush : Bool
  instr : Fin 2 → BitVec 32
  addr : Fin 2 → BitVec 64
  valid : BitVec 2
  exception : Bool
  predictAddress : BitVec 64
  cf : Fin 2 → Cf
  space : Bool

/-- `fetch_entry_o`. -/
structure FetchEntry where
  address : BitVec 64
  instruction : BitVec 32
  ex : Bool
  cf : Cf
  predictAddress : BitVec 64
deriving DecidableEq, Repr

section Outputs

variable (q : Regs) (i : In)

/-- `taken`. -/
def taken : BitVec 2 := BitVec.ofBool (i.cf 1 != .noCF) ++ BitVec.ofBool (i.cf 0 != .noCF)

/-- `branch_index`: the trailing zeros of `taken`. -/
def branchIndex : ℕ := if (taken i)[0] then 0 else 1

/-- `branch_mask`. -/
def branchMask : BitVec 2 := (0b011#3 <<< branchIndex i).extractLsb' 1 2

/-- `valid`: the instructions up to the first predicted one. -/
def valid : BitVec 2 := i.valid &&& branchMask i

/-- `fifo_pos`. -/
def fifoPos : BitVec 2 := ((valid i ++ valid i) <<< q.idxIs.toNat).extractLsb' 2 2

/-- `instr_queue_full`. -/
def instrQueueFull : BitVec 2 := BitVec.ofBool (q.fifo 1).full ++ BitVec.ofBool (q.fifo 0).full

/-- `instr_queue_empty`. -/
def instrQueueEmpty : BitVec 2 := BitVec.ofBool (q.fifo 1).empty ++ BitVec.ofBool (q.fifo 0).empty

/-- `push_instr`. -/
def pushInstr : BitVec 2 := fifoPos q i &&& ~~~instrQueueFull q

/-- The instruction that goes to FIFO `k`. -/
def source (k : Fin 2) : Fin 2 := ⟨(k.val + q.idxIs.toNat) % 2, Nat.mod_lt _ (by decide)⟩

/-- `instr_data_in`. -/
def instrDataIn (k : Fin 2) : InstrData := ⟨i.instr (source q k), i.cf (source q k), i.exception⟩

/-- `push_address`. -/
def pushAddress : Bool :=
  (pushInstr q i)[0] && (instrDataIn q i 0).cf != .noCF ||
    (pushInstr q i)[1] && (instrDataIn q i 1).cf != .noCF

/-- `address_overflow`. -/
def addressOverflow : Bool := q.address.full && pushAddress q i

/-- `push_instr_fifo`. -/
def pushInstrFifo : BitVec 2 := if addressOverflow q i then 0 else pushInstr q i

/-- `consumed_o`. -/
def consumedO : BitVec 2 := ((pushInstrFifo q i ++ pushInstrFifo q i) >>> q.idxIs.toNat).extractLsb' 0 2

/-- `shamt`: the number of instructions pushed, in one bit. -/
def shamt : BitVec 1 := BitVec.ofNat 1 ((pushInstrFifo q i)[0].toNat + (pushInstrFifo q i)[1].toNat)

/-- `replay_o`. -/
def replayO : Bool := (instrQueueFull q &&& fifoPos q i) != 0 || addressOverflow q i

/-- `replay_addr_o`. -/
def replayAddrO : BitVec 64 := if addressOverflow q i then i.addr 0 else i.addr (if shamt q i = 0 then 0 else 1)

/-- `fetch_entry_valid_o`. -/
def fetchEntryValidO : Bool := instrQueueEmpty q != 0b11

/-- `fetch_entry_ready_i`: the decoder takes an entry only if there is one. -/
def fetchEntryReady : Bool := i.space && fetchEntryValidO q

/-- `fetch_entry_o`, the FIFO selected by `idx_ds_q`. -/
def fetchEntryO : FetchEntry :=
  let e : FetchEntry := ⟨q.pc, 0, false, .noCF, q.address.out⟩
  let select (k : Fin 2) (e : FetchEntry) : FetchEntry :=
    if q.idxDs.getLsbD k then
      { e with instruction := (q.fifo k).out.instr, ex := (q.fifo k).out.ex, cf := (q.fifo k).out.cf }
    else e
  select 1 (select 0 e)

/-- `pop_instr`. -/
def popInstr (k : Fin 2) : Bool := q.idxDs.getLsbD k && (fetchEntryValidO q && fetchEntryReady q i)

/-- `pop_address`. -/
def popAddress : Bool := (fetchEntryO q).cf != .noCF && (popInstr q i 0 || popInstr q i 1)

/-- `pc_d`. -/
def pcD : BitVec 64 :=
  let pc := if fetchEntryReady q i then
      q.pc + (if (fetchEntryO q).instruction.extractLsb' 0 2 != 0b11 then 2 else 4) else q.pc
  let pc := if popAddress q i then q.address.out else pc
  if i.valid[0] && q.resetAddress then i.addr 0 else pc

end Outputs

/-- The queue after a clock edge. -/
def Regs.next (q : Regs) (i : In) : Regs where
  fifo k := (q.fifo k).next i.flush (if (pushInstrFifo q i).getLsbD k then some (instrDataIn q i k) else none)
    (popInstr q i k)
  address := q.address.next i.flush (if pushAddress q i && !q.address.full then some i.predictAddress else none)
    (popAddress q i)
  idxIs := if i.flush then 0 else q.idxIs + shamt q i
  idxDs := if i.flush then 1 else if fetchEntryReady q i then q.idxDs.rotateLeft 1 else q.idxDs
  pc := pcD q i
  resetAddress := if i.flush then true else if i.valid[0] && q.resetAddress then false else q.resetAddress

def Regs.reset : Regs := ⟨fun _ => .reset ⟨0, .noCF, false⟩, .reset 0, 0, 1, 0, true⟩

/-! ### What goes in and comes out -/

/-- An instruction with its address, and the target if one is predicted. -/
structure Item where
  pc : BitVec 64
  data : InstrData
  predict : BitVec 64
deriving DecidableEq, Repr

/-- The predicted target. -/
def Item.target (x : Item) : Option (BitVec 64) := if x.data.cf = .noCF then none else some x.predict

/-- The length of an instruction. -/
def len (w : BitVec 32) : BitVec 64 := if w.extractLsb' 0 2 != 0b11 then 2 else 4

/-- Where the frontend goes on after an instruction. -/
def Item.follow (x : Item) : BitVec 64 := x.target.getD (x.pc + len x.data.instr)

/-- Instruction `k` of the packet. -/
def item (i : In) (k : Fin 2) : Item := ⟨i.addr k, ⟨i.instr k, i.cf k, i.exception⟩, i.predictAddress⟩

/-- The instructions of a packet that a mask has. -/
def packet (i : In) (m : BitVec 2) : List Item :=
  (if m[0] then [item i 0] else []) ++ if m[1] then [item i 1] else []

/-- The instructions of the packet up to the first predicted one. -/
def offered (i : In) : List Item := packet i (valid i)

/-- The instructions the queue takes. -/
def accepted (q : Regs) (i : In) : List Item := packet i (consumedO q i)

/-- The instructions follow each other from the address `a` to `b`. -/
def Path (a : BitVec 64) : List Item → BitVec 64 → Prop
  | [], b => a = b
  | x :: l, b => x.pc = a ∧ Path x.follow l b

theorem path_append {a b : BitVec 64} {l k : List Item} :
    Path a (l ++ k) b ↔ ∃ c, Path a l c ∧ Path c k b := by
  induction l generalizing a with
  | nil => exact ⟨fun h => ⟨a, rfl, h⟩, fun ⟨c, hc, h⟩ => by rw [show a = c from hc]; exact h⟩
  | cons x l ih =>
    constructor
    · rintro ⟨hx, h⟩
      obtain ⟨c, hl, hk⟩ := ih.1 h
      exact ⟨c, ⟨hx, hl⟩, hk⟩
    · rintro ⟨c, ⟨hx, hl⟩, hk⟩
      exact ⟨hx, ih.2 ⟨c, hl, hk⟩⟩

/-- A fetch entry is the one of an instruction. -/
def Matches (e : FetchEntry) (x : Item) : Prop :=
  e.address = x.pc ∧ e.instruction = x.data.instr ∧ e.ex = x.data.ex ∧ e.cf = x.data.cf ∧
    ∀ t, x.target = some t → e.predictAddress = t

/-! ### Runs -/

/-- The queue, with what it has accepted and what the back end has taken since the last flush,
and where the frontend goes on. -/
structure St where
  regs : Regs
  acc : List Item
  out : List FetchEntry
  expect : Option (BitVec 64)

/-- Where the frontend goes on after a packet: where it is told to replay, or behind the last
instruction. -/
def continues (q : Regs) (i : In) : BitVec 64 :=
  if replayO q i then replayAddrO q i else ((offered i).getLast?.map Item.follow).getD 0

def St.next (s : St) (i : In) : St where
  regs := s.regs.next i
  acc := if i.flush then [] else s.acc ++ accepted s.regs i
  out := if i.flush then [] else if fetchEntryReady s.regs i then s.out ++ [fetchEntryO s.regs] else s.out
  expect := if i.flush then none else if i.valid[0] then some (continues s.regs i) else s.expect

def St.reset : St := ⟨.reset, [], [], none⟩

def machine : Machine St In where
  init s := s = .reset
  next := St.next

/-- The valid instructions of a packet are the first ones and follow each other, and the packet
is where the frontend goes on. -/
structure InOrder (s : St) (i : In) : Prop where
  contiguous : i.valid[1] = true → i.valid[0] = true
  second : i.flush = false → i.valid[1] = true → i.cf 0 = .noCF → i.addr 1 = i.addr 0 + len (i.instr 0)
  first : i.flush = false → i.valid[0] = true → s.expect = none ∨ s.expect = some (i.addr 0)

instance (s : St) (i : In) : Decidable (InOrder s i) :=
  decidable_of_iff
    ((i.valid[1] = true → i.valid[0] = true) ∧
      (i.flush = false → i.valid[1] = true → i.cf 0 = .noCF → i.addr 1 = i.addr 0 + len (i.instr 0)) ∧
      (i.flush = false → i.valid[0] = true → s.expect = none ∨ s.expect = some (i.addr 0)))
    ⟨fun ⟨h, k, l⟩ => ⟨h, k, l⟩, fun h => ⟨h.contiguous, h.second, h.first⟩⟩

/-- What the back end has taken are the first instructions that were accepted, and those are
in program order. -/
structure Lossless (s : St) : Prop where
  taken : ∃ rest, ∃ l, s.acc = l ++ rest ∧ List.Forall₂ Matches s.out l ∧ (fetchEntryValidO s.regs = true ↔ rest ≠ [])
  path : ∃ a b, Path a s.acc b ∧ ∀ e ∈ s.expect, e = b

/-- The first instructions of a packet are accepted, and a replay is asked for from the first
one that is not. -/
structure Replays (q : Regs) (i : In) : Prop where
  accepted : ∃ rest, offered i = accepted q i ++ rest ∧ (replayO q i = true ↔ rest ≠ []) ∧
    ∀ x ∈ rest.head?, replayAddrO q i = x.pc

/-! ### The packet of a cycle -/

theorem rotate_left : ∀ (d : BitVec 1) (v : BitVec 2) (k : Fin 2),
    (((v ++ v) <<< d.toNat).extractLsb' 2 2).getLsbD k = v.getLsbD ((k.val + d.toNat) % 2) := by
  decide

theorem rotate_right : ∀ (d : BitVec 1) (v : BitVec 2) (k : Fin 2),
    (((v ++ v) >>> d.toNat).extractLsb' 0 2).getLsbD k = v.getLsbD ((k.val + d.toNat) % 2) := by
  decide

/-- Instruction `k` is to go into the queue. -/
def wants (i : In) (k : Fin 2) : Bool := (valid i).getLsbD k

/-- The FIFO for instruction `k` has no place. -/
def blocked (q : Regs) (k : Fin 2) : Bool := (q.fifo (source q k)).full

section Packet

variable {q : Regs} {i : In}

theorem source_source (k : Fin 2) : source q (source q k) = k := by
  apply Fin.ext
  have hk := k.isLt
  simp only [source]
  omega

theorem source_one : source q 1 = source q 0 + 1 := by
  apply Fin.ext
  simp only [source, Fin.val_add]
  show (1 + _) % 2 = ((0 + _) % 2 + 1) % 2
  omega

theorem getLsbD_instrQueueFull : ∀ k : Fin 2, (instrQueueFull q).getLsbD k = (q.fifo k).full
  | 0 => by cases h : (q.fifo 0).full <;> cases h' : (q.fifo 1).full <;> simp [instrQueueFull, h, h']
  | 1 => by cases h : (q.fifo 0).full <;> cases h' : (q.fifo 1).full <;> simp [instrQueueFull, h, h']

/-- An instruction is pushed if it is valid and its FIFO has a place. -/
theorem getLsbD_pushInstr (k : Fin 2) :
    (pushInstr q i).getLsbD (source q k) = (wants i k && !blocked q k) := by
  have hpos : (fifoPos q i).getLsbD (source q k) = (valid i).getLsbD k := by
    rw [fifoPos, rotate_left]
    show (valid i).getLsbD (source q (source q k)) = _
    rw [source_source]
  rw [pushInstr, BitVec.getLsbD_and, BitVec.getLsbD_not, getLsbD_instrQueueFull, hpos]
  simp [(source q k).isLt, wants, blocked]

theorem getLsbD_consumedO (k : Fin 2) :
    (consumedO q i).getLsbD k = (!addressOverflow q i && (wants i k && !blocked q k)) := by
  rw [consumedO, rotate_right]
  show (pushInstrFifo q i).getLsbD (source q k) = _
  rw [pushInstrFifo]
  split
  · rename_i h
    simp [h]
  · rename_i h
    rw [getLsbD_pushInstr, Bool.eq_false_iff.2 h]
    rfl

theorem source_cases : source q 0 = 0 ∧ source q 1 = 1 ∨ source q 0 = 1 ∧ source q 1 = 0 := by
  have h1 := source_one (q := q)
  have h0 : source q 0 = 0 ∨ source q 0 = 1 := by
    have hlt := (source q 0).isLt
    rcases Nat.lt_or_ge (source q 0).val 1 with h | h
    · exact .inl (Fin.ext (by simpa using h))
    · exact .inr (Fin.ext (by show (source q 0).val = 1; omega))
  rcases h0 with h0 | h0
  · exact .inl ⟨h0, by rw [h1, h0]; rfl⟩
  · exact .inr ⟨h0, by rw [h1, h0]; rfl⟩

/-- What some FIFO has, the FIFO of some instruction has. -/
theorem exists_source (p : Fin 2 → Prop) : (p 0 ∨ p 1) ↔ p (source q 0) ∨ p (source q 1) := by
  rcases source_cases (q := q) with ⟨h0, h1⟩ | ⟨h0, h1⟩
  · rw [h0, h1]
  · rw [h0, h1]
    exact or_comm

/-- A target is pushed with the instruction that is predicted. -/
theorem pushAddress_iff : pushAddress q i = true ↔
    (wants i 0 = true ∧ blocked q 0 = false ∧ i.cf 0 ≠ .noCF) ∨
      (wants i 1 = true ∧ blocked q 1 = false ∧ i.cf 1 ≠ .noCF) := by
  have hk (k : Fin 2) : ((pushInstr q i).getLsbD (source q k) = true ∧ (instrDataIn q i (source q k)).cf ≠ .noCF) ↔
      wants i k = true ∧ blocked q k = false ∧ i.cf k ≠ .noCF := by
    rw [getLsbD_pushInstr, instrDataIn, source_source, Bool.and_eq_true, Bool.not_eq_true', and_assoc]
  rw [← hk 0, ← hk 1, ← exists_source fun k => (pushInstr q i).getLsbD k = true ∧ (instrDataIn q i k).cf ≠ .noCF]
  simp [pushAddress, BitVec.getLsbD_eq_getElem]

theorem replayO_iff : replayO q i = true ↔ (wants i 0 = true ∧ blocked q 0 = true) ∨
    (wants i 1 = true ∧ blocked q 1 = true) ∨ addressOverflow q i = true := by
  have hk (k : Fin 2) : (instrQueueFull q &&& fifoPos q i).getLsbD (source q k) = true ↔
      wants i k = true ∧ blocked q k = true := by
    rw [BitVec.getLsbD_and, getLsbD_instrQueueFull, fifoPos, rotate_left, Bool.and_eq_true]
    show _ ∧ (valid i).getLsbD (source q (source q k)) = true ↔ _
    rw [source_source]
    exact and_comm
  have hne : ∀ v : BitVec 2, (v != 0) = true ↔ v.getLsbD (0 : Fin 2) = true ∨ v.getLsbD (1 : Fin 2) = true := by
    decide
  rw [replayO, Bool.or_eq_true, hne, exists_source fun k => (instrQueueFull q &&& fifoPos q i).getLsbD k = true,
    hk 0, hk 1, or_assoc]

theorem shamt_eq : shamt q i = BitVec.ofNat 1 ((consumedO q i)[0].toNat + (consumedO q i)[1].toNat) := by
  have h (k : Fin 2) : (consumedO q i).getLsbD k = (pushInstrFifo q i).getLsbD (source q k) := by
    rw [consumedO, rotate_right]
    rfl
  have h0 := h 0
  have h1 := h 1
  rw [shamt]
  rcases source_cases (q := q) with ⟨hs0, hs1⟩ | ⟨hs0, hs1⟩
  · rw [hs0] at h0
    rw [hs1] at h1
    simp only [Fin.val_zero, Fin.val_one, BitVec.getLsbD_eq_getElem, Nat.zero_lt_two, Nat.one_lt_two] at h0 h1
    rw [h0, h1]
  · rw [hs0] at h0
    rw [hs1] at h1
    simp only [Fin.val_zero, Fin.val_one, BitVec.getLsbD_eq_getElem, Nat.zero_lt_two, Nat.one_lt_two] at h0 h1
    rw [h0, h1, Nat.add_comm]

/-- The second instruction is kept if the first one is not predicted. -/
theorem wants_iff : wants i 0 = i.valid[0] ∧ (wants i 1 = true ↔ i.valid[1] = true ∧ i.cf 0 = .noCF) := by
  have hmask : branchMask i = if i.cf 0 = .noCF then 0b11 else 0b01 := by
    unfold branchMask branchIndex taken
    by_cases h0 : i.cf 0 = .noCF
    · cases h1 : (i.cf 1 != .noCF) <;> simp [h0]
    · have hne : (i.cf 0 != .noCF) = true := bne_iff_ne.2 h0
      rw [hne, if_neg h0]
      cases (i.cf 1 != .noCF) <;> rfl
  unfold wants valid
  rw [hmask]
  have hv : i.valid = 0#2 ∨ i.valid = 1#2 ∨ i.valid = 2#2 ∨ i.valid = 3#2 := by
    generalize i.valid = v
    revert v
    decide
  by_cases h0 : i.cf 0 = .noCF <;> rcases hv with hv | hv | hv | hv <;> simp [h0, hv]

theorem wants_spec (hc : i.valid[1] = true → i.valid[0] = true) :
    wants i 0 = i.valid[0] ∧ (wants i 1 = true ↔ i.valid[1] = true ∧ i.cf 0 = .noCF) ∧
      (wants i 1 = true → wants i 0 = true) := by
  obtain ⟨h0, h1⟩ := @wants_iff i
  refine ⟨h0, h1, fun h => ?_⟩
  rw [h0]
  exact hc (h1.1 h).1

theorem offered_eq : offered i =
    (if wants i 0 then [item i 0] else []) ++ if wants i 1 then [item i 1] else [] := rfl

theorem accepted_eq : accepted q i =
    (if (consumedO q i).getLsbD 0 then [item i 0] else []) ++ if (consumedO q i).getLsbD 1 then [item i 1] else [] :=
  rfl

/-- If the FIFO of the first instruction is not the fuller one, the queue accepts the first
instructions of the packet. -/
theorem replays (hc : i.valid[1] = true → i.valid[0] = true) (hb : blocked q 0 = true → blocked q 1 = true) :
    Replays q i := by
  have h10 := (wants_spec hc).2.2
  have hc0 := getLsbD_consumedO (q := q) (i := i) 0
  have hc1 := getLsbD_consumedO (q := q) (i := i) 1
  have hsh := shamt_eq (q := q) (i := i)
  have hacc := accepted_eq (q := q) (i := i)
  have hoff := offered_eq (i := i)
  have e0 : (consumedO q i)[0] = (consumedO q i).getLsbD ((0 : Fin 2) : ℕ) := rfl
  have e1 : (consumedO q i)[1] = (consumedO q i).getLsbD ((1 : Fin 2) : ℕ) := rfl
  rw [e0, e1, hc0, hc1] at hsh
  rw [show (consumedO q i).getLsbD 0 = _ from hc0, show (consumedO q i).getLsbD 1 = _ from hc1] at hacc
  have hrep := replayO_iff (q := q) (i := i)
  constructor
  rw [hoff, hacc]
  cases hov : addressOverflow q i with
  | true =>
    -- nothing is accepted; there is an instruction, since a target is pushed
    have hw : wants i 0 = true := by
      have hpush : pushAddress q i = true := by
        rw [addressOverflow, Bool.and_eq_true] at hov
        exact hov.2
      rcases pushAddress_iff.1 hpush with ⟨h, -⟩ | ⟨h, -⟩
      · exact h
      · exact h10 h
    refine ⟨_, rfl, ?_, ?_⟩
    · simp [hrep, hov, hw]
    · simp [hw, replayAddrO, hov, item]
  | false =>
    rw [hov] at hsh hrep
    cases hw0 : wants i 0 with
    | false =>
      have hw1 : wants i 1 = false := by
        by_contra h
        rw [h10 (Bool.eq_true_of_not_eq_false h)] at hw0
        cases hw0
      exact ⟨[], by simp [hw1], by simp [hrep, hw0, hw1], nofun⟩
    | true =>
      cases hb0 : blocked q 0 with
      | true =>
        refine ⟨(if wants i 1 then [item i 1] else []).cons (item i 0), by simp [hb hb0], by simp [hrep, hw0, hb0], ?_⟩
        rintro x ⟨⟩
        simp [replayAddrO, hov, hsh, hb0, hb hb0, item]
      | false =>
        cases hw1 : wants i 1 with
        | false => exact ⟨[], by simp, by simp [hrep, hw0, hw1, hb0], nofun⟩
        | true =>
          cases hb1 : blocked q 1 with
          | false => exact ⟨[], by simp, by simp [hrep, hb0, hb1], nofun⟩
          | true =>
            refine ⟨[item i 1], by simp, by simp [hrep, hw1, hb1], ?_⟩
            rintro x ⟨⟩
            simp [replayAddrO, hov, hsh, hw0, hw1, hb0, hb1, item]

end Packet

/-! ### The invariant -/

/-- The queue holds the instructions `rest`, the oldest one in FIFO `r`. -/
structure Holds (q : Regs) (r : Fin 2) (rest : List Item) : Prop where
  ds : q.idxDs = 1#2 <<< r.val
  is : q.idxIs.toNat = (place r rest.length).val
  dealt : Dealt (fun k => (q.fifo k).contents) r (rest.map Item.data)
  address : q.address.contents = rest.filterMap Item.target

section Holds

variable {q : Regs} {i : In} {r : Fin 2} {rest : List Item}

theorem Holds.source_zero (h : Holds q r rest) : source q 0 = place r rest.length := by
  apply Fin.ext
  have hlt := (place r rest.length).isLt
  show (0 + q.idxIs.toNat) % 2 = _
  rw [h.is]
  omega

theorem Holds.blocked (h : Holds q r rest) (hb : blocked q 0 = true) : Queue.blocked q 1 = true := by
  have hle := h.dealt.length_place_le
  rw [List.length_map] at hle
  have hmax := (q.fifo (source q 1)).cnt_le
  rw [Queue.blocked, Fifo.full_iff] at hb ⊢
  rw [source_one, h.source_zero] at hmax ⊢
  rw [h.source_zero] at hb
  rw [Fifo.length_contents] at hb ⊢
  simp only [Fifo.length_contents] at hle
  omega

theorem getLsbD_oneHot : ∀ r k : Fin 2, (1#2 <<< r.val).getLsbD k = decide (k = r) := by decide

theorem rotateLeft_oneHot : ∀ r : Fin 2, (1#2 <<< r.val).rotateLeft 1 = 1#2 <<< (r + 1).val := by decide

theorem Holds.valid (h : Holds q r rest) : fetchEntryValidO q = true ↔ rest ≠ [] := by
  have hempty : instrQueueEmpty q = 0b11 ↔ (q.fifo r).empty = true ∧ (q.fifo (r + 1)).empty = true := by
    have hall : ((q.fifo 0).empty = true ∧ (q.fifo 1).empty = true) ↔
        (q.fifo r).empty = true ∧ (q.fifo (r + 1)).empty = true := by
      match r with
      | 0 => rfl
      | 1 => exact and_comm
    rw [← hall, instrQueueEmpty]
    cases (q.fifo 0).empty <;> cases (q.fifo 1).empty <;> decide
  rw [fetchEntryValidO, bne_iff_ne, Ne, hempty, Fifo.empty_iff, Fifo.empty_iff, not_iff_not]
  have h1 : (q.fifo r).contents = _ := h.dealt.first
  have h2 : (q.fifo (r + 1)).contents = _ := h.dealt.second
  rw [h1, h2]
  constructor
  · rintro ⟨he, -⟩
    have hl := (length_deal (rest.map Item.data)).1
    rw [he, List.length_map] at hl
    simp only [List.length_nil] at hl
    exact List.length_eq_zero_iff.1 (by omega)
  · rintro rfl
    exact ⟨rfl, rfl⟩

theorem Holds.popInstr (h : Holds q r rest) (k : Fin 2) :
    popInstr q i k = (decide (k = r) && fetchEntryReady q i) := by
  rw [Queue.popInstr, h.ds, getLsbD_oneHot, fetchEntryReady]
  cases fetchEntryValidO q <;> simp

/-- The entry that is offered is the one of the oldest instruction. -/
theorem Holds.fetchEntry {x : Item} {l : List Item} (h : Holds q r (x :: l)) :
    (fetchEntryO q).instruction = x.data.instr ∧ (fetchEntryO q).ex = x.data.ex ∧ (fetchEntryO q).cf = x.data.cf ∧
      ∀ t, x.target = some t → q.address.out = t := by
  have hout : (q.fifo r).out = x.data := by
    have h1 : (q.fifo r).contents = _ := h.dealt.first
    rw [List.map_cons, evens_cons] at h1
    exact Fifo.out_of_contents h1
  have hsel : (fetchEntryO q).instruction = (q.fifo r).out.instr ∧ (fetchEntryO q).ex = (q.fifo r).out.ex ∧
      (fetchEntryO q).cf = (q.fifo r).out.cf := by
    unfold fetchEntryO
    simp only [h.ds, getLsbD_oneHot, decide_eq_true_iff]
    match r with
    | 0 => exact ⟨rfl, rfl, rfl⟩
    | 1 => exact ⟨rfl, rfl, rfl⟩
  rw [hout] at hsel
  refine ⟨hsel.1, hsel.2.1, hsel.2.2, fun t ht => ?_⟩
  have ha := h.address
  rw [List.filterMap_cons, ht] at ha
  exact Fifo.out_of_contents ha

theorem Holds.popAddress {x : Item} {l : List Item} (h : Holds q r (x :: l)) :
    popAddress q i = (fetchEntryReady q i && x.target.isSome) := by
  have hor : (Queue.popInstr q i 0 || Queue.popInstr q i 1) = fetchEntryReady q i := by
    rw [h.popInstr, h.popInstr]
    match r with
    | 0 => simp
    | 1 => simp
  rw [Queue.popAddress, hor, h.fetchEntry.2.2.1, Bool.and_comm, Item.target]
  by_cases hc : x.data.cf = .noCF
  · simp [hc]
  · simp [hc]

/-- The instructions accepted: none, the first one, or both. -/
theorem Holds.accepted_cases (h : Holds q r rest) (hc : i.valid[1] = true → i.valid[0] = true) :
    (consumedO q i).getLsbD 0 = false ∧ (consumedO q i).getLsbD 1 = false ∧ accepted q i = [] ∨
    (consumedO q i).getLsbD 0 = true ∧ (consumedO q i).getLsbD 1 = false ∧ accepted q i = [item i 0] ∨
    (consumedO q i).getLsbD 0 = true ∧ (consumedO q i).getLsbD 1 = true ∧ accepted q i = [item i 0, item i 1] := by
  have hc0 : (consumedO q i).getLsbD 0 = _ := getLsbD_consumedO (q := q) (i := i) 0
  have hc1 : (consumedO q i).getLsbD 1 = _ := getLsbD_consumedO (q := q) (i := i) 1
  have h10 := (wants_spec hc).2.2
  have hacc := accepted_eq (q := q) (i := i)
  cases h0 : (consumedO q i).getLsbD 0 with
  | false =>
    have h1 : (consumedO q i).getLsbD 1 = false := by
      rw [Bool.eq_false_iff]
      intro h1
      rw [h1, eq_comm, Bool.and_eq_true, Bool.and_eq_true, Bool.not_eq_true', Bool.not_eq_true'] at hc1
      have hb0 : Queue.blocked q 0 = false := by
        rw [Bool.eq_false_iff]
        intro hb
        rw [h.blocked hb] at hc1
        exact absurd hc1.2.2 (by decide)
      rw [h0, hc1.1, h10 hc1.2.1, hb0] at hc0
      cases hc0
    exact .inl ⟨rfl, h1, by rw [hacc, h0, h1]; rfl⟩
  | true =>
    cases h1 : (consumedO q i).getLsbD 1 with
    | false => exact .inr (.inl ⟨rfl, rfl, by rw [hacc, h0, h1]; rfl⟩)
    | true => exact .inr (.inr ⟨rfl, rfl, by rw [hacc, h0, h1]; rfl⟩)

/-- What is in a FIFO after the edge: an instruction may have been taken from it, and one put
into it. -/
theorem Holds.contents_next (h : Holds q r rest) (hf : i.flush = false) (j : Fin 2) :
    ((q.next i).fifo (source q j)).contents =
      (if source q j = r ∧ fetchEntryReady q i = true then (q.fifo (source q j)).contents.tail
        else (q.fifo (source q j)).contents) ++
      if (consumedO q i).getLsbD j then [(item i j).data] else [] := by
  have hpush : (pushInstrFifo q i).getLsbD (source q j) = (consumedO q i).getLsbD j := by
    rw [consumedO, rotate_right]
    rfl
  have hdata : instrDataIn q i (source q j) = (item i j).data := by
    rw [instrDataIn, source_source]
    rfl
  show ((q.fifo (source q j)).next i.flush _ (Queue.popInstr q i (source q j))).contents = _
  rw [Fifo.contents_next, hf, if_neg Bool.false_ne_true, h.popInstr, hpush, hdata]
  congr 1
  · simp only [Bool.and_eq_true, decide_eq_true_iff]
  · -- an instruction is only put into a FIFO that is not full
    cases hcons : (consumedO q i).getLsbD j with
    | false =>
      simp only [Bool.false_eq_true, if_false]
      split <;> rfl
    | true =>
      have hfull : (q.fifo (source q j)).full = false := by
        rw [getLsbD_consumedO, Bool.and_eq_true, Bool.and_eq_true, Bool.not_eq_true', Bool.not_eq_true'] at hcons
        exact hcons.2.2
      rw [hfull]
      rfl

/-- The instructions left after the back end may have taken one. -/
def remaining (q : Regs) (i : In) (rest : List Item) : List Item := if fetchEntryReady q i then rest.tail else rest

def nextRead (q : Regs) (i : In) (r : Fin 2) : Fin 2 := if fetchEntryReady q i then r + 1 else r

/-- The FIFOs after the back end may have taken an instruction. -/
theorem Holds.dealt_remaining (h : Holds q r rest) :
    Dealt (fun k => if k = r ∧ fetchEntryReady q i = true then (q.fifo k).contents.tail else (q.fifo k).contents)
      (nextRead q i r) ((remaining q i rest).map Item.data) ∧
    place (nextRead q i r) (remaining q i rest).length = place r rest.length := by
  unfold nextRead remaining
  cases hr : fetchEntryReady q i with
  | false => exact ⟨by simpa using h.dealt, rfl⟩
  | true =>
    have hne : rest ≠ [] := by
      rw [fetchEntryReady, Bool.and_eq_true] at hr
      exact h.valid.1 hr.2
    obtain ⟨x, l, rfl⟩ := List.exists_cons_of_ne_nil hne
    refine ⟨?_, (place_succ r l.length).1⟩
    have hd := h.dealt
    rw [List.map_cons] at hd
    have ht := hd.tail
    have hfun : (fun k => if k = r ∧ true = true then (q.fifo k).contents.tail else (q.fifo k).contents) =
        Function.update (fun k => (q.fifo k).contents) r (q.fifo r).contents.tail := by
      funext k
      by_cases hk : k = r
      · subst hk
        simp
      · simp [hk]
    rw [hfun]
    exact ht

/-- The FIFOs after the instructions of the packet have been put into them. -/
theorem Holds.dealt_next (h : Holds q r rest) (hc : i.valid[1] = true → i.valid[0] = true) (hf : i.flush = false) :
    Dealt (fun k => ((q.next i).fifo k).contents) (nextRead q i r)
      ((remaining q i rest ++ accepted q i).map Item.data) := by
  obtain ⟨hd, hplace⟩ := h.dealt_remaining (i := i)
  have hs0 : source q 0 = place (nextRead q i r) ((remaining q i rest).map Item.data).length := by
    rw [List.length_map, hplace]
    exact h.source_zero
  have hcont (k : Fin 2) := h.contents_next hf (source q k)
  simp only [source_source] at hcont
  have h01 (k : Fin 2) : k = source q 0 ∧ source q k = 0 ∨ k = source q 1 ∧ source q k = 1 := by
    have hsk := source_source (q := q) k
    rcases source_cases (q := q) with ⟨h0, h1⟩ | ⟨h0, h1⟩
    · match k with
      | 0 => exact .inl ⟨h0.symm, h0⟩
      | 1 => exact .inr ⟨h1.symm, h1⟩
    · match k with
      | 0 => exact .inr ⟨h1.symm, h0⟩
      | 1 => exact .inl ⟨h0.symm, h1⟩
  rw [List.map_append]
  rcases h.accepted_cases hc with ⟨hc0, hc1, hacc⟩ | ⟨hc0, hc1, hacc⟩ | ⟨hc0, hc1, hacc⟩
  · have hfun : (fun k => ((q.next i).fifo k).contents) = fun k =>
        if k = r ∧ fetchEntryReady q i = true then (q.fifo k).contents.tail else (q.fifo k).contents := by
      funext k
      rw [hcont]
      rcases h01 k with ⟨-, hk⟩ | ⟨-, hk⟩
      · rw [hk, show (consumedO q i).getLsbD ((0 : Fin 2) : ℕ) = _ from hc0]
        simp
      · rw [hk, show (consumedO q i).getLsbD ((1 : Fin 2) : ℕ) = _ from hc1]
        simp
    rw [hfun, hacc, List.map_nil, List.append_nil]
    exact hd
  · have ha := hd.append (item i 0).data
    rw [← hs0] at ha
    have hfun : (fun k => ((q.next i).fifo k).contents) = Function.update (fun k =>
        if k = r ∧ fetchEntryReady q i = true then (q.fifo k).contents.tail else (q.fifo k).contents) (source q 0)
        ((if source q 0 = r ∧ fetchEntryReady q i = true then (q.fifo (source q 0)).contents.tail
          else (q.fifo (source q 0)).contents) ++ [(item i 0).data]) := by
      funext k
      rw [hcont]
      rcases h01 k with ⟨he, hk⟩ | ⟨he, hk⟩
      · rw [hk, show (consumedO q i).getLsbD ((0 : Fin 2) : ℕ) = _ from hc0, he, Function.update_self]
        simp
      · rw [hk, show (consumedO q i).getLsbD ((1 : Fin 2) : ℕ) = _ from hc1,
          Function.update_of_ne (by rw [he, source_one]; exact succ_ne_self _)]
        simp
    rw [hfun, hacc]
    exact ha
  · have ha := (hd.append (item i 0).data).append (item i 1).data
    rw [List.length_append, List.length_singleton, (place_succ _ _).2, ← hs0, ← source_one,
      Function.update_of_ne (by rw [source_one]; exact succ_ne_self _)] at ha
    have hfun : (fun k => ((q.next i).fifo k).contents) = Function.update (Function.update (fun k =>
        if k = r ∧ fetchEntryReady q i = true then (q.fifo k).contents.tail else (q.fifo k).contents) (source q 0)
        ((if source q 0 = r ∧ fetchEntryReady q i = true then (q.fifo (source q 0)).contents.tail
          else (q.fifo (source q 0)).contents) ++ [(item i 0).data])) (source q 1)
        ((if source q 1 = r ∧ fetchEntryReady q i = true then (q.fifo (source q 1)).contents.tail
          else (q.fifo (source q 1)).contents) ++ [(item i 1).data]) := by
      funext k
      rw [hcont]
      rcases h01 k with ⟨he, hk⟩ | ⟨he, hk⟩
      · rw [hk, show (consumedO q i).getLsbD ((0 : Fin 2) : ℕ) = _ from hc0, he,
          Function.update_of_ne (by rw [source_one]; exact (succ_ne_self _).symm), Function.update_self]
        simp
      · rw [hk, show (consumedO q i).getLsbD ((1 : Fin 2) : ℕ) = _ from hc1, he, Function.update_self]
        simp
    rw [hfun, hacc]
    rw [List.append_assoc] at ha
    exact ha

theorem Holds.is_next (h : Holds q r rest) (hc : i.valid[1] = true → i.valid[0] = true) (hf : i.flush = false) :
    (q.next i).idxIs.toNat =
      (place (nextRead q i r) (remaining q i rest ++ accepted q i).length).val := by
  have hplace := (h.dealt_remaining (i := i)).2
  have hidx : (q.next i).idxIs = q.idxIs + shamt q i := by
    show (if i.flush = true then _ else _) = _
    rw [hf, if_neg Bool.false_ne_true]
  have hlen : (consumedO q i)[0].toNat + (consumedO q i)[1].toNat = (accepted q i).length := by
    show ((consumedO q i).getLsbD 0).toNat + ((consumedO q i).getLsbD 1).toNat = _
    rcases h.accepted_cases hc with ⟨hc0, hc1, hacc⟩ | ⟨hc0, hc1, hacc⟩ | ⟨hc0, hc1, hacc⟩ <;>
      rw [hc0, hc1, hacc] <;> rfl
  have hval : (place (nextRead q i r) (remaining q i rest).length).val = q.idxIs.toNat := by
    rw [hplace, h.is]
  have hadd (m : ℕ) : (place (nextRead q i r) ((remaining q i rest).length + m)).val =
      ((place (nextRead q i r) (remaining q i rest).length).val + m) % 2 := by
    simp only [place]
    omega
  rw [hidx, shamt_eq, hlen, List.length_append, hadd, hval, BitVec.toNat_add, BitVec.toNat_ofNat]
  omega

theorem Holds.ds_next (h : Holds q r rest) (hf : i.flush = false) :
    (q.next i).idxDs = 1#2 <<< (nextRead q i r).val := by
  have hds : (q.next i).idxDs = if fetchEntryReady q i then q.idxDs.rotateLeft 1 else q.idxDs := by
    show (if i.flush = true then _ else _) = _
    rw [hf, if_neg Bool.false_ne_true]
  rw [hds, h.ds, nextRead]
  split
  · exact rotateLeft_oneHot r
  · rfl

/-- The targets of the instructions that are accepted. -/
theorem Holds.targets (h : Holds q r rest) (hc : i.valid[1] = true → i.valid[0] = true) :
    (accepted q i).filterMap Item.target =
      if pushAddress q i && !q.address.full then [i.predictAddress] else [] := by
  have hcons (k : Fin 2) := getLsbD_consumedO (q := q) (i := i) k
  have hpush := pushAddress_iff (q := q) (i := i)
  have hw1 := (wants_spec hc).2.1
  have hc0 : (consumedO q i).getLsbD 0 = _ := hcons 0
  have hc1 : (consumedO q i).getLsbD 1 = _ := hcons 1
  have hov : addressOverflow q i = (q.address.full && pushAddress q i) := rfl
  cases hp : pushAddress q i with
  | false =>
    rw [hp] at hpush hov
    rw [Bool.and_false] at hov
    rw [Bool.false_and, if_neg Bool.false_ne_true]
    simp only [Bool.false_eq_true, false_iff, not_or, not_and, not_not] at hpush
    -- an instruction that is accepted is not predicted
    have hcf (k : Fin 2) (hk : (consumedO q i).getLsbD k = true)
        (hn : wants i k = true → Queue.blocked q k = false → i.cf k = .noCF) : (item i k).target = none := by
      rw [hcons, Bool.and_eq_true, Bool.and_eq_true, Bool.not_eq_true', Bool.not_eq_true'] at hk
      simp [Item.target, item, hn hk.2.1 hk.2.2]
    rcases h.accepted_cases hc with ⟨-, -, hacc⟩ | ⟨hk0, -, hacc⟩ | ⟨hk0, hk1, hacc⟩
    · rw [hacc]
      rfl
    · rw [hacc]
      simp [hcf 0 hk0 hpush.1]
    · rw [hacc]
      simp [hcf 0 hk0 hpush.1, hcf 1 hk1 hpush.2]
  | true =>
    rw [hp, Bool.and_true] at hov
    rw [Bool.true_and]
    cases hfull : q.address.full with
    | true =>
      rw [hov, hfull] at hc0 hc1
      rw [accepted_eq, hc0, hc1]
      rfl
    | false =>
      rw [hov, hfull] at hc0 hc1
      rw [Bool.not_false, if_pos rfl, accepted_eq, hc0, hc1]
      rcases hpush.1 hp with ⟨hw, hb, hcf⟩ | ⟨hw, hb, hcf⟩
      · have hw1' : wants i 1 = false := by
          rw [Bool.eq_false_iff]
          exact fun hw' => hcf (hw1.1 hw').2
        simp [hw, hb, hw1', Item.target, item, hcf]
      · have hb0 : Queue.blocked q 0 = false := by
          rw [Bool.eq_false_iff]
          intro hb0
          rw [h.blocked hb0] at hb
          cases hb
        simp [hw, hb, (wants_spec hc).2.2 hw, hb0, Item.target, item, hcf, (hw1.1 hw).2]

theorem Holds.address_next (h : Holds q r rest) (hc : i.valid[1] = true → i.valid[0] = true) (hf : i.flush = false) :
    (q.next i).address.contents = (remaining q i rest ++ accepted q i).filterMap Item.target := by
  show (q.address.next i.flush _ (Queue.popAddress q i)).contents = _
  rw [Fifo.contents_next, hf, if_neg Bool.false_ne_true, List.filterMap_append, h.targets hc]
  congr 1
  · unfold remaining
    cases rest with
    | nil =>
      have ha := h.address
      rw [List.filterMap_nil] at ha
      rw [ha]
      cases Queue.popAddress q i <;> cases fetchEntryReady q i <;> rfl
    | cons x l =>
      rw [h.popAddress, h.address, List.filterMap_cons]
      cases fetchEntryReady q i with
      | false => simp [List.filterMap_cons]
      | true => cases x.target <;> simp
  · cases pushAddress q i <;> cases q.address.full <;> rfl

theorem Holds.next (h : Holds q r rest) (hc : i.valid[1] = true → i.valid[0] = true) (hf : i.flush = false) :
    Holds (q.next i) (nextRead q i r) (remaining q i rest ++ accepted q i) :=
  ⟨h.ds_next hf, h.is_next hc hf, h.dealt_next hc hf, h.address_next hc hf⟩

theorem holds_flush (hf : i.flush = true) : Holds (q.next i) 0 [] := by
  have hempty {w : ℕ} {α : Type} (f : Fifo w α) (e : Option α) (b : Bool) : (f.next i.flush e b).contents = [] := by
    rw [Fifo.contents_next, hf, if_pos rfl]
  refine ⟨?_, ?_, ⟨hempty _ _ _, hempty _ _ _⟩, hempty _ _ _⟩
  · show (if i.flush = true then _ else _) = _
    rw [hf, if_pos rfl]
    rfl
  · show (if i.flush = true then _ else _ : BitVec 1).toNat = _
    rw [hf, if_pos rfl]
    rfl

end Holds

/-! ### Program order -/

section Order

variable {s : St} {i : In}

/-- The instructions of a packet follow each other. -/
theorem path_offered (h : InOrder s i) (hf : i.flush = false) (hv : i.valid[0] = true) :
    Path (i.addr 0) (offered i) (((offered i).getLast?.map Item.follow).getD 0) := by
  obtain ⟨hw0, hw1, -⟩ := wants_spec h.contiguous
  rw [offered_eq, hw0, hv]
  cases hw : wants i 1 with
  | false => exact ⟨rfl, rfl⟩
  | true =>
    obtain ⟨hv1, hcf⟩ := hw1.1 hw
    refine ⟨rfl, ?_, rfl⟩
    rw [Item.follow, Item.target, if_pos (show (item i 0).data.cf = .noCF from hcf)]
    exact h.second hf hv1 hcf

/-- Those that are accepted lead to where the frontend goes on. -/
theorem path_accepted (h : InOrder s i) (hr : Replays s.regs i) (hf : i.flush = false) (hv : i.valid[0] = true) :
    Path (i.addr 0) (accepted s.regs i) (continues s.regs i) := by
  obtain ⟨l, hl, hrep, haddr⟩ := hr.accepted
  have hp := path_offered h hf hv
  rw [continues]
  cases l with
  | nil =>
    have hno : replayO s.regs i = false := by
      rw [Bool.eq_false_iff]
      exact fun hrep' => hrep.1 hrep' rfl
    rw [hno, if_neg Bool.false_ne_true]
    rw [List.append_nil] at hl
    rwa [hl] at hp ⊢
  | cons x l =>
    rw [hrep.2 (List.cons_ne_nil x l), if_pos rfl, haddr x rfl]
    rw [hl] at hp
    obtain ⟨c, hc, hx, -⟩ := path_append.1 hp
    rwa [hx]

/-- Where the frontend goes on, and that the pc of the queue is the one of its oldest
instruction. -/
structure Tracks (s : St) (rest : List Item) : Prop where
  fresh : s.regs.resetAddress = true → s.acc = [] ∧ s.expect = none
  path : s.regs.resetAddress = false → ∃ a e, s.expect = some e ∧ Path a s.acc e ∧ Path s.regs.pc rest e

def Inv (s : St) : Prop :=
  ∃ l rest r, s.acc = l ++ rest ∧ List.Forall₂ Matches s.out l ∧ Holds s.regs r rest ∧ Tracks s rest

theorem Inv.lossless (h : Inv s) : Lossless s := by
  obtain ⟨l, rest, r, hacc, hout, hh, ht⟩ := h
  refine ⟨⟨rest, l, hacc, hout, hh.valid⟩, ?_⟩
  cases hr : s.regs.resetAddress with
  | true =>
    obtain ⟨ha, he⟩ := ht.fresh hr
    exact ⟨0, 0, by rw [ha]; rfl, by rw [he]; nofun⟩
  | false =>
    obtain ⟨a, e, he, hp, -⟩ := ht.path hr
    refine ⟨a, e, hp, fun x hx => ?_⟩
    rw [he] at hx
    exact (Option.some.inj hx).symm

theorem Inv.replays (h : Inv s) (hc : i.valid[1] = true → i.valid[0] = true) : Replays s.regs i := by
  obtain ⟨l, rest, r, -, -, hh, -⟩ := h
  exact Queue.replays hc hh.blocked

/-- The pc after the back end may have taken an instruction. -/
theorem path_remaining {r : Fin 2} {rest : List Item} {e : BitVec 64} (hh : Holds s.regs r rest)
    (hp : Path s.regs.pc rest e) (hr : s.regs.resetAddress = false) :
    Path (pcD s.regs i) (remaining s.regs i rest) e := by
  unfold pcD remaining
  rw [hr, Bool.and_false, if_neg Bool.false_ne_true]
  cases hready : fetchEntryReady s.regs i with
  | false =>
    have hpop : popAddress s.regs i = false := by
      rw [popAddress, hh.popInstr, hh.popInstr, hready]
      simp
    rw [hpop]
    exact hp
  | true =>
    have hne : rest ≠ [] := by
      rw [fetchEntryReady, Bool.and_eq_true] at hready
      exact hh.valid.1 hready.2
    obtain ⟨x, l, rfl⟩ := List.exists_cons_of_ne_nil hne
    obtain ⟨hx, hl⟩ := hp
    obtain ⟨hinstr, -, -, htarget⟩ := hh.fetchEntry
    rw [hh.popAddress, hready, hinstr]
    cases ht : x.target with
    | none =>
      have hfollow : x.follow = s.regs.pc + len x.data.instr := by
        rw [Item.follow, ht, ← hx]
        rfl
      rw [hfollow] at hl
      exact hl
    | some t =>
      have hfollow : x.follow = t := by
        rw [Item.follow, ht]
        rfl
      rw [hfollow] at hl
      rw [htarget t ht]
      exact hl

theorem accepted_of_invalid {q : Regs} (hc : i.valid[1] = true → i.valid[0] = true) (hv : i.valid[0] = false) :
    accepted q i = [] := by
  obtain ⟨hw0, -, h10⟩ := wants_spec hc
  have hw1 : wants i 1 = false := by
    rw [Bool.eq_false_iff]
    intro hw
    rw [h10 hw, hv] at hw0
    cases hw0
  have hc0 : (consumedO q i).getLsbD 0 = _ := getLsbD_consumedO (q := q) (i := i) 0
  have hc1 : (consumedO q i).getLsbD 1 = _ := getLsbD_consumedO (q := q) (i := i) 1
  rw [accepted_eq, hc0, hc1, hw1, hw0, hv]
  simp

theorem Tracks.next {r : Fin 2} {rest : List Item} (hh : Holds s.regs r rest) (ht : Tracks s rest)
    (hrest : s.acc = [] → rest = []) (ho : InOrder s i) (hr : Replays s.regs i) (hf : i.flush = false) :
    Tracks (s.next i) (remaining s.regs i rest ++ accepted s.regs i) := by
  have hacc : (s.next i).acc = s.acc ++ accepted s.regs i := by
    show (if i.flush = true then _ else _) = _
    rw [hf, if_neg Bool.false_ne_true]
  have hexp : (s.next i).expect = if i.valid[0] then some (continues s.regs i) else s.expect := by
    show (if i.flush = true then _ else _) = _
    rw [hf, if_neg Bool.false_ne_true]
  have hreset : (s.next i).regs.resetAddress =
      if i.valid[0] && s.regs.resetAddress then false else s.regs.resetAddress := by
    show (if i.flush = true then _ else _) = _
    rw [hf, if_neg Bool.false_ne_true]
  have hpc : (s.next i).regs.pc = pcD s.regs i := rfl
  cases hv : i.valid[0] with
  | false =>
    rw [hv, Bool.false_and, if_neg Bool.false_ne_true] at hreset
    rw [hv, if_neg Bool.false_ne_true] at hexp
    rw [accepted_of_invalid ho.contiguous hv, List.append_nil] at hacc ⊢
    refine ⟨fun hr' => ?_, fun hr' => ?_⟩
    · rw [hacc, hexp]
      exact ht.fresh (hreset ▸ hr')
    · rw [hreset] at hr'
      obtain ⟨a, e, he, hp, hrem⟩ := ht.path hr'
      exact ⟨a, e, by rw [hexp, he], by rw [hacc]; exact hp, by rw [hpc]; exact path_remaining hh hrem hr'⟩
  | true =>
    rw [hv, if_pos rfl] at hexp
    have hpath := path_accepted ho hr hf hv
    cases hres : s.regs.resetAddress with
    | true =>
      rw [hv, hres] at hreset
      refine ⟨fun hr' => absurd (hreset.symm.trans hr') (by decide), fun _ => ?_⟩
      obtain ⟨hnil, -⟩ := ht.fresh hres
      have hpc' : pcD s.regs i = i.addr 0 := by
        unfold pcD
        rw [hv, hres]
        rfl
      have hrem : remaining s.regs i rest = [] := by
        rw [remaining, hrest hnil]
        split <;> rfl
      rw [hpc, hpc', hacc, hnil, hrem, hexp]
      exact ⟨_, _, rfl, hpath, hpath⟩
    | false =>
      refine ⟨fun hr' => ?_, fun _ => ?_⟩
      · rw [hreset, hres, Bool.and_false, if_neg Bool.false_ne_true] at hr'
        cases hr'
      · obtain ⟨a, e, he, hp, hrem⟩ := ht.path hres
        have hat : e = i.addr 0 := by
          rcases ho.first hf hv with hn | hs
          · rw [he] at hn
            cases hn
          · exact Option.some.inj (he.symm.trans hs)
        refine ⟨a, _, hexp, ?_, ?_⟩
        · rw [hacc]
          exact path_append.2 ⟨e, hp, by rw [hat]; exact hpath⟩
        · rw [hpc]
          exact path_append.2 ⟨e, path_remaining hh hrem hres, by rw [hat]; exact hpath⟩

theorem Inv.next (h : Inv s) (ho : InOrder s i) : Inv (s.next i) := by
  have hrep := h.replays ho.contiguous
  obtain ⟨l, rest, r, hacc, hout, hh, ht⟩ := h
  cases hf : i.flush with
  | true =>
    refine ⟨[], [], 0, ?_, ?_, holds_flush hf, ?_⟩
    · show (if i.flush = true then _ else _) = _
      rw [hf, if_pos rfl]
      rfl
    · show List.Forall₂ Matches (if i.flush = true then _ else _) []
      rw [hf, if_pos rfl]
      exact .nil
    · have hreset : (s.next i).regs.resetAddress = true := by
        show (if i.flush = true then _ else _) = _
        rw [hf, if_pos rfl]
      refine ⟨fun _ => ⟨?_, ?_⟩, fun hr => absurd (hreset.symm.trans hr) (by decide)⟩
      · show (if i.flush = true then _ else _) = _
        rw [hf, if_pos rfl]
      · show (if i.flush = true then _ else _) = _
        rw [hf, if_pos rfl]
  | false =>
    have hnext := hh.next ho.contiguous hf
    have hrest : s.acc = [] → rest = [] := fun hn => by
      rw [hacc] at hn
      exact (List.append_eq_nil_iff.1 hn).2
    have htnext := ht.next hh hrest ho hrep hf
    have haccn : (s.next i).acc = s.acc ++ accepted s.regs i := by
      show (if i.flush = true then _ else _) = _
      rw [hf, if_neg Bool.false_ne_true]
    have houtn : (s.next i).out =
        if fetchEntryReady s.regs i then s.out ++ [fetchEntryO s.regs] else s.out := by
      show (if i.flush = true then _ else _) = _
      rw [hf, if_neg Bool.false_ne_true]
    unfold remaining at hnext htnext
    cases hready : fetchEntryReady s.regs i with
    | false =>
      simp only [hready, Bool.false_eq_true, if_false] at hnext htnext houtn
      refine ⟨l, rest ++ accepted s.regs i, _, ?_, by rw [houtn]; exact hout, hnext, htnext⟩
      rw [haccn, hacc, List.append_assoc]
    | true =>
      simp only [hready, if_true] at hnext htnext houtn
      have hne : rest ≠ [] := by
        rw [fetchEntryReady, Bool.and_eq_true] at hready
        exact hh.valid.1 hready.2
      obtain ⟨x, k, rfl⟩ := List.exists_cons_of_ne_nil hne
      refine ⟨l ++ [x], k ++ accepted s.regs i, _, ?_, ?_, hnext, htnext⟩
      · rw [haccn, hacc]
        simp
      · rw [houtn]
        refine List.rel_append hout (.cons ?_ .nil)
        obtain ⟨hinstr, hex, hcf, htarget⟩ := hh.fetchEntry
        have haddr : (fetchEntryO s.regs).address = s.regs.pc ∧
            (fetchEntryO s.regs).predictAddress = s.regs.address.out := by
          unfold fetchEntryO
          dsimp only
          constructor <;> split <;> split <;> rfl
        refine ⟨?_, hinstr, hex, hcf, fun t ht' => by rw [haddr.2]; exact htarget t ht'⟩
        rw [haddr.1]
        -- the pc is that of the oldest instruction; there is one, so the queue is not fresh
        have hres : s.regs.resetAddress = false := by
          rw [Bool.eq_false_iff]
          intro hres
          have := (ht.fresh hres).1
          rw [hacc] at this
          simp at this
        obtain ⟨a, e, -, -, hx, -⟩ := ht.path hres
        exact hx.symm

end Order

theorem inv_reset : Inv .reset :=
  ⟨[], [], 0, rfl, .nil, ⟨rfl, rfl, ⟨rfl, rfl⟩, rfl⟩, fun _ => ⟨rfl, rfl⟩, nofun⟩

/-- In every run from reset whose packets are where the frontend goes on: the back end takes the
instructions that were accepted, which are in program order, and in every cycle the first
instructions of the packet are accepted and a replay is asked for from the first one that is
not. -/
theorem queue_lossless (is : List In) (h : machine.Steps InOrder St.reset is) :
    machine.Always Lossless .reset is ∧ machine.Steps (fun s i => Replays s.regs i) .reset is := by
  have step : ∀ s i, Inv s → InOrder s i → Inv (machine.next s i) := fun _ _ hi ho => hi.next ho
  exact ⟨(Machine.always_of_steps step is St.reset inv_reset h).mono fun _ hs => hs.lossless,
    Machine.steps_of_inv step (fun _ _ hi ho => hi.replays ho.contiguous) is St.reset inv_reset h⟩

/-- A packet with the instructions `x` and `y`; the back end takes one in every cycle it can. -/
def In.packet (valid : BitVec 2) (x y : BitVec 32 × BitVec 64 × Cf) (predict : BitVec 64) : In where
  flush := false
  instr k := if k = 0 then x.1 else y.1
  addr k := if k = 0 then x.2.1 else y.2.1
  valid := valid
  exception := false
  predictAddress := predict
  cf k := if k = 0 then x.2.2 else y.2.2
  space := true

def In.none : In := .packet 0 (0, 0, .noCF) (0, 0, .noCF) 0

/-- Two compressed instructions, the second one a jump, and the instruction at its target. -/
def jumpRun : List In :=
  [.packet 3 (0x0001, 0x1000, .noCF) (0xa001, 0x1002, .jump) 0x2000,
    .packet 1 (0x00000013, 0x2000, .noCF) (0, 0, .noCF) 0, .none, .none]

theorem queue_lossless_jump : machine.Always Lossless .reset jumpRun ∧
    (machine.run .reset jumpRun).out.map (fun e => (e.address, e.cf)) =
      [(0x1000, .noCF), (0x1002, .jump), (0x2000, .noCF)] :=
  ⟨(queue_lossless jumpRun (by decide +kernel)).1, by decide +kernel⟩

end Queue
end Frontend
end Ariane

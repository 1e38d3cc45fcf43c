/-
# The scoreboard

`src/scoreboard.sv`: a ring of issued instructions between a commit pointer and an
issue pointer. An instruction enters at the issue pointer, whose value is its
transaction id; the functional units write results back to the transaction id; the two
oldest instructions are shown to the commit stage, which acknowledges none, the first
or both; a flush empties the ring. The number of entries is `2 ^ w`, of which at most
`2 ^ w - 1` are in use: a full ring is one whose count is all ones.

It is a queue (`Fifo`): as long as its neighbours keep to what the module asserts, the
slots from the commit pointer on are the instructions in flight, oldest first
(`Tracks`).
-/
import Mathlib.Data.List.Range
import Mathlib.Data.List.Perm.Basic
import Ariane.Lib.Machine
import Ariane.Lib.Ring
import Ariane.Core.CommitStage

namespace Ariane
namespace Scoreboard

open Lib (Machine)

/-! ### The module -/

/-- An entry of `mem_q`. -/
structure Slot where
  issued : Bool
  isRdFprFlag : Bool
  sbe : IssueEntry
deriving DecidableEq, Repr

structure Regs (w : ℕ) where
  mem : BitVec w → Slot
  issueCnt : BitVec w
  issuePointer : BitVec w
  commitPointer : Fin 2 → BitVec w

variable {w : ℕ}

/-- An entry of zeros. -/
def emptyEntry : IssueEntry := ⟨ScoreboardEntry.empty, 0, 0, false, false, false⟩

def reset : Regs w := ⟨fun _ => ⟨false, false, emptyEntry⟩, 0, 0, fun _ => 0⟩

/-- A write-back port. -/
structure Wb (w : ℕ) where
  valid : Bool
  transId : BitVec w
  wbdata : BitVec 64
  ex : Exn

/-- The inputs of a cycle; there are as many write-back ports as the build has. -/
structure In (w : ℕ) where
  flushUnissuedInstr : Bool
  flush : Bool
  unresolvedBranch : Bool
  commitAck : Fin 2 → Bool
  decodedInstr : IssueEntry
  decodedInstrValid : Bool
  issueAck : Bool
  targetAddress : BitVec 64
  wb : List (Wb w)

/-- `issue_full`. -/
def issueFull (s : Regs w) : Bool := s.issueCnt == BitVec.allOnes w

/-- `commit_instr_o`. -/
def commitInstrO (s : Regs w) (p : Fin 2) : IssueEntry := (s.mem (s.commitPointer p)).sbe

/-- `issue_instr_valid_o`. -/
def issueInstrValidO (s : Regs w) (i : In w) : Bool :=
  i.decodedInstrValid && !i.unresolvedBranch && !issueFull s

/-- `decoded_instr_ack_o`. -/
def decodedInstrAckO (s : Regs w) (i : In w) : Bool := i.issueAck && !issueFull s

/-- `issue_en`. -/
def issueEn (s : Regs w) (i : In w) : Bool :=
  i.decodedInstrValid && decodedInstrAckO s i && !i.flushUnissuedInstr

/-- A result written back. An instruction of the floating-point unit gets its flags in
the cause of an exception that is not valid. -/
def wbEntry (fu : Fu) (target : BitVec 64) (b : Wb w) (e : IssueEntry) : IssueEntry :=
  { e with
    valid := true
    result := b.wbdata
    bp := ⟨target⟩
    ex := if b.ex.valid then b.ex
      else if fu.isFpu then { e.ex with cause := b.ex.cause }
      else e.ex }

/-- One write-back port. What is no longer issued may still come back after a flush. -/
def writeBack (s : Regs w) (target : BitVec 64) (m : BitVec w → Slot) (b : Wb w) : BitVec w → Slot :=
  if b.valid && (s.mem b.transId).issued then
    Function.update m b.transId
      { m b.transId with sbe := wbEntry (s.mem b.transId).sbe.fu target b (m b.transId).sbe }
  else m

/-- The slot of an instruction that commits. -/
def retire (sl : Slot) : Slot := { sl with issued := false, sbe := { sl.sbe with valid := false } }

/-- One commit port. -/
def commitPort (s : Regs w) (i : In w) (p : Fin 2) (m : BitVec w → Slot) : BitVec w → Slot :=
  if i.commitAck p then Function.update m (s.commitPointer p) (retire (m (s.commitPointer p))) else m

/-- A slot after a flush. -/
def drop (sl : Slot) : Slot :=
  { retire sl with sbe := { (retire sl).sbe with ex := { sl.sbe.ex with valid := false } } }

/-- `issue_fifo`. -/
def issueFifo (s : Regs w) (i : In w) : BitVec w → Slot :=
  let m :=
    if issueEn s i then
      Function.update s.mem s.issuePointer ⟨true, i.decodedInstr.op.isRdFpr, i.decodedInstr⟩
    else s.mem
  let m := commitPort s i 1 (commitPort s i 0 (i.wb.foldl (writeBack s i.targetAddress) m))
  if i.flush then fun k => drop (m k) else m

/-- `num_commit`. -/
def numCommit (i : In w) : ℕ := (i.commitAck 0).toNat + (i.commitAck 1).toNat

def next (s : Regs w) (i : In w) : Regs w where
  mem := issueFifo s i
  issueCnt :=
    if i.flush then 0
    else s.issueCnt - BitVec.ofNat w (numCommit i) + BitVec.ofNat w (issueEn s i).toNat
  issuePointer := if i.flush then 0 else s.issuePointer + BitVec.ofNat w (issueEn s i).toNat
  commitPointer p :=
    if i.flush then 0
    else s.commitPointer 0 + BitVec.ofNat w (numCommit i) + BitVec.ofNat w p.val

def machine : Machine (Regs w) (In w) := ⟨(· = reset), next⟩

/-- What the module asserts of its inputs, and that the commit stage acknowledges the
second instruction only with the first. -/
structure Regular (s : Regs w) (i : In w) : Prop where
  ack : ∀ p, i.commitAck p = true → (commitInstrO s p).valid = true
  inOrder : i.commitAck 1 = true → i.commitAck 0 = true
  issue : i.issueAck = true → issueInstrValidO s i = true
  transId : i.wb.Pairwise fun b b' => b.valid = true → b'.valid = true → b.transId ≠ b'.transId

instance (s : Regs w) (i : In w) : Decidable (Regular s i) :=
  decidable_of_iff ((∀ p, i.commitAck p = true → (commitInstrO s p).valid = true) ∧
    (i.commitAck 1 = true → i.commitAck 0 = true) ∧
    (i.issueAck = true → issueInstrValidO s i = true) ∧
    i.wb.Pairwise fun b b' => b.valid = true → b'.valid = true → b.transId ≠ b'.transId)
    ⟨fun h => ⟨h.1, h.2.1, h.2.2.1, h.2.2.2⟩, fun h => ⟨h.ack, h.inOrder, h.issue, h.transId⟩⟩

/-- The commit stage acknowledges only valid instructions, and the second one only with
the first. -/
theorem acks_of_commit {s : Regs w} {i : In w} {x : Commit.In}
    (hx : ∀ p, x.commitInstr p = (commitInstrO s p).toScoreboardEntry)
    (h0 : i.commitAck 0 = (Commit.commit x).ack0) (h1 : i.commitAck 1 = (Commit.commit x).ack1) :
    (∀ p, i.commitAck p = true → (commitInstrO s p).valid = true) ∧
      (i.commitAck 1 = true → i.commitAck 0 = true) := by
  have hv0 : (Commit.commit x).ack0 = true → (x.commitInstr 0).valid = true := by
    intro hc
    rw [Commit.commit_ack0, Bool.and_eq_true, Commit.mayCommit] at hc
    simp only [Bool.and_eq_true] at hc
    exact hc.1.1.1
  have hv1 : (Commit.commit x).ack1 = true → (x.commitInstr 1).valid = true := by
    intro hc
    rw [Commit.commit_ack1] at hc
    simp only [Bool.and_eq_true] at hc
    exact hc.1.1.1.1.1.1.1.2
  refine ⟨fun p hc => ?_, fun hc => ?_⟩
  · have hp : p = 0 ∨ p = 1 := by omega
    rcases hp with rfl | rfl
    · exact congrArg ScoreboardEntry.valid (hx 0) ▸ hv0 (h0 ▸ hc)
    · exact congrArg ScoreboardEntry.valid (hx 1) ▸ hv1 (h1 ▸ hc)
  · rw [h0]
    exact (Commit.ack0_of_ack1 x (h1 ▸ hc)).1

/-! ### The queue -/

/-- An instruction in flight: which issue it was, its transaction id, the instruction
as decoded, and what was written back to it. -/
structure Item (w : ℕ) where
  seq : ℕ
  transId : BitVec w
  instr : IssueEntry
  wbs : List (BitVec 64 × Wb w)

/-- The instruction with its results. -/
def Item.entry (t : Item w) : IssueEntry :=
  t.wbs.foldl (fun e b => wbEntry t.instr.fu b.1 b.2 e) t.instr

/-- The write-backs of a cycle to its transaction id. -/
def Item.writeBack (i : In w) (t : Item w) : Item w :=
  { t with
    wbs := t.wbs ++ (i.wb.filter fun b => b.valid && b.transId == t.transId).map (i.targetAddress, ·) }

/-- The instructions in flight, oldest first; those that have committed, and those a
flush has dropped; the number issued, and the next transaction id. -/
structure Fifo (w : ℕ) where
  items : List (Item w)
  committed : List (Item w)
  dropped : List (Item w)
  issued : ℕ
  nextId : BitVec w

def Fifo.reset : Fifo w := ⟨[], [], [], 0, 0⟩

/-- The queue takes an instruction while fewer than `2 ^ w - 1` are in flight. -/
def Fifo.takes (a : Fifo w) (i : In w) : Bool :=
  i.decodedInstrValid && i.issueAck && decide (a.items.length < 2 ^ w - 1) && !i.flushUnissuedInstr

/-- The instruction that enters. -/
def Fifo.enters (a : Fifo w) (i : In w) : List (Item w) :=
  if a.takes i then [⟨a.issued, a.nextId, i.decodedInstr, []⟩] else []

/-- The instructions that stay if there is no flush. -/
def Fifo.stays (a : Fifo w) (i : In w) : List (Item w) :=
  (a.items.map (Item.writeBack i)).drop (numCommit i) ++ a.enters i

def Fifo.next (a : Fifo w) (i : In w) : Fifo w where
  items := if i.flush then [] else a.stays i
  committed := a.committed ++ a.items.take (numCommit i)
  dropped := if i.flush then a.dropped ++ a.stays i else a.dropped
  issued := a.issued + (a.enters i).length
  nextId := if i.flush then 0 else a.nextId + BitVec.ofNat w (a.enters i).length

def Fifo.machine : Machine (Fifo w) (In w) := ⟨(· = Fifo.reset), Fifo.next⟩

/-! ### The ring is the queue -/

/-- The slot of an instruction in flight. -/
def Item.slot (t : Item w) : Slot := ⟨true, t.instr.op.isRdFpr, t.entry⟩

/-- A slot that holds no instruction. -/
def Dead (sl : Slot) : Prop := sl.issued = false ∧ sl.sbe.valid = false

/-- The slots from the commit pointer on are the instructions in flight, oldest first,
and the count and the pointers are theirs. -/
structure Tracks (s : Regs w) (a : Fifo w) : Prop where
  ring : Lib.Ring.Holds Dead s.mem (s.commitPointer 0) (a.items.map Item.slot)
  lt : a.items.length < 2 ^ w
  issueCnt : s.issueCnt = BitVec.ofNat w a.items.length
  issuePointer : s.issuePointer = s.commitPointer 0 + BitVec.ofNat w a.items.length
  nextId : a.nextId = s.issuePointer
  transId : ∀ j (hj : j < a.items.length), a.items[j].transId = s.commitPointer 0 + BitVec.ofNat w j
  -- after a reset or a flush both commit pointers are zero
  second : s.commitPointer 1 = s.commitPointer 0 + 1 ∨ a.items = []

theorem tracks_reset : Tracks (reset : Regs w) Fifo.reset where
  ring := Lib.Ring.Holds.nil (fun _ => ⟨rfl, rfl⟩) _
  lt := Nat.two_pow_pos w
  issueCnt := rfl
  issuePointer := by simp [reset, Fifo.reset]
  nextId := rfl
  transId := fun _ hj => absurd hj (Nat.not_lt_zero _)
  second := .inr rfl

namespace Tracks

variable {s : Regs w} {a : Fifo w}

theorem getElem (h : Tracks s a) {j : ℕ} (hj : j < a.items.length) :
    s.mem (s.commitPointer 0 + BitVec.ofNat w j) = a.items[j].slot := by
  have hr := h.ring.getElem (by simpa using hj)
  rwa [List.getElem_map] at hr

theorem issueCnt_toNat (h : Tracks s a) : s.issueCnt.toNat = a.items.length := by
  rw [h.issueCnt, BitVec.toNat_ofNat, Nat.mod_eq_of_lt h.lt]

/-- A slot that shows a valid entry or an issued one is one of those in flight. -/
theorem lt_of_live (h : Tracks s a) {k : BitVec w}
    (hk : (s.mem k).issued = true ∨ (s.mem k).sbe.valid = true) :
    (k - s.commitPointer 0).toNat < a.items.length := by
  have hlt := h.ring.lt_of_not_dead (k := k) fun hd => by
    rcases hk with hk | hk
    · simp [hd.1] at hk
    · simp [hd.2] at hk
  simpa using hlt

/-- An issued slot is that of an instruction in flight. -/
theorem exists_item (h : Tracks s a) {k : BitVec w} (hk : (s.mem k).issued = true) :
    ∃ t ∈ a.items, s.mem k = t.slot ∧ t.transId = k := by
  have hlt := h.lt_of_live (.inl hk)
  have hslot := h.getElem hlt
  have hid := h.transId _ hlt
  rw [Lib.Ring.slot_of_toNat_sub] at hslot hid
  exact ⟨_, List.getElem_mem hlt, hslot, hid⟩

/-- The slot of an instruction in flight is the one of its transaction id. -/
theorem mem_transId (h : Tracks s a) {t : Item w} (ht : t ∈ a.items) : s.mem t.transId = t.slot := by
  obtain ⟨j, hj, rfl⟩ := List.getElem_of_mem ht
  rw [h.transId j hj]
  exact h.getElem hj

/-- The issued slots are those from the commit pointer up to the issue pointer. -/
theorem issued_iff (h : Tracks s a) (k : BitVec w) :
    (s.mem k).issued = true ↔ (k - s.commitPointer 0).toNat < a.items.length := by
  refine ⟨fun hk => h.lt_of_live (.inl hk), fun hk => ?_⟩
  have hslot := h.getElem hk
  rw [Lib.Ring.slot_of_toNat_sub] at hslot
  rw [hslot]
  rfl

theorem full_iff (h : Tracks s a) : issueFull s = true ↔ a.items.length = 2 ^ w - 1 := by
  rw [issueFull, beq_iff_eq, BitVec.toNat_eq, h.issueCnt_toNat, BitVec.toNat_allOnes]

theorem issueEn_eq (h : Tracks s a) (i : In w) : issueEn s i = a.takes i := by
  have hfull : (!issueFull s) = decide (a.items.length < 2 ^ w - 1) := by
    have hlt := h.lt
    rw [Bool.eq_iff_iff, Bool.not_eq_true', ← Bool.not_eq_true, h.full_iff, decide_eq_true_iff]
    omega
  simp only [issueEn, decodedInstrAckO, hfull, Fifo.takes, Bool.and_assoc]

/-- The instruction at the first commit port is the oldest one. -/
theorem commit_zero (h : Tracks s a) (hv : (commitInstrO s 0).valid = true) :
    0 < a.items.length := by
  have hlt := h.lt_of_live (.inr hv)
  simpa using hlt

/-- The instruction at the second commit port is the second oldest one. -/
theorem commit_one (h : Tracks s a) (hv : (commitInstrO s 1).valid = true) :
    s.commitPointer 1 = s.commitPointer 0 + 1 ∧ 1 < a.items.length := by
  have hlt := h.lt_of_live (.inr hv)
  have hp : s.commitPointer 1 = s.commitPointer 0 + 1 := by
    refine h.second.resolve_right fun hn => ?_
    rw [hn] at hlt
    exact absurd hlt (Nat.not_lt_zero _)
  refine ⟨hp, ?_⟩
  have hpow := h.lt
  have hone := Lib.Ring.toNat_slot_sub (s.commitPointer 0) (i := 1) (by omega)
  rw [hp] at hlt
  exact hone ▸ hlt

/-! ### One cycle -/

/-- The ring after the instruction that enters. -/
theorem issue (h : Tracks s a) (i : In w) :
    Lib.Ring.Holds Dead
      (if issueEn s i then
        Function.update s.mem s.issuePointer ⟨true, i.decodedInstr.op.isRdFpr, i.decodedInstr⟩
      else s.mem)
      (s.commitPointer 0) ((a.items ++ a.enters i).map Item.slot) := by
  rw [h.issueEn_eq i, Fifo.enters, List.map_append]
  split
  · have hp := h.ring.push (by simpa using h.lt) ⟨true, i.decodedInstr.op.isRdFpr, i.decodedInstr⟩
    rw [List.length_map, ← h.issuePointer] at hp
    exact hp
  · simpa using h.ring

end Tracks

theorem writeBack_of_ne (s : Regs w) (target : BitVec 64) (m : BitVec w → Slot) {b : Wb w}
    {k : BitVec w} (hk : k ≠ b.transId) : writeBack s target m b k = m k := by
  unfold writeBack
  split
  · exact Function.update_of_ne hk _ m
  · rfl

/-- A slot after the write-back ports: only the ports with its index count, and only if
it was issued. -/
theorem foldl_writeBack (s : Regs w) (target : BitVec 64) (k : BitVec w) :
    ∀ (bs : List (Wb w)) (m : BitVec w → Slot), bs.foldl (writeBack s target) m k =
      if (s.mem k).issued then
        { m k with
          sbe := (bs.filter fun b => b.valid && b.transId == k).foldl
            (fun e b => wbEntry (s.mem k).sbe.fu target b e) (m k).sbe }
      else m k
  | [], m => by simp
  | b :: bs, m => by
    rw [List.foldl_cons, foldl_writeBack s target k bs, List.filter_cons]
    by_cases hk : k = b.transId
    · subst hk
      cases hi : (s.mem b.transId).issued <;> cases hv : b.valid <;> simp [writeBack, hi, hv]
    · have hne : (b.transId == k) = false := beq_false_of_ne (Ne.symm hk)
      simp [writeBack_of_ne s target m hk, hne]

/-- A write-back leaves the instruction what it is, and its exception if it has one. -/
theorem foldl_wbEntry_keep (fu : Fu) : ∀ (bs : List (BitVec 64 × Wb w)) (e : IssueEntry),
    let e' := bs.foldl (fun e b => wbEntry fu b.1 b.2 e) e
    e'.fu = e.fu ∧ e'.op = e.op ∧ e'.rd = e.rd ∧ (e.ex.valid = true → e'.ex.valid = true)
  | [], _ => ⟨rfl, rfl, rfl, id⟩
  | b :: bs, e => by
    obtain ⟨hfu, hop, hrd, hex⟩ := foldl_wbEntry_keep fu bs (wbEntry fu b.1 b.2 e)
    refine ⟨hfu, hop, hrd, fun h => hex ?_⟩
    unfold wbEntry
    dsimp only
    split_ifs with hb hf
    · exact hb
    · exact h
    · exact h

theorem Item.entry_keep (t : Item w) : t.entry.fu = t.instr.fu ∧ t.entry.op = t.instr.op ∧
    t.entry.rd = t.instr.rd ∧ (t.instr.ex.valid = true → t.entry.ex.valid = true) :=
  foldl_wbEntry_keep t.instr.fu t.wbs t.instr

theorem Item.entry_writeBack (i : In w) (t : Item w) :
    (t.writeBack i).entry = (i.wb.filter fun b => b.valid && b.transId == t.transId).foldl
      (fun e b => wbEntry t.instr.fu i.targetAddress b e) t.entry := by
  simp only [Item.entry, Item.writeBack, List.foldl_append, List.foldl_map]

namespace Tracks

variable {s : Regs w} {a : Fifo w}

/-- The ring after the write-backs. The instruction that enters gets none. -/
theorem wb (h : Tracks s a) (i : In w) {m : BitVec w → Slot}
    (hm : Lib.Ring.Holds Dead m (s.commitPointer 0) ((a.items ++ a.enters i).map Item.slot)) :
    Lib.Ring.Holds Dead (i.wb.foldl (writeBack s i.targetAddress) m) (s.commitPointer 0)
      ((a.items.map (Item.writeBack i) ++ a.enters i).map Item.slot) := by
  have hlen : ((a.items.map (Item.writeBack i) ++ a.enters i).map Item.slot).length =
      ((a.items ++ a.enters i).map Item.slot).length := by simp
  have hpow := hm.le
  refine Lib.Ring.Holds.of_getElem (hlen ▸ hpow) (fun j hj => ?_) fun k hk => ?_
  · rw [hlen] at hj
    have hslot := hm.getElem hj
    have hdist := Lib.Ring.toNat_slot_sub (s.commitPointer 0) (hj.trans_le hpow)
    rw [foldl_writeBack, hslot]
    by_cases hlt : j < a.items.length
    · have hiss : (s.mem (s.commitPointer 0 + BitVec.ofNat w j)).issued = true := by
        rw [h.issued_iff, hdist]
        exact hlt
      simp only [if_true, h.getElem hlt, List.getElem_map, Item.slot, (Item.entry_keep _).1]
      rw [List.getElem_append_left hlt, List.getElem_append_left (by simpa using hlt),
        List.getElem_map, Item.entry_writeBack, h.transId j hlt]
      rfl
    · have hiss : ¬(s.mem (s.commitPointer 0 + BitVec.ofNat w j)).issued = true := by
        rw [h.issued_iff, hdist]
        exact hlt
      simp only [hiss, List.getElem_map, List.getElem_append_right (Nat.le_of_not_lt hlt)]
      rw [List.getElem_append_right (by simpa using hlt)]
      simp
  · rw [hlen] at hk
    have hiss : ¬(s.mem k).issued = true := by
      rw [h.issued_iff]
      simp only [List.length_map, List.length_append] at hk
      omega
    rw [foldl_writeBack, if_neg hiss]
    exact hm.rest k hk

/-- A commit port that acknowledges takes the oldest slot out. -/
theorem holds_commitPort {i : In w} {p : Fin 2} {m : BitVec w → Slot} {l : List Slot}
    (hc : i.commitAck p = true) (hm : Lib.Ring.Holds Dead m (s.commitPointer p) l)
    (hl : 0 < l.length) :
    Lib.Ring.Holds Dead (commitPort s i p m) (s.commitPointer p + 1) (l.drop 1) := by
  obtain ⟨e, l', rfl⟩ := List.exists_cons_of_length_pos hl
  rw [commitPort, if_pos hc]
  exact hm.pop ⟨rfl, rfl⟩

/-- No more instructions commit than are in flight, and the second one only next to the
first. -/
theorem commits (h : Tracks s a) {i : In w} (ok : Regular s i) :
    numCommit i ≤ a.items.length ∧
      (i.commitAck 1 = true → s.commitPointer 1 = s.commitPointer 0 + 1) := by
  have h0 : i.commitAck 0 = true → 0 < a.items.length := fun hc => h.commit_zero (ok.ack 0 hc)
  have h1 := fun hc => h.commit_one (ok.ack 1 hc)
  refine ⟨?_, fun hc => (h1 hc).1⟩
  unfold numCommit
  cases hc1 : i.commitAck 1 with
  | true => rw [ok.inOrder hc1]; exact (h1 hc1).2
  | false =>
    cases hc0 : i.commitAck 0 with
    | true => exact h0 hc0
    | false => exact Nat.zero_le _

/-- A port that acknowledges is among the number of commits. -/
theorem lt_numCommit {i : In w} (ok : Regular s i) {p : Fin 2} (hc : i.commitAck p = true) :
    p.val < numCommit i := by
  unfold numCommit
  match p with
  | 0 =>
    rw [hc]
    exact Nat.lt_add_right _ Nat.one_pos
  | 1 =>
    rw [hc, ok.inOrder hc]
    exact Nat.one_lt_two

/-- The ring after the commits. -/
theorem commit (h : Tracks s a) {i : In w} (ok : Regular s i) {m : BitVec w → Slot} {l : List Slot}
    (hm : Lib.Ring.Holds Dead m (s.commitPointer 0) l) (hl : a.items.length ≤ l.length) :
    Lib.Ring.Holds Dead (commitPort s i 1 (commitPort s i 0 m))
      (s.commitPointer 0 + BitVec.ofNat w (numCommit i)) (l.drop (numCommit i)) := by
  obtain ⟨hle, hp⟩ := h.commits ok
  cases hc0 : i.commitAck 0 with
  | false =>
    have hc1 : i.commitAck 1 = false := by
      by_contra hc1
      simp [ok.inOrder (by simpa using hc1)] at hc0
    simpa [commitPort, hc1, hc0, numCommit] using hm
  | true =>
    have hn : numCommit i = 1 + (i.commitAck 1).toNat := by rw [numCommit, hc0]; rfl
    have hpop := holds_commitPort hc0 hm (by omega)
    cases hc1 : i.commitAck 1 with
    | false => simpa [hn, hc1, commitPort] using hpop
    | true =>
      rw [hc1, Bool.toNat_true] at hn
      rw [← hp hc1] at hpop
      have hpop' := holds_commitPort hc1 hpop (by rw [List.length_drop]; omega)
      rw [hn, ← List.drop_drop, Lib.Ring.slot_succ, ← hp hc1]
      exact hpop'

theorem length_enters (h : Tracks s a) (i : In w) :
    (a.enters i).length = (issueEn s i).toNat := by
  rw [h.issueEn_eq i, Fifo.enters]
  cases a.takes i <;> rfl

theorem length_stays (h : Tracks s a) (i : In w) :
    (a.stays i).length = a.items.length - numCommit i + (issueEn s i).toNat := by
  simp [Fifo.stays, h.length_enters i]

/-- The count after the instruction that enters does not wrap. -/
theorem issueCnt_lt (h : Tracks s a) (i : In w) :
    a.items.length + (issueEn s i).toNat < 2 ^ w := by
  cases he : issueEn s i with
  | false => simpa using h.lt
  | true =>
    rw [h.issueEn_eq i, Fifo.takes] at he
    simp only [Bool.and_eq_true, decide_eq_true_eq] at he
    rw [Bool.toNat_true]
    omega

/-- The transaction ids of those that stay follow the new commit pointer. -/
theorem transId_stays (h : Tracks s a) {i : In w} (ok : Regular s i) {j : ℕ}
    (hj : j < (a.stays i).length) :
    (a.stays i)[j].transId =
      s.commitPointer 0 + BitVec.ofNat w (numCommit i) + BitVec.ofNat w j := by
  have hle := (h.commits ok).1
  rw [BitVec.add_assoc, ← BitVec.ofNat_add]
  by_cases hlt : j < a.items.length - numCommit i
  · simp only [Fifo.stays]
    rw [List.getElem_append_left (by simpa using hlt), List.getElem_drop, List.getElem_map]
    exact h.transId _ (by omega)
  · have hlen : numCommit i + j = a.items.length := by
      have hone := (issueEn s i).toNat_le
      have hlen := h.length_stays i
      omega
    have hent : ∀ t ∈ a.enters i, t.transId = a.nextId := by
      intro t ht
      unfold Fifo.enters at ht
      split at ht
      · rw [List.mem_singleton.1 ht]
      · exact absurd ht List.not_mem_nil
    simp only [Fifo.stays]
    rw [List.getElem_append_right (by simpa using hlt), hent _ (List.getElem_mem _), h.nextId,
      h.issuePointer, hlen]

/-- A flush leaves the empty ring. -/
theorem of_flush (s : Regs w) (a : Fifo w) {i : In w} (hf : i.flush = true) :
    Tracks (next s i) (a.next i) := by
  have hmem : (next s i).mem = fun k => drop (_ : Slot) := if_pos hf
  have hitems : (a.next i).items = [] := if_pos hf
  refine ⟨?_, ?_, ?_, ?_, ?_, ?_, .inr hitems⟩
  · rw [hitems, hmem]
    exact Lib.Ring.Holds.nil (fun _ => ⟨rfl, rfl⟩) _
  · rw [hitems]
    exact Nat.two_pow_pos w
  · rw [hitems]
    exact if_pos hf
  · rw [hitems]
    simp [next, hf]
  · simp [next, Fifo.next, hf]
  · intro j hj
    simp [hitems] at hj

/-- One cycle of the ring is one cycle of the queue. -/
theorem step (h : Tracks s a) {i : In w} (ok : Regular s i) : Tracks (next s i) (a.next i) := by
  cases hf : i.flush with
  | true => exact of_flush s a hf
  | false =>
    have hle := (h.commits ok).1
    have hlt := h.issueCnt_lt i
    have hlen := h.length_stays i
    have hitems : (a.next i).items = a.stays i := by simp [Fifo.next, hf]
    have hcp : ∀ p, (next s i).commitPointer p =
        s.commitPointer 0 + BitVec.ofNat w (numCommit i) + BitVec.ofNat w p.val := by
      intro p
      simp [next, hf]
    have hcp0 : (next s i).commitPointer 0 = s.commitPointer 0 + BitVec.ofNat w (numCommit i) := by
      simp [hcp]
    have hsplit : BitVec.ofNat w a.items.length =
        BitVec.ofNat w (a.items.length - numCommit i) + BitVec.ofNat w (numCommit i) := by
      rw [← BitVec.ofNat_add, Nat.sub_add_cancel hle]
    refine ⟨?_, ?_, ?_, ?_, ?_, ?_, .inl ?_⟩
    · have hring := h.commit ok (h.wb i (h.issue i)) (by simp)
      rw [← List.map_drop, List.drop_append_of_le_length (by simpa using hle)] at hring
      rw [hcp0, hitems]
      simpa [next, issueFifo, hf, Fifo.stays] using hring
    · rw [hitems]
      omega
    · rw [hitems, hlen, BitVec.ofNat_add]
      simp only [next, hf, h.issueCnt, hsplit, BitVec.add_sub_cancel, Bool.false_eq_true, if_false]
    · rw [hitems, hlen, hcp0, BitVec.ofNat_add]
      simp only [next, hf, h.issuePointer, hsplit, Bool.false_eq_true, if_false]
      ac_rfl
    · simp [next, Fifo.next, hf, h.nextId, h.length_enters]
    · intro j hj
      simp only [hitems, hcp0]
      exact h.transId_stays ok _
    · rw [hcp, hcp0]
      rfl

end Tracks

/-! ### The ledger of the queue -/

/-- Every instruction ever issued. -/
def Fifo.all (a : Fifo w) : List (Item w) := a.committed ++ a.dropped ++ a.items

theorem Fifo.mem_all {a : Fifo w} {t : Item w} :
    t ∈ a.all ↔ t ∈ a.committed ∨ t ∈ a.dropped ∨ t ∈ a.items := by
  simp [Fifo.all]

/-- Every issue is in flight, committed or dropped, and only one of these, once; those that
committed did so in the order of issue, before those in flight. `l` are the instructions
issued, in order. -/
structure Ledger (a : Fifo w) (l : List IssueEntry) : Prop where
  once : (a.all.map Item.seq).Perm (List.range a.issued)
  inOrder : ((a.committed ++ a.items).map Item.seq).Pairwise (· < ·)
  issued : l.length = a.issued
  instr : ∀ t ∈ a.all, l[t.seq]? = some t.instr

theorem ledger_reset : Ledger (Fifo.reset : Fifo w) [] :=
  ⟨List.Perm.refl _, List.Pairwise.nil, rfl, fun _ ht => absurd ht List.not_mem_nil⟩

/-- The instructions that enter in a cycle. -/
def issues (s : Regs w) (i : In w) : List IssueEntry :=
  if issueEn s i then [i.decodedInstr] else []

/-- The instructions that commit in a cycle, as the commit ports show them. -/
def commits (s : Regs w) (i : In w) : List IssueEntry :=
  (if i.commitAck 0 then [commitInstrO s 0] else []) ++
    (if i.commitAck 1 then [commitInstrO s 1] else [])

/-- The instructions issued in a run, in order. -/
def issueLog : Regs w → List (In w) → List IssueEntry
  | _, [] => []
  | s, i :: is => issues s i ++ issueLog (next s i) is

/-- The instructions committed in a run, in order. -/
def commitLog : Regs w → List (In w) → List IssueEntry
  | _, [] => []
  | s, i :: is => commits s i ++ commitLog (next s i) is

theorem map_seq_writeBack (i : In w) (l : List (Item w)) :
    (l.map (Item.writeBack i)).map Item.seq = l.map Item.seq := by
  rw [List.map_map]
  rfl

/-- Those that stay are in the order of issue behind those that commit. -/
theorem Fifo.seq_stays (a : Fifo w) (i : In w) :
    (a.items.take (numCommit i)).map Item.seq ++ (a.stays i).map Item.seq =
      a.items.map Item.seq ++ (a.enters i).map Item.seq := by
  rw [Fifo.stays, List.map_append, List.map_drop, map_seq_writeBack, ← List.append_assoc,
    List.map_take, List.take_append_drop]

/-- A cycle adds to the items only the one that enters. -/
theorem Fifo.all_next (a : Fifo w) (i : In w) :
    ((a.next i).all.map Item.seq).Perm (a.all.map Item.seq ++ (a.enters i).map Item.seq) := by
  rw [List.perm_iff_count]
  intro n
  have hcount := congrArg (List.count n) (a.seq_stays i)
  rw [List.count_append, List.count_append] at hcount
  unfold Fifo.all Fifo.next
  cases i.flush <;> simp only [List.map_append, List.count_append, if_true, Bool.false_eq_true,
    if_false, List.map_nil, List.count_nil] <;> omega

theorem Fifo.mem_stays {a : Fifo w} {i : In w} {t : Item w} (ht : t ∈ a.stays i) :
    (∃ u ∈ a.items, t = u.writeBack i) ∨ t ∈ a.enters i := by
  rcases List.mem_append.1 ht with h | h
  · obtain ⟨u, hu, rfl⟩ := List.mem_map.1 (List.mem_of_mem_drop h)
    exact .inl ⟨u, hu, rfl⟩
  · exact .inr h

theorem Fifo.mem_items_next {a : Fifo w} {i : In w} {t : Item w} (ht : t ∈ (a.next i).items) :
    t ∈ a.stays i := by
  simp only [Fifo.next] at ht
  split at ht
  · exact absurd ht List.not_mem_nil
  · exact ht

/-- Where the items after a cycle come from. -/
theorem Fifo.mem_all_next {a : Fifo w} {i : In w} {t : Item w} (ht : t ∈ (a.next i).all) :
    (t ∈ a.committed ∨ t ∈ a.dropped) ∨ t ∈ a.items.take (numCommit i) ∨
      (∃ u ∈ a.items, t = u.writeBack i) ∨ t ∈ a.enters i := by
  rcases Fifo.mem_all.1 ht with h | h | h
  · rcases List.mem_append.1 h with h | h
    · exact .inl (.inl h)
    · exact .inr (.inl h)
  · simp only [Fifo.next] at h
    split at h
    · rcases List.mem_append.1 h with h | h
      · exact .inl (.inr h)
      · exact .inr (.inr (Fifo.mem_stays h))
    · exact .inl (.inr h)
  · exact .inr (.inr (Fifo.mem_stays (Fifo.mem_items_next h)))

/-- Apart from the one that enters, the items are those there were. -/
theorem Fifo.exists_of_mem_all_next {a : Fifo w} {i : In w} {t : Item w} (ht : t ∈ (a.next i).all) :
    (∃ u ∈ a.all, t.seq = u.seq ∧ t.instr = u.instr) ∨ t ∈ a.enters i := by
  rcases Fifo.mem_all_next ht with h | h | ⟨u, hu, rfl⟩ | h
  · exact .inl ⟨t, Fifo.mem_all.2 (h.imp_right .inl), rfl, rfl⟩
  · exact .inl ⟨t, Fifo.mem_all.2 (.inr (.inr (List.mem_of_mem_take h))), rfl, rfl⟩
  · exact .inl ⟨u, Fifo.mem_all.2 (.inr (.inr hu)), rfl, rfl⟩
  · exact .inr h

theorem Ledger.seq_lt {a : Fifo w} {l : List IssueEntry} (h : Ledger a l) {t : Item w}
    (ht : t ∈ a.all) : t.seq < a.issued :=
  List.mem_range.1 (h.once.mem_iff.1 (List.mem_map_of_mem ht))

theorem Ledger.nodup {a : Fifo w} {l : List IssueEntry} (h : Ledger a l) : (a.all.map Item.seq).Nodup :=
  h.once.nodup_iff.2 List.nodup_range

/-- No two instructions have one number. -/
theorem Ledger.eq_of_seq {a : Fifo w} {l : List IssueEntry} (h : Ledger a l) {t u : Item w}
    (ht : t ∈ a.all) (hu : u ∈ a.all) (hq : u.seq = t.seq) : u = t :=
  List.inj_on_of_nodup_map h.nodup hu ht hq

/-- An instruction in flight has not committed, and was not dropped. -/
theorem Ledger.ne_of_mem {a : Fifo w} {l : List IssueEntry} (h : Ledger a l) {t u : Item w}
    (ht : t ∈ a.items) (hu : u ∈ a.committed ∨ u ∈ a.dropped) : u.seq ≠ t.seq := by
  have hn := h.nodup
  rw [Fifo.all, List.map_append, List.nodup_append] at hn
  exact hn.2.2 _ (List.mem_map_of_mem (List.mem_append.2 hu)) _ (List.mem_map_of_mem ht)

theorem Ledger.step {s : Regs w} {a : Fifo w} {l : List IssueEntry} (hl : Ledger a l)
    (h : Tracks s a) (i : In w) : Ledger (a.next i) (l ++ issues s i) := by
  have hent : (a.enters i).map Item.seq = (List.range (a.enters i).length).map (a.issued + ·) := by
    unfold Fifo.enters
    split <;> simp
  have hiss : issues s i = (a.enters i).map Item.instr := by
    unfold issues Fifo.enters
    rw [h.issueEn_eq i]
    split <;> rfl
  refine ⟨?_, ?_, ?_, ?_⟩
  · refine (a.all_next i).trans ?_
    rw [hent]
    exact (hl.once.append_right _).trans (List.Perm.of_eq (List.range_add ..).symm)
  · have hsort : (a.committed.map Item.seq ++ (a.items.map Item.seq ++
        (a.enters i).map Item.seq)).Pairwise (· < ·) := by
      rw [← List.append_assoc, ← List.map_append, List.pairwise_append]
      refine ⟨hl.inOrder, ?_, ?_⟩
      · rw [hent]
        exact List.pairwise_lt_range.map _ fun _ _ hlt => Nat.add_lt_add_left hlt _
      · -- every item there was is older than the one that enters
        intro n hn m hm
        obtain ⟨t, ht, rfl⟩ := List.mem_map.1 hn
        have hlt := hl.seq_lt (Fifo.mem_all.2 ((List.mem_append.1 ht).imp_right .inr))
        rw [hent] at hm
        obtain ⟨j, -, rfl⟩ := List.mem_map.1 hm
        exact hlt.trans_le (Nat.le_add_right _ _)
    rw [← a.seq_stays i, ← List.append_assoc, ← List.map_append] at hsort
    rw [List.map_append]
    unfold Fifo.next
    cases i.flush with
    | true => exact (List.append_nil _).symm ▸ (List.pairwise_append.1 hsort).1
    | false => exact hsort
  · rw [List.length_append, hl.issued, hiss, List.length_map]
    rfl
  · intro t ht
    rcases Fifo.exists_of_mem_all_next ht with ⟨t₀, h0, hseq, hins⟩ | he
    · have hlt := hl.seq_lt h0
      rw [hseq, hins, List.getElem?_append_left (by rw [hl.issued]; exact hlt)]
      exact hl.instr t₀ h0
    · unfold Fifo.enters at he hiss
      split at he
      · rename_i htakes
        rw [List.mem_singleton.1 he, hiss, if_pos htakes, ← hl.issued]
        simp
      · exact absurd he List.not_mem_nil

/-! ### Runs -/

/-- The commit ports show the oldest instructions. -/
theorem Tracks.commitInstrO_eq {s : Regs w} {a : Fifo w} (h : Tracks s a) {p : Fin 2}
    (hv : (commitInstrO s p).valid = true) :
    ∃ t, a.items[p.val]? = some t ∧ commitInstrO s p = t.entry := by
  have hp : s.commitPointer p = s.commitPointer 0 + BitVec.ofNat w p.val ∧ p.val < a.items.length := by
    match p with
    | 0 => exact ⟨by simp, h.commit_zero hv⟩
    | 1 => exact h.commit_one hv
  refine ⟨a.items[p.val], List.getElem?_eq_getElem hp.2, ?_⟩
  rw [commitInstrO, hp.1, h.getElem hp.2]
  rfl

/-- What the commit ports show of the instructions that commit. -/
theorem Tracks.commits_eq {s : Regs w} {a : Fifo w} (h : Tracks s a) {i : In w} (ok : Regular s i) :
    Scoreboard.commits s i = (a.items.take (numCommit i)).map Item.entry := by
  cases hc0 : i.commitAck 0 with
  | false =>
    have hc1 : i.commitAck 1 = false := by
      by_contra hc1
      simp [ok.inOrder (by simpa using hc1)] at hc0
    simp [Scoreboard.commits, numCommit, hc0, hc1]
  | true =>
    obtain ⟨t, ht, he⟩ := h.commitInstrO_eq (ok.ack 0 hc0)
    obtain ⟨l, hl⟩ : ∃ l, a.items = t :: l := by
      cases hl : a.items with
      | nil => simp [hl] at ht
      | cons t' l => exact ⟨l, by simpa [hl] using ht⟩
    cases hc1 : i.commitAck 1 with
    | false => simp [Scoreboard.commits, numCommit, hc0, hc1, he, hl]
    | true =>
      obtain ⟨t', ht', he'⟩ := h.commitInstrO_eq (ok.ack 1 hc1)
      cases l with
      | nil => simp [hl] at ht'
      | cons t'' l =>
        have htt : t'' = t' := by simpa [hl] using ht'
        simp [Scoreboard.commits, numCommit, hc0, hc1, he, he', hl, htt]

/-- The ring is the queue, the logs are the ledger. -/
theorem Tracks.run : ∀ (is : List (In w)) {s : Regs w} {a : Fifo w} {l : List IssueEntry},
    Tracks s a → Ledger a l → machine.Steps Regular s is →
    Tracks (machine.run s is) (Fifo.machine.run a is) ∧
      Ledger (Fifo.machine.run a is) (l ++ issueLog s is) ∧
      (Fifo.machine.run a is).committed.map Item.entry = a.committed.map Item.entry ++ commitLog s is
  | [], _, _, _, h, hl, _ => ⟨h, by simpa [issueLog] using hl, by simp [commitLog]⟩
  | i :: is, s, a, l, h, hl, hs => by
    obtain ⟨ht, hled, hc⟩ := Tracks.run is (h.step hs.1) (hl.step h i) hs.2
    rw [issueLog, ← List.append_assoc]
    refine ⟨ht, hled, hc.trans ?_⟩
    rw [commitLog, h.commits_eq hs.1, ← List.append_assoc, ← List.map_append]
    rfl

/-- The write-backs to issued slots. -/
def In.toIssued (s : Regs w) (i : In w) : In w :=
  { i with wb := i.wb.filter fun b => (s.mem b.transId).issued }

theorem foldl_writeBack_toIssued (s : Regs w) (target : BitVec 64) :
    ∀ (bs : List (Wb w)) (m : BitVec w → Slot),
    (bs.filter fun b => (s.mem b.transId).issued).foldl (writeBack s target) m =
      bs.foldl (writeBack s target) m
  | [], _ => rfl
  | b :: bs, m => by
    rw [List.filter_cons, List.foldl_cons]
    split
    · rw [List.foldl_cons, foldl_writeBack_toIssued s target bs]
    · rename_i hb
      rw [foldl_writeBack_toIssued s target bs]
      simp [writeBack, hb]

/-- A write-back to a slot that holds no instruction changes nothing. -/
theorem next_toIssued (s : Regs w) (i : In w) : next s (i.toIssued s) = next s i := by
  have hen : issueEn s (i.toIssued s) = issueEn s i := rfl
  have hwb : ∀ m, (i.toIssued s).wb.foldl (writeBack s (i.toIssued s).targetAddress) m =
      i.wb.foldl (writeBack s i.targetAddress) m :=
    foldl_writeBack_toIssued s i.targetAddress i.wb
  have hfifo : issueFifo s (i.toIssued s) = issueFifo s i := by
    simp only [issueFifo, hwb, hen]
    rfl
  unfold next
  rw [hen, hfifo]
  rfl

/-- What a state of the scoreboard is as a queue. -/
structure IsQueue (s : Regs w) (a : Fifo w) : Prop where
  issued : ∀ k, (s.mem k).issued = true ↔
    (k - s.commitPointer 0).toNat < (s.issuePointer - s.commitPointer 0).toNat
  issueCnt : s.issueCnt.toNat = {k | (s.mem k).issued = true}.ncard
  items : s.issueCnt.toNat = a.items.length
  transId : ∀ j (hj : j < a.items.length), a.items[j].transId = s.commitPointer 0 + BitVec.ofNat w j
  nextId : a.nextId = s.issuePointer
  noWrap : ∀ i, Regular s i → numCommit i ≤ s.issueCnt.toNat ∧
    s.issueCnt.toNat - numCommit i + (issueEn s i).toNat < 2 ^ w
  commitPort : ∀ p : Fin 2, (commitInstrO s p).valid = true →
    ∃ t, a.items[p.val]? = some t ∧ commitInstrO s p = t.entry
  writeBack : ∀ i : In w, next s (i.toIssued s) = next s i

theorem Tracks.isQueue {s : Regs w} {a : Fifo w} (h : Tracks s a) : IsQueue s a := by
  have hcnt := h.issueCnt_toNat
  have hdist : (s.issuePointer - s.commitPointer 0).toNat = a.items.length := by
    rw [h.issuePointer, Lib.Ring.toNat_slot_sub _ h.lt]
  refine ⟨fun k => ?_, ?_, hcnt, h.transId, h.nextId, ?_, fun p => h.commitInstrO_eq, next_toIssued s⟩
  · rw [hdist]
    exact h.issued_iff k
  · simp only [h.issued_iff]
    rw [Lib.Ring.ncard_slots _ h.lt.le, hcnt]
  · intro i ok
    have hle := (h.commits ok).1
    have hlt := h.issueCnt_lt i
    omega

/-- In every run that keeps to the module's assertions the scoreboard is a bounded queue:
every instruction issued is in flight, committed or dropped by a flush, and those that
commit do so once, in the order of issue, with what was written back to them. -/
theorem run_isQueue (is : List (In w)) (h : machine.Steps Regular (reset : Regs w) is) :
    IsQueue (machine.run reset is) (Fifo.machine.run Fifo.reset is) ∧
      Ledger (Fifo.machine.run Fifo.reset is) (issueLog (reset : Regs w) is) ∧
      (Fifo.machine.run Fifo.reset is).committed.map Item.entry = commitLog (reset : Regs w) is := by
  obtain ⟨ht, hl, hc⟩ := Tracks.run is tracks_reset ledger_reset h
  exact ⟨ht.isQueue, hl, hc⟩

/-- An addition to a register. -/
def addTo (rd : BitVec 6) : IssueEntry :=
  { emptyEntry with fu := .alu, op := .add, rd := rd }

/-- Nothing happens. -/
def idle : In w := ⟨false, false, false, fun _ => false, emptyEntry, false, false, 0, []⟩

/-- Two additions are issued, the second result comes back first, and both commit while
a third is issued. -/
def twoAdds : List (In 3) :=
  [{ idle with decodedInstr := addTo 1, decodedInstrValid := true, issueAck := true },
   { idle with decodedInstr := addTo 2, decodedInstrValid := true, issueAck := true },
   { (idle : In 3) with wb := [⟨true, 1, 7, Exn.none⟩] },
   { (idle : In 3) with wb := [⟨true, 0, 5, Exn.none⟩, ⟨true, 6, 9, Exn.none⟩] },
   { idle with
     commitAck := fun _ => true, decodedInstr := addTo 1, decodedInstrValid := true, issueAck := true }]

theorem run_isQueue_twoAdds :
    (commitLog (reset : Regs 3) twoAdds).map (·.result) = [5, 7] ∧
      (Fifo.machine.run Fifo.reset twoAdds).committed.map Item.seq = [0, 1] ∧
      (machine.run (reset : Regs 3) twoAdds).issueCnt = 1 ∧
      IsQueue (machine.run (reset : Regs 3) twoAdds) (Fifo.machine.run Fifo.reset twoAdds) :=
  ⟨by decide, by decide, by decide, (run_isQueue twoAdds (by decide)).1⟩

end Scoreboard
end Ariane

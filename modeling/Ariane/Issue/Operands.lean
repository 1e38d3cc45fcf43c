/-
# Operands come from the youngest writer

The arbiters that pick a unit to wait for and a value to forward go by slot index, not
by age. They are right because at most one instruction in flight has a given
destination (`Inv.unique`): an instruction whose destination is taken waits, unless the
commit stage frees the destination in that very cycle.

An instruction decoded with an exception does not wait. Behind it destinations may
repeat and operands may be anything: it is never going to commit, and what is behind it
is flushed with it. So the invariant is about the instructions in front of the first one
of that kind (`clean`).
-/
import Mathlib.Data.List.TakeWhile
import Ariane.Issue.ReadOperands

namespace Ariane
namespace IssueStage

open Lib (Machine)
open Scoreboard (Fifo Item Slot Tracks Wb isZero rdClobber)

variable {w : ℕ}

/-! ### Destinations -/

/-- The instruction writes the register `r`, of the floating-point file if `f`. -/
def Writes (t : Item w) (f : Bool) (r : BitVec 6) : Prop :=
  t.instr.rd = r ∧ t.instr.op.isRdFpr = f ∧ isZero f r = false

/-- Two instructions with different destinations. -/
def Apart (t u : Item w) : Prop := ∀ f r, Writes t f r → ¬Writes u f r

/-- The instructions in front of the first one that was decoded with an exception. -/
def clean (a : Fifo w) : List (Item w) := a.items.takeWhile fun t => !t.instr.ex.valid

/-- The instruction comes from the decoder, and is no `SFENCE.VMA` with a destination. -/
def Entered (e : IssueEntry) : Prop :=
  (∃ f, e = reName (IdStage.decodedInstruction f)) ∧ (e.op = .sfenceVma → e.rd = 0)

theorem Entered.runs {e : IssueEntry} (h : Entered e) : Decoder.runs e.fu e.op = true := by
  obtain ⟨⟨f, rfl⟩, -⟩ := h
  exact Decoder.runs_decode (IdStage.decoderIn f)

/-- Register addresses have five bits. -/
theorem Entered.rd {e : IssueEntry} (h : Entered e) : (e.rd.setWidth 5).setWidth 6 = e.rd := by
  obtain ⟨⟨f, rfl⟩, -⟩ := h
  simp [reName]

/-- An instruction without an exception has a unit, and no destination if it is a store or
a fence. -/
theorem Entered.shape {e : IssueEntry} (h : Entered e) (hex : e.ex.valid = false) :
    e.fu ≠ .none ∧ (e.fu = .store → e.op.isAmo = true ∨ e.rd = 0) ∧
      (e.op = .fence ∨ e.op = .fenceI ∨ e.op = .sfenceVma → e.rd = 0) := by
  obtain ⟨⟨f, rfl⟩, hs⟩ := h
  obtain ⟨hfu, hst, hf⟩ := Decoder.shape_of_exO (IdStage.decoderIn f) hex
  have hz : (Decoder.decode (IdStage.decoderIn f)).rd = 0 →
      (reName (IdStage.decodedInstruction f)).rd = 0 := by
    intro hz
    show ((Decoder.decode (IdStage.decoderIn f)).rd.setWidth 5).setWidth 6 = 0
    rw [hz]
    rfl
  refine ⟨hfu, fun h => (hst h).imp_right hz, ?_⟩
  rintro (h | h | h)
  · exact hz (hf (.inl h))
  · exact hz (hf (.inr h))
  · exact hs h

/-- Floating-point registers are written by loads and the floating-point unit. -/
theorem Entered.fu_of_fpr {e : IssueEntry} (h : Entered e) (hf : e.op.isRdFpr = true) :
    e.fu = .load ∨ e.fu = .fpu := by
  have hr := h.runs
  revert hr hf
  cases e.fu <;> cases e.op <;> decide

/-! ### The arbiters -/

section Arbiters

variable {s : Scoreboard.Regs w} {a : Fifo w}

theorem slot_writes (t : Item w) (f : Bool) (r : BitVec 6) :
    t.slot.writes f r = (t.instr.rd == r && t.instr.op.isRdFpr == f) := by
  rw [Slot.writes, Item.slot, t.entry_keep.2.2.1]

theorem writes_iff (t : Item w) {f : Bool} {r : BitVec 6} (hz : isZero f r = false) :
    Writes t f r ↔ t.slot.writes f r = true := by
  simp [slot_writes, Writes, hz]

/-- The issued slots are those of the instructions in flight. -/
theorem exists_item_of_mem (h : Tracks s a) {sl : Slot} (hsl : sl ∈ Scoreboard.slots s)
    (hi : sl.issued = true) : ∃ t ∈ a.items, sl = t.slot := by
  obtain ⟨k, -, rfl⟩ := List.mem_map.1 hsl
  obtain ⟨t, ht, he, -⟩ := h.exists_item hi
  exact ⟨t, ht, he⟩

theorem slot_mem (h : Tracks s a) {t : Item w} (ht : t ∈ a.items) : t.slot ∈ Scoreboard.slots s := by
  refine List.mem_map.2 ⟨t.transId.toNat, List.mem_range.2 t.transId.isLt, ?_⟩
  rw [BitVec.ofNat_toNat, BitVec.setWidth_eq, h.mem_transId ht]

/-- A register that an instruction in flight writes is clobbered by the unit of one that
does, and only such a register is. -/
theorem rdClobber_cases (h : Tracks s a) {f : Bool} {r : BitVec 6} (hz : isZero f r = false) :
    (rdClobber s f r = .none ∧ ∀ t ∈ a.items, ¬Writes t f r) ∨
      ∃ t ∈ a.items, Writes t f r ∧ rdClobber s f r = t.instr.fu := by
  unfold rdClobber
  rw [hz, if_neg Bool.false_ne_true]
  cases hfind : (Scoreboard.slots s).find? fun sl => sl.issued && sl.writes f r with
  | none =>
    refine .inl ⟨rfl, fun t ht hw => ?_⟩
    have hno := List.find?_eq_none.1 hfind t.slot (slot_mem h ht)
    rw [(writes_iff t hz).1 hw] at hno
    exact hno rfl
  | some sl =>
    have hp := List.find?_some hfind
    rw [Bool.and_eq_true] at hp
    obtain ⟨t, ht, rfl⟩ := exists_item_of_mem h (List.mem_of_find?_eq_some hfind) hp.1
    exact .inr ⟨t, ht, (writes_iff t hz).2 hp.2, t.entry_keep.1⟩

end Arbiters

/-! ### Write-backs -/

/-- The cycles of the stage in its surroundings: a write-back answers an instruction in
flight that has no result yet, and each instruction on one port; the cache is flushed
only while the commit stage is halted; no `SFENCE.VMA` has a destination. -/
structure Regular (s : Regs w) (i : In w) : Prop where
  answers : ∀ b ∈ i.wb, b.valid = true →
    (s.sb.mem b.transId).issued = true ∧ (s.sb.mem b.transId).sbe.valid = false
  transId : i.wb.Pairwise fun b b' => b.valid = true → b'.valid = true → b.transId ≠ b'.transId
  flushDcache : i.commit.flushDcache = true → i.commit.halt = true
  sfence : (issueInstr i).op = .sfenceVma → (issueInstr i).rd = 0

instance (s : Regs w) (i : In w) : Decidable (Regular s i) :=
  decidable_of_iff ((∀ b ∈ i.wb, b.valid = true →
      (s.sb.mem b.transId).issued = true ∧ (s.sb.mem b.transId).sbe.valid = false) ∧
    (i.wb.Pairwise fun b b' => b.valid = true → b'.valid = true → b.transId ≠ b'.transId) ∧
    (i.commit.flushDcache = true → i.commit.halt = true) ∧
    ((issueInstr i).op = .sfenceVma → (issueInstr i).rd = 0))
    ⟨fun h => ⟨h.1, h.2.1, h.2.2.1, h.2.2.2⟩, fun h => ⟨h.answers, h.transId, h.flushDcache, h.sfence⟩⟩

/-- No other port answers the same instruction. -/
theorem filter_wb {b : Wb w} (hv : b.valid = true) : ∀ {bs : List (Wb w)}, b ∈ bs →
    (bs.Pairwise fun b b' => b.valid = true → b'.valid = true → b.transId ≠ b'.transId) →
    bs.filter (fun c => c.valid && c.transId == b.transId) = [b]
  | c :: bs, hb, hp => by
    rw [List.pairwise_cons] at hp
    rcases List.mem_cons.1 hb with rfl | hb
    · have hnil : bs.filter (fun c => c.valid && c.transId == b.transId) = [] := by
        rw [List.filter_eq_nil_iff]
        intro c hc hcb
        rw [Bool.and_eq_true, beq_iff_eq] at hcb
        exact hp.1 c hc hv hcb.1 hcb.2.symm
      simp [hv, hnil]
    · have hc : (c.valid && c.transId == b.transId) = false := by
        rw [Bool.eq_false_iff]
        intro hcb
        rw [Bool.and_eq_true, beq_iff_eq] at hcb
        exact hp.1 b hb hcb.1 hv hcb.2
      rw [List.filter_cons, hc, if_neg Bool.false_ne_true]
      exact filter_wb hv hb hp.2

section WriteBacks

variable {s : Regs w} {a : Fifo w} {i : In w}

/-- An instruction that is answered has the result of its port. -/
theorem entry_of_answer (ok : Regular s i) {b : Wb w} (hb : b ∈ i.wb) (hv : b.valid = true)
    {t : Item w} (ht : t.transId = b.transId) :
    (t.writeBack (sbIn s i)).entry.valid = true ∧ (t.writeBack (sbIn s i)).entry.result = b.wbdata := by
  have hf := filter_wb hv hb ok.transId
  rw [Scoreboard.Item.entry_writeBack, ht]
  show (((i.wb.filter _).foldl _ t.entry : IssueEntry)).valid = true ∧ _
  rw [show (sbIn s i).wb = i.wb from rfl, hf]
  exact ⟨rfl, rfl⟩

/-- An instruction with a result keeps it. -/
theorem writeBack_of_valid (h : Tracks s.sb a) (ok : Regular s i) {t : Item w} (ht : t ∈ a.items)
    (hv : t.entry.valid = true) : t.writeBack (sbIn s i) = t := by
  have hnil : i.wb.filter (fun b => b.valid && b.transId == t.transId) = [] := by
    rw [List.filter_eq_nil_iff]
    intro b hb hbt
    rw [Bool.and_eq_true, beq_iff_eq] at hbt
    have hno := (ok.answers b hb hbt.1).2
    rw [hbt.2, h.mem_transId ht] at hno
    exact Bool.eq_false_iff.1 hno hv
  rw [Scoreboard.Item.writeBack, show (sbIn s i).wb = i.wb from rfl, hnil]
  simp

/-- What is forwarded for a register is the result of the one instruction in flight that
writes it. -/
theorem rsO_eq (h : Tracks s.sb a) (ok : Regular s i) {f : Bool} {r : BitVec 6}
    (hz : isZero f r = false) {t : Item w} (ht : t ∈ a.items)
    (huniq : ∀ u ∈ a.items, Writes u f r → u = t) {v : BitVec 64}
    (hv : Scoreboard.rsO s.sb (sbPorts i) f r = some v) :
    (t.writeBack (sbIn s i)).entry.valid = true ∧ (t.writeBack (sbIn s i)).entry.result = v := by
  unfold Scoreboard.rsO at hv
  rw [hz, if_neg Bool.false_ne_true, Option.or_eq_some_iff] at hv
  rcases hv with hv | ⟨-, hv⟩
  · obtain ⟨b, hb, rfl⟩ := Option.map_eq_some_iff.1 hv
    have hp := List.find?_some hb
    have hmem : b ∈ i.wb := List.mem_of_find?_eq_some hb
    simp only [Bool.and_eq_true] at hp
    obtain ⟨u, hu, hslot, hid⟩ := h.exists_item (ok.answers b hmem hp.1.2).1
    rw [hslot] at hp
    have hut := huniq u hu ((writes_iff u hz).2 hp.1.1)
    exact entry_of_answer ok hmem hp.1.2 (hut ▸ hid)
  · obtain ⟨sl, hsl, rfl⟩ := Option.map_eq_some_iff.1 hv
    have hp := List.find?_some hsl
    simp only [Bool.and_eq_true] at hp
    obtain ⟨u, hu, rfl⟩ := exists_item_of_mem h (List.mem_of_find?_eq_some hsl) hp.1.2
    have hut := huniq u hu ((writes_iff u hz).2 hp.1.1)
    subst hut
    have hval : u.entry.valid = true := hp.2
    rw [writeBack_of_valid h ok hu hval]
    exact ⟨hval, rfl⟩

end WriteBacks

/-! ### Commits -/

section Commits

variable {s : Regs w} {a : Fifo w} {i : In w}

/-- The commit stage acknowledges only instructions without an exception. -/
theorem ex_of_commitAck {p : Fin 2} (h : commitAck s i p = true) :
    (Scoreboard.commitInstrO s.sb p).ex.valid = false := by
  match p with
  | 0 =>
    have h' : (Commit.commit (commitIn s i)).ack0 = true := h
    rw [Commit.commit_ack0, Bool.and_eq_true, Commit.mayCommit] at h'
    simp only [Bool.and_eq_true, Bool.not_eq_true'] at h'
    exact h'.1.1.2
  | 1 =>
    have h' : (Commit.commit (commitIn s i)).ack1 = true := h
    rw [Commit.commit_ack1] at h'
    simp only [Bool.and_eq_true, Bool.not_eq_true'] at h'
    exact h'.1.2

/-- What the scoreboard asserts of its inputs holds in the stage. -/
theorem Regular.scoreboard (ok : Regular s i) : Scoreboard.Regular s.sb (sbIn s i) := by
  obtain ⟨hack, hord⟩ := Scoreboard.acks_of_commit (s := s.sb) (i := sbIn s i) (x := commitIn s i)
    (fun _ => rfl) rfl rfl
  refine ⟨hack, hord, fun h => ?_, ok.transId⟩
  have h' : issueAck s i = true := h
  unfold issueAck at h'
  simp only [Bool.and_eq_true] at h'
  exact h'.1.1

/-- The instruction at a commit port, when it may commit. -/
theorem port_item (h : Tracks s.sb a) (he : ∀ t ∈ a.items, Entered t.instr) {p : Fin 2}
    (hv : (Scoreboard.commitInstrO s.sb p).valid = true) :
    ∃ t, a.items[p.val]? = some t ∧ Scoreboard.commitInstrO s.sb p = t.entry ∧ Entered t.instr ∧
      (waddr s p).setWidth 6 = t.instr.rd := by
  obtain ⟨t, ht, hent⟩ := h.commitInstrO_eq hv
  have hin := he t (List.mem_of_getElem? ht)
  refine ⟨t, ht, hent, hin, ?_⟩
  rw [waddr, hent, t.entry_keep.2.2.1]
  exact hin.rd

/-- What the first write port being on says. -/
theorem we_zero {f : Bool} (hw : we s i f 0 = true) :
    let e := Scoreboard.commitInstrO s.sb 0
    Commit.mayCommit (commitIn s i) = true ∧ e.op.isRdFpr = f ∧
      (e.op.isAmo = true → i.commit.amoResp.ack = true) ∧
      (e.op.isAmo = false → f = false → e.fu = .csr → i.commit.csrException.valid = false) := by
  have hamo : ∀ op : FuOp, op.isAmo = true → op.isRdFpr = false := by
    intro op
    cases op <;> decide
  intro e
  cases f with
  | true =>
    have hw' : (Commit.commit (commitIn s i)).weFpr0 = true := hw
    rw [Commit.commit_weFpr0, Bool.and_eq_true] at hw'
    refine ⟨hw'.1, hw'.2, fun ha => ?_, fun _ h => absurd h Bool.noConfusion⟩
    exact absurd hw'.2 (Bool.eq_false_iff.1 (hamo _ ha))
  | false =>
    have hw' : (Commit.commit (commitIn s i)).weGpr0 = true := hw
    rw [Commit.commit_weGpr0, Bool.and_eq_true] at hw'
    obtain ⟨hm, hw'⟩ := hw'
    split at hw'
    · rename_i ha
      exact ⟨hm, hamo _ ha, fun _ => hw', fun h => absurd ha (Bool.eq_false_iff.1 h)⟩
    · rename_i ha
      rw [Bool.and_eq_true, Bool.not_eq_true'] at hw'
      refine ⟨hm, hw'.1, fun h => absurd h ha, fun _ _ hc => ?_⟩
      have hcsr : (Commit.instr0 (commitIn s i)).fu = .csr := hc
      rw [hcsr] at hw'
      exact Bool.not_eq_true' _ ▸ hw'.2

/-- The first write port is on only for an instruction that commits, or that has no
destination. -/
theorem ack_of_we_zero (h : Tracks s.sb a) (he : ∀ t ∈ a.items, Entered t.instr) (ok : Regular s i)
    {f : Bool} (hw : we s i f 0 = true) (hz : isZero f ((waddr s 0).setWidth 6) = false) :
    commitAck s i 0 = true ∧ ∃ t, a.items[0]? = some t ∧ Writes t f ((waddr s 0).setWidth 6) := by
  obtain ⟨hm, hfile, hamo, hcsr⟩ := we_zero hw
  have hm' := hm
  simp only [Commit.mayCommit, Bool.and_eq_true, Bool.not_eq_true'] at hm'
  obtain ⟨t, ht, hent, hin, hrd⟩ := port_item h he hm'.1.1
  obtain ⟨hfu, hop, -, hex⟩ := t.entry_keep
  have hclean : t.instr.ex.valid = false := by
    rw [Bool.eq_false_iff]
    intro hx
    have hex' : (Scoreboard.commitInstrO s.sb 0).ex.valid = false := hm'.1.2
    rw [hent, hex hx] at hex'
    cases hex'
  obtain ⟨-, hst, hfence⟩ := hin.shape hclean
  rw [hrd] at hz ⊢
  simp only [hent, hfu, hop] at hfile hamo hcsr
  have hflush : i.commit.flushDcache = false := by
    rw [Bool.eq_false_iff]
    intro hf
    have hhalt : i.commit.halt = false := hm'.2
    rw [ok.flushDcache hf] at hhalt
    cases hhalt
  refine ⟨?_, t, ht, rfl, hfile, hz⟩
  -- with a destination it is no fence and no plain store
  have hrd0 : f = false → t.instr.rd ≠ 0 := by
    rintro rfl h0
    simp [h0, isZero] at hz
  have hfpr : f = true → t.instr.fu ≠ .csr ∧ t.instr.fu ≠ .store := by
    intro hf
    rcases hin.fu_of_fpr (hfile.trans hf) with hl | hl <;> rw [hl] <;>
      exact ⟨Fu.noConfusion, Fu.noConfusion⟩
  have hnf : t.instr.op ≠ .fence ∧ t.instr.op ≠ .fenceI ∧ t.instr.op ≠ .sfenceVma := by
    cases f with
    | true => exact Decoder.not_fence_of_runs hin.runs (hfpr rfl).1
    | false =>
      have hno := mt hfence (hrd0 rfl)
      simpa only [not_or] using hno
  have hns : t.instr.op.isAmo = false → t.instr.fu ≠ .store := by
    intro ha hs
    cases f with
    | true => exact (hfpr rfl).2 hs
    | false =>
      rcases hst hs with h1 | h1
      · simp [h1] at ha
      · exact hrd0 rfl h1
  have hinstr : (Commit.instr0 (commitIn s i)).fu = t.instr.fu ∧
      (Commit.instr0 (commitIn s i)).op = t.instr.op := by
    rw [← hfu, ← hop, ← hent]
    exact ⟨rfl, rfl⟩
  show (Commit.commit (commitIn s i)).ack0 = true
  rw [Commit.commit_ack0, hm, hinstr.1, hinstr.2]
  cases ha : t.instr.op.isAmo with
  | true => exact hamo ha
  | false =>
    have hflush' : (commitIn s i).flushDcache = false := hflush
    by_cases hc : t.instr.fu = .csr
    · have hf : f = false := by
        by_contra hf
        exact (hfpr (by simpa using hf)).1 hc
      have hexc : (commitIn s i).csrException.valid = false := hcsr ha hf hc
      simp [hnf, hc, hflush', hexc]
    · simp [hnf, hc, hflush', hns ha]

/-- The second write port is on only for an instruction that commits. -/
theorem ack_of_we_one (h : Tracks s.sb a) (he : ∀ t ∈ a.items, Entered t.instr)
    {f : Bool} (hw : we s i f 1 = true) (hz : isZero f ((waddr s 1).setWidth 6) = false)
    (ok : Regular s i) :
    commitAck s i 1 = true ∧ ∃ t, a.items[1]? = some t ∧ Writes t f ((waddr s 1).setWidth 6) := by
  obtain ⟨hg, hf⟩ := Commit.commitPort1_writes (commitIn s i)
  have hboth : (Commit.commit (commitIn s i)).ack1 = true ∧
      (Scoreboard.commitInstrO s.sb 1).op.isRdFpr = f := by
    cases f with
    | false =>
      have hw' : (Commit.commit (commitIn s i)).weGpr1 = true := hw
      rw [hg, Bool.and_eq_true, Bool.not_eq_true'] at hw'
      exact hw'
    | true =>
      have hw' : (Commit.commit (commitIn s i)).weFpr1 = true := hw
      rw [hf, Bool.and_eq_true] at hw'
      exact hw'
  obtain ⟨t, ht, hent, -, hrd⟩ := port_item h he (ok.scoreboard.ack 1 hboth.1)
  refine ⟨hboth.1, t, ht, hrd.symm, ?_, hz⟩
  rw [← t.entry_keep.2.1, ← hent]
  exact hboth.2

/-- A register written in a cycle is the destination of an instruction that commits. -/
theorem ack_of_we (h : Tracks s.sb a) (he : ∀ t ∈ a.items, Entered t.instr) (ok : Regular s i)
    {f : Bool} {p : Fin 2} (hw : we s i f p = true)
    (hz : isZero f ((waddr s p).setWidth 6) = false) :
    commitAck s i p = true ∧ ∃ t, a.items[p.val]? = some t ∧ Writes t f ((waddr s p).setWidth 6) := by
  match p with
  | 0 => exact ack_of_we_zero h he ok hw hz
  | 1 => exact ack_of_we_one h he hw hz ok

/-- The instructions that commit are complete and have no exception. -/
theorem entry_of_commits (h : Tracks s.sb a) (ok : Regular s i) :
    ∀ t ∈ a.items.take (Scoreboard.numCommit (sbIn s i)),
      t.entry.valid = true ∧ t.entry.ex.valid = false := by
  intro t ht
  have hmem : t.entry ∈ Scoreboard.commits s.sb (sbIn s i) := by
    rw [h.commits_eq ok.scoreboard]
    exact List.mem_map_of_mem ht
  have hack {p : Fin 2} (hp : commitAck s i p = true) :
      (Scoreboard.commitInstrO s.sb p).valid = true ∧
        (Scoreboard.commitInstrO s.sb p).ex.valid = false :=
    ⟨ok.scoreboard.ack p hp, ex_of_commitAck hp⟩
  rcases List.mem_append.1 hmem with hm | hm <;> split at hm
  · rw [List.mem_singleton.1 hm]
    exact hack ‹_›
  · exact absurd hm List.not_mem_nil
  · rw [List.mem_singleton.1 hm]
    exact hack ‹_›
  · exact absurd hm List.not_mem_nil

theorem clean_of_commits (h : Tracks s.sb a) (ok : Regular s i) :
    ∀ t ∈ a.items.take (Scoreboard.numCommit (sbIn s i)), t.instr.ex.valid = false := by
  intro t ht
  rw [Bool.eq_false_iff]
  intro hx
  have hex := (entry_of_commits h ok t ht).2
  rw [t.entry_keep.2.2.2 hx] at hex
  cases hex

end Commits

/-! ### One destination, one instruction -/

/-- The scoreboard is the queue, the instructions in it come from the decoder, those in
front of the first exception have different destinations, and `x0` is zero. -/
structure Inv (s : Regs w × Fifo w) : Prop where
  tracks : Tracks s.1.sb s.2
  ledger : ∃ l, Scoreboard.Ledger s.2 l
  entered : ∀ t ∈ s.2.items, Entered t.instr
  unique : (clean s.2).Pairwise Apart
  zero : s.1.gpr 0 = 0

theorem inv_reset : Inv ((reset, Fifo.reset) : Regs w × Fifo w) :=
  ⟨Scoreboard.tracks_reset, ⟨[], Scoreboard.ledger_reset⟩, fun _ ht => absurd ht List.not_mem_nil, List.Pairwise.nil, rfl⟩

theorem takeWhile_drop {α : Type} {p : α → Bool} : ∀ (n : ℕ) (l : List α), (∀ t ∈ l.take n, p t = true) →
    (l.drop n).takeWhile p = (l.takeWhile p).drop n
  | 0, _, _ => rfl
  | _ + 1, [], _ => rfl
  | n + 1, t :: l, h => by
    have ht : p t = true := h t List.mem_cons_self
    rw [List.drop_succ_cons, List.takeWhile_cons_of_pos ht, List.drop_succ_cons]
    exact takeWhile_drop n l fun u hu => h u (List.mem_cons_of_mem t hu)

section Step

variable {s : Regs w × Fifo w} {i : In w}

/-- Every instruction in flight was decoded without an exception. -/
def AllClean (a : Fifo w) : Prop := ∀ t ∈ a.items, t.instr.ex.valid = false

theorem Inv.pairwise (h : Inv s) (hall : AllClean s.2) : s.2.items.Pairwise Apart := by
  have hu := h.unique
  rwa [clean, List.takeWhile_eq_self_iff.2 fun t ht => by simp [hall t ht]] at hu

/-- A register is clobbered exactly while an instruction in flight writes it. -/
theorem Inv.not_writes (h : Inv s) (hall : AllClean s.2) {f : Bool} {r : BitVec 6}
    (hz : isZero f r = false) (hn : rdClobber s.1.sb f r = .none) :
    ∀ t ∈ s.2.items, ¬Writes t f r := by
  rcases rdClobber_cases h.tracks hz with ⟨-, hno⟩ | ⟨t, ht, -, hfu⟩
  · exact hno
  · exact absurd (hfu.symm.trans hn) ((h.entered t ht).shape (hall t ht)).1

/-- An instruction without an exception is issued when it does not stall and its
destination is free, or about to be. -/
theorem issue_of_ack (ok : Regular s.1 i) (ha : issueAck s.1 i = true)
    (hex : (issueInstr i).ex.valid = false) :
    Entered (issueInstr i) ∧ stall s.1 i = false ∧
      (rdClobber s.1.sb (issueInstr i).op.isRdFpr (issueInstr i).rd = .none ∨ rdCommits s.1 i = true) := by
  have hin : Entered (issueInstr i) := ⟨⟨i.decoded, rfl⟩, ok.sfence⟩
  have hfu : ((issueInstr i).fu == .none) = false := beq_false_of_ne (hin.shape hex).1
  unfold issueAck at ha
  simp only [hex, hfu, Bool.or_false, Bool.and_eq_true, Bool.not_eq_true', Bool.or_eq_true,
    beq_iff_eq] at ha
  exact ⟨hin, ha.1.2.1.1, ha.1.2.2⟩

/-- The instruction that is issued has a destination none of those that stay has. -/
theorem Inv.apart_of_issue (h : Inv s) (ok : Regular s.1 i) (hall : AllClean s.2)
    (ha : issueAck s.1 i = true) (hex : (issueInstr i).ex.valid = false) {u t : Item w}
    (hu : u ∈ s.2.items.drop (Scoreboard.numCommit (sbIn s.1 i))) (ht : t.instr = issueInstr i) :
    Apart u t := by
  rintro f r hwu ⟨hrd, hop, hz⟩
  rw [ht] at hrd hop
  obtain ⟨-, -, hfree⟩ := issue_of_ack ok ha hex
  rw [hop, hrd] at hfree
  rcases hfree with hfree | hfree
  · exact h.not_writes hall hz hfree u (List.mem_of_mem_drop hu) hwu
  · -- the instruction that frees the destination has it as well, and does not stay
    obtain ⟨p, hwe, hwa⟩ : ∃ p, we s.1 i f p = true ∧ (waddr s.1 p).setWidth 6 = r := by
      unfold rdCommits at hfree
      simp only [hop, hrd, Bool.or_eq_true, Bool.and_eq_true, beq_iff_eq] at hfree
      rcases hfree with hfree | hfree
      · exact ⟨0, hfree⟩
      · exact ⟨1, hfree⟩
    obtain ⟨hack, v, hv, hwv⟩ := ack_of_we h.tracks h.entered ok hwe (hwa ▸ hz)
    rw [hwa] at hwv
    have hlt : p.val < Scoreboard.numCommit (sbIn s.1 i) :=
      Tracks.lt_numCommit ok.scoreboard hack
    have hpair := h.pairwise hall
    rw [← List.take_append_drop (Scoreboard.numCommit (sbIn s.1 i)) s.2.items,
      List.pairwise_append] at hpair
    have hmem : v ∈ s.2.items.take (Scoreboard.numCommit (sbIn s.1 i)) := by
      refine List.mem_of_getElem? (i := p.val) ?_
      rw [List.getElem?_take_of_lt hlt]
      exact hv
    exact hpair.2.2 v hmem u hu f r hwv hwu

/-- The instructions that enter. -/
theorem mem_enters {t : Item w} (ht : t ∈ s.2.enters (sbIn s.1 i)) :
    t.instr = issueInstr i ∧ issueAck s.1 i = true := by
  unfold Fifo.enters at ht
  split at ht
  · rename_i htakes
    simp only [Fifo.takes, Bool.and_eq_true] at htakes
    rw [List.mem_singleton.1 ht]
    exact ⟨rfl, htakes.1.1.2⟩
  · exact absurd ht List.not_mem_nil

theorem seq_enters {t : Item w} (ht : t ∈ s.2.enters (sbIn s.1 i)) : t.seq = s.2.issued := by
  unfold Fifo.enters at ht
  split at ht
  · rw [List.mem_singleton.1 ht]
  · exact absurd ht List.not_mem_nil

/-- The instructions that stay, up to the first exception, have different destinations. -/
theorem Inv.unique_stays (h : Inv s) (ok : Regular s.1 i) :
    ((s.2.stays (sbIn s.1 i)).takeWhile fun t => !t.instr.ex.valid).Pairwise Apart := by
  have hcommit := clean_of_commits h.tracks ok
  -- of those in flight, the ones that do not commit
  have hold : (((s.2.items.map (Item.writeBack (sbIn s.1 i))).drop
      (Scoreboard.numCommit (sbIn s.1 i))).takeWhile fun t => !t.instr.ex.valid).Pairwise Apart := by
    rw [← List.map_drop, List.takeWhile_map, List.pairwise_map]
    have hdrop := takeWhile_drop (p := fun t : Item w => !t.instr.ex.valid)
      (Scoreboard.numCommit (sbIn s.1 i)) s.2.items fun t ht => by simp [hcommit t ht]
    show ((s.2.items.drop _).takeWhile fun t => !t.instr.ex.valid).Pairwise Apart
    rw [hdrop]
    exact h.unique.sublist (List.drop_sublist _ _)
  rw [Fifo.stays, List.takeWhile_append]
  split
  · rename_i hlen
    have hself := (List.takeWhile_prefix _).eq_of_length hlen
    have hstay : ∀ u ∈ s.2.items.drop (Scoreboard.numCommit (sbIn s.1 i)), u.instr.ex.valid = false := by
      intro u hu
      rw [← List.map_drop] at hself
      have hu' : (!u.instr.ex.valid) = true :=
        List.takeWhile_eq_self_iff.1 hself (u.writeBack (sbIn s.1 i)) (List.mem_map_of_mem hu)
      simpa using hu'
    have hall : AllClean s.2 := by
      intro t ht
      rw [← List.take_append_drop (Scoreboard.numCommit (sbIn s.1 i)) s.2.items] at ht
      rcases List.mem_append.1 ht with ht | ht
      · exact hcommit t ht
      · exact hstay t ht
    rw [hself] at hold
    rw [List.pairwise_append]
    refine ⟨hold, ?_, ?_⟩
    · unfold Fifo.enters
      split
      · exact (List.pairwise_singleton _ _).sublist (List.takeWhile_sublist _)
      · exact List.Pairwise.nil
    · intro u hu t ht
      rw [← List.map_drop] at hu
      obtain ⟨v, hv, rfl⟩ := List.mem_map.1 hu
      obtain ⟨hinstr, hack⟩ := mem_enters ((List.takeWhile_sublist _).subset ht)
      have hex : (issueInstr i).ex.valid = false := by
        have := List.mem_takeWhile_imp ht
        simpa [hinstr] using this
      show Apart v t
      exact h.apart_of_issue ok hall hack hex hv hinstr
  · exact hold

/-- One cycle keeps the invariant. -/
theorem Inv.step (h : Inv s) (ok : Regular s.1 i) : Inv (machine.next s i) where
  tracks := h.tracks.step ok.scoreboard
  ledger := by
    obtain ⟨l, hl⟩ := h.ledger
    exact ⟨_, hl.step h.tracks (sbIn s.1 i)⟩
  entered := by
    intro t ht
    rcases Fifo.mem_stays (Fifo.mem_items_next ht) with ⟨u, hu, rfl⟩ | hent
    · exact h.entered u hu
    · rw [(mem_enters hent).1]
      exact ⟨⟨i.decoded, rfl⟩, ok.sfence⟩
  unique := by
    show ((if i.flush then [] else s.2.stays (sbIn s.1 i)).takeWhile _).Pairwise Apart
    split
    · exact List.Pairwise.nil
    · exact h.unique_stays ok
  zero := rfl

end Step

/-! ### Sources -/

/-- `t` is the youngest instruction in flight that writes the register. -/
def Youngest (a : Fifo w) (f : Bool) (r : BitVec 6) (t : Item w) : Prop :=
  ∃ old young, a.items = old ++ t :: young ∧ Writes t f r ∧ ∀ u ∈ young, ¬Writes u f r

/-- Whenever the instruction `q` commits, in whatever run from `s` on, its result is `v`. -/
def Settled (s : Regs w × Fifo w) (q : ℕ) (v : BitVec 64) : Prop :=
  ∀ is, machine.Steps (fun s i => Regular s.1 i) s is →
    ∀ u ∈ (machine.run s is).2.committed, u.seq = q → u.entry.result = v

/-- What a source register is worth to an instruction issued in the cycle. -/
inductive Sourced (s : Regs w × Fifo w) (i : In w) (f : Bool) (r : BitVec 6) : BitVec 64 → Prop
  /-- `x0` is zero. -/
  | zero : isZero f r = true → Sourced s i f r 0
  /-- No instruction in flight writes it: the register file after the cycle. -/
  | regfile : isZero f r = false → (∀ t ∈ s.2.items, ¬Writes t f r) →
      Sourced s i f r (file (next s.1 i) f (r.setWidth 5))
  /-- The result of the youngest instruction that writes it, complete with this cycle. -/
  | writer (t : Item w) : Youngest s.2 f r t → t.instr.fu ≠ .csr →
      (t.writeBack (sbIn s.1 i)).entry.valid = true →
      Settled (machine.next s i) t.seq (t.writeBack (sbIn s.1 i)).entry.result →
      Sourced s i f r (t.writeBack (sbIn s.1 i)).entry.result

instance : Std.Symm (Apart (w := w)) := ⟨fun _ _ h f r hu ht => h f r ht hu⟩

section Sources

variable {s : Regs w × Fifo w} {i : In w}

/-- At most one instruction in flight writes a register. -/
theorem Inv.eq_of_writes (h : Inv s) (hall : AllClean s.2) {f : Bool} {r : BitVec 6} {t u : Item w}
    (ht : t ∈ s.2.items) (hu : u ∈ s.2.items) (hwt : Writes t f r) (hwu : Writes u f r) : u = t := by
  by_contra hne
  have hapart := (h.pairwise hall).forall hu ht hne
  exact hapart f r hwu hwt

theorem Inv.youngest (h : Inv s) (hall : AllClean s.2) {f : Bool} {r : BitVec 6} {t : Item w}
    (ht : t ∈ s.2.items) (hwt : Writes t f r) : Youngest s.2 f r t := by
  obtain ⟨old, young, hl⟩ := List.append_of_mem ht
  refine ⟨old, young, hl, hwt, fun u hu hwu => ?_⟩
  have hpair := h.pairwise hall
  rw [hl, List.pairwise_append, List.pairwise_cons] at hpair
  exact hpair.2.1.1 u hu f r hwt hwu

/-- A register that no instruction in flight writes does not change. -/
theorem Inv.file_next (h : Inv s) (ok : Regular s.1 i) {f : Bool} {r : BitVec 6}
    (hr : (r.setWidth 5).setWidth 6 = r) (hz : isZero f r = false)
    (hno : ∀ t ∈ s.2.items, ¬Writes t f r) :
    file (next s.1 i) f (r.setWidth 5) = file s.1 f (r.setWidth 5) := by
  have hport (p : Fin 2) : (we s.1 i f p && waddr s.1 p == r.setWidth 5) = false := by
    rw [Bool.eq_false_iff]
    intro hp
    rw [Bool.and_eq_true, beq_iff_eq] at hp
    have hwa : (waddr s.1 p).setWidth 6 = r := by rw [hp.2, hr]
    obtain ⟨-, t, ht, hw⟩ := ack_of_we h.tracks h.entered ok hp.1 (hwa.symm ▸ hz)
    exact hno t (List.mem_of_getElem? ht) (hwa ▸ hw)
  have hz' : (!f && r.setWidth 5 == 0) = false := by
    rw [Bool.eq_false_iff]
    intro h0
    rw [Bool.and_eq_true, beq_iff_eq] at h0
    have hr0 : r = 0 := by
      rw [← hr, h0.2]
      rfl
    simp [isZero, hr0, h0.1] at hz
  have hkeep : regfileNext s.1 i f (file s.1 f) (r.setWidth 5) = file s.1 f (r.setWidth 5) := by
    simp only [regfileNext, hport, hz', Bool.false_eq_true, if_false]
  cases f <;> exact hkeep

/-- The instruction `q` is complete: wherever it is, its entry is `e`. -/
structure Complete (a : Fifo w) (q : ℕ) (e : IssueEntry) : Prop where
  valid : e.valid = true
  lt : q < a.issued
  entry : ∀ u ∈ a.all, u.seq = q → u.entry = e

/-- A complete instruction stays as it is. -/
theorem Inv.complete_step (h : Inv s) (ok : Regular s.1 i) {q : ℕ} {e : IssueEntry}
    (hc : Complete s.2 q e) : Complete (machine.next s i).2 q e where
  valid := hc.valid
  lt := hc.lt.trans_le (Nat.le_add_right _ _)
  entry := by
    intro u hu hq
    rcases Fifo.mem_all_next hu with hold | hold | ⟨v, hv, rfl⟩ | hnew
    · exact hc.entry u (Fifo.mem_all.2 (hold.imp_right .inl)) hq
    · exact hc.entry u (Fifo.mem_all.2 (.inr (.inr (List.mem_of_mem_take hold)))) hq
    · have hve := hc.entry v (Fifo.mem_all.2 (.inr (.inr hv))) hq
      rw [writeBack_of_valid h.tracks ok hv (hve ▸ hc.valid)]
      exact hve
    · exact absurd hq (Nat.ne_of_gt (hc.lt.trans_eq (seq_enters hnew).symm))

theorem Inv.complete_run : ∀ (is : List (In w)) {s : Regs w × Fifo w}, Inv s → ∀ {q : ℕ} {e : IssueEntry},
    Complete s.2 q e → machine.Steps (fun s i => Regular s.1 i) s is →
    Complete (machine.run s is).2 q e
  | [], _, _, _, _, hc, _ => hc
  | _ :: is, _, h, _, _, hc, hs => complete_run is (h.step hs.1) (h.complete_step hs.1 hc) hs.2

/-- An instruction in flight that has its result is complete. -/
theorem Inv.complete_of_valid (h : Inv s) (ok : Regular s.1 i) {t : Item w} (ht : t ∈ s.2.items)
    (hv : (t.writeBack (sbIn s.1 i)).entry.valid = true) :
    Complete (machine.next s i).2 t.seq (t.writeBack (sbIn s.1 i)).entry where
  valid := hv
  lt := by
    obtain ⟨l, hl⟩ := h.ledger
    exact (hl.seq_lt (Fifo.mem_all.2 (.inr (.inr ht)))).trans_le (Nat.le_add_right _ _)
  entry := by
    obtain ⟨l, hl⟩ := h.ledger
    have heq {u : Item w} (hu : u ∈ s.2.items) (hq : u.seq = t.seq) : u = t :=
      hl.eq_of_seq (Fifo.mem_all.2 (.inr (.inr ht))) (Fifo.mem_all.2 (.inr (.inr hu))) hq
    intro u hu hq
    rcases Fifo.mem_all_next hu with hold | hold | ⟨v, hv, rfl⟩ | hnew
    · exact absurd hq (hl.ne_of_mem ht hold)
    · -- it commits in this cycle, so it was complete before
      have hval := (entry_of_commits h.tracks ok u hold).1
      have hut := heq (List.mem_of_mem_take hold) hq
      rw [← hut, writeBack_of_valid h.tracks ok (List.mem_of_mem_take hold) hval]
    · rw [heq hv hq]
    · have hlt := hl.seq_lt (Fifo.mem_all.2 (.inr (.inr ht)))
      rw [← hq, seq_enters hnew] at hlt
      exact absurd hlt (Nat.lt_irrefl _)

/-- A result that is there is the one that commits. -/
theorem Inv.settled (h : Inv s) (ok : Regular s.1 i) {t : Item w} (ht : t ∈ s.2.items)
    (hv : (t.writeBack (sbIn s.1 i)).entry.valid = true) :
    Settled (machine.next s i) t.seq (t.writeBack (sbIn s.1 i)).entry.result := by
  intro is hs u hu hq
  have hc := complete_run is (h.step ok) (h.complete_of_valid ok ht hv) hs
  rw [hc.entry u (Fifo.mem_all.2 (.inl hu)) hq]

/-- A source that does not stall has the value of its youngest writer, or of the register
file. -/
theorem Inv.source (h : Inv s) (ok : Regular s.1 i) (hall : AllClean s.2) {f : Bool} {r : BitVec 6}
    (hr : (r.setWidth 5).setWidth 6 = r) (hst : stalls s.1 i f r = false) :
    Sourced s i f r (source s.1 i f r) := by
  cases hz : isZero f r with
  | true =>
    have hf : f = false ∧ r = 0 := by simpa [isZero] using hz
    have hsrc : IssueStage.source s.1 i f r = 0 := by
      rw [hf.1, hf.2]
      exact h.zero
    rw [hsrc]
    exact .zero hz
  | false =>
    rcases rdClobber_cases h.tracks hz with ⟨hn, hno⟩ | ⟨t, ht, hw, hfu⟩
    · have hfwd : forwarded s.1 i f r = none := if_neg fun hc => hc.1 hn
      rw [IssueStage.source, hfwd, Option.getD_none, ← h.file_next ok hr hz hno]
      exact .regfile hz hno
    · have hne : rdClobber s.1.sb f r ≠ .none := by
        rw [hfu]
        exact ((h.entered t ht).shape (hall t ht)).1
      obtain ⟨v, hv⟩ : ∃ v, forwarded s.1 i f r = some v := by
        rw [← Option.isSome_iff_exists, ← Option.not_isNone, Bool.not_eq_true']
        simpa [stalls, hne] using hst
      have hsrc : IssueStage.source s.1 i f r = v := by rw [IssueStage.source, hv, Option.getD_some]
      unfold forwarded at hv
      split at hv
      · rename_i hc
        have hcsr : t.instr.fu ≠ .csr := by
          rcases hc.2 with hf | hc
          · rcases (h.entered t ht).fu_of_fpr (hw.2.1.trans hf) with hl | hl <;> rw [hl] <;>
              exact Fu.noConfusion
          · exact hfu ▸ hc
        obtain ⟨hval, hres⟩ := rsO_eq h.tracks ok hz ht
          (fun u hu hwu => h.eq_of_writes hall ht hu hw hwu) hv
        rw [hsrc, ← hres]
        exact .writer t (h.youngest hall ht hw) hcsr hval (h.settled ok ht hval)
      · cases hv

/-- Source addresses have five bits. -/
theorem rs_issueInstr (i : In w) :
    let e := issueInstr i
    (e.rs1.setWidth 5).setWidth 6 = e.rs1 ∧ (e.rs2.setWidth 5).setWidth 6 = e.rs2 ∧
      (e.op.isImmFpr = true → ((rs3 e).setWidth 5).setWidth 6 = rs3 e) := by
  refine ⟨by simp [issueInstr, reName], by simp [issueInstr, reName], fun himm => ?_⟩
  have himm' : (IdStage.decodedInstruction i.decoded).op.isImmFpr = true := himm
  have hrs3 : rs3 (issueInstr i) =
      ((IdStage.decodedInstruction i.decoded).result.setWidth 5).setWidth 6 := by
    simp [rs3, issueInstr, reName, himm']
  rw [hrs3]
  simp

end Sources

/-- In every run: the queue is what is in flight; up to the first instruction decoded with
an exception no two have one destination; and as long as there is none of that kind, an
instruction that is issued gets for every source register the result of the youngest
instruction in flight that writes it, which is the one that commits, or else the register
file. -/
theorem operands_sourced (is : List (In w))
    (hs : machine.Steps (fun s i => Regular s.1 i) (reset, Fifo.reset) is) :
    let s := machine.run (reset, Fifo.reset) is
    Scoreboard.IsQueue s.1.sb s.2 ∧ (clean s.2).Pairwise Apart ∧
      ∀ i, Regular s.1 i → AllClean s.2 → issueAck s.1 i = true → (issueInstr i).ex.valid = false →
        ∃ a b c,
          (next s.1 i).fuData.operands = operandSelect (issueInstr i) a b c ∧
          ((issueInstr i).useZimm = false → Sourced s i (issueInstr i).op.isRs1Fpr (issueInstr i).rs1 a) ∧
          Sourced s i (issueInstr i).op.isRs2Fpr (issueInstr i).rs2 b ∧
          ((issueInstr i).op.isImmFpr = true → Sourced s i true (rs3 (issueInstr i)) c) := by
  intro s
  have h : Inv s := Machine.run_inv (fun _ _ h ok => h.step ok) is _ inv_reset hs
  refine ⟨h.tracks.isQueue, h.unique, fun i ok hall ha hex => ?_⟩
  obtain ⟨-, hst, -⟩ := issue_of_ack ok ha hex
  obtain ⟨h1, h2, h3⟩ := rs_issueInstr i
  simp only [stall, Bool.or_eq_false_iff, Bool.and_eq_false_iff] at hst
  refine ⟨_, _, _, rfl, fun hzimm => ?_, h.source ok hall h2 hst.1.2, fun himm => ?_⟩
  · refine h.source ok hall h1 (hst.1.1.resolve_left ?_)
    simp [hzimm]
  · refine h.source ok hall (h3 himm) (hst.2.resolve_left ?_)
    simp [himm]

/-- The units are ready, nothing commits, comes back or is decoded. -/
def idle : In 3 where
  flushUnissuedInstr := false
  flush := false
  decoded :=
    { address := 0, instruction := 0x13, branchPredict := ⟨0⟩, ex := Exn.none, debugReq := false
      irq := 0, irqCtrl := ⟨0, 0, 0, false, false⟩, privLvl := Riscv.privLvlM, debugMode := false
      fs := Riscv.Xs.off, frm := 0, tvm := false, tw := false, tsr := false }
  decodedInstrValid := false
  fluReady := true
  lsuReady := true
  fpuReady := true
  targetAddress := 0
  wb := []
  commit := ⟨true, false, false, fun _ => ScoreboardEntry.empty, ⟨false, 0⟩, 0, Exn.none, true, true⟩

/-- The word `x` is decoded. -/
def issueWord (x : BitVec 32) : In 3 :=
  { idle with decodedInstrValid := true, decoded := { idle.decoded with instruction := x } }

/-- The result `v` comes back for the transaction `k`. -/
def answer (k : BitVec 3) (v : BitVec 64) (i : In 3) : In 3 := { i with wb := [⟨true, k, v, Exn.none⟩] }

/-- `addi x5, x0, 7`, and `addi x6, x5, 1` in the cycle its result comes back. -/
theorem operands_sourced_addi :
    let s := machine.run (reset, Fifo.reset) [issueWord 0x00700293]
    let i := answer 0 7 (issueWord 0x00128313)
    (next s.1 i).fuData.operands = (7, 1, 1) ∧ issueAck s.1 i = true ∧
      Sourced s i false 5 7 := by
  intro s i
  obtain ⟨a, b, c, he, ha, -⟩ := (operands_sourced [issueWord 0x00700293] (by decide +kernel)).2.2 i
    (by decide +kernel) (by unfold AllClean; decide +kernel) (by decide +kernel) (by decide +kernel)
  have hv : (next s.1 i).fuData.operands = (7, 1, 1) := by decide +kernel
  have hinstr : (issueInstr i).useZimm = false ∧ (issueInstr i).usePc = false ∧
      (issueInstr i).op.isRs1Fpr = false ∧ (issueInstr i).rs1 = 5 := by decide +kernel
  have ha7 : a = 7 := by
    rw [hv] at he
    simpa [operandSelect, hinstr.1, hinstr.2.1] using (congrArg Prod.fst he).symm
  have hsrc := ha hinstr.1
  rw [hinstr.2.2.1, hinstr.2.2.2, ha7] at hsrc
  exact ⟨hv, by decide +kernel, hsrc⟩

/-- Behind an `slli x5` that is illegal, `addi x6, x5, 0` gets the immediate of the `slli`
for `x5`, which no instruction will write; behind an `lr.w x5` it gets what the store unit
returned, and the `lr.w` commits another value. -/
theorem shadowed_operands :
    (let s := machine.run (reset, Fifo.reset) [issueWord 0x04001293]
      let i := issueWord 0x00028313
      machine.Steps (fun s i => Regular s.1 i) (reset, Fifo.reset) [issueWord 0x04001293, i] ∧
        issueAck s.1 i = true ∧ (issueInstr i).ex.valid = false ∧
        (∀ t ∈ s.2.items, t.entry.ex.valid = true) ∧
        (next s.1 i).fuData.operandA = 0x40 ∧ file (next s.1 i) false 5 = 0) ∧
    (let s := machine.run (reset, Fifo.reset) [issueWord 0x100022af, answer 0 0 idle]
      let i := issueWord 0x00028313
      let done : In 3 := { idle with commit := { idle.commit with halt := false, amoResp := ⟨true, 9⟩ } }
      machine.Steps (fun s i => Regular s.1 i) (reset, Fifo.reset)
          [issueWord 0x100022af, answer 0 0 idle, i, done] ∧
        issueAck s.1 i = true ∧ (issueInstr i).ex.valid = false ∧
        (next s.1 i).fuData.operandA = 0 ∧ file (machine.run s [i, done]).1 false 5 = 9) := by
  decide +kernel

end IssueStage
end Ariane

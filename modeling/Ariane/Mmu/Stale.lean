/-
# Flushed walks and their answers

A flush ends a walk whose request the cache may have granted and not answered. `Watched`
is the walker with, for every request, the number of flushes before its grant, and the
same number for the start of the walk that is on. An entry is the walk's own if it
answers a request at the address the walk waits for, granted since the walk started
(`OwnEntry`).

Every entry is the walk's own in the runs in which no flush comes while the walker waits
for an answer it gave up (`entries_own`). Without the condition the walker goes idle with
the answer still to come, and the next walk can take it (`entry_of_flushed_walk`).
-/
import Ariane.Mmu.Ptw

namespace Ariane
namespace Ptw

open Lib (Machine)

variable {n : ℕ}

/-! ### Requests and flushes -/

/-- A granted request: its address, and the flushes before its grant. -/
structure Request where
  addr : BitVec 56
  flushes : ℕ
deriving DecidableEq, Repr

/-- The walker, the flushes so far, how many of them came before the walk that is on was
started, the requests not answered, and the one that `data_rdata_q` answers. -/
structure Watched (n : ℕ) where
  sys : Sys n
  flushes : ℕ
  started : ℕ
  requests : List Request
  answered : Request
deriving DecidableEq

def Watched.next (w : Watched n) (i : In n) : Watched n where
  sys := w.sys.next i
  flushes := w.flushes + i.flush.toNat
  started := if (starts w.sys i).isSome then w.flushes else w.started
  requests :=
    (if i.dataRvalid then w.requests.tail else w.requests) ++
      if (comb w.sys.regs i).dataReq && i.dataGnt then [⟨w.sys.regs.pptr, w.flushes⟩] else []
  answered := if i.dataRvalid then w.requests.headD w.answered else w.answered

def watchedReset : Watched n := ⟨⟨reset, []⟩, 0, 0, [], ⟨0, 0⟩⟩

def watched : Machine (Watched n) (In n) := ⟨(· = watchedReset), Watched.next⟩

/-- The walker looks at an entry. -/
def consumes (s : Regs n) : Bool := s.state == .pteLookup && s.dataRvalid

/-- An entry the walker looks at answers a request granted since the walk started, at the
address the walk waits for. -/
def OwnEntry (w : Watched n) : Prop :=
  consumes w.sys.regs = true →
    w.started ≤ w.answered.flushes ∧ w.answered.addr = w.sys.regs.pptr

/-- A TLB is filled only from an entry of the walk's own. -/
def OwnFill (w : Watched n) (i : In n) : Prop :=
  ∀ u, .itlb u ∈ eventsO w.sys.regs i ∨ .dtlb u ∈ eventsO w.sys.regs i →
    consumes w.sys.regs = true ∧ w.started ≤ w.answered.flushes ∧
      w.answered.addr = w.sys.regs.pptr

/-- The TLBs are updated only with an entry the walker looks at. -/
theorem no_update_of_not_consumes {s : Regs n} {i : In n} (h : consumes s = false) :
    (comb s i).itlbUpdateValid = false ∧ (comb s i).dtlbUpdateValid = false := by
  have hcase : (stateCase s i).itlbUpdateValid = false ∧ (stateCase s i).dtlbUpdateValid = false := by
    unfold stateCase
    cases hs : s.state with
    | idle =>
      dsimp only [idleCase]
      split_ifs <;> exact ⟨rfl, rfl⟩
    | waitGrant =>
      dsimp only [waitGrantCase]
      split_ifs <;> exact ⟨rfl, rfl⟩
    | pteLookup =>
      have hr : s.dataRvalid = false := by simpa [consumes, hs] using h
      simp [pteLookupCase, hr, defaults]
    | propagateError => exact ⟨rfl, rfl⟩
    | waitRvalid =>
      dsimp only
      split_ifs <;> exact ⟨rfl, rfl⟩
  unfold comb
  split_ifs <;> exact hcase

theorem OwnEntry.fill {w : Watched n} (h : OwnEntry w) (i : In n) : OwnFill w i := by
  intro u hu
  have hc : consumes w.sys.regs = true := by
    by_contra hc
    obtain ⟨hi, hd⟩ := no_update_of_not_consumes (i := i) (Bool.eq_false_iff.2 hc)
    rw [eventsO, hi, hd] at hu
    revert hu
    cases (comb w.sys.regs i).dataReq && i.dataGnt <;> cases (comb w.sys.regs i).ptwError <;> simp
  exact ⟨hc, h hc⟩

/-! ### One cycle -/

/-- What a walk in progress knows of its requests. -/
structure Tracks (w : Watched n) : Prop where
  quiet : Quiet w.sys
  pending : w.requests.map Request.addr = w.sys.pending
  fresh : w.sys.regs.state = .waitGrant ∨ w.sys.regs.state = .pteLookup → w.flushes = w.started
  waiting : w.sys.regs.state = .pteLookup → w.sys.regs.dataRvalid = false →
    w.requests = [⟨w.sys.regs.pptr, w.started⟩]
  looking : w.sys.regs.state = .pteLookup → w.sys.regs.dataRvalid = true →
    w.answered = ⟨w.sys.regs.pptr, w.started⟩

theorem Tracks.ownEntry {w : Watched n} (h : Tracks w) : OwnEntry w := by
  intro hc
  simp only [consumes, Bool.and_eq_true, beq_iff_eq] at hc
  rw [h.looking hc.1 hc.2]
  exact ⟨le_rfl, rfl⟩

theorem tracks_reset : Tracks (watchedReset : Watched n) where
  quiet := rfl
  pending := rfl
  fresh := by simp [watchedReset, reset]
  waiting := by simp [watchedReset, reset]
  looking := by simp [watchedReset, reset]

section Step

variable {t : Sys n} {w : Watched n} {i : In n}

/-- The walker looks up an entry after a grant, and while the answer is not there. -/
theorem pteLookup_cases (h : (t.next i).regs.state = .pteLookup) : i.flush = false ∧
    (t.regs.state = .waitGrant ∧ i.dataGnt = true ∨
      t.regs.state = .pteLookup ∧ t.regs.dataRvalid = false) := by
  have hf : i.flush = false := by
    cases hf : i.flush with
    | false => rfl
    | true =>
      simp only [Sys.next, next, comb, hf, if_true] at h
      split at h <;> cases h
  refine ⟨hf, ?_⟩
  cases hs : t.regs.state with
  | idle => exact absurd h (state_of_idle hs).1
  | waitGrant =>
    cases hg : i.dataGnt with
    | true => exact .inl ⟨rfl, rfl⟩
    | false => simp [Sys.next, next, comb_waitGrant hf hs, waitGrantCase, hg, defaults, hs] at h
  | pteLookup =>
    cases hr : t.regs.dataRvalid with
    | false => exact .inr ⟨rfl, rfl⟩
    | true => exact absurd h (state_of_answer hs hr).1
  | propagateError => simp [Sys.next, next, comb, stateCase, hf, hs] at h
  | waitRvalid =>
    cases hr : t.regs.dataRvalid <;> simp [Sys.next, next, comb, stateCase, hf, hs, hr, defaults] at h

/-- The walker waits for a grant when a walk starts, and within a walk. -/
theorem waitGrant_cases (h : (t.next i).regs.state = .waitGrant) : i.flush = false ∧
    ((starts t i).isSome = true ∨
      t.regs.state = .waitGrant ∨ t.regs.state = .pteLookup) := by
  have hf : i.flush = false := by
    cases hf : i.flush with
    | false => rfl
    | true =>
      simp only [Sys.next, next, comb, hf, if_true] at h
      split at h <;> cases h
  refine ⟨hf, ?_⟩
  cases hs : t.regs.state with
  | idle =>
    refine .inl ?_
    simp only [Sys.next, next, comb, stateCase, hf, hs, idleCase] at h
    unfold starts
    rw [if_pos hs]
    split_ifs with h1 h2
    · rfl
    · rfl
    · simp [h1, h2, defaults, hs] at h
  | waitGrant => exact .inr (.inl rfl)
  | pteLookup => exact .inr (.inr rfl)
  | propagateError => simp [Sys.next, next, comb, stateCase, hf, hs] at h
  | waitRvalid =>
    cases hr : t.regs.dataRvalid <;> simp [Sys.next, next, comb, stateCase, hf, hs, hr, defaults] at h

/-- A walk starts only in an idle walker. -/
theorem starts_eq_none (h : t.regs.state ≠ .idle) : (starts t i).isSome = false := by
  simp [starts, h]

/-- The address of a walk that waits for a grant or an answer stays. -/
theorem pptr_next (hf : i.flush = false) (h : t.regs.state = .waitGrant ∨
    t.regs.state = .pteLookup ∧ t.regs.dataRvalid = false) :
    (t.next i).regs.pptr = t.regs.pptr := by
  rcases h with hs | ⟨hs, hr⟩
  · cases hg : i.dataGnt <;> simp [Sys.next, next, comb_waitGrant hf hs, waitGrantCase, hg, defaults]
  · simp [Sys.next, next, comb_pteLookup hf hs, pteLookupCase, hr, defaults]

theorem Tracks.step (h : Tracks w) (ha : Answers w.sys i) (hw : WaitsForAnswer w.sys i) :
    Tracks (w.next i) where
  quiet := h.quiet.step ha hw
  pending := by
    rw [Watched.next, Sys.next, ← h.pending]
    cases i.dataRvalid <;> cases (comb w.sys.regs i).dataReq && i.dataGnt <;> simp
  fresh := by
    intro hs
    have hf : i.flush = false := hs.elim (fun hs => (waitGrant_cases hs).1) fun hs => (pteLookup_cases hs).1
    have hflush : (w.next i).flushes = w.flushes := by simp [Watched.next, hf]
    rw [hflush]
    by_cases hst : (starts w.sys i).isSome = true
    · simp [Watched.next, hst]
    · have hwalk : w.sys.regs.state = .waitGrant ∨ w.sys.regs.state = .pteLookup := by
        rcases hs with hs | hs
        · exact (waitGrant_cases hs).2.resolve_left hst
        · exact (pteLookup_cases hs).2.imp And.left And.left
      rw [h.fresh hwalk]
      simp [Watched.next, hst]
  waiting := by
    intro hs hr
    have hrv : i.dataRvalid = false := hr
    obtain ⟨hf, hcases⟩ := pteLookup_cases hs
    have hptr := pptr_next hf (hcases.imp_left And.left)
    have hstarted : (w.next i).started = w.started := by
      have hne : w.sys.regs.state ≠ .idle := by
        rcases hcases with ⟨hs, -⟩ | ⟨hs, -⟩ <;> rw [hs] <;> exact State.noConfusion
      simp [Watched.next, starts_eq_none hne]
    show (w.next i).requests = [⟨(w.sys.next i).regs.pptr, (w.next i).started⟩]
    rw [hptr, hstarted]
    rcases hcases with ⟨hs, hg⟩ | ⟨hs, hr⟩
    · -- the request granted in this cycle is the only one
      have hnil : w.requests = [] := by
        have := h.pending
        rw [(h.quiet.nil (by simp [hs]) (by simp [hs])).1] at this
        exact List.map_eq_nil_iff.1 this
      simp [Watched.next, hrv, hnil, dataReq_eq, hs, hg, h.fresh (.inl hs)]
    · simp [Watched.next, hrv, dataReq_eq, hs, h.waiting hs hr]
  looking := by
    intro hs hr
    have hrv : i.dataRvalid = true := hr
    obtain ⟨hf, hcases⟩ := pteLookup_cases hs
    have hptr := pptr_next hf (hcases.imp_left And.left)
    show (w.next i).answered = ⟨(w.sys.next i).regs.pptr, (w.next i).started⟩
    rw [hptr]
    rcases hcases with ⟨hs, -⟩ | ⟨hs, hr⟩
    · exact absurd (h.quiet.nil (by simp [hs]) (by simp [hs])).1 (ha hrv)
    · have hne : w.sys.regs.state ≠ .idle := by rw [hs]; exact State.noConfusion
      simp [Watched.next, hrv, h.waiting hs hr, starts_eq_none hne]

end Step

/-! ### Runs -/

/-- In every run in which the walker is not flushed while it waits for an answer it gave
up, whatever the grants, the latency of the answers and the other flushes, every entry a
walk looks at, and every entry a TLB is filled with, answers a request of that walk. -/
theorem entries_own (is : List (In n))
    (hs : watched.Steps (fun w i => Answers w.sys i ∧ WaitsForAnswer w.sys i) watchedReset is) :
    watched.Steps (fun w i => OwnEntry w ∧ OwnFill w i) watchedReset is ∧
      OwnEntry (watched.run watchedReset is) := by
  have hstep (w : Watched n) (i : In n) (h : Tracks w)
      (ok : Answers w.sys i ∧ WaitsForAnswer w.sys i) : Tracks (w.next i) := h.step ok.1 ok.2
  refine ⟨?_, ?_⟩
  · exact Machine.steps_of_inv hstep (fun w i h _ => ⟨h.ownEntry, h.ownEntry.fill i⟩) is _
      tracks_reset hs
  · exact (Machine.run_inv hstep is _ tracks_reset hs).ownEntry

/-- A walk flushed after its grant, its answer, and a walk that gets the answer to its own
request. -/
def flushedOnce : List (In 1) :=
  [missAt 0, { quietIn with dataGnt := true }, { quietIn with flush := true },
    { quietIn with dataRvalid := true, dataRdata := 0xcf }, quietIn, missAt 0x40000000,
    { quietIn with dataGnt := true }, { quietIn with dataRvalid := true }]

theorem entries_own_flushedOnce :
    consumes (watched.run watchedReset flushedOnce).sys.regs = true ∧
      (watched.run watchedReset flushedOnce).started = 1 ∧
      OwnEntry (watched.run watchedReset flushedOnce) := by
  refine ⟨by decide +kernel, by decide +kernel, (entries_own flushedOnce ?_).2⟩
  refine ⟨?_, ?_, ?_, ?_, ?_, ?_, ?_, ?_, trivial⟩ <;>
    exact ⟨by unfold Answers; decide +kernel, by unfold WaitsForAnswer; decide +kernel⟩

/-- A second flush, before the answer: the next walk looks at the entry of the walk that
was flushed, and fills the TLB with it. -/
theorem entry_of_flushed_walk :
    let is : List (In 1) :=
      [missAt 0, { quietIn with dataGnt := true }, { quietIn with flush := true },
        { quietIn with flush := true }, missAt 0x40000000,
        { quietIn with dataGnt := true, dataRvalid := true, dataRdata := 0xcf }]
    let w := watched.run watchedReset is
    watched.Steps (fun w i => Answers w.sys i) watchedReset is ∧ consumes w.sys.regs = true ∧
      w.started = 2 ∧ w.answered = ⟨0, 0⟩ ∧ w.sys.regs.pptr = 8 ∧
      .dtlb ⟨0x40000, false, true, 1, 0xcf⟩ ∈ eventsO w.sys.regs quietIn ∧
      ¬(OwnEntry w ∧ OwnFill w quietIn) := by
  intro is w
  refine ⟨?_, by decide +kernel, by decide +kernel, by decide +kernel, by decide +kernel,
    by decide +kernel, ?_⟩
  · refine ⟨?_, ?_, ?_, ?_, ?_, ?_, trivial⟩ <;> unfold Answers <;> decide +kernel
  · rintro ⟨h, -⟩
    exact absurd (h (by decide +kernel)).1 (by decide +kernel)

end Ptw
end Ariane

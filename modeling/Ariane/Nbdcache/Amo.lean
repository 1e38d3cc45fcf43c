/-
# Atomics of the write-back cache

The handler flushes for an atomic, reads the word from memory, and stores what `amo_alu` makes of
it, or nothing for a load-reserved and a store-conditional that fails. `amo_alu` works on double
words; a word is sign-extended for it, which keeps both orders (`setWidth_amoValue`). The bytes are
those of the architecture (`AmoDone`): the ones of the word or double word are replaced, the others
stay. A store-conditional succeeds if the last load-reserved was on its double word and no other
store-conditional has been since (`Reserves`).

In every run each atomic is acknowledged so, on a memory to which the cache has been written back
(`atomics_correct`).
-/
import Ariane.Nbdcache.Flush

namespace Ariane
namespace Nbdcache

open Lib (Machine byte)
open Lib.Burst (Job)
open Axi (Word)
open Axi.WriteBurst (AdReq Aw Ar W adapter adapterAt adWrite)
open Lsu (AmoOp dataAlign)
open Lsu.Lanes (beGen bytes)

variable {g : Geom}

/-! ### Values -/

/-- What an atomic of width `n` stores, of what it finds and its operand. -/
def amoValue {n : ℕ} (op : AmoOp) (old operand : BitVec n) : BitVec n :=
  match op with
  | .sc | .swap => operand
  | .add => old + operand
  | .and => old &&& operand
  | .or => old ||| operand
  | .xor => old ^^^ operand
  | .max => if old.slt operand then operand else old
  | .min => if old.slt operand then old else operand
  | .maxu => if old.ult operand then operand else old
  | .minu => if old.ult operand then old else operand
  | .none | .lr => old

/-- Bit 64 of the adder compares. -/
theorem borrow_eq (a b : BitVec 65) : borrow a b = (a + -b).msb := by
  rw [borrow, BitVec.msb_eq_getLsbD_last]

theorem borrow_signExtend (a b : Word) : borrow (a.signExtend 65) (b.signExtend 65) = a.slt b := by
  have ha := BitVec.toInt_lt (x := a)
  have ha' := BitVec.le_toInt a
  have hb := BitVec.toInt_lt (x := b)
  have hb' := BitVec.le_toInt b
  rw [borrow_eq, BitVec.msb_eq_toInt, BitVec.toInt_add, BitVec.toInt_neg, BitVec.toInt_signExtend_of_le (by decide),
    BitVec.toInt_signExtend_of_le (by decide), BitVec.slt_eq_decide, decide_eq_decide]
  norm_num at *
  rw [Int.bmod_def]
  omega

theorem borrow_setWidth (a b : Word) : borrow (a.setWidth 65) (b.setWidth 65) = a.ult b := by
  have ha := a.isLt
  have hb := b.isLt
  rw [borrow_eq, BitVec.msb_eq_decide, BitVec.toNat_add, BitVec.toNat_neg, BitVec.toNat_setWidth, BitVec.toNat_setWidth,
    BitVec.ult_eq_decide, decide_eq_decide]
  omega

theorem amoAlu_eq {op : AmoOp} (hn : op ≠ .none) (hl : op ≠ .lr) (a b : Word) : amoAlu op a b = amoValue op a b := by
  cases op
  case none => exact absurd rfl hn
  case lr => exact absurd rfl hl
  case max | min => rw [amoAlu, borrow_signExtend, amoValue]
  case maxu | minu => rw [amoAlu, borrow_setWidth, amoValue]
  case add =>
    rw [amoAlu, amoValue, BitVec.setWidth_add _ _ (by decide), Lib.setWidth_signExtend (by decide) _]
    rw [Lib.setWidth_signExtend (by decide) _]
  all_goals rfl

theorem slt_signExtend (x y : BitVec 32) : (x.signExtend 64).slt (y.signExtend 64) = x.slt y := by
  rw [BitVec.slt_eq_decide, BitVec.slt_eq_decide, BitVec.toInt_signExtend_of_le (by decide),
    BitVec.toInt_signExtend_of_le (by decide)]

/-- Sign extension keeps the unsigned order too. -/
theorem ult_signExtend (x y : BitVec 32) : (x.signExtend 64).ult (y.signExtend 64) = x.ult y := by
  have hx := x.isLt
  have hy := y.isLt
  rw [BitVec.ult_eq_decide, BitVec.ult_eq_decide, decide_eq_decide, BitVec.toNat_signExtend, BitVec.toNat_signExtend,
    BitVec.msb_eq_decide, BitVec.msb_eq_decide, BitVec.toNat_setWidth, BitVec.toNat_setWidth]
  simp only [decide_eq_true_eq]
  split <;> split <;> omega

/-- On sign-extended words the low half is the value of words. -/
theorem setWidth_amoValue {op : AmoOp} (x y : BitVec 32) :
    (amoValue op (x.signExtend 64) (y.signExtend 64)).setWidth 32 = amoValue op x y := by
  have hself (z : BitVec 32) : (z.signExtend 64).setWidth 32 = z := Lib.setWidth_signExtend (by decide) _
  cases op <;> simp only [amoValue, slt_signExtend, ult_signExtend]
  case add => rw [BitVec.setWidth_add _ _ (by decide), hself, hself]
  case and => rw [BitVec.setWidth_and, hself, hself]
  case or => rw [BitVec.setWidth_or, hself, hself]
  case xor => rw [BitVec.setWidth_xor, hself, hself]
  case max | min | maxu | minu => split <;> exact hself _
  all_goals exact hself _
/-! ### Bytes -/

def Mem.byte (m : Mem) (b : BitVec 64) : BitVec 8 := Lib.byte (b.toNat % 8) (m (b.extractLsb' 3 61))

namespace Amo

variable (a : Amo)

/-- The double word it is in. -/
def word : BitVec 61 := a.operandA.extractLsb' 3 61

/-- The place in it. -/
def offset : BitVec 3 := a.operandA.extractLsb' 0 3

variable {a}

theorem toNat_offset : a.offset.toNat = a.operandA.toNat % 8 := by
  rw [offset, BitVec.extractLsb'_toNat, Nat.shiftRight_zero]

theorem WellFormed.cases (h : a.WellFormed) :
    a.size = 2 ∧ (a.offset.toNat = 0 ∨ a.offset.toNat = 4) ∨ a.size = 3 ∧ a.offset.toNat = 0 := by
  have ho := toNat_offset (a := a)
  have ha := h.aligned
  rcases h.size with hs | hs
  · rw [hs, show (2 : BitVec 2).toNat = 2 from rfl] at ha
    exact .inl ⟨hs, by omega⟩
  · rw [hs, show (3 : BitVec 2).toNat = 3 from rfl] at ha
    exact .inr ⟨hs, by omega⟩

theorem WellFormed.fits (h : a.WellFormed) : a.offset.toNat + bytes a.size ≤ 8 := by
  rcases h.cases with ⟨hs, ho⟩ | ⟨hs, ho⟩ <;> rw [hs]
  · rw [show bytes 2 = 4 from rfl]
    omega
  · rw [show bytes 3 = 8 from rfl]
    omega

end Amo

theorem perform_single (m : Mem) (a : Amo) (wdata : Word) (be : BitVec 8) :
    m.perform (adWrite (singleReq g a true wdata be)) =
      Function.update m a.word (Lib.writeLanes be (m a.word) wdata) := by
  have hbeats : (adWrite (singleReq g a true wdata be)).beats = [⟨wdata, be, true⟩] := rfl
  rw [Mem.perform, hbeats]
  simp only [List.zipIdx_cons, List.zipIdx_nil, List.foldl_cons, List.foldl_nil]
  rw [BitVec.add_zero]
  rfl

/-- A store of `bytes` bytes that stay in the word, rotated to their lanes. -/
theorem byte_store {a : Amo} (hfit : a.offset.toNat + bytes a.size ≤ 8) (m : Mem) (v : Word) (b : BitVec 64) :
    (m.perform (adWrite (singleReq g a true (dataAlign a.offset v) (beGen a.offset a.size)))).byte b =
      if (b - a.operandA).toNat < bytes a.size then byte (b - a.operandA).toNat v else m.byte b := by
  have ho := Amo.toNat_offset (a := a)
  have hb := b.isLt
  have ha := a.operandA.isLt
  have hsub : (b - a.operandA).toNat = (2 ^ 64 - a.operandA.toNat + b.toNat) % 2 ^ 64 := BitVec.toNat_sub _ _
  rw [perform_single, Mem.byte]
  by_cases hw : b.extractLsb' 3 61 = a.word
  · have hdiv : b.toNat / 8 = a.operandA.toNat / 8 := by
      have hn := congrArg BitVec.toNat hw
      rw [Amo.word, BitVec.extractLsb'_toNat, BitVec.extractLsb'_toNat, Nat.shiftRight_eq_div_pow,
        Nat.shiftRight_eq_div_pow] at hn
      omega
    have hlane := Lsu.Lanes.getLsbD_beGen a.offset a.size hfit ⟨b.toNat % 8, Nat.mod_lt _ (by decide)⟩
    rw [hw, Function.update_self, Lib.byte_writeLanes, hlane]
    by_cases hin : (b - a.operandA).toNat < bytes a.size
    · have hbetween : a.offset.toNat ≤ b.toNat % 8 ∧ b.toNat % 8 < a.offset.toNat + bytes a.size := by omega
      have hk : (b.toNat % 8 + 8 - a.offset.toNat) % 8 = (b - a.operandA).toNat := by omega
      rw [if_pos hin, if_pos (by simpa using hbetween), dataAlign,
        Lib.byte_rotateLeft (m := 8) (Nat.mod_lt _ (by decide)) (by omega) v, hk]
    · have hbetween : ¬(a.offset.toNat ≤ b.toNat % 8 ∧ b.toNat % 8 < a.offset.toNat + bytes a.size) := by omega
      rw [if_neg hin, if_neg (by simpa using hbetween), Mem.byte, hw]
  · have hdiv : b.toNat / 8 ≠ a.operandA.toNat / 8 := fun hd => hw (by
      apply BitVec.eq_of_toNat_eq
      rw [Amo.word, BitVec.extractLsb'_toNat, BitVec.extractLsb'_toNat, Nat.shiftRight_eq_div_pow,
        Nat.shiftRight_eq_div_pow]
      omega)
    rw [Function.update_of_ne hw, if_neg (by omega), Mem.byte]

/-- What is read, in the low bytes. -/
theorem byte_load {a : Amo} (hwf : a.WellFormed) (m : Mem) {k : ℕ} (hk : k < bytes a.size) :
    byte k (dataAlign a.offset (m a.word)) = m.byte (a.operandA + BitVec.ofNat 64 k) := by
  have ho := Amo.toNat_offset (a := a)
  have hfit := hwf.fits
  have ha := a.operandA.isLt
  have hadd : (a.operandA + BitVec.ofNat 64 k).toNat = a.operandA.toNat + k := by
    rw [BitVec.toNat_add, BitVec.toNat_ofNat]
    omega
  have hlane : (k + 8 - a.offset.toNat) % 8 = (a.operandA + BitVec.ofNat 64 k).toNat % 8 := by
    rw [hadd]
    rcases hwf.cases with ⟨hs, h4⟩ | ⟨hs, h4⟩
    · rw [hs, show bytes 2 = 4 from rfl] at hk
      omega
    · omega
  have hword : (a.operandA + BitVec.ofNat 64 k).extractLsb' 3 61 = a.word := by
    apply BitVec.eq_of_toNat_eq
    rw [Amo.word, BitVec.extractLsb'_toNat, BitVec.extractLsb'_toNat, Nat.shiftRight_eq_div_pow,
      Nat.shiftRight_eq_div_pow, hadd]
    omega
  rw [dataAlign, Lib.byte_rotateLeft (m := 8) (by omega) (by omega), Mem.byte, hlane, hword]

/-! ### Reservations -/

/-- The last load-reserved of a history was on `w`, and no store-conditional has been since. -/
def Reserves (acked : List Amo) (w : BitVec 61) : Prop :=
  ∃ pre lr post, acked = pre ++ lr :: post ∧ lr.op = .lr ∧ lr.word = w ∧ ∀ a ∈ post, a.op ≠ .lr ∧ a.op ≠ .sc

theorem not_reserves_nil (w : BitVec 61) : ¬Reserves [] w := by
  rintro ⟨pre, lr, post, h, -⟩
  cases pre <;> cases h

/-- What one more atomic does to the reservation. -/
theorem reserves_concat (acked : List Amo) (a : Amo) (w : BitVec 61) :
    Reserves (acked ++ [a]) w ↔ if a.op = .lr then a.word = w else a.op ≠ .sc ∧ Reserves acked w := by
  refine ⟨?_, fun h => ?_⟩
  · rintro ⟨pre, lr, post, heq, hlr, hword, hpost⟩
    rcases List.eq_nil_or_concat post with rfl | ⟨post, b, rfl⟩
    · obtain ⟨-, hlast⟩ := List.append_inj' heq rfl
      obtain rfl := List.singleton_inj.1 hlast
      rw [if_pos hlr]
      exact hword
    · rw [List.concat_eq_append] at heq hpost
      obtain ⟨rfl, hlast⟩ := List.append_inj' (show acked ++ [a] = (pre ++ lr :: post) ++ [b] by rw [heq]; simp) rfl
      obtain rfl := List.singleton_inj.1 hlast
      obtain ⟨hnl, hns⟩ := hpost a (by simp)
      rw [if_neg hnl]
      exact ⟨hns, pre, lr, post, rfl, hlr, hword, fun c hc => hpost c (List.mem_append_left _ hc)⟩
  · split at h
    · rename_i hlr
      exact ⟨acked, a, [], rfl, hlr, h, fun c hc => nomatch hc⟩
    · rename_i hnl
      obtain ⟨hns, pre, lr, post, rfl, hlr, hword, hpost⟩ := h
      refine ⟨pre, lr, post ++ [a], by simp, hlr, hword, fun c hc => ?_⟩
      rcases List.mem_append.1 hc with hc | hc
      · exact hpost c hc
      · obtain rfl := List.mem_singleton.1 hc
        exact ⟨hnl, hns⟩

/-- The atomic stores: all do but a load-reserved and a store-conditional without a reservation. -/
def Stores (acked : List Amo) (a : Amo) : Prop := a.op ≠ .lr ∧ (a.op = .sc → Reserves acked a.word)

/-- The register says what the history does. -/
def Reserved (r : Reservation) (acked : List Amo) : Prop :=
  ∀ w, (r.valid = true ∧ r.address = w) ↔ Reserves acked w

theorem Reserved.noStore {r : Reservation} {acked : List Amo} (h : Reserved r acked) (a : Amo) :
    noStore r a = false ↔ Stores acked a := by
  have hw := h a.word
  unfold Nbdcache.noStore Stores
  rw [← hw]
  cases hv : r.valid <;> by_cases hl : a.op = .lr <;> by_cases hs : a.op = .sc <;> simp [hl, hs, Amo.word]

/-- What the register takes with an acknowledgement. -/
def Reservation.after (r : Reservation) (a : Amo) : Reservation :=
  if a.op = .lr then ⟨a.word, true⟩ else if a.op = .sc then { r with valid := false } else r

theorem Reserved.after {r : Reservation} {acked : List Amo} (h : Reserved r acked) (a : Amo) :
    Reserved (r.after a) (acked ++ [a]) := by
  intro w
  rw [reserves_concat, Reservation.after]
  by_cases hl : a.op = .lr
  · rw [if_pos hl, if_pos hl]
    exact ⟨fun hc => hc.2, fun hc => ⟨rfl, hc⟩⟩
  · rw [if_neg hl, if_neg hl]
    by_cases hs : a.op = .sc
    · rw [if_pos hs]
      exact ⟨fun hc => absurd hc.1 Bool.false_ne_true, fun hc => absurd hs hc.1⟩
    · rw [if_neg hs, h w]
      exact ⟨fun hc => ⟨hs, hc⟩, fun hc => hc.2⟩

section Store

variable {s : Sys g} {i : In g}

/-- What the last state of an atomic does. -/
theorem out_amoStore (hs : s.h.state = .amoStore) :
    let ack := noStore s.h.reservation i.amo || (s.adOut i).valid
    (s.out i).sram.we = false ∧ (s.out i).amoAck = ack ∧
      (s.out i).next =
        (if ack then { s.h with state := .idle, reservation := s.h.reservation.after i.amo } else s.h) ∧
      (ack = true → (s.out i).amoResult =
        if i.amo.op = .sc then if noStore s.h.reservation i.amo && !(s.adOut i).valid then 1 else 0
        else (amoOperands i.amo s.h.mshr.wdata).1) := by
  unfold Sys.out cacheManagement
  rw [hs]
  dsimp only
  cases hn : noStore s.h.reservation i.amo <;> cases hv : (s.adOut i).valid
  · simp [Sram.none]
  · have hl : i.amo.op ≠ .lr := fun hc => by simp [noStore, hc] at hn
    by_cases hc : i.amo.op = .sc <;> simp [Sram.none, hl, hc, Reservation.after]
  · by_cases hl : i.amo.op = .lr
    · simp [Sram.none, hl, Reservation.after, Amo.word]
    · by_cases hc : i.amo.op = .sc <;> simp [Sram.none, hl, hc, Reservation.after]
  · by_cases hl : i.amo.op = .lr
    · simp [Sram.none, hl, Reservation.after, Amo.word]
    · by_cases hc : i.amo.op = .sc <;> simp [Sram.none, hl, hc, Reservation.after]

/-- Outside it there is no acknowledgement, and the reservation stays. -/
theorem out_not_amoStore (hs : s.h.state ≠ .amoStore) :
    (s.out i).amoAck = false ∧ (s.out i).next.reservation = s.h.reservation := by
  by_cases hi : s.h.state = .idle
  · obtain ⟨-, -, hack, hres, -⟩ := idle_cases (i := i) hi
    exact ⟨hack, hres⟩
  unfold Sys.out cacheManagement
  cases hs' : s.h.state <;> rw [hs'] at hs hi
  case idle => exact absurd rfl hi
  case amoStore => exact absurd rfl hs
  all_goals
    dsimp only
    repeat' split
    all_goals exact ⟨rfl, rfl⟩

end Store

theorem reserved_next {s : Watched g} {i : In g} (h : Reserved s.sys.h.reservation s.acked) :
    Reserved (s.next i).sys.h.reservation (s.next i).acked := by
  change Reserved (s.sys.out i).next.reservation (if s.amoAck i then s.acked ++ [i.amo] else s.acked)
  by_cases hs : s.sys.h.state = .amoStore
  · obtain ⟨-, hack, hnext, -⟩ := out_amoStore (i := i) hs
    rw [Watched.amoAck, hack, hnext]
    cases noStore s.sys.h.reservation i.amo || (s.sys.adOut i).valid with
    | true => exact h.after i.amo
    | false => exact h
  · obtain ⟨hack, hres⟩ := out_not_amoStore (i := i) hs
    rw [Watched.amoAck, hack, hres]
    exact h

/-! ### The sequence -/

namespace Watched

variable (s : Watched g)

/-- The bursts of the flush before. -/
def flushLog : List (Job (Aw 4) W) := s.start.2.dirtyLines.map s.start.2.job

/-- The store of the atomic. -/
def amoJob : Job (Aw 4) W := adWrite (fsmMiss s.sys.h s.taken)

/-- The atomic found the arrays written back to `base`, and empty. -/
structure Begun : Prop where
  empty : s.sys.arr.Empty
  flushed : s.base = s.flushLog.foldl Mem.perform s.start.1

/-- It has stored nothing yet. -/
structure Before : Prop where
  begun : s.Begun
  mem : s.sys.mem = s.base
  log : s.log = s.flushLog

/-- It has stored, and waits for the response. -/
structure After : Prop where
  begun : s.Begun
  waits : s.sys.ad.s.state = .waitBValid
  stores : noStore s.sys.h.reservation s.taken = false
  mem : s.sys.mem = s.base.perform s.amoJob
  log : s.log = s.flushLog ++ [s.amoJob]

/-- The word is on its way, or there. -/
def Reading : Prop :=
  s.sys.ad.s.state = .waitRValid ∧ (∃ ar ∈ s.sys.lastAr, ar.len = 0 ∧ ar.addr = s.taken.operandA) ∨
    s.sys.ad.s.state = .completeRead ∧ s.sys.ad.s.cacheLine 0 = s.base s.taken.word

/-- What a state says of the atomic. -/
def AmoPhase : Prop :=
  match s.sys.h.state with
  | .amoLoad => s.Before
  | .amoSaveLoad => s.Before ∧ s.Reading
  | .amoStore => s.sys.h.mshr.wdata = s.base s.taken.word ∧ (s.Before ∧ s.sys.ad.s.state.busy = false ∨ s.After)
  | _ => True

structure AmoInv : Prop where
  inv : s.Inv
  amo : s.AmoPhase
  reserved : Reserved s.sys.h.reservation s.acked

end Watched

section Step

variable {s : Watched g} {i : In g}

/-- In the course of an atomic only the handler acts, and what the atomic found stays. -/
theorem next_amo (he : Env s i) (ha : s.sys.h.state.amo = true) (hwe : (s.sys.out i).sram.we = false) :
    (s.next i).start = s.start ∧ (s.next i).base = s.base ∧ (s.next i).taken = s.taken ∧
      (s.next i).sys.arr = s.sys.arr ∧ (s.next i).log = s.log ++ (s.sys.written i).toList ∧
      (s.next i).sys.mem = (s.sys.written i).toList.foldl Mem.perform s.sys.mem := by
  have hi : s.sys.h.state ≠ .idle := fun hc => by rw [hc] at ha; cases ha
  obtain ⟨hstart, hlog, hmem, harr⟩ := next_quiet (he.port (.inr ha)) hi
  have htakes : s.takes i = false := by simp [Watched.takes, hi]
  refine ⟨hstart, ?_, ?_, ?_, hlog, hmem⟩
  · rw [Watched.next, htakes]
    rfl
  · rw [Watched.next, htakes]
    rfl
  · rw [harr]
    exact Arrays.write_of_not_we hwe

/-- A cycle without a write keeps what the atomic found. -/
theorem Watched.Before.next (h : s.Before) (he : Env s i) (ha : s.sys.h.state.amo = true)
    (hwe : (s.sys.out i).sram.we = false) (hno : s.sys.written i = none) : (s.next i).Before := by
  obtain ⟨hstart, hbase, htaken, harr, hlog, hmem⟩ := next_amo he ha hwe
  rw [hno, Option.toList_none] at hlog hmem
  have hflush : (s.next i).flushLog = s.flushLog := by rw [Watched.flushLog, hstart, Watched.flushLog]
  refine ⟨⟨?_, ?_⟩, ?_, ?_⟩
  · rw [harr]
    exact h.begun.empty
  · rw [hbase, hflush, hstart]
    exact h.begun.flushed
  · rw [hmem, hbase]
    exact h.mem
  · rw [hlog, hflush, List.append_nil]
    exact h.log

/-- The adapter is at work on a read only when it is idle. -/
theorem idle_of_read (h : Linked s) (he : Env s i)
    (hwe : (fsmMiss s.sys.h i.amo).we = false) (hg : (s.sys.adOut i).gnt = true) : s.sys.ad.s.state = .idle := by
  obtain ⟨n, hat, -, -⟩ := h.burst.books (h.kept he)
  have hheld (r) (hr : r ∈ s.sys.ad.held) : r.we = false := by
    rw [← (h.held r hr).2, ← he.congr.2]
    exact hwe
  have hb : s.sys.ad.s.state.busy = false := by
    by_contra hb
    rw [Sys.adOut, gnt_of_busy (by simpa using hb)] at hg
    cases hg
  unfold adapterAt at hat
  cases hs : s.sys.ad.s.state <;> rw [hs] at hat hb
  case waitAwReady | waitAwReadyBurst | waitLastWReadyAwReady | waitLastWReady =>
    obtain ⟨r, hr, hw, -⟩ := hat
    rw [hheld r hr] at hw
    cases hw
  all_goals cases hb

theorem next_amoLoad (h : s.AmoInv) (he : Env s i) (hs : s.sys.h.state = .amoLoad) : (s.next i).AmoPhase := by
  have hbefore : s.Before := by simpa only [Watched.AmoPhase, hs] using h.amo
  have ha : s.sys.h.state.amo = true := by rw [hs]; rfl
  have hreq : fsmMiss s.sys.h i.amo = singleReq g i.amo false 0 0 := by rw [fsmMiss, hs]
  have hno : s.sys.written i = none := by
    rw [h.inv.linked.written he, hreq, show (singleReq g i.amo false 0 0).we = false from rfl, Bool.and_false]
    rfl
  have hout : (s.sys.out i).sram.we = false ∧
      (s.sys.out i).next = if (s.sys.adOut i).gnt then { s.sys.h with state := .amoSaveLoad } else s.sys.h := by
    unfold Sys.out cacheManagement
    rw [hs]
    cases (s.sys.adOut i).gnt <;> simp [Sram.none]
  have hnext := hbefore.next he ha hout.1 hno
  have hh : (s.next i).sys.h = _ := hout.2
  cases hg : (s.sys.adOut i).gnt with
  | false =>
    rw [hg, if_neg Bool.false_ne_true] at hh
    simp only [Watched.AmoPhase, hh, hs]
    exact hnext
  | true =>
    rw [hg, if_pos rfl] at hh
    simp only [Watched.AmoPhase, hh]
    have hidle := idle_of_read h.inv.linked he (by rw [hreq]; rfl) hg
    obtain ⟨harr, hstate, har⟩ := read_of_gnt (i := s.sys.adIn i) hidle
      (by change (fsmMiss s.sys.h i.amo).we = false; rw [hreq]; rfl)
      (by change (fsmMiss s.sys.h i.amo).type = _; rw [hreq]; rfl) hg
    refine ⟨hnext, .inl ⟨hstate, Axi.WriteBurst.adAr (fsmMiss s.sys.h i.amo) 0, ?_, rfl, ?_⟩⟩
    · change (if i.axi.arReady then (s.sys.adOut i).ar.or s.sys.lastAr else s.sys.lastAr) = _
      rw [show i.axi.arReady = true from harr, if_pos rfl, show (s.sys.adOut i).ar = _ from har]
      rfl
    · rw [hreq, (next_amo he ha hout.1).2.2.1, ← (he.amo ha).1]
      rfl

theorem next_amoSaveLoad (h : s.AmoInv) (he : Env s i) (hs : s.sys.h.state = .amoSaveLoad) :
    (s.next i).AmoPhase := by
  obtain ⟨hbefore, hread⟩ : s.Before ∧ s.Reading := by simpa only [Watched.AmoPhase, hs] using h.amo
  have ha : s.sys.h.state.amo = true := by rw [hs]; rfl
  have hno := h.inv.linked.written_none he (by rw [fsmMissValid, hs])
  have hout : (s.sys.out i).sram.we = false ∧ (s.sys.out i).next =
      if (s.sys.adOut i).valid then
        { s.sys.h with state := .amoStore, mshr := { s.sys.h.mshr with wdata := s.sys.ad.s.cacheLine 0 } }
      else s.sys.h := by
    unfold Sys.out cacheManagement
    rw [hs]
    cases (s.sys.adOut i).valid <;> simp [Sram.none]
  have hnext := hbefore.next he ha hout.1 hno
  obtain ⟨-, hbase, htaken, -⟩ := next_amo he ha hout.1
  have hh : (s.next i).sys.h = _ := hout.2
  rcases hread with ⟨hst, ar, har, hlen, haddr⟩ | ⟨hst, hline⟩
  · obtain ⟨hvalid, hnoar, hcases⟩ := next_of_waitRValid (i := s.sys.adIn i) hst fun hr => (he.read hr ar har hlen).1
    rw [show (s.sys.adOut i).valid = false from hvalid, if_neg Bool.false_ne_true] at hh
    simp only [Watched.AmoPhase, hh, hs]
    refine ⟨hnext, ?_⟩
    rcases hcases with ⟨-, hst'⟩ | ⟨hr, hst', hline⟩
    · refine .inl ⟨hst', ar, ?_, hlen, by rw [htaken]; exact haddr⟩
      change (if i.axi.arReady then (s.sys.adOut i).ar.or s.sys.lastAr else s.sys.lastAr) = _
      rw [show (s.sys.adOut i).ar = none from hnoar, Option.none_or, ite_self]
      exact har
    · refine .inr ⟨hst', hline.trans ?_⟩
      rw [show (s.sys.adIn i).rData = i.axi.rData from rfl, (he.read hr ar har hlen).2, haddr, hbefore.mem, hbase, htaken,
        Amo.word]
  · obtain ⟨hvalid, hst'⟩ := next_of_completeRead (i := s.sys.adIn i) hst
    rw [show (s.sys.adOut i).valid = true from hvalid, if_pos rfl] at hh
    simp only [Watched.AmoPhase, hh]
    refine ⟨?_, .inl ⟨hnext, ?_⟩⟩
    · rw [hline, hbase, htaken]
    · rw [show (s.next i).sys.ad.s.state = _ from hst']
      rfl

/-- Without a grant the adapter does not come to wait. -/
theorem not_busy_next (h : Linked s) (he : Env s i) (hb : s.sys.ad.s.state.busy = false)
    (hv : fsmMissValid s.sys.h i.amo = true) (hwe : (fsmMiss s.sys.h i.amo).we = true)
    (hg : (s.sys.adOut i).gnt = false) : (s.next i).sys.ad.s.state.busy = false := by
  obtain ⟨n, hat, -, -⟩ := h.burst.books (h.kept he)
  have hact : (adapter g.adCfg).active s.sys.ad.s (s.sys.adIn i) = some (adWrite (fsmMiss s.sys.h i.amo)) := by
    change (if s.sys.ad.s.state.busy then none else
      (if fsmMissValid s.sys.h i.amo then some (fsmMiss s.sys.h i.amo) else none).bind Axi.WriteBurst.adJob) = _
    rw [hb, hv]
    simp [Axi.WriteBurst.adJob, hwe]
  exact (Axi.WriteBurst.adapter_follows.active _ _ n _ _ hat (h.kept he) hact).2.2 hg

/-- A request that does not store is not made. -/
theorem valid_amoStore (hs : s.sys.h.state = .amoStore) :
    fsmMissValid s.sys.h i.amo = !noStore s.sys.h.reservation i.amo := by rw [fsmMissValid, hs]

theorem we_amoStore (hs : s.sys.h.state = .amoStore) : (fsmMiss s.sys.h i.amo).we = true := by
  rw [fsmMiss, hs]
  rfl

/-- The store, in memory with its grant, and the response to it. -/
theorem next_amoStore (h : s.AmoInv) (he : Env s i) (hs : s.sys.h.state = .amoStore)
    (hack : s.amoAck i = false) : (s.next i).AmoPhase := by
  obtain ⟨hdata, hst⟩ : s.sys.h.mshr.wdata = s.base s.taken.word ∧
      (s.Before ∧ s.sys.ad.s.state.busy = false ∨ s.After) := by simpa only [Watched.AmoPhase, hs] using h.amo
  have ha : s.sys.h.state.amo = true := by rw [hs]; rfl
  obtain ⟨hwe, hackeq, hnext, -⟩ := out_amoStore (i := i) hs
  rw [Watched.amoAck, hackeq] at hack
  obtain ⟨hn, hvalid⟩ := Bool.or_eq_false_iff.1 hack
  have hh : (s.next i).sys.h = s.sys.h := by
    change (s.sys.out i).next = _
    rw [hnext, hack, if_neg Bool.false_ne_true]
  obtain ⟨hstart, hbase, htaken, harr, hlog, hmem⟩ := next_amo he ha hwe
  have hflush : (s.next i).flushLog = s.flushLog := by rw [Watched.flushLog, hstart, Watched.flushLog]
  have hjob : (s.next i).amoJob = s.amoJob := by rw [Watched.amoJob, hh, htaken, Watched.amoJob]
  have hwr := h.inv.linked.written he
  rw [valid_amoStore hs, hn, we_amoStore hs, Bool.not_false, Bool.and_true, Bool.and_true, he.congr.2] at hwr
  simp only [Watched.AmoPhase, hh, hs]
  refine ⟨by rw [hdata, hbase, htaken], ?_⟩
  rcases hst with ⟨hbefore, hb⟩ | hafter
  · cases hg : (s.sys.adOut i).gnt with
    | false =>
      rw [hg, if_neg Bool.false_ne_true] at hwr
      refine .inl ⟨hbefore.next he ha hwe hwr, ?_⟩
      exact not_busy_next h.inv.linked he hb (by rw [valid_amoStore hs, hn]; rfl) (we_amoStore hs) hg
    | true =>
      rw [hg, if_pos rfl] at hwr
      rw [hwr, Option.toList_some] at hlog hmem
      refine .inr ⟨⟨?_, ?_⟩, ?_, ?_, ?_, ?_⟩
      · rw [harr]
        exact hbefore.begun.empty
      · rw [hbase, hflush, hstart]
        exact hbefore.begun.flushed
      · exact state_of_gnt (i := s.sys.adIn i) (fun _ => we_amoStore hs) hg
      · rw [hh, htaken, ← (he.amo ha).1]
        exact hn
      · rw [hmem, hbase, hjob, hbefore.mem]
        rfl
      · rw [hlog, hflush, hjob, hbefore.log]
        rfl
  · -- the response has not come
    have hg : (s.sys.adOut i).gnt = false := gnt_of_busy (by rw [hafter.waits]; rfl)
    obtain ⟨hv, hst'⟩ := next_of_waitBValid (i := s.sys.adIn i) hafter.waits
    rw [← hv, show (Axi.WriteBurst.axiFsm s.sys.ad.s (s.sys.adIn i)).valid = false from hvalid,
      if_neg Bool.false_ne_true] at hst'
    rw [hg, if_neg Bool.false_ne_true] at hwr
    rw [hwr, Option.toList_none] at hlog hmem
    refine .inr ⟨⟨?_, ?_⟩, hst', ?_, ?_, ?_⟩
    · rw [harr]
      exact hafter.begun.empty
    · rw [hbase, hflush, hstart]
      exact hafter.begun.flushed
    · rw [hh, htaken]
      exact hafter.stores
    · rw [hmem, hbase, hjob]
      exact hafter.mem
    · rw [hlog, hflush, hjob, List.append_nil]
      exact hafter.log

/-- With its acknowledgement the handler is idle. -/
theorem state_of_amoAck (hack : s.amoAck i = true) : (s.next i).sys.h.state = .idle := by
  change (s.sys.out i).next.state = _
  rw [Watched.amoAck] at hack
  by_cases hs : s.sys.h.state = .amoStore
  · obtain ⟨-, hackeq, hnext, -⟩ := out_amoStore (i := i) hs
    rw [hackeq] at hack
    rw [hnext, hack, if_pos rfl]
  · rw [(out_not_amoStore hs).1] at hack
    cases hack

/-- The atomic begins on the memory to which the flush has written. -/
theorem amo_next_idle (h : s.AmoInv) (he : Env s i) (hs : s.sys.h.state = .idle) : (s.next i).AmoPhase := by
  obtain ⟨-, -, -, -, hnext | ⟨hstate, -⟩ | ⟨hstate, -, hserve⟩ | ⟨hstate, -⟩⟩ := idle_cases (i := i) hs
  · have hh : (s.next i).sys.h.state = .idle := by rw [show (s.next i).sys.h = s.sys.h from hnext, hs]
    simp only [Watched.AmoPhase, hh]
  · have hh : (s.next i).sys.h.state = _ := hstate
    simp only [Watched.AmoPhase, hh]
  · have hw := walked_of_idle h.inv he hs hserve (by rw [hstate]; decide)
    have hbase : (s.next i).base = (s.next i).sys.mem := if_pos (by simp [Watched.takes, hs, hstate])
    have hh : (s.next i).sys.h.state = _ := hstate
    simp only [Watched.AmoPhase, hh]
    refine ⟨⟨hw.empty, ?_⟩, hbase.symm, hw.log⟩
    rw [hbase, hw.mem, hw.log, Watched.flushLog]
  · have hh : (s.next i).sys.h.state = _ := hstate
    simp only [Watched.AmoPhase, hh]

/-- Only `IDLE` leads to an atomic. -/
theorem amo_of_next {s : Sys g} (hi : s.h.state ≠ .idle) (h : s.h.state.amo = false) :
    (s.out i).next.state.amo = false := by
  unfold Sys.out cacheManagement
  cases hs : s.h.state <;> rw [hs] at hi h
  case idle => exact absurd rfl hi
  case amoLoad | amoSaveLoad | amoStore => cases h
  all_goals
    dsimp only
    repeat' split
    all_goals simp_all [State.amo]

theorem amoPhase_of_not_amo (h : s.sys.h.state.amo = false) : s.AmoPhase := by
  unfold Watched.AmoPhase
  cases hs : s.sys.h.state <;> rw [hs] at h
  case amoLoad | amoSaveLoad | amoStore => cases h
  all_goals trivial

theorem Watched.AmoInv.next (h : s.AmoInv) (he : Env s i) : (s.next i).AmoInv where
  inv := h.inv.next he
  reserved := reserved_next h.reserved
  amo := by
    cases hack : s.amoAck i with
    | true => exact amoPhase_of_not_amo (by rw [state_of_amoAck hack]; rfl)
    | false =>
      by_cases hi : s.sys.h.state = .idle
      · exact amo_next_idle h he hi
      cases ha : s.sys.h.state.amo with
      | false => exact amoPhase_of_not_amo (amo_of_next hi ha)
      | true =>
        cases hs : s.sys.h.state <;> rw [hs] at ha
        case amoLoad => exact next_amoLoad h he hs
        case amoSaveLoad => exact next_amoSaveLoad h he hs
        case amoStore => exact next_amoStore h he hs hack
        all_goals cases ha

theorem amoInv_init (h : (watched g).init s) : s.AmoInv := by
  refine ⟨inv_init h, ?_, ?_⟩
  · exact amoPhase_of_not_amo (by rw [h.1]; rfl)
  · intro w
    rw [h.1, h.2.2.2.2]
    exact ⟨fun hc => absurd hc.1 Bool.false_ne_true, fun hc => absurd hc (not_reserves_nil w)⟩

end Step

/-! ### The result -/

/-- The atomic `a` after `acked` on the memory `base`: the bytes it finds are `old`, it leaves `m`
and returns `result`. -/
structure Performed (base : Mem) (acked : List Amo) (a : Amo) (old : BitVec (8 * bytes a.size)) (m : Mem)
    (result : Word) : Prop where
  found : ∀ k < bytes a.size, byte k old = base.byte (a.operandA + BitVec.ofNat 64 k)
  returned : a.op ≠ .sc → result = old.signExtend 64
  success : a.op = .sc → Reserves acked a.word → result = 0
  failure : a.op = .sc → ¬Reserves acked a.word → result = 1
  stored : Stores acked a → ∀ b, m.byte b = if (b - a.operandA).toNat < bytes a.size
    then byte (b - a.operandA).toNat (amoValue a.op old (a.operandB.setWidth (8 * bytes a.size))) else base.byte b
  kept : ¬Stores acked a → m = base

/-- A cycle of an acknowledgement: the cache was written back and is empty, what memory then was
the atomic is performed on, and if it stores it is one more burst. -/
structure AmoDone (s : Watched g) (i : In g) : Prop where
  back : ∃ log own, (s.next i).log = log ++ own ∧ WrittenBack s.start.1 s.start.2 log s.base ∧
    (Stores s.acked i.amo → own.length = 1) ∧ (¬Stores s.acked i.amo → own = [])
  empty : (s.next i).sys.arr.Empty
  performed : ∃ old, Performed s.base s.acked i.amo old (s.next i).sys.mem (s.sys.out i).amoResult

/-- What is read, as the ALU gets it. -/
theorem loaded_eq {a : Amo} (hwf : a.WellFormed) (w : Word) :
    (amoOperands a w).1 = ((dataAlign a.offset w).setWidth (8 * bytes a.size)).signExtend 64 := by
  obtain ⟨op, size, opA, opB⟩ := a
  rcases hwf.size with hs | hs
  · obtain rfl : size = 2 := hs
    rfl
  · obtain rfl : size = 3 := hs
    change dataAlign _ w = ((dataAlign _ w).setWidth 64).signExtend 64
    rw [BitVec.setWidth_eq, BitVec.signExtend_eq]
    rfl

/-- The bytes of the result are those of the atomic at its width. -/
theorem byte_amoAlu {a : Amo} (hwf : a.WellFormed) (hl : a.op ≠ .lr) (w : Word) {k : ℕ} (hk : k < bytes a.size) :
    byte k (amoAlu a.op (amoOperands a w).1 (amoOperands a w).2) =
      byte k (amoValue a.op ((dataAlign a.offset w).setWidth (8 * bytes a.size))
        (a.operandB.setWidth (8 * bytes a.size))) := by
  rw [amoAlu_eq hwf.op hl]
  obtain ⟨op, size, opA, opB⟩ := a
  rcases hwf.size with hs | hs
  · obtain rfl : size = 2 := hs
    have hk' : k < 4 := hk
    rw [← Lib.byte_setWidth hk']
    exact congrArg (byte k) (setWidth_amoValue _ _)
  · obtain rfl : size = 3 := hs
    change byte k (amoValue op (dataAlign _ w) opB) =
      byte k (amoValue op ((dataAlign _ w).setWidth 64) (opB.setWidth 64))
    rw [BitVec.setWidth_eq, BitVec.setWidth_eq]
    rfl

section Ack

variable {s : Watched g} {i : In g}

theorem Watched.AmoInv.done (h : s.AmoInv) (he : Env s i) (hack : s.amoAck i = true) : AmoDone s i := by
  have hs : s.sys.h.state = .amoStore := by
    by_contra hs
    rw [Watched.amoAck, (out_not_amoStore hs).1] at hack
    cases hack
  have ha : s.sys.h.state.amo = true := by rw [hs]; rfl
  obtain ⟨htaken, hwf⟩ := he.amo ha
  obtain ⟨hdata, hst⟩ : s.sys.h.mshr.wdata = s.base s.taken.word ∧
      (s.Before ∧ s.sys.ad.s.state.busy = false ∨ s.After) := by simpa only [Watched.AmoPhase, hs] using h.amo
  obtain ⟨hwe, hackeq, -, hresult⟩ := out_amoStore (i := i) hs
  rw [Watched.amoAck, hackeq] at hack
  obtain ⟨-, -, -, harr, hlog, hmem⟩ := next_amo he ha hwe
  have hstores := h.reserved.noStore i.amo
  have hback : WrittenBack s.start.1 s.start.2 s.flushLog s.base := by
    have hb : s.Begun := by
      rcases hst with ⟨hb, -⟩ | hb
      · exact hb.begun
      · exact hb.begun
    exact writtenBack rfl hb.flushed
  have hres := hresult hack
  rw [hdata, ← htaken, loaded_eq hwf] at hres
  have hold (k) (hk : k < bytes i.amo.size) := (Lib.byte_setWidth hk _).trans (byte_load hwf s.base hk)
  rcases hst with ⟨hbefore, hb⟩ | hafter
  · -- it does not store
    have hvalid : (s.sys.adOut i).valid = false := valid_of_not_busy hb
    have hn : noStore s.sys.h.reservation i.amo = true := by simpa [hvalid] using hack
    have hnot : ¬Stores s.acked i.amo := fun hc => by rw [hstores.2 hc] at hn; cases hn
    have hno := h.inv.linked.written_none he (by rw [valid_amoStore hs, hn]; rfl)
    rw [hno, Option.toList_none] at hlog hmem
    rw [hn, hvalid] at hres
    refine ⟨⟨s.flushLog, [], ?_, hback, fun hc => absurd hc hnot, fun _ => rfl⟩, ?_, _, hold, ?_, ?_, ?_, ?_, ?_⟩
    · rw [hlog, hbefore.log]
    · rw [harr]
      exact hbefore.begun.empty
    · exact fun hc => by rw [hres, if_neg hc]
    · exact fun hc hr => absurd ⟨fun hl => (nomatch hc.symm.trans hl), fun _ => hr⟩ hnot
    · exact fun hc _ => by rw [hres, if_pos hc]; rfl
    · exact fun hc => absurd hc hnot
    · exact fun _ => by rw [hmem]; exact hbefore.mem
  · have hn : noStore s.sys.h.reservation i.amo = false := by rw [htaken]; exact hafter.stores
    have hst := hstores.1 hn
    have hvalid : (s.sys.adOut i).valid = true := by simpa [hn] using hack
    have hg : (s.sys.adOut i).gnt = false := gnt_of_busy (by rw [hafter.waits]; rfl)
    have hno : s.sys.written i = none := by
      rw [h.inv.linked.written he, hg]
      rfl
    rw [hno, Option.toList_none] at hlog hmem
    rw [hn, hvalid] at hres
    refine ⟨⟨s.flushLog, [s.amoJob], ?_, hback, fun _ => rfl, fun hc => absurd hst hc⟩, ?_, _, hold, ?_, ?_, ?_, ?_, ?_⟩
    · rw [hlog, hafter.log, List.append_nil]
    · rw [harr]
      exact hafter.begun.empty
    · exact fun hc => by rw [hres, if_neg hc]
    · exact fun hc _ => by rw [hres, if_pos hc]; rfl
    · exact fun hc hr => absurd (hst.2 hc) hr
    · intro _ b
      have hjob : s.amoJob = adWrite (singleReq g i.amo true
          (dataAlign i.amo.offset (amoAlu i.amo.op (amoOperands i.amo (s.base i.amo.word)).1
            (amoOperands i.amo (s.base i.amo.word)).2)) (beGen i.amo.offset i.amo.size)) := by
        rw [Watched.amoJob, ← htaken, fsmMiss, hs, hdata, ← htaken]
        rfl
      rw [hmem, List.foldl_nil, hafter.mem, hjob, byte_store hwf.fits]
      by_cases hk : (b - i.amo.operandA).toNat < bytes i.amo.size
      · rw [if_pos hk, if_pos hk, byte_amoAlu hwf hst.1 _ hk]
      · rw [if_neg hk, if_neg hk]
    · exact fun hc => absurd hst hc

end Ack

/-- **Atomics.** In every run each atomic is acknowledged when it has been performed on the memory
to which the cache was written back, whatever the atomics before, the arrays, the memory and the
timing of the AXI port. -/
theorem atomics_correct (g : Geom) (s₀ : Watched g) (is : List (In g)) (h0 : (watched g).init s₀)
    (he : (watched g).Steps Env s₀ is) :
    (watched g).Steps (fun s i => s.amoAck i = true → AmoDone s i) s₀ is :=
  Machine.steps_of_inv (P := Watched.AmoInv) (fun _ _ h he => h.next he) (fun _ _ h he => h.done he) is s₀
    (amoInv_init h0) he

/-- An atomic is asked for, and what memory answers. -/
def amoIn (a : Amo) (rData : Option Word) : In smallGeom :=
  { smallIn false none with
    amoReq := true, amo := a, axi := ⟨true, true, true, true, 0, rData.isSome, 0, rData.getD 0, true⟩ }

/-- `amoadd.w` on the upper half of a word, `lr.d` and `sc.d`. -/
def amoRun : List (In smallGeom) :=
  let addw : Amo := ⟨.add, 2, 12, 5⟩
  let lrd : Amo := ⟨.lr, 3, 8, 0⟩
  let scd : Amo := ⟨.sc, 3, 8, 7⟩
  let word (a : Amo) (w : Word) := List.replicate 7 (amoIn a none) ++ [amoIn a (some w)]
  List.replicate 2 (smallIn false none) ++ word addw 0x300000000 ++ List.replicate 3 (amoIn addw none) ++
    word lrd 0x800000000 ++ List.replicate 2 (amoIn lrd none) ++ word scd 0x800000000 ++ List.replicate 3 (amoIn scd none)

def amoReset : Watched smallGeom :=
  { smallReset with sys := { smallReset.sys with mem := fun a => if a = 1 then 0x300000000 else 0 } }

/-- A run without other ports, and what it asks of the atomics and of memory. -/
theorem env_of_atomics {s : Watched g} {i : In g}
    (h : i.port.isNone = true ∧
      (s.sys.h.state.amo = true → i.amo = s.taken ∧ i.amo.op ≠ .none ∧ (i.amo.size = 2 ∨ i.amo.size = 3) ∧
        i.amo.operandA.toNat % 2 ^ i.amo.size.toNat = 0) ∧
      (i.axi.rValid = true →
        s.sys.lastAr.all (fun ar => i.axi.rLast && i.axi.rData == s.sys.mem (ar.addr.extractLsb' 3 61)) = true)) :
    Env s i where
  port _ := Option.isNone_iff_eq_none.1 h.1
  kept _ _ p hp := by
    rw [Option.isNone_iff_eq_none.1 h.1] at hp
    cases hp
  amo ha := by
    obtain ⟨htaken, hop, hsize, halign⟩ := h.2.1 ha
    exact ⟨htaken, hop, hsize, halign⟩
  read hr ar har _ := by
    have hall := h.2.2 hr
    rw [show s.sys.lastAr = some ar from har, Option.all_some, Bool.and_eq_true, beq_iff_eq] at hall
    exact hall

theorem atomics_correct_small :
    (watched smallGeom).Steps (fun s i => s.amoAck i = true → AmoDone s i) amoReset amoRun ∧
      (((watched smallGeom).run amoReset amoRun).acked.map fun a => a.op) = [.add, .lr, .sc] := by
  refine ⟨atomics_correct smallGeom amoReset amoRun ⟨rfl, rfl, rfl, ⟨rfl, rfl, rfl, rfl, rfl, rfl⟩, rfl⟩ ?_, ?_⟩
  · exact Machine.steps_of_inv (P := fun _ => True) (fun _ _ _ _ => trivial) (fun _ _ _ h => env_of_atomics h) amoRun _
      trivial (by decide +kernel)
  · decide +kernel

end Nbdcache
end Ariane

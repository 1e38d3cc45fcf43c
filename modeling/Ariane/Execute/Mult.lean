/-
# The multiplier and the divider

`src/mult.sv` puts the multiplier before the serial divider, which waits while there is a
product. Operations on words are divisions of the words' extensions (`prescribed_eq`), and
the word of the answer is sign-extended. The flag for that (`word_op_q`) is set for every
division that is presented, accepted or not: whoever presents a division must see to it that
the divider is idle.
-/
import Ariane.Execute.Flu
import Ariane.Execute.Serdiv
import Ariane.Execute.Single

namespace Ariane
namespace Mult

open IssueStage (FuData)
open Flu (isMul sext32)
open Isa (word)
open Lib (Machine)

variable {w : ℕ}

/-! ### The module -/

def isDiv : FuOp → Bool
  | .div | .divu | .divw | .divuw | .rem | .remu | .remw | .remuw => true
  | _ => false

/-- The operators on words, those with signs (`div_signed`) and those that ask for the
remainder (`rem`). -/
def isWord : FuOp → Bool
  | .divw | .divuw | .remw | .remuw => true
  | _ => false

def divSigned : FuOp → Bool
  | .div | .divw | .rem | .remw => true
  | _ => false

def isRem : FuOp → Bool
  | .rem | .remu | .remw | .remuw => true
  | _ => false

structure Regs (w : ℕ) where
  mul : Flu.Regs w
  div : Serdiv.Regs 64 w
  wordOp : Bool

def reset : Regs w := ⟨Flu.reset, Serdiv.reset, false⟩

structure In (w : ℕ) where
  flush : Bool
  fuData : FuData w
  multValid : Bool

section Comb

variable (s : Regs w) (i : In w)

def mulValidOp : Bool := !i.flush && i.multValid && isMul i.fuData.operator
def divValidOp : Bool := !i.flush && i.multValid && isDiv i.fuData.operator

/-- `operand_a` and `operand_b`, from the operand. -/
def operand (a : BitVec 64) : BitVec 64 :=
  if i.multValid && isDiv i.fuData.operator then
    if isWord i.fuData.operator then
      if divSigned i.fuData.operator then sext32 (a.extractLsb' 0 32) else (a.extractLsb' 0 32).setWidth 64
    else a
  else 0

def wordOpD : Bool :=
  if i.multValid && isDiv i.fuData.operator then isWord i.fuData.operator else s.wordOp

/-- What the divider is asked. -/
def request : Serdiv.Request 64 w where
  id := i.fuData.transId
  opA := operand i i.fuData.operandA
  opB := operand i i.fuData.operandB
  opcode := BitVec.ofBool (isRem i.fuData.operator) ++ BitVec.ofBool (divSigned i.fuData.operator)

/-- The inputs of the divider. -/
def divIn : Serdiv.In 64 w :=
  { request i with inVld := divValidOp i, flush := i.flush, outRdy := !s.mul.multValid }

def next : Regs w where
  mul :=
    ⟨mulValidOp i && isMul i.fuData.operator, i.fuData.transId, i.fuData.operator,
      Flu.multResultD i.fuData.operator i.fuData.operandA i.fuData.operandB⟩
  div := Serdiv.next s.div (divIn s i)
  wordOp := wordOpD s i

def divValid : Bool := Serdiv.outVldO s.div (divIn s i)

/-- The result of a division, of a word or not. -/
def divMux (wordOp : Bool) (r : BitVec 64) : BitVec 64 := if wordOp then sext32 (r.extractLsb' 0 32) else r

def divResult : BitVec 64 := divMux s.wordOp (Serdiv.resO s.div)

/-- `mult_valid_o`, `mult_trans_id_o`, `result_o` and `mult_ready_o`. -/
def multValidO : Bool := divValid s i || s.mul.multValid
def multTransIdO : BitVec w := if s.mul.multValid then s.mul.transId else s.div.id
def resultO : BitVec 64 := if s.mul.multValid then Flu.mulResult s.mul else divResult s
def multReadyO : Bool := Serdiv.inRdyO s.div (divIn s i)

end Comb

/-! ### Divisions of words -/

section Words

variable {n m : ℕ} (h : n ≤ m)

include h

theorem setWidth_ofInt (z : ℤ) : (BitVec.ofInt m z).setWidth n = BitVec.ofInt n z := by
  have hdvd : ((2 ^ n : ℕ) : ℤ) ∣ ((2 ^ m : ℕ) : ℤ) := Int.natCast_dvd_natCast.2 (Nat.pow_dvd_pow 2 h)
  have hpos : (0 : ℤ) ≤ z % ((2 ^ m : ℕ) : ℤ) :=
    Int.emod_nonneg z (Int.natCast_ne_zero.2 (Nat.two_pow_pos m).ne')
  apply BitVec.eq_of_toNat_eq
  rw [BitVec.toNat_setWidth, BitVec.toNat_ofInt, BitVec.toNat_ofInt, ← Int.emod_emod_of_dvd z hdvd]
  obtain ⟨r, hr⟩ := Int.eq_ofNat_of_zero_le hpos
  rw [hr, Int.toNat_natCast, ← Int.natCast_mod, Int.toNat_natCast]

theorem setWidth_ofNat (r : ℕ) : (BitVec.ofNat m r).setWidth n = BitVec.ofNat n r := by
  apply BitVec.eq_of_toNat_eq
  rw [BitVec.toNat_setWidth, BitVec.toNat_ofNat, BitVec.toNat_ofNat,
    Nat.mod_mod_of_dvd r (Nat.pow_dvd_pow 2 h)]

theorem setWidth_allOnes : (BitVec.allOnes m).setWidth n = BitVec.allOnes n := by
  apply BitVec.eq_of_getLsbD_eq
  intro j hj
  have hjm : j < m := by omega
  simp [hj, hjm]

theorem toNat_setWidth_of_le (a : BitVec n) : (a.setWidth m).toNat = a.toNat := by
  rw [BitVec.toNat_setWidth, Nat.mod_eq_of_lt (lt_of_lt_of_le a.isLt (Nat.pow_le_pow_right (by omega) h))]

/-- A signed division of extended words is one of the words. -/
theorem quotient_signExtend (a b : BitVec n) :
    (Isa.quotient true (a.signExtend m) (b.signExtend m)).setWidth n = Isa.quotient true a b := by
  have hb : b.signExtend m = 0 ↔ b = 0 := by
    rw [← BitVec.toInt_inj, ← BitVec.toInt_inj, BitVec.toInt_signExtend_of_le h]
    simp
  unfold Isa.quotient
  by_cases hz : b = 0
  · rw [if_pos (hb.2 hz), if_pos hz, setWidth_allOnes h]
  · rw [if_neg (mt hb.1 hz), if_neg hz, if_pos rfl, if_pos rfl, setWidth_ofInt h,
      BitVec.toInt_signExtend_of_le h, BitVec.toInt_signExtend_of_le h]

theorem remainder_signExtend (a b : BitVec n) :
    (Isa.remainder true (a.signExtend m) (b.signExtend m)).setWidth n = Isa.remainder true a b := by
  have hb : b.signExtend m = 0 ↔ b = 0 := by
    rw [← BitVec.toInt_inj, ← BitVec.toInt_inj, BitVec.toInt_signExtend_of_le h]
    simp
  unfold Isa.remainder
  by_cases hz : b = 0
  · rw [if_pos (hb.2 hz), if_pos hz]
    apply BitVec.eq_of_getLsbD_eq
    intro j hj
    have hjm : j < m := by omega
    rw [BitVec.getLsbD_setWidth, BitVec.getLsbD_signExtend]
    simp only [hj, hjm, decide_true, Bool.true_and, if_true]
  · rw [if_neg (mt hb.1 hz), if_neg hz, if_pos rfl, if_pos rfl, setWidth_ofInt h,
      BitVec.toInt_signExtend_of_le h, BitVec.toInt_signExtend_of_le h]

/-- An unsigned one too. -/
theorem quotient_setWidth (a b : BitVec n) :
    (Isa.quotient false (a.setWidth m) (b.setWidth m)).setWidth n = Isa.quotient false a b := by
  have hb : b.setWidth m = 0 ↔ b = 0 := by
    rw [← BitVec.toNat_inj, ← BitVec.toNat_inj, toNat_setWidth_of_le h]
    simp
  unfold Isa.quotient
  by_cases hz : b = 0
  · rw [if_pos (hb.2 hz), if_pos hz, setWidth_allOnes h]
  · rw [if_neg (mt hb.1 hz), if_neg hz, if_neg Bool.false_ne_true, if_neg Bool.false_ne_true,
      setWidth_ofNat h, toNat_setWidth_of_le h, toNat_setWidth_of_le h]

theorem remainder_setWidth (a b : BitVec n) :
    (Isa.remainder false (a.setWidth m) (b.setWidth m)).setWidth n = Isa.remainder false a b := by
  have hb : b.setWidth m = 0 ↔ b = 0 := by
    rw [← BitVec.toNat_inj, ← BitVec.toNat_inj, toNat_setWidth_of_le h]
    simp
  unfold Isa.remainder
  by_cases hz : b = 0
  · rw [if_pos (hb.2 hz), if_pos hz]
    simp [h]
  · rw [if_neg (mt hb.1 hz), if_neg hz, if_neg Bool.false_ne_true, if_neg Bool.false_ne_true,
      setWidth_ofNat h, toNat_setWidth_of_le h, toNat_setWidth_of_le h]

end Words

/-! ### Answers -/

/-- What the instruction set prescribes for an operator of the divider. -/
def prescribed (op : FuOp) (a b : BitVec 64) : Option (BitVec 64) :=
  match op with
  | .div => Isa.RegOp.div.divide a b
  | .divu => Isa.RegOp.divu.divide a b
  | .rem => Isa.RegOp.rem.divide a b
  | .remu => Isa.RegOp.remu.divide a b
  | .divw => (Isa.RegOpW.divw.divide (word a) (word b)).map fun r => r.signExtend 64
  | .divuw => (Isa.RegOpW.divuw.divide (word a) (word b)).map fun r => r.signExtend 64
  | .remw => (Isa.RegOpW.remw.divide (word a) (word b)).map fun r => r.signExtend 64
  | .remuw => (Isa.RegOpW.remuw.divide (word a) (word b)).map fun r => r.signExtend 64
  | _ => none

/-- The request of an operation that is started. -/
def requestOf (d : FuData w) : Serdiv.Request 64 w := request ⟨false, d, true⟩

theorem low_eq_word (v : BitVec 64) : v.extractLsb' 0 32 = word v :=
  (BitVec.setWidth_eq_extractLsb' (by decide)).symm

/-- An operand, extended. -/
def extend (op : FuOp) (a : BitVec 64) : BitVec 64 :=
  if isWord op then if divSigned op then sext32 (word a) else (word a).setWidth 64 else a

theorem requestOf_eq {d : FuData w} (h : isDiv d.operator = true) :
    (requestOf d).opA = extend d.operator d.operandA ∧ (requestOf d).opB = extend d.operator d.operandB ∧
      (requestOf d).isSigned = divSigned d.operator ∧ (requestOf d).isRem = isRem d.operator := by
  have hopcode (x y : Bool) : (BitVec.ofBool x ++ BitVec.ofBool y : BitVec 2).getLsbD 0 = y ∧
      (BitVec.ofBool x ++ BitVec.ofBool y : BitVec 2).getLsbD 1 = x := by
    cases x <;> cases y <;> decide
  have hop (a : BitVec 64) : operand ⟨false, d, true⟩ a = extend d.operator a := by
    rw [operand, Bool.true_and, if_pos h, low_eq_word]
    rfl
  exact ⟨hop _, hop _, (hopcode _ _).1, (hopcode _ _).2⟩

theorem prescribed_eq {d : FuData w} (h : isDiv d.operator = true) :
    prescribed d.operator d.operandA d.operandB =
      some (divMux (isWord d.operator) (requestOf d).result) := by
  obtain ⟨hA, hB, hsig, hrem⟩ := requestOf_eq h
  have hle : 32 ≤ 64 := by decide
  rw [Serdiv.Request.result, hA, hB, hsig, hrem, divMux, low_eq_word]
  generalize d.operator = op at h
  unfold prescribed
  cases op with
  | div | divu | rem | remu => rfl
  | divw => exact congrArg (fun r => some (r.signExtend 64)) (quotient_signExtend hle _ _).symm
  | divuw => exact congrArg (fun r => some (r.signExtend 64)) (quotient_setWidth hle _ _).symm
  | remw => exact congrArg (fun r => some (r.signExtend 64)) (remainder_signExtend hle _ _).symm
  | remuw => exact congrArg (fun r => some (r.signExtend 64)) (remainder_setWidth hle _ _).symm
  | _ => cases h

/-- The word of the answer is right exactly if the answer is. -/
theorem divMux_answer_iff {d : FuData w} (h : isDiv d.operator = true) :
    some (divMux (isWord d.operator) (requestOf d).answer) = prescribed d.operator d.operandA d.operandB ↔
      ¬(requestOf d).Short := by
  rw [prescribed_eq h, Option.some_inj]
  constructor
  · intro heq hshort
    obtain ⟨hans, hres, -⟩ := hshort.values
    rw [hans, hres] at heq
    revert heq
    cases isWord d.operator <;> cases (requestOf d).isRem <;> decide
  · intro hgood
    rw [((requestOf d).answer_iff).2 hgood]

/-! ### The operation under way -/

/-- The units with the division that is accepted and not answered, and its cycles. -/
structure Watched (w : ℕ) where
  regs : Regs w
  pending : Option (FuData w)
  age : ℕ

def start : Watched w := ⟨reset, none, 0⟩

def accepts (s : Regs w) (i : In w) : Bool := Serdiv.accepts s.div (divIn s i)
def taken (s : Regs w) (i : In w) : Bool := Serdiv.taken s.div (divIn s i)

def watched (w : ℕ) : Machine (Watched w) (In w) where
  init u := u = start
  next u i :=
    { regs := next u.regs i
      pending :=
        if i.flush then none
        else if accepts u.regs i then some i.fuData
        else if taken u.regs i then none
        else u.pending
      age := if accepts u.regs i then 0 else u.age + 1 }

/-- A division is presented to an idle divider only. -/
def Handshake (u : Watched w) (i : In w) : Prop :=
  i.multValid = true → isDiv i.fuData.operator = true → u.regs.div.state = .idle

instance (u : Watched w) (i : In w) : Decidable (Handshake u i) :=
  inferInstanceAs (Decidable (_ = true → _ = true → _ = _))

/-- What is asked of the divisions in a cycle. -/
structure Answers (u : Watched w) (i : In w) : Prop where
  right : divValid u.regs i = true → ∃ d, u.pending = some d ∧ u.regs.div.id = d.transId ∧
    some (divResult u.regs) = prescribed d.operator d.operandA d.operandB
  due : u.pending.isSome = true → i.flush = false → 64 < u.age → divValid u.regs i = true
  held : divValid u.regs i = true → u.regs.mul.multValid = true →
    ∀ j : In w, j.flush = false → divValid (next u.regs i) j = true
  free : u.pending = none ↔ u.regs.div.state = .idle

def Law (u : Watched w) : Prop := ∀ i, Answers u i

/-- The divider's view. -/
def Watched.divider (u : Watched w) : Serdiv.Watched 64 w := ⟨u.regs.div, u.pending.map requestOf, u.age⟩

/-- The divider is in order, and the flag for words is that of the operation under way. -/
structure Inv (u : Watched w) : Prop where
  divider : Serdiv.Inv u.divider
  word : ∀ d, u.pending = some d → isDiv d.operator = true ∧ u.regs.wordOp = isWord d.operator

theorem accepts_imp {s : Regs w} {i : In w} (h : accepts s i = true) :
    i.flush = false ∧ i.multValid = true ∧ isDiv i.fuData.operator = true := by
  simp only [accepts, Serdiv.accepts, divIn, divValidOp, Bool.and_eq_true, Bool.not_eq_true'] at h
  exact ⟨h.2, h.1.2.1.2, h.1.2.2⟩

theorem divider_next (u : Watched w) (i : In w) :
    ((watched w).next u i).divider = (Serdiv.watched 64 w).next u.divider (divIn u.regs i) := by
  obtain ⟨s, p, age⟩ := u
  have hreq : accepts s i = true → requestOf i.fuData = (divIn s i).toRequest := by
    intro h
    obtain ⟨-, hv, -⟩ := accepts_imp h
    simp only [requestOf, divIn, request, operand, hv]
  have hp : (if i.flush then none else if accepts s i then some i.fuData else if taken s i then none else p).map
      requestOf = if i.flush then none else if accepts s i then some (divIn s i).toRequest
        else if taken s i then none else p.map requestOf := by
    split_ifs with hf hacc
    · rfl
    · rw [Option.map_some, hreq hacc]
    · rfl
    · rfl
  simp only [watched, Watched.divider, Serdiv.watched, hp]
  rfl

theorem inv_next {u : Watched w} (h : Inv u) (i : In w) (hok : Handshake u i) :
    Inv ((watched w).next u i) := by
  refine ⟨?_, ?_⟩
  · rw [divider_next]
    exact Serdiv.inv_next h.divider _
  · intro d hd
    simp only [watched] at hd ⊢
    split_ifs at hd with hf hacc htak
    · obtain rfl : i.fuData = d := Option.some.inj hd
      obtain ⟨-, hv, hdiv⟩ := accepts_imp hacc
      refine ⟨hdiv, ?_⟩
      simp only [next, wordOpD, hv, hdiv, Bool.and_self, if_true]
    · obtain ⟨hdiv, hword⟩ := h.word d hd
      refine ⟨hdiv, ?_⟩
      -- nothing is presented while there is a division
      have hno : (i.multValid && isDiv i.fuData.operator) = false := by
        rw [Bool.eq_false_iff]
        intro hpres
        obtain ⟨hv, hdiv'⟩ := Bool.and_eq_true_iff.1 hpres
        have hnone := (h.divider.free).2 (hok hv hdiv')
        rw [Watched.divider, hd] at hnone
        cases hnone
      simp only [next, wordOpD, hno, Bool.false_eq_true, if_false]
      exact hword

theorem Inv.presents {u : Watched w} (h : Inv u) {i : In w} (hv : divValid u.regs i = true) :
    ∃ d, u.pending = some d ∧ isDiv d.operator = true ∧ u.regs.div.id = d.transId ∧
      divResult u.regs = divMux (isWord d.operator) (requestOf d).answer := by
  obtain ⟨r, hp, hid, hans⟩ := h.divider.presents (i := divIn u.regs i) hv
  obtain ⟨d, hd, rfl⟩ := Option.map_eq_some_iff.1 hp
  obtain ⟨hdiv, hword⟩ := h.word d hd
  refine ⟨d, hd, hdiv, hid, ?_⟩
  rw [divResult, hword]
  exact congrArg (divMux _) hans

theorem law_iff {u : Watched w} (h : Inv u) : Law u ↔ ∀ d, u.pending = some d → ¬(requestOf d).Short := by
  constructor
  · intro hlaw d hd hshort
    let i : In w := ⟨false, d, false⟩
    have hp : u.divider.pending = some (requestOf d) := by rw [Watched.divider, hd, Option.map_some]
    have hv : divValid u.regs i = true :=
      (Serdiv.outVldO_eq _ _).2 ⟨h.divider.waits_of_short hp hshort, rfl⟩
    obtain ⟨d', hd', -, hright⟩ := (hlaw i).right hv
    obtain ⟨d'', hd'', hdiv, -, hans⟩ := h.presents hv
    obtain rfl : d = d' := Option.some.inj (hd.symm.trans hd')
    obtain rfl : d = d'' := Option.some.inj (hd.symm.trans hd'')
    rw [hans] at hright
    exact (divMux_answer_iff hdiv).1 hright hshort
  · intro hgood i
    refine ⟨?_, ?_, ?_, ?_⟩
    · intro hv
      obtain ⟨d, hd, hdiv, hid, hans⟩ := h.presents hv
      refine ⟨d, hd, hid, ?_⟩
      rw [hans]
      exact (divMux_answer_iff hdiv).2 (hgood d hd)
    · intro hp hi hage
      have hp' : u.divider.pending.isSome = true := by rwa [Watched.divider, Option.isSome_map]
      exact h.divider.due hp' hi hage
    · intro hv hmul j hj
      exact Serdiv.outVldO_held hv (by rw [divIn, hmul]; rfl) (divIn (next u.regs i) j) hj
    · exact Option.map_eq_none_iff.symm.trans h.divider.free

theorem pending_start (d : FuData w) : (start : Watched w).pending ≠ some d := (Option.some_ne_none d).symm

theorem inv_start : Inv (start : Watched w) := ⟨Serdiv.inv_start, fun d h => absurd h (pending_start d)⟩

theorem law_next_iff {u : Watched w} (h : Inv u) (i : In w) (hok : Handshake u i) (hlaw : Law u) :
    Law ((watched w).next u i) ↔ (accepts u.regs i = true → ¬(request i).Short) := by
  rw [law_iff (inv_next h i hok)]
  have hold := (law_iff h).1 hlaw
  cases hacc : accepts u.regs i with
  | true =>
    obtain ⟨hi, hv, -⟩ := accepts_imp hacc
    have hreq : requestOf i.fuData = request i := by
      simp only [requestOf, request, operand, hv]
    simp only [watched, hacc, hi, Bool.false_eq_true, if_false, if_true, forall_const]
    rw [← hreq]
    exact ⟨fun h' => h' _ rfl, fun h' d hd => Option.some.inj hd ▸ h'⟩
  | false =>
    refine iff_of_true ?_ nofun
    intro d hd
    simp only [watched, hacc, Bool.false_eq_true, if_false] at hd
    split_ifs at hd
    exact hold d hd

/-- In any run, all that is asked of the divider holds exactly if it accepts no division of −1
by 1: at any width by itself, and between the units if divisions come when it is idle. -/
theorem division_run (w k : ℕ) :
    (∀ is : List (Serdiv.In w k),
      (Serdiv.watched w k).Always Serdiv.Law Serdiv.start is ↔
        (Serdiv.watched w k).Steps (fun u i => Serdiv.accepts u.regs i = true → ¬i.Short) Serdiv.start is) ∧
    ∀ is : List (In k), (watched k).Steps Handshake start is →
      ((watched k).Always Law start is ↔
        (watched k).Steps (fun u i => accepts u.regs i = true → ¬(request i).Short) start is) := by
  refine ⟨fun is => Serdiv.law_run is, fun is hok => ?_⟩
  exact Machine.always_iff_steps_of (fun _ i h hi => inv_next h i hi)
    (fun _ i h hi hlaw => law_next_iff h i hi hlaw) is start inv_start
    ((law_iff inv_start).2 fun d h => absurd h (pending_start d)) hok

/-- −1 divided by 1, with the id 5. -/
def negOneByOne : Serdiv.In 64 3 := { id := 5, opA := -1, opB := 1, opcode := 1, inVld := true, flush := false, outRdy := true }

/-- The quotient presented is 0. -/
theorem neg_one_by_one : ¬(Serdiv.watched 64 3).Always Serdiv.Law Serdiv.start [negOneByOne] := by
  intro h
  have hv : Serdiv.outVldO ((Serdiv.watched 64 3).run Serdiv.start [negOneByOne]).regs
      { negOneByOne with inVld := false } = true := by
    decide +kernel
  have hp : ((Serdiv.watched 64 3).run Serdiv.start [negOneByOne]).pending = some negOneByOne.toRequest := by
    decide +kernel
  have hres : Serdiv.resO ((Serdiv.watched 64 3).run Serdiv.start [negOneByOne]).regs ≠
      negOneByOne.toRequest.result := by
    decide +kernel
  obtain ⟨r, hr, -, hright⟩ := (h.last _).right hv
  rw [hp, Option.some_inj] at hr
  rw [← hr] at hright
  exact hres hright

/-- A division of the word −7 by 2, a product behind it. -/
def divisionOfWord : List (In 3) :=
  [⟨false, ⟨.mult, .divw, 0x1_ffff_fff9, 2, 0, 4⟩, true⟩, ⟨false, ⟨.mult, .mul, 3, 5, 0, 6⟩, true⟩,
    ⟨false, ⟨.none, .add, 0, 0, 0, 0⟩, false⟩]

theorem division_run_word : (watched 3).Always Law start divisionOfWord := by
  have hok : (watched 3).Steps Handshake start divisionOfWord := by decide +kernel
  have hgood : (watched 3).Steps (fun u i => accepts u.regs i = true → ¬(request i).Short) start
      divisionOfWord := by
    decide +kernel
  exact ((division_run 64 3).2 divisionOfWord hok).2 hgood

end Mult
end Ariane

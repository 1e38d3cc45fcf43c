/-
# Writes of several masters at one slave

The request side of a slave in the crossbar (`axi_request_block.sv`): `axi_AW_allocator.sv` arbitrates the
write addresses and notes whose each was, `axi_DW_allocator.sv` lets the masters send their data in that
order, and `axi_address_decoder_BW.sv` takes a response back by the number that was put in front of its id.
A full list of notes stops the addresses but not the counter of the arbiter.

* `oneAddress`, `oneBeat`: what the slave takes in a cycle is what exactly one master gives;
* `writes_served`: over a run the data are given burst after burst in the order of the addresses, and a
  response with the id of an address goes to the master that gave it.
-/
import Ariane.Common.RrArbTree
import Ariane.Common.FifoV3

namespace Ariane
namespace Soc
namespace RequestBlock

open Lib (Machine)

/-! ### The block -/

/-- The parameters. -/
structure Cfg where
  nTargPort : ℕ
  axiIdIn : ℕ
  fifoDepth : ℕ
  two_le : 2 ≤ nTargPort
  depth_pos : 0 < fifoDepth
  depth_le : fifoDepth ≤ 2 ^ 31

theorem not_ext : (true && false) = false := rfl

/-- `axi_node_arbiter`, a `stream_arbiter`. -/
abbrev Cfg.arbiter (c : Cfg) : RrArbTree.Cfg := ⟨c.nTargPort, false, true, true, c.two_le, not_ext⟩

/-- `MASTER_ID_FIFO`. -/
def Cfg.idFifo (c : Cfg) : FifoV3.Cfg := ⟨c.fifoDepth, false, c.depth_pos, c.depth_le⟩

/-- `LOG_N_TARG`. -/
def Cfg.logNTarg (c : Cfg) : ℕ := Nat.clog 2 c.nTargPort

/-- The number of a master in both codes of the source, `{BIN_ID, OH_ID}`. -/
structure MasterId (c : Cfg) where
  bin : BitVec c.logNTarg
  oh : Fin c.nTargPort → Bool

instance (c : Cfg) : Inhabited (MasterId c) := ⟨⟨0, fun _ => false⟩⟩

/-- `id_int`. -/
def idInt (c : Cfg) (k : Fin c.nTargPort) : MasterId c := ⟨BitVec.ofNat c.logNTarg k, fun j => decide (j = k)⟩

/-- The states of `axi_DW_allocator`. -/
inductive WState
  | singleIdle | burst

structure Regs (c : Cfg) where
  aw : RrArbTree.Regs c.arbiter
  ids : FifoV3.Regs c.idFifo (MasterId c)
  cs : WState

/-- `aw_t`: the id, and what else goes with an address. -/
structure Addr (c : Cfg) (β : Type) where
  id : BitVec c.axiIdIn
  rest : β

/-- The data of a cycle, its strobes and user signal, and whether they are the last. -/
structure Beat (γ : Type) where
  data : γ
  last : Bool

/-- The inputs: the masters on the left of the block, the slave on its right. -/
structure In (c : Cfg) (β γ : Type) where
  awValid : Fin c.nTargPort → Bool
  aw : Fin c.nTargPort → Addr c β
  awReady : Bool
  wValid : Fin c.nTargPort → Bool
  w : Fin c.nTargPort → Beat γ
  wReady : Bool

variable {c : Cfg} {β γ : Type}

section Comb

variable (s : Regs c) (i : In c β γ)

def awArb : RrArbTree.In c.arbiter (MasterId c × Addr c β) :=
  ⟨false, 0, i.awValid, fun k => (idInt c k, i.aw k), i.awReady⟩

/-- `grant_FIFO_ID`. -/
def grantFifoId : Bool := !FifoV3.full s.ids

/-- `ID_o` and `aw_oup`. -/
def awOup : Option (MasterId c × Addr c β) := (RrArbTree.out s.aw (awArb i)).data

def awReadyO (k : Fin c.nTargPort) : Bool := grantFifoId s && (RrArbTree.out s.aw (awArb i)).gnt k

def awValidO : Bool := (RrArbTree.out s.aw (awArb i)).req && grantFifoId s

/-- `awid_o`: the number of the master in front of its id. -/
def tag (m : MasterId c) (id : BitVec c.axiIdIn) : BitVec (c.logNTarg + c.axiIdIn) := m.bin ++ id

def awIdO : Option (BitVec (c.logNTarg + c.axiIdIn)) := (awOup s i).map fun x => tag x.1 x.2.id

def pushId : Bool := awValidO s i && i.awReady && grantFifoId s

def idFifoIn (pop : Bool) : FifoV3.In (MasterId c) :=
  ⟨false, pushId s i, ((awOup s i).map Prod.fst).getD default, pop⟩

/-- `ID_int`. -/
def headId : MasterId c := FifoV3.dataO s.ids (idFifoIn s i false)

def validId : Bool := !FifoV3.empty s.ids (idFifoIn s i false)

/-- `wvalid_i[ID_int_BIN]`. -/
def headValid : Bool :=
  if h : (headId s i).bin.toNat < c.nTargPort then i.wValid ⟨(headId s i).bin.toNat, h⟩ else false

/-- `WRITE_DATA_MUX`. -/
def wOup : Option (Beat γ) :=
  if h : (headId s i).bin.toNat < c.nTargPort then some (i.w ⟨(headId s i).bin.toNat, h⟩) else none

def headLast : Bool := ((wOup s i).map Beat.last).getD false

def wValidO : Bool :=
  match s.cs with
  | .singleIdle => validId s i && headValid s i
  | .burst => headValid s i

def wReadyO (k : Fin c.nTargPort) : Bool := i.wReady && (headId s i).oh k && validId s i

/-- `pop_from_ID_FIFO`. -/
def popId : Bool :=
  match s.cs with
  | .singleIdle => validId s i && (headValid s i && i.wReady) && headLast s i
  | .burst => headValid s i && i.wReady && headLast s i

def csNext : WState :=
  match s.cs with
  | .singleIdle =>
    if validId s i && (headValid s i && i.wReady) then if headLast s i then .singleIdle else .burst
    else .singleIdle
  | .burst => if headValid s i && i.wReady then if headLast s i then .singleIdle else .burst else .burst

def next : Regs c where
  aw := RrArbTree.next s.aw (awArb i)
  ids := FifoV3.next s.ids (idFifoIn s i (popId s i))
  cs := csNext s i

end Comb

def reset (c : Cfg) : Regs c := ⟨RrArbTree.reset c.arbiter, FifoV3.reset c.idFifo (MasterId c), .singleIdle⟩

def machine (c : Cfg) (β γ : Type) : Machine (Regs c) (In c β γ) := ⟨(· = reset c), next⟩

/-- `bvalid_o` of `axi_address_decoder_BW`. -/
def bValidO (bvalid : Bool) (bid : BitVec (c.logNTarg + c.axiIdIn)) (k : Fin c.nTargPort) : Bool :=
  bvalid && decide (k.val = (bid.extractLsb' c.axiIdIn c.logNTarg).toNat)

/-! ### One edge -/

section Edge

variable {s : Regs c} {i : In c β γ}

theorem toNat_idInt (k : Fin c.nTargPort) : (idInt c k).bin.toNat = k := by
  rw [idInt, BitVec.toNat_ofNat]
  exact Nat.mod_eq_of_lt (k.isLt.trans_le (Nat.le_pow_clog (by decide) _))

/-- The response to an address goes back to its master. -/
theorem bValidO_tag (bvalid : Bool) (k j : Fin c.nTargPort) (id : BitVec c.axiIdIn) :
    bValidO bvalid (tag (idInt c k) id) j = (bvalid && decide (j = k)) := by
  have hx : (tag (idInt c k) id).extractLsb' c.axiIdIn c.logNTarg = (idInt c k).bin := by
    apply BitVec.eq_of_getLsbD_eq
    intro n hn
    simp [tag, BitVec.getLsbD_append, hn]
  rw [bValidO, hx, toNat_idInt]
  congr 1
  simp [Fin.ext_iff]

/-- A master that the arbiter has locked on goes on asking. -/
def KeepsAsking (s : Regs c) (i : In c β γ) : Prop :=
  ∀ k : Fin c.nTargPort, s.aw.lockQ = true → s.aw.reqQ k = true → i.awValid k = true

/-- The masters that give an address in a cycle. -/
def awGiven (s : Regs c) (i : In c β γ) : List (Fin c.nTargPort) :=
  (List.finRange c.nTargPort).filter fun k => i.awValid k && awReadyO s i k

/-- The masters that give data in a cycle. -/
def wGiven (s : Regs c) (i : In c β γ) : List (Fin c.nTargPort) :=
  (List.finRange c.nTargPort).filter fun k => i.wValid k && wReadyO s i k

theorem filter_eq_single {n : ℕ} {p : Fin n → Bool} {k : Fin n} (h : ∀ j, p j = true ↔ j = k) :
    (List.finRange n).filter p = [k] := by
  have hp : p = fun j => decide (j = k) := by
    funext j
    rw [Bool.eq_iff_iff, h, decide_eq_true_iff]
  rw [hp, List.filter_eq, List.count_eq_one_of_mem (List.nodup_finRange n) (List.mem_finRange k),
    List.replicate_one]

theorem filter_eq_none {n : ℕ} {p : Fin n → Bool} (h : ∀ j, p j = false) : (List.finRange n).filter p = [] :=
  List.filter_eq_nil_iff.2 fun j _ => Bool.eq_false_iff.1 (h j)

/-- What is asked of the arbiter, the masters ask. -/
theorem asks {k : Fin c.nTargPort} (hk : KeepsAsking s i) (h : RrArbTree.reqD s.aw (awArb i) k = true) :
    i.awValid k = true := by
  unfold RrArbTree.reqD at h
  split at h
  · rename_i hlock
    exact hk k ((Bool.and_eq_true _ _).mp hlock).2 h
  · exact h

/-- The masters `ms` have given an address and not yet all their data. -/
structure Inv (s : Regs c) (ms : List (Fin c.nTargPort)) : Prop where
  ids : FifoV3.Inv s.ids
  contents : FifoV3.contents s.ids = ms.map (idInt c)
  burst : s.cs = .burst → ms ≠ []
  locked : s.aw.lockQ = true → ∃ k, s.aw.reqQ k = true

variable {ms : List (Fin c.nTargPort)}

theorem awReadyO_iff (k : Fin c.nTargPort) : awReadyO s i k = true ↔
    grantFifoId s = true ∧ i.awReady = true ∧ k.val = (RrArbTree.out s.aw (awArb i)).idx := by
  have hgnt := (RrArbTree.decision_spec s.aw (awArb i)).gnt k
  rw [awReadyO, Bool.and_eq_true, hgnt]
  exact and_congr_right fun _ => and_congr_right fun _ => and_iff_left (.inl rfl)

theorem pushId_iff : pushId s i = true ↔ grantFifoId s = true ∧ i.awReady = true ∧
    (RrArbTree.out s.aw (awArb i)).req = true := by
  simp only [pushId, awValidO, Bool.and_eq_true]
  tauto

/-- The slave takes an address exactly if a master gives one, and then it is that one. -/
theorem oneAddress (hs : Inv s ms) (hk : KeepsAsking s i) :
    (pushId s i = true → ∃ k, awGiven s i = [k] ∧ awOup s i = some (idInt c k, i.aw k)) ∧
      (pushId s i = false → awGiven s i = []) := by
  have hd := RrArbTree.decision_spec s.aw (awArb i)
  constructor
  · intro h
    obtain ⟨hgrant, hready, hreq⟩ := pushId_iff.1 h
    obtain ⟨k, hidx, hask, hdata⟩ := hd.chosen hreq
    refine ⟨k, filter_eq_single fun j => ?_, hdata⟩
    rw [Bool.and_eq_true, awReadyO_iff]
    constructor
    · rintro ⟨-, -, -, hj⟩
      exact Fin.ext (hj.trans hidx.symm)
    · rintro rfl
      exact ⟨asks hk hask, hgrant, hready, hidx⟩
  · intro h
    refine filter_eq_none fun j => Bool.eq_false_iff.2 fun hj => ?_
    rw [Bool.and_eq_true, awReadyO_iff] at hj
    obtain ⟨hvalid, hgrant, hready, -⟩ := hj
    refine Bool.eq_false_iff.1 h (pushId_iff.2 ⟨hgrant, hready, hd.req.2 ?_⟩)
    unfold RrArbTree.reqD
    split
    · rename_i hlock
      exact hs.locked ((Bool.and_eq_true _ _).mp hlock).2
    · exact ⟨j, hvalid⟩

theorem validId_iff (hs : Inv s ms) : validId s i = true ↔ ms ≠ [] := by
  rw [validId, Bool.not_eq_true', Bool.eq_false_iff, Ne, FifoV3.empty_iff, hs.contents, List.map_eq_nil_iff]
  simp [Cfg.idFifo]

theorem headId_eq {m : Fin c.nTargPort} (hs : Inv s (m :: ms)) : headId s i = idInt c m := by
  have hvalid := (@validId_iff c β γ s i _ hs).2 (List.cons_ne_nil m ms)
  rw [validId, Bool.not_eq_true'] at hvalid
  have hhead := FifoV3.head_eq hs.ids hvalid
  rw [hs.contents] at hhead
  exact (Option.some.inj hhead).symm

/-- Whether the slave takes data. -/
def wFire (s : Regs c) (i : In c β γ) : Bool := wValidO s i && i.wReady

/-- While a master has data to give, the slave takes data exactly if that master gives them. -/
theorem oneBeat {m : Fin c.nTargPort} (hs : Inv s (m :: ms)) :
    wOup s i = some (i.w m) ∧ wFire s i = (i.wValid m && i.wReady) ∧
      wGiven s i = (if wFire s i then [m] else []) ∧ popId s i = (wFire s i && (i.w m).last) := by
  have hvalid := (@validId_iff c β γ s i _ hs).2 (List.cons_ne_nil m ms)
  have hhead := @headId_eq c β γ s i _ _ hs
  have hbin : (headId s i).bin.toNat = m := by rw [hhead, toNat_idInt]
  have hlt : (headId s i).bin.toNat < c.nTargPort := by
    rw [hbin]
    exact m.isLt
  have hfin : (⟨(headId s i).bin.toNat, hlt⟩ : Fin c.nTargPort) = m := Fin.ext hbin
  have hw : wOup s i = some (i.w m) := by rw [wOup, dif_pos hlt, hfin]
  have hv : headValid s i = i.wValid m := by rw [headValid, dif_pos hlt, hfin]
  have hlast : headLast s i = (i.w m).last := by rw [headLast, hw]; rfl
  have hfire : wFire s i = (i.wValid m && i.wReady) := by
    unfold wFire wValidO
    cases s.cs <;> simp [hvalid, hv]
  have hready (k : Fin c.nTargPort) : wReadyO s i k = (i.wReady && decide (k = m)) := by
    rw [wReadyO, hvalid, hhead, Bool.and_true]
    rfl
  refine ⟨hw, hfire, ?_, ?_⟩
  · rw [hfire]
    by_cases hf : (i.wValid m && i.wReady) = true
    · rw [if_pos hf]
      rw [Bool.and_eq_true] at hf
      refine filter_eq_single fun j => ?_
      rw [hready, hf.2]
      simp only [Bool.true_and, Bool.and_eq_true, decide_eq_true_iff]
      exact ⟨And.right, fun h => ⟨by rw [h]; exact hf.1, h⟩⟩
    · rw [if_neg hf]
      refine filter_eq_none fun j => Bool.eq_false_iff.2 fun hj => hf ?_
      simp only [hready, Bool.and_eq_true, decide_eq_true_iff] at hj
      obtain ⟨hj, hr, rfl⟩ := hj
      rw [hj, hr]
      rfl
  · rw [hfire, popId]
    cases s.cs <;> simp [hvalid, hv, hlast]

/-- While no master has data to give, the slave takes none. -/
theorem noBeat (hs : Inv s []) : wFire s i = false ∧ wGiven s i = [] ∧ popId s i = false := by
  have hvalid : validId s i = false := Bool.eq_false_iff.2 fun h => (validId_iff hs).1 h rfl
  have hcs : s.cs = .singleIdle := by
    cases hcs : s.cs with
    | singleIdle => rfl
    | burst => exact absurd rfl (hs.burst hcs)
  refine ⟨?_, filter_eq_none fun j => ?_, ?_⟩
  · rw [wFire, wValidO, hcs, hvalid]
    rfl
  · rw [wReadyO, hvalid, Bool.and_false, Bool.and_false]
  · rw [popId, hcs, hvalid]
    rfl

/-- What goes into the list of notes is the master of the address. -/
theorem accepted_eq (hs : Inv s ms) (hk : KeepsAsking s i) (pop : Bool) :
    (FifoV3.accepted s.ids (idFifoIn s i pop)).toList = (awGiven s i).map (idInt c) := by
  have haddr := oneAddress hs hk
  rw [FifoV3.accepted_toList]
  change (if (pushId s i && grantFifoId s) = true then [((awOup s i).map Prod.fst).getD default] else []) = _
  cases hp : pushId s i with
  | false =>
    rw [haddr.2 hp]
    rfl
  | true =>
    obtain ⟨k, hg, ho⟩ := haddr.1 hp
    rw [hg, ho, (pushId_iff.1 hp).1]
    rfl

/-- Only the master that the slave takes data from is dropped. -/
theorem valid_of_pop (hs : Inv s ms) (h : popId s i = true) : validId s i = true := by
  refine (validId_iff hs).2 ?_
  rintro rfl
  rw [(noBeat hs).2.2] at h
  cases h

/-- A burst goes on while its last data are not taken. -/
theorem burst_next (hs : Inv s ms) (h : csNext s i = .burst) : ms ≠ [] ∧ popId s i = false := by
  unfold csNext at h
  unfold popId
  cases hcs : s.cs with
  | singleIdle =>
    rw [hcs] at h
    cases hv : validId s i with
    | false => simp [hv] at h
    | true =>
      refine ⟨(validId_iff hs).1 hv, ?_⟩
      cases hl : headLast s i <;> simp_all
  | burst =>
    rw [hcs] at h
    refine ⟨hs.burst hcs, ?_⟩
    cases hl : headLast s i <;> simp_all

/-- An edge notes the master of the address and drops the one whose last data were taken. -/
theorem Inv.next (hs : Inv s ms) (hk : KeepsAsking s i) : Inv (next s i)
    (if popId s i then (ms ++ awGiven s i).tail else ms ++ awGiven s i) := by
  obtain ⟨hids, hcont⟩ := @FifoV3.Inv.next _ _ s.ids (idFifoIn s i (popId s i)) hs.ids
  have hpop : (popId s i && validId s i) = popId s i := by
    cases hp : popId s i with
    | false => rfl
    | true => rw [valid_of_pop hs hp]; rfl
  refine ⟨hids, ?_, fun hb => ?_, fun hlock => ?_⟩
  · rw [accepted_eq hs hk, hs.contents, ← List.map_append] at hcont
    change _ = (if (popId s i && validId s i) = true then _ else _) at hcont
    rw [hpop] at hcont
    change FifoV3.contents (FifoV3.next s.ids _) = _
    rw [hcont]
    split
    · exact List.map_tail.symm
    · rfl
  · obtain ⟨hne, hp⟩ := burst_next hs hb
    rw [hp]
    exact List.append_ne_nil_of_left_ne_nil hne _
  · change ((RrArbTree.out s.aw (awArb i)).req && !i.awReady) = true at hlock
    rw [Bool.and_eq_true] at hlock
    exact (RrArbTree.decision_spec s.aw (awArb i)).req.1 hlock.1

end Edge

/-! ### Runs -/

section Runs

/-- The masters that give addresses over a run. -/
def addresses : Regs c → List (In c β γ) → List (Fin c.nTargPort)
  | _, [] => []
  | s, i :: is => awGiven s i ++ addresses (next s i) is

/-- The masters that give data over a run, and whether they are the last of a burst. -/
def beats : Regs c → List (In c β γ) → List (Fin c.nTargPort × Bool)
  | _, [] => []
  | s, i :: is => ((wGiven s i).map fun k => (k, (i.w k).last)) ++ beats (next s i) is

/-- Bursts are given one after the other, by the masters of a list in turn. -/
def Serves {μ : Type} : List μ → List (μ × Bool) → Prop
  | _, [] => True
  | [], _ :: _ => False
  | m :: ms, b :: bs => b.1 = m ∧ Serves (if b.2 then ms else m :: ms) bs

theorem inv_reset : Inv (reset c) [] := by
  refine ⟨FifoV3.inv_reset, rfl, fun h => ?_, fun h => ?_⟩
  · cases h
  · cases h

theorem serves_run : ∀ (is : List (In c β γ)) (s : Regs c) (ms : List (Fin c.nTargPort)), Inv s ms →
    (machine c β γ).Steps KeepsAsking s is → Serves (ms ++ addresses s is) (beats s is)
  | [], _, ms, _, _ => by
    rw [beats]
    cases ms <;> exact trivial
  | i :: is, s, [], hs, hk => by
    obtain ⟨-, hgiven, hpop⟩ := @noBeat c β γ s i hs
    have ih := serves_run is _ _ (hs.next hk.1) hk.2
    rw [hpop, if_neg Bool.false_ne_true] at ih
    rw [beats, hgiven]
    exact ih
  | i :: is, s, m :: ms, hs, hk => by
    obtain ⟨-, -, hgiven, hpop⟩ := @oneBeat c β γ s i ms m hs
    have ih := serves_run is _ _ (hs.next hk.1) hk.2
    rw [hpop] at ih
    rw [beats, hgiven, addresses]
    cases hf : wFire s i with
    | false =>
      rw [hf, Bool.false_and, if_neg Bool.false_ne_true, List.append_assoc] at ih
      exact ih
    | true =>
      refine ⟨rfl, ?_⟩
      change Serves (if (i.w m).last = true then ms ++ (awGiven s i ++ addresses (next s i) is)
        else m :: ms ++ (awGiven s i ++ addresses (next s i) is)) (beats (next s i) is)
      rw [hf, Bool.true_and] at ih
      cases hl : (i.w m).last with
      | false =>
        rw [hl, if_neg Bool.false_ne_true, List.append_assoc] at ih
        exact ih
      | true =>
        rw [hl, if_pos rfl, List.cons_append, List.tail_cons, List.append_assoc] at ih
        exact ih

/-- What the slave takes at an edge is what exactly one master gives, and the response to an address goes
back to the master that gave it. -/
structure OneToOne (s : Regs c) (i : In c β γ) : Prop where
  address : pushId s i = true → ∃ k, awGiven s i = [k] ∧ awOup s i = some (idInt c k, i.aw k) ∧
    ∀ bid, awIdO s i = some bid → ∀ j, bValidO true bid j = decide (j = k)
  noAddress : pushId s i = false → awGiven s i = []
  beat : wFire s i = true → ∃ m, wGiven s i = [m] ∧ wOup s i = some (i.w m)
  noBeat : wFire s i = false → wGiven s i = []

theorem oneToOne {s : Regs c} {i : In c β γ} {ms : List (Fin c.nTargPort)} (hs : Inv s ms)
    (hk : KeepsAsking s i) : OneToOne s i := by
  have haddr := oneAddress hs hk
  refine ⟨fun h => ?_, haddr.2, ?_, ?_⟩
  · obtain ⟨k, hg, ho⟩ := haddr.1 h
    refine ⟨k, hg, ho, fun bid hbid j => ?_⟩
    rw [awIdO, ho] at hbid
    rw [← Option.some.inj hbid, bValidO_tag, Bool.true_and]
  · intro hf
    cases ms with
    | nil =>
      rw [(noBeat hs).1] at hf
      cases hf
    | cons m ms =>
      obtain ⟨hw, -, hg, -⟩ := @oneBeat c β γ s i ms m hs
      exact ⟨m, by rw [hg, if_pos hf], hw⟩
  · intro hf
    cases ms with
    | nil => exact (noBeat hs).2.1
    | cons m ms =>
      obtain ⟨-, -, hg, -⟩ := @oneBeat c β γ s i ms m hs
      rw [hg, hf, if_neg Bool.false_ne_true]

/-- In a run in which a master that the arbiter has locked on goes on asking, what the slave takes at an edge
is what exactly one master gives, the response to an address goes to the master that gave it, and the data
are given burst after burst in the order of the addresses. -/
theorem writes_served (is : List (In c β γ)) (h : (machine c β γ).Steps KeepsAsking (reset c) is) :
    (machine c β γ).Steps OneToOne (reset c) is ∧
      Serves (addresses (reset c) is) (beats (reset c) is) := by
  refine ⟨?_, serves_run is _ [] inv_reset h⟩
  refine Machine.steps_of_inv (P := fun s => ∃ ms, Inv s ms) (fun s i hs hk => ?_) (fun s i hs hk => ?_) is _
    ⟨[], inv_reset⟩ h
  · obtain ⟨ms, hs⟩ := hs
    exact ⟨_, hs.next hk⟩
  · obtain ⟨ms, hs⟩ := hs
    exact oneToOne hs hk

theorem two_masters : 2 ≤ 2 := le_rfl

theorem two_notes : 0 < 2 := Nat.two_pos

theorem two_notes_le : 2 ≤ 2 ^ 31 := by decide

/-- Two masters and two notes. -/
def two : Cfg := ⟨2, 1, 2, two_masters, two_notes, two_notes_le⟩

/-- Both masters ask, with bursts of one. -/
def bothAsk : In two Unit Unit :=
  ⟨fun _ => true, fun _ => ⟨0, ()⟩, true, fun _ => true, fun _ => ⟨(), true⟩, true⟩

theorem writes_served_two :
    (machine two Unit Unit).Steps OneToOne (reset two) [bothAsk, bothAsk, bothAsk] ∧
      Serves (addresses (reset two) [bothAsk, bothAsk, bothAsk])
        (beats (reset two) [bothAsk, bothAsk, bothAsk]) :=
  writes_served [bothAsk, bothAsk, bothAsk]
    ⟨fun _ _ _ => rfl, fun _ _ _ => rfl, fun _ _ _ => rfl, trivial⟩

end Runs

end RequestBlock
end Soc
end Ariane

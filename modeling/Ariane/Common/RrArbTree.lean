/-
# The round-robin arbiter

`rr_arb_tree.sv` of `common_cells`, for any number of inputs but one (which it only passes
through). The nodes of the tree are numbered as in the source: node `l` of level `lvl` is
`2 ^ lvl - 1 + l`, its children are nodes `2 * l` and `2 * l + 1` of the next level, and the inputs
are below the last level. A node selects one of its children, the bits of the counter decide where
both ask.

* `decision_spec`: what the assertions of the source say, for all sizes and states;
* `decision_keeps`: with `LockIn` a decision that is not taken stands, whatever is asked meanwhile;
* `starvation_bound`: an input that keeps asking sees fewer than `numIn` grants go to others.
-/
import Ariane.Lib.Machine
import Mathlib.Data.Nat.Log

namespace Ariane
namespace RrArbTree

open Lib

/-! ### The arbiter -/

/-- The parameters. `LockIn` and `ExtPrio` exclude each other. -/
structure Cfg where
  numIn : ℕ
  extPrio : Bool
  axiVldRdy : Bool
  lockIn : Bool
  two_le : 2 ≤ numIn
  lock_or_ext : (lockIn && extPrio) = false

/-- `NumLevels`. -/
def Cfg.numLevels (c : Cfg) : ℕ := Nat.clog 2 c.numIn

structure Regs (c : Cfg) where
  rrQ : BitVec c.numLevels
  lockQ : Bool
  reqQ : Fin c.numIn → Bool

/-- The inputs of a cycle; `rr` is `rr_i`. -/
structure In (c : Cfg) (α : Type) where
  flush : Bool
  rr : BitVec c.numLevels
  req : Fin c.numIn → Bool
  data : Fin c.numIn → α
  gnt : Bool

section Tree

variable (c : Cfg) (req : Fin c.numIn → Bool) (rr : BitVec c.numLevels)

/-- `req_d` below the last level; nothing asks beyond the vector. -/
def leafReq (l : ℕ) : Bool := if h : l < c.numIn then req ⟨l, h⟩ else false

/-- `req_nodes`, for node `l` that is `h` levels above the inputs. -/
def reqNode : ℕ → ℕ → Bool
  | 0, l => leafReq c req l
  | h + 1, l => reqNode h (2 * l) || reqNode h (2 * l + 1)

/-- `sel` of node `l` that is `h + 1` levels above the inputs. The last node above an odd number of
inputs has one child only. -/
def sel (h l : ℕ) : Bool :=
  if h = 0 ∧ c.numIn - 1 ≤ 2 * l then false
  else !reqNode c req h (2 * l) || reqNode c req h (2 * l + 1) && rr.getLsbD h

/-- `index_nodes`. -/
def indexNode : ℕ → ℕ → ℕ
  | 0, _ => 0
  | h + 1, l =>
    let s := sel c req rr h l
    s.toNat * 2 ^ h + indexNode h (2 * l + s.toNat)

/-- `gnt_nodes`, for node `l` of level `lvl`; level `NumLevels` are the inputs. -/
def gntNode (gnt : Bool) : ℕ → ℕ → Bool
  | 0, _ => gnt
  | lvl + 1, l => gntNode gnt lvl (l / 2) &&
      (sel c req rr (c.numLevels - lvl - 1) (l / 2) == decide (l % 2 = 1))

/-- `data_nodes`; none beyond the vector. -/
def dataNode {α : Type} (data : Fin c.numIn → α) : ℕ → ℕ → Option α
  | 0, l => if h : l < c.numIn then some (data ⟨l, h⟩) else none
  | h + 1, l => dataNode data h (2 * l + (sel c req rr h l).toNat)

end Tree

/-- What the arbiter shows in a cycle. -/
structure Out (c : Cfg) (α : Type) where
  req : Bool
  idx : ℕ
  data : Option α
  gnt : Fin c.numIn → Bool

variable {c : Cfg} {α : Type}

/-- `req_d`. -/
def reqD (s : Regs c) (i : In c α) : Fin c.numIn → Bool := if c.lockIn && s.lockQ then s.reqQ else i.req

/-- The counter, or the priority from outside. -/
def rrSel (s : Regs c) (i : In c α) : BitVec c.numLevels := if c.extPrio then i.rr else s.rrQ

def out (s : Regs c) (i : In c α) : Out c α where
  req := reqNode c (reqD s i) c.numLevels 0
  idx := indexNode c (reqD s i) (rrSel s i) c.numLevels 0
  data := dataNode c (reqD s i) (rrSel s i) i.data c.numLevels 0
  gnt k := gntNode c (reqD s i) (rrSel s i) i.gnt c.numLevels k && (c.axiVldRdy || reqD s i k)

def next (s : Regs c) (i : In c α) : Regs c :=
  if i.flush then ⟨0, false, fun _ => false⟩
  else
    { rrQ :=
        if i.gnt && (out s i).req then
          if s.rrQ = BitVec.ofNat _ (c.numIn - 1) then 0 else s.rrQ + 1
        else s.rrQ
      lockQ := (out s i).req && !i.gnt
      reqQ := reqD s i }

def reset (c : Cfg) : Regs c := ⟨0, false, fun _ => false⟩

def machine (c : Cfg) (α : Type) : Machine (Regs c) (In c α) := ⟨(· = reset c), next⟩

/-! ### One decision -/

section Decision

variable {req : Fin c.numIn → Bool} {rr : BitVec c.numLevels}

theorem numIn_le (c : Cfg) : c.numIn ≤ 2 ^ c.numLevels := Nat.le_pow_clog (by decide) _

/-- A node asks if an input below it does. -/
theorem reqNode_iff : ∀ h l : ℕ,
    reqNode c req h l = true ↔ ∃ k : Fin c.numIn, k.val / 2 ^ h = l ∧ req k = true
  | 0, l => by
    simp only [reqNode, leafReq, pow_zero, Nat.div_one]
    split
    · rename_i hl
      constructor
      · exact fun h => ⟨⟨l, hl⟩, rfl, h⟩
      · rintro ⟨k, rfl, h⟩
        exact h
    · rename_i hl
      refine iff_of_false Bool.false_ne_true ?_
      rintro ⟨k, rfl, -⟩
      exact hl k.isLt
  | h + 1, l => by
    have hdiv (k : ℕ) : k / 2 ^ (h + 1) = k / 2 ^ h / 2 := by rw [pow_succ, Nat.div_div_eq_div_mul]
    simp only [reqNode, Bool.or_eq_true, reqNode_iff h, hdiv]
    constructor
    · rintro (⟨k, hk, hr⟩ | ⟨k, hk, hr⟩) <;> exact ⟨k, by omega, hr⟩
    · rintro ⟨k, hk, hr⟩
      have hcase : k.val / 2 ^ h = 2 * l ∨ k.val / 2 ^ h = 2 * l + 1 := by omega
      exact hcase.imp (fun h => ⟨k, h, hr⟩) (fun h => ⟨k, h, hr⟩)

/-- The root asks if an input does. -/
theorem reqNode_root : reqNode c req c.numLevels 0 = true ↔ ∃ k, req k = true := by
  rw [reqNode_iff]
  refine exists_congr fun k => and_iff_right ?_
  exact Nat.div_eq_of_lt (k.isLt.trans_le (numIn_le c))

/-- The selected child of a node that asks does ask. -/
theorem reqNode_sel {h l : ℕ} (hr : reqNode c req (h + 1) l = true) :
    reqNode c req h (2 * l + (sel c req rr h l).toNat) = true := by
  unfold sel
  split
  · rename_i hlast
    obtain ⟨rfl, hle⟩ := hlast
    have hout : reqNode c req 0 (2 * l + 1) = false := by
      rw [reqNode, leafReq, dif_neg (by omega)]
    rw [reqNode, hout, Bool.or_false] at hr
    simpa using hr
  · rw [reqNode] at hr
    cases hl : reqNode c req h (2 * l) <;> cases hright : reqNode c req h (2 * l + 1) <;>
      cases hb : rr.getLsbD h <;> simp_all

/-- The input a node leads to is the one its selected child leads to. -/
theorem index_step (h l : ℕ) : l * 2 ^ (h + 1) + indexNode c req rr (h + 1) l =
    (2 * l + (sel c req rr h l).toNat) * 2 ^ h + indexNode c req rr h (2 * l + (sel c req rr h l).toNat) := by
  rw [indexNode, pow_succ, Nat.add_mul, ← Nat.add_assoc, Nat.mul_comm (2 ^ h) 2, ← Nat.mul_assoc,
    Nat.mul_comm l 2]

/-- Below a node that asks the indices lead to an input that asks. -/
theorem leafReq_indexNode : ∀ h l : ℕ, reqNode c req h l = true →
    leafReq c req (l * 2 ^ h + indexNode c req rr h l) = true
  | 0, l, hr => by simpa [indexNode, reqNode] using hr
  | h + 1, l, hr => by
    have ih := leafReq_indexNode h _ (@reqNode_sel c req rr h _ hr)
    rw [index_step]
    exact ih

theorem dataNode_indexNode (data : Fin c.numIn → α) : ∀ h l : ℕ,
    dataNode c req rr data h l = dataNode c req rr data 0 (l * 2 ^ h + indexNode c req rr h l)
  | 0, l => by simp [indexNode]
  | h + 1, l => by
    rw [index_step, ← dataNode_indexNode data h, dataNode]

theorem indexNode_lt : ∀ h l : ℕ, indexNode c req rr h l < 2 ^ h
  | 0, _ => Nat.one_pos
  | h + 1, l => by
    have ih := indexNode_lt h (2 * l + (sel c req rr h l).toNat)
    have hmul : (sel c req rr h l).toNat * 2 ^ h ≤ 1 * 2 ^ h := Nat.mul_le_mul_right _ (Bool.toNat_le _)
    rw [indexNode, pow_succ]
    omega

/-- A leaf is below node `l` that is `h` levels above it. Node `l` leads to it. -/
def Leads (c : Cfg) (req : Fin c.numIn → Bool) (rr : BitVec c.numLevels) (leaf h : ℕ) : Prop :=
  leaf % 2 ^ h = indexNode c req rr h (leaf / 2 ^ h)

/-- A node leads on to its selected child. -/
theorem Leads.step {leaf h : ℕ} (hl : Leads c req rr leaf (h + 1)) :
    leaf / 2 ^ h = 2 * (leaf / 2 ^ (h + 1)) + (sel c req rr h (leaf / 2 ^ (h + 1))).toNat ∧
      Leads c req rr leaf h := by
  have hstep := @index_step c req rr h (leaf / 2 ^ (h + 1))
  rw [← hl, Nat.div_add_mod'] at hstep
  have hlt := @indexNode_lt c req rr h
    (2 * (leaf / 2 ^ (h + 1)) + (sel c req rr h (leaf / 2 ^ (h + 1))).toNat)
  generalize 2 * (leaf / 2 ^ (h + 1)) + (sel c req rr h (leaf / 2 ^ (h + 1))).toNat = n at hstep hlt ⊢
  have hdm : leaf / 2 ^ h = n ∧ leaf % 2 ^ h = indexNode c req rr h n := by
    refine (Nat.div_mod_unique (Nat.two_pow_pos h)).2 ⟨?_, hlt⟩
    rw [Nat.add_comm, Nat.mul_comm]
    exact hstep.symm
  exact ⟨hdm.1, by rw [Leads, hdm.1, hdm.2]⟩

/-- The nodes above the index lead to it. -/
theorem leads_index : ∀ m ≤ c.numLevels,
    Leads c req rr (indexNode c req rr c.numLevels 0) (c.numLevels - m)
  | 0, _ => by
    have hlt := @indexNode_lt c req rr c.numLevels 0
    rw [Leads, Nat.sub_zero, Nat.mod_eq_of_lt hlt, Nat.div_eq_of_lt hlt]
  | m + 1, hm => by
    have ih := leads_index m (by omega)
    rw [show c.numLevels - m = c.numLevels - (m + 1) + 1 by omega] at ih
    exact ih.step.2

/-- The grant goes down the selections: it reaches the nodes that the index lies below. -/
theorem gntNode_iff {gnt : Bool} : ∀ lvl l : ℕ, lvl ≤ c.numLevels → l < 2 ^ lvl →
    (gntNode c req rr gnt lvl l = true ↔
      gnt = true ∧ indexNode c req rr c.numLevels 0 / 2 ^ (c.numLevels - lvl) = l)
  | 0, l, _, hl => by
    have hlt := @indexNode_lt c req rr c.numLevels 0
    rw [Nat.sub_zero, Nat.div_eq_of_lt hlt, gntNode, Nat.lt_one_iff.1 hl]
    simp
  | lvl + 1, l, hlvl, hl => by
    have ih := @gntNode_iff gnt lvl (l / 2) (by omega) (by omega)
    have hlead := @leads_index c req rr lvl (by omega)
    rw [show c.numLevels - lvl = c.numLevels - (lvl + 1) + 1 by omega] at hlead ih
    have hdiv := hlead.step.1
    rw [gntNode, Bool.and_eq_true, ih, and_assoc, Nat.sub_sub]
    refine and_congr_right fun _ => ?_
    rw [hdiv]
    generalize indexNode c req rr c.numLevels 0 / 2 ^ (c.numLevels - (lvl + 1) + 1) = n
    constructor
    · rintro ⟨rfl, hs⟩
      rw [eq_of_beq hs]
      rcases Nat.mod_two_eq_zero_or_one l with h | h <;> simp [h] <;> omega
    · intro hn
      have hs := Bool.toNat_le (sel c req rr (c.numLevels - (lvl + 1)) n)
      have hl2 : l / 2 = n := by omega
      refine ⟨hl2.symm, ?_⟩
      rw [hl2]
      cases hsel : sel c req rr (c.numLevels - (lvl + 1)) n <;> rw [hsel] at hn <;>
        simp only [Bool.toNat_false, Bool.toNat_true] at hn <;> simp <;> omega

/-- What every level keeps about the index, the index has. -/
theorem index_induction {P : ℕ → ℕ → Prop} (root : P c.numLevels 0)
    (step : ∀ h n, P (h + 1) n → P h (2 * n + (sel c req rr h n).toNat)) :
    P 0 (indexNode c req rr c.numLevels 0) := by
  have hlevel : ∀ m ≤ c.numLevels,
      P (c.numLevels - m) (indexNode c req rr c.numLevels 0 / 2 ^ (c.numLevels - m)) := by
    intro m
    induction m with
    | zero =>
      intro _
      rw [Nat.sub_zero, Nat.div_eq_of_lt (indexNode_lt _ _)]
      exact root
    | succ m ih =>
      intro hm
      have hlead := @leads_index c req rr m (by omega)
      have hP := ih (by omega)
      rw [show c.numLevels - m = c.numLevels - (m + 1) + 1 by omega] at hlead hP
      rw [hlead.step.1]
      exact step _ _ hP
  have hlast := hlevel c.numLevels le_rfl
  rwa [Nat.sub_self, pow_zero, Nat.div_one] at hlast

theorem testBit_split (k h : ℕ) : k / 2 ^ h = 2 * (k / 2 ^ (h + 1)) + (k.testBit h).toNat := by
  rw [Nat.toNat_testBit, pow_succ, ← Nat.div_div_eq_div_mul]
  omega

/-- The input that the counter names is served if it asks. -/
theorem index_of_preferred {k : Fin c.numIn} (hk : k.val = rr.toNat) (hr : req k = true) :
    indexNode c req rr c.numLevels 0 = k.val := by
  refine index_induction (P := fun h n => n = k.val / 2 ^ h)
    (Nat.div_eq_of_lt (k.isLt.trans_le (numIn_le c))).symm (fun h n hn => ?_) |>.trans (by simp)
  have hbelow : reqNode c req h (k.val / 2 ^ h) = true := (reqNode_iff _ _).2 ⟨k, rfl, hr⟩
  have hbit : k.val.testBit h = rr.getLsbD h := by rw [hk]; rfl
  rw [testBit_split k.val h, ← hn, hbit] at hbelow ⊢
  congr 2
  unfold sel
  cases hb : rr.getLsbD h with
  | false =>
    rw [hb] at hbelow
    have hleft : reqNode c req h (2 * n) = true := hbelow
    simp [hleft]
  | true =>
    rw [hb] at hbelow
    have hright : reqNode c req h (2 * n + 1) = true := hbelow
    have hin : ¬(h = 0 ∧ c.numIn - 1 ≤ 2 * n) := by
      rintro ⟨rfl, hle⟩
      have hkn := testBit_split k.val 0
      rw [hbit, hb, ← hn, pow_zero, Nat.div_one, Bool.toNat_true] at hkn
      have := k.isLt
      omega
    rw [if_neg hin, hright]
    simp

end Decision

/-! ### What the arbiter shows -/

/-- The outputs of a cycle in which the inputs `r` ask, and the output is ready if `gnt`. -/
structure Decision (i : In c α) (r : Fin c.numIn → Bool) (o : Out c α) : Prop where
  req : o.req = true ↔ ∃ k, r k = true
  gnt : ∀ k, o.gnt k = true ↔ i.gnt = true ∧ k.val = o.idx ∧ (c.axiVldRdy = true ∨ r k = true)
  chosen : o.req = true → ∃ k : Fin c.numIn, k.val = o.idx ∧ r k = true ∧ o.data = some (i.data k)

theorem Decision.hotOne {i : In c α} {r : Fin c.numIn → Bool} {o : Out c α} (h : Decision i r o)
    {j k : Fin c.numIn} (hj : o.gnt j = true) (hk : o.gnt k = true) : j = k :=
  Fin.ext (((h.gnt j).1 hj).2.1.trans ((h.gnt k).1 hk).2.1.symm)

/-- **One decision.** The output asks exactly if an input does; then the index is one of those that
ask, the data is its data, and a ready output is granted to it alone. -/
theorem decision_spec (s : Regs c) (i : In c α) : Decision i (reqD s i) (out s i) := by
  refine ⟨reqNode_root, fun k => ?_, fun hreq => ?_⟩
  · have hk : k.val < 2 ^ c.numLevels := k.isLt.trans_le (numIn_le c)
    show (gntNode c _ _ i.gnt c.numLevels k && (c.axiVldRdy || reqD s i k)) = true ↔ _
    rw [Bool.and_eq_true, gntNode_iff _ _ le_rfl hk, Bool.or_eq_true, Nat.sub_self, pow_zero, Nat.div_one,
      and_assoc, eq_comm (a := indexNode _ _ _ _ _)]
    exact Iff.rfl
  · have hleaf := @leafReq_indexNode c _ (rrSel s i) c.numLevels 0 hreq
    rw [Nat.zero_mul, Nat.zero_add] at hleaf
    change leafReq c (reqD s i) (out s i).idx = true at hleaf
    have hlt : (out s i).idx < c.numIn := by
      by_contra hge
      rw [leafReq, dif_neg hge] at hleaf
      cases hleaf
    refine ⟨⟨(out s i).idx, hlt⟩, rfl, ?_, ?_⟩
    · rwa [leafReq, dif_pos hlt] at hleaf
    · show dataNode c _ _ i.data c.numLevels 0 = _
      rw [dataNode_indexNode, Nat.zero_mul, Nat.zero_add]
      exact dif_pos hlt

/-! ### Runs -/

variable {s : Regs c} {i : In c α}

theorem next_of_not_flush (hf : i.flush = false) : next s i =
    { rrQ :=
        if i.gnt && (out s i).req then
          if s.rrQ = BitVec.ofNat _ (c.numIn - 1) then 0 else s.rrQ + 1
        else s.rrQ
      lockQ := (out s i).req && !i.gnt
      reqQ := reqD s i } := by
  rw [next, hf]
  rfl

/-- The counter names an input. -/
theorem toNat_ofNat_last (c : Cfg) : (BitVec.ofNat c.numLevels (c.numIn - 1)).toNat = c.numIn - 1 := by
  have := numIn_le c
  have := c.two_le
  rw [BitVec.toNat_ofNat, Nat.mod_eq_of_lt (by omega)]

/-- The counter after a cycle in which it moves on. -/
theorem toNat_rrNext (hs : s.rrQ.toNat < c.numIn) :
    (if s.rrQ = BitVec.ofNat _ (c.numIn - 1) then 0 else s.rrQ + 1).toNat = (s.rrQ.toNat + 1) % c.numIn := by
  have hle := numIn_le c
  have h2 := c.two_le
  by_cases hlast : s.rrQ = BitVec.ofNat _ (c.numIn - 1)
  · have hn : s.rrQ.toNat + 1 = c.numIn := by rw [hlast, toNat_ofNat_last]; omega
    rw [if_pos hlast, hn, Nat.mod_self]
    rfl
  · have hne : s.rrQ.toNat ≠ c.numIn - 1 := by
      rw [← toNat_ofNat_last]
      exact fun h => hlast (BitVec.eq_of_toNat_eq h)
    have hone : (1 : BitVec c.numLevels).toNat = 1 := BitVec.toNat_one (Nat.clog_pos (by decide) h2)
    rw [if_neg hlast, BitVec.toNat_add, hone, Nat.mod_eq_of_lt (by omega), Nat.mod_eq_of_lt (by omega)]

theorem rrQ_next (hs : s.rrQ.toNat < c.numIn) (i : In c α) : (next s i).rrQ.toNat < c.numIn := by
  have h2 := c.two_le
  unfold next
  split
  · show (0 : BitVec c.numLevels).toNat < _
    simp
    omega
  · show (if _ then _ else _ : BitVec c.numLevels).toNat < _
    split
    · rw [toNat_rrNext hs]
      exact Nat.mod_lt _ (by omega)
    · exact hs

theorem rrQ_reachable (h : (machine c α).Reachable s) : s.rrQ.toNat < c.numIn := by
  refine h.inv (P := fun s => s.rrQ.toNat < c.numIn) (fun s hs => ?_) fun s i hs => rrQ_next hs i
  rw [show s = reset c from hs]
  have := c.two_le
  show (0 : BitVec c.numLevels).toNat < _
  simp
  omega

/-- With `LockIn`, what is offered and not taken in a cycle is offered in the next. -/
theorem decision_next (hlock : c.lockIn = true) (s : Regs c) (i j : In c α) (hr : (out s i).req = true)
    (hg : i.gnt = false) (hf : i.flush = false) :
    (out (next s i) j).req = true ∧ (out (next s i) j).idx = (out s i).idx := by
  have hext : c.extPrio = false := by simpa [hlock] using c.lock_or_ext
  have hreq : reqD (next s i) j = reqD s i := by
    rw [next_of_not_flush hf, reqD]
    simp [hlock, hr, hg]
  have hrr : rrSel (next s i) j = rrSel s i := by
    rw [next_of_not_flush hf]
    simp [rrSel, hext, hg]
  constructor
  · show reqNode c (reqD (next s i) j) _ 0 = true
    rw [hreq]
    exact hr
  · show indexNode c (reqD (next s i) j) (rrSel (next s i) j) _ 0 = _
    rw [hreq, hrr]
    rfl

/-- **A decision stands.** With `LockIn`, what is offered and not taken is offered again, whatever
the inputs ask for meanwhile. -/
theorem decision_keeps (hlock : c.lockIn = true) (is : List (In c α)) (s : Regs c) (i j : In c α)
    (hr : (out s i).req = true)
    (hs : (machine c α).Steps (fun _ j => j.gnt = false ∧ j.flush = false) s (i :: is)) :
    (out ((machine c α).run s (i :: is)) j).req = true ∧
      (out ((machine c α).run s (i :: is)) j).idx = (out s i).idx := by
  induction is generalizing s i with
  | nil => exact decision_next hlock s i j hr hs.1.1 hs.1.2
  | cons k is ih =>
    have hk := decision_next hlock s i k hr hs.1.1 hs.1.2
    have hrun := ih (next s i) k hk.1 hs.2
    exact ⟨hrun.1, hrun.2.trans hk.2⟩

/-! ### No input starves -/

/-- How many inputs are before `k` in the order of the counter. -/
def ahead (s : Regs c) (k : Fin c.numIn) : ℕ := (k.val + c.numIn - s.rrQ.toNat) % c.numIn

/-- The decision that is locked was taken without `k`. -/
def stale (s : Regs c) (k : Fin c.numIn) : Bool := c.lockIn && s.lockQ && !s.reqQ k

/-- How many grants can go to others before `k`. -/
def grantsBefore (s : Regs c) (k : Fin c.numIn) : ℕ := if stale s k then c.numIn else ahead s k

/-- A grant is taken. -/
def grants (s : Regs c) (i : In c α) : Bool := i.gnt && (out s i).req

/-- Input `k` asks, and is not granted. -/
structure Waits (k : Fin c.numIn) (s : Regs c) (i : In c α) : Prop where
  flush : i.flush = false
  req : i.req k = true
  gnt : (out s i).gnt k = false

theorem ahead_lt (s : Regs c) (k : Fin c.numIn) : ahead s k < c.numIn :=
  Nat.mod_lt _ (by have := c.two_le; omega)

theorem ahead_next {k : Fin c.numIn} (hs : s.rrQ.toNat < c.numIn) (hk : s.rrQ.toNat ≠ k.val)
    {s' : Regs c} (hs' : s'.rrQ.toNat = (s.rrQ.toNat + 1) % c.numIn) : ahead s' k + 1 = ahead s k := by
  have hlt := k.isLt
  have hmod (a : ℕ) (ha : a < c.numIn) : (a + c.numIn) % c.numIn = a := by
    rw [Nat.add_mod_right, Nat.mod_eq_of_lt ha]
  unfold ahead
  rw [hs']
  by_cases hwrap : s.rrQ.toNat + 1 = c.numIn
  · rw [hwrap, Nat.mod_self, Nat.sub_zero, hmod _ hlt, Nat.mod_eq_of_lt (by omega)]
    omega
  · rw [Nat.mod_eq_of_lt (by omega : s.rrQ.toNat + 1 < c.numIn)]
    rcases Nat.lt_or_ge s.rrQ.toNat k.val with h | h
    · rw [show k.val + c.numIn - (s.rrQ.toNat + 1) = k.val - (s.rrQ.toNat + 1) + c.numIn by omega,
        show k.val + c.numIn - s.rrQ.toNat = k.val - s.rrQ.toNat + c.numIn by omega,
        hmod _ (by omega), hmod _ (by omega)]
      omega
    · rw [Nat.mod_eq_of_lt (by omega), Nat.mod_eq_of_lt (by omega)]
      omega

/-- An input that asks and is not granted comes closer with every grant. -/
theorem grantsBefore_next (hext : c.extPrio = false) {k : Fin c.numIn} (hs : s.rrQ.toNat < c.numIn)
    (hw : Waits k s i) : grantsBefore (next s i) k + (grants s i).toNat ≤ grantsBefore s k := by
  have hn := next_of_not_flush (s := s) hw.flush
  have hlt' := ahead_lt (next s i) k
  cases hst : stale s k with
  | true =>
    -- the counter may pass `k` while the locked decision is taken
    rw [grantsBefore, grantsBefore, hst, if_pos rfl]
    cases hg : grants s i with
    | false =>
      split
      · simp
      · simp only [Bool.toNat_false, Nat.add_zero]
        omega
    | true =>
      have hfree : stale (next s i) k = false := by
        rw [grants, Bool.and_eq_true] at hg
        rw [hn]
        simp [stale, hg.1]
      rw [hfree, if_neg Bool.false_ne_true, Bool.toNat_true]
      exact hlt'
  | false =>
    have hreq : reqD s i k = true := by
      rw [reqD]
      by_cases hl : (c.lockIn && s.lockQ) = true
      · rw [if_pos hl]
        simpa [stale, hl] using hst
      · rw [if_neg hl]
        exact hw.req
    have hstale' : stale (next s i) k = false := by
      rw [hn]
      simp [stale, hreq]
    rw [grantsBefore, grantsBefore, hst, hstale', if_neg Bool.false_ne_true, if_neg Bool.false_ne_true]
    cases hg : grants s i with
    | false =>
      have hrr : (next s i).rrQ = s.rrQ := by
        rw [hn]
        exact if_neg (by rw [← grants, hg]; exact Bool.false_ne_true)
      rw [ahead, ahead, hrr, Bool.toNat_false]
      exact le_rfl
    | true =>
      have hrr : (next s i).rrQ.toNat = (s.rrQ.toNat + 1) % c.numIn := by
        rw [hn, ← toNat_rrNext hs]
        show (if (i.gnt && (out s i).req) = true then _ else _ : BitVec _).toNat = _
        rw [← grants, hg, if_pos rfl]
      -- the input that the counter names would have been granted
      have hne : s.rrQ.toNat ≠ k.val := by
        intro heq
        have hrs : rrSel s i = s.rrQ := by rw [rrSel, hext]; rfl
        have hidx : (out s i).idx = k.val :=
          index_of_preferred (by rw [hrs, heq]) hreq
        rw [grants, Bool.and_eq_true] at hg
        have := ((decision_spec s i).gnt k).2 ⟨hg.1, hidx.symm, .inr hreq⟩
        rw [hw.gnt] at this
        cases this
      exact (ahead_next hs hne hrr).le

/-- **No input starves.** While an input asks and is not granted, fewer grants than there are inputs
go to others; one more with `LockIn`, for a decision that was locked without it. -/
theorem starvation_bound (hext : c.extPrio = false) (k : Fin c.numIn) (is : List (In c α)) (s : Regs c)
    (hs : (machine c α).Reachable s) (hw : (machine c α).Steps (Waits k) s is) :
    (machine c α).count grants s is < c.numIn + c.lockIn.toNat := by
  have hbound : (machine c α).count grants s is ≤ grantsBefore s k :=
    Machine.count_le_measure (P := fun s => s.rrQ.toNat < c.numIn) (μ := fun s => grantsBefore s k)
      (fun s i h _ => rrQ_next h i) (fun s i h hw => grantsBefore_next hext h hw) is s (rrQ_reachable hs) hw
  have hlt := ahead_lt s k
  refine hbound.trans_lt ?_
  unfold grantsBefore
  split
  · rename_i hst
    have hl : c.lockIn = true := by
      simp only [stale, Bool.and_eq_true] at hst
      exact hst.1.1
    rw [hl, Bool.toNat_true]
    omega
  · omega

def threeIn (lockIn : Bool) : Cfg := ⟨3, false, false, lockIn, by decide, by simp⟩

/-- A cycle of an arbiter of three inputs. -/
def asking (lockIn : Bool) (req : Fin (threeIn lockIn).numIn → Bool) (gnt : Bool) : In (threeIn lockIn) Unit :=
  ⟨false, 0, req, fun _ => (), gnt⟩

def allAsk (lockIn : Bool) (gnt : Bool) : In (threeIn lockIn) Unit := asking lockIn (fun _ => true) gnt

instance (k : Fin c.numIn) (s : Regs c) (i : In c α) : Decidable (Waits k s i) :=
  decidable_of_iff (i.flush = false ∧ i.req k = true ∧ (out s i).gnt k = false)
    ⟨fun h => ⟨h.1, h.2.1, h.2.2⟩, fun h => ⟨h.flush, h.req, h.gnt⟩⟩

/-- The last of three inputs waits for two grants. -/
theorem starvation_bound_three :
    (machine (threeIn false) Unit).count grants (reset _) [allAsk false true, allAsk false true] < 3 :=
  starvation_bound rfl ⟨2, by decide⟩ _ _ ⟨reset _, [], rfl, rfl⟩ (by decide +kernel)

/-- Input 2 is offered first; then all ask, then input 0 alone. -/
theorem decision_keeps_three :
    (out ((machine (threeIn true) Unit).run (reset _) [asking true (fun k => k.val == 2) false, allAsk true false])
        (asking true (fun k => k.val == 0) true)).req = true ∧
      (out ((machine (threeIn true) Unit).run (reset _)
        [asking true (fun k => k.val == 2) false, allAsk true false])
        (asking true (fun k => k.val == 0) true)).idx =
        (out (reset _) (asking true (fun k => k.val == 2) false)).idx :=
  decision_keeps rfl [allAsk true false] _ _ _ (by decide +kernel) (by decide +kernel)

end RrArbTree
end Ariane

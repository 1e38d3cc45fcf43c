/-
# The FIFO

`fifo_v3.sv` of `common_cells`, for any depth and with or without fall-through. The pointers wrap at the
depth; where that is a power of two, the comparison of the source never holds and they wrap by their width.

* `contents_next`: an edge appends what is pushed and drops what is popped;
* `fifo_law`: what comes out is what went in, in order, but for what a flush drops;
* `library_next`: with a power of two and no fall-through it is the FIFO of the library.
-/
import Ariane.Lib.Fifo
import Ariane.Lib.Machine
import Mathlib.Data.Nat.Log

namespace Ariane
namespace FifoV3

open Lib (Machine Fifo)

/-! ### The module -/

/-- The parameters. Above `2 ^ 31` a slice of the source is wider than the depth it is of. -/
structure Cfg where
  depth : ℕ
  fallThrough : Bool
  pos : 0 < depth
  le : depth ≤ 2 ^ 31

/-- `ADDR_DEPTH`. -/
def Cfg.addrDepth (c : Cfg) : ℕ := if 1 < c.depth then Nat.clog 2 c.depth else 1

/-- `FIFO_DEPTH`. -/
def Cfg.fifoDepth (c : Cfg) : BitVec 32 := BitVec.ofNat 32 c.depth

/-- The registers. The pointers stay below the depth, so `mem` has no word beyond it. -/
structure Regs (c : Cfg) (α : Type) where
  readPointer : BitVec c.addrDepth
  writePointer : BitVec c.addrDepth
  statusCnt : BitVec (c.addrDepth + 1)
  mem : ℕ → α

structure In (α : Type) where
  flush : Bool
  push : Bool
  data : α
  pop : Bool

variable {c : Cfg} {α : Type}

section Comb

variable (s : Regs c α) (i : In α)

def full : Bool := s.statusCnt == c.fifoDepth.setWidth (c.addrDepth + 1)

def empty : Bool := s.statusCnt == 0 && !(c.fallThrough && i.push)

/-- `usage_o`. -/
def usage : BitVec c.addrDepth := s.statusCnt.setWidth c.addrDepth

/-- `data_o`. -/
def dataO : α := if c.fallThrough && s.statusCnt == 0 && i.push then i.data else s.mem s.readPointer.toNat

/-- A pointer moves on. The literal of the comparison has 32 bits. -/
def incr (p : BitVec c.addrDepth) : BitVec c.addrDepth :=
  if p.setWidth 32 = (c.fifoDepth.setWidth c.addrDepth).setWidth 32 - 1 then 0 else p + 1

/-- What is pushed in a cycle. -/
def accepted : Option α := if i.push && !full s then some i.data else none

/-- What is popped in a cycle. -/
def taken : Option α := if i.pop && !empty s i then some (dataO s i) else none

/-- An entry goes through an empty FIFO, the pointers do not change. -/
def pass : Bool := c.fallThrough && s.statusCnt == 0 && i.push && i.pop

def next : Regs c α where
  readPointer :=
    if i.flush then 0
    else if pass s i then s.readPointer
    else if i.pop && !empty s i then incr s.readPointer
    else s.readPointer
  writePointer :=
    if i.flush then 0
    else if pass s i then s.writePointer
    else if i.push && !full s then incr s.writePointer
    else s.writePointer
  statusCnt :=
    if i.flush then 0
    else if pass s i || (i.push && i.pop && !full s && !empty s i) then s.statusCnt
    else if i.pop && !empty s i then s.statusCnt - 1
    else if i.push && !full s then s.statusCnt + 1
    else s.statusCnt
  mem := if i.push && !full s then Function.update s.mem s.writePointer.toNat i.data else s.mem

end Comb

def reset (c : Cfg) (α : Type) [Inhabited α] : Regs c α := ⟨0, 0, 0, fun _ => default⟩

def machine (c : Cfg) (α : Type) [Inhabited α] : Machine (Regs c α) (In α) := ⟨(· = reset c α), next⟩

/-! ### Pointers -/

section Pointers

theorem depth_le (c : Cfg) : c.depth ≤ 2 ^ c.addrDepth := by
  unfold Cfg.addrDepth
  split
  · exact Nat.le_pow_clog (by decide) _
  · omega

theorem addrDepth_le (c : Cfg) : c.addrDepth ≤ 31 := by
  unfold Cfg.addrDepth
  split
  · exact Nat.clog_le_of_le_pow c.le
  · decide

theorem two_pow_addrDepth_le (c : Cfg) : 2 ^ c.addrDepth ≤ 2 ^ 31 :=
  Nat.pow_le_pow_right (by decide) (addrDepth_le c)

theorem toNat_fifoDepth (c : Cfg) : c.fifoDepth.toNat = c.depth := by
  have hle := c.le
  rw [Cfg.fifoDepth, BitVec.toNat_ofNat]
  exact Nat.mod_eq_of_lt (by omega)

/-- The comparison of the source, in numbers. -/
theorem incr_cond {p : BitVec c.addrDepth} :
    p.setWidth 32 = (c.fifoDepth.setWidth c.addrDepth).setWidth 32 - 1 ↔
      p.toNat + 1 = c.depth ∧ c.depth < 2 ^ c.addrDepth := by
  have hpos := c.pos
  have hle := depth_le c
  have h31 := two_pow_addrDepth_le c
  have hp := p.isLt
  rw [← BitVec.toNat_inj, BitVec.toNat_sub, BitVec.toNat_setWidth, BitVec.toNat_setWidth,
    BitVec.toNat_setWidth, toNat_fifoDepth, Nat.mod_eq_of_lt (show p.toNat < 2 ^ 32 by omega)]
  change p.toNat = (2 ^ 32 - 1 + _) % 2 ^ 32 ↔ _
  generalize 2 ^ c.addrDepth = m at hle h31 hp ⊢
  rcases Nat.lt_or_eq_of_le hle with hlt | heq
  · rw [Nat.mod_eq_of_lt hlt, Nat.mod_eq_of_lt (show c.depth < 2 ^ 32 by omega)]
    omega
  · rw [heq, Nat.mod_self]
    omega

/-- A pointer moves on around the words. -/
theorem toNat_incr {p : BitVec c.addrDepth} (h : p.toNat < c.depth) :
    (incr p).toNat = (p.toNat + 1) % c.depth := by
  have hle := depth_le c
  unfold incr
  split
  · rename_i hc
    rw [(incr_cond.1 hc).1, Nat.mod_self]
    rfl
  · rename_i hc
    rw [incr_cond, not_and_or] at hc
    have hone : (1 : BitVec c.addrDepth).toNat = 1 % 2 ^ c.addrDepth := rfl
    rw [BitVec.toNat_add, hone, Nat.add_mod_mod]
    by_cases hd : c.depth = 2 ^ c.addrDepth
    · rw [hd]
    · rw [Nat.mod_eq_of_lt (by omega), Nat.mod_eq_of_lt (by omega)]

end Pointers

/-! ### What is in it -/

section Contents

/-- `n` words from word `r` on, around a memory of `d`. -/
def words (d : ℕ) (mem : ℕ → α) (r n : ℕ) : List α := (List.range n).map fun j => mem ((r + j) % d)

theorem words_succ (d : ℕ) (mem : ℕ → α) (r n : ℕ) :
    words d mem r (n + 1) = mem (r % d) :: words d mem ((r + 1) % d) n := by
  rw [words, List.range_succ_eq_map, List.map_cons, List.map_map, words]
  refine congrArg _ (List.map_congr_left fun j _ => ?_)
  change mem ((r + (j + 1)) % d) = mem (((r + 1) % d + j) % d)
  rw [Nat.mod_add_mod, Nat.add_assoc, Nat.add_comm 1 j]

/-- A word behind the others is none of them. -/
theorem words_push {d : ℕ} {mem : ℕ → α} {r n : ℕ} (e : α) (h : n < d) :
    words d (Function.update mem ((r + n) % d) e) r (n + 1) = words d mem r n ++ [e] := by
  rw [words, List.range_succ, List.map_append, List.map_singleton, Function.update_self, words]
  refine congrArg (· ++ [e]) (List.map_congr_left fun j hj => ?_)
  rw [List.mem_range] at hj
  refine Function.update_of_ne (fun heq => ?_) _ _
  have hmod : j ≡ n [MOD d] := Nat.ModEq.add_left_cancel' r heq
  exact hj.ne (hmod.eq_of_lt_of_lt (hj.trans h) h)

/-- The pointers and the counter belong together. -/
structure Inv (s : Regs c α) : Prop where
  read_lt : s.readPointer.toNat < c.depth
  cnt_le : s.statusCnt.toNat ≤ c.depth
  write_eq : s.writePointer.toNat = (s.readPointer.toNat + s.statusCnt.toNat) % c.depth

/-- What is in the FIFO, oldest first. -/
def contents (s : Regs c α) : List α := words c.depth s.mem s.readPointer.toNat s.statusCnt.toNat

theorem length_contents (s : Regs c α) : (contents s).length = s.statusCnt.toNat := by
  rw [contents, words, List.length_map, List.length_range]

theorem full_iff {s : Regs c α} : full s = true ↔ (contents s).length = c.depth := by
  have hle := depth_le c
  have hpow : 2 ^ (c.addrDepth + 1) = 2 ^ c.addrDepth * 2 := pow_succ ..
  have hpos := c.pos
  rw [full, beq_iff_eq, ← BitVec.toNat_inj, BitVec.toNat_setWidth, toNat_fifoDepth, length_contents,
    Nat.mod_eq_of_lt (by omega)]

theorem toNat_usage (s : Regs c α) : (usage s).toNat = (contents s).length % 2 ^ c.addrDepth := by
  rw [usage, BitVec.toNat_setWidth, length_contents]

theorem cnt_zero_iff {s : Regs c α} : (s.statusCnt == 0) = true ↔ contents s = [] := by
  rw [beq_iff_eq, ← BitVec.toNat_inj, ← List.length_eq_zero_iff, length_contents]
  rfl

theorem empty_iff {s : Regs c α} {i : In α} :
    empty s i = true ↔ contents s = [] ∧ (c.fallThrough && i.push) = false := by
  rw [empty, Bool.and_eq_true, cnt_zero_iff, Bool.not_eq_true']

end Contents

/-! ### One edge -/

section Edge

/-- An entry is put behind the others. -/
def put (s : Regs c α) (e : α) : Regs c α where
  readPointer := s.readPointer
  writePointer := incr s.writePointer
  statusCnt := s.statusCnt + 1
  mem := Function.update s.mem s.writePointer.toNat e

/-- The oldest entry is dropped. -/
def drop (s : Regs c α) : Regs c α where
  readPointer := incr s.readPointer
  writePointer := s.writePointer
  statusCnt := s.statusCnt - 1
  mem := s.mem

variable {s : Regs c α} {i : In α}

theorem toNat_cnt_succ (h : s.statusCnt.toNat < c.depth) :
    (s.statusCnt + 1).toNat = s.statusCnt.toNat + 1 := by
  have hle := depth_le c
  have hpow : 2 ^ (c.addrDepth + 1) = 2 ^ c.addrDepth * 2 := pow_succ ..
  have hone : (1 : BitVec (c.addrDepth + 1)).toNat = 1 % 2 ^ (c.addrDepth + 1) := rfl
  rw [BitVec.toNat_add, hone, Nat.add_mod_mod]
  exact Nat.mod_eq_of_lt (by omega)

theorem Inv.put (hs : Inv s) (h : s.statusCnt.toNat < c.depth) (e : α) :
    Inv (put s e) ∧ contents (put s e) = contents s ++ [e] := by
  have hcnt := toNat_cnt_succ h
  refine ⟨⟨hs.read_lt, by rw [FifoV3.put, hcnt]; omega, ?_⟩, ?_⟩
  · change (incr s.writePointer).toNat = (s.readPointer.toNat + (s.statusCnt + 1).toNat) % c.depth
    rw [toNat_incr (by rw [hs.write_eq]; exact Nat.mod_lt _ c.pos), hs.write_eq, hcnt, Nat.mod_add_mod,
      Nat.add_assoc]
  · change words c.depth (Function.update s.mem s.writePointer.toNat e) s.readPointer.toNat
      (s.statusCnt + 1).toNat = _
    rw [hcnt, hs.write_eq, words_push e h]
    rfl

theorem Inv.drop (hs : Inv s) (h : contents s ≠ []) : Inv (drop s) ∧
    contents s = s.mem s.readPointer.toNat :: contents (drop s) := by
  rw [Ne, ← List.length_eq_zero_iff, length_contents] at h
  obtain ⟨n, hn⟩ := Nat.exists_eq_succ_of_ne_zero h
  have hle := hs.cnt_le
  have hrd := toNat_incr hs.read_lt
  have hcnt : (s.statusCnt - 1).toNat = n := by
    have hlt := s.statusCnt.isLt
    have hpow : 1 < 2 ^ (c.addrDepth + 1) := Nat.one_lt_two_pow (Nat.succ_ne_zero _)
    have hone : (1 : BitVec (c.addrDepth + 1)).toNat = 1 := Nat.mod_eq_of_lt hpow
    rw [BitVec.toNat_sub_of_le (BitVec.le_def.2 (by omega)), hone, hn, Nat.succ_sub_one]
  refine ⟨⟨?_, by rw [FifoV3.drop, hcnt]; omega, ?_⟩, ?_⟩
  · rw [FifoV3.drop, hrd]
    exact Nat.mod_lt _ c.pos
  · change s.writePointer.toNat = ((incr s.readPointer).toNat + (s.statusCnt - 1).toNat) % c.depth
    rw [hs.write_eq, hrd, hcnt, hn, Nat.mod_add_mod, Nat.succ_eq_add_one, Nat.add_assoc, Nat.add_comm 1 n]
  · change words _ _ _ _ = _ :: words c.depth s.mem (incr s.readPointer).toNat (s.statusCnt - 1).toNat
    rw [hn, words_succ, Nat.mod_eq_of_lt hs.read_lt, hrd, hcnt]

/-- An edge without a flush that nothing passes puts and drops. -/
theorem next_eq (hf : i.flush = false) (hp : pass s i = false) : next s i =
    (if i.pop && !empty s i then drop else id)
      ((if i.push && !full s then fun s => put s i.data else id) s) := by
  unfold next
  rw [hf, hp]
  generalize empty s i = e
  generalize full s = f
  cases i.push <;> cases i.pop <;> cases e <;> cases f <;> simp [put, drop]

theorem accepted_toList : (accepted s i).toList = if i.push && !full s then [i.data] else [] := by
  unfold accepted
  split <;> rfl

/-- What passes goes through an empty FIFO that is not full. -/
theorem pass_spec (h : pass s i = true) : contents s = [] ∧ (i.push && !full s) = true ∧
    (i.pop && !empty s i) = true := by
  simp only [pass, Bool.and_eq_true] at h
  obtain ⟨⟨⟨hft, hcnt⟩, hpush⟩, hpop⟩ := h
  have hnil := cnt_zero_iff.1 hcnt
  have hpos := c.pos
  have hfull : full s = false := by
    rw [Bool.eq_false_iff, Ne, full_iff, hnil, List.length_nil]
    omega
  have hempty : empty s i = false := by
    rw [Bool.eq_false_iff, Ne, empty_iff, hft, hpush]
    simp
  exact ⟨hnil, by rw [hpush, hfull]; rfl, by rw [hpop, hempty]; rfl⟩

/-- What is popped without passing is in the FIFO. -/
theorem contents_ne_nil (hp : pass s i = false) (h : (i.pop && !empty s i) = true) : contents s ≠ [] := by
  intro hnil
  rw [Bool.and_eq_true, Bool.not_eq_true', Bool.eq_false_iff, Ne, empty_iff, not_and, Bool.not_eq_false] at h
  have hft := h.2 hnil
  rw [Bool.and_eq_true] at hft
  have hcnt := cnt_zero_iff.2 hnil
  rw [pass, hft.1, hft.2, hcnt, h.1] at hp
  exact Bool.false_ne_true hp.symm

theorem Inv.next (hs : Inv s) : Inv (next s i) ∧ contents (next s i) =
    if i.flush then []
    else if i.pop && !empty s i then (contents s ++ (accepted s i).toList).tail
    else contents s ++ (accepted s i).toList := by
  cases hf : i.flush with
  | true =>
    rw [FifoV3.next, hf]
    exact ⟨⟨c.pos, Nat.zero_le _, (Nat.zero_mod _).symm⟩, rfl⟩
  | false =>
    rw [if_neg Bool.false_ne_true, accepted_toList]
    cases hp : pass s i with
    | true =>
      obtain ⟨hnil, hpush, hpop⟩ := pass_spec hp
      have hzero : s.statusCnt.toNat = 0 := by rw [← length_contents, hnil, List.length_nil]
      rw [hpush, hpop, hnil, FifoV3.next, hf, hp]
      refine ⟨⟨hs.read_lt, hs.cnt_le, hs.write_eq⟩, ?_⟩
      change contents _ = []
      rw [← List.length_eq_zero_iff, length_contents]
      exact hzero
    | false =>
      rw [next_eq hf hp]
      have hput (h : (i.push && !full s) = true) := by
        rw [Bool.and_eq_true, Bool.not_eq_true', Bool.eq_false_iff, Ne, full_iff, length_contents] at h
        exact hs.put (lt_of_le_of_ne hs.cnt_le h.2) i.data
      by_cases hpop : (i.pop && !empty s i) = true
      · have hne := contents_ne_nil hp hpop
        rw [if_pos hpop, if_pos hpop]
        by_cases hpush : (i.push && !full s) = true
        · obtain ⟨hinv, hc⟩ := hput hpush
          obtain ⟨hinv', hc'⟩ := hinv.drop (by rw [hc]; simp)
          rw [if_pos hpush, if_pos hpush]
          refine ⟨hinv', ?_⟩
          rw [← hc, hc', List.tail_cons]
        · obtain ⟨hinv, hc⟩ := hs.drop hne
          rw [if_neg hpush, if_neg hpush, List.append_nil, hc, List.tail_cons]
          exact ⟨hinv, rfl⟩
      · rw [if_neg hpop, if_neg hpop]
        by_cases hpush : (i.push && !full s) = true
        · rw [if_pos hpush, if_pos hpush]
          exact hput hpush
        · rw [if_neg hpush, if_neg hpush, List.append_nil]
          exact ⟨hs, rfl⟩

/-- The output of a FIFO that does not show empty is the oldest entry, or the one that passes. -/
theorem head_eq (hs : Inv s) (h : empty s i = false) :
    (contents s ++ (accepted s i).toList).head? = some (dataO s i) := by
  unfold dataO
  by_cases hnil : contents s = []
  · have hcnt := cnt_zero_iff.2 hnil
    rw [Bool.eq_false_iff, Ne, empty_iff, not_and, Bool.not_eq_false, Bool.and_eq_true] at h
    obtain ⟨hft, hpush⟩ := h hnil
    have hpos := c.pos
    have hfull : full s = false := by
      rw [Bool.eq_false_iff, Ne, full_iff, hnil, List.length_nil]
      omega
    rw [hnil, accepted_toList, hpush, hfull, hft, hcnt]
    rfl
  · obtain ⟨-, hc⟩ := hs.drop hnil
    have hcnt : (s.statusCnt == 0) = false := Bool.eq_false_iff.2 (mt cnt_zero_iff.1 hnil)
    rw [hc, hcnt, Bool.and_false, Bool.false_and, if_neg Bool.false_ne_true]
    rfl

/-- Without a flush what is in the FIFO and goes in is what comes out and what is left. -/
theorem edge_law (hs : Inv s) (hf : i.flush = false) :
    (taken s i).toList ++ contents (next s i) = contents s ++ (accepted s i).toList := by
  rw [hs.next.2, hf, if_neg Bool.false_ne_true, taken]
  by_cases hpop : (i.pop && !empty s i) = true
  · rw [Bool.and_eq_true, Bool.not_eq_true'] at hpop
    have hhead := head_eq hs hpop.2
    rw [hpop.1, hpop.2]
    exact List.cons_head?_tail hhead
  · rw [if_neg hpop, if_neg hpop]
    rfl

/-- An edge with a flush drops what is left. -/
theorem edge_sublist (hs : Inv s) :
    ((taken s i).toList ++ contents (next s i)).Sublist (contents s ++ (accepted s i).toList) := by
  cases hf : i.flush with
  | false => rw [edge_law hs hf]
  | true =>
    rw [hs.next.2, hf, if_pos rfl, List.append_nil, taken]
    split
    · rename_i hpop
      rw [Bool.and_eq_true, Bool.not_eq_true'] at hpop
      have hhead := head_eq hs hpop.2
      rw [← List.cons_head?_tail hhead]
      exact (List.nil_sublist _).cons_cons _
    · exact List.nil_sublist _

end Edge

/-! ### Runs -/

section Runs

/-- What goes in over a run. -/
def goesIn : Regs c α → List (In α) → List α
  | _, [] => []
  | s, i :: is => (accepted s i).toList ++ goesIn (next s i) is

/-- What comes out over a run. -/
def comesOut : Regs c α → List (In α) → List α
  | _, [] => []
  | s, i :: is => (taken s i).toList ++ comesOut (next s i) is

variable [Inhabited α]

/-- The state after a run from reset. -/
def after (c : Cfg) (is : List (In α)) : Regs c α := (machine c α).run (reset c α) is

theorem inv_reset : Inv (reset c α) := ⟨c.pos, Nat.zero_le _, (Nat.zero_mod _).symm⟩

theorem run_inv : ∀ (is : List (In α)) (s : Regs c α), Inv s → Inv ((machine c α).run s is)
  | [], _, hs => hs
  | _ :: is, _, hs => run_inv is _ hs.next.1

/-- Over a run without a flush nothing is lost. -/
theorem run_law : ∀ (is : List (In α)) (s : Regs c α), Inv s → (∀ i ∈ is, i.flush = false) →
    comesOut s is ++ contents ((machine c α).run s is) = contents s ++ goesIn s is
  | [], s, _, _ => by rw [comesOut, goesIn, List.nil_append, List.append_nil]; rfl
  | i :: is, s, hs, hf => by
    have ih := run_law is _ (@Inv.next c α s i hs).1 fun j hj => hf j (List.mem_cons_of_mem _ hj)
    have hedge := edge_law hs (hf i List.mem_cons_self)
    calc
      comesOut s (i :: is) ++ contents ((machine c α).run s (i :: is))
          = (taken s i).toList ++ (comesOut (next s i) is ++ contents ((machine c α).run (next s i) is)) :=
        List.append_assoc ..
      _ = (taken s i).toList ++ contents (next s i) ++ goesIn (next s i) is := by
        rw [ih, List.append_assoc]
      _ = contents s ++ goesIn s (i :: is) := by rw [hedge, List.append_assoc, goesIn]

/-- Over any run nothing comes out twice, out of order or without having gone in. -/
theorem run_sublist : ∀ (is : List (In α)) (s : Regs c α), Inv s →
    (comesOut s is ++ contents ((machine c α).run s is)).Sublist (contents s ++ goesIn s is)
  | [], s, _ => by rw [comesOut, goesIn, List.nil_append, List.append_nil]; rfl
  | i :: is, s, hs => by
    have ih := run_sublist is _ (@Inv.next c α s i hs).1
    rw [comesOut, goesIn, List.append_assoc, ← List.append_assoc (contents s)]
    refine (ih.append_left _).trans ?_
    rw [← List.append_assoc]
    exact (edge_sublist hs).append_right _

/-- After any run from reset the FIFO shows whether it is full or empty, the low bits of how much it holds
and, where it does not show empty, the oldest entry or the one that passes. What comes out and what is left
went in, in this order, and that is all that went in if nothing was flushed. -/
theorem fifo_law (c : Cfg) (is : List (In α)) :
    (∀ i : In α,
      (full (after c is) = true ↔ (contents (after c is)).length = c.depth) ∧
      (empty (after c is) i = true ↔ contents (after c is) = [] ∧ (c.fallThrough && i.push) = false) ∧
      (empty (after c is) i = false →
        (contents (after c is) ++ (accepted (after c is) i).toList).head? = some (dataO (after c is) i))) ∧
    (usage (after c is)).toNat = (contents (after c is)).length % 2 ^ c.addrDepth ∧
    (contents (after c is)).length ≤ c.depth ∧
    (comesOut (reset c α) is ++ contents (after c is)).Sublist (goesIn (reset c α) is) ∧
    ((∀ i ∈ is, i.flush = false) →
      comesOut (reset c α) is ++ contents (after c is) = goesIn (reset c α) is) := by
  have hinv : Inv (after c is) := run_inv is _ inv_reset
  refine ⟨fun i => ⟨full_iff, empty_iff, head_eq hinv⟩, toNat_usage _, ?_, run_sublist is _ inv_reset,
    run_law is _ inv_reset⟩
  rw [length_contents]
  exact hinv.cnt_le

end Runs

/-! ### The FIFO of the library -/

/-- One with a power of two of words and without fall-through keeps to the FIFO of the library. -/
theorem library_next {w : ℕ} {s : Regs c α} {f : Fifo w α} {i : In α} (hs : Inv s)
    (hd : c.depth = 2 ^ w) (hft : c.fallThrough = false) (hc : contents s = f.contents) :
    contents (next s i) = (f.next i.flush (if i.push then some i.data else none) i.pop).contents ∧
      full s = f.full ∧ empty s i = f.empty := by
  have hfull : full s = f.full := by
    rw [Bool.eq_iff_iff, full_iff, Fifo.full_iff, hc, hd]
  have hempty : empty s i = f.empty := by
    rw [Bool.eq_iff_iff, empty_iff, Fifo.empty_iff, hc, hft]
    simp
  refine ⟨?_, hfull, hempty⟩
  rw [hs.next.2, Fifo.contents_next, accepted_toList, hfull, hempty, hc]
  cases he : f.empty with
  | true =>
    rw [Fifo.empty_iff.1 he]
    cases i.flush <;> cases i.push <;> cases i.pop <;> cases f.full <;> rfl
  | false =>
    obtain ⟨l, hl⟩ := Fifo.contents_eq_cons he
    rw [hl]
    cases i.flush <;> cases i.push <;> cases i.pop <;> cases f.full <;> rfl

end FifoV3
end Ariane

/-
# A FIFO in a ring

A memory of `2 ^ w` slots with a pointer to read at, one to write at and a count, none of which
can be at odds with the others. A push into a full FIFO and a pop from an empty one do nothing,
and which it is is decided before the edge. What is in the FIFO is a list (`contents`), an edge
takes its head and appends to it (`contents_next`). The output of an empty FIFO is an old slot.

The library also deals a list out to two FIFOs in turn (`evens`, `odds`).
-/
import Ariane.Lib.Ring
import Mathlib.Tactic.Common

namespace Ariane
namespace Lib

/-- The registers of a FIFO. -/
structure Fifo (w : ℕ) (α : Type) where
  mem : BitVec w → α
  read : BitVec w
  write : BitVec w
  cnt : ℕ
  write_eq : write = read + BitVec.ofNat w cnt
  cnt_le : cnt ≤ 2 ^ w

namespace Fifo

variable {w : ℕ} {α : Type}

def full (f : Fifo w α) : Bool := f.cnt == 2 ^ w

def empty (f : Fifo w α) : Bool := f.cnt == 0

/-- The output. -/
def out (f : Fifo w α) : α := f.mem f.read

def reset (e : α) : Fifo w α := ⟨fun _ => e, 0, 0, 0, by simp, Nat.zero_le _⟩

/-- An entry is put behind the others. -/
def push (f : Fifo w α) (e : α) (h : f.full = false) : Fifo w α where
  mem := Function.update f.mem f.write e
  read := f.read
  write := f.write + 1
  cnt := f.cnt + 1
  write_eq := by
    rw [f.write_eq, BitVec.ofNat_add, BitVec.add_assoc]
    rfl
  cnt_le := by
    have hle := f.cnt_le
    have hne : f.cnt ≠ 2 ^ w := by simpa [full] using h
    omega

/-- The oldest entry is dropped. -/
def drop (f : Fifo w α) (h : f.empty = false) : Fifo w α where
  mem := f.mem
  read := f.read + 1
  write := f.write
  cnt := f.cnt - 1
  write_eq := by
    have hpos : f.cnt ≠ 0 := by simpa [empty] using h
    rw [f.write_eq, ← Ring.slot_succ, Nat.sub_add_cancel (Nat.one_le_iff_ne_zero.2 hpos)]
  cnt_le := (Nat.sub_le _ _).trans f.cnt_le

/-- The entries go, the memory stays. -/
def clear (f : Fifo w α) : Fifo w α := ⟨f.mem, 0, 0, 0, by simp, Nat.zero_le _⟩

def pushIf (f : Fifo w α) (e : Option α) : Fifo w α :=
  match e with
  | none => f
  | some x => if h : f.full = false then f.push x h else f

def dropIf (f : Fifo w α) (b : Bool) : Fifo w α :=
  if h : f.empty = false then if b then f.drop h else f else f

/-- The FIFO after a clock edge. -/
def next (f : Fifo w α) (flush : Bool) (e : Option α) (pop : Bool) : Fifo w α :=
  let g := (f.pushIf e).dropIf (pop && !f.empty)
  if flush then g.clear else g

/-- What is in the FIFO, oldest first. -/
def contents (f : Fifo w α) : List α := Ring.contents f.mem f.read f.cnt

@[simp] theorem length_contents (f : Fifo w α) : f.contents.length = f.cnt := Ring.length_contents _ _ _

theorem full_iff {f : Fifo w α} : f.full = true ↔ f.contents.length = 2 ^ w := by simp [full]

theorem empty_iff {f : Fifo w α} : f.empty = true ↔ f.contents = [] := by
  rw [← List.length_eq_zero_iff, length_contents]
  simp [empty]

theorem contents_eq_cons {f : Fifo w α} (h : f.empty = false) : ∃ l, f.contents = f.out :: l := by
  have hpos : f.cnt ≠ 0 := by simpa [empty] using h
  obtain ⟨n, hn⟩ := Nat.exists_eq_succ_of_ne_zero hpos
  exact ⟨_, by rw [contents, hn, Ring.contents_succ]; rfl⟩

theorem out_of_contents {f : Fifo w α} {x : α} {l : List α} (h : f.contents = x :: l) : f.out = x := by
  have he : f.empty = false := by
    rw [Bool.eq_false_iff, Ne, empty_iff, h]
    exact List.cons_ne_nil x l
  obtain ⟨k, hk⟩ := contents_eq_cons he
  exact (List.cons.inj (hk.symm.trans h)).1

theorem contents_push (f : Fifo w α) (e : α) (h : f.full = false) :
    (f.push e h).contents = f.contents ++ [e] := by
  have hle := f.cnt_le
  have hne : f.cnt ≠ 2 ^ w := by simpa [full] using h
  show Ring.contents (Function.update f.mem f.write e) f.read (f.cnt + 1) = _
  rw [f.write_eq, Ring.contents_push (by omega)]
  rfl

theorem contents_drop (f : Fifo w α) (h : f.empty = false) : (f.drop h).contents = f.contents.tail := by
  have hpos : f.cnt ≠ 0 := by simpa [empty] using h
  obtain ⟨n, hn⟩ := Nat.exists_eq_succ_of_ne_zero hpos
  show Ring.contents f.mem (f.read + 1) (f.cnt - 1) = (Ring.contents f.mem f.read f.cnt).tail
  rw [hn, Ring.contents_succ]
  rfl

theorem contents_pushIf (f : Fifo w α) (e : Option α) :
    (f.pushIf e).contents = f.contents ++ if f.full then [] else e.toList := by
  unfold pushIf
  cases e with
  | none => simp
  | some x =>
    dsimp only
    by_cases h : f.full = false
    · rw [dif_pos h, contents_push]
      simp [h]
    · rw [dif_neg h]
      simp [Bool.eq_true_of_not_eq_false h]

theorem contents_dropIf (f : Fifo w α) (b : Bool) :
    (f.dropIf b).contents = if b then f.contents.tail else f.contents := by
  unfold dropIf
  by_cases h : f.empty = false
  · rw [dif_pos h]
    split
    · exact contents_drop f h
    · rfl
  · rw [dif_neg h, empty_iff.1 (Bool.eq_true_of_not_eq_false h)]
    split <;> rfl

/-- An edge takes the head and appends at the end. -/
theorem contents_next (f : Fifo w α) (flush : Bool) (e : Option α) (pop : Bool) :
    (f.next flush e pop).contents =
      if flush then []
      else (if pop then f.contents.tail else f.contents) ++ if f.full then [] else e.toList := by
  unfold next
  cases flush with
  | true => rfl
  | false =>
    simp only [Bool.false_eq_true, if_false, contents_dropIf, contents_pushIf]
    cases hf : f.empty with
    | true => simp [empty_iff.1 hf]
    | false =>
      obtain ⟨l, hl⟩ := contents_eq_cons hf
      cases pop <;> simp [hl]

@[simp] theorem contents_reset (e : α) : (reset e : Fifo w α).contents = [] := rfl

end Fifo

/-! ### Two FIFOs in turn -/

section Deal

variable {α : Type}

/-- Every second entry, from the first one on. -/
def evens : List α → List α
  | [] => []
  | [x] => [x]
  | x :: _ :: l => x :: evens l

/-- Every second entry, from the second one on. -/
def odds (l : List α) : List α := evens l.tail

@[simp] theorem evens_cons (x : α) (l : List α) : evens (x :: l) = x :: odds l := by
  cases l <;> rfl

@[simp] theorem odds_cons (x : α) (l : List α) : odds (x :: l) = evens l := rfl

@[simp] theorem evens_nil : evens ([] : List α) = [] := rfl

@[simp] theorem odds_nil : odds ([] : List α) = [] := rfl

theorem length_deal (l : List α) : (evens l).length = (l.length + 1) / 2 ∧ (odds l).length = l.length / 2 := by
  induction l with
  | nil => simp
  | cons x l ih =>
    rw [evens_cons, odds_cons, List.length_cons, List.length_cons, ih.1, ih.2]
    omega

/-- An entry at the end goes to the one that has had its turn. -/
theorem deal_append (l : List α) (x : α) :
    (l.length % 2 = 0 → evens (l ++ [x]) = evens l ++ [x] ∧ odds (l ++ [x]) = odds l) ∧
      (l.length % 2 = 1 → evens (l ++ [x]) = evens l ∧ odds (l ++ [x]) = odds l ++ [x]) := by
  induction l with
  | nil => exact ⟨fun _ => ⟨rfl, rfl⟩, nofun⟩
  | cons y l ih =>
    rw [List.cons_append, List.length_cons, evens_cons, evens_cons, odds_cons, odds_cons]
    refine ⟨fun h => ?_, fun h => ?_⟩
    · obtain ⟨he, ho⟩ := ih.2 (by omega)
      exact ⟨by rw [ho]; rfl, he⟩
    · obtain ⟨he, ho⟩ := ih.1 (by omega)
      exact ⟨by rw [ho], he⟩

/-- The list `l` is dealt out to two places, from the place `r` on. -/
structure Dealt (c : Fin 2 → List α) (r : Fin 2) (l : List α) : Prop where
  first : c r = evens l
  second : c (r + 1) = odds l

/-- The place of entry `n`. -/
def place (r : Fin 2) (n : ℕ) : Fin 2 := ⟨(r.val + n) % 2, Nat.mod_lt _ (by decide)⟩

theorem place_succ (r : Fin 2) (n : ℕ) : place (r + 1) n = place r (n + 1) ∧ place r (n + 1) = place r n + 1 := by
  constructor
  · apply Fin.ext
    simp only [place, Fin.val_add]
    omega
  · apply Fin.ext
    simp only [place, Fin.val_add]
    omega

theorem place_of_even (r : Fin 2) {n : ℕ} (h : n % 2 = 0) : place r n = r := by
  apply Fin.ext
  have hr := r.isLt
  simp only [place]
  omega

theorem place_of_odd (r : Fin 2) {n : ℕ} (h : n % 2 = 1) : place r n = r + 1 := by
  apply Fin.ext
  simp only [place, Fin.val_add]
  omega

theorem succ_ne_self : ∀ r : Fin 2, r + 1 ≠ r := by decide

theorem succ_succ : ∀ r : Fin 2, r + 1 + 1 = r := by decide

/-- The first entry is taken. -/
theorem Dealt.tail {c : Fin 2 → List α} {r : Fin 2} {x : α} {l : List α} (h : Dealt c r (x :: l)) :
    Dealt (Function.update c r (c r).tail) (r + 1) l := by
  refine ⟨?_, ?_⟩
  · rw [Function.update_of_ne (succ_ne_self r)]
    exact h.second
  · rw [succ_succ, Function.update_self, h.first, evens_cons]
    rfl

/-- An entry is appended at its place. -/
theorem Dealt.append {c : Fin 2 → List α} {r : Fin 2} {l : List α} (h : Dealt c r l) (x : α) :
    Dealt (Function.update c (place r l.length) (c (place r l.length) ++ [x])) r (l ++ [x]) := by
  have hd := deal_append l x
  rcases Nat.mod_two_eq_zero_or_one l.length with h0 | h1
  · rw [place_of_even r h0]
    refine ⟨?_, ?_⟩
    · rw [Function.update_self, h.first, (hd.1 h0).1]
    · rw [Function.update_of_ne (succ_ne_self r), h.second, (hd.1 h0).2]
  · rw [place_of_odd r h1]
    refine ⟨?_, ?_⟩
    · rw [Function.update_of_ne (succ_ne_self r).symm, h.first, (hd.2 h1).1]
    · rw [Function.update_self, h.second, (hd.2 h1).2]

/-- The place of the next entry has at most as many as the other one. -/
theorem Dealt.length_place_le {c : Fin 2 → List α} {r : Fin 2} {l : List α} (h : Dealt c r l) :
    (c (place r l.length)).length ≤ (c (place r l.length + 1)).length := by
  have hl := length_deal l
  rcases Nat.mod_two_eq_zero_or_one l.length with h0 | h1
  · rw [place_of_even r h0, h.first, h.second]
    omega
  · rw [place_of_odd r h1, succ_succ, h.first, h.second]
    omega

end Deal

end Lib
end Ariane

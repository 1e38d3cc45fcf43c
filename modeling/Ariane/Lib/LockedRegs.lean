/-
# Register blocks behind lock bits

A register block on a bus has a row for each word it decodes. A write row says
which register takes which field of the written word, and which lock bit keeps it
from doing so; a read row says which register or wire is shown, and which lock bit
hides it.

* `write_apply_of_locked`: a register whose rows for the word are locked keeps its value;
* `write_of_locked`: when every row is locked, a write changes nothing;
* `write_apply_of_row`: a row that is not locked takes its field of the word;
* `read_of_locked`: when every row is locked, a read is zero.
-/
import Mathlib.Data.BitVec
import Mathlib.Logic.Function.Basic
import Ariane.Lib.Sizes

namespace Ariane
namespace Lib

variable {ρ ω : Type} {width : ρ → ℕ}

/-- The contents of the registers, each of its own width. -/
abbrev File (width : ρ → ℕ) : Type := (r : ρ) → BitVec (width r)

/-- A write to word `index` puts the bits from `lo` on into `reg`, unless lock bit
`lock` is set. -/
structure WriteRow (ρ : Type) where
  index : ℕ
  reg : ρ
  lock : ℕ
  lo : ℕ
deriving DecidableEq

/-- What a read shows: a register, or a wire of the block. -/
inductive Src (ρ ω : Type)
  | reg (r : ρ)
  | wire (w : ω)
deriving DecidableEq

/-- A read of word `index` shows `src`, unless lock bit `lock` is set. -/
structure ReadRow (ρ ω : Type) where
  index : ℕ
  src : Src ρ ω
  lock : ℕ

def Src.val (m : File width) (wires : ω → BitVec 32) : Src ρ ω → BitVec 32
  | reg r => (m r).setWidth 32
  | wire w => wires w

/-- The word a read returns, and zero where there is no row. -/
def readAt (rows : List (ReadRow ρ ω)) (locked : ℕ → Bool) (m : File width) (wires : ω → BitVec 32)
    (index : ℕ) : BitVec 32 :=
  match rows.find? (·.index = index) with
  | some row => if locked row.lock then 0 else row.src.val m wires
  | none => 0

theorem read_of_locked {rows : List (ReadRow ρ ω)} {locked : ℕ → Bool}
    (h : ∀ row ∈ rows, locked row.lock = true) (m : File width) (wires : ω → BitVec 32) (index : ℕ) :
    readAt rows locked m wires index = 0 := by
  unfold readAt
  cases hf : rows.find? (·.index = index) with
  | none => rfl
  | some row =>
    have hrow := h row (List.mem_of_find?_eq_some hf)
    simp [hrow]

/-- A read depends on the registers its rows show. -/
theorem readAt_congr {rows : List (ReadRow ρ ω)} {m m' : File width}
    (h : ∀ row ∈ rows, ∀ r, row.src = .reg r → m r = m' r) (locked : ℕ → Bool) (wires : ω → BitVec 32)
    (index : ℕ) : readAt rows locked m wires index = readAt rows locked m' wires index := by
  unfold readAt
  cases hf : rows.find? (·.index = index) with
  | none => rfl
  | some row =>
    have hsrc : row.src.val m wires = row.src.val m' wires := by
      cases hr : row.src with
      | reg r => simp only [Src.val, h row (List.mem_of_find?_eq_some hf) r hr]
      | wire w => rfl
    simp only [hsrc]

variable [DecidableEq ρ]

/-- The assignment of a row. -/
def WriteRow.apply (row : WriteRow ρ) (locked : ℕ → Bool) (w : BitVec 32) (m : File width) :
    File width :=
  if locked row.lock then m else Function.update m row.reg (w.extractLsb' row.lo _)

/-- The registers after the assignments of `rows`. -/
def applyRows (locked : ℕ → Bool) (w : BitVec 32) (m : File width) (rows : List (WriteRow ρ)) :
    File width := rows.foldl (fun m row => row.apply locked w m) m

/-- The registers after a write of `w` to word `index`. -/
def writeAt (rows : List (WriteRow ρ)) (locked : ℕ → Bool) (m : File width) (index : ℕ)
    (w : BitVec 32) : File width := applyRows locked w m (rows.filter (·.index = index))

theorem applyRows_of_locked (locked : ℕ → Bool) (w : BitVec 32) (r : ρ) :
    ∀ (rows : List (WriteRow ρ)) (m : File width),
      (∀ row ∈ rows, row.reg = r → locked row.lock = true) → applyRows locked w m rows r = m r
  | [], _, _ => rfl
  | row :: rows, m, h => by
    have hrow : row.apply locked w m r = m r := by
      by_cases hr : row.reg = r
      · rw [WriteRow.apply, if_pos (h row List.mem_cons_self hr)]
      · unfold WriteRow.apply
        split
        · rfl
        · exact Function.update_of_ne (Ne.symm hr) _ _
    have hrows : ∀ row' ∈ rows, row'.reg = r → locked row'.lock = true :=
      fun row' h' => h row' (List.mem_cons_of_mem row h')
    calc applyRows locked w m (row :: rows) r
        = applyRows locked w (row.apply locked w m) rows r := rfl
      _ = row.apply locked w m r := applyRows_of_locked locked w r rows _ hrows
      _ = m r := hrow

theorem write_apply_of_locked {rows : List (WriteRow ρ)} {locked : ℕ → Bool} {index : ℕ} {r : ρ}
    (h : ∀ row ∈ rows, row.index = index → row.reg = r → locked row.lock = true) (m : File width)
    (w : BitVec 32) : writeAt rows locked m index w r = m r := by
  apply applyRows_of_locked
  intro row hrow
  obtain ⟨hmem, hidx⟩ := List.mem_filter.1 hrow
  exact h row hmem (of_decide_eq_true hidx)

/-- What a write leaves in a register depends on that register. -/
theorem applyRows_congr (locked : ℕ → Bool) (w : BitVec 32) (r : ρ) :
    ∀ (rows : List (WriteRow ρ)) (m m' : File width), m r = m' r →
      applyRows locked w m rows r = applyRows locked w m' rows r
  | [], _, _, h => h
  | row :: rows, m, m', h => by
    have hrow : row.apply locked w m r = row.apply locked w m' r := by
      unfold WriteRow.apply
      split
      · exact h
      · by_cases hr : r = row.reg
        · subst hr
          rw [Function.update_self, Function.update_self]
        · rw [Function.update_of_ne hr, Function.update_of_ne hr, h]
    exact applyRows_congr locked w r rows _ _ hrow

theorem writeAt_congr (rows : List (WriteRow ρ)) (locked : ℕ → Bool) {m m' : File width} (index : ℕ)
    (w : BitVec 32) {r : ρ} (h : m r = m' r) :
    writeAt rows locked m index w r = writeAt rows locked m' index w r :=
  applyRows_congr locked w r _ m m' h

theorem write_of_locked {rows : List (WriteRow ρ)} {locked : ℕ → Bool}
    (h : ∀ row ∈ rows, locked row.lock = true) (m : File width) (index : ℕ) (w : BitVec 32) :
    writeAt rows locked m index w = m := by
  funext r
  exact write_apply_of_locked (fun row hrow _ _ => h row hrow) m w

/-- The one row for the word is not locked. -/
theorem write_apply_of_row {rows : List (WriteRow ρ)} {locked : ℕ → Bool} {index : ℕ} {row : WriteRow ρ}
    (hrow : rows.filter (·.index = index) = [row]) (h : locked row.lock = false) (m : File width)
    (w : BitVec 32) : writeAt rows locked m index w row.reg = w.extractLsb' row.lo _ := by
  have happly : row.apply locked w m = Function.update m row.reg (w.extractLsb' row.lo _) := by
    simp [WriteRow.apply, h]
  rw [writeAt, hrow]
  show row.apply locked w m row.reg = _
  rw [happly, Function.update_self]

end Lib
end Ariane

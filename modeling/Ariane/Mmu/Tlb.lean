/-
# The translation look-aside buffers

`src/tlb.sv`: the lookup, which compares all the entries at once, the flush, which
depends on the ASID of the lookup and not on the instruction that asks for it, and the
tree that chooses the entry to replace.
-/
import Mathlib.Data.Nat.Log
import Mathlib.Data.List.FinRange
import Ariane.Lib.Bits
import Ariane.Mmu.Ptw

namespace Ariane
namespace Tlb

open Ptw (TlbUpdate)

variable {n N : ℕ}

/-! ### The module -/

/-- An element of `tags_q`. -/
structure Tag (n : ℕ) where
  asid : BitVec n
  vpn2 : BitVec 9
  vpn1 : BitVec 9
  vpn0 : BitVec 9
  is2M : Bool
  is1G : Bool
  valid : Bool
deriving DecidableEq, Repr

structure Regs (n N : ℕ) where
  tags : Fin N → Tag n
  content : Fin N → BitVec 64
  plruTree : ℕ → Bool

def reset : Regs n N := ⟨fun _ => ⟨0, 0, 0, 0, false, false, false⟩, fun _ => 0, fun _ => false⟩

structure In (n : ℕ) where
  flush : Bool
  update : Option (TlbUpdate n)
  luAccess : Bool
  luAsid : BitVec n
  luVaddr : BitVec 64

/-- The tag of an entry matches the address under the ASID. -/
def Tag.hit (t : Tag n) (asid : BitVec n) (va : BitVec 64) : Bool :=
  t.valid && asid == t.asid && va.extractLsb' 30 9 == t.vpn2 &&
    (t.is1G || va.extractLsb' 21 9 == t.vpn1 && (t.is2M || va.extractLsb' 12 9 == t.vpn0))

/-- `lu_content_o`, `lu_is_2M_o`, `lu_is_1G_o` and `lu_hit_o`. -/
structure Lookup where
  content : BitVec 64
  is2M : Bool
  is1G : Bool
  hit : Bool
deriving DecidableEq, Repr

/-- What one entry does to the outputs. -/
def Lookup.step (s : Regs n N) (asid : BitVec n) (va : BitVec 64) (l : Lookup) (k : Fin N) : Lookup :=
  if (s.tags k).hit asid va then
    if (s.tags k).is1G then { l with is1G := true, content := s.content k, hit := true }
    else { l with is2M := (s.tags k).is2M, content := s.content k, hit := true }
  else l

/-- The process `translation`. -/
def translation (s : Regs n N) (asid : BitVec n) (va : BitVec 64) : Lookup :=
  (List.finRange N).foldl (Lookup.step s asid va) ⟨0, false, false, false⟩

/-- The node of the tree above the entry `i` on level `lvl`. -/
def plruNode (N lvl i : ℕ) : ℕ := 2 ^ lvl - 1 + i >>> (Nat.clog 2 N - lvl)

/-- The way from that node to the entry. -/
def plruBit (N lvl i : ℕ) : Bool := i.testBit (Nat.clog 2 N - lvl - 1)

/-- The nodes above an entry that was hit point away from it. -/
def plruTouch (N : ℕ) (tree : ℕ → Bool) (i : ℕ) : ℕ → Bool :=
  (List.range (Nat.clog 2 N)).foldl
    (fun tree lvl nd => if nd = plruNode N lvl i then !plruBit N lvl i else tree nd) tree

/-- `plru_tree_n`. -/
def plruNext (s : Regs n N) (i : In n) : ℕ → Bool :=
  (List.finRange N).foldl
    (fun tree k => if (s.tags k).hit i.luAsid i.luVaddr && i.luAccess then plruTouch N tree k else tree)
    s.plruTree

/-- `replace_en`. -/
def replaceEn (s : Regs n N) (k : Fin N) : Bool :=
  (List.range (Nat.clog 2 N)).all fun lvl => s.plruTree (plruNode N lvl k) == plruBit N lvl k

/-- The tag of an update. -/
def tagOf (u : TlbUpdate n) : Tag n where
  asid := u.asid
  vpn2 := u.vpn.extractLsb' 18 9
  vpn1 := u.vpn.extractLsb' 9 9
  vpn0 := u.vpn.extractLsb' 0 9
  is2M := u.is2M
  is1G := u.is1G
  valid := true

/-- `tags_n`: a flush takes everything if the ASID of the lookup is 0, and the entries of
that ASID if not. -/
def nextTag (s : Regs n N) (i : In n) (k : Fin N) : Tag n :=
  if i.flush then
    if i.luAsid = 0 then { s.tags k with valid := false }
    else if i.luAsid = (s.tags k).asid then { s.tags k with valid := false }
    else s.tags k
  else
    match i.update with
    | some u => if replaceEn s k then tagOf u else s.tags k
    | none => s.tags k

def nextContent (s : Regs n N) (i : In n) (k : Fin N) : BitVec 64 :=
  if i.flush then s.content k
  else
    match i.update with
    | some u => if replaceEn s k then u.content else s.content k
    | none => s.content k

def next (s : Regs n N) (i : In n) : Regs n N where
  tags := nextTag s i
  content := nextContent s i
  plruTree := plruNext s i

/-- The entry is overwritten. -/
def replaced (s : Regs n N) (i : In n) (k : Fin N) : Bool :=
  !i.flush && i.update.isSome && replaceEn s k

/-! ### Entries over time -/

section Step

variable {s : Regs n N} {i : In n} {k : Fin N}

/-- An entry that is not overwritten keeps all but its valid bit, which it may lose. -/
theorem tags_next (h : replaced s i k = false) : (next s i).tags k =
    { s.tags k with valid := (s.tags k).valid &&
        !(i.flush && (i.luAsid == 0 || i.luAsid == (s.tags k).asid)) } := by
  show nextTag s i k = _
  unfold nextTag
  cases hf : i.flush with
  | true =>
    rw [if_pos rfl]
    split_ifs with h0 ha
    · simp [h0]
    · simp [ha]
    · rw [beq_eq_false_iff_ne.2 h0, beq_eq_false_iff_ne.2 ha]
      simp
  | false =>
    rw [if_neg Bool.false_ne_true]
    cases hu : i.update with
    | none => simp
    | some u =>
      have hr : replaceEn s k = false := by simpa [replaced, hf, hu] using h
      simp [hr]

theorem content_next (h : replaced s i k = false) : (next s i).content k = s.content k := by
  show nextContent s i k = _
  unfold nextContent
  cases hf : i.flush with
  | true => rfl
  | false =>
    rw [if_neg Bool.false_ne_true]
    cases hu : i.update with
    | none => rfl
    | some u =>
      have hr : replaceEn s k = false := by simpa [replaced, hf, hu] using h
      simp [hr]

/-- An entry that is overwritten holds the update. -/
theorem next_of_replaced (h : replaced s i k = true) : ∃ u, i.update = some u ∧
    (next s i).tags k = tagOf u ∧ (next s i).content k = u.content := by
  obtain ⟨⟨hf, hu⟩, hr⟩ : (i.flush = false ∧ i.update.isSome = true) ∧ replaceEn s k = true := by
    simpa [replaced] using h
  obtain ⟨u, hu⟩ := Option.isSome_iff_exists.1 hu
  refine ⟨u, hu, ?_, ?_⟩
  · show nextTag s i k = _
    simp [nextTag, hf, hu, hr]
  · show nextContent s i k = _
    simp [nextContent, hf, hu, hr]

/-- An invalid entry stays invalid until it is overwritten. -/
theorem invalid_next (h : replaced s i k = false) (hv : (s.tags k).valid = false) :
    ((next s i).tags k).valid = false := by
  rw [tags_next h, hv]
  rfl

theorem valid_of_hit {t : Tag n} {asid : BitVec n} {va : BitVec 64} (h : t.hit asid va = true) :
    t.valid = true := by
  simp only [Tag.hit, Bool.and_eq_true] at h
  exact h.1.1.1

/-- The address of the page of an entry. -/
def Tag.vaddr (t : Tag n) : BitVec 64 := (t.vpn2 ++ (t.vpn1 ++ (t.vpn0 ++ 0#12))).setWidth 64

theorem vpn_vaddr (t : Tag n) : t.vaddr.extractLsb' 30 9 = t.vpn2 ∧
    t.vaddr.extractLsb' 21 9 = t.vpn1 ∧ t.vaddr.extractLsb' 12 9 = t.vpn0 := by
  have hbit (j : ℕ) (hj : j < 39) : t.vaddr.getLsbD j =
      if j < 12 then false else if j < 21 then t.vpn0.getLsbD (j - 12)
      else if j < 30 then t.vpn1.getLsbD (j - 21) else t.vpn2.getLsbD (j - 30) := by
    unfold Tag.vaddr
    simp only [BitVec.getLsbD_setWidth, BitVec.getLsbD_append, BitVec.getLsbD_zero]
    grind
  refine ⟨?_, ?_, ?_⟩ <;> apply Lib.extractLsb'_eq_of_getLsbD <;> intro j hj <;>
    rw [hbit _ (by omega)] <;> grind

/-- An address of its page hits a valid entry. -/
theorem hit_vaddr {t : Tag n} (hv : t.valid = true) : t.hit t.asid t.vaddr = true := by
  obtain ⟨h2, h1, h0⟩ := vpn_vaddr t
  simp [Tag.hit, hv, h2, h1, h0]

end Step

/-! ### Lookups -/

section Lookup

variable {s : Regs n N} {asid : BitVec n} {va : BitVec 64}

/-- If the entries that match agree, the outputs are theirs. -/
theorem foldl_lookup {c : BitVec 64} {is2M is1G : Bool} (hx : is1G = true → is2M = false) :
    ∀ (ks : List (Fin N)), (∀ k ∈ ks, (s.tags k).hit asid va = true →
      s.content k = c ∧ (s.tags k).is2M = is2M ∧ (s.tags k).is1G = is1G) →
    ∀ l : Lookup, l = ⟨0, false, false, false⟩ ∨ l = ⟨c, is2M, is1G, true⟩ →
    ks.foldl (Lookup.step s asid va) l =
      if ∃ k ∈ ks, (s.tags k).hit asid va = true then ⟨c, is2M, is1G, true⟩ else l
  | [], _, _, _ => by simp
  | k :: ks, h, l, hl => by
    rw [List.foldl_cons]
    by_cases hk : (s.tags k).hit asid va = true
    · obtain ⟨hc, h2, h1⟩ := h k List.mem_cons_self hk
      have hstep : Lookup.step s asid va l k = ⟨c, is2M, is1G, true⟩ := by
        unfold Lookup.step
        rw [if_pos hk, hc, h2, h1]
        cases is1G with
        | true => rcases hl with rfl | rfl <;> simp [hx rfl]
        | false => rcases hl with rfl | rfl <;> simp
      have ih := foldl_lookup hx ks (fun j hj => h j (List.mem_cons_of_mem k hj)) _ (.inr hstep)
      rw [ih, hstep, ite_self, if_pos ⟨k, List.mem_cons_self, hk⟩]
    · have hstep : Lookup.step s asid va l k = l := if_neg hk
      rw [hstep, foldl_lookup hx ks (fun j hj => h j (List.mem_cons_of_mem k hj)) l hl]
      simp [hk]

theorem hit_foldl : ∀ (ks : List (Fin N)) (l : Lookup),
    (ks.foldl (Lookup.step s asid va) l).hit = true ↔
      l.hit = true ∨ ∃ k ∈ ks, (s.tags k).hit asid va = true
  | [], _ => by simp
  | k :: ks, l => by
    rw [List.foldl_cons, hit_foldl ks]
    by_cases hk : (s.tags k).hit asid va = true
    · have hstep : (Lookup.step s asid va l k).hit = true := by
        unfold Lookup.step
        rw [if_pos hk]
        split <;> rfl
      simp [hstep, hk]
    · have hstep : Lookup.step s asid va l k = l := if_neg hk
      simp [hstep, hk]

theorem hit_translation : (translation s asid va).hit = true ↔ ∃ k, (s.tags k).hit asid va = true := by
  rw [translation, hit_foldl]
  simp

/-- A hit gives the entry, if all the entries that match agree. -/
theorem translation_eq (hhit : (translation s asid va).hit = true) {c : BitVec 64} {is2M is1G : Bool}
    (hx : is1G = true → is2M = false) (h : ∀ k, (s.tags k).hit asid va = true →
      s.content k = c ∧ (s.tags k).is2M = is2M ∧ (s.tags k).is1G = is1G) :
    translation s asid va = ⟨c, is2M, is1G, true⟩ := by
  obtain ⟨k, hk⟩ := hit_translation.1 hhit
  rw [translation, foldl_lookup hx _ (fun k _ => h k) _ (.inl rfl), if_pos ⟨k, List.mem_finRange k, hk⟩]

end Lookup

end Tlb
end Ariane

/-
# The SHA-256 core

`sha256.v` takes a block on `init` or `next`, works 64 rounds on it, one an edge, and adds the result
to its digest registers. The words of the message schedule come from `sha256_w_mem.v`, a window of
sixteen words that is shifted from the sixteenth round on; the standard has them as a recursion over
all rounds (`schedule`).

`compress_eq` says that the window gives the words of the recursion, `block_spec` what a block comes to
and when, from any reachable state and whatever the inputs do meanwhile, and `digest_law` what the
digest is in every state of every run. `core_refines` makes the core that the HMAC engine is modelled
with, one compression at the end of the rounds, out of this one.
-/
import Ariane.Soc.Hmac

namespace Ariane
namespace Sha256

open Lib

/-! ### The standard -/

def sigma0 (x : BitVec 32) : BitVec 32 := x.rotateRight 7 ^^^ x.rotateRight 18 ^^^ (x >>> 3)

def sigma1 (x : BitVec 32) : BitVec 32 := x.rotateRight 17 ^^^ x.rotateRight 19 ^^^ (x >>> 10)

/-- The message schedule: the words of the block, then each from four before it. -/
def schedule (block : BitVec 512) (t : ℕ) : BitVec 32 :=
  if t < 16 then word block t
  else sigma1 (schedule block (t - 2)) + schedule block (t - 7) + sigma0 (schedule block (t - 15)) +
    schedule block (t - 16)
termination_by t

/-- The rounds with the constants `ks`, from round `t` on. -/
def steps (block : BitVec 512) : List (BitVec 32) → ℕ → Vars → Vars
  | [], _, v => v
  | kt :: ks, t, v => steps block ks (t + 1) (v.round kt (schedule block t))

/-- The hash value after a block. -/
def hashBlock (h : Vars) (block : BitVec 512) : Vars := h.add (steps block k 0 h)

/-! ### Digests -/

theorem word_append {n : ℕ} (x : BitVec n) (y : BitVec 32) {i : ℕ} (h : 32 * (i + 1) ≤ n) :
    word (x ++ y) i = word x i := by
  unfold word
  ext j hj
  simp only [BitVec.getElem_extractLsb', BitVec.getLsbD_append]
  have h1 : ¬n + 32 - 32 * (i + 1) + j < 32 := by omega
  have h2 : n + 32 - 32 * (i + 1) + j - 32 = n - 32 * (i + 1) + j := by omega
  rw [if_neg h1, h2]

theorem word_append_last {n : ℕ} (x : BitVec n) (y : BitVec 32) {i : ℕ} (h : n = 32 * i) :
    word (x ++ y) i = y := by
  unfold word
  ext j hj
  simp only [BitVec.getElem_extractLsb', BitVec.getLsbD_append]
  have h1 : n + 32 - 32 * (i + 1) + j = j := by omega
  rw [h1, if_pos hj, BitVec.getLsbD_eq_getElem hj]

theorem word_self (x : BitVec 32) : word x 0 = x := by
  simp [word]

theorem Vars.ofDigest_digest (v : Vars) : Vars.ofDigest v.digest = v := by
  obtain ⟨a, b, c, d, e, f, g, h⟩ := v
  simp only [Vars.ofDigest, Vars.digest, Vars.mk.injEq]
  refine ⟨?_, ?_, ?_, ?_, ?_, ?_, ?_, ?_⟩
  · repeat rw [word_append _ _ (by decide)]
    exact word_self a
  all_goals
    repeat rw [word_append _ _ (by decide)]
    exact word_append_last _ _ rfl
/-! ### The window -/

/-- The sixteen words that round `t` looks at. -/
def window (block : BitVec 512) (t : ℕ) : List (BitVec 32) :=
  (List.range 16).map fun j => schedule block (t - 16 + j)

section Window

variable (block : BitVec 512)

theorem window_getD (t : ℕ) {j : ℕ} (hj : j < 16) :
    (window block t).getD j 0 = schedule block (t - 16 + j) := by
  simp [window, List.getD_eq_getElem?_getD, hj]

theorem schedule_lt {t : ℕ} (h : t < 16) : schedule block t = word block t := by
  rw [schedule, if_pos h]

theorem schedule_ge {t : ℕ} (h : ¬t < 16) : schedule block t =
    sigma1 (schedule block (t - 2)) + schedule block (t - 7) + sigma0 (schedule block (t - 15)) +
      schedule block (t - 16) := by
  rw [schedule, if_neg h]

theorem wNew_window {t : ℕ} (h : ¬t < 16) : wNew (window block t) = schedule block t := by
  have h0 : t - 16 + 0 = t - 16 := rfl
  have h1 : t - 16 + 1 = t - 15 := by omega
  have h9 : t - 16 + 9 = t - 7 := by omega
  have h14 : t - 16 + 14 = t - 2 := by omega
  rw [schedule_ge block h, wNew, window_getD block t (by decide), window_getD block t (by decide),
    window_getD block t (by decide), window_getD block t (by decide), h0, h1, h9, h14]
  rfl

theorem wTmp_window (t : ℕ) : wTmp t (window block t) = schedule block t := by
  by_cases h : t < 16
  · rw [wTmp, if_pos h, window_getD block t h, Nat.sub_eq_zero_of_le (by omega), Nat.zero_add]
  · rw [wTmp, if_neg h, wNew_window block h]

theorem wMem_window (t : ℕ) : wMem t (window block t) = window block (t + 1) := by
  by_cases h : t < 16
  · rw [wMem, if_pos h, window, window, Nat.sub_eq_zero_of_le (by omega : t ≤ 16),
      Nat.sub_eq_zero_of_le (by omega : t + 1 ≤ 16)]
  · rw [wMem, if_neg h, wNew_window block h]
    have hlast : schedule block t = schedule block (t + 1 - 16 + 15) := by congr 1; omega
    have htail : (window block t).tail = (List.range 15).map fun j => schedule block (t + 1 - 16 + j) := by
      rw [window, List.range_succ_eq_map, List.map_cons, List.tail_cons, List.map_map]
      refine List.map_congr_left fun j _ => ?_
      have : t - 16 + (j + 1) = t + 1 - 16 + j := by omega
      simp [this]
    rw [htail, hlast, window, List.range_succ (n := 15), List.map_append]
    rfl

theorem window_zero : window block 0 = (List.range 16).map (word block) := by
  refine List.map_congr_left fun j hj => ?_
  rw [Nat.zero_sub, Nat.zero_add, schedule_lt block (List.mem_range.1 hj)]

/-- The rounds over the window are the rounds over the schedule. -/
theorem rounds_window : ∀ (ks : List (BitVec 32)) (t : ℕ) (v : Vars),
    rounds ks t v (window block t) = steps block ks t v
  | [], _, _ => rfl
  | kt :: ks, t, v => by
    rw [rounds, steps, wTmp_window, wMem_window, rounds_window ks]

/-- **The sliding window computes the message schedule.** -/
theorem compress_eq (digest : BitVec 256) :
    compress digest block = (hashBlock (.ofDigest digest) block).digest := by
  rw [compress, hashBlock, ← window_zero, rounds_window]

end Window

/-! ### The core -/

namespace Core

/-- `sha256_w_mem`: the window, `w_ctr_reg`, and whether the state machine is in `CTRL_UPDATE`. -/
structure WMem where
  mem : List (BitVec 32)
  ctr : BitVec 6
  update : Bool

/-- An edge of `sha256_w_mem` with its `init` and `next`. -/
def WMem.next (w : WMem) (init next : Bool) (block : BitVec 512) : WMem where
  mem := if init then (List.range 16).map (word block) else wMem w.ctr.toNat w.mem
  ctr := if w.update then if next then w.ctr + 1 else w.ctr else if init then 0 else w.ctr
  update := if w.update then w.ctr != 63 else init

structure Regs where
  vars : Vars
  hash : Vars
  tCtr : BitVec 6
  digestValid : Bool
  ctrl : Hmac.Ctrl
  w : WMem

structure In where
  init : Bool
  next : Bool
  block : BitVec 512

def Vars.zero : Vars := ⟨0, 0, 0, 0, 0, 0, 0, 0⟩

/-- A reset, which is also what both modules hold after `rst`. -/
def Regs.reset : Regs := ⟨Vars.zero, Vars.zero, 0, false, .idle, ⟨List.replicate 16 0, 0, false⟩⟩

/-- `SHA256_H0_0` to `SHA256_H0_7`. -/
def h0 : Vars := .ofDigest iv

/-- `init` or `next` in `CTRL_IDLE`. -/
def Regs.starts (r : Regs) (i : In) : Bool := r.ctrl = .idle && (i.init || i.next)

/-- An edge of `sha256.v`. -/
def Regs.next (r : Regs) (i : In) : Regs :=
  match r.ctrl with
  | .idle =>
    if i.init || i.next then
      { vars := if i.init then h0 else r.hash
        hash := if i.init then h0 else r.hash
        tCtr := 0
        digestValid := false
        ctrl := .rounds
        w := r.w.next true false i.block }
    else { r with w := r.w.next false false i.block }
  | .rounds =>
    { r with
      vars := r.vars.round (k.getD r.tCtr.toNat 0) (wTmp r.w.ctr.toNat r.w.mem)
      tCtr := r.tCtr + 1
      ctrl := if r.tCtr = 63 then .done else .rounds
      w := r.w.next false true i.block }
  | .done =>
    { r with
      hash := r.hash.add r.vars
      digestValid := true
      ctrl := .idle
      w := r.w.next false false i.block }

/-- `digest`. -/
def Regs.digest (r : Regs) : BitVec 256 := r.hash.digest

/-- The core with the value the hash started from and the blocks taken since. -/
structure Tracked where
  regs : Regs
  base : Vars
  blocks : List (BitVec 512)

def Tracked.next (t : Tracked) (i : In) : Tracked where
  regs := t.regs.next i
  base := if t.regs.starts i && i.init then h0 else t.base
  blocks :=
    if t.regs.starts i then if i.init then [i.block] else t.blocks ++ [i.block] else t.blocks

def Tracked.reset : Tracked := ⟨.reset, Vars.zero, []⟩

def machine : Machine Tracked In := ⟨(· = .reset), Tracked.next⟩

/-! ### One block -/

/-- Round `t` of a block: what is left of the rounds comes to what all of them do. -/
structure Working (r : Regs) (block : BitVec 512) (t : ℕ) : Prop where
  ctrl : r.ctrl = .rounds
  lt : t < 64
  tCtr : r.tCtr = BitVec.ofNat 6 t
  ctr : r.w.ctr = BitVec.ofNat 6 t
  update : r.w.update = true
  mem : r.w.mem = window block t
  vars : steps block (k.drop t) t r.vars = steps block k 0 r.hash

/-- After the last round. -/
structure Done (r : Regs) (block : BitVec 512) : Prop where
  ctrl : r.ctrl = .done
  ctr : r.w.ctr = 0
  update : r.w.update = false
  vars : r.vars = steps block k 0 r.hash

structure Idle (r : Regs) : Prop where
  ctrl : r.ctrl = .idle
  ctr : r.w.ctr = 0
  update : r.w.update = false

section Block

variable {r : Regs} {block : BitVec 512} {t : ℕ}

theorem k_length : k.length = 64 := rfl

theorem k_drop (h : t < 64) : k.drop t = k.getD t 0 :: k.drop (t + 1) := by
  rw [List.drop_eq_getElem_cons (by rw [k_length]; exact h), List.getD_eq_getElem?_getD,
    List.getElem?_eq_getElem (by rw [k_length]; exact h), Option.getD_some]

theorem toNat_ctr (h : t < 64) : (BitVec.ofNat 6 t).toNat = t := by
  rw [BitVec.toNat_ofNat]
  exact Nat.mod_eq_of_lt h

theorem ctr_succ (t : ℕ) : BitVec.ofNat 6 t + 1 = BitVec.ofNat 6 (t + 1) := by
  apply BitVec.eq_of_toNat_eq
  simp

theorem ctr_last (h : t < 64) : BitVec.ofNat 6 t = 63 ↔ t = 63 := by
  constructor
  · intro he
    have := congrArg BitVec.toNat he
    rw [toNat_ctr h] at this
    simpa using this
  · rintro rfl
    rfl

theorem Idle.starts (h : Idle r) {i : In} (hi : (i.init || i.next) = true) :
    Working (r.next i) i.block 0 ∧ (r.next i).hash = if i.init then h0 else r.hash := by
  have hn : r.next i = {
      vars := if i.init then h0 else r.hash
      hash := if i.init then h0 else r.hash
      tCtr := 0
      digestValid := false
      ctrl := .rounds
      w := r.w.next true false i.block } := by
    simp only [Regs.next, h.ctrl, hi, if_true]
  rw [hn]
  refine ⟨⟨rfl, by decide, rfl, ?_, ?_, ?_, rfl⟩, rfl⟩
  · simp [WMem.next, h.update]
  · simp [WMem.next, h.update]
  · simp [WMem.next, window_zero]

theorem Idle.stays (h : Idle r) {i : In} (hi : (i.init || i.next) = false) :
    Idle (r.next i) ∧ (r.next i).hash = r.hash ∧ (r.next i).digestValid = r.digestValid := by
  have hn : r.next i = { r with w := r.w.next false false i.block } := by
    simp only [Regs.next, h.ctrl, hi, Bool.false_eq_true, if_false]
  rw [hn]
  exact ⟨⟨h.ctrl, by simp [WMem.next, h.update, h.ctr], by simp [WMem.next, h.update]⟩, rfl, rfl⟩

theorem Working.step (h : Working r block t) (i : In) :
    ((t < 63 ∧ Working (r.next i) block (t + 1)) ∨ (t = 63 ∧ Done (r.next i) block)) ∧
      (r.next i).hash = r.hash ∧ (r.next i).digestValid = r.digestValid := by
  have hn : r.next i = { r with
      vars := r.vars.round (k.getD r.tCtr.toNat 0) (wTmp r.w.ctr.toNat r.w.mem)
      tCtr := r.tCtr + 1
      ctrl := if r.tCtr = 63 then .done else .rounds
      w := r.w.next false true i.block } := by
    simp only [Regs.next, h.ctrl]
  have hv : steps block (k.drop (t + 1)) (t + 1) (r.next i).vars = steps block k 0 r.hash := by
    rw [← h.vars, k_drop h.lt, steps, hn]
    simp only [h.tCtr, h.ctr, h.mem, toNat_ctr h.lt, wTmp_window]
  have hh : (r.next i).hash = r.hash := by rw [hn]
  refine ⟨?_, hh, by rw [hn]⟩
  by_cases ht : t = 63
  · subst ht
    refine .inr ⟨rfl, ?_, ?_, ?_, ?_⟩
    · rw [hn]
      simp [h.tCtr]
    · rw [hn]
      simp [WMem.next, h.update, h.ctr]
    · rw [hn]
      simp [WMem.next, h.update, h.ctr]
    · rw [hh, ← hv, List.drop_of_length_le (by rw [k_length]), steps]
  · have hlt := h.lt
    refine .inl ⟨by omega, ?_, by omega, ?_, ?_, ?_, ?_, ?_⟩
    · rw [hn]
      simp only [h.tCtr, ctr_last h.lt, ht, if_false]
    · rw [hn]
      simp only [h.tCtr, ctr_succ]
    · rw [hn]
      simp only [WMem.next, h.update, if_true, h.ctr, ctr_succ]
    · rw [hn]
      simp only [WMem.next, h.update, if_true, h.ctr, bne_iff_ne, ne_eq, ctr_last h.lt]
      exact ht
    · rw [hn]
      simp only [WMem.next, Bool.false_eq_true, if_false, h.ctr, toNat_ctr h.lt, h.mem, wMem_window]
    · rw [hh, hv]

theorem Done.step (h : Done r block) (i : In) :
    Idle (r.next i) ∧ (r.next i).hash = hashBlock r.hash block ∧ (r.next i).digestValid = true := by
  have hn : r.next i = { r with
      hash := r.hash.add r.vars
      digestValid := true
      ctrl := .idle
      w := r.w.next false false i.block } := by
    simp only [Regs.next, h.ctrl]
  rw [hn]
  refine ⟨⟨rfl, by simp [WMem.next, h.update, h.ctr], by simp [WMem.next, h.update]⟩, ?_, rfl⟩
  rw [hashBlock, ← h.vars]

end Block

/-! ### Runs -/

/-- Between blocks the hash is that of the blocks, in a block that of those before it. -/
def Inv (t : Tracked) : Prop :=
  (Idle t.regs ∧ t.regs.hash = t.blocks.foldl hashBlock t.base) ∨
  ∃ bs b, t.blocks = bs ++ [b] ∧ t.regs.hash = bs.foldl hashBlock t.base ∧
    ((∃ n, Working t.regs b n) ∨ Done t.regs b)

/-- What the core shows: when it is ready, the hash of the blocks it has taken since `init`. -/
def Correct (t : Tracked) : Prop :=
  t.regs.ctrl = .idle → t.regs.digest = (t.blocks.foldl hashBlock t.base).digest

theorem inv_reset : Inv .reset := .inl ⟨⟨rfl, rfl, rfl⟩, rfl⟩

theorem starts_of_busy {t : Tracked} (h : t.regs.ctrl ≠ .idle) (i : In) :
    (t.next i).base = t.base ∧ (t.next i).blocks = t.blocks := by
  have hs : t.regs.starts i = false := by simp [Regs.starts, h]
  simp [Tracked.next, hs]

theorem Inv.next {t : Tracked} (h : Inv t) (i : In) : Inv (t.next i) := by
  rcases h with ⟨hi, hh⟩ | ⟨bs, b, hb, hh, ⟨n, hw⟩ | hd⟩
  · cases hs : i.init || i.next with
    | false =>
      have hst : t.regs.starts i = false := by simp [Regs.starts, hs]
      obtain ⟨h1, h2, _⟩ := hi.stays hs
      exact .inl ⟨h1, by simpa [Tracked.next, hst, h2] using hh⟩
    | true =>
      have hst : t.regs.starts i = true := by simp [Regs.starts, hs, hi.ctrl]
      obtain ⟨h1, h2⟩ := hi.starts hs
      cases hin : i.init with
      | true =>
        refine .inr ⟨[], i.block, by simp [Tracked.next, hst, hin], ?_, .inl ⟨0, h1⟩⟩
        simp [Tracked.next, h2, hst, hin]
      | false =>
        refine .inr ⟨t.blocks, i.block, by simp [Tracked.next, hst, hin], ?_, .inl ⟨0, h1⟩⟩
        simpa [Tracked.next, h2, hst, hin] using hh
  · obtain ⟨hbase, hblocks⟩ := starts_of_busy (t := t) (by simp [hw.ctrl]) i
    obtain ⟨h1, h2, _⟩ := hw.step i
    refine .inr ⟨bs, b, by rw [hblocks, hb], by rw [hbase, ← hh]; exact h2, ?_⟩
    rcases h1 with ⟨_, h1⟩ | ⟨_, h1⟩
    · exact .inl ⟨n + 1, h1⟩
    · exact .inr h1
  · obtain ⟨hbase, hblocks⟩ := starts_of_busy (t := t) (by simp [hd.ctrl]) i
    obtain ⟨h1, h2, _⟩ := hd.step i
    refine .inl ⟨h1, ?_⟩
    rw [hbase, hblocks, hb, List.foldl_append, ← hh]
    exact h2

theorem inv_of_reachable {t : Tracked} (h : machine.Reachable t) : Inv t :=
  h.inv (fun s (hs : s = _) => hs ▸ inv_reset) (fun _ i hs => hs.next i)

/-- **The digest is that of the standard.** In every run, whenever the core is ready, the digest is the
hash of the blocks taken since the last `init`. -/
theorem digest_law (is : List In) : Correct (machine.run .reset is) := by
  intro hc
  rcases inv_of_reachable ⟨_, is, rfl, rfl⟩ with ⟨_, hh⟩ | ⟨_, _, _, _, ⟨_, hw⟩ | hd⟩
  · rw [Regs.digest, hh]
  · rw [hw.ctrl] at hc
    cases hc
  · rw [hd.ctrl] at hc
    cases hc

/-! ### How long a block takes -/

def run (r : Regs) (is : List In) : Regs := is.foldl Regs.next r

theorem run_regs : ∀ (is : List In) (t : Tracked), (machine.run t is).regs = run t.regs is
  | [], _ => rfl
  | i :: is, t => run_regs is (t.next i)

/-- The rounds that are left and one edge more, whatever the inputs. -/
theorem Working.run {block : BitVec 512} : ∀ (is : List In) {r : Regs} {t : ℕ}, Working r block t →
    is.length = 65 - t → Idle (Core.run r is) ∧ (Core.run r is).hash = hashBlock r.hash block ∧
      (Core.run r is).digestValid = true
  | [], _, t, h, hl => by
    have := h.lt
    simp only [List.length_nil] at hl
    omega
  | i :: is, r, t, h, hl => by
    obtain ⟨hs, hh, _⟩ := h.step i
    simp only [List.length_cons] at hl
    rcases hs with ⟨ht, hw⟩ | ⟨rfl, hd⟩
    · rw [← hh]
      exact hw.run is (by omega)
    · obtain ⟨j, rfl⟩ := List.length_eq_one_iff.1 (show is.length = 1 by omega)
      rw [← hh]
      exact hd.step j

/-- The core is not ready before. -/
theorem Working.busy {block : BitVec 512} : ∀ (is : List In) {r : Regs} {t : ℕ}, Working r block t →
    is.length < 65 - t → (Core.run r is).ctrl ≠ .idle
  | [], _, _, h, _ => by simp [Core.run, h.ctrl]
  | i :: is, r, t, h, hl => by
    obtain ⟨hs, _, _⟩ := h.step i
    simp only [List.length_cons] at hl
    rcases hs with ⟨ht, hw⟩ | ⟨rfl, hd⟩
    · exact hw.busy is (by omega)
    · obtain rfl := List.length_eq_zero_iff.1 (show is.length = 0 by omega)
      simp [Core.run, hd.ctrl]

/-- **A block takes 66 edges.** From every reachable state in which the core is ready: a block that is
taken leaves, 65 edges later and whatever the inputs are meanwhile, its hash on top of the initial value
or of the running one, and the core is not ready before. -/
theorem block_spec {t : Tracked} (h : machine.Reachable t) (hc : t.regs.ctrl = .idle) {i : In}
    (hi : (i.init || i.next) = true) (is : List In) (hl : is.length = 65) :
    ((machine.run t (i :: is)).regs.ctrl = .idle ∧ (machine.run t (i :: is)).regs.digestValid = true ∧
      (machine.run t (i :: is)).regs.hash = hashBlock (if i.init then h0 else t.regs.hash) i.block) ∧
    ∀ n < 65, (machine.run t (i :: is.take n)).regs.ctrl ≠ .idle := by
  have hidle : Idle t.regs := by
    rcases inv_of_reachable h with ⟨hd, _⟩ | ⟨_, _, _, _, ⟨_, hw⟩ | hd⟩
    · exact hd
    · rw [hw.ctrl] at hc
      cases hc
    · rw [hd.ctrl] at hc
      cases hc
  obtain ⟨hw, hh⟩ := hidle.starts hi
  refine ⟨?_, fun n hn => ?_⟩
  · obtain ⟨h1, h2, h3⟩ := hw.run is (by rw [hl])
    rw [run_regs]
    exact ⟨h1.ctrl, h3, by rw [← hh]; exact h2⟩
  · rw [run_regs]
    exact hw.busy _ (by rw [List.length_take]; omega)

def quiet : In := ⟨false, false, 0⟩

/-- The message "abc", padded. -/
def abc : BitVec 512 := (0x616263 : BitVec 24) ++ (1#1) ++ (0 : BitVec 423) ++ (24 : BitVec 64)

theorem block_spec_abc :
    ((machine.run .reset (⟨true, false, abc⟩ :: List.replicate 65 quiet)).regs.ctrl = .idle ∧
      (machine.run .reset (⟨true, false, abc⟩ :: List.replicate 65 quiet)).regs.digestValid = true ∧
      (machine.run .reset (⟨true, false, abc⟩ :: List.replicate 65 quiet)).regs.hash = hashBlock h0 abc) ∧
    ∀ n < 65, (machine.run .reset
      (⟨true, false, abc⟩ :: (List.replicate 65 quiet).take n)).regs.ctrl ≠ .idle :=
  block_spec ⟨_, [], rfl, rfl⟩ rfl rfl _ List.length_replicate

example : (hashBlock h0 abc).digest = 0xba7816bf8f01cfea414140de5dae2223b00361a396177a9cb410ff61f20015ad := by
  rw [h0, ← compress_eq]
  decide +kernel

/-! ### The core of the HMAC engine -/

/-- The core that the engine is modelled with, beside this one; its rounds end in round 63. -/
def Pair.next (p : Regs × Hmac.Core) (i : In) : Regs × Hmac.Core :=
  (p.1.next i, p.2.next compress i.init i.next i.block (p.1.tCtr = 63))

def Pair.run (p : Regs × Hmac.Core) (is : List In) : Regs × Hmac.Core := is.foldl Pair.next p

def Pair.reset : Regs × Hmac.Core := (.reset, ⟨.idle, 0, 0, false⟩)

structure Refines (r : Regs) (c : Hmac.Core) : Prop where
  ctrl : c.ctrl = r.ctrl
  digest : c.digest = r.digest
  valid : c.digestValid = r.digestValid
  phase : Idle r ∨ (∃ n, Working r c.block n) ∨ Done r c.block

theorem Refines.next {r : Regs} {c : Hmac.Core} (h : Refines r c) (i : In) :
    Refines (r.next i) (c.next compress i.init i.next i.block (r.tCtr = 63)) := by
  obtain ⟨hc, hd, hv, hp⟩ := h
  rcases hp with hi | ⟨n, hw⟩ | hf
  · have hcc : c.ctrl = .idle := hc.trans hi.ctrl
    cases hs : i.init || i.next with
    | false =>
      obtain ⟨h1, h2, h3⟩ := hi.stays hs
      have hn : c.next compress i.init i.next i.block (r.tCtr = 63) = c := by
        simp only [Hmac.Core.next, hcc, hs, Bool.false_eq_true, if_false]
      rw [hn]
      exact ⟨hcc.trans h1.ctrl.symm, by rw [Regs.digest, h2]; exact hd, hv.trans h3.symm, .inl h1⟩
    | true =>
      obtain ⟨h1, h2⟩ := hi.starts hs
      have hn : c.next compress i.init i.next i.block (r.tCtr = 63) =
          ⟨.rounds, if i.init then iv else c.digest, i.block, false⟩ := by
        simp only [Hmac.Core.next, hcc, hs, if_true]
      have hval : (r.next i).digestValid = false := by simp only [Regs.next, hi.ctrl, hs, if_true]
      rw [hn]
      refine ⟨h1.ctrl.symm, ?_, hval.symm, .inr (.inl ⟨0, h1⟩)⟩
      rw [Regs.digest, h2]
      cases i.init with
      | false => exact hd
      | true => exact (by decide : iv = h0.digest)
  · have hcc : c.ctrl = .rounds := hc.trans hw.ctrl
    obtain ⟨h1, h2, h3⟩ := hw.step i
    have hn : c.next compress i.init i.next i.block (r.tCtr = 63) =
        { c with ctrl := if r.tCtr = 63 then .done else .rounds } := by
      simp only [Hmac.Core.next, hcc, decide_eq_true_eq]
    rw [hn]
    refine ⟨?_, by rw [Regs.digest, h2]; exact hd, hv.trans h3.symm, .inr ?_⟩
    · simp only [Regs.next, hw.ctrl]
    · rcases h1 with ⟨_, h1⟩ | ⟨_, h1⟩
      · exact .inl ⟨n + 1, h1⟩
      · exact .inr h1
  · have hcc : c.ctrl = .done := hc.trans hf.ctrl
    obtain ⟨h1, h2, h3⟩ := hf.step i
    have hn : c.next compress i.init i.next i.block (r.tCtr = 63) =
        { c with ctrl := .idle, digest := compress c.digest c.block, digestValid := true } := by
      simp only [Hmac.Core.next, hcc]
    rw [hn]
    refine ⟨h1.ctrl.symm, ?_, h3.symm, .inl h1⟩
    rw [Regs.digest, h2, compress_eq, hd, Regs.digest, Vars.ofDigest_digest]

/-- **The core refines the core of the engine.** With the same inputs, and with the end of the rounds
where this one has it, both are ready, show a digest and call it valid in the same states. -/
theorem core_refines (is : List In) : Refines (Pair.run Pair.reset is).1 (Pair.run Pair.reset is).2 := by
  have step : ∀ (is : List In) (p : Regs × Hmac.Core), Refines p.1 p.2 →
      Refines (Pair.run p is).1 (Pair.run p is).2 := by
    intro is
    induction is with
    | nil => exact fun p h => h
    | cons i is ih => exact fun p h => ih (Pair.next p i) (h.next i)
  exact step is _ ⟨rfl, by decide, rfl, .inl ⟨rfl, rfl, rfl⟩⟩

end Core
end Sha256
end Ariane

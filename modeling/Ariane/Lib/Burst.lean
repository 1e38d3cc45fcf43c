/-
# Bursts over two channels

A job is an address and a list of beats. The address and the beats go out on a channel each, a
channel takes what it is offered in the cycles in which it is ready, and the job is granted in
the cycle in which the last of both is taken. `Sent` is what has been taken of a job, and with the
job it says what is offered next.

An engine does its jobs as its requests come, held until they are granted; while it is busy with
something else it offers nothing, and a request may go away. If it follows `Sent` (`Follows`), then in every run each job
goes out as it is, whichever channel is ready first (`transfers`).
-/
import Ariane.Lib.Machine
import Mathlib.Data.List.TakeDrop

namespace Ariane
namespace Lib
namespace Burst

variable {σ ι ρ α β : Type}

structure Job (α β : Type) where
  aw : α
  beats : List β

/-- What is on the channels, and the grant. -/
structure Offer (α β : Type) where
  aw : Option α
  w : Option β
  gnt : Bool

structure Sent where
  aw : Bool
  n : ℕ

namespace Sent

def start : Sent := ⟨false, 0⟩

variable (s : Sent) (j : Job α β) (awReady wReady : Bool)

/-- What has been taken after a cycle. -/
def take : Sent := ⟨s.aw || awReady, if wReady && decide (s.n < j.beats.length) then s.n + 1 else s.n⟩

def done : Bool := s.aw && s.n == j.beats.length

def offer : Offer α β :=
  ⟨if s.aw then none else some j.aw, j.beats[s.n]?, (s.take j awReady wReady).done j⟩

def next : Sent := if (s.take j awReady wReady).done j then start else s.take j awReady wReady

end Sent

/-- A machine with requests, some of which are jobs. -/
structure Engine (σ ι ρ α β : Type) where
  init : σ → Prop
  next : σ → ι → σ
  offer : σ → ι → Offer α β
  req : ι → Option ρ
  job : ρ → Option (Job α β)
  busy : σ → Bool
  awReady : ι → Bool
  wReady : ι → Bool

namespace Engine

variable (E : Engine σ ι ρ α β)

/-- The job that the engine is on. -/
def active (s : σ) (i : ι) : Option (Job α β) := if E.busy s then none else (E.req i).bind E.job

/-- A request that has not been granted stays; one that is shown while the engine is busy need not. -/
def heldD (s : σ) (i : ι) : Option ρ := if (E.offer s i).gnt || E.busy s then none else E.req i

/-- The engine is at `n` with the request it was given before. -/
structure Follows (R : σ → Option ρ → Sent → Prop) : Prop where
  init : ∀ s, E.init s → R s none Sent.start
  active : ∀ s held n i j, R s held n → (∀ r ∈ held, E.req i = some r) → E.active s i = some j →
    E.offer s i = n.offer j (E.awReady i) (E.wReady i) ∧
      R (E.next s i) (E.heldD s i) (n.next j (E.awReady i) (E.wReady i)) ∧
      ((E.offer s i).gnt = false → E.busy (E.next s i) = false)
  idle : ∀ s held n i, R s held n → (∀ r ∈ held, E.req i = some r) → E.active s i = none →
    (E.offer s i).aw = none ∧ (E.offer s i).w = none ∧ n = Sent.start ∧
      R (E.next s i) (E.heldD s i) Sent.start ∧
      ((E.offer s i).gnt = true → ∃ r, E.req i = some r ∧ E.job r = none)

end Engine

/-! ### What the channels have taken -/

/-- The engine with what has been taken of the present job, what was offered in the cycle before
and not taken, and how often the channels were ready. -/
structure Tracked (σ ρ α β : Type) where
  s : σ
  held : Option ρ
  aws : List α
  ws : List β
  awOffer : Option α
  wOffer : Option β
  awReadies : ℕ
  wReadies : ℕ

namespace Tracked

variable (E : Engine σ ι ρ α β) (t : Tracked σ ρ α β) (i : ι)

def awsD : List α := t.aws ++ if E.awReady i then (E.offer t.s i).aw.toList else []
def wsD : List β := t.ws ++ if E.wReady i then (E.offer t.s i).w.toList else []

/-- The burst that is on the channels from this cycle on, when the address says how long one is. -/
def complete (len : α → ℕ) : Option (Job α β) :=
  match t.awsD E i with
  | [a] => if (t.wsD E i).length = len a then some ⟨a, t.wsD E i⟩ else none
  | _ => none

def awReadiesD : ℕ := t.awReadies + (E.awReady i).toNat
def wReadiesD : ℕ := t.wReadies + (E.wReady i).toNat

def next : Tracked σ ρ α β :=
  let fresh := (E.offer t.s i).gnt || (E.active t.s i).isNone
  { s := E.next t.s i
    held := E.heldD t.s i
    aws := if fresh then [] else t.awsD E i
    ws := if fresh then [] else t.wsD E i
    awOffer := if E.awReady i then none else (E.offer t.s i).aw
    wOffer := if E.wReady i then none else (E.offer t.s i).w
    awReadies := if fresh then 0 else t.awReadiesD E i
    wReadies := if fresh then 0 else t.wReadiesD E i }

def Fresh : Prop :=
  t.aws = [] ∧ t.ws = [] ∧ t.awOffer = none ∧ t.wOffer = none ∧ t.awReadies = 0 ∧ t.wReadies = 0

end Tracked

section Runs

variable (E : Engine σ ι ρ α β)

def tracked : Machine (Tracked σ ρ α β) ι :=
  ⟨fun t => E.init t.s ∧ t.held = none ∧ t.Fresh, Tracked.next E⟩

def Held (t : Tracked σ ρ α β) (i : ι) : Prop := ∀ r ∈ t.held, E.req i = some r

/-- What is offered stays until it is taken, nothing is offered but for a job, and what is granted
without one is a request of another kind. Of a job go out its address, once, and its beats, in order. The grant comes in the cycle in which the last
of them is taken: the address channel has been ready once then, and the other one for each beat. -/
structure Transfers (t : Tracked σ ρ α β) (i : ι) : Prop where
  stableAw : ∀ x ∈ t.awOffer, (E.offer t.s i).aw = some x
  stableW : ∀ x ∈ t.wOffer, (E.offer t.s i).w = some x
  idle : E.active t.s i = none → (E.offer t.s i).aw = none ∧ (E.offer t.s i).w = none ∧
    ((E.offer t.s i).gnt = true → ∃ r, E.req i = some r ∧ E.job r = none)
  aw : ∀ j ∈ E.active t.s i, t.awsD E i <+: [j.aw]
  w : ∀ j ∈ E.active t.s i, t.wsD E i <+: j.beats
  gnt : ∀ j ∈ E.active t.s i, (E.offer t.s i).gnt = true ↔ t.awsD E i = [j.aw] ∧ t.wsD E i = j.beats
  granted : ∀ j ∈ E.active t.s i,
    (E.offer t.s i).gnt = true ↔ 0 < t.awReadiesD E i ∧ j.beats.length ≤ t.wReadiesD E i

end Runs

/-- What the channels have taken is what `n` says of the job. -/
structure Books (t : Tracked σ ρ α β) (n : Sent) (j : Job α β) : Prop where
  aws : t.aws = if n.aw then [j.aw] else []
  ws : t.ws = j.beats.take n.n
  awOffer : ∀ x ∈ t.awOffer, n.aw = false ∧ x = j.aw
  wOffer : ∀ x ∈ t.wOffer, j.beats[n.n]? = some x
  awReadies : n.aw = true ↔ 0 < t.awReadies
  wReadies : n.n = min t.wReadies j.beats.length

theorem Tracked.Fresh.books {t : Tracked σ ρ α β} (h : t.Fresh) (j : Job α β) : Books t Sent.start j := by
  obtain ⟨haws, hws, hao, hwo, har, hwr⟩ := h
  refine ⟨haws, hws, ?_, ?_, ?_, ?_⟩
  · simp [hao]
  · simp [hwo]
  · simp [har, Sent.start]
  · simp [hwr, Sent.start]

namespace Books

variable {E : Engine σ ι ρ α β} {t : Tracked σ ρ α β} {i : ι} {n : Sent} {j : Job α β}

/-- What the channels have taken after a cycle. -/
theorem take (h : Books t n j) (ho : E.offer t.s i = n.offer j (E.awReady i) (E.wReady i)) :
    let m := n.take j (E.awReady i) (E.wReady i)
    t.awsD E i = (if m.aw then [j.aw] else []) ∧ t.wsD E i = j.beats.take m.n ∧
      (m.aw = true ↔ 0 < t.awReadiesD E i) ∧ m.n = min (t.wReadiesD E i) j.beats.length := by
  have hn := h.wReadies
  refine ⟨?_, ?_, ?_, ?_⟩
  · rw [Tracked.awsD, ho, h.aws]
    cases haw : n.aw <;> cases har : E.awReady i <;> simp [Sent.offer, Sent.take, haw]
  · rw [Tracked.wsD, ho, h.ws]
    cases hwr : E.wReady i with
    | false => simp [Sent.take]
    | true =>
      by_cases hlt : n.n < j.beats.length
      · simp only [Sent.offer, Sent.take, hlt, decide_true, Bool.and_self, if_true]
        exact List.take_add_one.symm
      · simp [Sent.offer, Sent.take, hlt]
  · rw [Tracked.awReadiesD]
    have har := h.awReadies
    cases haw : n.aw <;> cases hr : E.awReady i <;> simp [haw] at har <;> simp [Sent.take, haw] <;> omega
  · rw [Tracked.wReadiesD]
    cases hr : E.wReady i with
    | false => simp [Sent.take, hn]
    | true =>
      by_cases hlt : n.n < j.beats.length
      · simp [Sent.take, hlt]
        omega
      · simp [Sent.take, hlt]
        omega

theorem done_iff (ho : E.offer t.s i = n.offer j (E.awReady i) (E.wReady i)) :
    (E.offer t.s i).gnt = true ↔ (n.take j (E.awReady i) (E.wReady i)).aw = true ∧
      (n.take j (E.awReady i) (E.wReady i)).n = j.beats.length := by
  rw [ho, Sent.offer, Sent.done, Bool.and_eq_true, beq_iff_eq]

theorem transfers (h : Books t n j) (ho : E.offer t.s i = n.offer j (E.awReady i) (E.wReady i))
    (hj : E.active t.s i = some j) : Transfers E t i := by
  obtain ⟨haws, hws, har, hwr⟩ := h.take ho
  have hdone := done_iff ho
  refine ⟨fun x hx => ?_, fun x hx => ?_, fun hn => ?_, fun k hk => ?_, fun k hk => ?_, fun k hk => ?_, fun k hk => ?_⟩
  · obtain ⟨hn, rfl⟩ := h.awOffer x hx
    rw [ho, Sent.offer, hn]
    rfl
  · rw [ho, Sent.offer]
    exact h.wOffer x hx
  · rw [hj] at hn
    cases hn
  all_goals obtain rfl := Option.some.inj (hj.symm.trans hk)
  · rw [haws]
    split
    · exact List.prefix_refl _
    · exact List.nil_prefix
  · rw [hws]
    exact List.take_prefix _ _
  · rw [hdone, haws, hws, List.take_eq_self_iff]
    have hle : (n.take j (E.awReady i) (E.wReady i)).n ≤ j.beats.length := by omega
    refine and_congr ?_ ?_
    · cases (n.take j (E.awReady i) (E.wReady i)).aw <;> simp
    · exact ⟨fun hm => Nat.le_of_eq hm.symm, fun hm => Nat.le_antisymm hle hm⟩
  · rw [hdone, har]
    refine and_congr_right fun _ => ?_
    omega

/-- The books after a cycle without a grant. -/
theorem next (h : Books t n j) (ho : E.offer t.s i = n.offer j (E.awReady i) (E.wReady i))
    (hj : E.active t.s i = some j) (hg : (E.offer t.s i).gnt = false) :
    Books (t.next E i) (n.take j (E.awReady i) (E.wReady i)) j := by
  obtain ⟨haws, hws, har, hwr⟩ := h.take ho
  have hfresh : ((E.offer t.s i).gnt || (E.active t.s i).isNone) = false := by rw [hg, hj]; rfl
  refine ⟨?_, ?_, ?_, ?_, ?_, ?_⟩
  · simpa only [Tracked.next, hfresh, Bool.false_eq_true, if_false] using haws
  · simpa only [Tracked.next, hfresh, Bool.false_eq_true, if_false] using hws
  · intro x hx
    have hx' : x ∈ (if E.awReady i then none else (E.offer t.s i).aw) := hx
    rw [ho] at hx'
    cases hr : E.awReady i <;> cases haw : n.aw <;> simp [hr, haw, Sent.offer] at hx'
    exact ⟨by simp [Sent.take, haw], hx'.symm⟩
  · intro x hx
    have hx' : x ∈ (if E.wReady i then none else (E.offer t.s i).w) := hx
    rw [ho] at hx'
    cases hr : E.wReady i with
    | true => simp [hr] at hx'
    | false => simpa [hr, Sent.offer, Sent.take] using hx'
  · simpa only [Tracked.next, hfresh, Bool.false_eq_true, if_false] using har
  · simpa only [Tracked.next, hfresh, Bool.false_eq_true, if_false] using hwr

end Books

/-! ### Runs -/

section Runs

variable {E : Engine σ ι ρ α β} {R : σ → Option ρ → Sent → Prop}

/-- The engine is at the start, or on a job that it was given before. -/
def Inv (E : Engine σ ι ρ α β) (R : σ → Option ρ → Sent → Prop) (t : Tracked σ ρ α β) : Prop :=
  ∃ n, R t.s t.held n ∧ (n = Sent.start ∧ t.Fresh ∨
    ∃ r j, t.held = some r ∧ E.job r = some j ∧ E.busy t.s = false ∧ Books t n j)

theorem inv_reset (hf : E.Follows R) {t : Tracked σ ρ α β} (h : (tracked E).init t) : Inv E R t := by
  obtain ⟨hi, hh, hfresh⟩ := h
  refine ⟨Sent.start, ?_, .inl ⟨rfl, hfresh⟩⟩
  rw [hh]
  exact hf.init t.s hi

/-- On the job that is active the books are right; without one nothing has been taken. -/
theorem Inv.books {t : Tracked σ ρ α β} {i : ι} (h : Inv E R t) (hh : Held E t i) :
    ∃ n, R t.s t.held n ∧ (∀ j, E.active t.s i = some j → Books t n j) ∧ (E.active t.s i = none → t.Fresh) := by
  obtain ⟨n, hR, hn⟩ := h
  refine ⟨n, hR, fun j hj => ?_, fun hnone => ?_⟩
  · rcases hn with ⟨rfl, hfresh⟩ | ⟨r, k, hr, hk, hb, hbooks⟩
    · exact hfresh.books j
    · have hact : E.active t.s i = some k := by
        rw [Engine.active, hb, if_neg Bool.false_ne_true, hh r hr, Option.bind_some, hk]
      obtain rfl := Option.some.inj (hj.symm.trans hact)
      exact hbooks
  · rcases hn with ⟨-, hfresh⟩ | ⟨r, k, hr, hk, hb, -⟩
    · exact hfresh
    · rw [Engine.active, hb, if_neg Bool.false_ne_true, hh r hr, Option.bind_some, hk] at hnone
      cases hnone

theorem Inv.transfers (hf : E.Follows R) {t : Tracked σ ρ α β} {i : ι} (h : Inv E R t) (hh : Held E t i) :
    Transfers E t i := by
  obtain ⟨n, hR, hbooks, hnone⟩ := h.books hh
  cases hj : E.active t.s i with
  | some j => exact (hbooks j hj).transfers (hf.active t.s t.held n i j hR hh hj).1 hj
  | none =>
    obtain ⟨haw, hw, -, -, hgnt⟩ := hf.idle t.s t.held n i hR hh hj
    obtain ⟨-, -, hao, hwo, -⟩ := hnone hj
    refine ⟨?_, ?_, fun _ => ⟨haw, hw, hgnt⟩, ?_, ?_, ?_, ?_⟩
    · simp [hao]
    · simp [hwo]
    all_goals
      rw [hj]
      exact fun _ hk => nomatch hk

theorem Inv.next (hf : E.Follows R) {t : Tracked σ ρ α β} {i : ι} (h : Inv E R t) (hh : Held E t i) :
    Inv E R (t.next E i) := by
  obtain ⟨n, hR, hbooks, -⟩ := h.books hh
  cases hj : E.active t.s i with
  | none =>
    obtain ⟨haw, hw, -, hR', -⟩ := hf.idle t.s t.held n i hR hh hj
    refine ⟨Sent.start, hR', .inl ⟨rfl, ?_⟩⟩
    simp [Tracked.Fresh, Tracked.next, hj, haw, hw]
  | some j =>
    obtain ⟨ho, hR', hbusy⟩ := hf.active t.s t.held n i j hR hh hj
    have hb := hbooks j hj
    have hgnt : (E.offer t.s i).gnt = (n.take j (E.awReady i) (E.wReady i)).done j := by rw [ho]; rfl
    cases hg : (E.offer t.s i).gnt with
    | true =>
      rw [Sent.next, ← hgnt, hg, if_pos rfl] at hR'
      refine ⟨Sent.start, hR', .inl ⟨rfl, ?_⟩⟩
      -- the last of the job has been taken, so nothing is offered any more
      obtain ⟨haw, hw⟩ := (Books.done_iff ho).1 hg
      have hao : (if E.awReady i then none else (E.offer t.s i).aw) = none := by
        rw [ho]
        cases hr : E.awReady i <;> cases hn : n.aw <;> simp [Sent.take, Sent.offer, hr, hn] at haw ⊢
      have hwo : (if E.wReady i then none else (E.offer t.s i).w) = none := by
        rw [ho]
        cases hr : E.wReady i with
        | true => rfl
        | false =>
          have hlen : n.n = j.beats.length := by simpa [Sent.take, hr] using hw
          simp [Sent.offer, hlen]
      exact ⟨by simp [Tracked.next, hg], by simp [Tracked.next, hg], hao, hwo, by simp [Tracked.next, hg],
        by simp [Tracked.next, hg]⟩
    | false =>
      rw [Sent.next, ← hgnt, hg, if_neg Bool.false_ne_true] at hR'
      refine ⟨_, hR', .inr ?_⟩
      have hact := hj
      unfold Engine.active at hact
      split at hact
      · cases hact
      · obtain ⟨r, hr, hk⟩ := Option.bind_eq_some_iff.1 hact
        rename_i hidle
        refine ⟨r, j, ?_, hk, hbusy hg, hb.next ho hj hg⟩
        change E.heldD t.s i = some r
        rw [Engine.heldD, hg, Bool.false_or, if_neg hidle, hr]

/-- A burst is complete on the channels in the cycle in which its job is granted. -/
theorem Inv.complete (hf : E.Follows R) {t : Tracked σ ρ α β} {i : ι} (h : Inv E R t) (hh : Held E t i) {len : α → ℕ}
    (hlen : ∀ r j, E.job r = some j → len j.aw = j.beats.length) :
    t.complete E i len = if (E.offer t.s i).gnt then E.active t.s i else none := by
  have ht := h.transfers hf hh
  obtain ⟨n, -, -, hfresh⟩ := h.books hh
  unfold Tracked.complete
  cases hj : E.active t.s i with
  | none =>
    have haws : t.awsD E i = [] := by simp [Tracked.awsD, (hfresh hj).1, (ht.idle hj).1]
    rw [haws]
    simp
  | some j =>
    have hl : len j.aw = j.beats.length := by
      have hact := hj
      unfold Engine.active at hact
      split at hact
      · cases hact
      · obtain ⟨r, -, hr⟩ := Option.bind_eq_some_iff.1 hact
        exact hlen r j hr
    have hgnt := ht.gnt j hj
    cases hg : (E.offer t.s i).gnt with
    | true =>
      obtain ⟨haws, hws⟩ := hgnt.1 hg
      simp [haws, hws, hl]
    | false =>
      have hno : ¬(t.awsD E i = [j.aw] ∧ t.wsD E i = j.beats) := fun hc => by simp [hgnt.2 hc] at hg
      rcases List.prefix_cons_iff.1 (ht.aw j hj) with haws | ⟨l, haws, hl'⟩
      · simp [haws]
      · rw [List.prefix_nil.1 hl'] at haws
        have hne : (t.wsD E i).length ≠ len j.aw := fun hc => hno ⟨haws, (ht.w j hj).eq_of_length (hc.trans hl)⟩
        simp [haws, hne]

/-- **Bursts.** An engine that follows what has been taken does each job once, in order and to
the end, in every run in which requests are held until they are granted. -/
theorem transfers (hf : E.Follows R) (t₀ : Tracked σ ρ α β) (h0 : (tracked E).init t₀) (is : List ι)
    (hh : (tracked E).Steps (Held E) t₀ is) : (tracked E).Steps (Transfers E) t₀ is :=
  Machine.steps_of_inv (P := Inv E R) (fun _ _ ht h => ht.next hf h) (fun _ _ ht h => ht.transfers hf h) is t₀
    (inv_reset hf h0) hh

end Runs

end Burst
end Lib
end Ariane

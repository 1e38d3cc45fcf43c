/-
# Clocked machines and their runs

A clocked machine takes one input at every clock edge. Its runs are lists of
inputs, its reachable states the ends of runs from a state a reset leaves.

* `Steps ok s is`: every edge of the run meets `ok` in the state before it;
* `Always P s is`: `P` holds in every state of the run, both ends included.

An invariant is proved from one edge (`run_inv`, `always_of_steps`,
`Reachable.inv`).
-/
import Mathlib.Data.List.Basic
import Ariane.Lib.Sizes

namespace Ariane
namespace Lib

/-- The states a reset can leave, and the state after an edge. -/
structure Machine (σ ι : Type) where
  init : σ → Prop
  next : σ → ι → σ

namespace Machine

variable {σ ι : Type} (M : Machine σ ι)

/-- The state after the inputs `is`. -/
def run (s : σ) (is : List ι) : σ := is.foldl M.next s

@[simp] theorem run_nil (s : σ) : M.run s [] = s := rfl

@[simp] theorem run_cons (s : σ) (i : ι) (is : List ι) :
    M.run s (i :: is) = M.run (M.next s i) is := rfl

theorem run_append (s : σ) (is js : List ι) : M.run s (is ++ js) = M.run (M.run s is) js := by
  simp [run]

/-- The states of the runs from reset. -/
def Reachable (s : σ) : Prop := ∃ s₀ is, M.init s₀ ∧ M.run s₀ is = s

/-- Every edge of the run meets `ok` in the state before it. -/
def Steps (ok : σ → ι → Prop) : σ → List ι → Prop
  | _, [] => True
  | s, i :: is => ok s i ∧ Steps ok (M.next s i) is

/-- `P` holds in every state of the run. -/
def Always (P : σ → Prop) : σ → List ι → Prop
  | s, [] => P s
  | s, i :: is => P s ∧ Always P (M.next s i) is

instance decidableSteps (ok : σ → ι → Prop) [∀ s i, Decidable (ok s i)] :
    ∀ (s : σ) (is : List ι), Decidable (M.Steps ok s is)
  | _, [] => isTrue trivial
  | s, i :: is =>
    have := decidableSteps ok (M.next s i) is
    inferInstanceAs (Decidable (ok s i ∧ M.Steps ok (M.next s i) is))

variable {M}

theorem Reachable.next {s : σ} (h : M.Reachable s) (i : ι) : M.Reachable (M.next s i) := by
  obtain ⟨s₀, is, h0, rfl⟩ := h
  exact ⟨s₀, is ++ [i], h0, by simp [run_append]⟩

theorem Reachable.run {s : σ} (h : M.Reachable s) (is : List ι) : M.Reachable (M.run s is) := by
  obtain ⟨s₀, js, h0, rfl⟩ := h
  exact ⟨s₀, js ++ is, h0, M.run_append s₀ js is⟩

/-- What every good edge keeps, a run of good edges keeps. -/
theorem run_inv {P : σ → Prop} {ok : σ → ι → Prop}
    (step : ∀ s i, P s → ok s i → P (M.next s i)) :
    ∀ (is : List ι) (s : σ), P s → M.Steps ok s is → P (M.run s is)
  | [], _, h, _ => h
  | i :: is, s, h, hs => run_inv step is _ (step s i h hs.1) hs.2

/-- What every good edge keeps holds all along a run of good edges. -/
theorem always_of_steps {P : σ → Prop} {ok : σ → ι → Prop}
    (step : ∀ s i, P s → ok s i → P (M.next s i)) :
    ∀ (is : List ι) (s : σ), P s → M.Steps ok s is → M.Always P s is
  | [], _, h, _ => h
  | i :: is, s, h, hs => ⟨h, always_of_steps step is _ (step s i h hs.1) hs.2⟩

/-- What an invariant gives at every good edge holds at every edge of a run of good
edges. -/
theorem steps_of_inv {P : σ → Prop} {ok Q : σ → ι → Prop}
    (step : ∀ s i, P s → ok s i → P (M.next s i)) (use : ∀ s i, P s → ok s i → Q s i) :
    ∀ (is : List ι) (s : σ), P s → M.Steps ok s is → M.Steps Q s is
  | [], _, _, _ => trivial
  | i :: is, s, h, hs => ⟨use s i h hs.1, steps_of_inv step use is _ (step s i h hs.1) hs.2⟩

/-- How many edges of the run meet `p`. -/
def count (M : Machine σ ι) (p : σ → ι → Bool) : σ → List ι → ℕ
  | _, [] => 0
  | s, i :: is => (p s i).toNat + count M p (M.next s i) is

/-- What no good edge adds to, and every good edge that meets `p` takes from, is used up
after enough of those. -/
theorem run_measure {P : σ → Prop} {ok : σ → ι → Prop} {p : σ → ι → Bool} {μ : σ → ℕ}
    (step : ∀ s i, P s → ok s i → P (M.next s i)) (le : ∀ s i, P s → ok s i → μ (M.next s i) ≤ μ s)
    (lt : ∀ s i, P s → ok s i → p s i = true → μ s ≠ 0 → μ (M.next s i) < μ s) :
    ∀ (is : List ι) (s : σ), P s → M.Steps ok s is → μ s ≤ M.count p s is → μ (M.run s is) = 0
  | [], _, _, _, hc => Nat.le_zero.1 hc
  | i :: is, s, hP, hs, hc => by
    refine run_measure step le lt is _ (step s i hP hs.1) hs.2 ?_
    have hle := le s i hP hs.1
    simp only [count] at hc
    cases hp : p s i with
    | false =>
      rw [hp, Bool.toNat_false] at hc
      omega
    | true =>
      rw [hp, Bool.toNat_true] at hc
      have := lt s i hP hs.1 hp
      omega

/-- What no good edge adds to, and every good edge that meets `p` takes from, bounds how many of
them meet `p`. -/
theorem count_le_measure {P : σ → Prop} {ok : σ → ι → Prop} {p : σ → ι → Bool} {μ : σ → ℕ}
    (step : ∀ s i, P s → ok s i → P (M.next s i))
    (le : ∀ s i, P s → ok s i → μ (M.next s i) + (p s i).toNat ≤ μ s) :
    ∀ (is : List ι) (s : σ), P s → M.Steps ok s is → M.count p s is ≤ μ s
  | [], _, _, _ => Nat.zero_le _
  | i :: is, s, hP, hs => by
    have ih := count_le_measure step le is _ (step s i hP hs.1) hs.2
    have hle := le s i hP hs.1
    rw [count]
    omega

theorem steps_true : ∀ (is : List ι) (s : σ), M.Steps (fun _ _ => True) s is
  | [], _ => trivial
  | _ :: is, _ => ⟨trivial, steps_true is _⟩

theorem Reachable.inv {P : σ → Prop} (init : ∀ s, M.init s → P s)
    (step : ∀ s i, P s → P (M.next s i)) {s : σ} (h : M.Reachable s) : P s := by
  obtain ⟨s₀, is, h0, rfl⟩ := h
  exact run_inv (fun s i hP _ => step s i hP) is s₀ (init s₀ h0) (steps_true is s₀)

theorem steps_congr {P Q : σ → ι → Prop} (h : ∀ s i, P s i ↔ Q s i) :
    ∀ (is : List ι) (s : σ), M.Steps P s is ↔ M.Steps Q s is
  | [], _ => Iff.rfl
  | i :: is, s => and_congr (h s i) (steps_congr h is _)

/-- Two properties of the edges that agree wherever an invariant holds agree along a
run that keeps it. -/
theorem steps_congr_of_inv {P : σ → Prop} {ok Q R : σ → ι → Prop}
    (step : ∀ s i, P s → ok s i → P (M.next s i))
    (h : ∀ s i, P s → ok s i → (Q s i ↔ R s i)) :
    ∀ (is : List ι) (s : σ), P s → M.Steps ok s is → (M.Steps Q s is ↔ M.Steps R s is)
  | [], _, _, _ => Iff.rfl
  | i :: is, s, hP, hs =>
    and_congr (h s i hP hs.1) (steps_congr_of_inv step h is _ (step s i hP hs.1) hs.2)

theorem steps_and {P Q : σ → ι → Prop} : ∀ (is : List ι) (s : σ),
    M.Steps (fun s i => P s i ∧ Q s i) s is ↔ M.Steps P s is ∧ M.Steps Q s is
  | [], _ => (and_self_iff).symm
  | i :: is, s => (and_congr_right fun _ => steps_and is (M.next s i)).trans and_and_and_comm

theorem steps_append {P : σ → ι → Prop} : ∀ (is js : List ι) (s : σ),
    M.Steps P s (is ++ js) ↔ M.Steps P s is ∧ M.Steps P (M.run s is) js
  | [], _, _ => ⟨fun h => ⟨trivial, h⟩, fun h => h.2⟩
  | i :: is, js, s => (and_congr_right fun _ => steps_append is js (M.next s i)).trans and_assoc.symm

theorem steps_forall {ok : ι → Prop} : ∀ (is : List ι) (s : σ),
    M.Steps (fun _ i => ok i) s is ↔ ∀ i ∈ is, ok i
  | [], _ => ⟨fun _ _ h => absurd h List.not_mem_nil, fun _ => trivial⟩
  | i :: is, s => by rw [List.forall_mem_cons, Steps, steps_forall is (M.next s i)]

/-- A property of stretches that is put together from single edges holds of every stretch of
good edges exactly if it holds of every good edge. -/
theorem stretch_iff {ok Q : σ → ι → Prop} {F : σ → List ι → Prop} (nil : ∀ s, F s [])
    (cons : ∀ s i is, Q s i → F (M.next s i) is → F s (i :: is)) (single : ∀ s i, F s [i] → Q s i)
    (is : List ι) (s : σ) :
    (∀ pre mid post, is = pre ++ mid ++ post → M.Steps ok (M.run s pre) mid → F (M.run s pre) mid) ↔
      M.Steps (fun s i => ok s i → Q s i) s is := by
  have build : ∀ (mid : List ι) (t : σ), M.Steps ok t mid →
      M.Steps (fun s i => ok s i → Q s i) t mid → F t mid := by
    intro mid
    induction mid with
    | nil => exact fun t _ _ => nil t
    | cons i mid ih => exact fun t hok h => cons t i mid (h.1 hok.1) (ih _ hok.2 h.2)
  constructor
  · intro h
    induction is generalizing s with
    | nil => trivial
    | cons i is ih =>
      refine ⟨fun hi => single s i (h [] [i] is rfl ⟨hi, trivial⟩), ih _ fun pre mid post he hok => ?_⟩
      exact h (i :: pre) mid post (congrArg (i :: ·) he) hok
  · rintro h pre mid post rfl hok
    have hmid := ((steps_append mid post _).1 ((steps_append pre (mid ++ post) s).1
      (by rwa [List.append_assoc] at h)).2).1
    exact build mid _ hok hmid

/-- What the good edges relate, the ends of every stretch of good edges are
related by. -/
theorem steps_rel_iff {R : σ → σ → Prop} (refl : ∀ s, R s s) (trans : ∀ {s t u}, R s t → R t u → R s u)
    (ok : ι → Prop) (is : List ι) (s : σ) :
    M.Steps (fun s i => ok i → R s (M.next s i)) s is ↔
      ∀ pre mid post, is = pre ++ mid ++ post → (∀ i ∈ mid, ok i) →
        R (M.run s pre) (M.run s (pre ++ mid)) := by
  have h := @stretch_iff σ ι M (fun _ i => ok i) (fun s i => R s (M.next s i)) (fun s is => R s (M.run s is))
    refl (fun _ _ _ h h' => trans h h') (fun _ _ h => h) is s
  rw [← h]
  simp only [steps_forall, run_append]

theorem Always.mono {P Q : σ → Prop} (h : ∀ s, P s → Q s) :
    ∀ {is : List ι} {s : σ}, M.Always P s is → M.Always Q s is
  | [], _, hP => h _ hP
  | _ :: _, _, hP => ⟨h _ hP.1, hP.2.mono h⟩

theorem Always.head {P : σ → Prop} : ∀ {is : List ι} {s : σ}, M.Always P s is → P s
  | [], _, h => h
  | _ :: _, _, h => h.1

theorem Always.last {P : σ → Prop} : ∀ {is : List ι} {s : σ}, M.Always P s is → P (M.run s is)
  | [], _, h => h
  | _ :: _, _, h => h.2.last

/-- Two properties of the states that agree wherever an invariant holds agree along a run that
keeps it. -/
theorem always_congr_of_inv {I P Q : σ → Prop} {ok : σ → ι → Prop}
    (step : ∀ s i, I s → ok s i → I (M.next s i)) (h : ∀ s, I s → (P s ↔ Q s)) :
    ∀ (is : List ι) (s : σ), I s → M.Steps ok s is → (M.Always P s is ↔ M.Always Q s is)
  | [], s, hI, _ => h s hI
  | i :: is, s, hI, hok =>
    and_congr (h s hI) (always_congr_of_inv step h is (M.next s i) (step s i hI hok.1) hok.2)

/-- If a good edge out of a state with `P` leads to another exactly if it meets `Q`, then `P`
holds all along a run of good edges from such a state exactly if every edge meets `Q`. -/
theorem always_iff_steps_of {I P : σ → Prop} {ok Q : σ → ι → Prop}
    (step : ∀ s i, I s → ok s i → I (M.next s i))
    (h : ∀ s i, I s → ok s i → P s → (P (M.next s i) ↔ Q s i)) :
    ∀ (is : List ι) (s : σ), I s → P s → M.Steps ok s is → (M.Always P s is ↔ M.Steps Q s is)
  | [], _, _, hP, _ => iff_of_true hP trivial
  | i :: is, s, hI, hP, hok => by
    have ih := fun hP' => always_iff_steps_of step h is (M.next s i) (step s i hI hok.1) hP' hok.2
    constructor
    · rintro ⟨-, hA⟩
      exact ⟨(h s i hI hok.1 hP).1 hA.head, (ih hA.head).1 hA⟩
    · rintro ⟨hQ, hS⟩
      have hP' := (h s i hI hok.1 hP).2 hQ
      exact ⟨hP, (ih hP').2 hS⟩

theorem always_iff_steps {I P : σ → Prop} {Q : σ → ι → Prop} (step : ∀ s i, I s → I (M.next s i))
    (h : ∀ s i, I s → P s → (P (M.next s i) ↔ Q s i)) (is : List ι) (s : σ) (hI : I s) (hP : P s) :
    M.Always P s is ↔ M.Steps Q s is :=
  always_iff_steps_of (fun s i hs _ => step s i hs) (fun s i hs _ => h s i hs) is s hI hP (steps_true is s)

end Machine

end Lib
end Ariane

/-
# A level as a request

A write asks for something by raising a level, and the next write ends it; a server takes what the
level shows whenever it is idle. Between the two there is no handshake: the server takes it again if
it is idle again before the next write, and never if it is not idle until then.

`Fits` says of a cycle that neither happens. As long as it holds, what has been asked for is what has
been taken, and at the end what the level shows (`Tidy.next`, `Tidy.once`).
-/
import Mathlib.Data.List.Basic
import Ariane.Lib.Sizes

namespace Ariane
namespace Lib
namespace Level

variable {ρ : Type}

/-- What the level shows, whether the server has taken it, and what has been asked for and taken. -/
structure Log (ρ : Type) where
  level : Option ρ
  served : Bool
  asked : List ρ
  done : List ρ

/-- A cycle: whether there is a write, what it asks for, what the level shows after it, and whether
the server is idle. -/
structure Edge (ρ : Type) where
  write : Bool
  asks : Option ρ
  levelD : Option ρ
  idle : Bool

namespace Log

variable (t : Log ρ) (e : Edge ρ)

def next : Log ρ where
  level := if e.write then e.levelD else t.level
  served := !e.write && (t.served || e.idle && t.level.isSome)
  asked := t.asked ++ if e.write then e.asks.toList else []
  done := t.done ++ if e.idle then t.level.toList else []

/-- Each request has been taken once, in order; the last may still be shown. -/
def Once : Prop := t.asked = t.done ∨ ∃ r, t.level = some r ∧ t.asked = t.done ++ [r]

def Tidy : Prop := t.asked = t.done ++ if t.served then [] else t.level.toList

/-- The server does not come back to what it has taken, and no write ends what it has not; what the
write asks for is shown. -/
structure Fits : Prop where
  again : t.served = true → t.level.isSome = true → e.idle = false
  lost : e.write = true → t.level.isSome = true → t.served = true ∨ e.idle = true
  shown : e.write = true → e.asks = e.levelD

variable {t e}

theorem Tidy.once (h : t.Tidy) : t.Once := by
  unfold Tidy at h
  cases hs : t.served with
  | true => exact .inl (by simpa [hs] using h)
  | false =>
    cases hl : t.level with
    | none => exact .inl (by simpa [hs, hl] using h)
    | some r => exact .inr ⟨r, hl, by simpa [hs, hl] using h⟩

theorem Tidy.next (h : t.Tidy) (hf : Fits t e) : (t.next e).Tidy := by
  unfold Tidy at h ⊢
  have hagain := hf.again
  have hlost := hf.lost
  have hshown := hf.shown
  -- what has been asked for before is taken by the end of the cycle, or still shown
  cases hw : e.write with
  | true =>
    rw [hw] at hlost hshown
    have htaken : t.asked = t.done ++ if e.idle then t.level.toList else [] := by
      cases hl : t.level with
      | none => simpa [hl] using h
      | some r =>
        rw [hl] at h hagain hlost
        cases hs : t.served <;> cases hi : e.idle <;> simp [hs, hi] at h hagain hlost ⊢ <;> exact h
    simp only [Log.next, hw, if_true, Bool.not_true, Bool.false_and, Bool.false_eq_true, if_false, htaken, hshown rfl]
  | false =>
    cases hl : t.level with
    | none =>
      have heq : t.asked = t.done := by simpa [hl] using h
      simp [Log.next, hw, hl, heq]
    | some r =>
      rw [hl] at h hagain
      cases hs : t.served <;> cases hi : e.idle <;> simp [hs, hi] at h hagain <;> simp [Log.next, hw, hl, hs, hi, h]

end Log

end Level
end Lib
end Ariane

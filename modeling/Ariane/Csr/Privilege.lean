/-
# The privilege level over whole runs

`priv_lvl_q` is loaded from `mpp`, from `spp`, from `dcsr.prv` and from the
target of a trap. Each of these holds an implemented level (`LevelsOK`) as long
as no CSR write puts the reserved encoding `10` into `mpp`: the write of
`mstatus` takes the field as it comes, and the next MRET installs it
(`mret_installs_reserved`).
-/
import Ariane.Csr.Cycle

namespace Ariane
namespace Csr

open Riscv Lib

variable {cfg : Cfg} {s : Regs} {i : In}

/-- The cycle does not write the reserved level to `mstatus.mpp`. -/
def MppLegal (s : Regs) (i : In) : Prop :=
  Writes s i .mstatus → (csrWdata s i).extractLsb' 11 2 ≠ 0b10#2

instance : Decidable (MppLegal s i) := by unfold MppLegal; infer_instance

/-- Everything that feeds the privilege level is an implemented level. -/
structure LevelsOK (x : Ctx) : Prop where
  privLvl : Implemented x.privLvl
  mpp : Implemented x.stack.m.pp
  spp : Implemented x.stack.s.pp
  prv : Implemented x.dcsr.prv

theorem implemented_spp (b : Bool) : Implemented (0#1 ++ BitVec.ofBool b) := by
  cases b <;> decide

theorem implemented_savedPriv (T : Mode) {p : PrivLvl} (hp : Implemented p) :
    Implemented (savedPriv T p) := by
  cases T
  · exact hp
  · exact implemented_spp _

theorem implemented_lvl (T : Mode) : Implemented T.lvl := by
  cases T <;> decide

/-- The write of a cycle keeps the levels: `sstatus` does not reach `mpp`, and
`dcsr` takes the current level whatever is written. -/
theorem levelsOK_written (h : LevelsOK (ctx s)) (hw : MppLegal s i) : LevelsOK (ctxWritten s i) := by
  rcases ctxWritten_cases s i with ⟨r, hr, hx⟩ | hx
  · rw [hx]
    cases r with
    | mstatus =>
      have hmpp := hw hr
      exact { h with mpp := (implemented_iff _).2 hmpp, spp := implemented_spp _ }
    | sstatus =>
      refine { h with mpp := ?_, spp := implemented_spp _ }
      have hkeep := statusStacks_sstatusOfWrite s (csrWdata s i)
      show Implemented (statusStacks (sstatusOfWrite s (csrWdata s i))).m.pp
      rw [hkeep]
      exact h.mpp
    | dcsr => exact { h with prv := h.privLvl }
    | _ => exact { h with }
  · rw [hx]
    exact h

theorem levelsOK_trap {x : Ctx} (hp : Implemented s.privLvl) (h : LevelsOK x) :
    LevelsOK (ctxTrap s i x) := by
  unfold ctxTrap
  split
  · generalize trapMode s i = T
    have hs := implemented_savedPriv T hp
    cases T
    · exact { h with privLvl := implemented_lvl .m, mpp := hs }
    · exact { h with privLvl := implemented_lvl .s, spp := hs }
  · exact h

theorem levelsOK_debug {x : Ctx} (hp : Implemented s.privLvl) (h : LevelsOK x) :
    LevelsOK (ctxDebug cfg s i x) where
  privLvl := by rw [ctxDebug_privLvl]; exact h.privLvl
  mpp := by rw [ctxDebug_stack]; exact h.mpp
  spp := by rw [ctxDebug_stack]; exact h.spp
  prv := by
    rw [ctxDebug_prv]
    by_cases hd : s.debugMode = true
    · rw [if_pos hd]
      exact h.prv
    · rw [if_neg hd, privLvlO, if_neg hd]
      exact hp

theorem levelsOK_return {x : Ctx} (hs : LevelsOK (ctx s)) (h : LevelsOK x) :
    LevelsOK (ctxReturn s i x) := by
  unfold ctxReturn
  split
  · exact { h with privLvl := hs.mpp, mpp := .inl rfl }
  · exact { h with privLvl := hs.spp, spp := .inl rfl }
  · exact { h with privLvl := hs.prv }
  · exact h

/-- One cycle keeps the levels. -/
theorem levelsOK_next (h : LevelsOK (ctx s)) (hw : MppLegal s i) :
    LevelsOK (ctx (next cfg s i)) := by
  rw [ctx_next]
  exact levelsOK_return h (levelsOK_debug h.privLvl (levelsOK_trap h.privLvl (levelsOK_written h hw)))

theorem levelsOK_reset : LevelsOK (ctx reset) :=
  ⟨by decide, by decide, by decide, by decide⟩

/-- In every run from reset that never writes the reserved level to `mpp`, the
privilege level is an implemented one in every state. -/
theorem privLvl_implemented (cfg : Cfg) (is : List In) (h : (machine cfg).Steps MppLegal reset is) :
    (machine cfg).Always (fun s => Implemented s.privLvl) reset is := by
  have hinv : (machine cfg).Always (fun s => LevelsOK (ctx s)) reset is :=
    Machine.always_of_steps (fun _ _ hs hw => levelsOK_next hs hw) is reset levelsOK_reset h
  exact hinv.mono fun _ hs => hs.privLvl

/-- A run that writes the supervisor level to `mpp` and returns to it. -/
theorem privLvl_implemented_supervisor : (machine socCfg).Always (fun s => Implemented s.privLvl)
    reset [.write .mstatus 0x800, .op .mret] :=
  privLvl_implemented socCfg _ ⟨by decide, by decide, trivial⟩

/-- A write of `10` to `mpp` and an MRET install the reserved level. -/
theorem mret_installs_reserved : ¬(machine socCfg).Always (fun s => Implemented s.privLvl)
    reset [.write .mstatus 0x1000, .op .mret] := by
  intro h
  exact absurd h.last (by decide)

end Csr
end Ariane

/-
# The address decoders of the crossbar

Each master has a decoder for its reads (`axi_address_decoder_AR.sv`) and one for its writes
(`axi_address_decoder_AW.sv`). A request goes to every port whose region holds its address and
which the connectivity of the master has; one that goes to no port is granted at once, and the
decoder waits until it has been answered with an error.

The decoders have no priority among the ports: a request goes to one peripheral only if the
regions do not overlap (`unique_decode_iff`).
-/
import Ariane.Soc.Xbar

namespace Ariane
namespace Soc

open Riscv

/-! ### Selecting a port -/

/-- `match_region_masked`, for the connectivity of a master. -/
def selected (conn : Periph → Bool) (addr : BitVec 64) (j : Periph) : Bool := matchRegion addr j && conn j

/-- `match_region_masked[N_INIT_PORT]`. -/
def unmatched (conn : Periph → Bool) (addr : BitVec 64) : Bool := !Periph.all.any (selected conn addr)

theorem Periph.mem_all (j : Periph) : j ∈ Periph.all := by
  cases j <;> decide

theorem unmatched_eq_true_iff {conn : Periph → Bool} {addr : BitVec 64} :
    unmatched conn addr = true ↔ ∀ j, matchRegion addr j = true → conn j = false := by
  simp only [unmatched, selected, Bool.not_eq_true', List.any_eq_false, Bool.and_eq_true, not_and,
    Bool.not_eq_true]
  exact ⟨fun h j => h j j.mem_all, fun h j _ => h j⟩

theorem unmatched_eq_false_of_selected {conn : Periph → Bool} {addr : BitVec 64} {j : Periph}
    (h : selected conn addr j = true) : unmatched conn addr = false := by
  rw [unmatched, Bool.not_eq_false']
  exact List.any_eq_true.2 ⟨j, j.mem_all, h⟩

/-- An address channel of a master. -/
structure AxReq where
  valid : Bool
  addr : BitVec 64
  len : BitVec 8
  id : BitVec 4
deriving DecidableEq, Repr

/-! ### Reads -/

/-- `CS` of the read decoder. -/
inductive ArState
  | operative | error
deriving DecidableEq, Repr

/-- `error_req_o`. -/
def arError (conn : Periph → Bool) (r : AxReq) : Bool := r.valid && unmatched conn r.addr

/-- `arvalid_o`. -/
def arvalidO (cs : ArState) (conn : Periph → Bool) (r : AxReq) (j : Periph) : Bool :=
  cs == .operative && !arError conn r && (r.valid && selected conn r.addr j)

/-- `arready_o`; `ready` are the ports' ready signals. -/
def arreadyO (cs : ArState) (conn : Periph → Bool) (r : AxReq) (ready : Periph → Bool) (errorGnt : Bool) :
    Bool :=
  match cs with
  | .operative =>
    arError conn r || (errorGnt && unmatched conn r.addr ||
      Periph.all.any fun j => ready j && selected conn r.addr j)
  | .error => false

/-- `sample_ardata_info_o`. -/
def sampleArdata (cs : ArState) (conn : Periph → Bool) (r : AxReq) : Bool :=
  cs == .operative && arError conn r

/-- `incr_req_o`. -/
def arIncr (cs : ArState) (conn : Periph → Bool) (r : AxReq) (ready : Periph → Bool) : Bool :=
  Periph.all.any fun j => arvalidO cs conn r j && ready j

/-- `NS`. -/
def ArState.next (cs : ArState) (conn : Periph → Bool) (r : AxReq) (outstanding errorGnt : Bool) : ArState :=
  match cs with
  | .operative => if arError conn r then .error else .operative
  | .error => if outstanding then .error else if errorGnt then .operative else .error

/-! ### Writes -/

/-- `CS` of the write decoder. -/
inductive AwState
  | operative | completePending | acceptWdata | completeErrorResp
deriving DecidableEq, Repr

/-- `error_detected`; nothing is decoded while the FIFO of the destinations is full. -/
def awError (conn : Periph → Bool) (r : AxReq) (grantFifo : Bool) : Bool :=
  grantFifo && (r.valid && unmatched conn r.addr)

/-- `awvalid_o`. -/
def awvalidO (cs : AwState) (conn : Periph → Bool) (r : AxReq) (grantFifo : Bool) (j : Periph) : Bool :=
  cs == .operative && !awError conn r grantFifo && (grantFifo && (r.valid && selected conn r.addr j))

/-- `awready_o`. -/
def awreadyO (cs : AwState) (conn : Periph → Bool) (r : AxReq) (ready : Periph → Bool)
    (grantFifo errorGnt : Bool) : Bool :=
  cs == .operative && (awError conn r grantFifo || grantFifo && (errorGnt && unmatched conn r.addr ||
    Periph.all.any fun j => ready j && selected conn r.addr j))

/-- `sample_awdata_info_o`. -/
def sampleAwdata (cs : AwState) (conn : Periph → Bool) (r : AxReq) (grantFifo : Bool) : Bool :=
  cs == .operative && awError conn r grantFifo

/-- `incr_req_o`. -/
def awIncr (cs : AwState) (conn : Periph → Bool) (r : AxReq) (ready : Periph → Bool) (grantFifo : Bool) : Bool :=
  Periph.all.any fun j => awvalidO cs conn r grantFifo j && ready j

/-- `DEST_o`, where the data of the write go: the matches, not masked. -/
def destO (r : AxReq) (j : Periph) : Bool := matchRegion r.addr j

/-- `push_DEST_o`. -/
def pushDest (cs : AwState) (conn : Periph → Bool) (r : AxReq) (ready : Periph → Bool)
    (grantFifo errorGnt : Bool) : Bool :=
  r.valid && awreadyO cs conn r ready grantFifo errorGnt && !awError conn r grantFifo

/-- `handle_error_o`. -/
def handleError (cs : AwState) : Bool := cs == .acceptWdata

/-- `error_req_o`. -/
def awErrorReq (cs : AwState) : Bool := cs == .completeErrorResp

/-- `NS`. -/
def AwState.next (cs : AwState) (conn : Periph → Bool) (r : AxReq)
    (grantFifo outstanding wdataErrorCompleted errorGnt : Bool) : AwState :=
  match cs with
  | .operative => if awError conn r grantFifo then .completePending else .operative
  | .completePending => if outstanding then .completePending else .acceptWdata
  | .acceptWdata => if wdataErrorCompleted then .completeErrorResp else .acceptWdata
  | .completeErrorResp => if errorGnt then .operative else .completeErrorResp

/-! ### The address map -/

theorem matchRegion_iff {addr : BitVec 64} {j : Periph} : matchRegion addr j = true ↔
    j.base.toNat ≤ addr.toNat ∧ addr.toNat ≤ (j.base + j.length - 1).toNat := by
  simp [matchRegion, BitVec.le_def]

/-- Two regions are apart, but for the timer's and the SPI controller's. -/
theorem apart : ∀ j ∈ Periph.all, ∀ k ∈ Periph.all, j = k ∨ (j.base + j.length - 1).toNat < k.base.toNat ∨
    (k.base + k.length - 1).toNat < j.base.toNat ∨ j = .timer ∧ k = .spi ∨ j = .spi ∧ k = .timer := by
  decide

/-- The timer's region holds the one of the SPI controller. -/
theorem timer_of_spi {addr : BitVec 64} (h : matchRegion addr .spi = true) : matchRegion addr .timer = true := by
  rw [matchRegion_iff] at h ⊢
  have hb : Periph.timer.base.toNat ≤ Periph.spi.base.toNat := by decide
  have he : (Periph.spi.base + Periph.spi.length - 1).toNat ≤
      (Periph.timer.base + Periph.timer.length - 1).toNat := by decide
  exact ⟨hb.trans h.1, h.2.trans he⟩

theorem match_unique_iff (addr : BitVec 64) :
    (∀ j k, matchRegion addr j = true → matchRegion addr k = true → j = k) ↔ matchRegion addr .spi = false := by
  constructor
  · intro h
    by_contra hs
    have hspi := Bool.eq_true_of_not_eq_false hs
    exact absurd (h _ _ hspi (timer_of_spi hspi)) (by decide)
  · intro h j k hj hk
    have hj' := matchRegion_iff.1 hj
    have hk' := matchRegion_iff.1 hk
    rcases apart j j.mem_all k k.mem_all with he | hlt | hlt | ⟨-, rfl⟩ | ⟨rfl, -⟩
    · exact he
    · omega
    · omega
    · exact absurd hk (by rw [h]; exact Bool.false_ne_true)
    · exact absurd hj (by rw [h]; exact Bool.false_ne_true)

/-! ### One peripheral for each request -/

/-- A request at an address that peripheral `j` has goes to `j` alone, if the bit of the
access-control matrix for `j` is set, and is answered with an error if it is not. -/
structure ForwardedBy (conn : Periph → Bool) (addr : BitVec 64) (j : Periph) : Prop where
  ar : ∀ r : AxReq, r.valid = true → r.addr = addr →
    (∀ k, arvalidO .operative conn r k = (decide (k = j) && conn j)) ∧ arError conn r = !conn j
  aw : ∀ r : AxReq, r.valid = true → r.addr = addr →
    (∀ k, awvalidO .operative conn r true k = (decide (k = j) && conn j)) ∧ awError conn r true = !conn j
  dest : ∀ r : AxReq, r.addr = addr → ∀ k, destO r k = decide (k = j)

/-- At most one peripheral has the address, it is the one whose bit decides about a request,
and an address that none has is answered with an error. -/
structure UniqueDecode (ac : Fin nrSlaves → Periph → BitVec 4) (p : PrivLvl) (i : Fin nrSlaves)
    (addr : BitVec 64) : Prop where
  unique : ∀ j k, matchRegion addr j = true → matchRegion addr k = true → j = k
  forwarded : ∀ j, matchRegion addr j = true → ForwardedBy (connectivityMap ac p i) addr j
  unmapped : (∀ j, matchRegion addr j = false) → ∀ r : AxReq, r.valid = true → r.addr = addr →
    arError (connectivityMap ac p i) r = true ∧ awError (connectivityMap ac p i) r true = true

theorem selected_of_unique {addr : BitVec 64} {j : Periph} (conn : Periph → Bool)
    (hu : ∀ j k, matchRegion addr j = true → matchRegion addr k = true → j = k)
    (hj : matchRegion addr j = true) (k : Periph) : matchRegion addr k = decide (k = j) ∧
      selected conn addr k = (decide (k = j) && conn j) := by
  by_cases hk : k = j
  · subst hk
    simp [selected, hj]
  · have hm : matchRegion addr k = false := by
      by_contra h
      exact hk (hu k j (Bool.eq_true_of_not_eq_false h) hj)
    simp [selected, hm, hk]

theorem unmatched_of_unique {addr : BitVec 64} {j : Periph} (conn : Periph → Bool)
    (hu : ∀ j k, matchRegion addr j = true → matchRegion addr k = true → j = k)
    (hj : matchRegion addr j = true) : unmatched conn addr = !conn j := by
  cases hc : conn j with
  | true =>
    have hs : selected conn addr j = true := by rw [selected, hj, hc]; rfl
    exact unmatched_eq_false_of_selected hs
  | false =>
    refine unmatched_eq_true_iff.2 fun k hk => ?_
    rw [hu k j hk hj, hc]

theorem forwardedBy_of_unique {addr : BitVec 64} {j : Periph} (conn : Periph → Bool)
    (hu : ∀ j k, matchRegion addr j = true → matchRegion addr k = true → j = k)
    (hj : matchRegion addr j = true) : ForwardedBy conn addr j := by
  have hun := unmatched_of_unique conn hu hj
  have hsel (k : Periph) := (selected_of_unique conn hu hj k).2
  refine ⟨?_, ?_, ?_⟩
  · rintro r hv rfl
    have herr : arError conn r = !conn j := by rw [arError, hv, hun, Bool.true_and]
    refine ⟨fun k => ?_, herr⟩
    rw [arvalidO, herr, hv, hsel]
    cases conn j <;> simp
  · rintro r hv rfl
    have herr : awError conn r true = !conn j := by rw [awError, hv, hun, Bool.true_and, Bool.true_and]
    refine ⟨fun k => ?_, herr⟩
    rw [awvalidO, herr, hv, hsel]
    cases conn j <;> simp
  · rintro r rfl k
    exact (selected_of_unique conn hu hj k).1

/-- For every content of the access-control matrix, level and master: an address is decoded to
one peripheral exactly if it is not the SPI controller's. -/
theorem unique_decode_iff (ac : Fin nrSlaves → Periph → BitVec 4) (p : PrivLvl) (i : Fin nrSlaves)
    (addr : BitVec 64) : UniqueDecode ac p i addr ↔ matchRegion addr .spi = false := by
  refine ⟨fun h => (match_unique_iff addr).1 h.unique, fun h => ?_⟩
  have hu := (match_unique_iff addr).2 h
  refine ⟨hu, fun j hj => forwardedBy_of_unique _ hu hj, ?_⟩
  rintro hn r hv rfl
  have hun : unmatched (connectivityMap ac p i) r.addr = true := by
    refine unmatched_eq_true_iff.2 fun j hj => ?_
    rw [hn j] at hj
    cases hj
  simp [arError, awError, hv, hun]

/-- The first address of the SPI controller is the timer's too: the core in machine mode,
with every bit set, reads from both. -/
theorem spi_not_unique : ¬UniqueDecode (fun _ _ => 0xf) privLvlM 0 0x20000000 := by
  intro h
  exact absurd (h.unique .spi .timer (by decide) (by decide)) (by decide)

end Soc
end Ariane

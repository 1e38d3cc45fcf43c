/-
# The byte lanes of loads and stores

A store sends the 64-bit word of its address the bytes that `be_gen` enables, rotated to their
lanes by `data_align`; a load shifts the word it gets back and fills it up
(`src/load_unit.sv`, the result mux). The sign is selected by an index that is registered a
cycle before the data arrives, together with the descriptor of the load.

`Muxed` is the load unit with these registers; in every state they belong to the descriptor
(`mux_eq`). At an address that is not misaligned the mux is the plain one the source keeps in a
comment, with the boxing of the floating-point loads, and what a store wrote comes back
(`byte_lanes`). Accesses that stay within the word would do (`result_eq_plain`,
`loaded_eq`); one that leaves it is misaligned (`fits_of_aligned`).
-/
import Ariane.Lib.Lanes
import Ariane.Lib.Machine
import Ariane.Lsu.Lsu

namespace Ariane
namespace Lsu
namespace Lanes

open Lib

/-! ### The request -/

/-- `be_gen`. -/
def beGen (addr : BitVec 3) (size : BitVec 2) : BitVec 8 :=
  match size with
  | 3 => 0b1111_1111
  | 2 =>
    match addr with
    | 0 => 0b0000_1111
    | 1 => 0b0001_1110
    | 2 => 0b0011_1100
    | 3 => 0b0111_1000
    | 4 => 0b1111_0000
    | _ => 0
  | 1 =>
    match addr with
    | 0 => 0b0000_0011
    | 1 => 0b0000_0110
    | 2 => 0b0000_1100
    | 3 => 0b0001_1000
    | 4 => 0b0011_0000
    | 5 => 0b0110_0000
    | 6 => 0b1100_0000
    | _ => 0
  | 0 =>
    match addr with
    | 0 => 0b0000_0001
    | 1 => 0b0000_0010
    | 2 => 0b0000_0100
    | 3 => 0b0000_1000
    | 4 => 0b0001_0000
    | 5 => 0b0010_0000
    | 6 => 0b0100_0000
    | 7 => 0b1000_0000

/-- `lsu_req_i`, with `be_i`. -/
def lsuReq (valid : Bool) (vaddr operandB : BitVec 64) (fu : Fu) (operator : FuOp) (transId : BitVec 3) :
    LsuCtrl where
  valid := valid
  vaddr := vaddr
  data := operandB
  be := beGen (vaddr.extractLsb' 0 3) (extractTransferSize operator)
  fu := fu
  operator := operator
  transId := transId

/-- `data_misaligned` of a valid request. -/
def dataMisaligned (operator : FuOp) (vaddr : BitVec 64) : Bool :=
  match operator with
  | .ld | .sd | .fld | .fsd | .amoLrd | .amoScd | .amoSwapd | .amoAddd | .amoAndd | .amoOrd
  | .amoXord | .amoMaxd | .amoMaxdu | .amoMind | .amoMindu => vaddr.extractLsb' 0 3 != 0
  | .lw | .lwu | .sw | .flw | .fsw | .amoLrw | .amoScw | .amoSwapw | .amoAddw | .amoAndw | .amoOrw
  | .amoXorw | .amoMaxw | .amoMaxwu | .amoMinw | .amoMinwu => vaddr.extractLsb' 0 2 != 0
  | .lh | .lhu | .sh | .flh | .fsh => vaddr.extractLsb' 0 1 != 0
  | _ => false

/-- The operators of the load unit. -/
def isLoad : FuOp → Bool
  | .ld | .lw | .lwu | .lh | .lhu | .lb | .lbu | .fld | .flw | .flh | .flb => true
  | _ => false

/-- The operators of the store unit that are no AMOs. -/
def isStore : FuOp → Bool
  | .sd | .sw | .sh | .sb | .fsd | .fsw | .fsh | .fsb => true
  | _ => false

/-- How many bytes an access of `size` reaches. -/
def bytes (size : BitVec 2) : ℕ := 2 ^ size.toNat

/-! ### The result mux -/

/-- `idx_q`, `signed_q` and `fp_sign_q`. -/
structure MuxRegs where
  idx : BitVec 3
  signed : Bool
  fpSign : Bool
deriving DecidableEq, Repr

/-- `signed_d`. -/
def signedD (operator : FuOp) : Bool := operator == .lw || operator == .lh || operator == .lb

/-- `fp_sign_d`. -/
def fpSignD (operator : FuOp) : Bool := operator == .flw || operator == .flh || operator == .flb

/-- `idx_d`. -/
def idxD (d : LoadData) : BitVec 3 :=
  if d.operator = .lw ∨ d.operator = .flw then d.addressOffset + 3
  else if d.operator = .lh ∨ d.operator = .flh then d.addressOffset + 1
  else d.addressOffset

/-- What the mux registers take for the descriptor `load_data_d`. -/
def muxD (d : LoadData) : MuxRegs := ⟨idxD d, signedD d.operator, fpSignD d.operator⟩

/-- `shifted_data`. -/
def shiftedData (d : LoadData) (rdata : BitVec 64) : BitVec 64 := rdata >>> (d.addressOffset ++ 0#3).toNat

/-- `sign_bits[k]`. -/
def signBits (rdata : BitVec 64) (k : BitVec 3) : Bool := rdata.getLsbD (8 * k.toNat + 7)

/-- `sign_bit`. -/
def signBit (m : MuxRegs) (rdata : BitVec 64) : Bool := m.signed && signBits rdata m.idx || m.fpSign

/-- `result_o`. -/
def resultO (d : LoadData) (m : MuxRegs) (rdata : BitVec 64) : BitVec 64 :=
  match d.operator with
  | .lw | .lwu | .flw => BitVec.fill 32 (signBit m rdata) ++ (shiftedData d rdata).extractLsb' 0 32
  | .lh | .lhu | .flh => BitVec.fill 48 (signBit m rdata) ++ (shiftedData d rdata).extractLsb' 0 16
  | .lb | .lbu | .flb => BitVec.fill 56 (signBit m rdata) ++ (shiftedData d rdata).extractLsb' 0 8
  | _ => shiftedData d rdata

/-- The result mux in the comment, of the shifted data. -/
def plainMux (operator : FuOp) (shifted : BitVec 64) : BitVec 64 :=
  match operator with
  | .lwu => (shifted.extractLsb' 0 32).setWidth 64
  | .lhu => (shifted.extractLsb' 0 16).setWidth 64
  | .lbu => (shifted.extractLsb' 0 8).setWidth 64
  | .lw => (shifted.extractLsb' 0 32).signExtend 64
  | .lh => (shifted.extractLsb' 0 16).signExtend 64
  | .lb => (shifted.extractLsb' 0 8).signExtend 64
  | _ => shifted

/-- The register that a load of `operator` makes of the value: its low bits, sign-extended,
zero-extended or with ones above them. -/
def extend (operator : FuOp) (value : BitVec 64) : BitVec 64 :=
  match operator with
  | .flw => BitVec.allOnes 32 ++ value.extractLsb' 0 32
  | .flh => BitVec.allOnes 48 ++ value.extractLsb' 0 16
  | .flb => BitVec.allOnes 56 ++ value.extractLsb' 0 8
  | op => plainMux op value

/-! ### The load unit with its mux registers -/

structure Muxed where
  ld : LoadRegs
  mux : MuxRegs

def Muxed.next (s : Muxed) (i : LoadIn) : Muxed := ⟨Load.next s.ld i, muxD (Load.loadDataD s.ld i)⟩

def Muxed.reset : Muxed := ⟨⟨.idle, ⟨0, 0, .add⟩⟩, ⟨0, false, false⟩⟩

def muxed : Machine Muxed LoadIn := ⟨(· = Muxed.reset), Muxed.next⟩

/-- The result for the data that arrives. -/
def Muxed.result (s : Muxed) (rdata : BitVec 64) : BitVec 64 := resultO s.ld.loadData s.mux rdata

/-- What a store of `value` did to the word `old`, of which the load in `s` gets it back:
`word` has the value for the load, and `old` outside the bytes of the access. -/
structure RoundTrip (s : Muxed) (size : BitVec 2) (value old word : BitVec 64) : Prop where
  loaded : s.result word = extend s.ld.loadData.operator value
  kept : ∀ k < 8, ¬(s.ld.loadData.addressOffset.toNat ≤ k ∧
    k < s.ld.loadData.addressOffset.toNat + bytes size) → byte k word = byte k old

/-! ### Accesses within a word -/

/-- The registered index and flags are those of the registered descriptor. -/
theorem mux_eq {s : Muxed} (h : muxed.Reachable s) : s.mux = muxD s.ld.loadData := by
  refine Machine.Reachable.inv (P := fun s => s.mux = muxD s.ld.loadData) ?_ (fun _ _ _ => rfl) h
  rintro _ rfl
  decide

/-- `be_gen` enables the bytes of an access that stays within the word. -/
theorem getLsbD_beGen : ∀ (addr : BitVec 3) (size : BitVec 2), addr.toNat + bytes size ≤ 8 →
    ∀ k : Fin 8, (beGen addr size).getLsbD k =
      decide (addr.toNat ≤ k.val ∧ k.val < addr.toNat + bytes size) := by
  decide

theorem extractLsb'_low (vaddr : BitVec 64) {l : ℕ} (hl : l ≤ 3) :
    vaddr.extractLsb' 0 l = (vaddr.extractLsb' 0 3).extractLsb' 0 l :=
  (@extractLsb'_extractLsb' 64 vaddr 0 3 0 l (by omega)).symm

theorem fits_of_low : ∀ addr : BitVec 3,
    (addr = 0 → addr.toNat + 8 ≤ 8) ∧ (addr.extractLsb' 0 2 = 0 → addr.toNat + 4 ≤ 8) ∧
      (addr.extractLsb' 0 1 = 0 → addr.toNat + 2 ≤ 8) ∧ addr.toNat + 1 ≤ 8 := by
  decide

/-- An access that leaves its word is misaligned. -/
theorem fits_of_aligned {operator : FuOp} {vaddr : BitVec 64}
    (hop : isLoad operator = true ∨ isStore operator = true) (h : dataMisaligned operator vaddr = false) :
    (vaddr.extractLsb' 0 3).toNat + bytes (extractTransferSize operator) ≤ 8 := by
  obtain ⟨hd, hw, hh, hb⟩ := fits_of_low (vaddr.extractLsb' 0 3)
  have h2 := extractLsb'_low vaddr (l := 2) (by omega)
  have h1 := extractLsb'_low vaddr (l := 1) (by omega)
  cases operator with
  | ld | sd | fld | fsd => exact hd (by simpa [dataMisaligned] using h)
  | lw | lwu | sw | flw | fsw => exact hw (h2.symm.trans (by simpa [dataMisaligned] using h))
  | lh | lhu | sh | flh | fsh => exact hh (h1.symm.trans (by simpa [dataMisaligned] using h))
  | lb | lbu | sb | flb | fsb => exact hb
  | _ => simp [isLoad, isStore] at hop

theorem toNat_shift (addr : BitVec 3) : (addr ++ 0#3).toNat = 8 * addr.toNat := by
  rw [toNat_append_eq, BitVec.toNat_ofNat, Nat.zero_mod]
  omega

/-- The sign bit of the low bytes of the shifted data is where the index points. -/
theorem msb_shifted (d : LoadData) (rdata : BitVec 64) {k : BitVec 3} {l : ℕ}
    (hk : k.toNat + 1 = d.addressOffset.toNat + l) (hl : 0 < l) :
    ((shiftedData d rdata).extractLsb' 0 (8 * l)).msb = signBits rdata k := by
  have hlt : 8 * l - 1 < 8 * l := by omega
  have hidx : 8 * d.addressOffset.toNat + (8 * l - 1) = 8 * k.toNat + 7 := by omega
  rw [BitVec.msb_eq_getLsbD_last, BitVec.getLsbD_extractLsb', decide_eq_true hlt, Bool.true_and,
    Nat.zero_add, shiftedData, toNat_shift, BitVec.getLsbD_ushiftRight, hidx, signBits]

theorem toNat_add_of_fits : ∀ (addr k : BitVec 3), addr.toNat + (k.toNat + 1) ≤ 8 →
    (addr + k).toNat + 1 = addr.toNat + (k.toNat + 1) := by
  decide

theorem signBit_signed (idx : BitVec 3) (rdata : BitVec 64) :
    signBit ⟨idx, true, false⟩ rdata = signBits rdata idx := by
  rw [signBit, Bool.true_and, Bool.or_false]

theorem signBit_unsigned (idx : BitVec 3) (rdata : BitVec 64) : signBit ⟨idx, false, false⟩ rdata = false := by
  rw [signBit, Bool.false_and, Bool.or_false]

theorem signBit_fp (idx : BitVec 3) (rdata : BitVec 64) : signBit ⟨idx, false, true⟩ rdata = true := by
  rw [signBit, Bool.or_true]

/-- Filled up with the bit the index points at, the low bytes are sign-extended. -/
theorem fill_signed (d : LoadData) (rdata : BitVec 64) {k : BitVec 3} {l n : ℕ}
    (hk : k.toNat + 1 = d.addressOffset.toNat + l) (hl : 0 < l) :
    BitVec.fill n (signBit ⟨k, true, false⟩ rdata) ++ (shiftedData d rdata).extractLsb' 0 (8 * l) =
      ((shiftedData d rdata).extractLsb' 0 (8 * l)).signExtend (n + 8 * l) := by
  rw [signBit_signed, ← msb_shifted d rdata hk hl, fill_append_msb]

theorem fill_unsigned (idx : BitVec 3) (rdata : BitVec 64) {l n : ℕ} (x : BitVec l) :
    BitVec.fill n (signBit ⟨idx, false, false⟩ rdata) ++ x = x.setWidth (n + l) := by
  rw [signBit_unsigned, fill_append_false]

theorem fill_fp (idx : BitVec 3) (rdata : BitVec 64) {l n : ℕ} (x : BitVec l) :
    BitVec.fill n (signBit ⟨idx, false, true⟩ rdata) ++ x = BitVec.allOnes n ++ x := by
  rw [signBit_fp, BitVec.fill_true]

/-- The fast mux is the plain one for an access within the word. -/
theorem result_eq_plain {d : LoadData} (hop : isLoad d.operator = true)
    (hfit : d.addressOffset.toNat + bytes (extractTransferSize d.operator) ≤ 8) (rdata : BitVec 64) :
    resultO d (muxD d) rdata = extend d.operator (shiftedData d rdata) := by
  obtain ⟨id, addr, operator⟩ := d
  cases operator with
  | lw => exact fill_signed (l := 4) ⟨id, addr, .lw⟩ rdata (toNat_add_of_fits addr 3 hfit) (by decide)
  | lh => exact fill_signed (l := 2) ⟨id, addr, .lh⟩ rdata (toNat_add_of_fits addr 1 hfit) (by decide)
  | lb => exact fill_signed (l := 1) ⟨id, addr, .lb⟩ rdata rfl (by decide)
  | lwu => exact fill_unsigned addr rdata _
  | lhu => exact fill_unsigned addr rdata _
  | lbu => exact fill_unsigned addr rdata _
  | flw => exact fill_fp (addr + 3) rdata _
  | flh => exact fill_fp (addr + 1) rdata _
  | flb => exact fill_fp addr rdata _
  | ld | fld => rfl
  | _ => simp [isLoad] at hop

/-- A word across the end of its word has its sign bit looked up at the other end. -/
example : resultO ⟨0, 5, .lw⟩ (muxD ⟨0, 5, .lw⟩) 0x80 ≠ extend .lw (shiftedData ⟨0, 5, .lw⟩ 0x80) := by
  decide

/-! ### The round trip -/

theorem extractLsb'_congr {x y : BitVec 64} {l n : ℕ} (h : ∀ j < l, x.getLsbD j = y.getLsbD j) (hn : n ≤ l) :
    x.extractLsb' 0 n = y.extractLsb' 0 n := by
  apply extractLsb'_eq_of_getLsbD
  intro k hk
  rw [BitVec.getLsbD_extractLsb', decide_eq_true hk, Bool.true_and, Nat.zero_add, h k (by omega)]

/-- A load sees no more of the value than its low bytes. -/
theorem extend_congr {operator : FuOp} (hop : isLoad operator = true) {x y : BitVec 64}
    (h : ∀ j < 8 * bytes (extractTransferSize operator), x.getLsbD j = y.getLsbD j) :
    extend operator x = extend operator y := by
  cases operator with
  | lw | lwu | flw => simp only [extend, plainMux, extractLsb'_congr (n := 32) h (by decide)]
  | lh | lhu | flh => simp only [extend, plainMux, extractLsb'_congr (n := 16) h (by decide)]
  | lb | lbu | flb => simp only [extend, plainMux, extractLsb'_congr (n := 8) h (by decide)]
  | ld | fld => exact BitVec.eq_of_getLsbD_eq h
  | _ => simp [isLoad] at hop

/-- The word after a store, shifted to the access, has the value in its low bytes. -/
theorem loaded_eq (addr : BitVec 3) (size : BitVec 2) (hfit : addr.toNat + bytes size ≤ 8)
    (value old : BitVec 64) (j : ℕ) (hj : j < 8 * bytes size) :
    (writeLanes (beGen addr size) old (dataAlign addr value) >>> (8 * addr.toNat)).getLsbD j =
      value.getLsbD j := by
  refine getLsbD_shiftRight_writeLanes hfit (fun i hi => ?_) old value hj
  rw [getLsbD_beGen addr size hfit ⟨addr.toNat + i, by omega⟩]
  simp [hi]

/-- The bytes beside the access keep what they were. -/
theorem kept_eq (addr : BitVec 3) (size : BitVec 2) (hfit : addr.toNat + bytes size ≤ 8)
    (new old : BitVec 64) {k : ℕ} (hk : k < 8) (hout : ¬(addr.toNat ≤ k ∧ k < addr.toNat + bytes size)) :
    byte k (writeLanes (beGen addr size) old new) = byte k old := by
  have hbe : (beGen addr size).getLsbD k = false := by
    rw [getLsbD_beGen addr size hfit ⟨k, hk⟩, decide_eq_false hout]
  exact (byte_writeLanes (m := 8) _ _ _ k).trans (by rw [hbe]; rfl)

/-- What the store unit holds for the store buffer a cycle after the request. -/
theorem store_next (st : StoreRegs) {i : StoreIn} {vaddr value : BitVec 64} {operator : FuOp}
    (hop : isStore operator = true) (hbe : i.ctrl.be = beGen (vaddr.extractLsb' 0 3) (extractTransferSize operator))
    (hvaddr : i.ctrl.vaddr = vaddr) (hdata : i.ctrl.data = value) (hoper : i.ctrl.operator = operator) :
    (Store.next st i).stBe = beGen (vaddr.extractLsb' 0 3) (extractTransferSize operator) ∧
      (Store.next st i).stData = dataAlign (vaddr.extractLsb' 0 3) value := by
  have hamo : operator.isAmo = false := by
    cases operator with
    | sd | sw | sh | sb | fsd | fsw | fsh | fsb => rfl
    | _ => simp [isStore] at hop
  refine ⟨hbe, ?_⟩
  simp only [Store.next, hoper, hamo, hvaddr, hdata, Bool.false_eq_true, if_false]

/-- **The byte lanes agree.** In every state of the load unit that waits for the data of a load
at an address that is not misaligned, the mux is the plain one; and of a store of the same size
there, whose enables and rotated data the store unit holds after the cycle that took it, the
load gets the value back, and the rest of the word is kept. -/
theorem byte_lanes {s : Muxed} (hs : muxed.Reachable s) (hld : isLoad s.ld.loadData.operator = true)
    {vaddr : BitVec 64} (haddr : s.ld.loadData.addressOffset = vaddr.extractLsb' 0 3)
    (hal : dataMisaligned s.ld.loadData.operator vaddr = false) :
    (∀ rdata, s.result rdata = extend s.ld.loadData.operator (shiftedData s.ld.loadData rdata)) ∧
      ∀ (st : StoreRegs) (i : StoreIn) (operator : FuOp) (value old : BitVec 64) (valid : Bool) (fu : Fu)
        (transId : BitVec 3), i.ctrl = lsuReq valid vaddr value fu operator transId →
        isStore operator = true →
        extractTransferSize operator = extractTransferSize s.ld.loadData.operator →
        RoundTrip s (extractTransferSize operator) value old
          (writeLanes (Store.next st i).stBe old (Store.next st i).stData) := by
  have hfit := fits_of_aligned (Or.inl hld) hal
  rw [← haddr] at hfit
  have hres : ∀ rdata, s.result rdata =
      extend s.ld.loadData.operator (shiftedData s.ld.loadData rdata) := by
    intro rdata
    rw [Muxed.result, mux_eq hs, result_eq_plain hld hfit]
  refine ⟨hres, ?_⟩
  rintro st i operator value old valid fu transId hctrl hst hsize
  obtain ⟨hbe, hdata⟩ := store_next st (i := i) hst (congrArg LsuCtrl.be hctrl)
    (congrArg LsuCtrl.vaddr hctrl) (congrArg LsuCtrl.data hctrl) (congrArg LsuCtrl.operator hctrl)
  rw [hbe, hdata, ← haddr, hsize]
  refine ⟨?_, fun k hk hout => kept_eq _ _ hfit _ _ hk hout⟩
  rw [hres]
  apply extend_congr hld
  intro j hj
  rw [shiftedData, toNat_shift]
  exact loaded_eq _ _ hfit value old j hj

/-- A signed byte load at the address 5 that the cache grants and the MMU translates. -/
def lbAtFive : LoadIn where
  flush := false
  valid := true
  ctrl := lsuReq true 5 0 .load .lb 1
  ex := Exn.none
  dtlbHit := true
  pageOffsetMatches := false
  dataGnt := true
  dataRvalid := false

/-- The store that is read back by it. -/
def sbAtFive : StoreIn where
  flush := false
  valid := true
  ctrl := lsuReq true 5 0x1280 .store .sb 2
  ex := Exn.none
  dtlbHit := true
  stReady := true

theorem byte_lanes_lb :
    RoundTrip (Muxed.next .reset lbAtFive) 0 0x1280 0x1122334455667788
        (writeLanes (Store.next ⟨.idle, 0, 0, 0, .none, 0⟩ sbAtFive).stBe 0x1122334455667788
          (Store.next ⟨.idle, 0, 0, 0, .none, 0⟩ sbAtFive).stData) ∧
      extend .lb 0x1280 = 0xffffffffffffff80 := by
  have hreach : muxed.Reachable (Muxed.next .reset lbAtFive) := ⟨.reset, [lbAtFive], rfl, rfl⟩
  have h := @byte_lanes _ hreach (by decide) 5 (by decide) (by decide)
  exact ⟨h.2 _ sbAtFive .sb 0x1280 0x1122334455667788 true .store 2 rfl (by decide) (by decide), by decide⟩

end Lanes
end Lsu
end Ariane

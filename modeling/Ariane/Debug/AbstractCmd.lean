/-
# Abstract commands

`dm_mem.sv` of the debug module makes a program of every abstract command, ten words that a halted
hart runs (`abstractCmdRom`), with the instruction helpers of `dm_pkg.sv`. The register of the
command is moved between the hart and the data registers by way of `a0`, which the program loads with
the base of the debug module, and `s0`; what these held is in `dscratch1` and `dscratch0`.

* `unsupported_iff`: the commands that are refused;
* `abstract_cmd_meaning`: the program of a command does what the command means
  (`Command.meaning`). `dscratch0` and `dscratch1` are no registers of their own here, but `s0` and
  `a0`. An access that raises an exception leaves the base of the debug module in `a0`, and a write
  of a CSR what was to be written in `s0`. A command without a transfer runs an illegal instruction.
-/
import Ariane.Debug.Hart

namespace Ariane
namespace Dm

open Isa Lib

/-! ### Commands -/

/-- `cmd_e`. -/
def accessRegister : BitVec 8 := 0

/-- `command_t`. -/
structure Command where
  cmdtype : BitVec 8
  control : BitVec 24
deriving DecidableEq, Repr

def Command.ofBits (w : BitVec 32) : Command := ⟨w.extractLsb' 24 8, w.extractLsb' 0 24⟩

/-- `ac_ar_cmd_t`. -/
structure AcArCmd where
  aarsize : BitVec 3
  aarpostincrement : Bool
  postexec : Bool
  transfer : Bool
  write : Bool
  regno : BitVec 16
deriving DecidableEq, Repr

/-- `ac_ar`. -/
def Command.acAr (c : Command) : AcArCmd where
  aarsize := c.control.extractLsb' 20 3
  aarpostincrement := c.control.getLsbD 19
  postexec := c.control.getLsbD 18
  transfer := c.control.getLsbD 17
  write := c.control.getLsbD 16
  regno := c.control.extractLsb' 0 16

/-! ### The instruction helpers -/

def jal (rd : BitVec 5) (imm : BitVec 21) : BitVec 32 :=
  imm.extractLsb' 20 1 ++ imm.extractLsb' 1 10 ++ imm.extractLsb' 11 1 ++ imm.extractLsb' 12 8 ++ rd ++ 0x6f#7
def slli (rd rs1 : BitVec 5) (shamt : BitVec 6) : BitVec 32 := 0#6 ++ shamt ++ rs1 ++ 1#3 ++ rd ++ 0x13#7
def srli (rd rs1 : BitVec 5) (shamt : BitVec 6) : BitVec 32 := 0#6 ++ shamt ++ rs1 ++ 5#3 ++ rd ++ 0x13#7
def load (size : BitVec 3) (dest base : BitVec 5) (offset : BitVec 12) : BitVec 32 :=
  offset ++ base ++ size ++ dest ++ 0x03#7
def auipc (rd : BitVec 5) (imm : BitVec 21) : BitVec 32 :=
  imm.extractLsb' 20 1 ++ imm.extractLsb' 1 10 ++ imm.extractLsb' 11 1 ++ imm.extractLsb' 12 8 ++ rd ++ 0x17#7
def store (size : BitVec 3) (src base : BitVec 5) (offset : BitVec 12) : BitVec 32 :=
  offset.extractLsb' 5 7 ++ src ++ base ++ size ++ offset.extractLsb' 0 5 ++ 0x23#7
def floatLoad (size : BitVec 3) (dest base : BitVec 5) (offset : BitVec 12) : BitVec 32 :=
  offset ++ base ++ size ++ dest ++ 0b0000111#7
def floatStore (size : BitVec 3) (src base : BitVec 5) (offset : BitVec 12) : BitVec 32 :=
  offset.extractLsb' 5 7 ++ src ++ base ++ size ++ offset.extractLsb' 0 5 ++ 0b0100111#7
def csrw (csr : BitVec 12) (rs1 : BitVec 5) : BitVec 32 := csr ++ rs1 ++ 1#3 ++ 0#5 ++ 0x73#7
def csrr (csr : BitVec 12) (dest : BitVec 5) : BitVec 32 := csr ++ 0#5 ++ 2#3 ++ dest ++ 0x73#7
def ebreak : BitVec 32 := 0x00100073
def nop : BitVec 32 := 0x00000013
def illegal : BitVec 32 := 0x00000000

/-! ### The program of a command -/

/-- `MaxAar` at a bus width of 64. -/
def maxAar : BitVec 3 := 4

/-- `DataAddr`. -/
def dataAddr : BitVec 12 := 0x380

def s0 : BitVec 5 := 8
def a0 : BitVec 5 := 10

/-- `abstract_cmd`, by the halves of its doublewords, and `unsupported_command`. -/
structure AbstractCmd where
  lo0 : BitVec 32
  hi0 : BitVec 32
  lo1 : BitVec 32
  hi1 : BitVec 32
  lo2 : BitVec 32
  hi2 : BitVec 32
  lo3 : BitVec 32
  hi3 : BitVec 32
  lo4 : BitVec 32
  hi4 : BitVec 32
  unsupported : Bool
deriving DecidableEq

def AbstractCmd.words (p : AbstractCmd) : List (BitVec 32) :=
  [p.lo0, p.hi0, p.lo1, p.hi1, p.lo2, p.hi2, p.lo3, p.hi3, p.lo4, p.hi4]

def AbstractCmd.defaults : AbstractCmd where
  lo0 := illegal
  hi0 := auipc a0 0
  lo1 := srli a0 a0 12
  hi1 := slli a0 a0 12
  lo2 := nop
  hi2 := nop
  lo3 := nop
  hi3 := nop
  lo4 := csrr dscratch1 a0
  hi4 := ebreak
  unsupported := false

/-- The register number names the register that the program itself uses for the base. -/
def AcArCmd.isA0 (a : AcArCmd) : Bool :=
  a.regno.getLsbD 12 && !a.regno.getLsbD 5 && a.regno.extractLsb' 0 5 == 10

/-- From the data registers to the register. -/
def abstractWrite (a : AcArCmd) (p : AbstractCmd) : AbstractCmd :=
  let p := { p with lo0 := csrw dscratch1 a0 }
  if a.regno.extractLsb' 14 2 ≠ 0 then { p with lo0 := ebreak, unsupported := true }
  else if a.isA0 then
    { p with
      lo2 := csrw dscratch0 s0
      hi2 := load a.aarsize s0 a0 dataAddr
      lo3 := csrw dscratch1 s0
      hi3 := csrr dscratch0 s0 }
  else if a.regno.getLsbD 12 then
    if a.regno.getLsbD 5 then { p with lo2 := floatLoad a.aarsize (a.regno.extractLsb' 0 5) a0 dataAddr }
    else { p with lo2 := load a.aarsize (a.regno.extractLsb' 0 5) a0 dataAddr }
  else
    { p with
      lo2 := csrw dscratch0 s0
      hi2 := load a.aarsize s0 a0 dataAddr
      lo3 := csrw (a.regno.extractLsb' 0 12) s0
      hi3 := csrr dscratch0 s0 }

/-- From the register to the data registers. -/
def abstractRead (a : AcArCmd) (p : AbstractCmd) : AbstractCmd :=
  let p := { p with lo0 := csrw dscratch1 a0 }
  if a.regno.extractLsb' 14 2 ≠ 0 then { p with lo0 := ebreak, unsupported := true }
  else if a.isA0 then
    { p with
      lo2 := csrw dscratch0 s0
      hi2 := csrr dscratch1 s0
      lo3 := store a.aarsize s0 a0 dataAddr
      hi3 := csrr dscratch0 s0 }
  else if a.regno.getLsbD 12 then
    if a.regno.getLsbD 5 then { p with lo2 := floatStore a.aarsize (a.regno.extractLsb' 0 5) a0 dataAddr }
    else { p with lo2 := store a.aarsize (a.regno.extractLsb' 0 5) a0 dataAddr }
  else
    { p with
      lo2 := csrw dscratch0 s0
      hi2 := csrr (a.regno.extractLsb' 0 12) s0
      lo3 := store a.aarsize s0 a0 dataAddr
      hi3 := csrr dscratch0 s0 }

/-- The part of the program that depends on the access. -/
def abstractBody (a : AcArCmd) (p : AbstractCmd) : AbstractCmd :=
  if a.aarsize < maxAar ∧ a.transfer = true ∧ a.write = true then abstractWrite a p
  else if a.aarsize < maxAar ∧ a.transfer = true ∧ a.write = false then abstractRead a p
  else if maxAar ≤ a.aarsize ∨ a.aarpostincrement = true then { p with lo0 := ebreak, unsupported := true }
  else p

/-- The program runs into the program buffer instead of its end. -/
def runOn (a : AcArCmd) (p : AbstractCmd) : AbstractCmd :=
  if a.postexec && !p.unsupported then { p with hi4 := nop } else p

/-- `abstract_cmd_rom`. -/
def abstractCmdRom (c : Command) : AbstractCmd :=
  if c.cmdtype = accessRegister then runOn c.acAr (abstractBody c.acAr .defaults)
  else { AbstractCmd.defaults with lo0 := ebreak, unsupported := true }

@[simp] theorem unsupported_runOn (a : AcArCmd) (p : AbstractCmd) : (runOn a p).unsupported = p.unsupported := by
  unfold runOn
  split <;> rfl

/-- The commands that are reported as not supported. A number of a GPR, a FPR or a CSR has its upper
bits zero; the postincrement is refused only where there is no transfer. -/
theorem unsupported_iff (c : Command) : (abstractCmdRom c).unsupported = true ↔
    c.cmdtype ≠ accessRegister ∨ maxAar ≤ c.acAr.aarsize ∨
      if c.acAr.transfer then c.acAr.regno.extractLsb' 14 2 ≠ 0 else c.acAr.aarpostincrement = true := by
  by_cases hc : c.cmdtype = accessRegister
  · rw [abstractCmdRom, if_pos hc, unsupported_runOn]
    simp only [hc, ne_eq, not_true_eq_false, false_or]
    by_cases hs : c.acAr.aarsize < maxAar
    · have hle : ¬maxAar ≤ c.acAr.aarsize := by simpa using hs
      cases ht : c.acAr.transfer with
      | false => simp only [abstractBody, hs, hle, ht]; split_ifs <;> simp_all [AbstractCmd.defaults]
      | true =>
        have hw : (abstractBody c.acAr .defaults).unsupported =
            decide (c.acAr.regno.extractLsb' 14 2 ≠ 0) := by
          cases hw : c.acAr.write <;> simp only [abstractBody, hs, ht, hw, abstractWrite, abstractRead] <;>
            split_ifs <;> simp_all [AbstractCmd.defaults]
        simp [hw, hle]
    · have hle : maxAar ≤ c.acAr.aarsize := by simpa using hs
      simp [abstractBody, hs, hle]
  · simp [abstractCmdRom, hc]

/-! ### The programs as instructions -/

/-- The load that reads as many bytes as `size` says. -/
def loadOf (size : BitVec 3) : LoadOp :=
  if size = 0 then .lb else if size = 1 then .lh else if size = 2 then .lw else .ld

def storeOf (size : BitVec 3) : StoreOp :=
  if size = 0 then .sb else if size = 1 then .sh else if size = 2 then .sw else .sd

/-- The precision of as many bytes as `size` says. -/
def precOf (size : BitVec 3) : Option Prec := if size = 2 then some .s else if size = 3 then some .d else none

section Encodings

variable {size : BitVec 3} {r r1 : BitVec 5} {imm : BitVec 12}

theorem loadOf_funct3 : ∀ {size : BitVec 3}, size < maxAar → (loadOf size).funct3 = size := by decide
theorem storeOf_funct3 : ∀ {size : BitVec 3}, size < maxAar → (storeOf size).funct3 = size := by decide

theorem load_eq (h : size < maxAar) : load size r r1 imm = encode (.load (loadOf size) r r1 imm) := by
  rw [encode, loadOf_funct3 h]
  rfl

theorem store_eq (h : size < maxAar) : store size r r1 imm = encode (.store (storeOf size) r1 r imm) := by
  rw [encode, storeOf_funct3 h]
  rfl

theorem precOf_funct3 {p : Prec} (h : precOf size = some p) : p.funct3 = size := by
  revert size p
  decide

theorem floatLoad_eq {p : Prec} (h : precOf size = some p) :
    floatLoad size r r1 imm = encode (.fload p r r1 imm) := by
  rw [encode, precOf_funct3 h]
  rfl

theorem floatStore_eq {p : Prec} (h : precOf size = some p) :
    floatStore size r r1 imm = encode (.fstore p r1 r imm) := by
  rw [encode, precOf_funct3 h]
  rfl

theorem csrw_eq : csrw imm r = encode (.csr .rw 0 r imm) := rfl
theorem csrr_eq : csrr imm r = encode (.csr .rs r 0 imm) := rfl
theorem auipc_eq : auipc r 0 = encode (.auipc r 0) := rfl
theorem srli_eq {n : BitVec 6} : srli r r1 n = encode (.shiftImm .srl r r1 n) := rfl
theorem slli_eq {n : BitVec 6} : slli r r1 n = encode (.shiftImm .sll r r1 n) := rfl
theorem ebreak_eq : ebreak = encode .ebreak := by decide
theorem nop_eq : nop = encode (.opImm .addi 0 0 0) := by decide

theorem precOf_none : ∀ {size : BitVec 3}, precOf size = none →
    Prec.all.find? (fun p => p.funct3 == size) = none := by decide

/-- There are floating-point loads and stores of words and doublewords only. -/
theorem decode_floatLoad (h : precOf size = none) : Isa.decode (floatLoad size r r1 imm) = none := by
  obtain ⟨ho, hd, h3, h1, hi⟩ := @Decoder.iType_inv r1 size r 0b0000111 imm _ rfl
  have hc : candidate (floatLoad size r r1 imm) = none := by
    show candidate (iType imm r1 size r 0b0000111) = none
    simp only [candidate, ho, h3, precOf_none h]
    rfl
  rw [Isa.decode, hc]
  rfl

theorem decode_floatStore (h : precOf size = none) : Isa.decode (floatStore size r r1 imm) = none := by
  obtain ⟨ho, h3, h1, h2, -⟩ := @Decoder.sType_inv r r1 size 0b0100111 imm _ rfl
  have hc : candidate (floatStore size r r1 imm) = none := by
    show candidate (sType imm r r1 size 0b0100111) = none
    simp only [candidate, ho, h3, precOf_none h]
    rfl
  rw [Isa.decode, hc]
  rfl

theorem decode_illegal : Isa.decode illegal = none := by decide

end Encodings

/-! ### No word is a jump -/

section Straight

/-- The word is no jump. -/
def straight (w : BitVec 32) : Bool :=
  Decoder.opcode w != 0x6f && Decoder.opcode w != 0x67 && Decoder.opcode w != 0x63

theorem straight_of_decode {w : BitVec 32} {i : Instr} (hw : straight w = true) (hd : Isa.decode w = some i) :
    i.straight = true := by
  have he := encode_of_decode hd
  cases i
  case jal r imm =>
    have ho := (Decoder.jType_inv r 0b1101111 he).1
    simp [straight, ho] at hw
  case jalr r r1 imm =>
    have ho := (Decoder.iType_inv r1 0 r 0b1100111 he).1
    simp [straight, ho] at hw
  case branch c r1 r2 imm =>
    have ho := (Decoder.bType_inv r2 r1 c.funct3 0b1100011 he).1
    simp [straight, ho] at hw
  all_goals rfl

theorem opcode_append (x : BitVec 25) (o : BitVec 7) : Decoder.opcode (x ++ o : BitVec 32) = o :=
  BitVec.extractLsb'_append_eq_right

variable {a : BitVec 12} {r r1 : BitVec 5} {size : BitVec 3}

@[simp] theorem straight_csrw : straight (csrw a r) = true := by
  rw [straight, show Decoder.opcode (csrw a r) = 0x73 from opcode_append ..]
  decide

@[simp] theorem straight_csrr : straight (csrr a r) = true := by
  rw [straight, show Decoder.opcode (csrr a r) = 0x73 from opcode_append ..]
  decide

@[simp] theorem straight_load : straight (load size r r1 a) = true := by
  rw [straight, show Decoder.opcode (load size r r1 a) = 0x03 from opcode_append ..]
  decide

@[simp] theorem straight_store : straight (store size r r1 a) = true := by
  rw [straight, show Decoder.opcode (store size r r1 a) = 0x23 from opcode_append ..]
  decide

@[simp] theorem straight_floatLoad : straight (floatLoad size r r1 a) = true := by
  rw [straight, show Decoder.opcode (floatLoad size r r1 a) = 0x07 from opcode_append ..]
  decide

@[simp] theorem straight_floatStore : straight (floatStore size r r1 a) = true := by
  rw [straight, show Decoder.opcode (floatStore size r r1 a) = 0x27 from opcode_append ..]
  decide

/-- No word of a program is a jump. -/
def AbstractCmd.Straight (p : AbstractCmd) : Prop := ∀ w ∈ p.words, straight w = true

theorem straight_iff (p : AbstractCmd) : p.Straight ↔ straight p.lo0 = true ∧ straight p.hi0 = true ∧
    straight p.lo1 = true ∧ straight p.hi1 = true ∧ straight p.lo2 = true ∧ straight p.hi2 = true ∧
    straight p.lo3 = true ∧ straight p.hi3 = true ∧ straight p.lo4 = true ∧ straight p.hi4 = true := by
  simp [AbstractCmd.Straight, AbstractCmd.words]

@[simp] theorem straight_ebreak : straight ebreak = true := by decide
@[simp] theorem straight_nop : straight nop = true := by decide
@[simp] theorem straight_illegal : straight illegal = true := by decide
@[simp] theorem straight_auipc : straight (auipc a0 0#21) = true := by decide
@[simp] theorem straight_srli : straight (srli a0 a0 12#6) = true := by decide
@[simp] theorem straight_slli : straight (slli a0 a0 12#6) = true := by decide

theorem straight_defaults : AbstractCmd.defaults.Straight := by
  rw [straight_iff]
  simp [AbstractCmd.defaults]

theorem straight_abstractWrite (c : AcArCmd) {p : AbstractCmd} (h : p.Straight) :
    (abstractWrite c p).Straight := by
  rw [straight_iff] at h ⊢
  unfold abstractWrite
  split_ifs <;> simp [h]

theorem straight_abstractRead (c : AcArCmd) {p : AbstractCmd} (h : p.Straight) :
    (abstractRead c p).Straight := by
  rw [straight_iff] at h ⊢
  unfold abstractRead
  split_ifs <;> simp [h]

theorem straight_words (c : Command) : (abstractCmdRom c).Straight := by
  have hd : ({ AbstractCmd.defaults with lo0 := ebreak, unsupported := true } : AbstractCmd).Straight := by
    rw [straight_iff]
    simp [AbstractCmd.defaults]
  have hb : (abstractBody c.acAr .defaults).Straight := by
    unfold abstractBody
    split_ifs
    · exact straight_abstractWrite _ straight_defaults
    · exact straight_abstractRead _ straight_defaults
    · exact hd
    · exact straight_defaults
  unfold abstractCmdRom
  split_ifs
  · unfold runOn
    split_ifs
    · rw [straight_iff] at hb ⊢
      simp [hb]
    · exact hb
  · exact hd

end Straight

/-! ### Running a program -/

/-- The address of an offset within the page of the debug module. -/
def page (b : BitVec 52) (off : BitVec 12) : BitVec 64 := b ++ off

theorem toNat_page (b : BitVec 52) (off : BitVec 12) : (page b off).toNat = b.toNat * 2 ^ 12 + off.toNat :=
  toNat_append_eq b off

/-- An address goes on within the page. -/
theorem page_add {b : BitVec 52} {x y : BitVec 12} {c : BitVec 64} (h : (x.toNat : ℤ) + c.toInt = y.toNat) :
    page b x + c = page b y := by
  apply BitVec.eq_of_toNat_eq
  have hb := b.isLt
  have hx := x.isLt
  have hy := y.isLt
  rw [BitVec.toNat_add, toNat_page, toNat_page]
  rw [BitVec.toInt_eq_toNat_cond] at h
  split at h <;> omega

theorem page_shift (b : BitVec 52) (x : BitVec 12) : page b x >>> 12 <<< 12 = page b 0 := by
  apply BitVec.eq_of_toNat_eq
  have hb := b.isLt
  have hx := x.isLt
  rw [BitVec.toNat_shiftLeft, BitVec.toNat_ushiftRight, toNat_page, toNat_page, Nat.shiftLeft_eq,
    Nat.shiftRight_eq_div_pow, show (0 : BitVec 12).toNat = 0 from rfl]
  omega

theorem page_inj {b : BitVec 52} {x y : BitVec 12} (h : page b x = page b y) : x = y := (append_inj h).2

/-- How a program ends: it runs on behind its last word, or stops before, or does what no program of
a command does. -/
inductive End
  | runsOn | ebreak | exception | stray
deriving DecidableEq, Repr

structure Outcome (σ : Type) where
  stop : End
  hart : Hart (Scratch σ)
  data : BitVec 64

variable {σ : Type} (F : Csrs σ) (b : BitVec 52)

/-- The data registers after an access to them. -/
def dataAfter (d : BitVec 64) (a : Access) : BitVec 64 :=
  if a.store.isSome then writeLanes a.be d a.wdata else d

/-- The words are run one after the other; there are no memories but the data registers. -/
def run : List (BitVec 32) → Hart (Scratch σ) → BitVec 64 → Outcome σ
  | [], h, d => ⟨.runsOn, h, d⟩
  | w :: ws, h, d =>
    match h.step F.scratch w with
    | .done h' => run ws h' d
    | .mem a k => if a.addr = page b dataAddr then run ws (k (a.shifted d)) (dataAfter d a) else ⟨.stray, h, d⟩
    | .ebreak => ⟨.ebreak, h, d⟩
    | .exception => ⟨.exception, h, d⟩
    | .dret => ⟨.stray, h, d⟩

/-! ### What a command means -/

/-- The registers of the program that is being debugged. -/
structure User (σ : Type) where
  gpr : Gpr
  fpr : BitVec 5 → BitVec 64
  rest : σ

def user (h : Hart (Scratch σ)) : User σ := ⟨h.gpr, h.fpr, h.csrs.rest⟩

/-- The register of a command. -/
inductive Target
  | gpr (r : BitVec 5)
  | fpr (r : BitVec 5)
  | csr (a : BitVec 12)
deriving DecidableEq

def AcArCmd.target (a : AcArCmd) : Target :=
  if a.regno.getLsbD 12 then
    if a.regno.getLsbD 5 then .fpr (a.regno.extractLsb' 0 5) else .gpr (a.regno.extractLsb' 0 5)
  else .csr (a.regno.extractLsb' 0 12)

/-- The scratch registers name the registers that are saved in them. -/
def csrTarget (a : BitVec 12) : Target :=
  if a = dscratch0 then .gpr s0 else if a = dscratch1 then .gpr a0 else .csr a

def Target.alias : Target → Target
  | .csr a => csrTarget a
  | t => t

/-- The value of a register; none if the access raises an exception. -/
def User.get (u : User σ) (size : BitVec 3) : Target → Option (BitVec 64)
  | .gpr r => some (u.gpr.read r)
  | .fpr r => if F.fpOn u.rest ∧ (precOf size).isSome then some (u.fpr r) else none
  | .csr a => F.read u.rest a

/-- A register is written with the low bytes of a doubleword: sign-extended, or boxed. -/
def User.put (u : User σ) (size : BitVec 3) (d : BitVec 64) : Target → Option (User σ)
  | .gpr r => some { u with gpr := u.gpr.set r ((loadOf size).eval d) }
  | .fpr r =>
    match precOf size with
    | some p =>
      if F.fpOn u.rest then
        some { u with fpr := Function.update u.fpr r (p.box d), rest := F.fpDirty u.rest }
      else none
    | none => none
  | .csr a => (F.write u.rest a ((loadOf size).eval d)).map fun r => { u with rest := r }

/-- The low bytes of the data registers. -/
def putLow (size : BitVec 3) (d v : BitVec 64) : BitVec 64 :=
  writeLanes (Lsu.Lanes.beGen 0 (size.setWidth 2)) d v

/-- What an access that raises an exception leaves in the integer registers. -/
def Target.spoilt (size : BitVec 3) (write : Bool) (d : BitVec 64) (g : Gpr) : Target → Gpr
  | .csr _ => if write then (g.set a0 (page b 0)).set s0 ((loadOf size).eval d) else g.set a0 (page b 0)
  | _ => g.set a0 (page b 0)

/-- The transfer that a command stands for. -/
def AcArCmd.meaning (a : AcArCmd) (u : User σ) (d : BitVec 64) : End × User σ × BitVec 64 :=
  let t := a.target.alias
  let stop : End := if a.postexec then .runsOn else .ebreak
  let failed : End × User σ × BitVec 64 :=
    (.exception, { u with gpr := t.spoilt b a.aarsize a.write d u.gpr }, d)
  if a.write then ((u.put F a.aarsize d t).map fun u' => (stop, u', d)).getD failed
  else ((u.get F a.aarsize t).map fun v => (stop, u, putLow a.aarsize d v)).getD failed

def Outcome.observed (o : Outcome σ) : End × User σ × BitVec 64 := (o.stop, user o.hart, o.data)

/-! ### Running the program of a transfer -/

variable {F b} {h : Hart (Scratch σ)} {d : BitVec 64} {ws : List (BitVec 32)} {x y : BitVec 12}

theorem run_done {w : BitVec 32} {h' : Hart (Scratch σ)} (hw : h.step F.scratch w = .done h') :
    run F b (w :: ws) h d = run F b ws h' d := by
  rw [run, hw]

theorem run_exception {w : BitVec 32} (hw : h.step F.scratch w = .exception) :
    run F b (w :: ws) h d = ⟨.exception, h, d⟩ := by
  rw [run, hw]

/-- The data registers are at the start of a doubleword. -/
theorem shifted_data {a : Access} (ha : a.addr = page b dataAddr) (d : BitVec 64) : a.shifted d = d := by
  have h0 : a.lane = 0 := by
    rw [Access.lane, ha, page, BitVec.extractLsb'_append_eq_of_add_le (by decide)]
    decide
  simp [Access.shifted, h0]

theorem run_mem {w : BitVec 32} {a : Access} {k : BitVec 64 → Hart (Scratch σ)}
    (hw : h.step F.scratch w = .mem a k) (ha : a.addr = page b dataAddr) :
    run F b (w :: ws) h d = run F b ws (k d) (dataAfter d a) := by
  rw [run, hw]
  simp only [ha, if_true, shifted_data ha]

@[simp] theorem set_zero (g : Gpr) (v : BitVec 64) : g.set 0#5 v = g := by
  apply Gpr.ext
  intro r
  by_cases hr : r = 0
  · rw [hr, g.zero]
    rfl
  · exact (if_neg hr).trans (if_neg hr)

@[simp] theorem set_set (g : Gpr) (r : BitVec 5) (v w : BitVec 64) : (g.set r v).set r w = g.set r w := by
  apply Gpr.ext
  intro q
  simp only [Gpr.read_set]
  split_ifs <;> rfl

theorem set_comm (g : Gpr) {r q : BitVec 5} (hq : r ≠ q) (v w : BitVec 64) :
    (g.set r v).set q w = (g.set q w).set r v := by
  apply Gpr.ext
  intro k
  simp only [Gpr.read_set]
  split_ifs <;> simp_all

/-- What a register holds is written back to it. -/
@[simp] theorem set_read (g : Gpr) (r : BitVec 5) : g.set r (g.read r) = g := by
  apply Gpr.ext
  intro q
  rw [Gpr.read_set]
  split_ifs with h0 hq
  · rw [h0, g.zero]
  · rw [hq]
  · rfl

@[simp] theorem read_set_a0 (g : Gpr) (v : BitVec 64) : (g.set a0 v).read a0 = v :=
  Gpr.read_set_self g v (by decide)

@[simp] theorem read_set_s0 (g : Gpr) (v : BitVec 64) : (g.set s0 v).read s0 = v :=
  Gpr.read_set_self g v (by decide)

@[simp] theorem read_a0_set_s0 (g : Gpr) (v : BitVec 64) : (g.set s0 v).read a0 = g.read a0 :=
  Gpr.read_set_of_ne g v (by decide)

@[simp] theorem read_s0_set_a0 (g : Gpr) (v : BitVec 64) : (g.set a0 v).read s0 = g.read s0 :=
  Gpr.read_set_of_ne g v (by decide)

/-- Both registers that the debug programs use are put back. -/
theorem set_both {g g' : Gpr} (h : ∀ r, r ≠ s0 → r ≠ a0 → g'.read r = g.read r) :
    (g'.set s0 (g.read s0)).set a0 (g.read a0) = g := by
  apply Gpr.ext
  intro r
  simp only [Gpr.read_set]
  split_ifs with h0 ha hs
  · rw [h0, g.zero]
  · rw [ha]
  · rw [hs]
  · exact h r hs ha

theorem step_csrw {a : BitVec 12} {r : BitVec 5} {c : Scratch σ}
    (hw : F.scratch.write h.csrs a (h.gpr.read r) = some c) :
    h.step F.scratch (csrw a r) = .done { h with pc := h.pc + 4, csrs := c } := by
  rw [csrw_eq, Hart.step_encode F.scratch h decode_csr]
  simp [Hart.exec, Hart.csrAccess, Hart.set, Hart.advance, CsrOp.eval, hw]

theorem step_csrw_none {a : BitVec 12} {r : BitVec 5} (hw : F.scratch.write h.csrs a (h.gpr.read r) = none) :
    h.step F.scratch (csrw a r) = .exception := by
  rw [csrw_eq, Hart.step_encode F.scratch h decode_csr]
  simp [Hart.exec, Hart.csrAccess, CsrOp.eval, hw]

theorem step_csrr {a : BitVec 12} {r : BitVec 5} {v : BitVec 64} (hr : F.scratch.read h.csrs a = some v) :
    h.step F.scratch (csrr a r) = .done { h with pc := h.pc + 4, gpr := h.gpr.set r v } := by
  rw [csrr_eq, Hart.step_encode F.scratch h decode_csr]
  simp [Hart.exec, Hart.csrAccess, Hart.set, Hart.advance, hr]

theorem step_csrr_none {a : BitVec 12} {r : BitVec 5} (hr : F.scratch.read h.csrs a = none) :
    h.step F.scratch (csrr a r) = .exception := by
  rw [csrr_eq, Hart.step_encode F.scratch h decode_csr]
  simp [Hart.exec, Hart.csrAccess, hr]

theorem step_nop (h : Hart (Scratch σ)) : h.step F.scratch nop = .done { h with pc := h.pc + 4 } := by
  rw [nop_eq, Hart.step_encode F.scratch h decode_opImm]
  simp [Hart.exec, exec, Hart.set]

theorem step_auipc (h : Hart (Scratch σ)) :
    h.step F.scratch (auipc a0 0) = .done { h with pc := h.pc + 4, gpr := h.gpr.set a0 h.pc } := by
  rw [auipc_eq, Hart.step_encode F.scratch h decode_auipc]
  simp [Hart.exec, exec, Hart.set]

theorem step_srli (h : Hart (Scratch σ)) (n : BitVec 6) : h.step F.scratch (srli a0 a0 n) =
    .done { h with pc := h.pc + 4, gpr := h.gpr.set a0 (h.gpr.read a0 >>> n.toNat) } := by
  rw [srli_eq, Hart.step_encode F.scratch h decode_shiftImm]
  simp [Hart.exec, exec, Hart.set, ShiftOp.eval]

theorem step_slli (h : Hart (Scratch σ)) (n : BitVec 6) : h.step F.scratch (slli a0 a0 n) =
    .done { h with pc := h.pc + 4, gpr := h.gpr.set a0 (h.gpr.read a0 <<< n.toNat) } := by
  rw [slli_eq, Hart.step_encode F.scratch h decode_shiftImm]
  simp [Hart.exec, exec, Hart.set, ShiftOp.eval]

theorem step_ebreak (h : Hart (Scratch σ)) : h.step F.scratch ebreak = .ebreak := by
  rw [ebreak_eq, Hart.step_encode F.scratch h decode_ebreak]
  rfl

/-- The program has the base of its page in `a0`, and what was there in `dscratch1`. -/
theorem run_prologue (hpc : h.pc = page b x) (hx : x.toNat + 4 < 2 ^ 12) :
    run F b (csrw dscratch1 a0 :: auipc a0 0 :: srli a0 a0 12 :: slli a0 a0 12 :: ws) h d =
      run F b ws { h with
        pc := h.pc + 4 + 4 + 4 + 4
        gpr := h.gpr.set a0 (page b 0)
        csrs := { h.csrs with s1 := h.gpr.read a0 } } d := by
  have hw : F.scratch.write h.csrs dscratch1 (h.gpr.read a0) = some { h.csrs with s1 := h.gpr.read a0 } := rfl
  have hpc' : h.pc + 4 = page b (x + 4) := by
    rw [hpc]
    apply page_add
    rw [BitVec.toNat_add, show (4 : BitVec 12).toNat = 4 from rfl, Nat.mod_eq_of_lt hx]
    rfl
  have h12 : (12 : BitVec 6).toNat = 12 := rfl
  rw [run_done (step_csrw hw), run_done (step_auipc _), run_done (step_srli _ 12), run_done (step_slli _ 12)]
  simp only [set_set, h12, Gpr.read_set_self _ _ (show a0 ≠ 0 by decide), hpc', page_shift]

/-- The program puts back `a0` and stops, or runs on. -/
theorem run_epilogue (post : Bool) :
    (run F b [csrr dscratch1 a0, if post then nop else ebreak] h d).observed =
      (if post then .runsOn else .ebreak, { user h with gpr := h.gpr.set a0 h.csrs.s1 }, d) := by
  have hr : F.scratch.read h.csrs dscratch1 = some h.csrs.s1 := rfl
  rw [run_done (step_csrr hr)]
  cases post
  · simp [run, step_ebreak, Outcome.observed, user]
  · simp [run, step_nop, Outcome.observed, user]

/-! ### The bodies -/

/-- A general register is loaded, or a floating-point register. -/
theorem step_load {size : BitVec 3} (hs : size < maxAar) (h : Hart (Scratch σ)) (r : BitVec 5) :
    h.step F.scratch (load size r a0 dataAddr) =
      .mem ⟨h.gpr.read a0 + dataAddr.signExtend 64, (loadOf size).size, none⟩ fun v =>
        { h with pc := h.pc + 4, gpr := h.gpr.set r ((loadOf size).eval v) } := by
  rw [load_eq hs, Hart.step_encode F.scratch h decode_load]
  rfl

theorem step_store {size : BitVec 3} (hs : size < maxAar) (h : Hart (Scratch σ)) (r : BitVec 5) :
    h.step F.scratch (store size r a0 dataAddr) =
      .mem ⟨h.gpr.read a0 + dataAddr.signExtend 64, (storeOf size).size, some (h.gpr.read r)⟩ fun _ =>
        { h with pc := h.pc + 4 } := by
  rw [store_eq hs, Hart.step_encode F.scratch h decode_store]
  rfl

theorem page_data (b : BitVec 52) : page b 0 + dataAddr.signExtend 64 = page b dataAddr := page_add (by decide)

theorem storeOf_size : ∀ {size : BitVec 3}, size < maxAar → (storeOf size).size = size.setWidth 2 := by decide

theorem prec_size : ∀ {size : BitVec 3} {p : Prec}, precOf size = some p → p.size = size.setWidth 2 := by
  decide

/-- The data registers after a store of `v` to them. -/
theorem dataAfter_store (size : BitVec 2) (d v : BitVec 64) :
    dataAfter d ⟨page b dataAddr, size, some v⟩ = writeLanes (Lsu.Lanes.beGen 0 size) d v := by
  have hl : Access.lane ⟨page b dataAddr, size, some v⟩ = 0 := by
    rw [Access.lane, page, BitVec.extractLsb'_append_eq_of_add_le (by decide)]
    decide
  have hr : v.rotateLeft 0 = v := by
    apply BitVec.eq_of_getLsbD_eq
    intro j hj
    simp [hj]
  simp [dataAfter, Access.be, Access.wdata, hl, Lsu.dataAlign, hr]

/-- The CSRs with the value of `s0` saved. -/
def saveS0 (h : Hart (Scratch σ)) : Scratch σ := { h.csrs with s0 := h.gpr.read s0 }

theorem write_saveS0 (F : Csrs σ) (h : Hart (Scratch σ)) :
    F.scratch.write h.csrs dscratch0 (h.gpr.read s0) = some (saveS0 h) := rfl

/-- The body that moves the data registers to a CSR, by way of `s0`. -/
theorem run_writeCsr {size : BitVec 3} (hs : size < maxAar) {a : BitVec 12} (ha : h.gpr.read a0 = page b 0)
    {c : Scratch σ} (hc : F.scratch.write (saveS0 h) a ((loadOf size).eval d) = some c) :
    run F b (csrw dscratch0 s0 :: load size s0 a0 dataAddr :: csrw a s0 :: csrr dscratch0 s0 :: ws) h d =
      run F b ws { h with pc := h.pc + 4 + 4 + 4 + 4, gpr := h.gpr.set s0 c.s0, csrs := c } d := by
  have hr : F.scratch.read c dscratch0 = some c.s0 := rfl
  have hv : (h.gpr.set s0 ((loadOf size).eval d)).read s0 = (loadOf size).eval d :=
    Gpr.read_set_self _ _ (by decide)
  rw [run_done (step_csrw (write_saveS0 F h)), run_mem (step_load hs _ s0) (by rw [ha, page_data]),
    run_done (step_csrw (by rw [hv]; exact hc)), run_done (step_csrr hr)]
  simp only [set_set]
  rfl

theorem run_writeCsr_none {size : BitVec 3} (hs : size < maxAar) {a : BitVec 12} (ha : h.gpr.read a0 = page b 0)
    (hc : F.scratch.write (saveS0 h) a ((loadOf size).eval d) = none) :
    run F b (csrw dscratch0 s0 :: load size s0 a0 dataAddr :: csrw a s0 :: ws) h d =
      ⟨.exception, { h with
        pc := h.pc + 4 + 4, gpr := h.gpr.set s0 ((loadOf size).eval d), csrs := saveS0 h }, d⟩ := by
  have hv : (h.gpr.set s0 ((loadOf size).eval d)).read s0 = (loadOf size).eval d :=
    Gpr.read_set_self _ _ (by decide)
  rw [run_done (step_csrw (write_saveS0 F h)), run_mem (step_load hs _ s0) (by rw [ha, page_data]),
    run_exception (step_csrw_none (by rw [hv]; exact hc))]
  rfl

/-- The body that moves a CSR to the data registers, by way of `s0`. -/
theorem run_readCsr {size : BitVec 3} (hs : size < maxAar) {a : BitVec 12} (ha : h.gpr.read a0 = page b 0)
    {v : BitVec 64} (hc : F.scratch.read (saveS0 h) a = some v) :
    run F b (csrw dscratch0 s0 :: csrr a s0 :: store size s0 a0 dataAddr :: csrr dscratch0 s0 :: ws) h d =
      run F b ws { h with pc := h.pc + 4 + 4 + 4 + 4, csrs := saveS0 h } (putLow size d v) := by
  have hr : F.scratch.read (saveS0 h) dscratch0 = some (h.gpr.read s0) := rfl
  have ha' : (h.gpr.set s0 v).read a0 = page b 0 := by
    rw [Gpr.read_set_of_ne _ _ (show a0 ≠ s0 by decide), ha]
  have hv : (h.gpr.set s0 v).read s0 = v := Gpr.read_set_self _ _ (by decide)
  rw [run_done (step_csrw (write_saveS0 F h)), run_done (step_csrr hc),
    run_mem (step_store hs _ s0) (by rw [ha', page_data]), run_done (step_csrr hr)]
  simp only [set_set, set_read, ha', page_data, dataAfter_store, storeOf_size hs, hv, putLow]

theorem run_readCsr_none {a : BitVec 12} (hc : F.scratch.read (saveS0 h) a = none) :
    run F b (csrw dscratch0 s0 :: csrr a s0 :: ws) h d =
      ⟨.exception, { h with pc := h.pc + 4, csrs := saveS0 h }, d⟩ := by
  rw [run_done (step_csrw (write_saveS0 F h)), run_exception (step_csrr_none hc)]

theorem run_nops (h : Hart (Scratch σ)) :
    run F b (nop :: nop :: nop :: ws) h d = run F b ws { h with pc := h.pc + 4 + 4 + 4 } d := by
  rw [run_done (step_nop _), run_done (step_nop _), run_done (step_nop _)]

/-- The four words of a program between the base and the end. -/
def viaS0Write (size : BitVec 3) (a : BitVec 12) : List (BitVec 32) :=
  [csrw dscratch0 s0, load size s0 a0 dataAddr, csrw a s0, csrr dscratch0 s0]

def viaS0Read (size : BitVec 3) (a : BitVec 12) : List (BitVec 32) :=
  [csrw dscratch0 s0, csrr a s0, store size s0 a0 dataAddr, csrr dscratch0 s0]

def Target.writeBody (size : BitVec 3) : Target → List (BitVec 32)
  | .gpr r => if r = a0 then viaS0Write size dscratch1 else [load size r a0 dataAddr, nop, nop, nop]
  | .fpr r => [floatLoad size r a0 dataAddr, nop, nop, nop]
  | .csr a => viaS0Write size a

def Target.readBody (size : BitVec 3) : Target → List (BitVec 32)
  | .gpr r => if r = a0 then viaS0Read size dscratch1 else [store size r a0 dataAddr, nop, nop, nop]
  | .fpr r => [floatStore size r a0 dataAddr, nop, nop, nop]
  | .csr a => viaS0Read size a

def prologue : List (BitVec 32) := [csrw dscratch1 a0, auipc a0 0, srli a0 a0 12, slli a0 a0 12]

def epilogue (post : Bool) : List (BitVec 32) := [csrr dscratch1 a0, if post then nop else ebreak]

/-- A transfer that is supported. -/
structure Command.Transfers (c : Command) : Prop where
  cmdtype : c.cmdtype = accessRegister
  size : c.acAr.aarsize < maxAar
  transfer : c.acAr.transfer = true
  regno : c.acAr.regno.extractLsb' 14 2 = 0

/-- The program around a body. -/
def withBody (body : List (BitVec 32)) (p : AbstractCmd) : Prop :=
  p.words = prologue ++ body ++ epilogue false ∧ p.unsupported = false

theorem withBody_write {a : AcArCmd} (hr : a.regno.extractLsb' 14 2 = 0) :
    withBody (a.target.writeBody a.aarsize) (abstractWrite a .defaults) := by
  have hr' : ¬a.regno.extractLsb' 14 2 ≠ 0 := not_not_intro hr
  rw [abstractWrite, if_neg hr', AcArCmd.isA0, AcArCmd.target]
  cases a.regno.getLsbD 12
  · exact ⟨rfl, rfl⟩
  · cases a.regno.getLsbD 5
    · by_cases ha : a.regno.extractLsb' 0 5 = a0
      · rw [ha]
        exact ⟨rfl, rfl⟩
      · have hb : (a.regno.extractLsb' 0 5 == 10) = false := beq_false_of_ne ha
        rw [hb]
        refine ⟨?_, rfl⟩
        show _ = prologue ++ Target.writeBody a.aarsize (.gpr (a.regno.extractLsb' 0 5)) ++ epilogue false
        rw [Target.writeBody, if_neg ha]
        rfl
    · exact ⟨rfl, rfl⟩

theorem withBody_read {a : AcArCmd} (hr : a.regno.extractLsb' 14 2 = 0) :
    withBody (a.target.readBody a.aarsize) (abstractRead a .defaults) := by
  have hr' : ¬a.regno.extractLsb' 14 2 ≠ 0 := not_not_intro hr
  rw [abstractRead, if_neg hr', AcArCmd.isA0, AcArCmd.target]
  cases a.regno.getLsbD 12
  · exact ⟨rfl, rfl⟩
  · cases a.regno.getLsbD 5
    · by_cases ha : a.regno.extractLsb' 0 5 = a0
      · rw [ha]
        exact ⟨rfl, rfl⟩
      · have hb : (a.regno.extractLsb' 0 5 == 10) = false := beq_false_of_ne ha
        rw [hb]
        refine ⟨?_, rfl⟩
        show _ = prologue ++ Target.readBody a.aarsize (.gpr (a.regno.extractLsb' 0 5)) ++ epilogue false
        rw [Target.readBody, if_neg ha]
        rfl
    · exact ⟨rfl, rfl⟩

/-- The last word of a program that runs on is none that stops it. -/
theorem words_runOn {a : AcArCmd} {p : AbstractCmd} {body : List (BitVec 32)} (h : withBody body p)
    (hl : body.length = 4) : (runOn a p).words = prologue ++ body ++ epilogue a.postexec := by
  obtain ⟨hw, hu⟩ := h
  obtain ⟨w0, w1, w2, w3, rfl⟩ : ∃ w0 w1 w2 w3, body = [w0, w1, w2, w3] := by
    obtain _ | ⟨w0, _ | ⟨w1, _ | ⟨w2, _ | ⟨w3, _ | ⟨_, _⟩⟩⟩⟩⟩ := body <;> simp at hl
    exact ⟨w0, w1, w2, w3, rfl⟩
  cases hp : a.postexec with
  | false => simpa [runOn, hp] using hw
  | true =>
    simp only [AbstractCmd.words, prologue, epilogue, List.cons_append, List.nil_append, List.cons.injEq] at hw
    simp [runOn, hp, hu, AbstractCmd.words, prologue, epilogue, hw]

theorem length_writeBody (size : BitVec 3) (t : Target) : (t.writeBody size).length = 4 := by
  cases t <;> simp only [Target.writeBody]
  · split <;> rfl
  · rfl
  · rfl

theorem length_readBody (size : BitVec 3) (t : Target) : (t.readBody size).length = 4 := by
  cases t <;> simp only [Target.readBody]
  · split <;> rfl
  · rfl
  · rfl

theorem words_transfer {c : Command} (h : c.Transfers) : (abstractCmdRom c).words =
    prologue ++ (if c.acAr.write then c.acAr.target.writeBody c.acAr.aarsize
      else c.acAr.target.readBody c.acAr.aarsize) ++ epilogue c.acAr.postexec := by
  obtain ⟨hc, hs, ht, hr⟩ := h
  rw [abstractCmdRom, if_pos hc, abstractBody]
  cases hw : c.acAr.write with
  | true =>
    rw [if_pos ⟨hs, ht, rfl⟩]
    exact words_runOn (withBody_write hr) (length_writeBody _ _)
  | false =>
    rw [if_neg (fun h => Bool.false_ne_true h.2.2), if_pos ⟨hs, ht, rfl⟩]
    exact words_runOn (withBody_read hr) (length_readBody _ _)

/-! ### What the program does -/

/-- The hart with the base in `a0`. -/
def based (b : BitVec 52) (h : Hart (Scratch σ)) : Hart (Scratch σ) :=
  { h with
    pc := h.pc + 4 + 4 + 4 + 4
    gpr := h.gpr.set a0 (page b 0)
    csrs := { h.csrs with s1 := h.gpr.read a0 } }

theorem based_a0 (b : BitVec 52) (h : Hart (Scratch σ)) : (based b h).gpr.read a0 = page b 0 :=
  Gpr.read_set_self _ _ (by decide)

theorem based_s0 (b : BitVec 52) (h : Hart (Scratch σ)) : (based b h).gpr.read s0 = h.gpr.read s0 :=
  Gpr.read_set_of_ne _ _ (by decide)

/-- `a0` is put back after another register has been written. -/
theorem set_restore (g : Gpr) {r : BitVec 5} (hr : r ≠ a0) (x v : BitVec 64) :
    ((g.set a0 x).set r v).set a0 (g.read a0) = g.set r v := by
  have ha : (g.set r v).read a0 = g.read a0 := Gpr.read_set_of_ne _ _ (Ne.symm hr)
  rw [set_comm g (Ne.symm hr), set_set, ← ha, set_read]

theorem set_base_restore (g : Gpr) (x : BitVec 64) : (g.set a0 x).set a0 (g.read a0) = g := by
  rw [set_set, set_read]

/-- Where a program of a transfer stops that raises no exception. -/
def stopOf (post : Bool) : End := if post then .runsOn else .ebreak

/-- The outcome of a program that ends with the registers `g`. -/
def ended (post : Bool) (h : Hart (Scratch σ)) (g : Gpr) (rest : σ) (d : BitVec 64) : End × User σ × BitVec 64 :=
  (stopOf post, ⟨g, h.fpr, rest⟩, d)

theorem observed_writeCsr {size : BitVec 3} (hs : size < maxAar) (post : Bool) (a : BitVec 12) :
    (run F b (viaS0Write size a ++ epilogue post) (based b h) d).observed =
      (((user h).put F size d (csrTarget a)).map fun u => (stopOf post, u, d)).getD
        (.exception, { user h with gpr := (csrTarget a).spoilt b size true d h.gpr }, d) := by
  let v := (loadOf size).eval d
  have hg : (based b h).gpr.set s0 (h.gpr.read s0) = h.gpr.set a0 (page b 0) := by
    rw [← based_s0 b h, set_read]
    rfl
  show (run F b (csrw dscratch0 s0 :: load size s0 a0 dataAddr :: csrw a s0 :: csrr dscratch0 s0 ::
    epilogue post) (based b h) d).observed = _
  by_cases h0 : a = dscratch0
  · subst h0
    have hw : F.scratch.write (saveS0 (based b h)) dscratch0 v = some { saveS0 (based b h) with s0 := v } := rfl
    rw [run_writeCsr hs (based_a0 b h) hw, epilogue, run_epilogue]
    exact congrArg (fun g => ended post h g h.csrs.rest d) (set_restore h.gpr (by decide) (page b 0) v)
  by_cases h1 : a = dscratch1
  · subst h1
    have hw : F.scratch.write (saveS0 (based b h)) dscratch1 v = some { saveS0 (based b h) with s1 := v } := rfl
    rw [run_writeCsr hs (based_a0 b h) hw, epilogue, run_epilogue]
    have hset : ((based b h).gpr.set s0 ((based b h).gpr.read s0)).set a0 v = h.gpr.set a0 v := by
      rw [set_read]
      exact set_set h.gpr a0 (page b 0) v
    exact congrArg (fun g => ended post h g h.csrs.rest d) hset
  have ht : csrTarget a = .csr a := by rw [csrTarget, if_neg h0, if_neg h1]
  have hw : F.scratch.write (saveS0 (based b h)) a v =
      (F.write h.csrs.rest a v).map fun r => { saveS0 (based b h) with rest := r } := by
    show (if a = dscratch0 then _ else _) = _
    rw [if_neg h0, if_neg h1]
    rfl
  rw [ht]
  cases hc : F.write h.csrs.rest a v with
  | some r =>
    rw [hc] at hw
    rw [run_writeCsr hs (based_a0 b h) hw, epilogue, run_epilogue]
    have hset : ((based b h).gpr.set s0 ((based b h).gpr.read s0)).set a0 (h.gpr.read a0) = h.gpr := by
      rw [set_read]
      exact set_base_restore h.gpr (page b 0)
    have hput : (user h).put F size d (.csr a) = some { user h with rest := r } := by
      show (F.write h.csrs.rest a v).map _ = _
      rw [hc]
      rfl
    rw [hput]
    exact congrArg (fun g => ended post h g r d) hset
  | none =>
    rw [hc] at hw
    rw [run_writeCsr_none hs (based_a0 b h) hw]
    have hput : (user h).put F size d (.csr a) = none := by
      show (F.write h.csrs.rest a v).map _ = _
      rw [hc]
      rfl
    rw [hput]
    rfl

theorem observed_readCsr {size : BitVec 3} (hs : size < maxAar) (post : Bool) (a : BitVec 12) :
    (run F b (viaS0Read size a ++ epilogue post) (based b h) d).observed =
      (((user h).get F size (csrTarget a)).map fun v => (stopOf post, user h, putLow size d v)).getD
        (.exception, { user h with gpr := (csrTarget a).spoilt b size false d h.gpr }, d) := by
  show (run F b (csrw dscratch0 s0 :: csrr a s0 :: store size s0 a0 dataAddr :: csrr dscratch0 s0 ::
    epilogue post) (based b h) d).observed = _
  -- a value that is read leaves the registers as they were
  have hend : ∀ v, F.scratch.read (saveS0 (based b h)) a = some v →
      (run F b (csrw dscratch0 s0 :: csrr a s0 :: store size s0 a0 dataAddr :: csrr dscratch0 s0 ::
        epilogue post) (based b h) d).observed = (stopOf post, user h, putLow size d v) := by
    intro v hv
    rw [run_readCsr hs (based_a0 b h) hv, epilogue, run_epilogue]
    exact congrArg (fun g => ended post h g h.csrs.rest (putLow size d v)) (set_base_restore h.gpr (page b 0))
  by_cases h0 : a = dscratch0
  · subst h0
    rw [hend (h.gpr.read s0) (congrArg some (based_s0 b h))]
    rfl
  by_cases h1 : a = dscratch1
  · subst h1
    rw [hend (h.gpr.read a0) rfl]
    rfl
  have ht : csrTarget a = .csr a := by rw [csrTarget, if_neg h0, if_neg h1]
  have hr : F.scratch.read (saveS0 (based b h)) a = F.read h.csrs.rest a := by
    show (if a = dscratch0 then _ else _) = _
    rw [if_neg h0, if_neg h1]
    rfl
  have hget : (user h).get F size (.csr a) = F.read h.csrs.rest a := rfl
  rw [ht, hget]
  cases hc : F.read h.csrs.rest a with
  | some v =>
    rw [hend v (hr.trans hc)]
    rfl
  | none =>
    rw [run_readCsr_none (hr.trans hc)]
    rfl

theorem observed_writeGpr {size : BitVec 3} (hs : size < maxAar) (post : Bool) {r : BitVec 5} (hr : r ≠ a0) :
    (run F b ([load size r a0 dataAddr, nop, nop, nop] ++ epilogue post) (based b h) d).observed =
      ended post h (h.gpr.set r ((loadOf size).eval d)) h.csrs.rest d := by
  show (run F b (load size r a0 dataAddr :: nop :: nop :: nop :: epilogue post) (based b h) d).observed = _
  rw [run_mem (step_load hs _ r) (by rw [based_a0, page_data]), run_nops, epilogue, run_epilogue]
  exact congrArg (fun g => ended post h g h.csrs.rest d) (set_restore h.gpr hr (page b 0) _)

theorem observed_readGpr {size : BitVec 3} (hs : size < maxAar) (post : Bool) {r : BitVec 5} (hr : r ≠ a0) :
    (run F b ([store size r a0 dataAddr, nop, nop, nop] ++ epilogue post) (based b h) d).observed =
      ended post h h.gpr h.csrs.rest (putLow size d (h.gpr.read r)) := by
  show (run F b (store size r a0 dataAddr :: nop :: nop :: nop :: epilogue post) (based b h) d).observed = _
  have hv : (based b h).gpr.read r = h.gpr.read r := Gpr.read_set_of_ne _ _ hr
  rw [run_mem (step_store hs _ r) (by rw [based_a0, page_data]), run_nops, epilogue, run_epilogue]
  simp only [based_a0, page_data, dataAfter_store, storeOf_size hs, hv]
  exact congrArg (fun g => ended post h g h.csrs.rest _) (set_base_restore h.gpr (page b 0))

/-- Floating-point registers of a word or a doubleword, while the unit is switched on. -/
theorem observed_writeFpr {size : BitVec 3} (post : Bool) (r : BitVec 5) :
    (run F b ([floatLoad size r a0 dataAddr, nop, nop, nop] ++ epilogue post) (based b h) d).observed =
      (((user h).put F size d (.fpr r)).map fun u => (stopOf post, u, d)).getD
        (.exception, { user h with gpr := h.gpr.set a0 (page b 0) }, d) := by
  show (run F b (floatLoad size r a0 dataAddr :: nop :: nop :: nop :: epilogue post) (based b h) d).observed = _
  have hg := set_base_restore h.gpr (page b 0)
  cases hp : precOf size with
  | none =>
    have hst : (based b h).step F.scratch (floatLoad size r a0 dataAddr) = .exception := by
      rw [Hart.step, decode_floatLoad hp]
    rw [run_exception hst]
    simp only [User.put, hp]
    rfl
  | some p =>
    have hst : (based b h).step F.scratch (floatLoad size r a0 dataAddr) =
        (based b h).exec F.scratch (.fload p r a0 dataAddr) := by
      rw [floatLoad_eq hp, Hart.step_encode F.scratch _ decode_fload]
    cases hon : F.fpOn h.csrs.rest with
    | false =>
      have hoff : F.scratch.fpOn (based b h).csrs = false := hon
      rw [run_exception (by rw [hst, Hart.exec, hoff]; rfl)]
      simp only [User.put, hp, user, hon]
      rfl
    | true =>
      have hon' : F.scratch.fpOn (based b h).csrs = true := hon
      rw [run_mem (by rw [hst, Hart.exec, hon']; rfl) (by rw [based_a0, page_data]), run_nops, epilogue,
        run_epilogue]
      simp only [User.put, hp, user, hon]
      exact congrArg (fun g => (stopOf post, (⟨g, Function.update h.fpr r (p.box d), F.fpDirty h.csrs.rest⟩ :
        User σ), d)) hg

theorem observed_readFpr {size : BitVec 3} (post : Bool) (r : BitVec 5) :
    (run F b ([floatStore size r a0 dataAddr, nop, nop, nop] ++ epilogue post) (based b h) d).observed =
      (((user h).get F size (.fpr r)).map fun v => (stopOf post, user h, putLow size d v)).getD
        (.exception, { user h with gpr := h.gpr.set a0 (page b 0) }, d) := by
  show (run F b (floatStore size r a0 dataAddr :: nop :: nop :: nop :: epilogue post) (based b h) d).observed = _
  have hg := set_base_restore h.gpr (page b 0)
  cases hp : precOf size with
  | none =>
    have hst : (based b h).step F.scratch (floatStore size r a0 dataAddr) = .exception := by
      rw [Hart.step, decode_floatStore hp]
    rw [run_exception hst]
    simp [User.get, hp, Outcome.observed, user, based]
  | some p =>
    have hst : (based b h).step F.scratch (floatStore size r a0 dataAddr) =
        (based b h).exec F.scratch (.fstore p a0 r dataAddr) := by
      rw [floatStore_eq hp, Hart.step_encode F.scratch _ decode_fstore]
    cases hon : F.fpOn h.csrs.rest with
    | false =>
      have hoff : F.scratch.fpOn (based b h).csrs = false := hon
      rw [run_exception (by rw [hst, Hart.exec, hoff]; rfl)]
      simp [User.get, hp, hon, Outcome.observed, user, based]
    | true =>
      have hon' : F.scratch.fpOn (based b h).csrs = true := hon
      rw [run_mem (by rw [hst, Hart.exec, hon']; rfl) (by rw [based_a0, page_data]), run_nops, epilogue,
        run_epilogue]
      simp only [User.get, hp, user, hon, based_a0, page_data, dataAfter_store, prec_size hp]
      exact congrArg (fun g => ended post h g h.csrs.rest (putLow size d (h.fpr r))) hg

theorem transfer_meaning {c : Command} (hc : c.Transfers) (hpc : h.pc = page b x) (hx : x.toNat + 4 < 2 ^ 12) :
    (run F b (abstractCmdRom c).words h d).observed = c.acAr.meaning F b (user h) d := by
  have hpro : ∀ body, run F b (prologue ++ body) h d = run F b body (based b h) d :=
    fun body => run_prologue hpc hx
  rw [words_transfer hc, List.append_assoc, hpro, AcArCmd.meaning]
  have hs := hc.size
  cases hw : c.acAr.write with
  | true =>
    cases ht : c.acAr.target with
    | gpr r =>
      by_cases hr : r = a0
      · subst hr
        exact observed_writeCsr hs c.acAr.postexec dscratch1
      · have hb : (Target.gpr r).writeBody c.acAr.aarsize = [load c.acAr.aarsize r a0 dataAddr, nop, nop, nop] :=
          if_neg hr
        rw [if_pos rfl, hb, observed_writeGpr hs c.acAr.postexec hr]
        rfl
    | fpr r => exact observed_writeFpr c.acAr.postexec r
    | csr a => exact observed_writeCsr hs c.acAr.postexec a
  | false =>
    cases ht : c.acAr.target with
    | gpr r =>
      by_cases hr : r = a0
      · subst hr
        exact observed_readCsr hs c.acAr.postexec dscratch1
      · have hb : (Target.gpr r).readBody c.acAr.aarsize = [store c.acAr.aarsize r a0 dataAddr, nop, nop, nop] :=
          if_neg hr
        rw [if_neg Bool.false_ne_true, hb, observed_readGpr hs c.acAr.postexec hr]
        rfl
    | fpr r => exact observed_readFpr c.acAr.postexec r
    | csr a => exact observed_readCsr hs c.acAr.postexec a

@[simp] theorem lo0_runOn (a : AcArCmd) (p : AbstractCmd) : (runOn a p).lo0 = p.lo0 := by
  unfold runOn
  split <;> rfl

/-- A program that is not that of a transfer stops at its first word: at once, or with an illegal
instruction where there is nothing to transfer. -/
theorem lo0_of_not_transfers {c : Command} (hc : ¬c.Transfers) :
    (abstractCmdRom c).lo0 = if (abstractCmdRom c).unsupported then ebreak else illegal := by
  unfold abstractCmdRom
  split
  case isFalse => rfl
  case isTrue ht =>
    rw [lo0_runOn, unsupported_runOn]
    by_cases hs : c.acAr.aarsize < maxAar ∧ c.acAr.transfer = true
    · have hr : c.acAr.regno.extractLsb' 14 2 ≠ 0 := fun h => hc ⟨ht, hs.1, hs.2, h⟩
      cases hw : c.acAr.write
      · rw [abstractBody, if_neg (by simp [hw]), if_pos ⟨hs.1, hs.2, hw⟩, abstractRead, if_pos hr]
        rfl
      · rw [abstractBody, if_pos ⟨hs.1, hs.2, hw⟩, abstractWrite, if_pos hr]
        rfl
    · rw [abstractBody, if_neg (fun h => hs ⟨h.1, h.2.1⟩), if_neg (fun h => hs ⟨h.1, h.2.1⟩)]
      split <;> rfl

theorem words_eq_cons (p : AbstractCmd) : ∃ ws, p.words = p.lo0 :: ws := ⟨_, rfl⟩

/-- What a command means. -/
def Command.meaning (F : Csrs σ) (b : BitVec 52) (c : Command) (u : User σ) (d : BitVec 64) :
    End × User σ × BitVec 64 :=
  if (abstractCmdRom c).unsupported then (.ebreak, u, d)
  else if c.acAr.transfer then c.acAr.meaning F b u d
  else (.exception, u, d)

theorem Command.transfers_iff (c : Command) :
    c.Transfers ↔ (abstractCmdRom c).unsupported = false ∧ c.acAr.transfer = true := by
  rw [← Bool.not_eq_true, unsupported_iff]
  constructor
  · rintro ⟨hc, hs, ht, hr⟩
    simp [hc, ht, hr, BitVec.not_le.2 hs]
  · rintro ⟨h, ht⟩
    simp only [ht, if_true, not_or, not_not] at h
    exact ⟨h.1, BitVec.not_le.1 h.2.1, ht, h.2.2⟩

/-- The program of every command does what the command means, from any state of the hart: which
register is moved and what of it, that the other registers are as before, and what is left where
the access raises an exception. -/
theorem abstract_cmd_meaning (F : Csrs σ) (b : BitVec 52) (c : Command) (h : Hart (Scratch σ)) (d : BitVec 64)
    (hpc : h.pc = page b x) (hx : x.toNat + 4 < 2 ^ 12) :
    (run F b (abstractCmdRom c).words h d).observed = c.meaning F b (user h) d := by
  rw [Command.meaning]
  by_cases hc : c.Transfers
  · obtain ⟨hu, ht⟩ := c.transfers_iff.1 hc
    rw [hu, ht, transfer_meaning hc hpc hx]
    rfl
  · obtain ⟨ws, hws⟩ := words_eq_cons (abstractCmdRom c)
    rw [hws, lo0_of_not_transfers hc]
    cases hu : (abstractCmdRom c).unsupported with
    | true =>
      have hst : run F b (ebreak :: ws) h d = ⟨.ebreak, h, d⟩ := by rw [run, step_ebreak]
      rw [if_pos rfl, hst]
      rfl
    | false =>
      have ht : c.acAr.transfer = false := by
        rw [Command.transfers_iff] at hc
        simpa [hu] using hc
      have hst : h.step F.scratch illegal = .exception := by rw [Hart.step, decode_illegal]
      rw [if_neg Bool.false_ne_true, run_exception hst, ht]
      rfl

/-- No CSRs at all. -/
def noCsrs : Csrs Unit := ⟨fun _ _ => none, fun _ _ _ => none, fun _ => false, id⟩

/-- A hart at the program of a command, with 42 in `s0`. -/
def atCommand : Hart (Scratch Unit) := ⟨page 0 0x338, (⟨fun _ => 0, rfl⟩ : Gpr).set s0 42, fun _ => 0, ⟨0, 0, ()⟩⟩

/-- A read of `s0`, eight bytes wide. -/
def readS0 : Command := .ofBits 0x00321008

theorem abstract_cmd_meaning_s0 :
    (run noCsrs 0 (abstractCmdRom readS0).words atCommand 0).observed =
        readS0.meaning noCsrs 0 (user atCommand) 0 ∧
      (readS0.meaning noCsrs 0 (user atCommand) 0).2.2 = 42 :=
  ⟨abstract_cmd_meaning noCsrs 0 readS0 atCommand 0 rfl (by decide), by decide⟩

end Dm
end Ariane

/-
# The miss handler of the write-back cache

`cache_management` of `miss_handler.sv`, with the functions of `std_cache_pkg.sv`, `amo_alu.sv` and
the arrays of `std_nbdcache.sv`, in front of the `axi_adapter` of `Axi/WriteBurst.lean`. The sizes
are parameters (`Geom`), `ariane_pkg` has one choice of them (`arianeGeom`).

The handler has the first port of the arrays. What the other ports make of the arrays, and the
bypass of the memory, is an input (`In.port`), and so is what the arrays show in a cycle after
which the handler does not read them. A write is in memory from the cycle on in which the last of
its beats and its address have been taken.

`cnt_q` is its index: the bits below never show.
-/
import Ariane.Axi.WriteBurst
import Ariane.Lib.Drain
import Ariane.Lsu.Lanes
import Mathlib.Tactic.Ring

namespace Ariane
namespace Nbdcache

open Axi (Word)
open Axi.WriteBurst (AdCfg AdReq AdIn AdRegs AdOut Aw Ar W)
open Lib (writeLanes)
open Lib.Burst (Job)
open Lsu (AmoOp dataAlign)
open Lsu.Lanes (beGen)

/-! ### Types -/

/-- A line has `2 ^ wordBits` words, a way `2 ^ idxWidth` lines. -/
structure Geom where
  tagWidth : ℕ
  idxWidth : ℕ
  wordBits : ℕ
  setAssoc : ℕ
  wordBits_pos : 0 < wordBits
  wordBits_le : wordBits ≤ 8
  fits : tagWidth + (idxWidth + wordBits) ≤ 61
  [setAssoc_ne : NeZero setAssoc]

attribute [instance] Geom.setAssoc_ne

def arianeGeom : Geom := ⟨44, 8, 1, 8, by decide, by decide, by decide⟩

/-- The adapter of whole lines. -/
abbrev Geom.adCfg (g : Geom) : AdCfg where
  words := 2 ^ g.wordBits
  idWidth := 4
  criticalWordFirst := false
  cachelineByteOffset := g.wordBits + 3
  words_pos := Nat.two_pow_pos _
  words_le := Nat.pow_le_pow_right (by decide) g.wordBits_le

theorem Geom.one_lt_words (g : Geom) : 1 < g.adCfg.words := Nat.one_lt_two_pow g.wordBits_pos.ne'

variable {g : Geom}

abbrev Ways (g : Geom) := Fin g.setAssoc → Bool

abbrev LineData (g : Geom) := BitVec g.wordBits → Word

/-- `cache_line_t`. -/
structure CacheLine (g : Geom) where
  tag : BitVec g.tagWidth
  data : LineData g
  valid : Bool
  dirty : Bool

abbrev Arrays (g : Geom) := BitVec g.idxWidth → Fin g.setAssoc → CacheLine g

abbrev Paddr (g : Geom) := BitVec (g.tagWidth + (g.idxWidth + (g.wordBits + 3)))

namespace Paddr

variable (a : Paddr g)

def word : BitVec g.wordBits := a.extractLsb' 3 g.wordBits
def idx : BitVec g.idxWidth := a.extractLsb' (g.wordBits + 3) g.idxWidth
def tag : BitVec g.tagWidth := a.extractLsb' (g.idxWidth + (g.wordBits + 3)) g.tagWidth

end Paddr

/-- `mshr_t`. -/
structure Mshr (g : Geom) where
  id : BitVec 2
  valid : Bool
  we : Bool
  addr : Paddr g
  wdata : Word
  be : BitVec 8

/-- `miss_req_t`, as far as `cache_management` reads it. -/
structure MissReq where
  valid : Bool
  bypass : Bool
  addr : BitVec 64
  we : Bool
  wdata : Word
  be : BitVec 8

/-- The operands of `amo_req_t`. -/
structure Amo where
  op : AmoOp
  size : BitVec 2
  operandA : BitVec 64
  operandB : Word
deriving DecidableEq

structure Reservation where
  address : BitVec 61
  valid : Bool
deriving DecidableEq

inductive State
  | idle | flushing | flush | wbCachelineFlush | flushReqStatus | wbCachelineMiss | waitGntSram | miss
  | reqCacheline | missRepl | saveCacheline | init | amoLoad | amoSaveLoad | amoStore
deriving DecidableEq, Repr

structure Regs (g : Geom) where
  state : State
  mshr : Mshr g
  cnt : BitVec g.idxWidth
  evictWay : Ways g
  evictCl : CacheLine g
  serveAmo : Bool
  reservation : Reservation

def CacheLine.zero : CacheLine g := ⟨0, fun _ => 0, false, false⟩

def Regs.reset : Regs g :=
  ⟨.init, ⟨0, false, false, 0, 0, 0⟩, 0, fun _ => false, .zero, false, ⟨0, false⟩⟩

/-! ### `amo_alu` -/

/-- Bit 64 of the adder. -/
def borrow (a b : BitVec 65) : Bool := (a + -b).getLsbD 64

def amoAlu (op : AmoOp) (a b : Word) : Word :=
  match op with
  | .sc | .swap => b
  | .add => (a.signExtend 65 + b.signExtend 65).setWidth 64
  | .and => a &&& b
  | .or => a ||| b
  | .xor => a ^^^ b
  | .max => if borrow (a.signExtend 65) (b.signExtend 65) then b else a
  | .min => if borrow (a.signExtend 65) (b.signExtend 65) then a else b
  | .maxu => if borrow (a.setWidth 65) (b.setWidth 65) then b else a
  | .minu => if borrow (a.setWidth 65) (b.setWidth 65) then a else b
  | .none | .lr => 0

/-! ### The choice of a way -/

def firstSet (v : Ways g) : Option (Fin g.setAssoc) := (List.finRange g.setAssoc).find? v

/-- `one_hot_to_bin`: the first bit. -/
def oneHotToBin (v : Ways g) : Fin g.setAssoc := (firstSet v).getD 0

/-- `get_victim_cl`: the first bit, alone. -/
def getVictimCl (v : Ways g) : Ways g := fun w => firstSet v == some w

/-! ### `cache_management` -/

/-- The response channels of the AXI port. -/
structure AxiIn where
  awReady : Bool
  wReady : Bool
  arReady : Bool
  bValid : Bool
  bId : BitVec 4
  rValid : Bool
  rId : BitVec 4
  rData : Word
  rLast : Bool

/-- The words of memory, `addr[63:3]`. -/
abbrev Mem := BitVec 61 → Word

structure In (g : Geom) where
  flush : Bool
  busy : Bool
  missReq : Fin 3 → MissReq
  amoReq : Bool
  amo : Amo
  lfsr : Fin g.setAssoc
  axi : AxiIn
  rdata : Fin g.setAssoc → CacheLine g
  port : Option (Mem × Arrays g)

/-- The port of the arrays. Of `be.tag` and `be.data` all bits are the same. -/
structure Sram (g : Geom) where
  req : Ways g
  addr : BitVec g.idxWidth
  we : Bool
  data : CacheLine g
  beTag : Bool
  beData : Bool
  beVldrty : Ways g

structure Out (g : Geom) where
  next : Regs g
  sram : Sram g
  missGnt : Option (BitVec 2)
  missO : Bool
  lfsrEnable : Bool
  flushAck : Bool
  amoAck : Bool
  amoResult : Word

/-- `amo_operand_a` and `amo_operand_b`. -/
def amoOperands (a : Amo) (wdata : Word) : Word × Word :=
  let loadData := dataAlign (a.operandA.extractLsb' 0 3) wdata
  if a.size = 2 then ((loadData.setWidth 32).signExtend 64, (a.operandB.setWidth 32).signExtend 64)
  else (loadData, a.operandB)

/-- The AMO makes no store: a load-reserved, and a store-conditional that fails. -/
def noStore (r : Reservation) (a : Amo) : Bool :=
  a.op == .lr ||
    a.op == .sc && (r.valid && r.address != a.operandA.extractLsb' 3 61 || !r.valid)

/-- `req_fsm_miss_valid`. -/
def fsmMissValid (s : Regs g) (a : Amo) : Bool :=
  match s.state with
  | .reqCacheline | .wbCachelineFlush | .wbCachelineMiss | .amoLoad => true
  | .amoStore => !noStore s.reservation a
  | _ => false

/-- A request for a single word. -/
def singleReq (g : Geom) (a : Amo) (we : Bool) (wdata : Word) (be : BitVec 8) : AdReq g.adCfg where
  type := .singleReq
  addr := a.operandA
  we := we
  wdata := fun k => if k = 0 then wdata else 0
  be := fun k => if k = 0 then be else 0
  size := a.size
  id := (0b1100 : BitVec 4)
  line := fun h => nomatch h

/-- A request for a line. -/
def lineReq (addr : BitVec 64) (we : Bool) (wdata : LineData g) (be : BitVec 8) : AdReq g.adCfg where
  type := .cacheLineReq
  addr := addr
  we := we
  wdata := fun k => wdata (BitVec.ofNat _ k)
  be := fun _ => be
  size := 3
  id := (0b1100 : BitVec 4)
  line := fun _ => g.one_lt_words

/-- The line with `tag` at `idx`. -/
def lineAddr (tag : BitVec g.tagWidth) (idx : BitVec g.idxWidth) : BitVec 64 :=
  (tag ++ (idx ++ 0#(g.wordBits + 3)) : Paddr g).setWidth 64

/-- What goes with `req_fsm_miss_valid`. -/
def fsmMiss (s : Regs g) (a : Amo) : AdReq g.adCfg :=
  match s.state with
  | .reqCacheline => lineReq (s.mshr.addr.setWidth 64) false (fun _ => 0) 0
  | .wbCachelineFlush | .wbCachelineMiss => lineReq (lineAddr s.evictCl.tag s.cnt) true s.evictCl.data 0xff
  | .amoLoad => singleReq g a false 0 0
  | .amoStore =>
    let ops := amoOperands a s.mshr.wdata
    singleReq g a true (dataAlign (a.operandA.extractLsb' 0 3) (amoAlu a.op ops.1 ops.2))
      (beGen (a.operandA.extractLsb' 0 3) a.size)
  | _ => lineReq 0 false (fun _ => 0) 0

def Sram.none (g : Geom) : Sram g := ⟨fun _ => false, 0, false, .zero, false, false, fun _ => false⟩

/-- `req_o = 1'b1`: the first way, which is enough for the valid and dirty bits. -/
def wayZero (g : Geom) : Ways g := fun w => w == 0

/-- `cache_management`, with what the adapter answers. -/
def cacheManagement (s : Regs g) (i : In g) (rdata : Fin g.setAssoc → CacheLine g) (gnt valid : Bool)
    (dataMiss : ℕ → Word) : Out g :=
  let o : Out g := ⟨s, .none g, none, false, false, false, false, 0⟩
  let evictWay : Ways g := fun w => (rdata w).valid && (rdata w).dirty
  let validWay : Ways g := fun w => (rdata w).valid
  match s.state with
  | .idle =>
    let n := s
    let n :=
      if i.amoReq && !i.busy then
        if !s.serveAmo then { n with state := .flushReqStatus, serveAmo := true, cnt := 0 }
        else { n with state := .amoLoad, serveAmo := false }
      else n
    let n := if i.flush && !i.busy then { n with state := .flushReqStatus, cnt := 0 } else n
    let n :=
      match (List.finRange 3).find? fun k => (i.missReq k).valid && !(i.missReq k).bypass with
      | some k =>
        let r := i.missReq k
        { n with
          state := .miss, serveAmo := false
          mshr := ⟨BitVec.ofNat 2 k, true, r.we, r.addr.setWidth _, r.wdata, r.be⟩ }
      | none => n
    { o with next := n }
  | .miss =>
    { o with
      next := { s with state := .missRepl }
      sram := { Sram.none g with req := fun _ => true, addr := s.mshr.addr.idx }, missO := true }
  | .missRepl =>
    if decide (∀ w, validWay w = true) then
      let evicted := rdata i.lfsr
      let n := { s with evictWay := fun w => w == i.lfsr }
      { o with
        lfsrEnable := true
        next :=
          if evicted.dirty then
            { n with
              state := .wbCachelineMiss, cnt := s.mshr.addr.idx
              evictCl := { s.evictCl with tag := evicted.tag, data := evicted.data } }
          else { n with state := .reqCacheline } }
    else { o with next := { s with state := .reqCacheline, evictWay := getVictimCl fun w => !validWay w } }
  | .reqCacheline =>
    if gnt then { o with next := { s with state := .saveCacheline }, missGnt := some s.mshr.id } else o
  | .saveCacheline =>
    if valid then
      let data : LineData g := fun k =>
        if s.mshr.we && k == s.mshr.addr.word then writeLanes s.mshr.be (dataMiss k.toNat) s.mshr.wdata
        else dataMiss k.toNat
      { o with
        next := { s with state := .idle, mshr := { s.mshr with valid := false } }
        sram := ⟨s.evictWay, s.mshr.addr.idx, true, ⟨s.mshr.addr.tag, data, true, s.mshr.we⟩, true, true, s.evictWay⟩ }
    else o
  | .wbCachelineFlush | .wbCachelineMiss =>
    if gnt then
      { o with
        next := { s with state := if s.state = .wbCachelineMiss then .miss else .flushReqStatus }
        sram := ⟨wayZero g, s.cnt, true, .zero, false, false, s.evictWay⟩ }
    else o
  | .flushReqStatus =>
    { o with
      next := { s with state := .flushing }, sram := { Sram.none g with req := fun _ => true, addr := s.cnt } }
  | .flushing =>
    if decide (∃ w, evictWay w = true) then
      { o with
        next :=
          { s with
            state := .wbCachelineFlush, evictWay := getVictimCl evictWay, evictCl := rdata (oneHotToBin evictWay) } }
    else
      let last := s.cnt == BitVec.allOnes _
      { o with
        next := { s with cnt := s.cnt + 1, state := if last then .idle else .flushReqStatus }
        sram := ⟨wayZero g, s.cnt, true, .zero, false, false, fun _ => true⟩
        flushAck := last && !s.serveAmo }
  | .init =>
    { o with
      next := { s with cnt := s.cnt + 1, state := if s.cnt = BitVec.allOnes _ then .idle else .init }
      sram := ⟨wayZero g, s.cnt, true, .zero, false, false, fun _ => true⟩ }
  | .amoLoad => if gnt then { o with next := { s with state := .amoSaveLoad } } else o
  | .amoSaveLoad =>
    if valid then { o with next := { s with state := .amoStore, mshr := { s.mshr with wdata := dataMiss 0 } } } else o
  | .amoStore =>
    let a := i.amo
    let loaded := (amoOperands a s.mshr.wdata).1
    let res := s.reservation
    let res := if noStore s.reservation a && a.op == .sc then { res with valid := false } else res
    let res := if a.op = .lr then ⟨a.operandA.extractLsb' 3 61, true⟩ else res
    let o :=
      if noStore s.reservation a then
        { o with
          amoAck := true, amoResult := if a.op = .sc then 1 else loaded
          next := { s with state := .idle, reservation := res } }
      else o
    if valid then
      { o with
        amoAck := true, amoResult := if a.op = .sc then 0 else loaded
        next := { s with state := .idle, reservation := if a.op = .sc then { res with valid := false } else res } }
    else o
  | .flush | .waitGntSram => o

/-- The arrays after a write. -/
def Arrays.write (A : Arrays g) (p : Sram g) : Arrays g := fun idx w =>
  let l := A idx w
  if p.we && idx == p.addr then
    { tag := if p.req w && p.beTag then p.data.tag else l.tag
      data := if p.req w && p.beData then p.data.data else l.data
      valid := if decide (∃ v, p.req v = true) && p.beVldrty w then p.data.valid else l.valid
      dirty := if decide (∃ v, p.req v = true) && p.beVldrty w then p.data.dirty else l.dirty }
  else l

/-! ### The system -/

/-- The memory after a burst: beat `k` goes to the word `k` places on. -/
def Mem.perform (m : Mem) (j : Job (Aw 4) W) : Mem :=
  j.beats.zipIdx.foldl (fun m b =>
    let a := j.aw.addr.extractLsb' 3 61 + BitVec.ofNat 61 b.2
    Function.update m a (writeLanes b.1.strb (m a) b.1.data)) m

/-- `lastAr` is the last read that memory was sent. -/
structure Sys (g : Geom) where
  h : Regs g
  arr : Arrays g
  rdata : Fin g.setAssoc → CacheLine g
  ad : Lib.Burst.Tracked (AdRegs g.adCfg) (AdReq g.adCfg) (Aw 4) W
  mem : Mem
  lastAr : Option (Ar 4)

namespace Sys

variable (s : Sys g) (i : In g)

/-- The input of the adapter. -/
def adIn : AdIn g.adCfg where
  req := fsmMissValid s.h i.amo
  r := fsmMiss s.h i.amo
  awReady := i.axi.awReady
  wReady := i.axi.wReady
  arReady := i.axi.arReady
  bValid := i.axi.bValid
  bId := i.axi.bId
  rValid := i.axi.rValid
  rId := i.axi.rId
  rData := i.axi.rData
  rLast := i.axi.rLast

def adOut : AdOut g.adCfg := Axi.WriteBurst.axiFsm s.ad.s (s.adIn i)

def out : Out g := cacheManagement s.h i s.rdata (s.adOut i).gnt (s.adOut i).valid s.ad.s.cacheLine

/-- The write that is in memory from this cycle on. -/
def written : Option (Job (Aw 4) W) :=
  s.ad.complete (Axi.WriteBurst.adapter g.adCfg) (s.adIn i) fun aw => aw.len.toNat + 1

def memD : Mem :=
  match i.port, s.written i with
  | some p, _ => p.1
  | none, some j => s.mem.perform j
  | none, none => s.mem

def arrD : Arrays g :=
  match i.port with
  | some p => p.2
  | none => s.arr.write (s.out i).sram

def next : Sys g where
  h := (s.out i).next
  arr := s.arrD i
  rdata := if decide (∃ w, (s.out i).sram.req w = true) && !(s.out i).sram.we then s.arr (s.out i).sram.addr else i.rdata
  ad := s.ad.next (Axi.WriteBurst.adapter g.adCfg) (s.adIn i)
  mem := s.memD i
  lastAr := if i.axi.arReady then (s.adOut i).ar.or s.lastAr else s.lastAr

end Sys

/-! ### Bursts in memory -/

/-- The place of a word in memory. -/
def wordAddr (tag : BitVec g.tagWidth) (idx : BitVec g.idxWidth) (k : BitVec g.wordBits) : BitVec 61 :=
  (tag ++ (idx ++ k)).setWidth 61

theorem toNat_wordAddr (tag : BitVec g.tagWidth) (idx : BitVec g.idxWidth) (k : BitVec g.wordBits) :
    (wordAddr tag idx k).toNat = tag.toNat * 2 ^ (g.idxWidth + g.wordBits) + (idx.toNat * 2 ^ g.wordBits + k.toNat) := by
  have hfit : 2 ^ (g.tagWidth + (g.idxWidth + g.wordBits)) ≤ 2 ^ 61 := Nat.pow_le_pow_right (by decide) g.fits
  have hlt := (tag ++ (idx ++ k)).isLt
  rw [wordAddr, BitVec.toNat_setWidth, Nat.mod_eq_of_lt (by omega), Lib.toNat_append_eq, Lib.toNat_append_eq]

theorem wordAddr_inj {tag tag' : BitVec g.tagWidth} {idx idx' : BitVec g.idxWidth} {k k' : BitVec g.wordBits}
    (h : wordAddr tag idx k = wordAddr tag' idx' k') : tag = tag' ∧ idx = idx' ∧ k = k' := by
  have hfit : 2 ^ (g.tagWidth + (g.idxWidth + g.wordBits)) ≤ 2 ^ 61 := Nat.pow_le_pow_right (by decide) g.fits
  have happ : tag ++ (idx ++ k) = tag' ++ (idx' ++ k') := by
    have hn := congrArg BitVec.toNat h
    rw [wordAddr, wordAddr, BitVec.toNat_setWidth, BitVec.toNat_setWidth,
      Nat.mod_eq_of_lt (by have := (tag ++ (idx ++ k)).isLt; omega),
      Nat.mod_eq_of_lt (by have := (tag' ++ (idx' ++ k')).isLt; omega)] at hn
    exact BitVec.eq_of_toNat_eq hn
  obtain ⟨rfl, hrest⟩ := Lib.append_inj happ
  obtain ⟨rfl, rfl⟩ := Lib.append_inj hrest
  exact ⟨rfl, rfl, rfl⟩

/-- Beat `k` of a line goes to its word `k`. -/
theorem lineAddr_add (tag : BitVec g.tagWidth) (idx : BitVec g.idxWidth) {k : ℕ} (hk : k < 2 ^ g.wordBits) :
    (lineAddr tag idx).extractLsb' 3 61 + BitVec.ofNat 61 k = wordAddr tag idx (BitVec.ofNat _ k) := by
  have hfit : 2 ^ (g.tagWidth + (g.idxWidth + g.wordBits)) ≤ 2 ^ 61 := Nat.pow_le_pow_right (by decide) g.fits
  have hw := toNat_wordAddr tag idx (BitVec.ofNat _ k)
  have hlt := (wordAddr tag idx (BitVec.ofNat _ k)).isLt
  rw [BitVec.toNat_ofNat, Nat.mod_eq_of_lt hk] at hw
  apply BitVec.eq_of_toNat_eq
  have hline : (lineAddr tag idx).toNat =
      8 * (tag.toNat * 2 ^ (g.idxWidth + g.wordBits) + idx.toNat * 2 ^ g.wordBits) := by
    have heq : (tag ++ (idx ++ 0#(g.wordBits + 3))).toNat =
        8 * (tag.toNat * 2 ^ (g.idxWidth + g.wordBits) + idx.toNat * 2 ^ g.wordBits) := by
      rw [Lib.toNat_append_eq, Lib.toNat_append_eq, BitVec.toNat_ofNat, Nat.zero_mod,
        show g.idxWidth + (g.wordBits + 3) = (g.idxWidth + g.wordBits) + 3 by omega, Nat.pow_add, Nat.pow_add 2 _ 3]
      ring
    rw [lineAddr, BitVec.toNat_setWidth, heq, Nat.mod_eq_of_lt (by omega)]
  rw [BitVec.toNat_add, BitVec.extractLsb'_toNat, Nat.shiftRight_eq_div_pow, hline, hw, BitVec.toNat_ofNat]
  omega

/-- The words that a line stores. -/
def lineStore (tag : BitVec g.tagWidth) (idx : BitVec g.idxWidth) (data : LineData g) (a : BitVec 61) : Option Word :=
  if a = wordAddr tag idx (a.setWidth _) then some (data (a.setWidth _)) else none

theorem setWidth_wordAddr (tag : BitVec g.tagWidth) (idx : BitVec g.idxWidth) (k : BitVec g.wordBits) :
    (wordAddr tag idx k).setWidth g.wordBits = k := by
  apply BitVec.eq_of_toNat_eq
  rw [BitVec.toNat_setWidth, toNat_wordAddr, Nat.pow_add, ← Nat.mul_assoc, ← Nat.add_assoc, ← Nat.add_mul,
    Nat.mul_add_mod_of_lt k.isLt]

theorem lineStore_wordAddr (tag : BitVec g.tagWidth) (idx : BitVec g.idxWidth) (data : LineData g) (k : BitVec g.wordBits) :
    lineStore tag idx data (wordAddr tag idx k) = some (data k) := by
  rw [lineStore, setWidth_wordAddr, if_pos rfl]

theorem lineStore_eq_none {tag : BitVec g.tagWidth} {idx : BitVec g.idxWidth} {data : LineData g} {a : BitVec 61} :
    lineStore tag idx data a = none ↔ ∀ k, a ≠ wordAddr tag idx k := by
  unfold lineStore
  split
  · rename_i h
    simp only [reduceCtorEq, false_iff, not_forall, not_not]
    exact ⟨_, h⟩
  · rename_i h
    refine ⟨fun _ k hk => h ?_, fun _ => rfl⟩
    rw [hk, setWidth_wordAddr]

/-- The burst of a line. -/
def lineJob (tag : BitVec g.tagWidth) (idx : BitVec g.idxWidth) (data : LineData g) : Job (Aw 4) W :=
  Axi.WriteBurst.adWrite (lineReq (lineAddr tag idx) true data 0xff)

theorem writeLanes_all (old new : Word) : writeLanes (0xff : BitVec 8) old new = new := by
  apply BitVec.eq_of_getLsbD_eq
  intro j hj
  have hb : (0xff : BitVec 8).getLsbD (j / 8) = true := by
    rw [show (0xff : BitVec 8) = BitVec.allOnes 8 from rfl, BitVec.getLsbD_allOnes]
    exact decide_eq_true (by omega)
  rw [Lib.getLsbD_writeLanes, hb, if_pos rfl]

theorem foldl_update {α β : Type} [DecidableEq α] (f : ℕ → α) (v : ℕ → β) (m : α → β) : ∀ n : ℕ,
    (∀ i < n, ∀ j < n, f i = f j → i = j) →
    let m' := (List.range n).foldl (fun m k => Function.update m (f k) (v k)) m
    (∀ k < n, m' (f k) = v k) ∧ ∀ a, (∀ k < n, a ≠ f k) → m' a = m a
  | 0, _ => ⟨fun _ h => absurd h (Nat.not_lt_zero _), fun _ _ => rfl⟩
  | n + 1, hinj => by
    obtain ⟨hin, hout⟩ := foldl_update f v m n fun i hi j hj => hinj i (by omega) j (by omega)
    simp only [List.range_succ, List.foldl_append, List.foldl_cons, List.foldl_nil]
    refine ⟨fun k hk => ?_, fun a ha => ?_⟩
    · rcases Nat.lt_succ_iff_lt_or_eq.1 hk with hlt | rfl
      · have hne : f k ≠ f n := fun he => by have := hinj k hk n (by omega) he; omega
        rw [Function.update_of_ne hne]
        exact hin k hlt
      · exact Function.update_self _ _ _
    · rw [Function.update_of_ne (ha n (by omega))]
      exact hout a fun k hk => ha k (by omega)

theorem perform_lineJob (m : Mem) (tag : BitVec g.tagWidth) (idx : BitVec g.idxWidth) (data : LineData g) :
    m.perform (lineJob tag idx data) = Lib.Drain.store m (lineStore tag idx data) := by
  have hn : 2 ^ g.wordBits - 1 + 1 = 2 ^ g.wordBits := Nat.sub_add_cancel (Nat.two_pow_pos _)
  have hfold : m.perform (lineJob tag idx data) = (List.range (2 ^ g.wordBits)).foldl
      (fun m k => Function.update m (wordAddr tag idx (BitVec.ofNat _ k)) (data (BitVec.ofNat _ k))) m := by
    have hzip : (lineJob tag idx data).beats.zipIdx =
        (List.range (2 ^ g.wordBits)).map fun k => (⟨data (BitVec.ofNat _ k), 0xff, k == 2 ^ g.wordBits - 1⟩, k) := by
      have hbeats : (lineJob tag idx data).beats =
          (List.range (2 ^ g.wordBits)).map fun k => ⟨data (BitVec.ofNat _ k), 0xff, k == 2 ^ g.wordBits - 1⟩ := by
        rw [← hn]
        rfl
      rw [hbeats]
      apply List.ext_getElem <;> simp
    rw [Mem.perform, hzip, List.foldl_map]
    refine List.foldl_ext _ _ m fun m' k hk => ?_
    rw [← lineAddr_add tag idx (List.mem_range.1 hk)]
    simp only [writeLanes_all]
    rfl
  have hinj (i) (hi : i < 2 ^ g.wordBits) (j) (hj : j < 2 ^ g.wordBits)
      (h : wordAddr tag idx (BitVec.ofNat _ i) = wordAddr tag idx (BitVec.ofNat _ j)) : i = j := by
    have hk := congrArg BitVec.toNat (wordAddr_inj h).2.2
    rwa [BitVec.toNat_ofNat, BitVec.toNat_ofNat, Nat.mod_eq_of_lt hi, Nat.mod_eq_of_lt hj] at hk
  obtain ⟨hin, hout⟩ := foldl_update (fun k => wordAddr tag idx (BitVec.ofNat _ k)) (fun k => data (BitVec.ofNat _ k)) m
    (2 ^ g.wordBits) hinj
  rw [hfold]
  funext a
  rw [Lib.Drain.store]
  cases hl : lineStore tag idx data a with
  | none => exact hout a fun k _ => lineStore_eq_none.1 hl _
  | some b =>
    unfold lineStore at hl
    split at hl
    · rename_i ha
      have := hin (a.setWidth g.wordBits).toNat (BitVec.isLt _)
      simp only [BitVec.ofNat_toNat, BitVec.setWidth_eq] at this
      rw [← ha] at this
      rw [Option.getD_some, ← Option.some.inj hl]
      exact this
    · cases hl

/-! ### The adapter -/

section Adapter

open Axi.WriteBurst

variable {c : AdCfg} {s : AdRegs c} {i : AdIn c}

/-- While it waits for a response the adapter grants nothing. -/
theorem gnt_of_busy (h : s.state.busy = true) : (axiFsm s i).gnt = false := by
  unfold axiFsm
  cases hs : s.state <;> rw [hs] at h
  case idle | waitAwReady | waitLastWReady | waitLastWReadyAwReady | waitAwReadyBurst => cases h
  all_goals
    simp only
    split <;> rfl

/-- Only then it gives one. -/
theorem valid_of_not_busy (h : s.state.busy = false) : (axiFsm s i).valid = false := by
  unfold axiFsm
  cases hs : s.state <;> rw [hs] at h
  case waitBValid | waitRValid | waitRValidMultiple | completeRead => cases h
  case idle => cases hr : i.req <;> cases hwe : i.r.we <;> cases ht : i.r.type <;> simp [hwe, ht]
  case waitLastWReadyAwReady => cases i.awReady <;> cases i.wReady <;> by_cases hc : s.cnt = 0 <;> simp [hc]
  all_goals
    simp only
    repeat' split
    all_goals rfl

/-- After the grant of a write it waits for the response. -/
theorem state_of_gnt (hw : s.state = .idle → i.r.we = true) (h : (axiFsm s i).gnt = true) :
    (s.next i).state = .waitBValid := by
  change (axiFsm s i).stateD = _
  have hb : s.state.busy = false := by
    by_contra hb
    rw [gnt_of_busy (by simpa using hb)] at h
    cases h
  unfold axiFsm at h ⊢
  cases hs : s.state <;> rw [hs] at h hb
  case waitBValid | waitRValid | waitRValidMultiple | completeRead => cases hb
  case idle =>
    simp only [hw hs] at h ⊢
    cases hr : i.req <;> cases ht : i.r.type <;> cases har : i.awReady <;> cases hwr : i.wReady <;>
      simp [hr, ht, har, hwr] at h ⊢
  case waitLastWReadyAwReady =>
    cases har : i.awReady <;> cases hwr : i.wReady <;> by_cases hc : s.cnt = 0 <;> simp [har, hwr, hc] at h ⊢
  all_goals
    simp only at h ⊢
    repeat' split at h
    all_goals simp_all

/-- The grant of a read for one word. -/
theorem read_of_gnt (hi : s.state = .idle) (hwe : i.r.we = false) (ht : i.r.type = .singleReq)
    (h : (axiFsm s i).gnt = true) :
    i.arReady = true ∧ (s.next i).state = .waitRValid ∧ (axiFsm s i).ar = some (adAr i.r 0) := by
  change _ ∧ (axiFsm s i).stateD = _ ∧ _
  unfold axiFsm at h ⊢
  rw [hi] at h ⊢
  cases hr : i.req <;> cases har : i.arReady <;> simp [hr, hwe, ht, har] at h ⊢

/-- The word that is read comes with the last beat. -/
theorem next_of_waitRValid (hs : s.state = .waitRValid) (hl : i.rValid = true → i.rLast = true) :
    (axiFsm s i).valid = false ∧ (axiFsm s i).ar = none ∧
      (i.rValid = false ∧ (s.next i).state = .waitRValid ∨
        i.rValid = true ∧ (s.next i).state = .completeRead ∧ (s.next i).cacheLine 0 = i.rData) := by
  change _ ∧ _ ∧ (_ ∧ (axiFsm s i).stateD = _ ∨ _ ∧ (axiFsm s i).stateD = _ ∧ (axiFsm s i).cacheLineD 0 = _)
  unfold axiFsm
  rw [hs]
  cases hv : i.rValid with
  | false => simp
  | true => simp [hl hv]

theorem next_of_completeRead (hs : s.state = .completeRead) : (axiFsm s i).valid = true ∧ (s.next i).state = .idle := by
  change _ ∧ (axiFsm s i).stateD = _
  unfold axiFsm
  rw [hs]
  exact ⟨rfl, rfl⟩

theorem next_of_waitBValid (hs : s.state = .waitBValid) :
    (axiFsm s i).valid = i.bValid ∧ (s.next i).state = if i.bValid then .idle else .waitBValid := by
  change _ ∧ (axiFsm s i).stateD = _
  unfold axiFsm
  rw [hs]
  cases hb : i.bValid <;> simp

end Adapter

end Nbdcache
end Ariane

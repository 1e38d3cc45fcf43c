/-
# Re-aligning instructions

The instruction cache delivers words, instructions are streams of halfwords. The frontend
registers a word (shifted if the fetch started in its upper half) and `instr_realign.sv` cuts it:
half an instruction at the end of a word is saved for the next one.

Fetches from one flush to the next deliver a stream of halfwords, and what comes out between
them is the stream parsed from its start (`realign_parses`): a halfword is an instruction unless
its lowest bits are `11`, when it is the lower half of one.
-/
import Ariane.Lib.Bits
import Ariane.Lib.Machine
import Mathlib.Tactic.Common

namespace Ariane
namespace Frontend

open Lib

/-! ### Parsing a stream -/

/-- An instruction of two or four bytes. -/
inductive Parcel
  | half (h : BitVec 16)
  | word (w : BitVec 32)
deriving DecidableEq, Repr

/-- `instr_is_compressed`. -/
def isCompressed (h : BitVec 16) : Bool := h.extractLsb' 0 2 != 0b11

/-- The instructions of a stream that starts at the address `a`. -/
def parse (a : BitVec 64) : List (BitVec 16) → List (BitVec 64 × Parcel)
  | [] => []
  | [h] => if isCompressed h then [(a, .half h)] else []
  | h :: k :: hs =>
    if isCompressed h then (a, .half h) :: parse (a + 2) (k :: hs)
    else (a, .word (k ++ h)) :: parse (a + 4) hs

/-- The half instruction at the end of a stream. -/
def pending (a : BitVec 64) : List (BitVec 16) → Option (BitVec 64 × BitVec 16)
  | [] => none
  | [h] => if isCompressed h then none else some (a, h)
  | h :: k :: hs => if isCompressed h then pending (a + 2) (k :: hs) else pending (a + 4) hs

/-- The address behind a stream. -/
def behind (a : BitVec 64) (hs : List (BitVec 16)) : BitVec 64 := a + BitVec.ofNat 64 (2 * hs.length)

/-- What is parsed after a stream: the half instruction comes first. -/
def resume (a : BitVec 64) (hs ks : List (BitVec 16)) : BitVec 64 × List (BitVec 16) :=
  match pending a hs with
  | none => (behind a hs, ks)
  | some (b, h) => (b, h :: ks)

theorem behind_cons (a : BitVec 64) (h : BitVec 16) (hs : List (BitVec 16)) :
    behind a (h :: hs) = behind (a + 2) hs := by
  rw [behind, behind, List.length_cons, Nat.mul_add, Nat.add_comm, BitVec.ofNat_add, ← BitVec.add_assoc]
  rfl

theorem behind_cons_cons (a : BitVec 64) (h k : BitVec 16) (hs : List (BitVec 16)) :
    behind a (h :: k :: hs) = behind (a + 4) hs := by
  rw [behind_cons, behind_cons, BitVec.add_assoc]
  rfl

theorem behind_append (a : BitVec 64) (hs ks : List (BitVec 16)) :
    behind a (hs ++ ks) = behind (behind a hs) ks := by
  rw [behind, behind, behind, List.length_append, Nat.mul_add, BitVec.ofNat_add, BitVec.add_assoc]

theorem resume_cons (a : BitVec 64) (h : BitVec 16) {k : BitVec 16} {hs : List (BitVec 16)} (ks : List (BitVec 16))
    (hc : isCompressed h = true) : resume a (h :: k :: hs) ks = resume (a + 2) (k :: hs) ks := by
  simp only [resume, pending, hc, if_true, behind_cons a h]

theorem resume_cons_cons (a : BitVec 64) {h : BitVec 16} (k : BitVec 16) (hs ks : List (BitVec 16))
    (hc : isCompressed h = false) : resume a (h :: k :: hs) ks = resume (a + 4) hs ks := by
  simp only [resume, pending, hc, Bool.false_eq_true, if_false, behind_cons_cons]

/-- A stream is parsed part by part. -/
theorem parse_append (a : BitVec 64) (hs ks : List (BitVec 16)) :
    parse a (hs ++ ks) = parse a hs ++ parse (resume a hs ks).1 (resume a hs ks).2 ∧
      pending a (hs ++ ks) = pending (resume a hs ks).1 (resume a hs ks).2 := by
  induction a, hs using parse.induct with
  | case1 a => simp [parse, resume, pending, behind]
  | case2 a h hc =>
    cases ks with
    | nil => simp [parse, resume, pending, behind, hc]
    | cons k ks => simp [parse, resume, pending, behind, hc]
  | case3 a h hc =>
    rw [Bool.not_eq_true] at hc
    simp [parse, resume, pending, hc]
  | case4 a h k hs hc ih =>
    rw [resume_cons a h ks hc]
    simpa [parse, pending, hc] using ih
  | case5 a h k hs hc ih =>
    rw [Bool.not_eq_true] at hc
    rw [resume_cons_cons a k hs ks hc]
    simpa [parse, pending, hc] using ih

/-- The half instruction is the last halfword of the stream, and not compressed. -/
theorem pending_spec {a b : BitVec 64} {hs : List (BitVec 16)} {h : BitVec 16} (hp : pending a hs = some (b, h)) :
    isCompressed h = false ∧ b + 2 = behind a hs := by
  induction a, hs using parse.induct with
  | case1 a => cases hp
  | case2 a k hc => simp [pending, hc] at hp
  | case3 a k hc =>
    rw [Bool.not_eq_true] at hc
    simp only [pending, hc, Bool.false_eq_true, if_false, Option.some.injEq, Prod.mk.injEq] at hp
    obtain ⟨rfl, rfl⟩ := hp
    exact ⟨hc, rfl⟩
  | case4 a k l hs hc ih =>
    rw [behind_cons]
    simp only [pending, hc, if_true] at hp
    exact ih hp
  | case5 a k l hs hc ih =>
    rw [behind_cons_cons]
    simp only [pending, Bool.eq_false_iff.2 hc, Bool.false_eq_true, if_false] at hp
    exact ih hp

/-! ### The re-aligner -/

/-- `unaligned_q` and the half instruction it is about. -/
structure Realign where
  unaligned : Bool
  unalignedAddress : BitVec 64
  unalignedInstr : BitVec 16
deriving DecidableEq, Repr

/-- An output of the re-aligner. -/
structure Slot where
  valid : Bool
  addr : BitVec 64
  instr : BitVec 32
deriving DecidableEq, Repr

/-- What `re_align` assigns. -/
structure Aligned where
  out0 : Slot
  out1 : Slot
  unaligned : Bool
  unalignedAddress : BitVec 64
  unalignedInstr : BitVec 16
deriving DecidableEq, Repr

/-- The address of the upper halfword: `{address_i[63:2], 2'b10}`. -/
def upperHalf (a : BitVec 64) : BitVec 64 := a.extractLsb' 2 62 ++ 0b10#2

/-- `re_align`, for fetches of 32 bits. -/
def reAlign (q : Realign) (valid : Bool) (address : BitVec 64) (data : BitVec 32) : Aligned :=
  let lo : BitVec 16 := data.extractLsb' 0 16
  let hi : BitVec 16 := data.extractLsb' 16 16
  let o : Aligned :=
    { out0 :=
        ⟨valid, if q.unaligned then q.unalignedAddress else address,
          if q.unaligned then lo ++ q.unalignedInstr else data⟩
      out1 := ⟨false, upperHalf address, 0⟩
      unaligned := q.unaligned
      unalignedAddress := upperHalf address
      unalignedInstr := hi }
  let o : Aligned :=
    if isCompressed lo || q.unaligned then
      if isCompressed hi then
        { o with unaligned := false, out1 := ⟨valid, upperHalf address, 0#16 ++ hi⟩ }
      else { o with unaligned := true }
    else o
  -- the fetch started in the upper half of the word
  if valid && address.getLsbD 1 then
    if !isCompressed lo then
      { o with
        out0 := { o.out0 with valid := false }
        out1 := { o.out1 with valid := false }
        unaligned := true
        unalignedInstr := lo }
    else { o with out0 := { o.out0 with valid := true }, out1 := { o.out1 with valid := false } }
  else o

/-- The registers after a clock edge. -/
def Realign.next (q : Realign) (flush valid : Bool) (address : BitVec 64) (data : BitVec 32) : Realign where
  unaligned := if flush then false else if valid then (reAlign q valid address data).unaligned else q.unaligned
  unalignedAddress := if valid then (reAlign q valid address data).unalignedAddress else q.unalignedAddress
  unalignedInstr := if valid then (reAlign q valid address data).unalignedInstr else q.unalignedInstr

/-- The instruction in an output: the upper half of a word with a compressed instruction is not
part of it. -/
def Parcel.of (w : BitVec 32) : Parcel :=
  if isCompressed (w.extractLsb' 0 16) then .half (w.extractLsb' 0 16) else .word w

def Slot.out (s : Slot) : List (BitVec 64 × Parcel) := if s.valid then [(s.addr, .of s.instr)] else []

/-- The instructions of a cycle. -/
def Aligned.outs (o : Aligned) : List (BitVec 64 × Parcel) := o.out0.out ++ o.out1.out

/-! ### One word -/

theorem upperHalf_of_lower {a : BitVec 64} (h : a.toNat % 4 = 0) : upperHalf a = a + 2 := by
  apply BitVec.eq_of_toNat_eq
  have ha := a.isLt
  rw [upperHalf, toNat_append_eq, BitVec.extractLsb'_toNat, BitVec.toNat_add, Nat.shiftRight_eq_div_pow]
  show _ + 2 = (a.toNat + 2) % _
  omega

theorem upperHalf_of_upper {a : BitVec 64} (h : a.toNat % 4 = 2) : upperHalf a = a := by
  apply BitVec.eq_of_toNat_eq
  have ha := a.isLt
  rw [upperHalf, toNat_append_eq, BitVec.extractLsb'_toNat, Nat.shiftRight_eq_div_pow]
  show _ + 2 = _
  omega

theorem getLsbD_one_iff (a : BitVec 64) : a.getLsbD 1 = true ↔ a.toNat / 2 % 2 = 1 := by
  rw [BitVec.getLsbD, Nat.testBit_eq_decide_div_mod_eq, decide_eq_true_iff, Nat.pow_one]

/-- The re-aligner holds the half instruction `p`. -/
def Realign.Saves (q : Realign) : Option (BitVec 64 × BitVec 16) → Prop
  | none => q.unaligned = false
  | some (a, h) => q = ⟨true, a, h⟩

theorem Parcel.of_compressed {h : BitVec 16} (hc : isCompressed h = true) (u : BitVec 16) :
    Parcel.of (u ++ h) = .half h := by
  rw [Parcel.of, BitVec.extractLsb'_append_eq_right, if_pos hc]

theorem Parcel.of_uncompressed {h : BitVec 16} (hc : isCompressed h = false) (u : BitVec 16) :
    Parcel.of (u ++ h) = .word (u ++ h) := by
  rw [Parcel.of, BitVec.extractLsb'_append_eq_right, hc, if_neg Bool.false_ne_true]

/-- A word at its own address, after nothing or after half an instruction. -/
theorem reAlign_word {q : Realign} {p : Option (BitVec 64 × BitVec 16)} {a : BitVec 64} (hq : q.Saves p)
    (ha : a.toNat % 4 = 0) (hp : ∀ b h, p = some (b, h) → isCompressed h = false ∧ b + 2 = a)
    (lo hi : BitVec 16) :
    let r := match p with | none => (a, [lo, hi]) | some (b, h) => (b, [h, lo, hi])
    (reAlign q true a (hi ++ lo)).outs = parse r.1 r.2 ∧
      (q.next false true a (hi ++ lo)).Saves (pending r.1 r.2) := by
  have h1 : a[1] = false := by
    rw [← BitVec.getLsbD_eq_getElem, Bool.eq_false_iff, Ne, getLsbD_one_iff]
    omega
  have hup := upperHalf_of_lower ha
  have hlo : (hi ++ lo).extractLsb' 0 16 = lo := BitVec.extractLsb'_append_eq_right
  have hhi : (hi ++ lo).extractLsb' 16 16 = hi := BitVec.extractLsb'_append_eq_left
  match p with
  | none =>
    have hu : q.unaligned = false := hq
    cases hc0 : isCompressed lo with
    | false =>
      simp [reAlign, Realign.next, Realign.Saves, Aligned.outs, Slot.out, hlo, hhi, hu, hc0, h1, parse, pending,
        Parcel.of_uncompressed hc0]
    | true =>
      cases hc1 : isCompressed hi with
      | false =>
        simp [reAlign, Realign.next, Realign.Saves, Aligned.outs, Slot.out, hlo, hhi, hu, hc0, hc1, h1, parse,
          pending, Parcel.of_compressed hc0, hup]
      | true =>
        simp [reAlign, Realign.next, Realign.Saves, Aligned.outs, Slot.out, hlo, hhi, hu, hc0, hc1, h1, parse,
          pending, Parcel.of_compressed hc0, Parcel.of_compressed hc1, hup]
  | some (b, h) =>
    obtain ⟨hh, hb⟩ := hp b h rfl
    have hq' : q = ⟨true, b, h⟩ := hq
    have hb4 : a + 2#64 = b + 4#64 := by
      rw [← hb, BitVec.add_assoc]
      rfl
    subst hq'
    cases hc1 : isCompressed hi with
    | false =>
      simp [reAlign, Realign.next, Realign.Saves, Aligned.outs, Slot.out, hlo, hhi, hh, hc1, h1, parse,
        pending, Parcel.of_uncompressed hh, hup, hb4]
    | true =>
      simp [reAlign, Realign.next, Realign.Saves, Aligned.outs, Slot.out, hlo, hhi, hh, hc1, h1, parse,
        pending, Parcel.of_uncompressed hh, Parcel.of_compressed hc1, hup, hb4]

/-- The upper half of a word, where a fetch starts. -/
theorem reAlign_upper {q : Realign} {a : BitVec 64} (hq : q.Saves none) (ha : a.toNat % 4 = 2) (h : BitVec 16) :
    (reAlign q true a (0#16 ++ h)).outs = parse a [h] ∧
      (q.next false true a (0#16 ++ h)).Saves (pending a [h]) := by
  have h1 : a[1] = true := by
    rw [← BitVec.getLsbD_eq_getElem, getLsbD_one_iff]
    omega
  have hup := upperHalf_of_upper ha
  have hu : q.unaligned = false := hq
  have hlo : (0#16 ++ h).extractLsb' 0 16 = h := BitVec.extractLsb'_append_eq_right
  have hhi : (0#16 ++ h).extractLsb' 16 16 = 0#16 := BitVec.extractLsb'_append_eq_left
  have hc0 : isCompressed 0#16 = true := by decide
  cases hc : isCompressed h with
  | false =>
    simp [reAlign, Realign.next, Realign.Saves, Aligned.outs, Slot.out, hlo, hu, hc, h1, parse, pending, hup]
  | true =>
    simp [reAlign, Realign.next, Realign.Saves, Aligned.outs, Slot.out, hlo, hhi, hu, hc, hc0, h1, parse, pending,
      Parcel.of_compressed hc]

/-! ### The frontend -/

/-- `icache_valid_q`, `icache_vaddr_q` and `icache_data_q`. -/
structure FetchRegs where
  valid : Bool
  vaddr : BitVec 64
  data : BitVec 32
deriving DecidableEq, Repr

/-- An answer of the instruction cache (`icache_dreq_i`), and `kill_s2`, which flushes. -/
structure In where
  valid : Bool
  vaddr : BitVec 64
  data : BitVec 32
  flush : Bool
deriving DecidableEq, Repr

/-- `icache_data`: the word is shifted by the offset of its address. -/
def icacheData (vaddr : BitVec 64) (data : BitVec 32) : BitVec 32 := data >>> (if vaddr.getLsbD 1 then 16 else 0)

def FetchRegs.next (f : FetchRegs) (i : In) : FetchRegs where
  valid := i.valid
  vaddr := if i.valid then i.vaddr else f.vaddr
  data := if i.valid then icacheData i.vaddr i.data else f.data

structure Regs where
  fetch : FetchRegs
  realign : Realign
deriving DecidableEq, Repr

def Regs.aligned (s : Regs) : Aligned := reAlign s.realign s.fetch.valid s.fetch.vaddr s.fetch.data

def Regs.next (s : Regs) (i : In) : Regs where
  fetch := s.fetch.next i
  realign := s.realign.next i.flush s.fetch.valid s.fetch.vaddr s.fetch.data

def Regs.reset : Regs := ⟨⟨false, 0, 0⟩, ⟨false, 0, 0⟩⟩

/-! ### Streams -/

/-- A word of the cache, with the address of the fetch. -/
structure Packet where
  vaddr : BitVec 64
  data : BitVec 32
deriving DecidableEq, Repr

/-- The halfwords that were fetched. -/
def Packet.halves (p : Packet) : List (BitVec 16) :=
  if p.vaddr.getLsbD 1 then [p.data.extractLsb' 16 16] else [p.data.extractLsb' 0 16, p.data.extractLsb' 16 16]

/-- The address of the word behind the packet's: `{fetch_address[63:2], 2'b0} + 4`. -/
def Packet.after (p : Packet) : BitVec 64 := p.vaddr.extractLsb' 2 62 ++ 0#2 + 4

/-- What was fetched from a flush to the next one, and what came out for it. -/
structure Segment where
  start : BitVec 64
  stream : List (BitVec 16)
  out : List (BitVec 64 × Parcel)
deriving DecidableEq, Repr

/-- A packet, and what comes out in its cycle, added to the fetches so far. -/
def Segment.extend (g : Option Segment) (p : Packet) (out : List (BitVec 64 × Parcel)) : Segment :=
  match g with
  | none => ⟨p.vaddr, p.halves, out⟩
  | some g => ⟨g.start, g.stream ++ p.halves, g.out ++ out⟩

/-- The registers, with the fetches that went through them. -/
structure St where
  regs : Regs
  past : List Segment
  now : Option Segment
  packet : Option Packet
deriving DecidableEq, Repr

/-- The fetches since the last flush, after the packet of the cycle. -/
def St.segment (s : St) : Option Segment :=
  match s.packet with
  | none => s.now
  | some p => some (.extend s.now p s.regs.aligned.outs)

def St.next (s : St) (i : In) : St where
  regs := s.regs.next i
  past := if i.flush then s.past ++ s.segment.toList else s.past
  now := if i.flush then none else s.segment
  packet := if i.valid then some ⟨i.vaddr, i.data⟩ else none

def St.reset : St := ⟨.reset, [], none, none⟩

def machine : Machine St In where
  init s := s = .reset
  next := St.next

/-- Where the next word is, if words have been fetched since the last flush. -/
def St.following (s : St) : Option (BitVec 64) :=
  match s.packet with
  | none => s.now.map fun g => behind g.start g.stream
  | some p => some p.after

/-- A fetch is at an even address, and at the word behind the last one if there was no flush
in between. -/
def Consecutive (s : St) (i : In) : Prop :=
  i.valid = true → i.vaddr.toNat % 2 = 0 ∧
    (i.flush = false → s.following = none ∨ s.following = some i.vaddr)

instance (s : St) (i : In) : Decidable (Consecutive s i) := inferInstanceAs (Decidable (_ → _ ∧ (_ → _ ∨ _)))

/-- What has come out for each stream is the stream parsed from its start; and where there is
no packet, nothing comes out. -/
structure Parsed (s : St) : Prop where
  segments : ∀ g ∈ s.past ++ s.segment.toList, g.out = parse g.start g.stream
  bubble : s.packet = none → s.regs.aligned.outs = []

/-! ### The invariant -/

/-- The stream so far has been parsed, and the re-aligner holds the half instruction at its
end. -/
structure Segment.Ok (g : Segment) (q : Realign) : Prop where
  out : g.out = parse g.start g.stream
  saves : q.Saves (pending g.start g.stream)
  word : (behind g.start g.stream).toNat % 4 = 0

structure Inv (s : St) : Prop where
  past : ∀ g ∈ s.past, g.out = parse g.start g.stream
  fresh : s.now = none → s.regs.realign.Saves none
  now : ∀ g ∈ s.now, g.Ok s.regs.realign
  bubble : s.packet = none → s.regs.fetch.valid = false
  packet : ∀ p ∈ s.packet, s.regs.fetch = ⟨true, p.vaddr, icacheData p.vaddr p.data⟩ ∧ p.vaddr.toNat % 2 = 0 ∧
    ∀ g ∈ s.now, p.vaddr = behind g.start g.stream

theorem outs_of_invalid (q : Realign) (a : BitVec 64) (w : BitVec 32) : (reAlign q false a w).outs = [] := by
  simp only [reAlign, Bool.false_and, Bool.false_eq_true, if_false]
  split
  · split <;> rfl
  · rfl

theorem icacheData_of_lower {p : Packet} (h : p.vaddr.toNat % 4 = 0) : icacheData p.vaddr p.data =
    p.data.extractLsb' 16 16 ++ p.data.extractLsb' 0 16 ∧
      p.halves = [p.data.extractLsb' 0 16, p.data.extractLsb' 16 16] := by
  have h1 : p.vaddr.getLsbD 1 = false := by
    rw [Bool.eq_false_iff, Ne, getLsbD_one_iff]
    omega
  refine ⟨?_, by rw [Packet.halves, h1, if_neg Bool.false_ne_true]⟩
  rw [BitVec.extractLsb'_append_extractLsb'_eq_extractLsb' (by rfl)]
  rw [icacheData, h1, if_neg Bool.false_ne_true]
  simp

theorem icacheData_of_upper {p : Packet} (h : p.vaddr.toNat % 4 = 2) : icacheData p.vaddr p.data =
    0#16 ++ p.data.extractLsb' 16 16 ∧ p.halves = [p.data.extractLsb' 16 16] := by
  have h1 : p.vaddr.getLsbD 1 = true := by
    rw [getLsbD_one_iff]
    omega
  refine ⟨?_, by rw [Packet.halves, h1, if_pos rfl]⟩
  apply BitVec.eq_of_toNat_eq
  have hp := p.data.isLt
  rw [icacheData, h1, if_pos rfl, toNat_append_eq, BitVec.toNat_ushiftRight, BitVec.extractLsb'_toNat,
    Nat.shiftRight_eq_div_pow]
  show _ = 0 * _ + _
  omega

theorem Packet.after_eq (p : Packet) (h : p.vaddr.toNat % 2 = 0) :
    p.after = behind p.vaddr p.halves ∧ p.after.toNat % 4 = 0 := by
  have hp := p.vaddr.isLt
  have hafter : p.after.toNat = (p.vaddr.toNat / 4 * 4 + 4) % 2 ^ 64 := by
    rw [Packet.after, BitVec.toNat_add, toNat_append_eq, BitVec.extractLsb'_toNat, Nat.shiftRight_eq_div_pow]
    show (_ % 2 ^ 62 * 4 + 0 + 4) % _ = _
    omega
  have h4 : p.vaddr.toNat % 4 = 0 ∨ p.vaddr.toNat % 4 = 2 := by omega
  refine ⟨BitVec.eq_of_toNat_eq ?_, by omega⟩
  rcases h4 with h4 | h4
  · rw [hafter, (icacheData_of_lower h4).2, behind, BitVec.toNat_add]
    show _ = (_ + 4) % _
    omega
  · rw [hafter, (icacheData_of_upper h4).2, behind, BitVec.toNat_add]
    show _ = (_ + 2) % _
    omega

/-- A packet is parsed after the stream before it. -/
theorem Inv.segment {s : St} (h : Inv s) {p : Packet} (hp : s.packet = some p) :
    (Segment.extend s.now p s.regs.aligned.outs).Ok
      (s.regs.realign.next false s.regs.fetch.valid s.regs.fetch.vaddr s.regs.fetch.data) ∧
    p.after = behind (Segment.extend s.now p s.regs.aligned.outs).start
      (Segment.extend s.now p s.regs.aligned.outs).stream := by
  obtain ⟨hf, heven, hat⟩ := h.packet p hp
  obtain ⟨hafter, hword⟩ := p.after_eq heven
  rw [Regs.aligned, hf]
  dsimp only
  cases hn : s.now with
  | none =>
    have hq := h.fresh hn
    have hok : (reAlign s.regs.realign true p.vaddr (icacheData p.vaddr p.data)).outs = parse p.vaddr p.halves ∧
        (s.regs.realign.next false true p.vaddr (icacheData p.vaddr p.data)).Saves (pending p.vaddr p.halves) := by
      have h4 : p.vaddr.toNat % 4 = 0 ∨ p.vaddr.toNat % 4 = 2 := by omega
      rcases h4 with h4 | h4
      · rw [(icacheData_of_lower h4).1, (icacheData_of_lower h4).2]
        exact reAlign_word hq h4 nofun _ _
      · rw [(icacheData_of_upper h4).1, (icacheData_of_upper h4).2]
        exact reAlign_upper hq h4 _
    rw [hafter] at hword
    exact ⟨⟨hok.1, hok.2, hword⟩, hafter⟩
  | some g =>
    have hg := h.now g hn
    have ha : p.vaddr = behind g.start g.stream := hat g hn
    have h4 : p.vaddr.toNat % 4 = 0 := by rw [ha]; exact hg.word
    obtain ⟨hparse, hpend⟩ := parse_append g.start g.stream p.halves
    have hbehind : behind g.start (g.stream ++ p.halves) = behind p.vaddr p.halves := by
      rw [behind_append, ha]
    have hok := reAlign_word hg.saves h4 (fun b k hb => by rw [ha]; exact pending_spec hb)
      (p.data.extractLsb' 0 16) (p.data.extractLsb' 16 16)
    rw [← (icacheData_of_lower h4).1] at hok
    -- the stream goes on at the half instruction, if there is one
    have hres : resume g.start g.stream p.halves = match pending g.start g.stream with
        | none => (p.vaddr, [p.data.extractLsb' 0 16, p.data.extractLsb' 16 16])
        | some (b, h) => (b, [h, p.data.extractLsb' 0 16, p.data.extractLsb' 16 16]) := by
      rw [resume, (icacheData_of_lower h4).2, ha]
    dsimp only at hok
    rw [← hres] at hok
    refine ⟨⟨?_, ?_, ?_⟩, ?_⟩
    · show g.out ++ _ = parse g.start (g.stream ++ p.halves)
      rw [hparse, hg.out, hok.1]
    · show Realign.Saves _ (pending g.start (g.stream ++ p.halves))
      rw [hpend]
      exact hok.2
    · show (behind g.start (g.stream ++ p.halves)).toNat % 4 = 0
      rw [hbehind, ← hafter]
      exact hword
    · show p.after = behind g.start (g.stream ++ p.halves)
      rw [hbehind]
      exact hafter

theorem Inv.parsed {s : St} (h : Inv s) : Parsed s := by
  refine ⟨fun g hg => ?_, fun hn => ?_⟩
  · rcases List.mem_append.1 hg with hg | hg
    · exact h.past g hg
    · rw [Option.mem_toList, St.segment] at hg
      cases hp : s.packet with
      | none =>
        rw [hp] at hg
        exact (h.now g hg).out
      | some p =>
        rw [hp] at hg
        obtain rfl := Option.some.inj hg
        exact (h.segment hp).1.out
  · rw [Regs.aligned, h.bubble hn]
    exact outs_of_invalid _ _ _

theorem saves_of_flush (q : Realign) (valid : Bool) (a : BitVec 64) (w : BitVec 32) :
    (q.next true valid a w).Saves none := rfl

/-- A cycle without a packet leaves the re-aligner as it is. -/
theorem next_of_invalid (q : Realign) (a : BitVec 64) (w : BitVec 32) : q.next false false a w = q := rfl

theorem Inv.segment_ok {s : St} (h : Inv s) : ∀ g ∈ s.segment,
    g.Ok (s.regs.realign.next false s.regs.fetch.valid s.regs.fetch.vaddr s.regs.fetch.data) ∧
      ∀ a ∈ s.following, a = behind g.start g.stream := by
  intro g hg
  unfold St.segment at hg
  unfold St.following
  cases hp : s.packet with
  | none =>
    rw [hp] at hg
    rw [h.bubble hp, next_of_invalid]
    refine ⟨h.now g hg, ?_⟩
    simp only [Option.mem_def, Option.map_eq_some_iff]
    rintro a ⟨k, hk, rfl⟩
    rw [Option.mem_unique hg hk]
  | some p =>
    rw [hp] at hg
    obtain rfl := Option.some.inj hg
    refine ⟨(h.segment hp).1, ?_⟩
    simp only [Option.mem_def, Option.some.injEq]
    rintro a rfl
    exact (h.segment hp).2

theorem Inv.next {s : St} {i : In} (h : Inv s) (hc : Consecutive s i) : Inv (s.next i) := by
  have hnow : (s.next i).now = if i.flush then none else s.segment := rfl
  have hpast : (s.next i).past = if i.flush then s.past ++ s.segment.toList else s.past := rfl
  have hrealign : (s.next i).regs.realign =
      s.regs.realign.next i.flush s.regs.fetch.valid s.regs.fetch.vaddr s.regs.fetch.data := rfl
  have hpacket : (s.next i).packet = if i.valid then some ⟨i.vaddr, i.data⟩ else none := rfl
  refine ⟨?_, ?_, ?_, ?_, ?_⟩
  · intro g hg
    rw [hpast] at hg
    split at hg
    · exact h.parsed.segments g hg
    · exact h.past g hg
  · intro hn
    rw [hrealign]
    cases hfl : i.flush with
    | true => exact saves_of_flush _ _ _ _
    | false =>
      rw [hnow, hfl, if_neg Bool.false_ne_true] at hn
      -- there was no packet either
      unfold St.segment at hn
      cases hp : s.packet with
      | none =>
        rw [hp] at hn
        rw [h.bubble hp, next_of_invalid]
        exact h.fresh hn
      | some p =>
        rw [hp] at hn
        cases hn
  · intro g hg
    cases hfl : i.flush with
    | true =>
      rw [hnow, hfl, if_pos rfl] at hg
      cases hg
    | false =>
      rw [hnow, hfl, if_neg Bool.false_ne_true] at hg
      rw [hrealign, hfl]
      exact (h.segment_ok g hg).1
  · intro hn
    show i.valid = false
    by_contra hv
    rw [hpacket, Bool.eq_true_of_not_eq_false hv, if_pos rfl] at hn
    cases hn
  · intro p hp
    rw [hpacket] at hp
    cases hv : i.valid with
    | false =>
      rw [hv, if_neg Bool.false_ne_true] at hp
      cases hp
    | true =>
      rw [hv, if_pos rfl] at hp
      obtain rfl := Option.some.inj hp
      obtain ⟨heven, hfollow⟩ := hc hv
      refine ⟨by simp [St.next, Regs.next, FetchRegs.next, hv], heven, fun g hg => ?_⟩
      cases hfl : i.flush with
      | true =>
        rw [hnow, hfl, if_pos rfl] at hg
        cases hg
      | false =>
        rw [hnow, hfl, if_neg Bool.false_ne_true] at hg
        have hsome : s.following = some (behind g.start g.stream) := by
          have hb := (h.segment_ok g hg).2
          cases hfo : s.following with
          | some a => rw [hb a hfo]
          | none =>
            unfold St.following at hfo
            unfold St.segment at hg
            cases hp : s.packet with
            | none =>
              rw [hp] at hfo hg
              rw [Option.map_eq_none_iff.1 hfo] at hg
              cases hg
            | some p => simp [hp] at hfo
        rcases hfollow hfl with hn | he
        · rw [hsome] at hn
          cases hn
        · exact Option.some.inj (he.symm.trans hsome)

theorem inv_reset : Inv .reset := ⟨nofun, fun _ => rfl, nofun, fun _ => rfl, nofun⟩

/-- In every run from reset whose fetches follow each other from flush to flush, with any
cycles in between, the instructions that come out are those of the streams that were fetched. -/
theorem realign_parses (is : List In) (h : machine.Steps Consecutive St.reset is) :
    machine.Always Parsed .reset is := by
  have step : ∀ s i, Inv s → Consecutive s i → Inv (machine.next s i) := fun _ _ hi hc => hi.next hc
  exact (Machine.always_of_steps step is St.reset inv_reset h).mono fun _ hs => hs.parsed

/-- A fetch from the upper half of a word, with the lower half of an instruction in it, whose
upper half comes two cycles later in a word that ends in half an instruction, and a flush. -/
theorem realign_parses_upper :
    let is : List In := [⟨true, 0x1002, 0x00b30001, false⟩, ⟨false, 0, 0, false⟩, ⟨true, 0x1004, 0x00b30125, false⟩,
      ⟨false, 0, 0, true⟩, ⟨true, 0x2000, 0x00000001, false⟩, ⟨false, 0, 0, false⟩]
    machine.Always Parsed .reset is ∧
      (machine.run .reset is).past = [⟨0x1002, [0x00b3, 0x0125, 0x00b3], [(0x1002, .word 0x012500b3)]⟩] ∧
      (machine.run .reset is).now = some ⟨0x2000, [0x0001, 0x0000], [(0x2000, .half 1), (0x2002, .half 0)]⟩ :=
  ⟨realign_parses _ (by decide +kernel), by decide +kernel, by decide +kernel⟩

end Frontend
end Ariane

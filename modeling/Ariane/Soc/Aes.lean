/-
# The AES-192 engine

`aes_192.v` with `round.v` and `table.v`: a pipeline of twelve key expansions and twelve rounds, two
clock edges each, which takes the state and the key at a rising edge of `start` and runs on whatever
it holds otherwise. No register of it has a reset.
-/
import Mathlib.Data.BitVec
import Ariane.Soc.Hmac

namespace Ariane
namespace Aes

open Sha256 (word)

/-! ### The tables -/

/-- The case table of `S`. -/
def sTable : List (BitVec 8) :=
  [0x63, 0x7c, 0x77, 0x7b, 0xf2, 0x6b, 0x6f, 0xc5, 0x30, 0x01, 0x67, 0x2b, 0xfe, 0xd7, 0xab, 0x76,
   0xca, 0x82, 0xc9, 0x7d, 0xfa, 0x59, 0x47, 0xf0, 0xad, 0xd4, 0xa2, 0xaf, 0x9c, 0xa4, 0x72, 0xc0,
   0xb7, 0xfd, 0x93, 0x26, 0x36, 0x3f, 0xf7, 0xcc, 0x34, 0xa5, 0xe5, 0xf1, 0x71, 0xd8, 0x31, 0x15,
   0x04, 0xc7, 0x23, 0xc3, 0x18, 0x96, 0x05, 0x9a, 0x07, 0x12, 0x80, 0xe2, 0xeb, 0x27, 0xb2, 0x75,
   0x09, 0x83, 0x2c, 0x1a, 0x1b, 0x6e, 0x5a, 0xa0, 0x52, 0x3b, 0xd6, 0xb3, 0x29, 0xe3, 0x2f, 0x84,
   0x53, 0xd1, 0x00, 0xed, 0x20, 0xfc, 0xb1, 0x5b, 0x6a, 0xcb, 0xbe, 0x39, 0x4a, 0x4c, 0x58, 0xcf,
   0xd0, 0xef, 0xaa, 0xfb, 0x43, 0x4d, 0x33, 0x85, 0x45, 0xf9, 0x02, 0x7f, 0x50, 0x3c, 0x9f, 0xa8,
   0x51, 0xa3, 0x40, 0x8f, 0x92, 0x9d, 0x38, 0xf5, 0xbc, 0xb6, 0xda, 0x21, 0x10, 0xff, 0xf3, 0xd2,
   0xcd, 0x0c, 0x13, 0xec, 0x5f, 0x97, 0x44, 0x17, 0xc4, 0xa7, 0x7e, 0x3d, 0x64, 0x5d, 0x19, 0x73,
   0x60, 0x81, 0x4f, 0xdc, 0x22, 0x2a, 0x90, 0x88, 0x46, 0xee, 0xb8, 0x14, 0xde, 0x5e, 0x0b, 0xdb,
   0xe0, 0x32, 0x3a, 0x0a, 0x49, 0x06, 0x24, 0x5c, 0xc2, 0xd3, 0xac, 0x62, 0x91, 0x95, 0xe4, 0x79,
   0xe7, 0xc8, 0x37, 0x6d, 0x8d, 0xd5, 0x4e, 0xa9, 0x6c, 0x56, 0xf4, 0xea, 0x65, 0x7a, 0xae, 0x08,
   0xba, 0x78, 0x25, 0x2e, 0x1c, 0xa6, 0xb4, 0xc6, 0xe8, 0xdd, 0x74, 0x1f, 0x4b, 0xbd, 0x8b, 0x8a,
   0x70, 0x3e, 0xb5, 0x66, 0x48, 0x03, 0xf6, 0x0e, 0x61, 0x35, 0x57, 0xb9, 0x86, 0xc1, 0x1d, 0x9e,
   0xe1, 0xf8, 0x98, 0x11, 0x69, 0xd9, 0x8e, 0x94, 0x9b, 0x1e, 0x87, 0xe9, 0xce, 0x55, 0x28, 0xdf,
   0x8c, 0xa1, 0x89, 0x0d, 0xbf, 0xe6, 0x42, 0x68, 0x41, 0x99, 0x2d, 0x0f, 0xb0, 0x54, 0xbb, 0x16]

/-- The case table of `xS`. -/
def xsTable : List (BitVec 8) :=
  [0xc6, 0xf8, 0xee, 0xf6, 0xff, 0xd6, 0xde, 0x91, 0x60, 0x02, 0xce, 0x56, 0xe7, 0xb5, 0x4d, 0xec,
   0x8f, 0x1f, 0x89, 0xfa, 0xef, 0xb2, 0x8e, 0xfb, 0x41, 0xb3, 0x5f, 0x45, 0x23, 0x53, 0xe4, 0x9b,
   0x75, 0xe1, 0x3d, 0x4c, 0x6c, 0x7e, 0xf5, 0x83, 0x68, 0x51, 0xd1, 0xf9, 0xe2, 0xab, 0x62, 0x2a,
   0x08, 0x95, 0x46, 0x9d, 0x30, 0x37, 0x0a, 0x2f, 0x0e, 0x24, 0x1b, 0xdf, 0xcd, 0x4e, 0x7f, 0xea,
   0x12, 0x1d, 0x58, 0x34, 0x36, 0xdc, 0xb4, 0x5b, 0xa4, 0x76, 0xb7, 0x7d, 0x52, 0xdd, 0x5e, 0x13,
   0xa6, 0xb9, 0x00, 0xc1, 0x40, 0xe3, 0x79, 0xb6, 0xd4, 0x8d, 0x67, 0x72, 0x94, 0x98, 0xb0, 0x85,
   0xbb, 0xc5, 0x4f, 0xed, 0x86, 0x9a, 0x66, 0x11, 0x8a, 0xe9, 0x04, 0xfe, 0xa0, 0x78, 0x25, 0x4b,
   0xa2, 0x5d, 0x80, 0x05, 0x3f, 0x21, 0x70, 0xf1, 0x63, 0x77, 0xaf, 0x42, 0x20, 0xe5, 0xfd, 0xbf,
   0x81, 0x18, 0x26, 0xc3, 0xbe, 0x35, 0x88, 0x2e, 0x93, 0x55, 0xfc, 0x7a, 0xc8, 0xba, 0x32, 0xe6,
   0xc0, 0x19, 0x9e, 0xa3, 0x44, 0x54, 0x3b, 0x0b, 0x8c, 0xc7, 0x6b, 0x28, 0xa7, 0xbc, 0x16, 0xad,
   0xdb, 0x64, 0x74, 0x14, 0x92, 0x0c, 0x48, 0xb8, 0x9f, 0xbd, 0x43, 0xc4, 0x39, 0x31, 0xd3, 0xf2,
   0xd5, 0x8b, 0x6e, 0xda, 0x01, 0xb1, 0x9c, 0x49, 0xd8, 0xac, 0xf3, 0xcf, 0xca, 0xf4, 0x47, 0x10,
   0x6f, 0xf0, 0x4a, 0x5c, 0x38, 0x57, 0x73, 0x97, 0xcb, 0xa1, 0xe8, 0x3e, 0x96, 0x61, 0x0d, 0x0f,
   0xe0, 0x7c, 0x71, 0xcc, 0x90, 0x06, 0xf7, 0x1c, 0xc2, 0x6a, 0xae, 0x69, 0x17, 0x99, 0x3a, 0x27,
   0xd9, 0xeb, 0x2b, 0x22, 0xd2, 0xa9, 0x07, 0x33, 0x2d, 0x3c, 0x15, 0xc9, 0x87, 0xaa, 0x50, 0xa5,
   0x03, 0x59, 0x09, 0x1a, 0x65, 0xd7, 0x84, 0xd0, 0x82, 0x29, 0x5a, 0x1e, 0x7b, 0xa8, 0x6d, 0x2c]

def S (b : BitVec 8) : BitVec 8 := sTable.getD b.toNat 0

def xS (b : BitVec 8) : BitVec 8 := xsTable.getD b.toNat 0

/-- The `i`th byte of a value, the most significant first. -/
def byte {n : ℕ} (x : BitVec n) (i : ℕ) : BitVec 8 := x.extractLsb' (n - 8 * (i + 1)) 8

/-- A table on each byte of a word. -/
def mapBytes (f : BitVec 8 → BitVec 8) (w : BitVec 32) : BitVec 32 :=
  f (byte w 0) ++ f (byte w 1) ++ f (byte w 2) ++ f (byte w 3)

/-- A table on each byte of a block. -/
def mapBlock (f : BitVec 8 → BitVec 8) (x : BitVec 128) : BitVec 128 :=
  mapBytes f (word x 0) ++ mapBytes f (word x 1) ++ mapBytes f (word x 2) ++ mapBytes f (word x 3)

/-! ### The key expansion -/

/-- `expand_key_type_A_192` to `expand_key_type_D_192`. -/
inductive Expand
  | A | B | C | D
deriving DecidableEq, Repr

/-- `{k0a, ..., k5a}`, `k6a` and `out_1`. -/
structure KeyStage where
  ka : BitVec 192
  k6a : BitVec 32
  out1 : BitVec 192

namespace Expand

/-- `v0`. -/
def v0 (rcon : BitVec 8) (k0 : BitVec 32) : BitVec 32 :=
  (k0.extractLsb' 24 8 ^^^ rcon) ++ k0.extractLsb' 0 24

/-- What `{k0a, ..., k5a}` takes. -/
def kaD (e : Expand) (rcon : BitVec 8) (x : BitVec 192) : BitVec 192 :=
  let k := word x
  let v := v0 rcon (k 0)
  match e with
  | A =>
    let v1 := v ^^^ k 1
    let v2 := v1 ^^^ k 2
    v ++ v1 ++ v2 ++ (v2 ^^^ k 3) ++ k 4 ++ k 5
  | B =>
    let v2 := k 1 ^^^ k 2
    let v3 := v2 ^^^ k 3
    let v4 := v3 ^^^ k 4
    k 0 ++ k 1 ++ v2 ++ v3 ++ v4 ++ (v4 ^^^ k 5)
  | C =>
    let v4 := k 3 ^^^ k 4
    v ++ (v ^^^ k 1) ++ k 2 ++ k 3 ++ v4 ++ (v4 ^^^ k 5)
  | D => v ++ (v ^^^ k 1) ++ k 2 ++ k 3 ++ k 4 ++ k 5

/-- What `k6a` takes; type B has none. -/
def k6aD (e : Expand) (x : BitVec 192) : BitVec 32 :=
  let k := word x
  match e with
  | A | D => mapBytes S ((k 5).rotateLeft 8)
  | B => 0
  | C => mapBytes S ((k 3 ^^^ k 4 ^^^ k 5).rotateLeft 8)

/-- `{k0b, ..., k5b}`. -/
def kb (e : Expand) (s : KeyStage) : BitVec 192 :=
  let k := word s.ka
  let f := s.k6a
  match e with
  | A => (k 0 ^^^ f) ++ (k 1 ^^^ f) ++ (k 2 ^^^ f) ++ (k 3 ^^^ f) ++ k 4 ++ k 5
  | B => s.ka
  | C | D => (k 0 ^^^ f) ++ (k 1 ^^^ f) ++ k 2 ++ k 3 ++ k 4 ++ k 5

/-- `out_2`. -/
def out2 (e : Expand) (s : KeyStage) : BitVec 128 :=
  let k := word (e.kb s)
  match e with
  | A => k 0 ++ k 1 ++ k 2 ++ k 3
  | B => k 2 ++ k 3 ++ k 4 ++ k 5
  | C | D => k 4 ++ k 5 ++ k 0 ++ k 1

def next (e : Expand) (rcon : BitVec 8) (s : KeyStage) (x : BitVec 192) : KeyStage :=
  ⟨e.kaD rcon x, e.k6aD x, e.kb s⟩

end Expand

/-- `a0` to `a11`, with their `rcon`. -/
def expand : List (Expand × BitVec 8) :=
  [(.D, 0x01), (.B, 0), (.A, 0x02), (.C, 0x04), (.B, 0), (.A, 0x08), (.C, 0x10), (.B, 0), (.A, 0x20),
   (.C, 0x40), (.B, 0), (.A, 0x80)]

/-- An edge of the key expansions in a row: each takes what the one before had. -/
def keysNext : List (Expand × BitVec 8) → BitVec 192 → List KeyStage → List KeyStage
  | e :: es, x, s :: ss => e.1.next e.2 s x :: keysNext es s.out1 ss
  | _, _, ss => ss

/-- `k0b` to `k11b`. -/
def roundKeys (ss : List KeyStage) : List (BitVec 128) := List.zipWith (fun e s => e.1.out2 s) expand ss

/-! ### The rounds -/

/-- The registers of the sixteen `S` and of the sixteen `xS` of `one_round`, and `state_out`. -/
structure Round where
  sub : BitVec 128
  dbl : BitVec 128
  stateOut : BitVec 128

/-- The output of the `T` of byte `i`. -/
def Round.t (r : Round) (i : ℕ) : BitVec 32 :=
  byte r.sub i ++ byte r.sub i ++ (byte r.sub i ^^^ byte r.dbl i) ++ byte r.dbl i

/-- `p00` to `p33`: the columns of `table_lookup`. -/
def Round.p (r : Round) (i j : ℕ) : BitVec 32 := (r.t (4 * i + j)).rotateRight (8 * (j + 1) % 32)

def Round.next (r : Round) (x key : BitVec 128) : Round where
  sub := mapBlock S x
  dbl := mapBlock xS x
  stateOut :=
    (r.p 0 0 ^^^ r.p 1 1 ^^^ r.p 2 2 ^^^ r.p 3 3 ^^^ word key 0) ++
    (r.p 0 3 ^^^ r.p 1 0 ^^^ r.p 2 1 ^^^ r.p 3 2 ^^^ word key 1) ++
    (r.p 0 2 ^^^ r.p 1 3 ^^^ r.p 2 0 ^^^ r.p 3 1 ^^^ word key 2) ++
    (r.p 0 1 ^^^ r.p 1 2 ^^^ r.p 2 3 ^^^ r.p 3 0 ^^^ word key 3)

/-- An edge of the rounds in a row. -/
def roundsNext : List (BitVec 128) → BitVec 128 → List Round → List Round
  | key :: keys, x, r :: rs => r.next x key :: roundsNext keys r.stateOut rs
  | _, _, rs => rs

/-- The registers of the sixteen `S` of `final_round`, and its `state_out`. -/
structure Final where
  sub : BitVec 128
  stateOut : BitVec 128

def Final.next (r : Final) (x key : BitVec 128) : Final where
  sub := mapBlock S x
  stateOut :=
    let p i j := byte r.sub (4 * i + j)
    (p 0 0 ++ p 1 1 ++ p 2 2 ++ p 3 3 ^^^ word key 0) ++ (p 1 0 ++ p 2 1 ++ p 3 2 ++ p 0 3 ^^^ word key 1) ++
    (p 2 0 ++ p 3 1 ++ p 0 2 ++ p 1 3 ^^^ word key 2) ++ (p 3 0 ++ p 0 1 ++ p 1 2 ++ p 2 3 ^^^ word key 3)

theorem length_keysNext : ∀ (es : List (Expand × BitVec 8)) (x : BitVec 192) (ss : List KeyStage),
    (keysNext es x ss).length = ss.length
  | [], _, _ => rfl
  | _ :: _, _, [] => rfl
  | _ :: es, _, s :: ss => congrArg (· + 1) (length_keysNext es s.out1 ss)

theorem length_roundsNext : ∀ (keys : List (BitVec 128)) (x : BitVec 128) (rs : List Round),
    (roundsNext keys x rs).length = rs.length
  | [], _, _ => rfl
  | _ :: _, _, [] => rfl
  | _ :: keys, _, r :: rs => congrArg (· + 1) (length_roundsNext keys r.stateOut rs)

/-! ### The engine -/

/-- Twelve expansions and eleven rounds. -/
structure Regs where
  startR : Bool
  validCounter : BitVec 5
  s0 : BitVec 128
  k0 : BitVec 192
  keys : List KeyStage
  rounds : List Round
  final : Final
  keys_length : keys.length = 12
  rounds_length : rounds.length = 11

structure In where
  start : Bool
  state : BitVec 128
  key : BitVec 192

namespace Regs

/-- `out_valid`. -/
def outValid (s : Regs) : Bool := s.validCounter = 0

/-- `start_posedge`. -/
def startPosedge (s : Regs) (start : Bool) : Bool := start && !s.startR

def next (s : Regs) (i : In) : Regs where
  startR := i.start
  validCounter :=
    if s.startPosedge i.start then 25 else if s.outValid then s.validCounter else s.validCounter - 1
  s0 := if s.startPosedge i.start then i.state ^^^ i.key.extractLsb' 64 128 else s.s0
  k0 := if s.startPosedge i.start then i.key else s.k0
  keys := keysNext expand s.k0 s.keys
  rounds := roundsNext (roundKeys s.keys) s.s0 s.rounds
  final := s.final.next (s.rounds.getLastD ⟨0, 0, 0⟩).stateOut ((roundKeys s.keys).getLastD 0)
  keys_length := (length_keysNext expand s.k0 s.keys).trans s.keys_length
  rounds_length := (length_roundsNext (roundKeys s.keys) s.s0 s.rounds).trans s.rounds_length

/-- `out` of `aes_192`. -/
def out (s : Regs) : BitVec 128 := s.final.stateOut

/-- The registers without `start_r`, which counts at a rising edge alone. -/
def held (s : Regs) : Regs := { s with startR := false }

/-- Two engines that hold the same and take the same at a rising edge. -/
theorem next_congr {s t : Regs} {i j : In} (h : s.held = t.held) (hstart : i.start = j.start)
    (hedge : s.startPosedge i.start = t.startPosedge j.start)
    (hload : s.startPosedge i.start = true → i = j) : s.next i = t.next j := by
  obtain ⟨sr, sv, ss, sk, skeys, srounds, sfinal, _, _⟩ := s
  obtain ⟨tr, tv, ts, tk, tkeys, trounds, tfinal, _, _⟩ := t
  simp only [held, mk.injEq, true_and] at h
  obtain ⟨rfl, rfl, rfl, rfl, rfl, rfl⟩ := h
  cases hp : startPosedge ⟨sr, sv, ss, sk, skeys, srounds, sfinal, by assumption, by assumption⟩ i.start with
  | true =>
    rw [hp] at hedge
    obtain rfl := hload hp
    simp [next, hp, ← hedge]
  | false =>
    rw [hp] at hedge
    rw [hstart] at hp
    simp [next, hp, ← hedge, hstart, outValid]

/-- All registers zero. -/
def zero : Regs := 
  ⟨false, 0, 0, 0, List.replicate 12 ⟨0, 0, 0⟩, List.replicate 11 ⟨0, 0, 0⟩, ⟨0, 0⟩, rfl, rfl⟩

/-- A known answer, 25 edges after the one that takes the state. -/
example :
    let i : In := ⟨true, 0x00112233445566778899aabbccddeeff, 0x000102030405060708090a0b0c0d0e0f1011121314151617⟩
    let s := (List.replicate 26 i).foldl next zero
    s.outValid = true ∧ s.out = 0xdda97ca4864cdfe06eaf70a0ec0d7191 := by
  decide +kernel

end Regs
end Aes
end Ariane

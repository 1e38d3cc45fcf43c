/-
# Fetch exceptions

The MMU answers a fetch with an exception, its cause and its address. The frontend keeps one bit
of it beside the word (`frontend.sv`), the queue gives that bit to all instructions that come out
in the cycle, and at its other end it makes an instruction page fault at the pc of it
(`instr_queue.sv`). So what an instruction is delivered with is the bit of the fetch of its last
halfword (`Inv.out`).

That is the exception of the first halfword with one only if the fetches of the instruction
`Agree`: none of them was answered with an exception, or the first one with a page fault and the
last one with any (`faults_iff`). An access fault becomes a page fault, a fault in the second
word is reported at the address of the first, and a fault in the first word alone is lost.
-/
import Ariane.Frontend.Queue
import Ariane.Frontend.Realign
import Ariane.Pkg
import Mathlib.Data.List.Chain

namespace Ariane
namespace Frontend
namespace Faults

open Lib Riscv

/-! ### Streams with faults -/

/-- A halfword, with the cause if its fetch was answered with an exception. -/
structure Half where
  bits : BitVec 16
  cause : Option (BitVec 64)
deriving DecidableEq, Repr

/-- An instruction of a stream: its address and its one or two halfwords. -/
structure Instr where
  pc : BitVec 64
  first : Half
  second : Option Half
deriving DecidableEq, Repr

/-- The instructions of a stream that starts at the address `a`. -/
def instrs (a : BitVec 64) : List Half → List Instr
  | [] => []
  | [h] => if isCompressed h.bits then [⟨a, h, none⟩] else []
  | h :: k :: hs =>
    if isCompressed h.bits then ⟨a, h, none⟩ :: instrs (a + 2) (k :: hs)
    else ⟨a, h, some k⟩ :: instrs (a + 4) hs

/-- The half instruction at the end of a stream. -/
def pendingHalf (a : BitVec 64) : List Half → Option (BitVec 64 × Half)
  | [] => none
  | [h] => if isCompressed h.bits then none else some (a, h)
  | h :: k :: hs => if isCompressed h.bits then pendingHalf (a + 2) (k :: hs) else pendingHalf (a + 4) hs

/-- What is parsed after a stream. -/
def resumeHalf (a : BitVec 64) (hs ks : List Half) : BitVec 64 × List Half :=
  match pendingHalf a hs with
  | none => (behind a (hs.map Half.bits), ks)
  | some (b, h) => (b, h :: ks)

namespace Instr

variable (x : Instr)

def parcel : Parcel :=
  match x.second with
  | none => .half x.first.bits
  | some k => .word (k.bits ++ x.first.bits)

def last : Half := x.second.getD x.first

/-- The exception of an instruction, cause and address: that of its first halfword with one. -/
def exception : Option (BitVec 64 × BitVec 64) :=
  (x.first.cause.map fun c => (c, x.pc)).or ((x.second.bind Half.cause).map fun c => (c, x.pc + 2))

/-- The fetches of the halfwords agree. -/
def Agree : Prop :=
  x.first.cause = none ∧ x.last.cause = none ∨
    x.first.cause = some instrPageFault ∧ x.last.cause.isSome = true

instance : Decidable x.Agree := inferInstanceAs (Decidable (_ ∧ _ ∨ _ ∧ _))

end Instr

/-- The exception the queue makes of its bit. -/
def pageFault (ex : Bool) (pc : BitVec 64) : Option (BitVec 64 × BitVec 64) :=
  if ex then some (instrPageFault, pc) else none

/-- An instruction on its way to the decoder, with its exception. -/
structure Offer where
  pc : BitVec 64
  parcel : Parcel
  exception : Option (BitVec 64 × BitVec 64)
deriving DecidableEq, Repr

/-- What the decoder should see of an instruction, and what it does see. -/
def Instr.expected (x : Instr) : Offer := ⟨x.pc, x.parcel, x.exception⟩
def Instr.offer (x : Instr) : Offer := ⟨x.pc, x.parcel, pageFault x.last.cause.isSome x.pc⟩

theorem Instr.offer_eq_iff (x : Instr) : x.offer = x.expected ↔ x.Agree := by
  obtain ⟨pc, h, s⟩ := x
  have hiff : (⟨pc, h, s⟩ : Instr).offer = (⟨pc, h, s⟩ : Instr).expected ↔
      pageFault (⟨pc, h, s⟩ : Instr).last.cause.isSome pc = (⟨pc, h, s⟩ : Instr).exception := by
    simp only [Instr.offer, Instr.expected, Offer.mk.injEq, true_and]
  rw [hiff]
  unfold Instr.Agree Instr.exception Instr.last pageFault
  cases s with
  | none => cases hc : h.cause <;> simp [hc, eq_comm]
  | some k => cases hc : h.cause <;> cases hk : k.cause <;> simp [hk, eq_comm]

theorem map_halves_cons (h k : Half) (hs : List Half) :
    (h :: k :: hs).map Half.bits = h.bits :: k.bits :: hs.map Half.bits := rfl

/-- Without the faults, the stream is parsed as before. -/
theorem parse_map (a : BitVec 64) (hs : List Half) :
    parse a (hs.map Half.bits) = (instrs a hs).map fun x => (x.pc, x.parcel) := by
  induction a, hs using instrs.induct with
  | case1 a => rfl
  | case2 a h hc => simp [instrs, parse, hc, Instr.parcel]
  | case3 a h hc => simp [instrs, parse, hc]
  | case4 a h k hs hc ih =>
    rw [map_halves_cons, parse, instrs, if_pos hc, if_pos hc, List.map_cons, ← ih]
    rfl
  | case5 a h k hs hc ih =>
    rw [map_halves_cons, parse, instrs, if_neg hc, if_neg hc, List.map_cons, ← ih]
    rfl

theorem pending_map (a : BitVec 64) (hs : List Half) :
    pending a (hs.map Half.bits) = (pendingHalf a hs).map fun p => (p.1, p.2.bits) := by
  induction a, hs using instrs.induct with
  | case1 a => rfl
  | case2 a h hc => simp [pending, pendingHalf, hc]
  | case3 a h hc => simp [pending, pendingHalf, hc]
  | case4 a h k hs hc ih =>
    rw [map_halves_cons, pending, pendingHalf, if_pos hc, if_pos hc, ← ih]
    rfl
  | case5 a h k hs hc ih => rw [map_halves_cons, pending, pendingHalf, if_neg hc, if_neg hc, ← ih]

theorem resume_map (a : BitVec 64) (hs ks : List Half) :
    resume a (hs.map Half.bits) (ks.map Half.bits) =
      ((resumeHalf a hs ks).1, (resumeHalf a hs ks).2.map Half.bits) := by
  rw [resume, resumeHalf, pending_map]
  cases pendingHalf a hs <;> rfl

theorem resumeHalf_cons (a : BitVec 64) {h k : Half} (hs ks : List Half) (hc : isCompressed h.bits = true) :
    resumeHalf a (h :: k :: hs) ks = resumeHalf (a + 2) (k :: hs) ks := by
  simp only [resumeHalf, pendingHalf, hc, if_true, List.map_cons, behind_cons a h.bits]

theorem resumeHalf_cons_cons (a : BitVec 64) {h : Half} (k : Half) (hs ks : List Half)
    (hc : ¬isCompressed h.bits = true) : resumeHalf a (h :: k :: hs) ks = resumeHalf (a + 4) hs ks := by
  simp only [resumeHalf, pendingHalf, if_neg hc, List.map_cons, behind_cons_cons]

theorem instrs_append (a : BitVec 64) (hs ks : List Half) :
    instrs a (hs ++ ks) = instrs a hs ++ instrs (resumeHalf a hs ks).1 (resumeHalf a hs ks).2 := by
  induction a, hs using instrs.induct with
  | case1 a => simp [instrs, resumeHalf, pendingHalf, behind]
  | case2 a h hc =>
    cases ks with
    | nil => simp [instrs, resumeHalf, pendingHalf, behind, hc]
    | cons k ks => simp [instrs, resumeHalf, pendingHalf, behind, hc]
  | case3 a h hc => simp [instrs, resumeHalf, pendingHalf, hc]
  | case4 a h k hs hc ih =>
    rw [resumeHalf_cons a hs ks hc]
    calc instrs a (h :: k :: (hs ++ ks)) = ⟨a, h, none⟩ :: instrs (a + 2) (k :: hs ++ ks) := by
          rw [instrs, if_pos hc, List.cons_append]
      _ = (⟨a, h, none⟩ :: instrs (a + 2) (k :: hs)) ++ _ := congrArg _ ih
      _ = instrs a (h :: k :: hs) ++ _ := by rw [instrs.eq_3 a h k hs, if_pos hc]
  | case5 a h k hs hc ih =>
    rw [resumeHalf_cons_cons a k hs ks hc]
    calc instrs a (h :: k :: (hs ++ ks)) = ⟨a, h, some k⟩ :: instrs (a + 4) (hs ++ ks) := by
          rw [instrs, if_neg hc]
      _ = (⟨a, h, some k⟩ :: instrs (a + 4) hs) ++ _ := congrArg _ ih
      _ = instrs a (h :: k :: hs) ++ _ := by rw [instrs.eq_3 a h k hs, if_neg hc]

theorem last_mem (a : BitVec 64) (hs : List Half) : ∀ x ∈ instrs a hs, x.last ∈ hs := by
  induction a, hs using instrs.induct with
  | case1 a => exact fun x hx => absurd hx List.not_mem_nil
  | case2 a h hc =>
    rw [instrs, if_pos hc]
    intro x hx
    rw [List.mem_singleton.1 hx]
    exact List.mem_cons_self
  | case3 a h hc =>
    rw [instrs, if_neg hc]
    exact fun x hx => absurd hx List.not_mem_nil
  | case4 a h k hs hc ih =>
    rw [instrs, if_pos hc]
    intro x hx
    rcases List.mem_cons.1 hx with rfl | hx
    · exact List.mem_cons_self
    · exact List.mem_cons_of_mem h (ih x hx)
  | case5 a h k hs hc ih =>
    rw [instrs, if_neg hc]
    intro x hx
    rcases List.mem_cons.1 hx with rfl | hx
    · exact List.mem_cons_of_mem h List.mem_cons_self
    · exact List.mem_cons_of_mem h (List.mem_cons_of_mem k (ih x hx))

theorem pendingHalf_spec {a b : BitVec 64} {hs : List Half} {h : Half} (hp : pendingHalf a hs = some (b, h)) :
    isCompressed h.bits = false := by
  have hmap := pending_map a hs
  rw [hp, Option.map_some] at hmap
  exact (pending_spec hmap).1

/-- What comes out after a stream ends in what was fetched after it. -/
theorem last_mem_resume (a : BitVec 64) (hs ks : List Half) :
    ∀ x ∈ instrs (resumeHalf a hs ks).1 (resumeHalf a hs ks).2, x.last ∈ ks := by
  unfold resumeHalf
  cases hp : pendingHalf a hs with
  | none => exact last_mem _ ks
  | some p =>
    obtain ⟨b, h⟩ := p
    have hc : ¬isCompressed h.bits = true := Bool.eq_false_iff.1 (pendingHalf_spec hp)
    dsimp only
    cases ks with
    | nil =>
      rw [instrs, if_neg hc]
      exact fun x hx => absurd hx List.not_mem_nil
    | cons k ks =>
      rw [instrs, if_neg hc]
      intro x hx
      rcases List.mem_cons.1 hx with rfl | hx
      · exact List.mem_cons_self
      · exact List.mem_cons_of_mem k (last_mem _ ks x hx)

/-! ### The frontend -/

/-- An answer of the instruction cache (`icache_dreq_i`, with the exception of the MMU), a
misprediction or a flush, what is predicted for the two instructions of the cycle, and whether
the decoder has space for an instruction. -/
structure In where
  valid : Bool
  vaddr : BitVec 64
  data : BitVec 32
  ex : Exn
  isMispredict : Bool
  flush : Bool
  cf : Fin 2 → Cf
  predictAddress : BitVec 64
  space : Bool

/-- The cause of an exception. -/
def causeOf (ex : Exn) : Option (BitVec 64) := if ex.valid then some ex.cause else none

/-- The registers: the fetch and the re-aligner, `icache_ex_valid_q`, and the queue. -/
structure Regs where
  front : Frontend.Regs
  icacheExValid : Bool
  queue : Queue.Regs

section Comb

variable (s : Regs) (i : In)

/-- An output of the re-aligner. -/
def slot (k : Fin 2) : Slot := if k = 0 then s.front.aligned.out0 else s.front.aligned.out1

/-- What the queue sees; the exception holds for the whole fetch. -/
def queueIn : Queue.In where
  flush := i.flush
  instr k := (slot s k).instr
  addr k := (slot s k).addr
  valid := BitVec.ofBool (slot s 1).valid ++ BitVec.ofBool (slot s 0).valid
  exception := s.icacheExValid
  predictAddress := i.predictAddress
  cf := i.cf
  space := i.space

/-- `bp_valid` and `kill_s2`. -/
def bpValid : Bool := i.cf 0 != .noCF || i.cf 1 != .noCF
def killS2 : Bool := (i.isMispredict || i.flush || Queue.replayO s.queue (queueIn s i)) || bpValid i

/-- What the fetch registers and the re-aligner see. -/
def frontIn : Frontend.In := ⟨i.valid, i.vaddr, i.data, killS2 s i⟩

def Regs.next : Regs where
  front := s.front.next (frontIn s i)
  icacheExValid := if i.valid then i.ex.valid else s.icacheExValid
  queue := s.queue.next (queueIn s i)

end Comb

def Regs.reset : Regs := ⟨.reset, false, .reset⟩

/-- The exception of a fetch entry. -/
def entryException (e : Queue.FetchEntry) : Option (BitVec 64 × BitVec 64) := pageFault e.ex e.address

/-! ### What is fetched and what comes out -/

/-- What was fetched from a flush of the re-aligner to the next one, and what was handed to the
queue for it. -/
structure Record where
  start : BitVec 64
  halves : List Half
  out : List Offer
deriving DecidableEq, Repr

/-- A word of the cache, with the cause of its exception. -/
structure Answer where
  packet : Packet
  cause : Option (BitVec 64)
deriving DecidableEq, Repr

def Answer.halves (p : Answer) : List Half := p.packet.halves.map fun h => ⟨h, p.cause⟩

def Record.extend (g : Option Record) (p : Answer) (out : List Offer) : Record :=
  match g with
  | none => ⟨p.packet.vaddr, p.halves, out⟩
  | some g => ⟨g.start, g.halves ++ p.halves, g.out ++ out⟩

/-- The frontend with the fetches that went through it, and with what the queue has taken and
given since its last flush. -/
structure St where
  front : Frontend.Regs
  icacheExValid : Bool
  queue : Queue.St
  past : List Record
  now : Option Record
  answer : Option Answer

def St.regs (s : St) : Regs := ⟨s.front, s.icacheExValid, s.queue.regs⟩

/-- What the re-aligner hands to the queue in the cycle. -/
def St.offers (s : St) : List Offer :=
  s.front.aligned.outs.map fun y => ⟨y.1, y.2, pageFault s.icacheExValid y.1⟩

/-- The fetches since the last flush, after the word of the cycle. -/
def St.record (s : St) : Option Record :=
  match s.answer with
  | none => s.now
  | some p => some (.extend s.now p s.offers)

def St.records (s : St) : List Record := s.past ++ s.record.toList

def St.next (s : St) (i : In) : St where
  front := (s.regs.next i).front
  icacheExValid := (s.regs.next i).icacheExValid
  queue := s.queue.next (queueIn s.regs i)
  past := if killS2 s.regs i then s.past ++ s.record.toList else s.past
  now := if killS2 s.regs i then none else s.record
  answer := if i.valid then some ⟨⟨i.vaddr, i.data⟩, causeOf i.ex⟩ else none

def St.reset : St := ⟨.reset, false, .reset, [], none, none⟩

def machine : Machine St In where
  init s := s = .reset
  next := St.next

/-- Without the faults. -/
def Record.segment (g : Record) : Segment := ⟨g.start, g.halves.map Half.bits, g.out.map fun o => (o.pc, o.parcel)⟩

def St.realign (s : St) : Frontend.St := ⟨s.front, s.past.map Record.segment, s.now.map Record.segment, s.answer.map Answer.packet⟩

/-- The cache answers in order: a fetch is at the word behind the last one unless the re-aligner
was flushed, and its first instruction is where the queue goes on. -/
structure Ordered (s : St) (i : In) : Prop where
  consecutive : Consecutive s.realign (frontIn s.regs i)
  first : i.flush = false → (slot s.regs 0).valid = true →
    s.queue.expect = none ∨ s.queue.expect = some (slot s.regs 0).addr

instance (s : St) (i : In) : Decidable (Ordered s i) :=
  decidable_of_iff
    (Consecutive s.realign (frontIn s.regs i) ∧ (i.flush = false → (slot s.regs 0).valid = true →
      s.queue.expect = none ∨ s.queue.expect = some (slot s.regs 0).addr))
    ⟨fun ⟨h, k⟩ => ⟨h, k⟩, fun h => ⟨h.consecutive, h.first⟩⟩

/-- The exceptions of the fetches are those of the instructions. -/
structure Faithful (s : St) : Prop where
  /-- All instructions of the streams are handed to the queue, with their exceptions; -/
  offered : ∀ g ∈ s.records, g.out = (instrs g.start g.halves).map Instr.expected
  /-- those it takes are given to the decoder, in order; -/
  lossless : Queue.Lossless s.queue
  /-- and what the decoder gets is such an instruction. -/
  delivered : ∀ e ∈ s.queue.out, ∃ g ∈ s.records, ∃ x ∈ instrs g.start g.halves,
    (⟨e.address, .of e.instruction, entryException e⟩ : Offer) = x.expected

/-- The fetches of all instructions agree. -/
def Agrees (s : St) : Prop := ∀ g ∈ s.records, ∀ x ∈ instrs g.start g.halves, x.Agree

instance (s : St) : Decidable (Agrees s) :=
  inferInstanceAs (Decidable (∀ g ∈ s.records, ∀ x ∈ instrs g.start g.halves, x.Agree))

/-! ### The invariant -/

theorem forget_offers (s : St) : s.offers.map (fun o => (o.pc, o.parcel)) = s.front.aligned.outs := by
  rw [St.offers, List.map_map]
  exact List.map_id _

theorem forget_map (l : List Instr) :
    (l.map Instr.offer).map (fun o => (o.pc, o.parcel)) = l.map fun x => (x.pc, x.parcel) := by
  rw [List.map_map]
  rfl

theorem Answer.map_halves (p : Answer) : p.halves.map Half.bits = p.packet.halves := by
  rw [Answer.halves, List.map_map]
  exact List.map_id _

theorem Answer.cause_of_mem {p : Answer} {h : Half} (hm : h ∈ p.halves) : h.cause = p.cause := by
  obtain ⟨b, -, rfl⟩ := List.mem_map.1 hm
  rfl

theorem record_segment (s : St) : s.record.map Record.segment = s.realign.segment := by
  unfold St.record St.segment St.realign
  cases s.answer with
  | none => rfl
  | some p =>
    have hseg : (Record.extend s.now p s.offers).segment =
        Segment.extend (s.now.map Record.segment) p.packet s.front.aligned.outs := by
      cases s.now with
      | none => simp [Record.extend, Segment.extend, Record.segment, p.map_halves, forget_offers]
      | some g => simp [Record.extend, Segment.extend, Record.segment, p.map_halves, forget_offers]
    exact congrArg some hseg

theorem realign_next (s : St) (i : In) : (s.next i).realign = s.realign.next (frontIn s.regs i) := by
  have hseg := record_segment s
  have hpast : (if killS2 s.regs i then s.past ++ s.record.toList else s.past).map Record.segment =
      if killS2 s.regs i then s.realign.past ++ s.realign.segment.toList else s.realign.past := by
    rw [← hseg]
    cases killS2 s.regs i with
    | false => rfl
    | true => cases hr : s.record <;> simp [St.realign]
  have hnow : (if killS2 s.regs i then none else s.record).map Record.segment =
      if killS2 s.regs i then none else s.realign.segment := by
    rw [← hseg]
    cases killS2 s.regs i <;> rfl
  have hpacket : (if i.valid then some (⟨⟨i.vaddr, i.data⟩, causeOf i.ex⟩ : Answer) else none).map Answer.packet =
      if i.valid then some ⟨i.vaddr, i.data⟩ else none := by
    cases i.valid <;> rfl
  have hnext : (s.next i).realign =
      ⟨(s.regs.next i).front, (if killS2 s.regs i then s.past ++ s.record.toList else s.past).map Record.segment,
        (if killS2 s.regs i then none else s.record).map Record.segment,
        (if i.valid then some (⟨⟨i.vaddr, i.data⟩, causeOf i.ex⟩ : Answer) else none).map Answer.packet⟩ := rfl
  rw [hnext, hpast, hnow, hpacket]
  rfl

structure Inv (s : St) : Prop where
  realign : Frontend.Inv s.realign
  queue : Queue.Inv s.queue
  /-- What came out has the exception bits of the last halfwords. -/
  out : ∀ g ∈ s.past ++ s.now.toList, g.out = (instrs g.start g.halves).map Instr.offer
  answer : ∀ p ∈ s.answer, s.icacheExValid = p.cause.isSome
  /-- What the queue took came out of the re-aligner. -/
  own : ∀ y ∈ s.queue.acc, ∃ g ∈ s.past ++ s.now.toList,
    (⟨y.pc, .of y.data.instr, pageFault y.data.ex y.pc⟩ : Offer) ∈ g.out

/-- The instructions of a cycle, with the bit of the fetch. -/
theorem offers_eq {s : St} {a : BitVec 64} {hs : List Half} {c : Option (BitVec 64)}
    (ho : s.front.aligned.outs = parse a (hs.map Half.bits)) (hex : s.icacheExValid = c.isSome)
    (hl : ∀ x ∈ instrs a hs, x.last.cause = c) : s.offers = (instrs a hs).map Instr.offer := by
  rw [St.offers, ho, parse_map, List.map_map]
  refine List.map_congr_left fun x hx => ?_
  rw [Instr.offer, hl x hx, ← hex]
  rfl

theorem Inv.record {s : St} (h : Inv s) : ∀ g ∈ s.record, g.out = (instrs g.start g.halves).map Instr.offer := by
  intro g hg
  unfold St.record at hg
  cases hp : s.answer with
  | none =>
    rw [hp] at hg
    exact h.out g (List.mem_append_right _ (Option.mem_toList.2 hg))
  | some p =>
    rw [hp] at hg
    obtain rfl := Option.some.inj hg
    have hpk : s.realign.packet = some p.packet := by rw [St.realign, hp, Option.map_some]
    have hok := (h.realign.segment hpk).1.out
    have hex := h.answer p hp
    cases hn : s.now with
    | none =>
      have hn' : s.realign.now = none := by rw [St.realign, hn, Option.map_none]
      rw [hn'] at hok
      show s.offers = (instrs p.packet.vaddr p.halves).map Instr.offer
      refine offers_eq ?_ hex fun x hx => Answer.cause_of_mem (last_mem _ _ x hx)
      rw [p.map_halves]
      exact hok
    | some g =>
      have hn' : s.realign.now = some g.segment := by rw [St.realign, hn, Option.map_some]
      have hout := h.out g (List.mem_append_right _ (by rw [hn]; exact List.mem_cons_self))
      rw [hn'] at hok
      -- the part of the stream before the word has come out before
      have happ := (parse_append g.start (g.halves.map Half.bits) p.packet.halves).1
      have hpart : g.segment.out ++ s.front.aligned.outs = parse g.start (g.halves.map Half.bits) ++
          parse (resume g.start (g.halves.map Half.bits) p.packet.halves).1
            (resume g.start (g.halves.map Half.bits) p.packet.halves).2 := hok.trans happ
      have hseg : g.segment.out = parse g.start (g.halves.map Half.bits) := by
        rw [parse_map, ← forget_map, ← hout]
        rfl
      rw [hseg] at hpart
      have hrest := List.append_cancel_left hpart
      rw [← p.map_halves, resume_map] at hrest
      have hoff := offers_eq hrest hex fun x hx => Answer.cause_of_mem (last_mem_resume g.start g.halves p.halves x hx)
      show g.out ++ s.offers = (instrs g.start (g.halves ++ p.halves)).map Instr.offer
      rw [hout, hoff, instrs_append, List.map_append]

theorem Inv.records {s : St} (h : Inv s) : ∀ g ∈ s.records, g.out = (instrs g.start g.halves).map Instr.offer := by
  intro g hg
  rcases List.mem_append.1 hg with hg | hg
  · exact h.out g (List.mem_append_left _ hg)
  · exact h.record g (Option.mem_toList.1 hg)

/-! ### The packets of the queue are in order -/

/-- The length of an instruction. -/
def bytes : Parcel → BitVec 64
  | .half _ => 2
  | .word _ => 4

theorem bytes_of (w : BitVec 32) : bytes (.of w) = Queue.len w := by
  have hlow : (w.extractLsb' 0 16).extractLsb' 0 2 = w.extractLsb' 0 2 := by
    rw [BitVec.extractLsb'_extractLsb'_of_le (by decide)]
  unfold Parcel.of Queue.len isCompressed
  rw [hlow]
  split <;> rfl

theorem parse_head (a : BitVec 64) (hs : List (BitVec 16)) : ∀ y ∈ (parse a hs).head?, y.1 = a := by
  unfold parse
  split
  · exact fun y hy => nomatch hy
  · split
    · rintro y hy
      exact congrArg Prod.fst (Option.some.inj hy).symm
    · exact fun y hy => nomatch hy
  · split
    · rintro y hy
      exact congrArg Prod.fst (Option.some.inj hy).symm
    · rintro y hy
      exact congrArg Prod.fst (Option.some.inj hy).symm

/-- Instructions follow each other. -/
theorem parse_chain (a : BitVec 64) (hs : List (BitVec 16)) :
    List.IsChain (fun x y => y.1 = x.1 + bytes x.2) (parse a hs) := by
  induction a, hs using parse.induct with
  | case1 a => exact .nil
  | case2 a h hc =>
    rw [parse, if_pos hc]
    exact .singleton _
  | case3 a h hc =>
    rw [parse, if_neg hc]
    exact .nil
  | case4 a h k hs hc ih =>
    rw [parse, if_pos hc]
    exact ih.cons fun y hy => parse_head _ _ y hy
  | case5 a h k hs hc ih =>
    rw [parse, if_neg hc]
    exact ih.cons fun y hy => parse_head _ _ y hy

/-- What comes out in a cycle is parsed from some part of the stream. -/
theorem outs_parse {s : Frontend.St} (h : Frontend.Inv s) : ∃ a hs, s.regs.aligned.outs = parse a hs := by
  cases hp : s.packet with
  | none =>
    have hv := h.bubble hp
    refine ⟨0, [], ?_⟩
    rw [Frontend.Regs.aligned, hv]
    exact outs_of_invalid _ _ _
  | some p =>
    have hok := (h.segment hp).1.out
    cases hn : s.now with
    | none =>
      rw [hn] at hok
      exact ⟨_, _, hok⟩
    | some g =>
      rw [hn] at hok
      have hpart : g.out ++ s.regs.aligned.outs = parse g.start g.stream ++ _ :=
        hok.trans (parse_append g.start g.stream p.halves).1
      rw [(h.now g hn).out] at hpart
      exact ⟨_, _, List.append_cancel_left hpart⟩

theorem out0_of_out1 (q : Realign) (v : Bool) (a : BitVec 64) (w : BitVec 32)
    (h : (reAlign q v a w).out1.valid = true) : (reAlign q v a w).out0.valid = true := by
  unfold reAlign at h ⊢
  dsimp only at h ⊢
  split_ifs at h ⊢ <;> simp_all

theorem inOrder {s : St} {i : In} (h : Inv s) (ho : Ordered s i) : Queue.InOrder s.queue (queueIn s.regs i) := by
  have hv (k : Fin 2) : (queueIn s.regs i).valid.getLsbD k = (slot s.regs k).valid := by
    have hall : ∀ (x y : Bool) (k : Fin 2),
        (BitVec.ofBool y ++ BitVec.ofBool x : BitVec 2).getLsbD k = if k = 0 then x else y := by decide
    rw [queueIn, hall]
    match k with
    | 0 => rfl
    | 1 => rfl
  have h0 : (queueIn s.regs i).valid[0] = (slot s.regs 0).valid := hv 0
  have h1 : (queueIn s.regs i).valid[1] = (slot s.regs 1).valid := hv 1
  refine ⟨?_, ?_, ?_⟩
  · rw [h0, h1]
    exact out0_of_out1 _ _ _ _
  · intro _ hval _
    rw [h1] at hval
    have hval0 : (slot s.regs 0).valid = true := out0_of_out1 _ _ _ _ hval
    obtain ⟨a, hs, hout⟩ := outs_parse h.realign
    have hchain := parse_chain a hs
    have houts : s.realign.regs.aligned.outs = [((slot s.regs 0).addr, .of (slot s.regs 0).instr),
        ((slot s.regs 1).addr, .of (slot s.regs 1).instr)] := by
      have hsplit : s.realign.regs.aligned.outs = (slot s.regs 0).out ++ (slot s.regs 1).out := rfl
      rw [hsplit, Slot.out, Slot.out, hval, hval0]
      rfl
    rw [← hout, houts, List.isChain_cons_cons] at hchain
    have hnext := hchain.1
    rw [bytes_of] at hnext
    exact hnext
  · intro hf hval
    rw [h0] at hval
    exact ho.first hf hval

/-! ### Runs -/

/-- What the queue takes was offered to it in the cycle. -/
theorem accepted_mem {s : St} {i : In} {y : Queue.Item} (hy : y ∈ Queue.accepted s.regs.queue (queueIn s.regs i)) :
    (⟨y.pc, .of y.data.instr, pageFault y.data.ex y.pc⟩ : Offer) ∈ s.offers ∧ s.front.aligned.outs ≠ [] := by
  have hslot (k : Fin 2) (hk : (Queue.consumedO s.regs.queue (queueIn s.regs i)).getLsbD k = true) :
      (slot s.regs k).valid = true := by
    rw [Queue.getLsbD_consumedO] at hk
    have hw := (Bool.and_eq_true_iff.1 (Bool.and_eq_true_iff.1 hk).2).1
    have hv : ((queueIn s.regs i).valid.getLsbD k) = true := by
      rw [Queue.wants, Queue.valid, BitVec.getLsbD_and] at hw
      exact (Bool.and_eq_true_iff.1 hw).1
    have hall : ∀ (x y : Bool) (k : Fin 2),
        (BitVec.ofBool y ++ BitVec.ofBool x : BitVec 2).getLsbD k = if k = 0 then x else y := by decide
    rw [queueIn, hall] at hv
    have hk01 : k = 0 ∨ k = 1 := by omega
    rcases hk01 with rfl | rfl <;> exact hv
  have hmem (k : Fin 2) (hk : (slot s.regs k).valid = true) :
      ((slot s.regs k).addr, Parcel.of (slot s.regs k).instr) ∈ s.front.aligned.outs := by
    have hone : ((slot s.regs k).addr, Parcel.of (slot s.regs k).instr) ∈ (slot s.regs k).out := by
      rw [Slot.out, if_pos hk]
      exact List.mem_cons_self
    have hk01 : k = 0 ∨ k = 1 := by omega
    rcases hk01 with rfl | rfl
    · exact List.mem_append_left _ hone
    · exact List.mem_append_right _ hone
  have hitem (k : Fin 2) (hk : (Queue.consumedO s.regs.queue (queueIn s.regs i)).getLsbD k = true)
      (hyk : y = Queue.item (queueIn s.regs i) k) :
      (⟨y.pc, .of y.data.instr, pageFault y.data.ex y.pc⟩ : Offer) ∈ s.offers ∧ s.front.aligned.outs ≠ [] := by
    have hin := hmem k (hslot k hk)
    rw [hyk]
    exact ⟨List.mem_map.2 ⟨_, hin, rfl⟩, List.ne_nil_of_mem hin⟩
  rw [Queue.accepted_eq] at hy
  rcases List.mem_append.1 hy with hy | hy
  · split at hy
    · rename_i hk
      exact hitem 0 hk (List.mem_singleton.1 hy)
    · exact absurd hy List.not_mem_nil
  · split at hy
    · rename_i hk
      exact hitem 1 hk (List.mem_singleton.1 hy)
    · exact absurd hy List.not_mem_nil

theorem mem_records {s : St} {g : Record} (h : g ∈ s.past ++ s.now.toList) :
    ∃ g' ∈ s.records, ∀ o ∈ g.out, o ∈ g'.out := by
  rcases List.mem_append.1 h with h | h
  · exact ⟨g, List.mem_append_left _ h, fun _ ho => ho⟩
  · have hn : s.now = some g := Option.mem_toList.1 h
    cases hp : s.answer with
    | none =>
      refine ⟨g, List.mem_append_right _ ?_, fun _ ho => ho⟩
      rw [St.record, hp, hn]
      exact List.mem_cons_self
    | some p =>
      refine ⟨.extend s.now p s.offers, List.mem_append_right _ ?_, fun o ho => ?_⟩
      · rw [St.record, hp]
        exact List.mem_cons_self
      · rw [hn]
        exact List.mem_append_left _ ho

/-- The next state keeps the records. -/
theorem records_next (s : St) (i : In) : (s.next i).past ++ (s.next i).now.toList = s.records := by
  have hpast : (s.next i).past = if killS2 s.regs i then s.past ++ s.record.toList else s.past := rfl
  have hnow : (s.next i).now = if killS2 s.regs i then none else s.record := rfl
  rw [hpast, hnow, St.records]
  cases killS2 s.regs i with
  | true => exact List.append_nil _
  | false => rfl

theorem Inv.next {s : St} {i : In} (h : Inv s) (ho : Ordered s i) : Inv (s.next i) := by
  have hq := inOrder h ho
  refine ⟨?_, h.queue.next hq, ?_, ?_, ?_⟩
  · rw [realign_next]
    exact h.realign.next ho.consecutive
  · rw [records_next]
    exact h.records
  · have hanswer : (s.next i).answer = if i.valid then some ⟨⟨i.vaddr, i.data⟩, causeOf i.ex⟩ else none := rfl
    have hex : (s.next i).icacheExValid = if i.valid then i.ex.valid else s.icacheExValid := rfl
    intro p hp
    rw [hanswer] at hp
    rw [hex]
    cases hv : i.valid with
    | false =>
      rw [hv] at hp
      cases hp
    | true =>
      rw [hv] at hp
      obtain rfl := Option.some.inj hp
      dsimp only
      rw [if_pos rfl, causeOf]
      cases i.ex.valid <;> rfl
  · have hacc : (s.next i).queue.acc =
        if i.flush then [] else s.queue.acc ++ Queue.accepted s.regs.queue (queueIn s.regs i) := rfl
    intro y hy
    rw [records_next]
    rw [hacc] at hy
    cases hf : i.flush with
    | true =>
      rw [hf, if_pos rfl] at hy
      exact absurd hy List.not_mem_nil
    | false =>
      rw [hf, if_neg Bool.false_ne_true] at hy
      rcases List.mem_append.1 hy with hy | hy
      · obtain ⟨g, hg, hmem⟩ := h.own y hy
        obtain ⟨g', hg', hsub⟩ := mem_records hg
        exact ⟨g', hg', hsub _ hmem⟩
      · obtain ⟨hmem, hne⟩ := accepted_mem hy
        cases hp : s.answer with
        | none =>
          -- nothing comes out without a word
          have hnone : s.realign.packet = none := by rw [St.realign, hp]; rfl
          exact absurd (h.realign.parsed.bubble hnone) hne
        | some p =>
          refine ⟨.extend s.now p s.offers, List.mem_append_right _ ?_, ?_⟩
          · rw [St.record, hp]
            exact List.mem_cons_self
          · cases s.now with
            | none => exact hmem
            | some g => exact List.mem_append_right _ hmem

theorem inv_reset : Inv .reset :=
  ⟨Frontend.inv_reset, Queue.inv_reset, fun _ hg => absurd hg List.not_mem_nil,
    fun p hp => (Option.some_ne_none p hp.symm).elim, fun _ hy => absurd hy List.not_mem_nil⟩

theorem mem_of_forall₂ {α β : Type} {R : α → β → Prop} {l : List α} {k : List β} (h : List.Forall₂ R l k) :
    ∀ e ∈ l, ∃ y ∈ k, R e y := by
  induction h with
  | nil => exact fun e he => absurd he List.not_mem_nil
  | cons hr _ ih =>
    intro e he
    rcases List.mem_cons.1 he with rfl | he
    · exact ⟨_, List.mem_cons_self, hr⟩
    · obtain ⟨y, hy, hry⟩ := ih e he
      exact ⟨y, List.mem_cons_of_mem _ hy, hry⟩

theorem Inv.faithful_iff {s : St} (h : Inv s) : Faithful s ↔ Agrees s := by
  constructor
  · intro hf g hg x hx
    have hmap : (instrs g.start g.halves).map Instr.offer = (instrs g.start g.halves).map Instr.expected :=
      (h.records g hg).symm.trans (hf.offered g hg)
    exact x.offer_eq_iff.1 (List.map_inj_left.1 hmap x hx)
  · intro ha
    have hout : ∀ g ∈ s.records, g.out = (instrs g.start g.halves).map Instr.expected := fun g hg =>
      (h.records g hg).trans (List.map_congr_left fun x hx => x.offer_eq_iff.2 (ha g hg x hx))
    have hless := h.queue.lossless
    refine ⟨hout, hless, fun e he => ?_⟩
    obtain ⟨rest, l, hacc, hmatch, -⟩ := hless.taken
    obtain ⟨y, hy, hpc, hinstr, hex, -⟩ := mem_of_forall₂ hmatch e he
    obtain ⟨g, hg, hmem⟩ := h.own y (by rw [hacc]; exact List.mem_append_left _ hy)
    obtain ⟨g', hg', hsub⟩ := mem_records hg
    have hy' := hsub _ hmem
    rw [hout g' hg'] at hy'
    obtain ⟨x, hx, hxy⟩ := List.mem_map.1 hy'
    refine ⟨g', hg', x, hx, ?_⟩
    rw [hxy, entryException, hpc, hinstr, hex]

/-- In every run whose fetches are answered in order, the exceptions of the fetches are those of
the instructions exactly as long as the fetches of all instructions agree. -/
theorem faults_iff (is : List In) (h : machine.Steps Ordered St.reset is) :
    machine.Always Faithful .reset is ↔ machine.Always Agrees .reset is :=
  Machine.always_congr_of_inv (fun _ _ hi ho => hi.next ho) (fun _ hi => hi.faithful_iff) is St.reset inv_reset h

/-- An answer of the cache, nothing predicted. -/
def In.word (vaddr : BitVec 64) (data : BitVec 32) (cause : Option (BitVec 64)) : In where
  valid := true
  vaddr := vaddr
  data := data
  ex := ⟨cause.getD 0, vaddr, cause.isSome⟩
  isMispredict := false
  flush := false
  cf _ := .noCF
  predictAddress := 0
  space := true

def In.bubble : In := { In.word 0 0 none with valid := false }

/-- Delivered entries: the address, and the exception. -/
def deliveries (is : List In) : List (BitVec 64 × Option (BitVec 64 × BitVec 64)) :=
  (machine.run .reset is).queue.out.map fun e => (e.address, entryException e)

/-- A fetch of the upper half of a word is answered with a page fault, and its data looks like the
lower half of an instruction; the next word is fetched without a fault. -/
def lostFault : List In :=
  [.word 0x1002 0x00b30001 (some instrPageFault), .word 0x1004 0x00010125 none, .bubble, .bubble, .bubble]

/-- An access fault. -/
def accessFault : List In := [.word 0x1000 0x00000013 (some instrAccessFault), .bubble, .bubble, .bubble]

/-- A page fault in the second word of an instruction. -/
def secondFault : List In :=
  [.word 0x1000 0x00b30001 none, .word 0x1004 0x00010125 (some instrPageFault), .bubble, .bubble, .bubble]

theorem faults_lost :
    (¬machine.Always Faithful .reset lostFault ∧ deliveries lostFault = [(0x1002, none), (0x1006, none)]) ∧
    (¬machine.Always Faithful .reset accessFault ∧
      deliveries accessFault = [(0x1000, some (instrPageFault, 0x1000))]) ∧
    ¬machine.Always Faithful .reset secondFault ∧ deliveries secondFault =
      [(0x1000, none), (0x1002, some (instrPageFault, 0x1002)), (0x1006, some (instrPageFault, 0x1006))] := by
  have hno {is : List In} (h : ¬∀ g ∈ (machine.run .reset is).records,
      g.out = (instrs g.start g.halves).map Instr.expected) : ¬machine.Always Faithful .reset is :=
    fun hf => h hf.last.offered
  exact ⟨⟨hno (by decide +kernel), by decide +kernel⟩, ⟨hno (by decide +kernel), by decide +kernel⟩,
    hno (by decide +kernel), by decide +kernel⟩

/-- A word with a page fault, and the one after it too. -/
def pageFaults : List In :=
  [.word 0x1002 0x00b30001 (some instrPageFault), .word 0x1004 0x00010125 (some instrPageFault), .bubble, .bubble]

theorem faults_page : machine.Always Faithful .reset pageFaults := by
  have hok : machine.Steps Ordered St.reset pageFaults := by decide +kernel
  refine (faults_iff pageFaults hok).2 ⟨?_, ?_, ?_, ?_, show Agrees _ from ?_⟩
  all_goals decide +kernel

end Faults
end Frontend
end Ariane

/-
# Privilege levels on the bus

The crossbar decides about a transaction with the privilege level the core has in
that cycle (`priv_lvl` in `ariane_testharness.sv`); nothing on the way from an
instruction to the crossbar carries the level the instruction ran at. A retired store
waits in the store buffer and in the data cache, a load in the cache, and a write to
the DMA engine's registers turns into transfers of the engine's own.

The machine here is the back end with the store buffer, the DMA engine and the
crossbar. The cache and the bus bridges in between move requests along in any order
and at any time: they are the lists `inflight` and `apb`, from which the inputs choose.
`Tag` is a record kept beside the hardware: the level of the instruction behind a
transaction, and whether the core has changed its level since.

* `attribution`: a transaction is decided at its instruction's level as long as the
  core has not changed its level in between; so all of them are, in a run that changes
  level only where nothing is pending (`Drained`).
-/
import Ariane.Core.StoreBuffer
import Ariane.Core.Trap
import Ariane.Soc.Dma
import Ariane.Soc.Xbar

namespace Ariane
namespace Attr

open Riscv Lib Soc

/-! ### Tags -/

/-- The level of the instruction behind a transaction, and whether the core has changed
its level since. -/
structure Tag where
  lvl : PrivLvl
  moved : Bool
deriving DecidableEq

def Tag.age (b : Bool) (t : Tag) : Tag := { t with moved := t.moved || b }

/-- A transaction of master `port`. -/
structure Txn where
  port : Fin nrSlaves
  addr : BitVec 64
  we : Bool
  tag : Tag
deriving DecidableEq

def Txn.age (b : Bool) (t : Txn) : Txn := { t with tag := t.tag.age b }

/-- Where the tags are: beside the commit queue, with the requests in the cache and with
the writes in the bridge to the DMA engine, and beside its registers. `cmd` is the
writer of `config_reg`, `cmdD` that of `config_d`, `run` that of the command under
way. -/
structure Path (w : ℕ) where
  sb : BitVec w → Tag
  inflight : List Txn
  apb : List Tag
  cmd : Tag
  cmdD : Tag
  run : Tag

variable {w : ℕ}

def Path.age (b : Bool) (p : Path w) : Path w where
  sb k := (p.sb k).age b
  inflight := p.inflight.map (Txn.age b)
  apb := p.apb.map (Tag.age b)
  cmd := p.cmd.age b
  cmdD := p.cmdD.age b
  run := p.run.age b

/-- Every tag meets `P`. -/
structure Path.All (P : Tag → Prop) (p : Path w) : Prop where
  sb : ∀ k, P (p.sb k)
  inflight : ∀ t ∈ p.inflight, P t.tag
  apb : ∀ t ∈ p.apb, P t
  cmd : P p.cmd
  cmdD : P p.cmdD
  run : P p.run

/-! ### The machine -/

/-- The pointer width of the commit queue, whose depth is `DEPTH_COMMIT`. -/
def commitWidth (cfg : Cfg) : ℕ := if cfg.wtDcache then 2 else 3

structure State (cfg : Cfg) where
  core : Core.State
  sb : StoreBuffer.Regs (commitWidth cfg)
  dma : Dma.Regs
  path : Path (commitWidth cfg)

/-- The inputs of a cycle. `core.noStPending` is the cache's `wbuffer_empty_o`. -/
structure In where
  core : Core.In
  flush : Bool
  storeValid : Bool
  store : StoreBuffer.Store
  gnt : Bool
  /-- The address of a load that goes to the cache. -/
  load : Option (BitVec 64)
  /-- The request of the core that is at the crossbar, and one that is over. -/
  bus : Option ℕ
  leave : Option ℕ
  /-- The write in the bridge that is on the DMA engine's bus, and one that is over. -/
  apbSel : Option ℕ
  apbAddr : BitVec 32
  apbWdata : BitVec 32
  apbDone : Option ℕ
  dmaResp : Dma.Resp
  /-- The access-control registers. -/
  acct : AcctMem

variable (cfg : Cfg)

/-- `priv_lvl_o`: the level the crossbar decides with. -/
def level (s : State cfg) : PrivLvl := Csr.privLvlO s.core.csr

def coreIn (s : State cfg) (i : In) : Core.In :=
  { i.core with
    commitLsuReady := StoreBuffer.commitReadyO s.sb
    noStPending := StoreBuffer.noStPendingO s.sb && i.core.noStPending }

def sbIn (s : State cfg) (i : In) : StoreBuffer.In where
  flush := i.flush
  commit := (Core.out cfg s.core (coreIn cfg s i)).commitLsu
  valid := i.storeValid
  store := i.store
  gnt := i.gnt

/-- The store the cache takes. -/
def grantedStore (s : State cfg) (i : In) : List Txn :=
  if s.sb.commit.head.valid && i.gnt then
    [⟨0, s.sb.commit.head.address, true, s.path.sb s.sb.commit.readPtr⟩]
  else []

/-- The load that goes to the cache. -/
def issuedLoad (s : State cfg) (i : In) : List Txn :=
  i.load.toList.map fun a => ⟨0, a, false, ⟨level cfg s, false⟩⟩

/-- The transactions of the DMA engine at the crossbar. -/
def dmaTxns (s : State cfg) (i : In) : List Txn :=
  let req := (Dma.axiOut s.dma i.dmaResp).req
  (if req.awValid then [⟨2, req.aw.addr, true, s.path.run⟩] else []) ++
    if req.arValid then [⟨2, req.ar.addr, false, s.path.run⟩] else []

/-- The transactions the crossbar decides about in a cycle. -/
def decoded (s : State cfg) (i : In) : List Txn :=
  (i.bus.bind (s.path.inflight[·]?)).toList ++ dmaTxns cfg s i

/-- The transaction goes out on port `j`. -/
def letThrough (s : State cfg) (i : In) (t : Txn) (j : Periph) : Bool :=
  matchRegionMasked i.acct (level cfg s) t.port t.addr j

/-- The write on the DMA engine's bus. -/
def apbWriter (s : State cfg) (i : In) : Option Tag := i.apbSel.bind (s.path.apb[·]?)

def dmaBus (s : State cfg) (i : In) : Dma.Bus := ⟨(apbWriter cfg s i).isSome, i.apbAddr, i.apbWdata⟩

/-- The bus writes `config_reg`. -/
def writesConfig (s : State cfg) (i : In) : Bool :=
  (apbWriter cfg s i).isSome && (i.apbAddr.extractLsb' 2 3).toNat == 0

/-- The list without the entry that is over. -/
def dropAt {α : Type} (k : Option ℕ) (l : List α) : List α := (k.map l.eraseIdx).getD l

/-- The tags after a clock edge, as of the level before it. -/
def pathNext (s : State cfg) (i : In) : Path (commitWidth cfg) where
  sb k :=
    if (sbIn cfg s i).commit = true ∧ k = s.sb.commit.writePtr then ⟨level cfg s, false⟩ else s.path.sb k
  inflight := dropAt i.leave s.path.inflight ++ grantedStore cfg s i ++ issuedLoad cfg s i
  apb :=
    dropAt i.apbDone s.path.apb ++
      ((decoded cfg s i).filter fun t => t.we && letThrough cfg s i t .dma).map (·.tag)
  cmd := if writesConfig cfg s i then (apbWriter cfg s i).getD s.path.cmd else s.path.cmd
  cmdD := if s.dma.ctrl.waiting then s.path.cmd else s.path.cmdD
  run := if s.dma.ctrl = .idle ∧ s.dma.cmdD.start = true then s.path.cmdD else s.path.run

def next (s : State cfg) (i : In) : State cfg :=
  let core := Core.next cfg s.core (coreIn cfg s i)
  { core := core
    sb := StoreBuffer.next s.sb (sbIn cfg s i)
    dma := Dma.next s.dma (dmaBus cfg s i) i.dmaResp
    path := (pathNext cfg s i).age (Csr.privLvlO core.csr != level cfg s) }

/-- The reset leaves the core in machine mode, and nothing is under way. -/
def reset : State cfg where
  core := Core.reset
  sb := StoreBuffer.reset
  dma := Dma.reset
  path := ⟨fun _ => ⟨privLvlM, false⟩, [], [], ⟨privLvlM, false⟩, ⟨privLvlM, false⟩, ⟨privLvlM, false⟩⟩

def machine : Machine (State cfg) In := ⟨(· = reset cfg), next cfg⟩

/-! ### The level of a transaction -/

/-- The crossbar decides about `t` at the level of its instruction, and so does not let
it through where that level is denied. -/
structure Authorised (s : State cfg) (i : In) (t : Txn) : Prop where
  level : level cfg s = t.tag.lvl
  denied : ∀ j, connectivity i.acct t.tag.lvl t.port j = false → letThrough cfg s i t j = false

variable {cfg} {s : State cfg} {i : In}

theorem authorised_of_level {t : Txn} (h : level cfg s = t.tag.lvl) : Authorised cfg s i t where
  level := h
  denied j hj := by
    rw [letThrough, h]
    exact not_masked_of_denied hj t.addr

theorem mem_dropAt {α : Type} {k : Option ℕ} {l : List α} {x : α} (h : x ∈ dropAt k l) : x ∈ l := by
  cases k with
  | none => exact h
  | some k => exact List.mem_of_mem_eraseIdx h

theorem tag_mem_of_apbWriter {t : Tag} (h : apbWriter cfg s i = some t) : t ∈ s.path.apb := by
  obtain ⟨k, -, hk⟩ := Option.bind_eq_some_iff.1 h
  exact List.mem_of_getElem? hk

/-- A transaction of the DMA engine is one of the command under way. -/
theorem tag_of_mem_dmaTxns {t : Txn} (h : t ∈ dmaTxns cfg s i) : t.tag = s.path.run := by
  simp only [dmaTxns, List.mem_append] at h
  rcases h with h | h
  · split at h
    · rw [List.mem_singleton.1 h]
    · cases h
  · split at h
    · rw [List.mem_singleton.1 h]
    · cases h

theorem mem_decoded {t : Txn} (h : t ∈ decoded cfg s i) :
    t ∈ s.path.inflight ∨ t ∈ dmaTxns cfg s i := by
  rcases List.mem_append.1 h with h | h
  · obtain ⟨k, -, hk⟩ := Option.bind_eq_some_iff.1 (Option.mem_toList.1 h)
    exact .inl (List.mem_of_getElem? hk)
  · exact .inr h

theorem tag_of_mem_decoded {P : Tag → Prop} (hp : s.path.All P) {t : Txn} (h : t ∈ decoded cfg s i) :
    P t.tag := by
  rcases mem_decoded h with h | h
  · exact hp.inflight t h
  · rw [tag_of_mem_dmaTxns h]
    exact hp.run

/-- What is in the cache after a cycle: what was there, a store from the commit queue, and
a load of the present level. -/
theorem mem_inflight_pathNext {t : Txn} (h : t ∈ (pathNext cfg s i).inflight) :
    t ∈ s.path.inflight ∨
      s.sb.commit.head.valid = true ∧ t.tag = s.path.sb s.sb.commit.readPtr ∨
      t.tag = ⟨level cfg s, false⟩ := by
  rcases List.mem_append.1 h with h | h
  · rcases List.mem_append.1 h with h | h
    · exact .inl (mem_dropAt h)
    · unfold grantedStore at h
      split at h
      · rename_i hg
        rw [List.mem_singleton.1 h]
        exact .inr (.inl ⟨(Bool.and_eq_true_iff.1 hg).1, rfl⟩)
      · cases h
  · obtain ⟨a, -, rfl⟩ := List.mem_map.1 h
    exact .inr (.inr rfl)

/-- What is in the bridge after a cycle: what was there, and what the crossbar let
through to the DMA engine. -/
theorem mem_apb_pathNext {t : Tag} (h : t ∈ (pathNext cfg s i).apb) :
    t ∈ s.path.apb ∨ ∃ x ∈ decoded cfg s i, x.tag = t := by
  rcases List.mem_append.1 h with h | h
  · exact .inl (mem_dropAt h)
  · obtain ⟨x, hx, rfl⟩ := List.mem_map.1 h
    exact .inr ⟨x, List.mem_of_mem_filter hx, rfl⟩

/-- The tags of a cycle are the tags before it and that of its own level. -/
theorem all_pathNext {P : Tag → Prop} (hp : s.path.All P) (hn : P ⟨level cfg s, false⟩) (i : In) :
    (pathNext cfg s i).All P where
  sb k := by
    show P (if _ then _ else _)
    split
    · exact hn
    · exact hp.sb k
  inflight t ht := by
    rcases mem_inflight_pathNext ht with ht | ⟨-, ht⟩ | ht
    · exact hp.inflight t ht
    · rw [ht]
      exact hp.sb _
    · rw [ht]
      exact hn
  apb t ht := by
    rcases mem_apb_pathNext ht with ht | ⟨x, hx, rfl⟩
    · exact hp.apb t ht
    · exact tag_of_mem_decoded hp hx
  cmd := by
    show P (if _ then _ else _)
    split
    · cases hw : apbWriter cfg s i with
      | none => exact hp.cmd
      | some t => exact hp.apb t (tag_mem_of_apbWriter hw)
    · exact hp.cmd
  cmdD := by
    show P (if _ then _ else _)
    split
    · exact hp.cmd
    · exact hp.cmdD
  run := by
    show P (if _ then _ else _)
    split
    · exact hp.cmdD
    · exact hp.run

theorem Path.All.age {P Q : Tag → Prop} {b : Bool} (h : ∀ t, P t → Q (t.age b)) {p : Path w}
    (hp : p.All P) : (p.age b).All Q where
  sb k := h _ (hp.sb k)
  inflight t ht := by
    obtain ⟨x, hx, rfl⟩ := List.mem_map.1 ht
    exact h _ (hp.inflight x hx)
  apb t ht := by
    obtain ⟨x, hx, rfl⟩ := List.mem_map.1 ht
    exact h _ (hp.apb x hx)
  cmd := h _ hp.cmd
  cmdD := h _ hp.cmdD
  run := h _ hp.run

/-- Where the core has not changed its level since, the tag says its level. -/
def TagsRight (s : State cfg) : Prop := s.path.All fun t => t.moved = false → t.lvl = level cfg s

theorem tagsRight_next (h : TagsRight s) (i : In) : TagsRight (next cfg s i) := by
  have hnext := all_pathNext h (fun _ => rfl) i
  refine hnext.age fun t ht hm => ?_
  simp only [Tag.age, Bool.or_eq_false_iff, bne_eq_false_iff_eq] at hm
  calc t.lvl = level cfg s := ht hm.1
    _ = level cfg (next cfg s i) := hm.2.symm

theorem tagsRight_reset : TagsRight (reset cfg) where
  sb _ _ := rfl
  inflight _ h := by cases h
  apb _ h := by cases h
  cmd _ := rfl
  cmdD _ := rfl
  run _ := rfl

/-! ### Changing the level where nothing is pending -/

/-- The DMA engine has no command under way, and none that is about to start. -/
def DmaDrained (d : Dma.Regs) : Prop :=
  d.ctrl = .idle ∧ d.cmdD.start = false ∧ d.cmd.start = false ∨
    d.ctrl = .done ∧ (d.cmdD.clrDone = false ∧ d.cmd.clrDone = false ∨ d.cmd.start = false)

/-- Nothing that some instruction asked for can still reach the crossbar. -/
structure Drained (s : State cfg) : Prop where
  sb : ∀ k, (s.sb.commit.mem k).valid = false
  inflight : s.path.inflight = []
  apb : s.path.apb = []
  dma : DmaDrained s.dma

/-- The tags that matter to the DMA engine are those of the present level. -/
structure DmaLive (d : Dma.Regs) (p : Path w) : Prop where
  idle : d.ctrl = .idle → (d.cmdD.start = true → p.cmdD.moved = false) ∧
    (d.cmd.start = true → p.cmd.moved = false)
  busy : d.ctrl.waiting = false → p.run.moved = false ∧ (d.cmd.start = true → p.cmd.moved = false)
  done : d.ctrl = .done → d.cmdD.clrDone = true ∨ d.cmd.clrDone = true →
    d.cmd.start = true → p.cmd.moved = false

/-- So are all tags of what is pending. -/
structure Live (s : State cfg) : Prop where
  sb : ∀ k, (s.sb.commit.mem k).valid = true → (s.path.sb k).moved = false
  inflight : ∀ t ∈ s.path.inflight, t.tag.moved = false
  apb : ∀ t ∈ s.path.apb, t.moved = false
  dma : DmaLive s.dma s.path
  quiet : Dma.Quiet s.dma

section

variable {d : Dma.Regs} {p : Path w}

theorem DmaLive.of_idle (hc : d.ctrl = .idle) (hD : d.cmdD.start = true → p.cmdD.moved = false)
    (hC : d.cmd.start = true → p.cmd.moved = false) : DmaLive d p where
  idle _ := ⟨hD, hC⟩
  busy hb := by
    rw [hc] at hb
    cases hb
  done hd := by
    rw [hc] at hd
    cases hd

theorem DmaLive.of_done (hc : d.ctrl = .done)
    (hC : d.cmdD.clrDone = true ∨ d.cmd.clrDone = true → d.cmd.start = true → p.cmd.moved = false) :
    DmaLive d p where
  idle hi := by
    rw [hc] at hi
    cases hi
  busy hb := by
    rw [hc] at hb
    cases hb
  done _ := hC

theorem DmaLive.of_busy (hc : d.ctrl.waiting = false) (hR : p.run.moved = false)
    (hC : d.cmd.start = true → p.cmd.moved = false) : DmaLive d p where
  idle hi := by
    rw [hi] at hc
    cases hc
  busy _ := ⟨hR, hC⟩
  done hd := by
    rw [hd] at hc
    cases hc

end

theorem dmaLive_of_drained {d : Dma.Regs} (h : DmaDrained d) (p : Path w) : DmaLive d p := by
  rcases h with ⟨hc, hD, hC⟩ | ⟨hc, ⟨hD, hC⟩ | hC⟩
  · exact .of_idle hc (by simp [hD]) (by simp [hC])
  · exact .of_done hc (by simp [hD, hC])
  · exact .of_done hc (by simp [hC])

theorem live_of_drained (h : Drained s) (hq : Dma.Quiet s.dma) : Live s where
  sb k hk := by
    rw [h.sb k] at hk
    cases hk
  inflight t ht := by
    rw [h.inflight] at ht
    cases ht
  apb t ht := by
    rw [h.apb] at ht
    cases ht
  dma := dmaLive_of_drained h.dma s.path
  quiet := hq

/-- A cycle at one level keeps the DMA engine's tags. -/
theorem dmaLive_next {d : Dma.Regs} {p p' : Path w} {x : Dma.Bus} (r : Dma.Resp) (h : DmaLive d p)
    (hcmd : (d.cmd.write x).config = d.cmd.config ∧ p'.cmd = p.cmd ∨ p'.cmd.moved = false)
    (hcmdD : p'.cmdD = if d.ctrl.waiting then p.cmd else p.cmdD)
    (hrun : p'.run = if d.ctrl = .idle ∧ d.cmdD.start = true then p.cmdD else p.run) :
    DmaLive (Dma.next d x r) p' := by
  have hwrite (hold : d.cmd.start = true → p.cmd.moved = false) :
      (d.cmd.write x).start = true → p'.cmd.moved = false := by
    intro hst
    rcases hcmd with ⟨hc, hp⟩ | hp
    · rw [Dma.Command.start, hc] at hst
      rw [hp]
      exact hold hst
    · exact hp
  have hctrl : (Dma.next d x r).ctrl = Dma.ctrlNext d (Dma.axiOut d r).gnt (Dma.axiOut d r).valid := rfl
  have hD : (Dma.next d x r).cmdD = if d.ctrl.waiting then d.cmd else d.cmdD := rfl
  rcases Dma.ctrlNext_cases d (Dma.axiOut d r).gnt (Dma.axiOut d r).valid with
    ⟨hc, hst, hn⟩ | ⟨hc, -, hn⟩ | ⟨hc, hclr, hn⟩ | ⟨hc, -, hn⟩ | ⟨hc, hn⟩
  · -- a command starts
    obtain ⟨hlD, hlC⟩ := h.idle hc
    rw [if_pos ⟨hc, hst⟩] at hrun
    exact .of_busy (by rw [hctrl, hn]; rfl) (by rw [hrun]; exact hlD hst) (hwrite hlC)
  · obtain ⟨-, hlC⟩ := h.idle hc
    have hw : d.ctrl.waiting = true := by rw [hc]; rfl
    rw [if_pos hw] at hcmdD hD
    exact .of_idle (by rw [hctrl, hn]) (by rw [hD, hcmdD]; exact hlC) (hwrite hlC)
  · have hlC := h.done hc (.inl hclr)
    have hw : d.ctrl.waiting = true := by rw [hc]; rfl
    rw [if_pos hw] at hcmdD hD
    exact .of_idle (by rw [hctrl, hn]) (by rw [hD, hcmdD]; exact hlC) (hwrite hlC)
  · have hw : d.ctrl.waiting = true := by rw [hc]; rfl
    rw [if_pos hw] at hD
    refine .of_done (by rw [hctrl, hn]) ?_
    rw [hD]
    intro hclr hst
    rcases hcmd with ⟨hcfg, hp⟩ | hp
    · -- the register is as it was, and the sample is that register
      have hclr' : d.cmd.clrDone = true := by
        rcases hclr with hclr | hclr
        · exact hclr
        · have hclr'' : (d.cmd.write x).clrDone = true := hclr
          rwa [Dma.Command.clrDone, hcfg] at hclr''
      exact hwrite (h.done hc (.inr hclr')) hst
    · exact hp
  · obtain ⟨hlR, hlC⟩ := h.busy hc
    have hne : ¬(d.ctrl = .idle ∧ d.cmdD.start = true) := by
      rintro ⟨hi, -⟩
      rw [hi] at hc
      cases hc
    rw [if_neg hne] at hrun
    rcases hn with hn | hn
    · exact .of_busy (by rw [hctrl, hn]) (by rw [hrun]; exact hlR) (hwrite hlC)
    · exact .of_done (by rw [hctrl, hn]) fun _ => hwrite hlC

/-- A DMA engine at the crossbar is busy. -/
theorem busy_of_mem_dmaTxns (hq : Dma.Quiet s.dma) {t : Txn} (h : t ∈ dmaTxns cfg s i) :
    s.dma.ctrl.waiting = false := by
  rw [Bool.eq_false_iff]
  intro hw
  obtain ⟨haw, har⟩ := Dma.axiOut_of_waiting hq hw i.dmaResp
  simp [dmaTxns, haw, har] at h

theorem moved_of_mem_decoded (h : Live s) {t : Txn} (ht : t ∈ decoded cfg s i) :
    t.tag.moved = false := by
  rcases mem_decoded ht with ht | ht
  · exact h.inflight t ht
  · rw [tag_of_mem_dmaTxns ht]
    exact (h.dma.busy (busy_of_mem_dmaTxns h.quiet ht)).1

theorem Path.age_false (p : Path w) : p.age false = p := by
  have htag (t : Tag) : t.age false = t := by simp [Tag.age]
  have htxn (t : Txn) : t.age false = t := by simp [Txn.age, htag]
  have hl : p.inflight.map (Txn.age false) = p.inflight := by
    rw [List.map_congr_left fun t _ => htxn t, List.map_id']
  have ha : p.apb.map (Tag.age false) = p.apb := by
    rw [List.map_congr_left fun t _ => htag t, List.map_id']
  simp only [Path.age, htag, hl, ha]

/-- The command register's tag: unchanged with the register, or that of a write in the
bridge. -/
theorem cmd_pathNext (h : Live s) (i : In) :
    (s.dma.cmd.write (dmaBus cfg s i)).config = s.dma.cmd.config ∧
        (pathNext cfg s i).cmd = s.path.cmd ∨ (pathNext cfg s i).cmd.moved = false := by
  by_cases hw : writesConfig cfg s i = true
  · right
    have hcmd : (pathNext cfg s i).cmd = (apbWriter cfg s i).getD s.path.cmd := if_pos hw
    obtain ⟨t, ht⟩ : ∃ t, apbWriter cfg s i = some t :=
      Option.isSome_iff_exists.1 (Bool.and_eq_true_iff.1 hw).1
    rw [hcmd, ht]
    exact h.apb t (tag_mem_of_apbWriter ht)
  · left
    refine ⟨Dma.Command.write_config_of_ne ?_, if_neg hw⟩
    rintro ⟨h1, h2⟩
    have h1' : (apbWriter cfg s i).isSome = true := h1
    have h2' : (i.apbAddr.extractLsb' 2 3).toNat = 0 := h2
    exact hw (by rw [writesConfig, h1', h2']; rfl)

/-- A cycle in which the core keeps its level. -/
theorem live_next (h : Live s) (i : In) (hl : level cfg (next cfg s i) = level cfg s) :
    Live (next cfg s i) := by
  have hpath : (next cfg s i).path = pathNext cfg s i := by
    have hb : (Csr.privLvlO (Core.next cfg s.core (coreIn cfg s i)).csr != level cfg s) = false :=
      bne_eq_false_iff_eq.2 hl
    show (pathNext cfg s i).age _ = _
    rw [hb, Path.age_false]
  refine ⟨?_, ?_, ?_, ?_, Dma.quiet_next h.quiet _ _⟩
  · intro k hk
    rw [hpath]
    show Tag.moved (if _ then _ else _) = false
    split
    · rfl
    · rename_i hne
      rcases StoreBuffer.valid_of_storeIf hk with hnew | hold
      · exact absurd hnew hne
      · exact h.sb k hold
  · intro t ht
    rw [hpath] at ht
    rcases mem_inflight_pathNext ht with ht | ⟨hv, ht⟩ | ht
    · exact h.inflight t ht
    · rw [ht]
      exact h.sb _ hv
    · rw [ht]
  · intro t ht
    rw [hpath] at ht
    rcases mem_apb_pathNext ht with ht | ⟨x, hx, rfl⟩
    · exact h.apb t ht
    · exact moved_of_mem_decoded h hx
  · rw [hpath]
    exact dmaLive_next i.dmaResp h.dma (cmd_pathNext h i) rfl rfl

theorem drained_reset : Drained (reset cfg) where
  sb _ := rfl
  inflight := rfl
  apb := rfl
  dma := by
    show DmaDrained Dma.reset
    exact .inl (by decide)

/-- A transaction is decided at the level of its instruction, unless the core has changed
its level in between; so every transaction is, in a run that changes level only where
nothing is pending. -/
theorem attribution (cfg : Cfg) (s : State cfg) (hs : (machine cfg).init s) (is : List In) :
    (machine cfg).Steps
        (fun s i => ∀ t ∈ decoded cfg s i, t.tag.moved = false → Authorised cfg s i t) s is ∧
      ((machine cfg).Steps
          (fun s i => level cfg (next cfg s i) = level cfg s ∨ Drained (next cfg s i)) s is →
        (machine cfg).Steps (fun s i => ∀ t ∈ decoded cfg s i, Authorised cfg s i t) s is) := by
  obtain rfl : s = reset cfg := hs
  have huse (s : State cfg) (i : In) (hr : TagsRight s) (t : Txn) (ht : t ∈ decoded cfg s i)
      (hm : t.tag.moved = false) : Authorised cfg s i t :=
    authorised_of_level (tag_of_mem_decoded hr ht hm).symm
  constructor
  · exact Machine.steps_of_inv (fun s i h _ => tagsRight_next h i) (fun s i h _ => huse s i h) is _
      tagsRight_reset (Machine.steps_true is _)
  · refine Machine.steps_of_inv (P := fun s => TagsRight s ∧ Live s) ?_ ?_ is _
      ⟨tagsRight_reset, live_of_drained drained_reset Dma.quiet_reset⟩
    · rintro s i ⟨hr, hl⟩ hok
      refine ⟨tagsRight_next hr i, ?_⟩
      rcases hok with hkeep | hdrained
      · exact live_next hl i hkeep
      · exact live_of_drained hdrained (Dma.quiet_next hl.quiet _ _)
    · rintro s i ⟨hr, hl⟩ - t ht
      exact huse s i hr t ht (moved_of_mem_decoded hl ht)

/-- A cycle in which only the core does something. -/
def In.ofCore (x : Core.In) : In where
  core := x
  flush := false
  storeValid := false
  store := ⟨0, 0, 0, 0⟩
  gnt := false
  load := none
  bus := none
  leave := none
  apbSel := none
  apbAddr := 0
  apbWdata := 0
  apbDone := none
  dmaResp := ⟨false, false, false, false, false, false, 0, 0⟩
  acct := fun _ => 0x88888888

/-- A load right after reset, at the crossbar two cycles later. -/
def loadRun : List In :=
  [{ In.ofCore Core.In.idle with load := some 0x80000000 }, In.ofCore Core.In.idle,
    { In.ofCore Core.In.idle with bus := some 0 }]

theorem attribution_load :
    (machine socCfg).Steps (fun s i => ∀ t ∈ decoded socCfg s i, Authorised socCfg s i t)
      (reset socCfg) loadRun :=
  (attribution socCfg (reset socCfg) rfl loadRun).2
    ⟨.inl (by decide +kernel), .inl (by decide +kernel), .inl (by decide +kernel), trivial⟩

/-- A store on the first commit port. -/
def storeCommit : Core.In :=
  { Core.In.idle with
    commitInstr := fun _ => { ScoreboardEntry.empty with fu := .store, op := .sd, valid := true } }

/-- With the peripherals open to machine mode only: a store of user mode to the AES
engine retires, an environment call follows, and the crossbar sees the store after it. -/
def lateStore : List In :=
  [In.ofCore (Core.In.csr .mret),
    { In.ofCore Core.In.idle with storeValid := true, store := ⟨0x10100000, 1, 0xff, 3⟩ },
    In.ofCore storeCommit,
    { In.ofCore (Core.In.raise envCallUmode) with gnt := true },
    { In.ofCore Core.In.idle with bus := some 0 }]

/-- The store is let through at a level that its own level is denied. -/
theorem denied_store_let_through :
    (machine socCfg).init (reset socCfg) ∧
      ¬(machine socCfg).Steps (fun s i => ∀ t ∈ decoded socCfg s i, Authorised socCfg s i t)
        (reset socCfg) lateStore := by
  refine ⟨rfl, fun h => ?_⟩
  have hlast := h.2.2.2.2.1 ⟨0, 0x10100000, true, ⟨privLvlU, true⟩⟩ (by decide +kernel)
  exact absurd (hlast.denied .aes (by decide +kernel)) (by decide +kernel)

end Attr
end Ariane

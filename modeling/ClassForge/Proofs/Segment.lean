import ClassForge.Proofs.Certificate
import ClassForge.Proofs.Yields
import Mathlib.Data.List.Forall2
import Mathlib.Tactic.IntervalCases

/-! What the steps that write code do to certified code. -/

namespace ClassForge

open Instruction Code Yields Word

namespace Opcode

variable {op : Opcode}

def isQuiet (op : Opcode) : Bool :=
  !(iload.byte ≤ op.byte && op.byte ≤ aload.byte) && op != .iinc && op.ownLoad?.isNone &&
    !(istore.byte ≤ op.byte && op.byte ≤ astore.byte) && op.ownStore?.isNone

def isPlain (op : Opcode) : Bool := op.length == 1 && !op.isTerminal && op.isQuiet

theorem isBranch_of_length (h : op.length = 1) : op.isBranch = false := by
  by_contra branch
  have := op.length_of_isBranch (by simpa using branch)
  omega

/-- What the table of opcodes says: which have no operand, leave the slots alone, or name an entry. -/
theorem byte_facts : ∀ op : Opcode,
    (op.length = 1 → op.takesEntry = false ∧ ¬(iload.byte ≤ op.byte ∧ op.byte ≤ aload.byte) ∧ op ≠ .iinc ∧
      ¬(istore.byte ≤ op.byte ∧ op.byte ≤ astore.byte)) ∧
    (op.isBranch = true → op.isQuiet = true ∧ op.takesEntry = false) ∧
    (op.isTerminal = true → op.isQuiet = true) ∧
    (op.takesEntry = true → op.isQuiet = true) :=
  forall_byte (by decide +kernel)

theorem takesEntry_of_length (one : op.length = 1) : op.takesEntry = false :=
  ((byte_facts op).1 one).1

theorem quiet_of_isBranch (branch : op.isBranch = true) : op.isQuiet = true ∧ op.takesEntry = false :=
  (byte_facts op).2.1 branch

/-- The opcodes that load or store a local: with an operand, and the first of those with a slot of
their own. -/
def access (loads : Bool) (k : Kind) : Opcode × Opcode := if loads then load k else store k

def accessEffect (loads : Bool) (k : Kind) : Effect := if loads then ⟨[], k.words⟩ else ⟨k.words, []⟩

theorem access_long (h : op = (access loads k).1) : op.length = 2 ∧ op.isBranch = false ∧ op ≠ .iinc ∧
    (iload.byte ≤ op.byte ∧ op.byte ≤ aload.byte ↔ loads = true) ∧
    (istore.byte ≤ op.byte ∧ op.byte ≤ astore.byte ↔ loads = false) ∧ op.ownLoad? = none ∧ op.ownStore? = none ∧
    (k ≠ .void → op.effect? = some (accessEffect loads k)) := by
  subst h
  cases k with
  | prim p => cases p <;> cases loads <;> decide
  | void | reference => cases loads <;> decide

theorem access_short (few : n < 4) (h : op = (access loads k).2.plus n.toUInt8) : op.length = 1 ∧
    op.ownLoad? = (if loads then some n else none) ∧ op.ownStore? = (if loads then none else some n) ∧
    (k ≠ .void → op.effect? = some (accessEffect loads k)) := by
  subst h
  revert n
  cases k with
  | prim p => cases p <;> cases loads <;> decide
  | void | reference => cases loads <;> decide

end Opcode

namespace Instruction

variable {i : Instruction} {slot : Nat}

theorem slots_quiet (quiet : i.op.isQuiet = true) : i.readSlot? = none ∧ i.writeSlot? = none := by
  simp only [Opcode.isQuiet, Bool.and_eq_true, Bool.not_eq_true', bne_iff_ne, Option.isNone_iff_eq_none] at quiet
  obtain ⟨⟨⟨⟨load, inc⟩, own⟩, store⟩, stores⟩ := quiet
  unfold readSlot? writeSlot?
  rw [if_neg (by simpa using load), if_neg inc, own, if_neg (by simpa using store), stores]
  exact ⟨rfl, rfl⟩

theorem readSlot?_short (one : i.op.length = 1) : i.readSlot? = i.op.ownLoad? := by
  obtain ⟨_, load, inc, _⟩ := (Opcode.byte_facts i.op).1 one
  unfold readSlot?
  rw [if_neg load, if_neg inc]

theorem writeSlot?_short (one : i.op.length = 1) : i.writeSlot? = i.op.ownStore? := by
  obtain ⟨_, _, _, store⟩ := (Opcode.byte_facts i.op).1 one
  unfold writeSlot?
  rw [if_neg store]

theorem readSlot?_iinc (h : i.op = .iinc) :
    i.readSlot? = some (if i.wide then i.index.toNat else i.index.toNat / 256) := by
  unfold readSlot?
  rw [h, if_neg (by decide), if_pos rfl]

theorem takesEntry_of_slot (h : i.readSlot? = some slot ∨ i.writeSlot? = some slot) : i.op.takesEntry = false := by
  by_contra takes
  have quiet := slots_quiet ((Opcode.byte_facts i.op).2.2.2 (by simpa using takes))
  simp [quiet] at h

theorem effect?_of_opcode (h : i.op.effect? = some e) : i.effect? p = some e := by
  have none : ∀ op : Opcode, op.effect? = none → i.op ≠ op := by
    rintro op missing rfl
    rw [missing] at h
    cases h
  unfold effect?
  rw [if_neg, if_neg (none _ (by decide)), if_neg (none _ (by decide)), if_neg (none _ (by decide)),
    if_neg (none _ (by decide)), if_neg (none _ (by decide)), if_neg, h]
  · rintro (same | same | same) <;> exact none _ (by decide) same
  · rintro (same | same | same) <;> exact none _ (by decide) same

theorem of_access (loads : Bool) (form : i.op = (Opcode.access loads k).1 ∧ i.index = slot ∨
      i.op = (Opcode.access loads k).2.plus slot.toUInt8 ∧ slot ≤ 3) :
    i.op.isBranch = false ∧ i.readSlot? = (if loads then some slot else none) ∧
      i.writeSlot? = (if loads then none else some slot) ∧
      (k ≠ .void → i.op.effect? = some (Opcode.accessEffect loads k)) := by
  rcases form with ⟨op, index⟩ | ⟨op, few⟩
  · obtain ⟨-, straight, inc, load, store, own, owns, effect⟩ := Opcode.access_long op
    refine ⟨straight, by simp [readSlot?, load, inc, own, index], ?_, effect⟩
    cases loads <;> simp [writeSlot?, store, owns, index]
  · obtain ⟨one, load, store, effect⟩ := Opcode.access_short (Nat.lt_succ_of_le few) op
    exact ⟨Opcode.isBranch_of_length one, (readSlot?_short one).trans load, (writeSlot?_short one).trans store, effect⟩

end Instruction

theorem Rules.Admits.of_quiet {R : Rules} (quiet : i.op.isQuiet = true) (fits : R.typed → depth d.stack ≤ R.limit)
    (moves : R.typed → i.Moves R.pool d.stack after) (names : i.op.takesEntry = true → R.Names i.op i.entry) :
    R.Admits i d :=
  ⟨by simp [slots_quiet quiet], by simp [slots_quiet quiet], fits, fun typed => ⟨after, moves typed⟩, names⟩

namespace Code

variable {c c' : Code} {y : Unit} {slot : Nat} {op short : Opcode}

@[simp] theorem yields_put : Yields (put bs) c y c' ↔ ⟨c.bytes.appendList bs, c.sites⟩ = c' := by
  simp [put]

@[simp] theorem yields_emit : Yields (emit op) c y c' ↔ ⟨c.bytes.appendList [op.byte], c.sites⟩ = c' := by
  simp [emit]

@[simp] theorem yields_jump :
    Yields (jump op) c site c' ↔ c.pos = site ∧ ⟨c.bytes.appendList [op.byte, 0, 0], c.sites⟩ = c' := by
  simp [jump, and_comm]

@[simp] theorem yields_pushSite :
    Yields (pushSite op) c y c' ↔ ⟨c.bytes.appendList [op.byte, 0, 0], c.pos :: c.sites⟩ = c' := by
  simp [pushSite]

theorem yields_resolve {target : Int} :
    Yields (resolve site target) c y c' ↔ -32768 ≤ target - site ∧ target - site ≤ 32767 ∧
      ⟨(c.bytes.setIfInBounds (site + 1) (low16 (target - site) >>> 8).toUInt8).setIfInBounds (site + 2)
        (low16 (target - site)).toUInt8, c.sites⟩ = c' := by
  unfold resolve
  dsimp only
  split
  · simp only [throw_iff, false_iff]
    omega
  · rw [modify_iff]
    constructor
    · intro h
      exact ⟨by omega, by omega, h⟩
    · exact fun h => h.2.2

theorem of_popSite (h : Yields popSite c y c') :
    ∃ site rest, c.sites = site :: rest ∧ Yields (resolve site c.pos) ⟨c.bytes, rest⟩ () c' := by
  unfold popSite takeSite at h
  simp only [bind_iff, get_iff] at h
  obtain ⟨site, c1, ⟨c2, c3, ⟨rfl, rfl⟩, taken⟩, c4, c5, ⟨rfl, rfl⟩, resolved⟩ := h
  split at taken
  · simp at taken
  · rename_i s rest sites
    simp only [bind_iff, modify_iff, pure_iff] at taken
    obtain ⟨_, _, rfl, rfl, rfl⟩ := taken
    exact ⟨s, rest, sites, resolved⟩

theorem of_swapSites (h : Yields swapSites c y c') :
    ∃ a b rest, c.sites = a :: b :: rest ∧ ⟨c.bytes, b :: a :: rest⟩ = c' := by
  unfold swapSites at h
  simp only [bind_iff, get_iff] at h
  obtain ⟨_, _, ⟨rfl, rfl⟩, swapped⟩ := h
  split at swapped
  · rename_i a b rest sites
    exact ⟨a, b, rest, sites, by simpa using swapped⟩
  · simp at swapped

def localForm (pc : Nat) (forms : Opcode × Opcode) (slot : Int) : Instruction :=
  if slot ≤ 3 then { pc, op := forms.2.plus slot.toNat.toUInt8 }
  else { pc, op := forms.1, wide := 255 < slot, index := slot }

def iincForm (pc : Nat) (slot delta : Int) : Instruction :=
  if slot ≤ 255 ∧ -128 ≤ delta ∧ delta ≤ 127 then { pc, op := .iinc, index := slot * 256 + delta % 256 }
  else { pc, op := .iinc, wide := true, index := slot }

theorem reads_local {slot : Int} (loads : Bool) (k : Kind)
    (run : Yields (emitLocal (Opcode.access loads k).1 (Opcode.access loads k).2 slot) c () c') :
    ∃ b operands, ⟨c.bytes.appendList (b :: operands), c.sites⟩ = c' ∧
      read c.pos b operands = .ok (localForm c.pos (Opcode.access loads k) slot, operands.length + 1) := by
  obtain ⟨long, -, isInc, -⟩ := Opcode.access_long (rfl : _ = (Opcode.access loads k).1)
  unfold emitLocal at run
  unfold localForm
  split_ifs at run with negative tiny small large
  · simp at run
  · rw [if_pos tiny]
    exact ⟨_, [], yields_emit.mp run, read_plain _ (Opcode.access_short (by omega) rfl).1⟩
  · refine ⟨_, _, yields_put.mp run, ?_⟩
    have narrow : ¬255 < slot := by omega
    have value : (slot.toNat.toUInt8.toNat : Int) = slot := by
      simp
      omega
    rw [if_neg tiny, read_u1 _ long, value]
    simp [narrow]
  · refine ⟨_, _, yields_put.mp run, ?_⟩
    have far : 255 < slot := by omega
    have value : (slot.toNat.toUInt16.toNat : Int) = slot := by
      simp
      omega
    have one := read_wide c.pos isInc (slot.toNat.toUInt16 >>> 8).toUInt8 slot.toNat.toUInt16.toUInt8
    rw [word_be16, value] at one
    rw [if_neg tiny, decide_eq_true far]
    exact one
  · simp at run

theorem reads_iinc {slot : Int} (run : Yields (iinc slot delta) c () c') :
    ∃ b operands, ⟨c.bytes.appendList (b :: operands), c.sites⟩ = c' ∧
      read c.pos b operands = .ok (iincForm c.pos slot delta, operands.length + 1) := by
  unfold iinc at run
  unfold iincForm
  split_ifs at run with small range far
  · refine ⟨_, _, yields_put.mp run, ?_⟩
    have value : (word slot.toNat.toUInt8 (low16 delta).toUInt8 : Int) = slot * 256 + delta % 256 := by
      simp [word, low16]
      omega
    rw [if_pos small.2, read_u2 _ (by decide) (by decide), value]
    rfl
  · simp at run
  · simp at run
  · refine ⟨_, _, yields_put.mp run, ?_⟩
    have value : (slot.toNat.toUInt16.toNat : Int) = slot := by
      simp
      omega
    rw [if_neg (by omega)]
    have one := read_wide_iinc c.pos (slot.toNat.toUInt16 >>> 8).toUInt8 slot.toNat.toUInt16.toUInt8
      (low16 delta >>> 8).toUInt8 (low16 delta).toUInt8
    rw [word_be16, value] at one
    exact one

theorem localForm_shows (pc : Nat) (forms : Opcode × Opcode) (slot : Nat) : (localForm pc forms slot).op = forms.1 ∧
    (localForm pc forms slot).index = slot ∨ (localForm pc forms slot).op = forms.2.plus slot.toUInt8 ∧ slot ≤ 3 := by
  unfold localForm
  split_ifs with tiny
  · exact .inr ⟨rfl, Int.ofNat_le.mp tiny⟩
  · exact .inl ⟨rfl, rfl⟩

theorem iincForm_shows (pc slot : Nat) (delta : Int) :
    (iincForm pc slot delta).op = .iinc ∧ (iincForm pc slot delta).readSlot? = some slot := by
  unfold iincForm
  split_ifs
  · refine ⟨rfl, ?_⟩
    rw [readSlot?_iinc rfl]
    simp
    omega
  · exact ⟨rfl, readSlot?_iinc rfl⟩

end Code

/-- Where a stretch of code starts: the code before it, the open sites that it leaves alone, on the
stack and elsewhere, and the slots known all along. -/
structure Setting where
  rules : Rules
  base : View
  below : List Nat
  extra : List Nat
  floor : Set Nat

/-- The code is certified and has grown from the base. On top of the sites left alone are sites that
establish `opens`. -/
def Segment (g : Setting) (opens : List State) (here : Option State) (c : Code) : Prop :=
  ∃ spots sites, Certified g.rules c.bytes (c.sites ++ g.extra) spots here ∧
    g.base.Grows g.rules g.floor ⟨spots, c.bytes.size, here⟩ ∧ c.sites = sites ++ g.below ∧
    List.Forall₂ (Carries g.rules spots) sites opens

namespace Segment

variable {g : Setting} {opens : List State} {here : Option State} {c c' : Code} {y : Unit}
  {below extra sites : List Nat} {op : Opcode} {d e : State}

theorem start (floor : Set Nat) (cert : Certified R c.bytes (c.sites ++ extra) spots here)
    (split : c.sites = own ++ below) (carries : List.Forall₂ (Carries R spots) own opens) :
    Segment ⟨R, ⟨spots, c.bytes.size, here⟩, below, extra, floor⟩ opens here c :=
  ⟨spots, own, cert, .refl R floor _, split, carries⟩

theorem append (h : Segment g opens (some d) c) {op : UInt8}
    (one : read c.pos op operands = .ok (i, operands.length + 1)) (admits : g.rules.Admits i d)
    (straight : i.op.isBranch = false) (next : i.op.isTerminal = false → ∃ e, here' = some e ∧ g.rules.Passes i d e)
    (above : g.floor ⊆ d.known) : Segment g opens here' ⟨c.bytes.appendList (op :: operands), c.sites⟩ := by
  obtain ⟨spots, sites, cert, grows, split, carries⟩ := h
  obtain ⟨cert', more⟩ := cert.push one admits (by simp [straight]) (fun s hs => hs) (by simp [straight])
    next above
  exact ⟨_, sites, cert', grows.trans more, split, carries.imp fun _ _ c => more.carries c⟩

theorem rehere (h : Segment g opens here c)
    (weaker : ∀ d, here = some d → ∃ e, here' = some e ∧ g.rules.Weaker e d) : Segment g opens here' c := by
  obtain ⟨spots, sites, cert, grows, split, carries⟩ := h
  obtain ⟨cert', more⟩ := cert.rehere g.floor weaker
  exact ⟨spots, sites, cert', grows.trans more, split, carries⟩

/-- The stack at the end may be spelled another way; where types are not followed, any way will do. -/
theorem restack (h : Segment g opens (some ⟨s, known⟩) c)
    (same : g.rules.typed → s = t) : Segment g opens (some ⟨t, known⟩) c := by
  refine h.rehere fun d hd => ?_
  cases hd
  exact ⟨_, rfl, fun typed => (same typed).symm, fun _ hs => hs⟩

theorem pushSite (h : Segment g opens (some d) c) (run : Yields (pushSite op) c y c') (branch : op.isBranch = true)
    (fits : g.rules.typed → depth d.stack ≤ g.rules.limit)
    (moves : g.rules.typed → { pc := 0, op : Instruction }.Moves g.rules.pool d.stack e.stack)
    (known : e.known ⊆ d.known) (next : op.isTerminal = true ∨ here' = some e) (above : g.floor ⊆ d.known) :
    Segment g (e :: opens) here' c' := by
  obtain ⟨spots, sites, cert, grows, split, carries⟩ := h
  rw [yields_pushSite] at run
  subst run
  have one := read_branch c.pos branch 0 0
  obtain ⟨quiet, bare⟩ := Opcode.quiet_of_isBranch branch
  have form : SameForm { pc := c.pos, op, target := c.pos + offset 0 0 } { pc := 0, op } := ⟨rfl, rfl, rfl⟩
  have passes : g.rules.Passes { pc := c.pos, op, target := c.pos + offset 0 0 } d e :=
    ⟨fun typed => form.moves (moves typed), fun slot hs => .inl (known hs)⟩
  have admits : g.rules.Admits { pc := c.pos, op, target := c.pos + offset 0 0 } d :=
    .of_quiet quiet fits passes.moves (by simp [bare])
  have wider : ∀ s ∈ c.sites ++ g.extra, s ∈ (c.pos :: c.sites) ++ g.extra :=
    fun s hs => List.mem_cons_of_mem _ hs
  obtain ⟨cert', more⟩ := cert.push one admits (fun _ => rfl) wider (fun _ => List.mem_cons_self)
    (fun straight => ⟨e, next.resolve_left (by simp [straight]), passes⟩) above
  refine ⟨_, c.pos :: sites, cert', grows.trans more, by simp [split], .cons ?_ ?_⟩
  · exact ⟨⟨_, d⟩, by simp, rfl, branch, passes⟩
  · exact carries.imp fun _ _ c => more.carries c

theorem swapSites (h : Segment g (d :: e :: opens) here c)
    (run : Yields swapSites c y c') : Segment g (e :: d :: opens) here c' := by
  obtain ⟨spots, sites, cert, grows, split, carries⟩ := h
  obtain ⟨a, b, rest, sites', rfl⟩ := of_swapSites run
  cases carries with
  | @cons a' _ _ _ first carries =>
    cases carries with
    | @cons b' _ more _ second carries =>
      simp only [sites', List.cons_append, List.cons.injEq] at split
      obtain ⟨rfl, rfl, rfl⟩ := split
      refine ⟨spots, b :: a :: more, ?_, grows, rfl, .cons second (.cons first carries)⟩
      refine cert.mono_opened fun s hs => ?_
      simp only [sites', List.cons_append, List.mem_cons] at hs ⊢
      tauto

theorem resolveTop {site target : Nat} (h : Segment g (d :: opens) here c) (top : c.sites = site :: rest)
    (run : Yields (resolve site target) ⟨c.bytes, rest⟩ y c')
    (label : ∀ spots, g.base.Grows g.rules g.floor ⟨spots, c.bytes.size, here⟩ →
      ∃ e, View.At ⟨spots, c.bytes.size, here⟩ target e ∧ g.rules.Weaker e d) : Segment g opens here c' := by
  obtain ⟨spots, sites, cert, grows, split, carries⟩ := h
  obtain ⟨low, high, rfl⟩ := yields_resolve.mp run
  cases carries with
  | @cons a _ more _ first carries =>
    simp only [top, List.cons_append, List.cons.injEq] at split
    obtain ⟨rfl, rfl⟩ := split
    obtain ⟨e, arrives, weaker⟩ := label spots grows
    have narrower : ∀ s ∈ c.sites ++ g.extra, s = site ∨ s ∈ more ++ g.below ++ g.extra := by
      intro s hs
      simpa [top] using hs
    obtain ⟨cert', retargeted⟩ := cert.resolve g.floor first arrives weaker (offset_low16 low high) narrower
    refine ⟨_, more, cert', ?_, rfl, carries.imp fun _ _ c => retargeted.carries c⟩
    simpa using grows.trans retargeted

/-- Resolves the site on top to the end of the code, where its state, or one that control brings there,
holds. -/
theorem popSite (h : Segment g (d :: opens) here c) (run : Yields popSite c y c') (weaker : g.rules.Weaker e d)
    (arrives : ∀ f, here = some f → g.rules.Weaker e f) : Segment g opens (some e) c' := by
  obtain ⟨site, rest, top, resolved⟩ := of_popSite run
  have joined : Segment g (d :: opens) (some e) c := h.rehere fun f hf => ⟨e, rfl, arrives f hf⟩
  exact joined.resolveTop top resolved fun _ _ => ⟨e, .inr ⟨rfl, rfl⟩, weaker⟩

/-- Resolves the site on top to the end of the code, where control arrives in the same state. -/
theorem joinSite (h : Segment g (d :: opens) (some d) c) (run : Yields Code.popSite c y c') :
    Segment g opens (some d) c' :=
  h.popSite run (.refl _) fun f hf => by
    cases hf
    exact .refl _

theorem resolveAll (h : Segment g opens here c) (extra : List Nat) (run : Yields (Code.resolveAll sites c.pos) c y c')
    (carry : ∀ s ∈ sites, ∃ d, Carries g.rules g.base.spots s d ∧ g.rules.Weaker e d)
    (arrives : ∀ f, here = some f → g.rules.Weaker e f) (sub : ∀ s ∈ g.extra, s ∈ sites ∨ s ∈ extra) :
    Segment { g with extra } opens (some e) c' := by
  obtain ⟨spots, own, cert0, grows, split, carries⟩ := h
  obtain ⟨cert, joined⟩ := cert0.rehere g.floor fun f hf => ⟨e, rfl, arrives f hf⟩
  have grown := grows.trans joined
  clear cert0 grows joined arrives
  -- one site after the other; those still to come stay among the open ones
  suffices all : ∀ (bytes : Array UInt8) (spots : List Spot),
      bytes.size = c.pos → Certified g.rules bytes (c.sites ++ (sites ++ extra)) spots (some e) →
      g.base.Grows g.rules g.floor ⟨spots, bytes.size, some e⟩ →
      List.Forall₂ (Carries g.rules spots) own opens →
      Yields (Code.resolveAll sites c.pos) ⟨bytes, c.sites⟩ y c' → Segment { g with extra } opens (some e) c' by
    refine all c.bytes spots rfl (cert.mono_opened fun s hs => ?_) grown carries run
    rcases List.mem_append.mp hs with stack | loose
    · exact List.mem_append_left _ stack
    · exact List.mem_append_right _ (List.mem_append.mpr (sub s loose))
  clear cert grown carries run sub spots
  induction sites with
  | nil =>
    intro bytes spots _ cert grown carries run
    obtain ⟨-, rfl⟩ := run
    exact ⟨spots, own, cert, grown, split, carries⟩
  | cons site sites ih =>
    intro bytes spots size cert grown carries run
    simp only [Code.resolveAll, List.forM, bind_iff] at run
    obtain ⟨_, c1, one, rest⟩ := run
    obtain ⟨low, high, rfl⟩ := Code.yields_resolve.mp one
    obtain ⟨d, found, weaker⟩ := carry site List.mem_cons_self
    have narrower : ∀ s ∈ c.sites ++ (site :: sites ++ extra), s = site ∨ s ∈ c.sites ++ (sites ++ extra) := by
      intro s hs
      simp only [List.cons_append, List.mem_append, List.mem_cons] at hs ⊢
      tauto
    obtain ⟨cert', more⟩ := cert.resolve g.floor (grown.carries found) (.inr ⟨size.symm, rfl⟩) weaker
      (offset_low16 low high) narrower
    refine ih (fun s hs => carry s (List.mem_cons_of_mem _ hs)) _ _ (by simpa using size) cert' ?_
      (carries.imp fun _ _ c => more.carries c) rest
    simpa using grown.trans more

/-- Jumps back to a position of the base, where no more is asked for than what holds here. -/
theorem branchTo {target : Nat} (h : Segment g opens (some d) c)
    (run : Yields (Code.branchTo op target) c y c') (branch : op.isBranch = true)
    (terminal : op.isTerminal = true) (fits : g.rules.typed → depth d.stack ≤ g.rules.limit)
    (moves : g.rules.typed → { pc := 0, op : Instruction }.Moves g.rules.pool d.stack d.stack)
    (label : g.base.At target e) (weaker : g.rules.Weaker e d) (above : g.floor ⊆ d.known) :
    Segment g opens none c' := by
  simp only [Code.branchTo, bind_iff, Code.yields_jump] at run
  obtain ⟨site, c1, ⟨rfl, rfl⟩, resolved⟩ := run
  have pushed : Segment g (d :: opens) none ⟨c.bytes.appendList [op.byte, 0, 0], c.pos :: c.sites⟩ :=
    h.pushSite (y := ()) (Code.yields_pushSite.mpr rfl) branch fits moves (fun _ hs => hs) (.inl terminal) above
  refine pushed.resolveTop rfl resolved fun spots grows => ?_
  obtain ⟨f, arrives, less⟩ := grows.states target e label
  exact ⟨f, arrives, less.trans weaker⟩

/-! Instructions that leave the slots alone. -/

section Straight

variable {s t : List Word} {known : Set Nat} {op : Opcode} {index n : UInt16}

section

variable (h : Segment g opens (some ⟨s, known⟩) c)

include h

theorem step {op : UInt8} (one : read c.pos op operands = .ok (i, operands.length + 1))
    (straight : i.op.isBranch = false) (quiet : i.op.isQuiet = true)
    (names : i.op.takesEntry = true → g.rules.Names i.op i.entry) (fits : g.rules.typed → depth s ≤ g.rules.limit)
    (moves : g.rules.typed → i.Moves g.rules.pool s t) (above : g.floor ⊆ known) :
    Segment g opens (some ⟨t, known⟩) ⟨c.bytes.appendList (op :: operands), c.sites⟩ :=
  h.append one (.of_quiet quiet fits moves names) straight (fun _ => ⟨_, rfl, moves, fun _ hs => .inl hs⟩) above

theorem emit (run : Yields (emit op) c y c')
    (plain : op.isPlain = true) (fits : g.rules.typed → depth s ≤ g.rules.limit)
    (moves : g.rules.typed → { pc := c.pos, op : Instruction }.Moves g.rules.pool s t)
    (above : g.floor ⊆ known) : Segment g opens (some ⟨t, known⟩) c' := by
  rw [yields_emit] at run
  subst run
  simp only [Opcode.isPlain, Bool.and_eq_true, beq_iff_eq] at plain
  obtain ⟨⟨length, _⟩, quiet⟩ := plain
  exact h.step (read_plain c.pos length) (Opcode.isBranch_of_length length) quiet
    (by simp [Opcode.takesEntry_of_length length]) fits moves above

theorem emitU1 {n : UInt8}
    (run : Yields (Code.emitU1 op n) c y c') (forms : op.length = 2 ∧ op.isBranch = false ∧ op.isQuiet = true)
    (names : op.takesEntry = true → g.rules.Names op n.toUInt16) (fits : g.rules.typed → depth s ≤ g.rules.limit)
    (moves : g.rules.typed → { pc := c.pos, op, index := n.toNat : Instruction }.Moves g.rules.pool s t)
    (above : g.floor ⊆ known) : Segment g opens (some ⟨t, known⟩) c' := by
  rw [Code.emitU1, Code.yields_put] at run
  subst run
  exact h.step (read_u1 c.pos forms.1 n) forms.2.1 forms.2.2 (by simpa [entry] using names) fits moves above

theorem emitU2 (run : Yields (Code.emitU2 op n) c y c')
    (forms : op.length = 3 ∧ op.isBranch = false ∧ op.isQuiet = true)
    (names : op.takesEntry = true → g.rules.Names op n) (fits : g.rules.typed → depth s ≤ g.rules.limit)
    (moves : g.rules.typed → { pc := c.pos, op, index := n.toNat : Instruction }.Moves g.rules.pool s t)
    (above : g.floor ⊆ known) : Segment g opens (some ⟨t, known⟩) c' := by
  rw [Code.emitU2, be16, Code.yields_put] at run
  subst run
  have one := read_u2 c.pos forms.1 forms.2.1 (n >>> 8).toUInt8 n.toUInt8
  rw [word_be16] at one
  exact h.step one forms.2.1 forms.2.2 (by simpa [entry] using names) fits moves above

theorem emitInterface (run : Yields (Code.emitInterface n words) c y c') (names : g.rules.Names .invokeinterface n)
    (fits : g.rules.typed → depth s ≤ g.rules.limit) (moves : g.rules.typed →
      { pc := c.pos, op := .invokeinterface, index := n.toNat : Instruction }.Moves g.rules.pool s t)
    (above : g.floor ⊆ known) : Segment g opens (some ⟨t, known⟩) c' := by
  unfold Code.emitInterface at run
  split at run
  · simp only [be16, Code.yields_put] at run
    subst run
    have one := read_interface c.pos (n >>> 8).toUInt8 n.toUInt8 (words + 1).toNat.toUInt8 0
    rw [word_be16] at one
    have quiet : Opcode.invokeinterface.isQuiet = true := by decide
    exact h.step one rfl quiet (fun _ => by simpa [entry] using names) fits moves above
  · simp at run

theorem ldc (run : Yields (Code.ldc index isWide) c y c')
    (names : g.rules.Names (if isWide then .ldc2W else .ldc) index ∧ g.rules.Names (if isWide then .ldc2W else .ldcW) index)
    (fits : g.rules.typed → depth s ≤ g.rules.limit)
    (loaded : g.rules.typed → g.rules.pool.loaded? index = some w ∧ (w.size = 2 ↔ isWide = true))
    (above : g.floor ⊆ known) : Segment g opens (some ⟨w :: s, known⟩) c' := by
  have moves : ∀ i : Instruction, i.entry = index → (i.op = .ldc ∨ i.op = .ldcW ∨ i.op = .ldc2W) →
      (i.op = .ldc2W ↔ isWide = true) → g.rules.typed → i.Moves g.rules.pool s (w :: s) := by
    intro i entry op wide typed
    obtain ⟨found, size⟩ := loaded typed
    have effect : i.effect? g.rules.pool = some ⟨[], [w]⟩ := by
      unfold effect?
      rw [if_pos op, entry, found, Option.bind_some, if_pos (size.trans wide.symm)]
    exact .effect s effect
  have narrow : Opcode.ldc ≠ .ldc2W ∧ Opcode.ldcW ≠ .ldc2W := by decide
  unfold Code.ldc at run
  split_ifs at run with wide short
  · rw [if_pos wide] at names
    exact h.emitU2 run (by decide) (fun _ => names.1) fits
      (moves _ (by simp [entry]) (.inr (.inr rfl)) (by simp [wide])) above
  · rw [if_neg wide] at names
    have small : index.toNat ≤ 255 := UInt16.le_iff_toNat_le.mp short
    have same : index.toUInt8.toUInt16 = index := by
      apply UInt16.toNat_inj.mp
      simp
      omega
    refine h.emitU1 run (by decide) (fun _ => same.symm ▸ names.1) fits
      (moves _ ?_ (.inl rfl) (iff_of_false narrow.1 wide)) above
    apply UInt16.toNat_inj.mp
    simp [entry]
    omega
  · rw [if_neg wide, if_neg wide] at names
    exact h.emitU2 run (by decide) (fun _ => names.2) fits
      (moves _ (by simp [entry]) (.inr (.inl rfl)) (iff_of_false narrow.2 wide)) above

end

end Straight

section Slots

variable {s : List Word} {known : Set Nat} {t : JType} {slot : Nat}

theorem load (h : Segment g opens (some ⟨s, known⟩) c) (run : Yields (load t slot) c y c')
    (held : g.rules.holds slot t.kind) (read : g.rules.strict → slot ∈ known) (value : g.rules.typed → t.kind ≠ .void)
    (fits : g.rules.typed → depth s ≤ g.rules.limit) (above : g.floor ⊆ known) :
    Segment g opens (some ⟨t.words ++ s, known⟩) c' := by
  obtain ⟨b, operands, rfl, one⟩ := reads_local true t.kind run
  have form := localForm_shows c.pos (Opcode.access true t.kind) slot
  generalize localForm _ _ _ = i at one form
  obtain ⟨straight, slots, noWrite, effect⟩ := of_access true form
  have moves : g.rules.typed → i.Moves g.rules.pool s (t.words ++ s) := fun typed =>
    .effect s (effect?_of_opcode (effect (value typed)))
  have bare := takesEntry_of_slot (.inl slots)
  refine h.append one ⟨fun strict n hn => ?_, fun n hn => ?_, fits, fun typed => ⟨_, moves typed⟩, by simp [bare]⟩ straight
    (fun _ => ⟨_, rfl, moves, fun _ hs => .inl hs⟩) above
  · rw [slots] at hn
    cases hn
    exact read strict
  · rw [slots, noWrite] at hn
    obtain rfl : slot = n := by simpa using hn
    exact ⟨_, .inr ⟨_, .inl rfl, form⟩, held⟩

theorem store (h : Segment g opens (some ⟨t.words ++ s, known⟩) c)
    (run : Yields (store t slot) c y c') (held : g.rules.holds slot t.kind) (value : g.rules.typed → t.kind ≠ .void)
    (fits : g.rules.typed → depth (t.words ++ s) ≤ g.rules.limit) (above : g.floor ⊆ known)
    (learned : known' ⊆ insert slot known) : Segment g opens (some ⟨s, known'⟩) c' := by
  obtain ⟨b, operands, rfl, one⟩ := reads_local false t.kind run
  have form := localForm_shows c.pos (Opcode.access false t.kind) slot
  generalize localForm _ _ _ = i at one form
  obtain ⟨straight, noRead, slots, effect⟩ := of_access false form
  have moves : g.rules.typed → i.Moves g.rules.pool (t.words ++ s) s := fun typed =>
    .effect s (effect?_of_opcode (effect (value typed)))
  have bare := takesEntry_of_slot (.inr slots)
  refine h.append one ⟨by simp [noRead], fun n hn => ?_, fits, fun typed => ⟨_, moves typed⟩, by simp [bare]⟩ straight
    (fun _ => ⟨_, rfl, moves, fun n hn => ?_⟩) above
  · rw [slots, noRead] at hn
    obtain rfl : slot = n := by simpa using hn
    exact ⟨_, .inr ⟨_, .inr rfl, form⟩, held⟩
  · rcases learned hn with rfl | old
    · exact .inr slots
    · exact .inl old

theorem iinc (h : Segment g opens (some ⟨s, known⟩) c)
    (run : Yields (iinc slot delta) c y c') (held : g.rules.holds slot (.prim .int)) (read : g.rules.strict → slot ∈ known)
    (fits : g.rules.typed → depth s ≤ g.rules.limit) (above : g.floor ⊆ known) :
    Segment g opens (some ⟨s, known⟩) c' := by
  obtain ⟨b, operands, rfl, one⟩ := reads_iinc run
  obtain ⟨op, slots⟩ := iincForm_shows c.pos slot delta
  generalize iincForm _ _ _ = i at one op slots
  have effect : i.op.effect? = some ⟨[], []⟩ := by
    rw [op]
    decide
  have moves : i.Moves g.rules.pool s s := .effect s (effect?_of_opcode effect)
  have bare := takesEntry_of_slot (.inl slots)
  have noWrite : i.writeSlot? = none := by
    rw [writeSlot?, op, if_neg (by decide)]
    rfl
  refine h.append one ⟨fun strict n hn => ?_, fun n hn => ?_, fits, fun _ => ⟨s, moves⟩, by simp [bare]⟩ (by rw [op]; decide)
    (fun _ => ⟨_, rfl, fun _ => moves, fun _ hs => .inl hs⟩) above
  · rw [slots] at hn
    cases hn
    exact read strict
  · rw [slots, noWrite] at hn
    obtain rfl : slot = n := by simpa using hn
    exact ⟨_, .inl ⟨op, rfl⟩, held⟩

end Slots

theorem leave {op : Opcode} (h : Segment g opens (some ⟨s, known⟩) c) (run : Yields (Code.emit op) c y c')
    (terminal : op.isTerminal = true) (length : op.length = 1) (fits : g.rules.typed → depth s ≤ g.rules.limit)
    (moves : g.rules.typed → { pc := c.pos, op : Instruction }.Moves g.rules.pool s t) (above : g.floor ⊆ known) :
    Segment g opens none c' := by
  rw [Code.yields_emit] at run
  subst run
  have quiet : op.isQuiet = true := (Opcode.byte_facts op).2.2.1 terminal
  exact h.append (read_plain c.pos length)
    (.of_quiet quiet fits moves (by simp [Opcode.takesEntry_of_length length]))
    (Opcode.isBranch_of_length length) (fun straight => by simp [terminal] at straight) above

end Segment

end ClassForge

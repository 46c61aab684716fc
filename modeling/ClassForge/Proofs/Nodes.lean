import ClassForge.Assembler.Overload
import ClassForge.Proofs.Descriptors
import ClassForge.Proofs.Emission
import ClassForge.Proofs.Interning
import ClassForge.Proofs.Steps

/-! Methods whose nodes can be emitted. Whatever makes nodes keeps them so. -/

namespace ClassForge

/-- Types that descriptors can spell, and constructors that give nothing back. -/
structure MethodInfo.WellFormed (m : MethodInfo) : Prop where
  ret : m.ret.WellFormed
  params : ∀ t ∈ m.params, t.WellFormed ∧ t.isVoid = false
  constructor : m.isConstructor = true → m.ret.isVoid = true

structure ClassInfo.WellFormed (c : ClassInfo) : Prop where
  fields : ∀ f ∈ c.fields, f.type.WellFormed
  methods : ∀ m ∈ c.methods, m.WellFormed

def Provider.WellFormed (p : Provider) : Prop := ∀ name c, p.find? name = some c → c.WellFormed

namespace Assembler

variable {p : Pool} {ref : UInt16} {v : Value}

/-- How a method is declared, with what is attached and whether it has called the superclass. -/
structure Method.Declaration where
  info : MethodInfo
  superCalled : Bool
  throws : Array (UInt16 × JType)
  annotations : Array AnnotationBytes

def Method.declaration (m : Method) : Method.Declaration := ⟨m.info, m.superCalled, m.throws, m.annotations⟩

/-- What is answered for: types of values, reads of slots, what instructions and handlers refer to,
kept entries, and the declaration of the method. -/
structure Policy where
  typed : Prop
  strict : Prop
  named : Opcode → Reference → Prop
  caught : String → Prop
  kept : Pool
  declared : Method.Declaration → Prop

def methodKind (isInterface : Bool) : RefKind := if isInterface then .interfaceMethod else .method

inductive Boxing : Opcode → Reference → Prop
  | box (p : Prim) : Boxing .invokestatic
      (.member .method p.boxName "valueOf" (JType.methodDescriptor (.ofClass p.boxName) [.ofPrim p]))
  | unbox (p : Prim) : Boxing .invokevirtual
      (.member .method p.boxName (p.name ++ "Value") (JType.methodDescriptor (.ofPrim p) []))

def Method.given (m : Method) : Set Nat := {slot | ∃ l ∈ m.locals, l.param = true ∧ l.slot = slot}

/-- Other locals do not share the slots of the receiver and the parameters. -/
structure Method.Apart (m : Method) : Prop where
  below : ∀ slot ∈ m.given, slot < m.nextSlot
  others : ∀ l ∈ m.locals, l.param = false → l.slot ∉ m.given

def Method.rules (P : Policy) (m : Method) (p : Pool) : Rules :=
  ⟨P.typed, P.strict, p, m.maxStack + Method.stackSlack, m.given,
    fun slot k => ∃ l ∈ m.locals, l.slot = slot ∧ l.type.kind = k, P.named, P.caught⟩

def Work.rules (P : Policy) (w : Work) : Rules := w.method.rules P w.pool

structure Field.Linked (p : Pool) (f : Field) : Prop where
  ref : p.reference? f.fieldref = some (.member .field f.info.owner f.info.name f.info.descriptor)
  init : ∀ v, f.init = some v → v.Linked p f.ref

/-- The initial value of a field is of its type, which descriptors can spell. -/
structure Field.Proper (f : Field) : Prop where
  type : f.info.type.WellFormed
  init : ∀ v, f.init = some v → f.info.type.words = [v.word]

structure Fine (P : Policy) (w : Work) (e : Expr) : Prop where
  good : e.Good (w.rules P)
  reads : ∀ l ∈ e.reads, ∃ x, w.method.locals[l.id]? = some x ∧ x.slot = l.slot
  type : P.typed → e.type.NoVoidArray

structure Typed (ctx : Context) (w : Work) : Prop where
  classes : ctx.lookup.WellFormed
  fields : ∀ f ∈ ctx.fields, f.Proper
  locals : ∀ l ∈ w.method.locals, l.type.kind ≠ .void ∧ l.type.NoVoidArray

structure Sound (P : Policy) (ctx : Context) (w : Work) : Prop where
  nodes : ∀ n ∈ w.method.nodes, Fine P w n.expr
  live : w.method.bodiless = false ∧ w.method.finished = false
  receiver : w.method.info.isStatic = false → 0 ∈ w.method.given ∧ (w.rules P).holds 0 .reference
  constructor : w.method.info.isConstructor = true → w.method.info.isStatic = false
  pool : w.pool.Sound
  kept : P.kept.Le w.pool
  declared : P.declared w.method.declaration
  fields : ∀ f ∈ ctx.fields, f.Linked w.pool
  boxing : ∀ op r, Boxing op r → P.named op r
  apart : w.method.Apart
  typed : P.typed → Typed ctx w

/-! Later work keeps what was fine. -/

def LocalsLe (a b : Array Local) : Prop :=
  ∀ (id : Nat) (x : Local), a[id]? = some x → ∃ y, b[id]? = some y ∧ y.slot = x.slot ∧ y.type = x.type

structure Work.Le (w w' : Work) : Prop where
  pool : w.pool.Le w'.pool
  stack : w.method.maxStack ≤ w'.method.maxStack
  given : w'.method.given = w.method.given
  locals : LocalsLe w.method.locals w'.method.locals
  next : w.method.nextSlot ≤ w'.method.nextSlot
  fresh : ∀ l ∈ w'.method.locals, l.param = false →
    (∃ k ∈ w.method.locals, k.param = false ∧ k.slot = l.slot) ∨ w.method.nextSlot ≤ l.slot

theorem Value.Linked.mono (h : v.Linked p ref) (le : p.Le q) : v.Linked q ref := by
  intro loads
  obtain ⟨r, reference, found⟩ := h loads
  exact ⟨r, reference, le.reference? found⟩

theorem Value.Entered.mono (h : v.Entered p ref) (le : p.Le q) : v.Entered q ref := by
  refine h.imp_right ?_
  rintro ⟨long, entry, r, same, found⟩
  exact ⟨long, entry, r, same, le.reference? found⟩

theorem Value.Named.mono (h : v.Named n) (le : ∀ op r, n op r → n' op r) : v.Named n' := fun r hr op ho => le op r (h r hr op ho)

theorem Field.Linked.mono {f : Field} (h : f.Linked p) (le : p.Le q) : f.Linked q :=
  ⟨le.reference? h.ref, fun v hv => (h.init v hv).mono le⟩

theorem refEffect?_mono (le : R.Le S) (h : refEffect? R op ref = some e) : refEffect? S op ref = some e := le.pool.effect? h

theorem Expr.Good.mono {e : Expr} (h : e.Good R) (le : R.Le S) : e.Good S := by
  induction h with
  | const words linked named => exact .const (words ∘ le.typed) (linked.mono le.pool) (named.mono le.named)
  | self words given held =>
    exact .self (words ∘ le.typed) (fun strict => le.given ▸ given (le.strict strict)) (le.holds _ _ held)
  | «local» held value => exact .local (le.holds _ _ held) (value ∘ le.typed)
  | staticGet names effect =>
    exact .staticGet (le.names names) fun typed => refEffect?_mono le (effect (le.typed typed))
  | primitiveClass names effect =>
    exact .primitiveClass (le.names names) fun typed => refEffect?_mono le (effect (le.typed typed))
  | fieldGet _ names effect ih =>
    exact .fieldGet ih (le.names names) fun typed => refEffect?_mono le (effect (le.typed typed))
  | arrayGet _ _ effect iha ihi => exact .arrayGet iha ihi (effect ∘ le.typed)
  | arrayLength _ words ih => exact .arrayLength ih (words ∘ le.typed)
  | invoke _ op names effect ih =>
    exact .invoke ih op (le.names names) fun typed => refEffect?_mono le (effect (le.typed typed))
  | new _ created called effect ih =>
    exact .new ih (le.names created) (le.names called) fun typed => ⟨(effect (le.typed typed)).1, refEffect?_mono le (effect (le.typed typed)).2⟩
  | newArray _ names words ih =>
    exact .newArray ih (fun reference => le.names (names reference)) (words ∘ le.typed)
  | convert _ plain chain ih => exact .convert ih plain (chain ∘ le.typed)
  | checkCast _ names words ih => exact .checkCast ih (le.names names) (words ∘ le.typed)
  | neg _ effect ih => exact .neg ih (effect ∘ le.typed)
  | not _ words ih => exact .not ih (words ∘ le.typed)
  | binary _ _ plain effect iha ihb => exact .binary iha ihb plain (effect ∘ le.typed)
  | compare _ _ equality words iha ihb => exact .compare iha ihb equality (words ∘ le.typed)
  | nullTest _ words ih => exact .nullTest ih (words ∘ le.typed)
  | instanceOf _ names words ih => exact .instanceOf ih (le.names names) (words ∘ le.typed)
  | logic _ _ words iha ihb => exact .logic iha ihb (words ∘ le.typed)
  | concat _ _ names effects iha ihb =>
    obtain ⟨builder, start, one, two, last⟩ := names
    refine .concat iha ihb ⟨le.names builder, le.names start, le.names one, le.names two, le.names last⟩
      fun typed => ?_
    obtain ⟨init, first, second, finish⟩ := effects (le.typed typed)
    exact ⟨refEffect?_mono le init, refEffect?_mono le first, refEffect?_mono le second,
      refEffect?_mono le finish⟩

namespace Work.Le

variable {P : Policy} {u v w : Work} {e : Expr}

theorem of_locals (pool : v.pool.Le w.pool) (stack : v.method.maxStack ≤ w.method.maxStack)
    (locals : w.method.locals = v.method.locals) (next : w.method.nextSlot = v.method.nextSlot) : v.Le w where
  pool := pool
  stack := stack
  given := by rw [Method.given, locals]; rfl
  locals _ x h := ⟨x, locals ▸ h, rfl, rfl⟩
  next := Nat.le_of_eq next.symm
  fresh l hl other := .inl ⟨l, locals ▸ hl, other, rfl⟩

theorem refl (w : Work) : w.Le w := .of_locals (.refl _) (Nat.le_refl _) rfl rfl

theorem trans (h : u.Le v) (k : v.Le w) : u.Le w where
  pool := h.pool.trans k.pool
  stack := Nat.le_trans h.stack k.stack
  given := k.given.trans h.given
  locals id x hx := by
    obtain ⟨y, hy, slot, type⟩ := h.locals id x hx
    obtain ⟨z, hz, slot', type'⟩ := k.locals id y hy
    exact ⟨z, hz, slot'.trans slot, type'.trans type⟩
  next := Nat.le_trans h.next k.next
  fresh l hl other := by
    rcases k.fresh l hl other with ⟨x, hx, other', slot⟩ | new
    · exact slot ▸ h.fresh x hx other'
    · exact .inr (Nat.le_trans h.next new)

theorem apart (h : v.Le w) (apart : v.method.Apart) : w.method.Apart where
  below slot hs := Nat.lt_of_lt_of_le (apart.below slot (h.given ▸ hs)) h.next
  others l hl other := by
    rw [h.given]
    rcases h.fresh l hl other with ⟨x, hx, other', slot⟩ | new
    · exact slot ▸ apart.others x hx other'
    · exact fun given => Nat.not_lt.mpr new (apart.below _ given)

theorem holds (h : v.Le w) (slot : Nat) (k : Kind) (held : ∃ l ∈ v.method.locals, l.slot = slot ∧ l.type.kind = k) :
    ∃ l ∈ w.method.locals, l.slot = slot ∧ l.type.kind = k := by
  obtain ⟨l, hl, rfl, rfl⟩ := held
  obtain ⟨id, found⟩ := Array.mem_iff_getElem?.mp hl
  obtain ⟨x, hx, slot, type⟩ := h.locals id l found
  exact ⟨x, Array.mem_of_getElem? hx, slot, by rw [type]⟩

theorem rules (h : v.Le w) (P : Policy) : (v.rules P).Le (w.rules P) :=
  ⟨id, id, h.given, h.holds, Nat.add_le_add_right h.stack _, h.pool, fun _ _ => id, fun _ => id⟩

theorem fine (h : v.Le w) (fine : Fine P v e) : Fine P w e where
  good := fine.good.mono (h.rules P)
  reads l hl := by
    obtain ⟨x, hx, slot⟩ := fine.reads l hl
    obtain ⟨y, hy, same, -⟩ := h.locals _ x hx
    exact ⟨y, hy, same.trans slot⟩
  type := fine.type

end Work.Le

/-- Only nodes and pool entries were added, and the nodes are fine. -/
structure Made (P : Policy) (ctx : Context) (w w' : Work) : Prop where
  same : w' = ⟨{ w.method with nodes := w'.method.nodes }, w'.pool, w.line, w.trail⟩
  pool : w.pool.Le w'.pool
  sound : Sound P ctx w'

namespace Made

variable {P : Policy} {ctx : Context} {u v w : Work} {e : Expr}

theorem refl (sound : Sound P ctx w) : Made P ctx w w := ⟨rfl, .refl _, sound⟩

theorem method (h : Made P ctx v w) : w.method = { v.method with nodes := w.method.nodes } :=
  congrArg Work.method h.same

theorem trans (h : Made P ctx u v) (k : Made P ctx v w) : Made P ctx u w where
  same := by
    rw [k.same, h.same]
  pool := h.pool.trans k.pool
  sound := k.sound

theorem le (h : Made P ctx v w) : v.Le w :=
  .of_locals h.pool (by rw [h.method]) (by rw [h.method]) (by rw [h.method])

theorem fine (h : Made P ctx v w) (fine : Fine P v e) : Fine P w e := h.le.fine fine

end Made

/-! Steps that make nodes and entries. -/

section

variable {P : Policy} {ctx : Context} {w w' : Work} {nodes : Array Node} {p : Expr → Prop}

theorem of_modify {xs : Array α} (found : (xs.modify i f)[j]? = some y) :
    (i = j ∧ ∃ x, xs[j]? = some x ∧ f x = y) ∨ xs[j]? = some y := by
  rw [Array.getElem?_modify] at found
  split_ifs at found with same
  · exact .inl ⟨same, Option.map_eq_some_iff.mp found⟩
  · exact .inr found

theorem forall_modify_at {xs : Array α} {p : α → Prop} (h : ∀ x ∈ xs, p x) (k : ∀ x, xs[i]? = some x → p (f x)) :
    ∀ y ∈ xs.modify i f, p y := by
  intro y hy
  obtain ⟨j, found⟩ := Array.mem_iff_getElem?.mp hy
  obtain ⟨rfl, x, there, rfl⟩ | kept := of_modify found
  · exact k x there
  · exact h y (Array.mem_of_getElem? kept)

theorem forall_modify {xs : Array α} {p : α → Prop} (h : ∀ x ∈ xs, p x) (k : ∀ x ∈ xs, p (f x)) :
    ∀ y ∈ xs.modify i f, p y :=
  forall_modify_at h fun x there => k x (Array.mem_of_getElem? there)

theorem forall_push {xs : Array α} {p : α → Prop} (h : ∀ x ∈ xs, p x) (new : p a) : ∀ x ∈ xs.push a, p x := by
  intro x hx
  rcases Array.mem_push.mp hx with old | rfl
  · exact h x old
  · exact new

theorem forall_owned (ids : List Nat) (owner : Nat)
    (h : ∀ n ∈ nodes, p n.expr) : ∀ n ∈ Step.owned ids owner nodes, p n.expr := by
  induction ids generalizing nodes with
  | nil => exact h
  | cons i ids ih => exact ih (forall_modify h h)

namespace Sound

variable {t x : Term} {e : Expr} {y : Unit}

section

variable (sound : Sound P ctx w)

include sound

theorem withNodes (fine : ∀ n ∈ nodes, Fine P w n.expr) :
    Made P ctx w { w with method := { w.method with nodes } } where
  same := rfl
  pool := .refl _
  sound :=
    { sound with
      nodes := fun n hn => ⟨(fine n hn).good, (fine n hn).reads, (fine n hn).type⟩
      apart := ⟨sound.apart.below, sound.apart.others⟩
      typed := fun typed => ⟨(sound.typed typed).classes, (sound.typed typed).fields, (sound.typed typed).locals⟩ }

theorem node (fine : Fine P w e) (run : Step.Gives ctx (Step.node e operands) w t w') : Made P ctx w w' ∧ t.expr = e := by
  obtain ⟨rfl, rfl⟩ := Step.gives_node.mp run
  exact ⟨sound.withNodes (forall_push (forall_owned _ _ sound.nodes) fine), rfl⟩

theorem own (run : Step.Gives ctx (Step.own t) w y w') : Made P ctx w w' := by
  rw [Step.gives_own] at run
  subst run
  exact sound.withNodes (forall_modify sound.nodes sound.nodes)

theorem consume (run : Step.Gives ctx (Step.consume t) w y w') : Made P ctx w w' := by
  rw [Step.gives_consume] at run
  subst run
  exact sound.withNodes (forall_modify sound.nodes sound.nodes)

theorem replace (fine : Fine P w e)
    (run : Step.Gives ctx (Step.replace t e) w x w') : Made P ctx w w' ∧ x.expr = e := by
  obtain ⟨rfl, rfl⟩ := Step.gives_replace.mp run
  exact ⟨sound.withNodes (forall_modify sound.nodes fun _ _ => fine), rfl⟩

theorem intern {a : Pool.Action α} {found : Pool → α → Prop} {x : α} (interns : Pool.Interns a found)
    (run : Step.Gives ctx (Step.pool a) w x w') : Made P ctx w w' ∧ found w'.pool x := by
  obtain ⟨p, ran, rfl⟩ := Step.gives_pool.mp run
  have le : w.Le { w with pool := p } := .of_locals (interns.grows ran) (Nat.le_refl _) rfl rfl
  obtain ⟨grown, found⟩ := interns.finds ran sound.pool
  refine ⟨⟨rfl, le.pool, ?_⟩, found⟩
  exact
    { sound with
      nodes := fun n hn => le.fine (sound.nodes n hn)
      pool := grown
      kept := sound.kept.trans le.pool
      fields := fun f hf => (sound.fields f hf).mono le.pool
      apart := ⟨sound.apart.below, sound.apart.others⟩
      typed := fun typed => ⟨(sound.typed typed).classes, (sound.typed typed).fields, (sound.typed typed).locals⟩ }

end

end Sound

def Claimed (w : Work) (o : Operand) (t : Term) : Prop :=
  o = .node t.id ∧ ∃ n, w.method.nodes[t.id]? = some n ∧ n.expr = t.expr

theorem Sound.claimed (sound : Sound P ctx w) (h : Claimed w o t) : Fine P w t.expr := by
  obtain ⟨-, n, found, same⟩ := h
  exact same ▸ sound.nodes n (Array.mem_of_getElem? found)

namespace Step

variable {a b c : Operand}

theorem of_claimFrom (run : Gives ctx (claimFrom position seen operands) w ts w') :
    w = w' ∧ List.Forall₂ (Claimed w) operands ts := by
  induction operands generalizing position seen ts w' with
  | nil =>
    obtain ⟨rfl, rfl⟩ := run
    exact ⟨rfl, .nil⟩
  | cons o operands ih =>
    cases o with
    | missing | foreign => simp [claimFrom] at run
    | node id =>
      simp only [claimFrom, gives_bind, gives_method, looked] at run
      split at run
      · simp at run
      · rename_i n found
        split_ifs at run with owned twice
        · simp at run
        · simp at run
        · simp only [gives_bind, gives_pure] at run
          obtain ⟨rest, v, run, rfl, rfl⟩ := run
          obtain ⟨rfl, claimed⟩ := ih run
          exact ⟨rfl, .cons ⟨rfl, n, found, rfl⟩ claimed⟩

theorem of_claimAll (run : Gives ctx (claimAll operands) w ts w') :
    w = w' ∧ List.Forall₂ (Claimed w) operands ts := of_claimFrom run

theorem of_claim (run : Gives ctx (claim a) w t w') : w = w' ∧ Claimed w a t := by
  simp only [claim, gives_bind] at run
  obtain ⟨ts, v, all, run⟩ := run
  obtain ⟨rfl, claimed⟩ := of_claimAll all
  cases claimed with
  | cons first rest =>
    cases rest
    obtain ⟨rfl, rfl⟩ := run
    exact ⟨rfl, first⟩

theorem of_claim2 (run : Gives ctx (claim2 a b) w t w') : w = w' ∧ Claimed w a t.1 ∧ Claimed w b t.2 := by
  simp only [claim2, gives_bind] at run
  obtain ⟨ts, v, all, run⟩ := run
  obtain ⟨rfl, claimed⟩ := of_claimAll all
  cases claimed with
  | cons first rest =>
    cases rest with
    | cons second rest =>
      cases rest
      obtain ⟨rfl, rfl⟩ := run
      exact ⟨rfl, first, second⟩

theorem of_claim3 (run : Gives ctx (claim3 a b c) w t w') :
    w = w' ∧ Claimed w a t.1 ∧ Claimed w b t.2.1 ∧ Claimed w c t.2.2 := by
  simp only [claim3, gives_bind] at run
  obtain ⟨ts, v, all, run⟩ := run
  obtain ⟨rfl, claimed⟩ := of_claimAll all
  cases claimed with
  | cons first rest =>
    cases rest with
    | cons second rest =>
      cases rest with
      | cons third rest =>
        cases rest
        obtain ⟨rfl, rfl⟩ := run
        exact ⟨rfl, first, second, third⟩

end Step

end

end Assembler

end ClassForge

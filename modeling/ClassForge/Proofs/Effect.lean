import ClassForge.ClassFile.Instruction
import ClassForge.ClassFile.Pool
import ClassForge.JType.Descriptor
import Mathlib.Algebra.GroupWithZero.Nat
import Mathlib.Tactic.SplitIfs

/-! What instructions do to the operand stack and to the local slots. -/

namespace ClassForge

open Option

inductive Word
  | int | long | float | double | reference
  deriving DecidableEq, Repr

namespace Word

def size : Word → Nat
  | .long | .double => 2
  | _ => 1

def ofFamily : Nat → Word
  | 0 => .int
  | 1 => .long
  | 2 => .float
  | 3 => .double
  | _ => .reference

def depth (s : List Word) : Nat := (s.map size).sum

@[simp] theorem depth_nil : depth [] = 0 := rfl

@[simp] theorem depth_cons (w : Word) (s : List Word) : depth (w :: s) = w.size + depth s := by
  simp [depth]

@[simp] theorem depth_append (s t : List Word) : depth (s ++ t) = depth s + depth t := by
  simp [depth]

end Word

def Kind.words : Kind → List Word
  | .void => []
  | .prim .long => [.long]
  | .prim .float => [.float]
  | .prim .double => [.double]
  | .reference => [.reference]
  | .prim _ => [.int]

namespace JType

def words (t : JType) : List Word := t.kind.words

theorem depth_words (t : JType) : Word.depth t.words = t.slots := by
  unfold words slots isVoid isWide
  cases t.kind with
  | void => rfl
  | prim p => cases p <;> rfl
  | reference => rfl

theorem words_cases (t : JType) : t.slots = 0 ∧ t.words = [] ∨
    (∃ w, t.slots = 1 ∧ t.words = [w] ∧ w.size = 1) ∨ ∃ w, t.slots = 2 ∧ t.words = [w] ∧ w.size = 2 := by
  rw [← depth_words]
  unfold words
  cases t.kind with
  | void => exact .inl ⟨rfl, rfl⟩
  | reference => exact .inr (.inl ⟨_, rfl, rfl, rfl⟩)
  | prim p =>
    cases p with
    | long | double => exact .inr (.inr ⟨_, rfl, rfl, rfl⟩)
    | _ => exact .inr (.inl ⟨_, rfl, rfl, rfl⟩)

end JType

@[simp] theorem JType.kind_ofClass (name : String) : (JType.ofClass name).kind = .reference := by
  unfold ofClass kind Base.ofName
  split_ifs <;> rfl

@[simp] theorem JType.words_ofClass (name : String) : (JType.ofClass name).words = [.reference] := by
  rw [words, kind_ofClass]
  rfl

@[simp] theorem JType.slots_ofClass (name : String) : (JType.ofClass name).slots = 1 := by
  rw [← depth_words, words_ofClass]
  rfl

/-- What an instruction takes from the stack and puts on it, each with the top first. -/
structure Effect where
  pops : List Word
  pushes : List Word
  deriving DecidableEq, Repr

/-- Runs of instructions with effects of one form: the first, their number, and each effect by its
distance from the first. -/
def Effect.table : List (Opcode × Nat × (Nat → Effect)) :=
  let typed (n : Nat) : Word := .ofFamily n
  let element (n : Nat) : Word := if n ≤ 4 then .ofFamily n else .int
  [(.nop, 1, fun _ => ⟨[], []⟩),
   (.aconstNull, 1, fun _ => ⟨[], [.reference]⟩),
   (.iconstM1, 7, fun _ => ⟨[], [.int]⟩),
   (.lconst0, 2, fun _ => ⟨[], [.long]⟩),
   (.fconst0, 3, fun _ => ⟨[], [.float]⟩),
   (.dconst0, 2, fun _ => ⟨[], [.double]⟩),
   (.bipush, 2, fun _ => ⟨[], [.int]⟩),
   (.iload, 5, fun n => ⟨[], [typed n]⟩),
   (.iload0, 20, fun n => ⟨[], [typed (n / 4)]⟩),
   (.iaload, 8, fun n => ⟨[.int, .reference], [element n]⟩),
   (.istore, 5, fun n => ⟨[typed n], []⟩),
   (.istore0, 20, fun n => ⟨[typed (n / 4)], []⟩),
   (.iastore, 8, fun n => ⟨[element n, .int, .reference], []⟩),
   (.iadd, 20, fun n => ⟨[typed (n % 4), typed (n % 4)], [typed (n % 4)]⟩),
   (.ineg, 4, fun n => ⟨[typed n], [typed n]⟩),
   (.ishl, 6, fun n => ⟨[.int, typed (n % 2)], [typed (n % 2)]⟩),
   (.iand, 6, fun n => ⟨[typed (n % 2), typed (n % 2)], [typed (n % 2)]⟩),
   (.iinc, 1, fun _ => ⟨[], []⟩),
   (.i2l, 12, fun n => ⟨[typed (n / 3)], [typed (if n % 3 < n / 3 then n % 3 else n % 3 + 1)]⟩),
   (.i2b, 3, fun _ => ⟨[.int], [.int]⟩),
   (.lcmp, 1, fun _ => ⟨[.long, .long], [.int]⟩),
   (.fcmpl, 2, fun _ => ⟨[.float, .float], [.int]⟩),
   (.dcmpl, 2, fun _ => ⟨[.double, .double], [.int]⟩),
   (.ifeq, 6, fun _ => ⟨[.int], []⟩),
   (.ifIcmpeq, 6, fun _ => ⟨[.int, .int], []⟩),
   (.ifAcmpeq, 2, fun _ => ⟨[.reference, .reference], []⟩),
   (.goto, 1, fun _ => ⟨[], []⟩),
   (.ireturn, 5, fun n => ⟨[typed n], []⟩),
   (.voidReturn, 1, fun _ => ⟨[], []⟩),
   (.new, 1, fun _ => ⟨[], [.reference]⟩),
   (.newarray, 2, fun _ => ⟨[.int], [.reference]⟩),
   (.arraylength, 1, fun _ => ⟨[.reference], [.int]⟩),
   (.athrow, 1, fun _ => ⟨[.reference], []⟩),
   (.checkcast, 1, fun _ => ⟨[.reference], [.reference]⟩),
   (.instanceof, 1, fun _ => ⟨[.reference], [.int]⟩),
   (.ifnull, 2, fun _ => ⟨[.reference], []⟩)]

def Opcode.effect? (op : Opcode) : Option Effect :=
  Effect.table.findSome? fun (first, count, effect) =>
    let n := op.byte.toNat
    let start := first.byte.toNat
    if start ≤ n ∧ n < start + count then some (effect (n - start)) else none

/-! Loads and stores of the first four slots have no operand. -/

def Opcode.ownSlot? (first op : Opcode) : Option Nat :=
  if first.byte ≤ op.byte ∧ op.byte - first.byte < 20 then some ((op.byte - first.byte).toNat % 4) else none

def Opcode.ownLoad? (op : Opcode) : Option Nat := ownSlot? iload0 op
def Opcode.ownStore? (op : Opcode) : Option Nat := ownSlot? istore0 op

/-- What an entry of the pool stands for, with the names that it leads to spelled out. -/
inductive Reference
  | integer (value : UInt32)
  | float (bits : UInt32)
  | long (value : UInt64)
  | double (bits : UInt64)
  | text (s : String)
  | type (name : String)
  | member (kind : RefKind) (owner name descriptor : String)
  deriving DecidableEq, Repr

def Reference.word? : Reference → Option Word
  | .integer _ => some .int
  | .float _ => some .float
  | .long _ => some .long
  | .double _ => some .double
  | .text _ | .type _ => some .reference
  | .member .. => none

def Reference.descriptor? : Reference → Option String
  | .member _ _ _ descriptor => some descriptor
  | _ => none

namespace Pool

def text? (p : Pool) (index : UInt16) : Option String :=
  match p.get? index with
  | some (.utf8 s) => some s
  | _ => none

def className? (p : Pool) (index : UInt16) : Option String :=
  match p.get? index with
  | some (.classRef name) => p.text? name
  | _ => none

def nameAndType? (p : Pool) (index : UInt16) : Option (String × String) :=
  match p.get? index with
  | some (.nameAndType name descriptor) => (p.text? name).bind fun n => (p.text? descriptor).map fun d => (n, d)
  | _ => none

def reference? (p : Pool) (index : UInt16) : Option Reference :=
  match p.get? index with
  | some (.integer v) => some (.integer v)
  | some (.float b) => some (.float b)
  | some (.long v) => some (.long v)
  | some (.double b) => some (.double b)
  | some (.string s) => (p.text? s).map .text
  | some (.classRef name) => (p.text? name).map .type
  | some (.member kind owner nameAndType) =>
    (p.className? owner).bind fun o => (p.nameAndType? nameAndType).map fun nt => .member kind o nt.1 nt.2
  | _ => none

def descriptor? (p : Pool) (index : UInt16) : Option String := (p.reference? index).bind Reference.descriptor?

theorem descriptor?_of_reference? {p : Pool} (found : p.reference? index = some (.member kind owner name descriptor)) :
    p.descriptor? index = some descriptor := by
  rw [descriptor?, found]
  rfl

def loaded? (p : Pool) (index : UInt16) : Option Word := (p.reference? index).bind Reference.word?

def fieldWords? (p : Pool) (index : UInt16) : Option (List Word) :=
  match (p.descriptor? index).map JType.parseDescriptor with
  | some (.ok t) => some t.words
  | _ => none

/-- What a call of the entry's method takes, the last argument on top, and what it leaves. -/
def callEffect? (p : Pool) (index : UInt16) : Option Effect :=
  match (p.descriptor? index).map JType.parseMethodDescriptor with
  | some (.ok (ret, params)) => some ⟨params.reverse.flatMap JType.words, ret.words⟩
  | _ => none

end Pool

def Opcode.takesEntry (op : Opcode) : Bool :=
  [ldc, ldcW, ldc2W, getstatic, putstatic, getfield, putfield, invokevirtual, invokespecial, invokestatic,
    invokeinterface, new, anewarray, checkcast, instanceof].contains op

namespace Instruction

def entry (i : Instruction) : UInt16 := i.index.toNat.toUInt16

/-- The effect of an instruction: with an entry, read from that. Instructions that move any word
have none. -/
def effect? (p : Pool) (i : Instruction) : Option Effect :=
  if i.op = .ldc ∨ i.op = .ldcW ∨ i.op = .ldc2W then
    (p.loaded? i.entry).bind fun w =>
      if w.size = 2 ↔ i.op = .ldc2W then some ⟨[], [w]⟩ else none
  else if i.op = .getstatic then (p.fieldWords? i.entry).map fun ws => ⟨[], ws⟩
  else if i.op = .putstatic then (p.fieldWords? i.entry).map fun ws => ⟨ws, []⟩
  else if i.op = .getfield then (p.fieldWords? i.entry).map fun ws => ⟨[.reference], ws⟩
  else if i.op = .putfield then (p.fieldWords? i.entry).map fun ws => ⟨ws ++ [.reference], []⟩
  else if i.op = .invokestatic then p.callEffect? i.entry
  else if i.op = .invokevirtual ∨ i.op = .invokespecial ∨ i.op = .invokeinterface then
    (p.callEffect? i.entry).map fun e => ⟨e.pops ++ [.reference], e.pushes⟩
  else i.op.effect?

inductive Moves (p : Pool) (i : Instruction) : List Word → List Word → Prop
  | effect {e : Effect} (s : List Word) : i.effect? p = some e → Moves p i (e.pops ++ s) (e.pushes ++ s)
  | dup {w : Word} (s : List Word) : i.op = .dup → w.size = 1 → Moves p i (w :: s) (w :: w :: s)
  | pop {w : Word} (s : List Word) : i.op = .pop → w.size = 1 → Moves p i (w :: s) s
  | pop2 {w : Word} (s : List Word) : i.op = .pop2 → w.size = 2 → Moves p i (w :: s) s

theorem Moves.of_effect (s : List Word) (h : i.effect? p = some e) (pops : before = e.pops ++ s)
    (pushes : after = e.pushes ++ s) : Moves p i before after := by
  subst pops pushes
  exact .effect s h

end Instruction

theorem map_keeps {x y : Option α} (more : ∀ a, x = some a → y = some a) (found : x.map f = some b) : y.map f = some b := by
  obtain ⟨a, there, rest⟩ := map_eq_some_iff.mp found
  exact map_eq_some_iff.mpr ⟨a, more a there, rest⟩

theorem bind_keeps {x y : Option α} (more : ∀ a, x = some a → y = some a) (next : ∀ a, f a = some b → g a = some b)
    (found : x.bind f = some b) : y.bind g = some b := by
  obtain ⟨a, there, rest⟩ := bind_eq_some_iff.mp found
  exact bind_eq_some_iff.mpr ⟨a, more a there, next a rest⟩

def Pool.Le (p q : Pool) : Prop := ∀ index c, p.get? index = some c → q.get? index = some c

namespace Pool.Le

variable {p q : Pool} {e : Effect} {i : Instruction} {s : String} {index : UInt16}

theorem refl (p : Pool) : p.Le p := fun _ _ h => h

section

variable (h : p.Le q)

include h

theorem trans (k : q.Le r) : p.Le r := fun index c found => k index c (h index c found)

theorem text? (found : p.text? index = some s) : q.text? index = some s := by
  unfold Pool.text? at found ⊢
  split at found
  · rename_i s' entry
    rw [h _ _ entry]
    exact found
  · cases found

theorem className? (found : p.className? index = some s) : q.className? index = some s := by
  unfold Pool.className? at found ⊢
  split at found
  · rename_i name entry
    rw [h _ _ entry]
    exact h.text? found
  · cases found

theorem nameAndType? (found : p.nameAndType? index = some nt) : q.nameAndType? index = some nt := by
  unfold Pool.nameAndType? at found ⊢
  split at found
  · rename_i name descriptor entry
    rw [h _ _ entry]
    exact bind_keeps (fun _ => h.text?) (fun _ => map_keeps fun _ => h.text?) found
  · cases found

theorem reference? (found : p.reference? index = some r) : q.reference? index = some r := by
  unfold Pool.reference? at found ⊢
  cases entry : p.get? index with
  | none => simp [entry] at found
  | some c =>
    rw [entry] at found
    rw [h _ _ entry]
    cases c with
    | integer | float | long | double | utf8 | nameAndType => exact found
    | string | classRef => exact map_keeps (fun _ => h.text?) found
    | member => exact bind_keeps (fun _ => h.className?) (fun _ => map_keeps fun _ => h.nameAndType?) found

theorem descriptor? (found : p.descriptor? index = some s) : q.descriptor? index = some s :=
  bind_keeps (fun _ => h.reference?) (fun _ => id) found

theorem loaded? (found : p.loaded? index = some w) : q.loaded? index = some w :=
  bind_keeps (fun _ => h.reference?) (fun _ => id) found

theorem fieldWords? (found : p.fieldWords? index = some ws) : q.fieldWords? index = some ws := by
  unfold Pool.fieldWords? at found ⊢
  cases entry : p.descriptor? index with
  | none => simp [entry] at found
  | some s =>
    rw [entry] at found
    rw [h.descriptor? entry]
    exact found

theorem callEffect? (found : p.callEffect? index = some e) : q.callEffect? index = some e := by
  unfold Pool.callEffect? at found ⊢
  cases entry : p.descriptor? index with
  | none => simp [entry] at found
  | some s =>
    rw [entry] at found
    rw [h.descriptor? entry]
    exact found

theorem effect? (found : i.effect? p = some e) : i.effect? q = some e := by
  have field {f : List Word → Effect} (found : (p.fieldWords? i.entry).map f = some e) :
      (q.fieldWords? i.entry).map f = some e := map_keeps (fun _ => h.fieldWords?) found
  unfold Instruction.effect? at found ⊢
  split_ifs at found ⊢ with load get put getField putField static call
  · exact bind_keeps (fun _ => h.loaded?) (fun _ => id) found
  · exact field found
  · exact field found
  · exact field found
  · exact field found
  · exact h.callEffect? found
  · exact map_keeps (fun _ => h.callEffect?) found
  · exact found

theorem moves {s t : List Word} (m : i.Moves p s t) : i.Moves q s t := by
  cases m with
  | effect _ found => exact .effect _ (h.effect? found)
  | dup _ op one => exact .dup _ op one
  | pop _ op one => exact .pop _ op one
  | pop2 _ op two => exact .pop2 _ op two

end

end Pool.Le

namespace Instruction

def readSlot? (i : Instruction) : Option Nat :=
  if Opcode.iload.byte ≤ i.op.byte ∧ i.op.byte ≤ Opcode.aload.byte then some i.index.toNat
  else if i.op = .iinc then some (if i.wide then i.index.toNat else i.index.toNat / 256)
  else i.op.ownLoad?

def writeSlot? (i : Instruction) : Option Nat :=
  if Opcode.istore.byte ≤ i.op.byte ∧ i.op.byte ≤ Opcode.astore.byte then some i.index.toNat
  else i.op.ownStore?

/-- The instruction loads, stores or adds to a value of the kind in the slot. -/
def Touches (i : Instruction) (slot : Nat) (k : Kind) : Prop :=
  i.op = .iinc ∧ k = .prim .int ∨ ∃ f, (f = Opcode.load k ∨ f = Opcode.store k) ∧
    (i.op = f.1 ∧ i.index = slot ∨ i.op = f.2.plus slot.toUInt8 ∧ slot ≤ 3)

structure SameForm (i j : Instruction) : Prop where
  op : i.op = j.op
  wide : i.wide = j.wide
  index : i.index = j.index

namespace SameForm

variable {i j k : Instruction}

theorem refl (i : Instruction) : SameForm i i := ⟨rfl, rfl, rfl⟩

theorem trans (h : SameForm i j) (g : SameForm j k) : SameForm i k :=
  ⟨h.op.trans g.op, h.wide.trans g.wide, h.index.trans g.index⟩

theorem readSlot? (h : SameForm i j) : i.readSlot? = j.readSlot? := by
  simp only [Instruction.readSlot?, h.op, h.wide, h.index]

theorem writeSlot? (h : SameForm i j) : i.writeSlot? = j.writeSlot? := by
  simp only [Instruction.writeSlot?, h.op, h.index]

theorem effect? (h : SameForm i j) (p : Pool) : i.effect? p = j.effect? p := by
  simp only [Instruction.effect?, Instruction.entry, h.op, h.index]

theorem moves (h : SameForm i j) (m : j.Moves p s t) : i.Moves p s t := by
  cases m with
  | effect _ found => exact .effect _ (by rw [h.effect?, found])
  | dup _ op one => exact .dup _ (h.op.trans op) one
  | pop _ op one => exact .pop _ (h.op.trans op) one
  | pop2 _ op two => exact .pop2 _ (h.op.trans op) two

end SameForm

end Instruction

end ClassForge

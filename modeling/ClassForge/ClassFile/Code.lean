import ClassForge.ClassFile.Writer
import ClassForge.Diagnostic.Code
import ClassForge.Opcode

namespace ClassForge

/-- The instruction bytes of a body with its open branch sites, most recent first. A site is the
position of a branch whose offset is still to be written. -/
structure Code where
  bytes : Array UInt8 := #[]
  sites : List Nat := []

namespace Code

inductive Fault
  | interfaceSlots (slots : Int)
  | negativeSlot (slot : Int)
  | slotRange (slot : Int)
  | incrementRange (delta : Int)
  | swapUnderflow (sites : Nat)
  | noOpenSite
  | branchTooFar (site target : Int)
  | prependOpen (sites : Nat)
  deriving DecidableEq, Repr

def Fault.code : Fault → Diagnostic.Code
  | .interfaceSlots _ => .argumentMismatch
  | .negativeSlot _ | .slotRange _ => .tooManyLocals
  | .incrementRange _ => .operandMismatch
  | .swapUnderflow _ | .noOpenSite | .prependOpen _ => .patchUnderflow
  | .branchTooFar _ _ => .branchTooFar

def Fault.message : Fault → String
  | .interfaceSlots n => s!"invokeinterface argument slots {n}: out of range"
  | .negativeSlot n => s!"negative local slot {n}"
  | .slotRange n => s!"local slot {n}: out of range"
  | .incrementRange n => s!"iinc delta {n}: out of range"
  | .swapUnderflow n => s!"swap needs two open sites, have {n}"
  | .noOpenSite => "no open patch site"
  | .branchTooFar s t => s!"branch at {s} to {t}: out of range"
  | .prependOpen n => s!"prepend with {n} open patch sites"

def empty : Code := {}

instance : Inhabited Code := ⟨empty⟩

def pos (c : Code) : Nat := c.bytes.size

abbrev Action (α : Type) := ExceptT Fault (StateM Code) α

def put (bs : List UInt8) : Action Unit := modify fun ⟨bytes, sites⟩ => ⟨bytes.appendList bs, sites⟩

def emit (op : Opcode) : Action Unit := modify fun ⟨bytes, sites⟩ => ⟨bytes.push op.byte, sites⟩

def emitU1 (op : Opcode) (n : UInt8) : Action Unit := put [op.byte, n]

def emitU2 (op : Opcode) (n : UInt16) : Action Unit := put (op.byte :: be16 n)

def emitInterface (index : UInt16) (argSlots : Int) : Action Unit :=
  if 0 ≤ argSlots + 1 ∧ argSlots + 1 < 256 then
    put (Opcode.invokeinterface.byte :: be16 index ++ [(argSlots + 1).toNat.toUInt8, 0])
  else throw (.interfaceSlots argSlots)

/-- A load or store: the short form for slots 0 to 3, a byte operand up to 255, else the wide form. -/
def emitLocal (op short : Opcode) (slot : Int) : Action Unit :=
  if slot < 0 then throw (.negativeSlot slot)
  else if slot ≤ 3 then emit (short.plus slot.toNat.toUInt8)
  else if slot ≤ 255 then emitU1 op slot.toNat.toUInt8
  else if slot < 65536 then put (Opcode.wide.byte :: op.byte :: be16 slot.toNat.toUInt16)
  else throw (.slotRange slot)

def load (t : JType) (slot : Int) : Action Unit :=
  emitLocal (Opcode.load t.kind).1 (Opcode.load t.kind).2 slot

def store (t : JType) (slot : Int) : Action Unit :=
  emitLocal (Opcode.store t.kind).1 (Opcode.store t.kind).2 slot

def low16 (n : Int) : UInt16 := UInt16.ofNat (n % 65536).toNat

/-- Adds a constant to an int local; the wide form where slot or constant need it. -/
def iinc (slot delta : Int) : Action Unit :=
  if 0 ≤ slot ∧ slot ≤ 255 ∧ -128 ≤ delta ∧ delta ≤ 127 then
    put [Opcode.iinc.byte, slot.toNat.toUInt8, (low16 delta).toUInt8]
  else if slot < 0 ∨ 65535 < slot then throw (.slotRange slot)
  else if delta < -32768 ∨ 32767 < delta then throw (.incrementRange delta)
  else put (Opcode.wide.byte :: Opcode.iinc.byte :: be16 slot.toNat.toUInt16 ++ be16 (low16 delta))

def ldc (index : UInt16) (isWide : Bool) : Action Unit :=
  if isWide then emitU2 .ldc2W index
  else if index ≤ 255 then emitU1 .ldc index.toUInt8
  else emitU2 .ldcW index

def jump (op : Opcode) : Action Nat := do
  let site := (← get).pos
  put [op.byte, 0, 0]
  pure site

def pushSite (op : Opcode) : Action Unit := do
  let site ← jump op
  modify fun ⟨bytes, sites⟩ => ⟨bytes, site :: sites⟩

def resolve (site : Nat) (target : Int) : Action Unit :=
  let distance := target - site
  if distance < -32768 ∨ 32767 < distance then throw (.branchTooFar site target)
  else
    let n := low16 distance
    modify fun ⟨bytes, sites⟩ =>
      ⟨(bytes.setIfInBounds (site + 1) (n >>> 8).toUInt8).setIfInBounds (site + 2) n.toUInt8, sites⟩

def takeSite : Action Nat := do
  match (← get).sites with
  | [] => throw .noOpenSite
  | s :: rest =>
    modify fun ⟨bytes, _⟩ => ⟨bytes, rest⟩
    pure s

def popSite : Action Unit := do
  let s ← takeSite
  resolve s (← get).pos

def swapSites : Action Unit := do
  match (← get).sites with
  | a :: b :: rest => modify fun ⟨bytes, _⟩ => ⟨bytes, b :: a :: rest⟩
  | sites => throw (.swapUnderflow sites.length)

def resolveAll (sites : List Nat) (target : Int) : Action Unit :=
  sites.forM fun s => resolve s target

def branchTo (op : Opcode) (target : Int) : Action Unit := do
  resolve (← jump op) target

/-- Puts other code in front. Resolved branches are relative and stay valid; open sites would not. -/
def prepend (front : Code) : Action Unit := do
  let c ← get
  if c.sites.isEmpty ∧ front.sites.isEmpty then set (Code.mk (front.bytes ++ c.bytes) [])
  else throw (.prependOpen (c.sites.length + front.sites.length))

end Code

end ClassForge

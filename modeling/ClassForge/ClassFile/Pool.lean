import ClassForge.ClassFile.Constant
import ClassForge.ClassFile.ModifiedUtf8
import ClassForge.ClassFile.Writer
import ClassForge.Diagnostic.Code
import Std.Data.TreeMap

namespace ClassForge

/-- The constant pool under construction: asking twice for the same constant gives the same index. -/
structure Pool where
  /-- The entries with their indices, oldest first. -/
  entries : Array (UInt16 × Constant) := #[]
  indices : Std.TreeMap Constant UInt16 Constant.compare := {}
  next : Nat := 1

namespace Pool

inductive Fault
  | full
  | textTooLong (bytes : Nat)
  deriving DecidableEq, Repr

def Fault.code : Fault → Diagnostic.Code
  | .full | .textTooLong _ => .poolOverflow

def Fault.message : Fault → String
  | .full => "constant pool exceeds 65534 entries"
  | .textTooLong n => s!"utf8 constant of {n} bytes exceeds 65535"

def empty : Pool := {}

instance : Inhabited Pool := ⟨empty⟩

def count (p : Pool) : Nat := p.next

def size (p : Pool) : Nat := p.entries.size

def lastIndex : Nat := 65534

abbrev Action (α : Type) := ExceptT Fault (StateM Pool) α

def intern (c : Constant) : Action UInt16 := fun p =>
  match p.indices[c]? with
  | some i => (.ok i, p)
  | none =>
    if p.next + c.tag.width - 1 > lastIndex then (.error .full, p)
    else
      let ⟨entries, indices, next⟩ := p
      let i := next.toUInt16
      (.ok i, ⟨entries.push (i, c), indices.insert c i, next + c.tag.width⟩)

def utf8 (s : String) : Action UInt16 := do
  let n := ModifiedUtf8.size s
  if n > 65535 then throw (.textTooLong n)
  intern (.utf8 s)

def classRef (internalName : String) : Action UInt16 := do
  intern (.classRef (← utf8 internalName))

def string (s : String) : Action UInt16 := do
  intern (.string (← utf8 s))

def integer (v : UInt32) : Action UInt16 := intern (.integer v)
def float (bits : UInt32) : Action UInt16 := intern (.float bits)
def long (v : UInt64) : Action UInt16 := intern (.long v)
def double (bits : UInt64) : Action UInt16 := intern (.double bits)

def nameAndType (name descriptor : String) : Action UInt16 := do
  let n ← utf8 name
  let d ← utf8 descriptor
  intern (.nameAndType n d)

def member (kind : RefKind) (owner name descriptor : String) : Action UInt16 := do
  let c ← classRef owner
  let nt ← nameAndType name descriptor
  intern (.member kind c nt)

def fieldref : String → String → String → Action UInt16 := member .field
def methodref : String → String → String → Action UInt16 := member .method
def interfaceMethodref : String → String → String → Action UInt16 := member .interfaceMethod

def get? (p : Pool) (index : UInt16) : Option Constant :=
  (p.entries.find? fun e => e.1 == index).map (·.2)

def writeConstant (w : Writer) (c : Constant) : Writer :=
  let w := w.u1 c.tag.code
  match c with
  | .utf8 s =>
    let bs := ModifiedUtf8.encode s
    (w.len2 bs.length "utf8").put bs
  | .integer v | .float v => w.u4 v
  | .long v | .double v => w.u8 v
  | .classRef a | .string a => w.u2 a
  | .member _ a b | .nameAndType a b => (w.u2 a).u2 b

def write (w : Writer) (p : Pool) : Writer :=
  p.entries.foldl (fun w e => writeConstant w e.2) (w.len2 p.next "constant pool")

end Pool

end ClassForge

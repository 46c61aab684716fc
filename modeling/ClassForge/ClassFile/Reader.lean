import ClassForge.Access
import ClassForge.ClassFile.Constant
import ClassForge.ClassFile.ModifiedUtf8

namespace ClassForge

structure Attr where
  name : String
  data : List UInt8
  deriving DecidableEq, Repr

def Attr.find? (attrs : List Attr) (name : String) : Option (List UInt8) :=
  (attrs.find? (·.name == name)).map (·.data)

structure Member where
  access : Access
  name : String
  descriptor : String
  attrs : List Attr
  deriving DecidableEq, Repr

abbrev ClassFile.Table := Array (Option Constant)

structure ClassFile where
  minor : UInt16
  major : UInt16
  pool : ClassFile.Table
  access : Access
  this : String
  super : String
  interfaces : List String
  fields : List Member
  methods : List Member
  attrs : List Attr

namespace ClassFile

inductive Fault
  | truncated (offset need : Nat)
  | badMagic (found : Nat)
  | unknownTag (entry : Nat) (tag : Nat)
  | noEntry (index : Nat)
  | wrongTag (index : Nat) (found want : String)
  | notMember (index : Nat) (found : String)
  | trailing (count : Nat)
  | noCode (name descriptor : String)
  | within (what : String) (cause : Fault)
  deriving DecidableEq, Repr

def Fault.message : Fault → String
  | .truncated o n => s!"truncated at offset {o} (need {n} bytes)"
  | .badMagic n => "bad magic 0x" ++ String.ofList (Nat.toDigits 16 n)
  | .unknownTag i t => s!"pool entry {i}: unknown tag {t}"
  | .noEntry i => s!"pool index {i} out of range"
  | .wrongTag i f w => s!"pool index {i} is {f}, want {w}"
  | .notMember i f => s!"pool index {i} is {f}, not a member ref"
  | .trailing n => s!"{n} trailing bytes"
  | .noCode n d => s!"{n}{d} has no Code"
  | .within what e => s!"{what}: {e.message}"

def tagName : Option Constant → String
  | some c => c.tag.name
  | none => Tag.nameOfCode 0

/-! Looking things up in the pool. -/

namespace Table

def entry (t : Table) (i : UInt16) : Except Fault (Option Constant) :=
  match t[i.toNat]? with
  | some c => if i = 0 then .error (.noEntry 0) else .ok c
  | none => .error (.noEntry i.toNat)

def utf8 (t : Table) (i : UInt16) : Except Fault String := do
  match ← t.entry i with
  | some (.utf8 s) => pure s
  | c => throw (.wrongTag i.toNat (tagName c) Tag.utf8.name)

def className (t : Table) (i : UInt16) : Except Fault String := do
  match ← t.entry i with
  | some (.classRef n) => t.utf8 n
  | c => throw (.wrongTag i.toNat (tagName c) Tag.classRef.name)

def nameAndType (t : Table) (i : UInt16) : Except Fault (String × String) := do
  match ← t.entry i with
  | some (.nameAndType n d) => pure (← t.utf8 n, ← t.utf8 d)
  | c => throw (.wrongTag i.toNat (tagName c) Tag.nameAndType.name)

def memberRef (t : Table) (i : UInt16) : Except Fault (String × String × String) := do
  match ← t.entry i with
  | some (.member _ c nt) =>
    let owner ← t.className c
    let (name, descriptor) ← t.nameAndType nt
    pure (owner, name, descriptor)
  | c => throw (.notMember i.toNat (tagName c))

end Table

/-! Reading. -/

structure Cursor where
  rest : List UInt8
  offset : Nat

abbrev Reader := StateT Cursor (Except Fault)

namespace Reader

def bytes (n : Nat) : Reader (List UInt8) := fun c =>
  let read := c.rest.take n
  if read.length < n then .error (.truncated c.offset n)
  else .ok (read, ⟨c.rest.drop n, c.offset + n⟩)

def number (n : Nat) : Reader Nat := do
  return (← bytes n).foldl (fun k b => k * 256 + b.toNat) 0

def u1 : Reader UInt8 := return (← number 1).toUInt8
def u2 : Reader UInt16 := return (← number 2).toUInt16
def u4 : Reader UInt32 := return (← number 4).toUInt32
def u8 : Reader UInt64 := do
  let hi ← number 4
  let lo ← number 4
  return (hi * 4294967296 + lo).toUInt64

def orFault {α : Type} (p : Reader α) (e : Fault) : Reader α := fun c =>
  match p c with
  | .ok r => .ok r
  | .error _ => .error e

def within {α : Type} (what : String) (p : Reader α) : Reader α := fun c =>
  match p c with
  | .ok r => .ok r
  | .error e => .error (.within what e)

def checked {α : Type} : Except Fault α → Reader α
  | .ok a => pure a
  | .error e => throw e

def index : Reader UInt16 := u2.orFault (.noEntry 0)

def times {α : Type} (p : Reader α) : Nat → Reader (List α)
  | 0 => pure []
  | n + 1 => do
    let x ← p
    return x :: (← times p n)

end Reader

open Reader

def readConstant (i : Nat) (tag : UInt8) : Reader Constant := do
  match Tag.ofCode? tag with
  | some .utf8 => return .utf8 (ModifiedUtf8.decode (← bytes (← u2).toNat))
  | some .integer => return .integer (← u4)
  | some .float => return .float (← u4)
  | some .long => return .long (← u8)
  | some .double => return .double (← u8)
  | some .classRef => return .classRef (← u2)
  | some .string => return .string (← u2)
  | some .fieldref => return .member .field (← u2) (← u2)
  | some .methodref => return .member .method (← u2) (← u2)
  | some .interfaceMethodref => return .member .interfaceMethod (← u2) (← u2)
  | some .nameAndType => return .nameAndType (← u2) (← u2)
  | none => throw (.unknownTag i tag.toNat)

def readPool (count : Nat) : Nat → Table → Reader Table
  | 0, table => pure table
  | fuel + 1, table => do
    let i := table.size
    if count ≤ i then pure table
    else
      let tag ← u1.orFault (.unknownTag i 0)
      let c ← readConstant i tag
      let table := table.push (some c)
      readPool count fuel (if c.tag.isWide && i + 1 < count then table.push none else table)

def readTable : Reader Table := do
  let count := (← u2).toNat
  readPool count count (if count = 0 then #[] else #[none])

def readData (more : Nat) : Reader (List UInt8) :=
  let data : Reader (List UInt8) := do bytes (← u4).toNat
  if more = 0 then data else data.orFault (.noEntry 0)

def readAttrList (t : Table) : Nat → Reader (List Attr)
  | 0 => pure []
  | n + 1 => do
    let name ← checked (t.utf8 (← index))
    let data ← readData n
    return ⟨name, data⟩ :: (← readAttrList t n)

def readAttrs (t : Table) : Reader (List Attr) := do
  readAttrList t (← u2).toNat

def readMember (t : Table) : Reader Member := do
  let access ← index
  let name ← checked (t.utf8 (← index))
  let descriptor ← checked (t.utf8 (← index))
  let attrs ← within name (readAttrs t)
  return ⟨⟨access⟩, name, descriptor, attrs⟩

def readMembers (t : Table) : Reader (List Member) := do
  times (readMember t) (← u2).toNat

def magic : Nat := 0xcafebabe

def read : Reader ClassFile := do
  let found ← number 4
  if found ≠ magic then throw (.badMagic found)
  let minor ← u2
  let major ← u2
  let pool ← readTable
  let access ← u2
  let thisIndex ← u2
  let superIndex ← u2
  let this ← within "this_class" (checked (pool.className thisIndex))
  let super ← if superIndex = 0 then pure "" else within "super_class" (checked (pool.className superIndex))
  let interfaceCount ← within "fields" u2
  let interfaces ← times (within "interface" (do checked (pool.className (← index)))) interfaceCount.toNat
  let fields ← within "fields" (readMembers pool)
  let methods ← within "methods" (readMembers pool)
  let attrs ← within "class attributes" (readAttrs pool)
  return { minor, major, pool, access := ⟨access⟩, this, super, interfaces, fields, methods, attrs }

def decode (data : List UInt8) : Except Fault ClassFile :=
  match read ⟨data, 0⟩ with
  | .error e => .error e
  | .ok (c, rest) => if rest.rest.isEmpty then .ok c else .error (.trailing rest.rest.length)

end ClassFile

end ClassForge

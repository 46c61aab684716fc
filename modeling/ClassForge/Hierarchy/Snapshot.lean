import ClassForge.Format.Cbor
import ClassForge.Hierarchy.Provider

namespace ClassForge.Hierarchy

inductive SnapshotFormat
  | messagePack
  | cbor
  deriving DecidableEq, Repr

def SnapshotFormat.name : SnapshotFormat → String
  | .messagePack => "msgpack"
  | .cbor => "cbor"

def SnapshotFormat.ofPath (path : String) : SnapshotFormat :=
  let file := (path.toList.reverse.takeWhile (· ≠ '/'))
  if (file.take 5).map Char.toLower = ".cbor".toList.reverse then .cbor else .messagePack

structure SnapshotMember where
  name : String
  descriptor : String
  access : UInt16
  deriving DecidableEq, Repr

structure SnapshotClass where
  name : String
  super : String
  interfaces : List String
  access : UInt16
  fields : List SnapshotMember
  methods : List SnapshotMember
  deriving DecidableEq, Repr

structure Snapshot where
  schema : UInt16
  classes : List SnapshotClass
  deriving DecidableEq, Repr

namespace Snapshot

inductive Fault
  | unreadable (format : SnapshotFormat)
  | schema (found : UInt16)
  | member (owner name : String) (cause : TypeSyntaxError)
  deriving DecidableEq, Repr

def current : UInt16 := 1

def Fault.code (_ : Fault) : Diagnostic.Code := .recipeDecode

def Fault.message : Fault → String
  | .unreadable f => "decode " ++ f.name ++ " snapshot"
  | .schema n => "snapshot schema " ++ toString n.toNat ++ ", want " ++ toString current.toNat
  | .member o n e => o ++ "." ++ n ++ ": " ++ e.message

end Snapshot

namespace SnapshotMember

def ofField (f : FieldInfo) : SnapshotMember := ⟨f.name, f.descriptor, f.access.bits⟩
def ofMethod (m : MethodInfo) : SnapshotMember := ⟨m.name, m.descriptor, m.access.bits⟩

def toField (owner : String) (m : SnapshotMember) : Except Snapshot.Fault FieldInfo :=
  match JType.parseDescriptor m.descriptor with
  | .ok t => .ok ⟨owner, m.name, t, ⟨m.access⟩⟩
  | .error e => .error (.member owner m.name e)

def toMethod (owner : String) (m : SnapshotMember) : Except Snapshot.Fault MethodInfo :=
  match JType.parseMethodDescriptor m.descriptor with
  | .ok (ret, params) => .ok ⟨owner, m.name, params, ret, ⟨m.access⟩⟩
  | .error e => .error (.member owner m.name e)

end SnapshotMember

def SnapshotClass.ofInfo (c : ClassInfo) : SnapshotClass :=
  ⟨c.name, c.super, c.interfaces, c.access.bits,
    c.fields.toList.map .ofField, c.methods.toList.map .ofMethod⟩

def SnapshotClass.toInfo (c : SnapshotClass) : Except Snapshot.Fault ClassInfo := do
  let fields ← c.fields.mapM (SnapshotMember.toField c.name)
  let methods ← c.methods.mapM (SnapshotMember.toMethod c.name)
  pure ⟨c.name, c.super, c.interfaces, ⟨c.access⟩, fields.toArray, methods.toArray⟩

/-! MessagePack: maps by name, empty optional parts left out. -/

namespace SnapshotMember

open MessagePack

def toPack (m : SnapshotMember) : Item :=
  .map [(.text "name", .text m.name), (.text "desc", .text m.descriptor), (.text "flags", .uint16 m.access)]

def ofPack (x : Item) : Option SnapshotMember := do
  match ← x.record ["name", "desc", "flags"] with
  | [n, d, f] => pure ⟨← n.toText, ← d.toText, ← f.toWord⟩
  | _ => none

end SnapshotMember

namespace SnapshotClass

open MessagePack

def toPack (c : SnapshotClass) : Item :=
  let part {α : Type} (name : String) (f : α → Item) (xs : List α) : List (Item × Item) :=
    if xs.isEmpty then [] else [(.text name, .array (xs.map f))]
  .map ([(.text "name", .text c.name)] ++
    (if c.super = "" then [] else [(.text "super", .text c.super)]) ++
    part "interfaces" Item.text c.interfaces ++
    [(.text "flags", .uint16 c.access)] ++
    part "fields" SnapshotMember.toPack c.fields ++
    part "methods" SnapshotMember.toPack c.methods)

def ofPack (x : Item) : Option SnapshotClass := do
  match ← x.record ["name", "super", "interfaces", "flags", "fields", "methods"] with
  | [n, s, i, f, fs, ms] =>
    pure ⟨← n.toText, ← s.toText, ← (← i.toList).mapM (·.toText), ← f.toWord,
      ← (← fs.toList).mapM SnapshotMember.ofPack, ← (← ms.toList).mapM SnapshotMember.ofPack⟩
  | _ => none

end SnapshotClass

namespace Snapshot

open MessagePack

def toPack (s : Snapshot) : Item :=
  .map [(.text "schema", .uint16 s.schema),
    (.text "classes", if s.classes.isEmpty then .nil else .array (s.classes.map (·.toPack)))]

def ofPack (x : Item) : Option Snapshot := do
  match ← x.record ["schema", "classes"] with
  | [s, cs] => pure ⟨← s.toWord, ← (← cs.toList).mapM SnapshotClass.ofPack⟩
  | _ => none

end Snapshot

/-! CBOR: the same records with the place of each field as its key. -/

namespace SnapshotMember

open Cbor

def toCbor (m : SnapshotMember) : Item :=
  .map [(.uint 1, .ofText m.name), (.uint 2, .ofText m.descriptor), (.uint 3, .uint m.access.toNat)]

def ofCbor (x : Item) : Option SnapshotMember := do
  match ← x.record [1, 2, 3] with
  | [n, d, f] => pure ⟨← n.toText, ← d.toText, ← f.toWord⟩
  | _ => none

end SnapshotMember

namespace SnapshotClass

open Cbor

def toCbor (c : SnapshotClass) : Item :=
  let part {α : Type} (key : Nat) (f : α → Item) (xs : List α) : List (Item × Item) :=
    if xs.isEmpty then [] else [(.uint key, .array (xs.map f))]
  .map ([(.uint 1, .ofText c.name)] ++
    (if c.super = "" then [] else [(.uint 2, .ofText c.super)]) ++
    part 3 Item.ofText c.interfaces ++
    [(.uint 4, .uint c.access.toNat)] ++
    part 5 SnapshotMember.toCbor c.fields ++
    part 6 SnapshotMember.toCbor c.methods)

def ofCbor (x : Item) : Option SnapshotClass := do
  match ← x.record [1, 2, 3, 4, 5, 6] with
  | [n, s, i, f, fs, ms] =>
    pure ⟨← n.toText, ← s.toText, ← (← i.toList).mapM (·.toText), ← f.toWord,
      ← (← fs.toList).mapM SnapshotMember.ofCbor, ← (← ms.toList).mapM SnapshotMember.ofCbor⟩
  | _ => none

end SnapshotClass

namespace Snapshot

open Cbor in
def toCbor (s : Snapshot) : Item :=
  .map [(.uint 1, .uint s.schema.toNat),
    (.uint 2, if s.classes.isEmpty then .null else .array (s.classes.map (·.toCbor)))]

open Cbor in
def ofCbor (x : Item) : Option Snapshot := do
  match ← x.record [1, 2] with
  | [s, cs] => pure ⟨← s.toWord, ← (← cs.toList).mapM SnapshotClass.ofCbor⟩
  | _ => none

def ofRegistry (r : Registry) : Snapshot := ⟨current, r.classes.map .ofInfo⟩

def toRegistry (s : Snapshot) : Except Fault Registry :=
  if s.schema ≠ current then .error (.schema s.schema)
  else s.classes.foldlM (fun r c => return r.add (← c.toInfo)) .empty

def encode (format : SnapshotFormat) (s : Snapshot) : List UInt8 :=
  match format with
  | .messagePack => s.toPack.encode
  | .cbor => s.toCbor.encode

def decode (format : SnapshotFormat) (bs : List UInt8) : Except Fault Snapshot :=
  let found := match format with
    | .messagePack => (MessagePack.Item.parse bs).bind ofPack
    | .cbor => (Cbor.Item.parse bs).bind ofCbor
  match found with
  | some s => .ok s
  | none => .error (.unreadable format)

end Snapshot

def save (format : SnapshotFormat) (r : Registry) : List UInt8 :=
  (Snapshot.ofRegistry r).encode format

def load (format : SnapshotFormat) (bs : List UInt8) : Except Snapshot.Fault Registry := do
  (← Snapshot.decode format bs).toRegistry

end ClassForge.Hierarchy

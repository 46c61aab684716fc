import ClassForge.Digest.Sha256
import ClassForge.Files.Disk
import ClassForge.Format.MessagePack

namespace ClassForge.Build

open Files (Path Disk)
open MessagePack (Item)

structure StoredClass where
  name : String
  data : List UInt8
  rendered : String
  deriving DecidableEq, Repr

/-- What one recipe gave, with the layout number of the entry and the moment in microseconds. -/
structure CacheRecord where
  schema : UInt16
  recipe : String
  classes : List StoredClass
  created : Option Int
  deriving DecidableEq, Repr

def StoredClass.toPack (c : StoredClass) : Item :=
  .map ([(.text "name", .text c.name), (.text "data", .bin c.data)] ++
    (if c.rendered = "" then [] else [(.text "rendered", .text c.rendered)]))

def StoredClass.ofPack (x : Item) : Option StoredClass := do
  match ← x.record ["name", "data", "rendered"] with
  | [n, d, r] => pure ⟨← n.toText, ← d.toBytes, ← r.toText⟩
  | _ => none

namespace CacheRecord

def current : UInt16 := 1

/-- A moment as seconds, with the nanoseconds above the lowest 34 bits where there are any. -/
def stampItem (us : Int) : Item :=
  let seconds := (us / 1000000).toNat
  let nanos := (us % 1000000).toNat * 1000
  let n := nanos <<< 34 + seconds
  .ext 0xff (if n < 4294967296 then be32 n.toUInt32 else be64 n.toUInt64)

def stampOf : Item → Option (Option Int)
  | .nil => some none
  | .ext 0xff bs =>
    let n := Item.natOf bs
    match bs.length with
    | 4 => some (some (n * 1000000 : Nat))
    | 8 => some (some ((n % 17179869184 * 1000000 + n / 17179869184 / 1000 : Nat)))
    | 12 => some (some (Item.signed 64 (n % 18446744073709551616) * 1000000 + (n / 18446744073709551616 / 1000 : Nat)))
    | _ => none
  | _ => none

def toPack (e : CacheRecord) : Item :=
  .map [(.text "schema", .uint16 e.schema), (.text "recipe", .text e.recipe),
    (.text "classes", if e.classes.isEmpty then .nil else .array (e.classes.map (·.toPack))),
    (.text "created", match e.created with | some us => stampItem us | none => .nil)]

def ofPack (x : Item) : Option CacheRecord := do
  match ← x.record ["schema", "recipe", "classes", "created"] with
  | [s, r, cs, t] => pure ⟨← s.toWord, ← r.toText, ← (← cs.toList).mapM StoredClass.ofPack, ← stampOf t⟩
  | _ => none

end CacheRecord

structure Cache where
  directory? : Option Path := none
  deriving DecidableEq, Repr

namespace Cache

def isOpen (c : Cache) : Bool := c.directory?.isSome

def directory (c : Cache) : Path := c.directory?.getD ""

def openAt (dir : Path) (d : Disk) : Except Files.Failure (Cache × Disk) := do
  return ({ directory? := some dir }, ← d.makeDirectories dir)

def key (data : List UInt8) (settings : List String) : Digest :=
  .ofParts (data :: settings.map Text.encodeUtf8)

def path (dir : Path) (key : Digest) : Path :=
  Path.join [dir, "classes", String.ofList (key.hex.toList.take 2), key.hex ++ ".mp"]

/-- The classes stored for a key. What is not there, or has another layout, is a miss. -/
def find (c : Cache) (key : Digest) (d : Disk) : Except String (Option CacheRecord) :=
  match c.directory? with
  | none => .ok none
  | some dir =>
    match d.read (path dir key) with
    | .error e => if e.fault = .missing then .ok none else .error e.message
    | .ok data =>
      match (Item.parse data).bind CacheRecord.ofPack with
      | none => .error ("cache entry " ++ key.hex)
      | some e => .ok (if e.schema = CacheRecord.current then some e else none)

/-- Stores classes under a key, with the layout number and, if it has none, a moment. -/
def store (c : Cache) (key : Digest) (e : CacheRecord) (now : Int) (d : Disk) : Except Files.Failure Disk :=
  match c.directory? with
  | none => .ok d
  | some dir => do
    let p := path dir key
    let d ← d.makeDirectories p.dir
    let e := { e with schema := CacheRecord.current, created := some (e.created.getD now) }
    d.write p e.toPack.encode

def clear (c : Cache) (d : Disk) : Except Files.Failure Disk :=
  match c.directory? with
  | none => .ok d
  | some dir =>
    match d.look dir with
    | .ok _ => (d.remove dir).makeDirectories dir
    | .error .missing => .ok d
    | .error e => .error ⟨"rename", dir, e⟩

end Cache

end ClassForge.Build

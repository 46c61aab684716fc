import ClassForge.Hierarchy.Library
import ClassForge.Hierarchy.Snapshot
import ClassForge.Hierarchy.Walk

namespace ClassForge.Hierarchy

/-- A provider whose classes and base are held by place, so that everyone who holds a class sees its
changes. -/
inductive Catalog
  | registry (classes : Std.TreeMap String Nat)
  | session (published : Std.TreeMap String Nat) (base : Option Nat)
  | overlay (self : Option Nat) (base : Option Nat)

/-- Shared classes and the providers over them, known by handles. A handle that is used again names
the newer thing; what holds the older one keeps it. -/
structure Shelf where
  classes : Array ClassInfo := #[]
  catalogs : Array Catalog := #[]
  classHandles : List (String × Nat) := []
  catalogHandles : List (String × Nat) := []

namespace Shelf

def class? (s : Shelf) (handle : String) : Option Nat := s.classHandles.lookup handle
def catalog? (s : Shelf) (handle : String) : Option Nat := s.catalogHandles.lookup handle

def info? (s : Shelf) (handle : String) : Option ClassInfo := (s.class? handle).bind fun i => s.classes[i]?

def place (s : Shelf) (c : ClassInfo) : Nat × Shelf :=
  (s.classes.size, { s with classes := s.classes.push c })

def keep (s : Shelf) (handle : String) (c : ClassInfo) : Shelf :=
  let (i, s) := s.place c
  { s with classHandles := (handle, i) :: s.classHandles }

def openCatalog (s : Shelf) (handle : String) (k : Catalog) : Shelf :=
  { s with catalogHandles := (handle, s.catalogs.size) :: s.catalogHandles, catalogs := s.catalogs.push k }

def openRegistry (s : Shelf) (handle : String) (r : Registry) : Shelf :=
  let (m, s) := r.classes.foldl (fun (m, s) c =>
    let (i, s) := place s c
    (m.insert c.name i, s)) (({} : Std.TreeMap String Nat), s)
  s.openCatalog handle (.registry m)

def openSession (s : Shelf) (handle base : String) : Shelf :=
  s.openCatalog handle (.session {} (s.catalog? base))

def openOverlay (s : Shelf) (handle self base : String) : Shelf :=
  s.openCatalog handle (.overlay (s.class? self) (s.catalog? base))

def modifyCatalog (s : Shelf) (handle : String) (f : Catalog → Catalog) : Shelf :=
  match s.catalog? handle with
  | some k => { s with catalogs := s.catalogs.modify k f }
  | none => s

def addMethod (s : Shelf) (handle name : String) (ret : JType) (params : List JType) (access : Access) :
    Shelf :=
  match s.class? handle with
  | some i => { s with classes := s.classes.modify i fun c =>
      { c with methods := c.methods.push ⟨c.name, name, params, ret, access⟩ } }
  | none => s

def add (s : Shelf) (registry handle : String) : Shelf :=
  match s.class? handle, s.info? handle with
  | some i, some c => s.modifyCatalog registry fun
      | .registry m => .registry (m.insert c.name i)
      | k => k
  | _, _ => s

def publish (s : Shelf) (session handle : String) : Shelf :=
  match s.info? handle with
  | some c =>
    let (copy, s) := s.place c
    s.modifyCatalog session fun
      | .session m base => .session (m.insert c.name copy) base
      | k => k
  | none => s

def heldAt (s : Shelf) (k : Nat) : List (String × Nat) :=
  match s.catalogs[k]? with
  | some (.registry m) | some (.session m _) => m.toList
  | _ => []

def held (s : Shelf) (handle : String) : List (String × Nat) :=
  ((s.catalog? handle).map s.heldAt).getD []

def merge (s : Shelf) (handle other : String) : Shelf :=
  let more := s.held other
  s.modifyCatalog handle fun
    | .registry m => .registry (more.foldl (fun m (n, c) => m.insert n c) m)
    | k => k

def registryAt (s : Shelf) (k : Nat) : Registry :=
  (s.heldAt k).foldl (fun r (n, i) => match s.classes[i]? with
    | some c => r.insert n c
    | none => r) .empty

def registry (s : Shelf) (handle : String) : Registry :=
  ((s.catalog? handle).map s.registryAt).getD .empty

/-- The provider at a place. A base has a smaller place, so `fuel` places suffice. -/
def providerWithin (s : Shelf) : Nat → Nat → Provider
  | 0, _ => .registry .empty
  | fuel + 1, k =>
    match s.catalogs[k]? with
    | none => .registry .empty
    | some (.registry _) => .registry (s.registryAt k)
    | some (.session _ base) => .session (s.registryAt k) (base.map (s.providerWithin fuel))
    | some (.overlay self base) =>
      .overlay (self.bind fun i => s.classes[i]?) (base.map (s.providerWithin fuel))

def provider (s : Shelf) (handle : String) : Provider :=
  ((s.catalog? handle).map (s.providerWithin s.catalogs.size)).getD (.registry .empty)

end Shelf

end ClassForge.Hierarchy

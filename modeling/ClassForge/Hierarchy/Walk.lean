import ClassForge.Hierarchy.Provider

namespace ClassForge

namespace Hierarchy

/-- The classes met on the way up from a class, in order, and the name of no class at which the way
broke off. -/
structure Walk where
  visited : List ClassInfo
  missing : Option String

/-- The superclass chain of a name. An acyclic chain is no longer than the number of classes. -/
def chain (p : Provider) : Nat → String → Walk
  | 0, _ => ⟨[], none⟩
  | n + 1, name =>
    if name = "" then ⟨[], none⟩
    else match p.find? name with
      | none => ⟨[], some name⟩
      | some c =>
        let up := chain p n c.super
        ⟨c :: up.visited, up.missing⟩

/-- The interfaces reachable from a queue of names, breadth first, those in `seen` left out. -/
def reach (p : Provider) : Nat → List String → List String → Walk
  | 0, _, _ | _, _, [] => ⟨[], none⟩
  | n + 1, seen, name :: queue =>
    if seen.contains name then reach p n seen queue
    else match p.find? name with
      | none => ⟨[], some name⟩
      | some c =>
        let more := reach p n (name :: seen) (queue ++ c.interfaces)
        ⟨c :: more.visited, more.missing⟩

/-- A bound on the names the interface search takes from its queue: every class is expanded once. -/
def queueBound (p : Provider) : Nat := p.classes.foldl (fun n c => n + c.interfaces.length) 1

/-- The owner, its superclasses, then every interface reachable from them, each once. -/
def supertypes (p : Provider) (owner : String) : Walk :=
  let up := chain p (p.classes.length + 1) owner
  match up.missing with
  | some name => ⟨up.visited, some name⟩
  | none =>
    let across := reach p (queueBound p) (up.visited.map (·.name)) (up.visited.flatMap (·.interfaces))
    ⟨up.visited ++ across.visited, across.missing⟩

end Hierarchy

namespace Provider

open Hierarchy (Fault supertypes)

def lookup (p : Provider) (name : String) : Except Fault ClassInfo :=
  match p.find? name with
  | some c => .ok c
  | none => .error (.noClass name)

def findField (p : Provider) (owner name : String) : Except Fault FieldInfo :=
  let walk := supertypes p owner
  match walk.visited.findSome? (·.field? name) with
  | some f => .ok f
  | none => match walk.missing with
    | some c => .error (.noClass c)
    | none => .error (.noField owner name)

def firstOfEach : List String → List MethodInfo → List MethodInfo
  | _, [] => []
  | seen, m :: ms =>
    if seen.contains m.descriptor then firstOfEach seen ms
    else m :: firstOfEach (m.descriptor :: seen) ms

/-- Every overload of a name visible from a class. A nearer declaration hides the same descriptor
further up; constructors are not inherited. -/
def findMethods (p : Provider) (owner name : String) : Except Fault (List MethodInfo) :=
  let walk := supertypes p owner
  let (visited, missing) :=
    if name = MethodInfo.constructorName then
      match walk.visited with
      | c :: _ => ([c], none)
      | [] => ([], walk.missing)
    else (walk.visited, walk.missing)
  match missing with
  | some c => .error (.noClass c)
  | none =>
    match firstOfEach [] (visited.flatMap (·.methodsNamed name)) with
    | [] => .error (.noMethod owner name)
    | ms => .ok ms

/-- Whether `sub` is `sup` or inherits from it. Unknown classes inherit from the root only. -/
def isSubclass (p : Provider) (sub sup : String) : Bool :=
  sub = sup || sup = "java/lang/Object" || (supertypes p sub).visited.any fun c => c.name = sup

def assignableWithin (p : Provider) : Nat → JType → JType → Bool
  | n, a, b =>
    if a = b then true
    else if !a.isReference || !b.isReference then false
    else if a.isNull || b = .object then true
    else if a.isArray then
      if b.isArray then
        if a.elem.isPrimitive || b.elem.isPrimitive then a.elem = b.elem
        else match n with
          | 0 => false
          | n + 1 => assignableWithin p n a.elem b.elem
      else b.internalName = "java/lang/Cloneable" || b.internalName = "java/io/Serializable"
    else if b.isArray then false
    else p.isSubclass a.internalName b.internalName

/-- Whether a value of type `a` may be stored in a location of type `b` without conversion. -/
def isAssignable (p : Provider) (a b : JType) : Bool := assignableWithin p a.dims.toNat a b

def keyOf (m : MethodInfo) : String := m.name ++ m.descriptor

def isInstanceMethod (m : MethodInfo) : Bool :=
  !(m.isConstructor || m.isStatic || m.name == MethodInfo.initializerName)

def firstOfKey : List String → List MethodInfo → List MethodInfo
  | _, [] => []
  | seen, m :: ms =>
    if seen.contains (keyOf m) then firstOfKey seen ms
    else m :: firstOfKey (keyOf m :: seen) ms

/-- The abstract methods reachable from a class that no class on the way implements. -/
def unimplemented (p : Provider) (name : String) : Except Fault (List MethodInfo) :=
  let walk := supertypes p name
  match walk.missing with
  | some c => .error (.noClass c)
  | none =>
    let members := walk.visited.flatMap fun c =>
      (c.methods.toList.filter isInstanceMethod).map fun m => (!m.isAbstract && !c.isInterface, m)
    let concrete := members.filterMap fun (impl, m) => if impl then some (keyOf m) else none
    let required := firstOfKey [] (members.filterMap fun (impl, m) => if impl then none else some m)
    .ok (required.filter fun m => !concrete.contains (keyOf m))

end Provider

end ClassForge

import ClassForge.Assembler.Conversion

namespace ClassForge.Assembler

def packageOf (name : String) : String :=
  String.ofList ((name.toList.reverse.dropWhile (· != '/')).drop 1).reverse

def Context.sees (c : Context) (owner : String) (access : Access) : Bool :=
  if access.isPublic then true
  else if access.isPrivate then owner == c.name
  else if packageOf owner == packageOf c.name then true
  else if access.isProtected then c.lookup.isSubclass c.name owner
  else false

namespace Overload

def applicable (p : Provider) (boxing : Bool) (args : List JType) (m : MethodInfo) : Bool :=
  (args.zip m.params).all fun (a, t) => argConvertible p boxing a t

def moreSpecific (p : Provider) (a b : MethodInfo) : Bool :=
  (a.params.zip b.params).all fun (s, t) => argConvertible p false s t

def mostSpecific (p : Provider) (candidates : List MethodInfo) : Option MethodInfo :=
  let numbered := candidates.zipIdx
  (numbered.find? fun (a, i) => numbered.all fun (b, j) => i == j || moreSpecific p a b).map (·.1)

def choose (p : Provider) (owner name : String) (candidates : List MethodInfo) :
    Option (Except Fault MethodInfo) :=
  match candidates with
  | [] => none
  | [m] => some (.ok m)
  | a :: b :: _ =>
    match mostSpecific p candidates with
    | some m => some (.ok m)
    | none => some (.error (.ambiguous owner name a.signature b.signature))

def chosen (p : Provider) (owner name : String) (boxing : Bool) (args : List JType) (methods : List MethodInfo) :
    Option (Except Fault MethodInfo) :=
  choose p owner name (methods.filter (applicable p boxing args))

def among (candidates : List MethodInfo) (e : Fault) (next : List MethodInfo → Except Fault MethodInfo) :
    Except Fault MethodInfo :=
  if candidates.isEmpty then .error e else next candidates

/-- The overload that the arguments select: of the right arity, static or not as asked, and visible;
of these the most specific that applies without boxing, else with boxing. -/
def select (c : Context) (owner name : String) (isStatic : Bool) (args : List JType) (all : List MethodInfo) :
    Except Fault MethodInfo :=
  among (all.filter (·.params.length == args.length)) (.arity owner name args.length) fun sized =>
  among (sized.filter (·.isStatic == isStatic)) (if isStatic then .instanceMethod owner name else .staticMethod owner name)
    fun kind =>
  among (kind.filter fun m => c.sees m.owner m.access) (.invisible owner name c.name) fun visible =>
  ((chosen c.lookup owner name false args visible).orElse fun _ => chosen c.lookup owner name true args visible).getD
    (.error (.noOverload owner name args))

def resolve (c : Context) (owner name : String) (isStatic : Bool) (args : List JType) :
    Except Fault MethodInfo :=
  match c.lookup.findMethods owner name with
  | .error e => .error (.hierarchy e)
  | .ok all => select c owner name isStatic args all

end Overload

namespace Step

def resolve (owner name : String) (isStatic : Bool) (args : List Term) : Step MethodInfo := do
  ofExcept (Overload.resolve (← read) owner name isStatic (args.map (·.type)))

def naming {α : Type} (position : Nat) (signature : String) (a : Step α) : Step α := fun ctx w =>
  match a ctx w with
  | (.ok x, w) => (.ok x, w)
  | (.error e, w) => (.error (.argument position signature (e.describe "")), w)

def coerceFrom (position : Nat) (signature : String) : List Term → List JType → Step (List Term)
  | a :: args, t :: params => do
    let c ← naming position signature (assignConv a t)
    return c :: (← coerceFrom (position + 1) signature args params)
  | _, _ => pure []

def coerceArgs (m : MethodInfo) (args : List Term) : Step (List Term) :=
  coerceFrom 1 m.signature args m.params

def lookup (name : String) : Step ClassInfo := do
  match (← read).lookup.lookup name with
  | .ok c => pure c
  | .error e => throw (.hierarchy e)

def invoke (m : MethodInfo) (receiver : Option Term) (special : Bool) (args : List Term) : Step Term := do
  let owner ← lookup m.owner
  let args ← coerceArgs m args
  let className := (← read).name
  let op : Opcode :=
    if m.isStatic then .invokestatic
    else if special || m.isConstructor || (m.access.isPrivate && m.owner == className) then .invokespecial
    else if owner.isInterface then .invokeinterface
    else .invokevirtual
  let args := receiver.toList ++ args
  let c ← target op m.owner owner.isInterface m.name m.ret m.params
  node (.invoke m.ret c false (args.map (·.expr))) args

def field (owner : JType) (name : String) (isStatic : Bool) : Step (FieldInfo × UInt16) := do
  if !owner.isReference || owner.isArray || owner.isNull then throw (.noFields owner)
  else match (← read).lookup.findField owner.internalName name with
    | .error e => throw (.hierarchy e)
    | .ok f =>
      if f.isStatic != isStatic then
        throw (if isStatic then .instanceField f.owner name else .staticField f.owner name)
      else if !(← read).sees f.owner f.access then throw (.invisible f.owner name (← read).name)
      else
        let ref ← pool (Pool.fieldref f.owner f.name f.descriptor)
        pure (f, ref)

/-- Refuses writes to final fields outside the matching initializer of their class. -/
def checkFinal (f : FieldInfo) : Step Unit := do
  if f.access.isFinal && !(f.owner == (← read).name && (← method).initializes f.isStatic) then
    throw (.finalField f.owner f.name)

end Step

end ClassForge.Assembler

import ClassForge.Access
import ClassForge.Diagnostic.Code
import ClassForge.JType.Descriptor

namespace ClassForge

structure FieldInfo where
  owner : String
  name : String
  type : JType
  access : Access
  deriving DecidableEq, Repr

structure MethodInfo where
  owner : String
  name : String
  params : List JType
  ret : JType
  access : Access
  deriving DecidableEq, Repr, Inhabited

/-- What is known about a class or interface. The superclass name is empty only at the root. -/
structure ClassInfo where
  name : String
  super : String
  interfaces : List String
  access : Access
  fields : Array FieldInfo := #[]
  methods : Array MethodInfo := #[]
  deriving DecidableEq, Repr, Inhabited

def FieldInfo.descriptor (f : FieldInfo) : String := f.type.descriptor
def FieldInfo.isStatic (f : FieldInfo) : Bool := f.access.isStatic

namespace MethodInfo

def constructorName : String := "<init>"
def initializerName : String := "<clinit>"

def descriptor (m : MethodInfo) : String := JType.methodDescriptor m.ret m.params
def isStatic (m : MethodInfo) : Bool := m.access.isStatic
def isAbstract (m : MethodInfo) : Bool := m.access.isAbstract
def isConstructor (m : MethodInfo) : Bool := m.name == constructorName

def signature (m : MethodInfo) : String :=
  m.name ++ "(" ++ ", ".intercalate (m.params.map (·.spelling)) ++ ")" ++ m.ret.spelling

end MethodInfo

namespace Hierarchy

inductive Fault
  | noClass (name : String)
  | noField (owner name : String)
  | noMethod (owner name : String)
  | memberForm (text : String)
  | memberType (text : String) (cause : TypeSyntaxError)
  deriving DecidableEq, Repr

def Fault.code : Fault → Diagnostic.Code
  | .noClass _ => .noSuchClass
  | .noField _ _ => .noSuchField
  | .noMethod _ _ => .noSuchMethod
  | .memberForm _ | .memberType _ _ => .badDeclaration

def Fault.message : Fault → String
  | .noClass n => s!"class {n} not found"
  | .noField o n => s!"field {o}.{n} not found"
  | .noMethod o n => s!"method {o}.{n} not found"
  | .memberForm t => s!"member {Text.quote t}: want <flags> <name> <descriptor>"
  | .memberType t e => s!"member {Text.quote t}: {e.message}"

end Hierarchy

namespace ClassInfo

open Hierarchy (Fault)

def isInterface (c : ClassInfo) : Bool := c.access.isInterface
def type (c : ClassInfo) : JType := .ofClass c.name

def field? (c : ClassInfo) (name : String) : Option FieldInfo :=
  c.fields.find? fun f => f.name == name

def methodsNamed (c : ClassInfo) (name : String) : List MethodInfo :=
  c.methods.toList.filter fun m => m.name == name

/-- Flag letters: public, protected, private, static, final and abstract; others mean nothing. -/
def letterAccess : Char → Access
  | 'p' => .publicBit
  | 'r' => .protectedBit
  | 'v' => .privateBit
  | 's' => .staticBit
  | 'f' => .finalBit
  | 'a' => .abstractBit
  | _ => .none

def lettersAccess (s : String) : Access := s.toList.foldl (fun a c => a ||| letterAccess c) .none

/-- Adds a member written as flag letters, name and descriptor. A parenthesis opens a method's.
Members of an interface that are not static are public and abstract. -/
def addMember (c : ClassInfo) (text : String) : Except Fault ClassInfo := do
  match Text.words text with
  | [letters, name, desc] =>
    let a := lettersAccess letters
    let a := if c.isInterface && !a.isStatic then a ||| .abstractBit ||| .publicBit else a
    if desc.toList.head? = some '(' then
      match JType.parseMethodDescriptor desc with
      | .ok (ret, params) => pure { c with methods := c.methods.push ⟨c.name, name, params, ret, a⟩ }
      | .error e => throw (.memberType text e)
    else
      match JType.parseDescriptor desc with
      | .ok t => pure { c with fields := c.fields.push ⟨c.name, name, t, a⟩ }
      | .error e => throw (.memberType text e)
  | _ => throw (.memberForm text)

def define (name super : String) (access : Access) (interfaces members : List String) :
    Except Fault ClassInfo :=
  members.foldlM addMember { name, super, interfaces, access }

end ClassInfo

end ClassForge

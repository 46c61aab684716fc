import ClassForge.Text.Blank

namespace ClassForge

inductive Prim
  | boolean | byte | short | char | int | long | float | double
  deriving DecidableEq, Repr

inductive Kind
  | void
  | prim (p : Prim)
  | reference
  deriving DecidableEq, Repr

namespace Prim

def name : Prim → String
  | .boolean => "boolean"
  | .byte => "byte"
  | .short => "short"
  | .char => "char"
  | .int => "int"
  | .long => "long"
  | .float => "float"
  | .double => "double"

def letter : Prim → Char
  | .boolean => 'Z'
  | .byte => 'B'
  | .short => 'S'
  | .char => 'C'
  | .int => 'I'
  | .long => 'J'
  | .float => 'F'
  | .double => 'D'

def all : List Prim := [.boolean, .byte, .short, .char, .int, .long, .float, .double]

/-- The width on the promotion ladder. `short` and `char` share a step: neither widens to the other. -/
def level : Prim → Nat
  | .boolean => 1
  | .byte => 2
  | .short | .char => 3
  | .int => 4
  | .long => 5
  | .float => 6
  | .double => 7

def boxName : Prim → String
  | .boolean => "java/lang/Boolean"
  | .byte => "java/lang/Byte"
  | .short => "java/lang/Short"
  | .char => "java/lang/Character"
  | .int => "java/lang/Integer"
  | .long => "java/lang/Long"
  | .float => "java/lang/Float"
  | .double => "java/lang/Double"

end Prim

namespace Kind

def name : Kind → String
  | .void => "void"
  | .prim p => p.name
  | .reference => "reference"

def level : Kind → Nat
  | .void => 0
  | .prim p => p.level
  | .reference => 8

def isNumeric : Kind → Bool
  | .prim .boolean | .void | .reference => false
  | .prim _ => true

def isIntegral : Kind → Bool
  | .prim .byte | .prim .short | .prim .char | .prim .int | .prim .long => true
  | _ => false

def isIntLike : Kind → Bool
  | .prim .boolean | .prim .byte | .prim .short | .prim .char | .prim .int => true
  | _ => false

def isPrimitive : Kind → Bool
  | .prim _ => true
  | _ => false

def ofNumber? (n : Nat) : Option Kind := (.void :: Prim.all.map .prim ++ [.reference])[n]?

end Kind

/-- A type before array dimensions. `self` is the class under construction, to be resolved later;
`null` is the type of the null literal. -/
inductive Base
  | void
  | prim (p : Prim)
  | named (name : String)
  | self
  | null
  deriving DecidableEq, Repr, Inhabited

namespace Base

/- Two class names are reserved for the types that have none of their own. -/
def selfName : String := "\x00this"
def nullName : String := "\x00null"

def ofName (name : String) : Base :=
  if name = selfName then .self else if name = nullName then .null else .named name

def className : Base → String
  | .named n => n
  | .self => selfName
  | .null => nullName
  | .void | .prim _ => ""

end Base

/-- A field, parameter, local or result type: a base under `dims` array dimensions. -/
structure JType where
  base : Base
  dims : UInt8
  deriving DecidableEq, Repr, Inhabited

namespace JType

def void : JType := ⟨.void, 0⟩
def boolean : JType := ⟨.prim .boolean, 0⟩
def byte : JType := ⟨.prim .byte, 0⟩
def short : JType := ⟨.prim .short, 0⟩
def char : JType := ⟨.prim .char, 0⟩
def int : JType := ⟨.prim .int, 0⟩
def long : JType := ⟨.prim .long, 0⟩
def float : JType := ⟨.prim .float, 0⟩
def double : JType := ⟨.prim .double, 0⟩
def null : JType := ⟨.null, 0⟩
def self : JType := ⟨.self, 0⟩
def selfArray : JType := ⟨.self, 1⟩

def ofPrim (p : Prim) : JType := ⟨.prim p, 0⟩

def ofClass (name : String) : JType := ⟨.ofName (Text.slashed name), 0⟩

def object : JType := ofClass "java/lang/Object"
def string : JType := ofClass "java/lang/String"
def throwable : JType := ofClass "java/lang/Throwable"

def arrayOf (t : JType) : JType := ⟨t.base, t.dims + 1⟩

def elem (t : JType) : JType := if t.dims = 0 then t else ⟨t.base, t.dims - 1⟩

def kind (t : JType) : Kind :=
  if t.dims = 0 then
    match t.base with
    | .void => .void
    | .prim p => .prim p
    | .named _ | .self | .null => .reference
  else .reference

def isVoid (t : JType) : Bool := t.kind == .void
def isReference (t : JType) : Bool := t.kind == .reference
def isPrimitive (t : JType) : Bool := t.kind.isPrimitive
def isArray (t : JType) : Bool := t.dims != 0
def isNull (t : JType) : Bool := t.base == .null && t.dims == 0
def isSelf (t : JType) : Bool := t.base == .self

def resolve (thisName : String) (t : JType) : JType :=
  match t.base with
  | .self => ⟨.ofName thisName, t.dims⟩
  | _ => t

def isWide (t : JType) : Bool := t.kind == .prim .long || t.kind == .prim .double

def slots (t : JType) : Nat :=
  if t.isVoid then 0 else if t.isWide then 2 else 1

def descriptorChars (t : JType) : List Char :=
  List.replicate t.dims.toNat '[' ++
    match t.base with
    | .void => ['V']
    | .prim p => [p.letter]
    | b => 'L' :: b.className.toList ++ [';']

def descriptor (t : JType) : String := String.ofList t.descriptorChars

/-- The name a class entry of the pool holds: the class name, or the descriptor of an array. -/
def internalName (t : JType) : String :=
  if t.isArray then t.descriptor else t.base.className

def brackets (n : Nat) : String := String.join (List.replicate n "[]")

def spelling (t : JType) : String :=
  match t.base with
  | .null => "null"
  | .self => "this" ++ brackets t.dims.toNat
  | .named n => Text.substitute '/' '.' n ++ brackets t.dims.toNat
  | .void => "void" ++ brackets t.dims.toNat
  | .prim p => p.name ++ brackets t.dims.toNat

def afterLast (sep : Char) (s : String) : String :=
  String.ofList ((s.toList.reverse.takeWhile (· != sep)).reverse)

def simpleName (t : JType) : String := afterLast '.' t.elem.spelling ++ brackets t.dims.toNat

def methodDescriptor (ret : JType) (params : List JType) : String :=
  String.ofList ('(' :: params.flatMap descriptorChars ++ ')' :: ret.descriptorChars)

/-- Binary numeric promotion. Two booleans promote to boolean; no other pair with a boolean or
reference does. -/
def promote (a b : JType) : Option JType :=
  match a.kind, b.kind with
  | .prim .boolean, .prim .boolean => some boolean
  | .prim .boolean, _ | _, .prim .boolean => none
  | .prim p, .prim q =>
    let wider := if q.level > p.level then q else p
    some (ofPrim (if wider.level < Prim.int.level then .int else wider))
  | _, _ => none

def promoteUnary (t : JType) : JType :=
  match t.kind with
  | .prim .byte | .prim .short | .prim .char => int
  | _ => t

def box (t : JType) : Option JType :=
  match t.kind with
  | .prim p => some (ofClass p.boxName)
  | _ => none

def unbox (t : JType) : Option JType :=
  match t.base, t.dims with
  | .named n, 0 => (Prim.all.find? fun p => p.boxName = n).map ofPrim
  | _, _ => none

end JType

end ClassForge

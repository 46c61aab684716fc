namespace ClassForge

inductive Tag
  | utf8 | integer | float | long | double | classRef | string
  | fieldref | methodref | interfaceMethodref | nameAndType
  deriving DecidableEq, Repr

namespace Tag

def code : Tag → UInt8
  | .utf8 => 1
  | .integer => 3
  | .float => 4
  | .long => 5
  | .double => 6
  | .classRef => 7
  | .string => 8
  | .fieldref => 9
  | .methodref => 10
  | .interfaceMethodref => 11
  | .nameAndType => 12

def all : List Tag :=
  [.utf8, .integer, .float, .long, .double, .classRef, .string, .fieldref, .methodref,
   .interfaceMethodref, .nameAndType]

def ofCode? (n : UInt8) : Option Tag := all.find? fun t => t.code == n

def name : Tag → String
  | .utf8 => "Utf8"
  | .integer => "Integer"
  | .float => "Float"
  | .long => "Long"
  | .double => "Double"
  | .classRef => "Class"
  | .string => "String"
  | .fieldref => "Fieldref"
  | .methodref => "Methodref"
  | .interfaceMethodref => "InterfaceMethodref"
  | .nameAndType => "NameAndType"

def nameOfCode (n : UInt8) : String := ((ofCode? n).map name).getD "Unknown"

def isWide : Tag → Bool
  | .long | .double => true
  | _ => false

def width (t : Tag) : Nat := if t.isWide then 2 else 1

end Tag

inductive RefKind
  | field | method | interfaceMethod
  deriving DecidableEq, Repr, Hashable

/-- The content of a pool entry. Floating-point values are bit patterns; other entries refer to
earlier ones by index. -/
inductive Constant
  | utf8 (text : String)
  | integer (value : UInt32)
  | float (bits : UInt32)
  | long (value : UInt64)
  | double (bits : UInt64)
  | classRef (name : UInt16)
  | string (text : UInt16)
  | member (kind : RefKind) (owner nameAndType : UInt16)
  | nameAndType (name descriptor : UInt16)
  deriving DecidableEq, Repr, Hashable

namespace Constant

def tag : Constant → Tag
  | .utf8 _ => .utf8
  | .integer _ => .integer
  | .float _ => .float
  | .long _ => .long
  | .double _ => .double
  | .classRef _ => .classRef
  | .string _ => .string
  | .member .field _ _ => .fieldref
  | .member .method _ _ => .methodref
  | .member .interfaceMethod _ _ => .interfaceMethodref
  | .nameAndType _ _ => .nameAndType

def text : Constant → String
  | .utf8 s => s
  | _ => ""

def numbers : Constant → List Nat
  | .utf8 _ => []
  | .integer v | .float v => [v.toNat]
  | .long v | .double v => [v.toNat]
  | .classRef a | .string a => [a.toNat]
  | .member _ a b | .nameAndType a b => [a.toNat, b.toNat]

def compare : Constant → Constant → Ordering :=
  compareLex (compareOn (·.tag.code)) (compareLex (compareOn text) (compareOn numbers))

end Constant

end ClassForge

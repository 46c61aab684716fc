import ClassForge.JType
import ClassForge.Number.Shortest

namespace ClassForge.Assembler

inductive IntWidth
  | int8 | int16 | uint16 | int32 | int | int64 | uint8 | uint32 | uint64
  deriving DecidableEq, Repr

def IntWidth.all : List IntWidth :=
  [.int8, .int16, .uint16, .int32, .int, .int64, .uint8, .uint32, .uint64]

/-- A value given for a constant, an initializer or an annotation element. Floats are bit patterns. -/
inductive Literal
  | null
  | bool (b : Bool)
  | integer (width : IntWidth) (n : Int)
  | float (bits : UInt32)
  | double (bits : UInt64)
  | text (s : String)
  | type (t : JType)
  | texts (xs : List String)
  | list (xs : List Literal)
  | enumeration (type : JType) (name : String)
  | nested (type : JType) (visible : Bool) (elements : List (String × Literal))
  deriving Inhabited

structure Annotation where
  type : JType
  visible : Bool
  elements : List (String × Literal)
  deriving Inhabited

inductive Value
  | null
  | bool (b : Bool)
  | int (n : Int32)
  | long (n : Int64)
  | float (bits : UInt32)
  | double (bits : UInt64)
  | text (s : String)
  | type (t : JType)
  deriving DecidableEq, Inhabited

namespace IntWidth

def name : IntWidth → String
  | .int8 => "int8"
  | .int16 => "int16"
  | .uint16 => "uint16"
  | .int32 => "int32"
  | .int => "int"
  | .int64 => "int64"
  | .uint8 => "uint8"
  | .uint32 => "uint32"
  | .uint64 => "uint64"

def wrap : IntWidth → Int → Int
  | .int8, n => n.bmod 256
  | .int16, n => n.bmod 65536
  | .int32, n => n.bmod 4294967296
  | .int, n | .int64, n => n.bmod 18446744073709551616
  | .uint8, n => n % 256
  | .uint16, n => n % 65536
  | .uint32, n => n % 4294967296
  | .uint64, n => n % 18446744073709551616

def isSupported : IntWidth → Bool
  | .uint8 | .uint32 | .uint64 => false
  | _ => true

end IntWidth

namespace Literal

def typeName : Literal → String
  | .null => "<nil>"
  | .bool _ => "bool"
  | .integer w _ => w.name
  | .float _ => "float32"
  | .double _ => "float64"
  | .text _ => "string"
  | .type _ => "jtype.Type"
  | .texts _ => "[]string"
  | .list _ => "[]interface \x7b\x7d"
  | .enumeration _ _ => "asm.EnumValue"
  | .nested _ _ _ => "asm.Annotation"

def numberText : Literal → String
  | .integer _ n => toString n
  | .float b => FloatLayout.general.write .single b.toNat
  | .double b => FloatLayout.general.write .double b.toNat
  | _ => ""

def constantType : Literal → Option JType
  | .null => some .null
  | .bool _ => some .boolean
  | .integer .int8 _ => some .byte
  | .integer .int16 _ => some .short
  | .integer .uint16 _ => some .char
  | .integer .int32 _ => some .int
  | .integer .int n => some (if n < -2147483648 ∨ 2147483647 < n then .long else .int)
  | .integer .int64 _ => some .long
  | .integer _ _ => none
  | .float _ => some .float
  | .double _ => some .double
  | .text _ => some .string
  | .type _ => some (.ofClass "java/lang/Class")
  | .texts _ | .list _ | .enumeration _ _ | .nested _ _ _ => none

end Literal

end ClassForge.Assembler

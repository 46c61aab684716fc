import ClassForge.Assembler.Literal
import ClassForge.Opcode
import ClassForge.Text.Quoted

namespace ClassForge.Assembler

inductive Cmp
  | eq | ne | lt | ge | gt | le
  deriving DecidableEq, Repr

namespace Cmp

def negate : Cmp → Cmp
  | .eq => .ne
  | .ne => .eq
  | .lt => .ge
  | .ge => .lt
  | .gt => .le
  | .le => .gt

def named : List (String × Cmp) :=
  [("eq", .eq), ("ne", .ne), ("lt", .lt), ("le", .le), ("gt", .gt), ("ge", .ge)]

def symbol : Cmp → String
  | .eq => "=="
  | .ne => "!="
  | .lt => "<"
  | .ge => ">="
  | .gt => ">"
  | .le => "<="

def offset : Cmp → UInt8
  | .eq => 0
  | .ne => 1
  | .lt => 2
  | .ge => 3
  | .gt => 4
  | .le => 5

def isEquality (c : Cmp) : Bool := c == .eq || c == .ne

end Cmp

inductive BinaryOp
  | add | sub | mul | div | rem | and | or | xor | shl | shr | ushr
  deriving DecidableEq, Repr

namespace BinaryOp

def symbol : BinaryOp → String
  | .add => "+"
  | .sub => "-"
  | .mul => "*"
  | .div => "/"
  | .rem => "%"
  | .and => "&"
  | .or => "|"
  | .xor => "^"
  | .shl => "<<"
  | .shr => ">>"
  | .ushr => ">>>"

def named : List (String × BinaryOp) :=
  [("add", .add), ("sub", .sub), ("mul", .mul), ("div", .div), ("rem", .rem), ("and", .and), ("or", .or),
   ("xor", .xor), ("shl", .shl), ("shr", .shr), ("ushr", .ushr)]

def intOpcode : BinaryOp → Opcode
  | .add => .iadd
  | .sub => .isub
  | .mul => .imul
  | .div => .idiv
  | .rem => .irem
  | .and => .iand
  | .or => .ior
  | .xor => .ixor
  | .shl => .ishl
  | .shr => .ishr
  | .ushr => .iushr

def opcode (op : BinaryOp) (t : JType) : Opcode := op.intOpcode.plus (Opcode.family t.kind)

end BinaryOp

structure LocalRead where
  id : Nat
  name : String
  slot : Nat
  type : JType
  deriving DecidableEq, Repr

/-- The target of a call. `argSlots` counts the argument words of an interface call. -/
structure CallTarget where
  op : Opcode
  owner : JType
  name : String
  ref : UInt16
  argSlots : Nat
  deriving DecidableEq

/-- The pool entries of a concatenation: the builder class, its constructor, two appends and the
conversion. -/
structure ConcatRefs where
  builder : UInt16
  init : UInt16
  first : UInt16
  second : UInt16
  finish : UInt16
  deriving DecidableEq

/-- An expression whose types are checked and whose pool entries are known. What is marked implicit
was added by the assembler. -/
inductive Expr
  | const (type : JType) (value : Value) (ref : UInt16)
  | self (type : JType) (asSuper : Bool)
  | local (l : LocalRead)
  | staticGet (type owner : JType) (name : String) (ref : UInt16)
  | primitiveClass (of : JType) (ref : UInt16)
  | fieldGet (type : JType) (name : String) (ref : UInt16) (object : Expr)
  | arrayGet (type : JType) (array index : Expr)
  | arrayLength (array : Expr)
  | invoke (type : JType) (target : CallTarget) (implicit : Bool) (args : List Expr)
  | new (type : JType) (classRef constructor : UInt16) (args : List Expr)
  | newArray (elem : JType) (ref : UInt16) (length : Expr)
  | convert (type : JType) (ops : List Opcode) (implicit : Bool) (operand : Expr)
  | checkCast (type : JType) (ref : UInt16) (operand : Expr)
  | neg (type : JType) (operand : Expr)
  | not (operand : Expr)
  | binary (type : JType) (op : BinaryOp) (left right : Expr)
  | compare (cmp : Cmp) (left right : Expr)
  | nullTest (cmp : Cmp) (operand : Expr)
  | instanceOf (type : JType) (ref : UInt16) (operand : Expr)
  | logic (conj : Bool) (left right : Expr)
  | concat (refs : ConcatRefs) (left right : Expr)
  deriving Inhabited

namespace Expr

def kind : Expr → String
  | .const .. => "const"
  | .self .. => "this"
  | .local .. => "local"
  | .staticGet .. | .primitiveClass .. => "static"
  | .fieldGet .. => "field"
  | .arrayGet .. => "index"
  | .arrayLength .. => "length"
  | .invoke .. => "invoke"
  | .new .. => "new"
  | .newArray .. => "newarray"
  | .convert .. => "convert"
  | .checkCast .. => "checkcast"
  | .neg .. => "unary"
  | .not .. => "not"
  | .binary .. => "binary"
  | .compare .. => "compare"
  | .nullTest .. => "nulltest"
  | .instanceOf .. => "instanceof"
  | .logic .. => "logic"
  | .concat .. => "concat"

def type : Expr → JType
  | .const t .. | .self t .. | .staticGet t .. | .fieldGet t .. | .arrayGet t .. | .invoke t ..
  | .new t .. | .convert t .. | .checkCast t .. | .neg t .. | .binary t .. => t
  | .newArray t .. => t.arrayOf
  | .local l => l.type
  | .primitiveClass .. => .ofClass "java/lang/Class"
  | .arrayLength _ => .int
  | .not _ | .compare .. | .nullTest .. | .instanceOf .. | .logic .. => .boolean
  | .concat .. => .string

def isImplicit : Expr → Bool
  | .invoke _ _ implicit _ | .convert _ _ implicit _ => implicit
  | .checkCast .. => true
  | _ => false

def isNull : Expr → Bool
  | .const t .. => t.isNull
  | _ => false

mutual

def reads : Expr → List LocalRead
  | .local l => [l]
  | .const .. | .self .. | .staticGet .. | .primitiveClass .. => []
  | .fieldGet _ _ _ a | .arrayLength a | .newArray _ _ a | .convert _ _ _ a | .checkCast _ _ a
  | .neg _ a | .not a | .nullTest _ a | .instanceOf _ _ a => reads a
  | .arrayGet _ a b | .binary _ _ a b | .compare _ a b | .logic _ a b | .concat _ a b =>
    reads a ++ reads b
  | .invoke _ _ _ args | .new _ _ _ args => readsAll args

def readsAll : List Expr → List LocalRead
  | [] => []
  | e :: es => reads e ++ readsAll es

end

mutual

def need : Expr → Nat
  | .new t _ _ args => max (max (needSeq 2 args) t.slots) 1
  | .concat _ a b => max (max (max 2 (1 + need a)) (1 + need b)) 1
  | .logic _ a b => max (max (need a) (need b)) 1
  | .not a => max (need a) 1
  | .const t .. | .self t .. | .staticGet t .. => max t.slots 1
  | .local l => max l.type.slots 1
  | .primitiveClass .. => 1
  | .fieldGet t _ _ a | .convert t _ _ a | .checkCast t _ a | .neg t a =>
    max (max (max (need a) a.type.slots) t.slots) 1
  | .newArray t _ a => max (max (max (need a) a.type.slots) t.arrayOf.slots) 1
  | .arrayLength a | .nullTest _ a | .instanceOf _ _ a => max (max (need a) a.type.slots) 1
  | .arrayGet t a b | .binary t _ a b =>
    max (max (max (max (need a) (a.type.slots + need b)) (a.type.slots + b.type.slots)) t.slots) 1
  | .compare _ a b =>
    max (max (max (need a) (a.type.slots + need b)) (a.type.slots + b.type.slots)) 1
  | .invoke t _ _ args => max (max (needSeq 0 args) t.slots) 1

def needSeq (acc : Nat) : List Expr → Nat
  | [] => acc
  | e :: es => max (acc + need e) (needSeq (acc + e.type.slots) es)

end

end Expr

end ClassForge.Assembler

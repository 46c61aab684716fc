import ClassForge.Assembler.Expr

/-! What expressions of integers, truth values and references mean, with arithmetic in 32 and 64
bits of two's complement, operands promoted where they meet. -/

namespace ClassForge.Java

open Assembler (BinaryOp Cmp)

/-- A value. A `byte`, `short` or `char` is kept as `int`; a reference without an address is null. -/
inductive Value
  | bool (b : Bool)
  | int (n : Int32)
  | long (n : Int64)
  | ref (address : Option Nat)
  deriving DecidableEq, Repr

/-- An expression as it is asked for, without the conversions left to the language. -/
inductive Expr
  | bool (b : Bool)
  | int (n : Int32)
  | long (n : Int64)
  | null
  | get (slot : Nat)
  | neg (operand : Expr)
  | cast (type : Prim) (operand : Expr)
  | binary (op : BinaryOp) (left right : Expr)
  | compare (cmp : Cmp) (left right : Expr)
  | isNull (expected : Bool) (operand : Expr)
  | not (operand : Expr)
  | logic (conj : Bool) (left right : Expr)
  deriving DecidableEq, Repr

/-- An operation in 32 bits. The distance of a shift counts modulo 32. -/
def arith32 (op : BinaryOp) (x y : Int32) : Int32 :=
  match op with
  | .add => x + y
  | .sub => x - y
  | .mul => x * y
  | .and => x &&& y
  | .or => x ||| y
  | .xor => x ^^^ y
  | .shl => x <<< (y &&& 31)
  | .shr => x >>> (y &&& 31)
  | .ushr => (x.toUInt32 >>> (y.toUInt32 &&& 31)).toInt32
  | .div | .rem => 0

def arith64 (op : BinaryOp) (x y : Int64) : Int64 :=
  match op with
  | .add => x + y
  | .sub => x - y
  | .mul => x * y
  | .and => x &&& y
  | .or => x ||| y
  | .xor => x ^^^ y
  | .div | .rem | .shl | .shr | .ushr => 0

/-- A shift in 64 bits. The distance is an `int` and counts modulo 64. -/
def shift64 (op : BinaryOp) (x : Int64) (y : Int32) : Int64 :=
  match op with
  | .shl => x <<< (y.toInt64 &&& 63)
  | .shr => x >>> (y.toInt64 &&& 63)
  | .ushr => (x.toUInt64 >>> (y.toInt64.toUInt64 &&& 63)).toInt64
  | _ => 0

def isShift : BinaryOp → Bool
  | .shl | .shr | .ushr => true
  | _ => false

def arithBool (op : BinaryOp) (a b : Bool) : Bool :=
  match op with
  | .and => a && b
  | .or => a || b
  | .xor => a != b
  | _ => false

def decides (cmp : Cmp) (order : Ordering) : Bool :=
  match cmp with
  | .eq => order == .eq
  | .ne => order != .eq
  | .lt => order == .lt
  | .ge => order != .lt
  | .gt => order == .gt
  | .le => order != .gt

def compare32 (x y : Int32) : Ordering := compare x.toInt y.toInt

def compare64 (x y : Int64) : Ordering := compare x.toInt y.toInt

def toByte (n : Int32) : Int32 := n.toInt8.toInt32
def toShort (n : Int32) : Int32 := n.toInt16.toInt32

def toChar (n : Int32) : Int32 := (n.toUInt32 &&& 65535).toInt32

namespace Value

def truth : Value → Bool
  | .bool b => b
  | _ => false

def toInt : Value → Int32
  | .bool b => if b then 1 else 0
  | .int n => n
  | .long n => n.toInt32
  | .ref _ => 0

def toLong : Value → Int64
  | .long n => n
  | v => v.toInt.toInt64

def isLong : Value → Bool
  | .long _ => true
  | _ => false

def castTo (v : Value) : Prim → Value
  | .byte => .int (toByte v.toInt)
  | .short => .int (toShort v.toInt)
  | .char => .int (toChar v.toInt)
  | .int => .int v.toInt
  | .long => .long v.toLong
  | _ => v

def neg : Value → Value
  | .long n => .long (-n)
  | v => .int (-v.toInt)

/-- Both operands are widened to `long` where one is; only the left one decides about a shift. -/
def binary (op : BinaryOp) (x y : Value) : Value :=
  if isShift op then
    match x with
    | .long n => .long (shift64 op n y.toInt)
    | _ => .int (arith32 op x.toInt y.toInt)
  else
    match x, y with
    | .bool a, .bool b => .bool (arithBool op a b)
    | _, _ => if x.isLong || y.isLong then .long (arith64 op x.toLong y.toLong) else .int (arith32 op x.toInt y.toInt)

def compare (cmp : Cmp) (x y : Value) : Bool :=
  match x, y with
  | .ref a, .ref b => decides cmp (if a = b then .eq else .lt)
  | _, _ => decides cmp (if x.isLong || y.isLong then compare64 x.toLong y.toLong else compare32 x.toInt y.toInt)

def isNull : Value → Bool
  | .ref none => true
  | _ => false

def Has : Value → Kind → Prop
  | .bool _, .prim .boolean => True
  | .int n, .prim .byte => -128 ≤ n.toInt ∧ n.toInt ≤ 127
  | .int n, .prim .short => -32768 ≤ n.toInt ∧ n.toInt ≤ 32767
  | .int n, .prim .char => 0 ≤ n.toInt ∧ n.toInt ≤ 65535
  | .int _, .prim .int => True
  | .long _, .prim .long => True
  | .ref _, .reference => True
  | _, _ => False

end Value

def Expr.eval (env : Nat → Value) : Expr → Value
  | .bool b => .bool b
  | .int n => .int n
  | .long n => .long n
  | .null => .ref none
  | .get slot => env slot
  | .neg a => (a.eval env).neg
  | .cast t a => (a.eval env).castTo t
  | .binary op a b => (a.eval env).binary op (b.eval env)
  | .compare c a b => .bool ((a.eval env).compare c (b.eval env))
  | .isNull expected a => .bool ((a.eval env).isNull == expected)
  | .not a => .bool (!(a.eval env).truth)
  | .logic true a b => .bool ((a.eval env).truth && (b.eval env).truth)
  | .logic false a b => .bool ((a.eval env).truth || (b.eval env).truth)

end ClassForge.Java

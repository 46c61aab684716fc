import ClassForge.Assembler.Literal
import ClassForge.Time.Moment

namespace ClassForge.Recipe

open Assembler (IntWidth Literal)

inductive Value
  | null
  | bool (b : Bool)
  | integer (width : IntWidth) (n : Int)
  | float (bits : UInt64)
  | text (s : String)
  | moment (m : Moment)
  | list (ofTables : Bool) (items : List Value)
  | map (entries : List (Value × Value))

namespace Value

def isText : Value → Bool
  | .text _ => true
  | _ => false

def typeName : Value → String
  | .null => "<nil>"
  | .bool _ => "bool"
  | .integer w _ => w.name
  | .float _ => "float64"
  | .text _ => "string"
  | .moment _ => "time.Time"
  | .list false _ => "[]interface \x7b\x7d"
  | .list true _ => "[]map[string]interface \x7b\x7d"
  | .map es => if es.all (·.1.isText) then "map[string]interface \x7b\x7d" else "map[interface \x7b\x7d]interface \x7b\x7d"

def rank : Value → Nat
  | .null => 0
  | .integer .uint64 _ => 1
  | .integer _ _ => 2
  | .float _ => 3
  | .bool _ => 4
  | .text _ => 5
  | _ => 6

def floatKey (bits : UInt64) : Nat :=
  let half := 9223372036854775808
  let size := bits.toNat % half
  if 0x7ff0000000000000 < size then 0 else if half ≤ bits.toNat then half - size else half + size

def keyLe (a b : Value) : Bool :=
  match a, b with
  | .integer _ m, .integer _ n => if a.rank = b.rank then m ≤ n else a.rank ≤ b.rank
  | .float m, .float n => floatKey m ≤ floatKey n
  | .bool m, .bool n => !m || n
  | .text m, .text n => m ≤ n
  | _, _ => a.rank ≤ b.rank

mutual

def describe : Value → String
  | .null => "<nil>"
  | .bool b => toString b
  | .integer _ n => toString n
  | .float b => FloatLayout.general.write .double b.toNat
  | .text s => s
  | .moment m => m.text
  | .list _ xs => "[" ++ " ".intercalate (describeAll xs) ++ "]"
  | .map es =>
    "map[" ++ " ".intercalate (((describeEntries es).mergeSort fun a b => keyLe a.1 b.1).map (·.2)) ++ "]"

def describeAll : List Value → List String
  | [] => []
  | x :: xs => describe x :: describeAll xs

def describeEntries : List (Value × Value) → List (Value × String)
  | [] => []
  | (k, v) :: es => (k, describe k ++ ":" ++ describe v) :: describeEntries es

end

def oneChar? (s : String) : Option Char :=
  match s.toList with
  | [c] => some c
  | _ => none

def literal? (t : JType) (v : Value) : Option Literal :=
  match t.kind, v with
  | .prim .boolean, .bool b => some (.bool b)
  | .prim .byte, .integer _ n => ranged .int8 n (-128) 127
  | .prim .short, .integer _ n => ranged .int16 n (-32768) 32767
  | .prim .char, .text s => (oneChar? s).bind fun c => ranged .uint16 c.toNat 0 65535
  | .prim .char, .integer _ n => ranged .uint16 n 0 65535
  | .prim .int, .integer _ n => ranged .int32 n (-2147483648) 2147483647
  | .prim .long, .integer _ n => ranged .int64 n (-9223372036854775808) 9223372036854775807
  | .prim .float, .integer _ n => if fits n then some (.float (Binary.ofInt .single n).toUInt32) else none
  | .prim .float, .float b => some (.float (narrowBits b))
  | .prim .double, .integer _ n => if fits n then some (.double (Binary.ofInt .double n).toUInt64) else none
  | .prim .double, .float b => some (.double b)
  | .reference, .text s => if t = .string ∨ t = .object then some (.text s) else none
  | _, _ => none
where
  fits (n : Int) : Bool := -9223372036854775808 ≤ n && n ≤ 9223372036854775807
  ranged (w : IntWidth) (n low high : Int) : Option Literal :=
    if low ≤ n ∧ n ≤ high then some (.integer w n) else none

end Value

end ClassForge.Recipe

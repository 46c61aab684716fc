import ClassForge.Format.Yaml.Node
import ClassForge.Time.Moment

namespace ClassForge.Yaml

inductive Scalar
  | null
  | bool (b : Bool)
  | integer (n : Int)
  | float (bits : UInt64)
  | text (s : String)
  | moment (m : Moment)
  deriving DecidableEq, Repr

namespace Scalar

open Number (readInt readDigits readDouble isDigit)

def infinity : UInt64 := 0x7ff0000000000000

def ofWord? : String → Option Scalar
  | "true" | "True" | "TRUE" => some (.bool true)
  | "false" | "False" | "FALSE" => some (.bool false)
  | "" | "~" | "null" | "Null" | "NULL" => some .null
  | ".nan" | ".NaN" | ".NAN" => some (.float 0x7ff8000000000001)
  | ".inf" | ".Inf" | ".INF" | "+.inf" | "+.Inf" | "+.INF" => some (.float infinity)
  | "-.inf" | "-.Inf" | "-.INF" => some (.float (0x8000000000000000 ||| infinity))
  | _ => none

def moment? (cs : List Char) : Option Scalar :=
  let year := cs.takeWhile isDigit
  if year.length != 4 || cs[4]? != some '-' then none
  else
    let date := Moment.dateLayout true
    let time := Moment.timeLayout true
    let start : Moment := { zone := "UTC" }
    let zoned (c : Char) := Moment.read (date ++ .mark c :: time ++ [.zone]) start cs
    ((((zoned 'T').orElse fun _ => zoned 't').orElse fun _ => Moment.read (date ++ .blanks :: time) start cs).orElse
      fun _ => Moment.read date start cs).map .moment

/-- An integer that 64 bits can hold. Bases are told by `0x`, `0b`, `0o` or a leading zero. -/
def integer? (cs : List Char) : Option Scalar :=
  match readInt cs with
  | some n =>
    let unsigned := cs.head?.any isDigit
    if Number.fitsInt64 n || (unsigned && 0 ≤ n && n < 18446744073709551616) then some (.integer n) else none
  | none => none

def isFloat (cs : List Char) : Bool :=
  let cs := (Number.takeSign cs).2
  let whole := cs.takeWhile isDigit
  let rest := cs.dropWhile isDigit
  let rest := match rest with
    | '.' :: fs => if whole.isEmpty && fs.takeWhile isDigit == [] then ['.'] else fs.dropWhile isDigit
    | rest => if whole.isEmpty then ['.'] else rest
  match rest with
  | [] => true
  | e :: ds =>
    let digits := (Number.takeSign ds).2
    (e == 'e' || e == 'E') && !digits.isEmpty && digits.all isDigit

def number? (cs : List Char) : Option Scalar :=
  let plain := cs.filter (· != '_')
  (integer? plain).orElse fun _ => if isFloat plain then (readDouble plain).map .float else none

/-- What a scalar without quotes stands for. The first character tells what it may be. -/
def ofPlain (dated : Bool) (s : String) : Scalar :=
  match s.toList with
  | [] => .null
  | c :: cs =>
    (if "yYnNtTfFoO~.+-0123456789".toList.contains c then ofWord? s else none).getD
      (if c == '.' then ((readDouble (c :: cs)).map .float).getD (.text s)
      else if isDigit c || c == '+' || c == '-' then
        ((if dated then moment? (c :: cs) else none).orElse fun _ => number? (c :: cs)).getD (.text s)
      else .text s)

def tag : Scalar → String
  | .null => "!!null"
  | .bool _ => "!!bool"
  | .integer _ => "!!int"
  | .float _ => "!!float"
  | .text _ => "!!str"
  | .moment _ => "!!timestamp"

/-- What a scalar stands for. With a tag it must be of that kind; an integer can serve as a float. -/
def resolve (tag? : Option String) (text : String) (style : Style) : Option Scalar :=
  match tag? with
  | none => some (if style = .plain then ofPlain true text else .text text)
  | some "!!str" => some (.text text)
  | some t =>
    let v := ofPlain (t = "!!timestamp") text
    if v.tag = t then some v
    else match v with
      | .integer n =>
        if t = "!!float" then (readDouble (toString n).toList).map .float else none
      | _ => none

end Scalar

def Node.scalar? : Node → Option Scalar
  | .scalar tag text style => Scalar.resolve tag text style
  | _ => none

end ClassForge.Yaml

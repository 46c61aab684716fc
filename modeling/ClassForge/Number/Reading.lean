import ClassForge.Number.Binary
import ClassForge.Text.Table

namespace ClassForge.Number

def isDigit (c : Char) : Bool := '0' ≤ c && c ≤ '9'

def digitValue? (base : Nat) (c : Char) : Option Nat :=
  let n :=
    if isDigit c then c.toNat - '0'.toNat
    else if 'a' ≤ c && c ≤ 'z' then c.toNat - 'a'.toNat + 10
    else if 'A' ≤ c && c ≤ 'Z' then c.toNat - 'A'.toNat + 10
    else base
  if n < base then some n else none

def readDigits (base : Nat) (cs : List Char) : Option Nat :=
  cs.foldlM (fun n c => (digitValue? base c).map (base * n + ·)) 0

def takeSign : List Char → Bool × List Char
  | '-' :: cs => (true, cs)
  | '+' :: cs => (false, cs)
  | cs => (false, cs)

/-- A natural number whose base is told by `0x`, `0b`, `0o` or a leading zero, else ten. -/
def readNat : List Char → Option Nat
  | '0' :: p :: d :: cs =>
    if p == 'x' || p == 'X' then readDigits 16 (d :: cs)
    else if p == 'b' || p == 'B' then readDigits 2 (d :: cs)
    else if p == 'o' || p == 'O' then readDigits 8 (d :: cs)
    else readDigits 8 (p :: d :: cs)
  | '0' :: cs => readDigits 8 cs
  | [] => none
  | cs => readDigits 10 cs

def readInt (cs : List Char) : Option Int :=
  let (negative, digits) := takeSign cs
  (readNat digits).map fun n => if negative then -(n : Int) else n

def fitsInt64 (n : Int) : Bool := -9223372036854775808 ≤ n && n < 9223372036854775808

/-- A decimal as written: sign, all digits, and the power of ten of the last digit. -/
structure Scientific where
  negative : Bool
  digits : Nat
  scale : Int
  deriving DecidableEq, Repr

def readExponent : List Char → Option Int
  | [] => some 0
  | c :: cs =>
    if c == 'e' || c == 'E' then
      let (negative, digits) := takeSign cs
      if digits.isEmpty then none
      else (readDigits 10 digits).map fun n => if negative then -(n : Int) else n
    else none

/-- Digits with at most one point among them, at least one digit, and an optional exponent. -/
def readScientific (cs : List Char) : Option Scientific := do
  let (negative, cs) := takeSign cs
  let whole := cs.takeWhile isDigit
  let (fraction, rest) := match cs.dropWhile isDigit with
    | '.' :: cs => (cs.takeWhile isDigit, cs.dropWhile isDigit)
    | cs => ([], cs)
  if whole.isEmpty && fraction.isEmpty then none
  let e ← readExponent rest
  let n ← readDigits 10 (whole ++ fraction)
  return ⟨negative, n, e - fraction.length⟩

def Scientific.toDouble? (d : Scientific) : Option Nat :=
  let f := BinaryFormat.double
  let size := (Nat.toDigits 10 d.digits).length
  let bits : Option Nat :=
    if d.digits = 0 ∨ d.scale + size < -400 then some 0
    else if 400 < d.scale + size then none
    else if 0 ≤ d.scale then some (Binary.ofRatio f (d.digits * Nat.pow 10 d.scale.toNat) 1)
    else some (Binary.ofRatio f d.digits (Nat.pow 10 (-d.scale).toNat))
  match bits with
  | some b => if f.infinity ≤ b then none else some (Binary.withSign f d.negative b)
  | none => none

def readDouble (cs : List Char) : Option UInt64 :=
  ((readScientific cs).bind (·.toDouble?)).map (·.toUInt64)

end ClassForge.Number

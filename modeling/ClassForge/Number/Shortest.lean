import ClassForge.Number.Binary

namespace ClassForge

structure Decimal where
  digits : List Nat
  point : Int
  deriving DecidableEq, Repr

namespace Decimal

def digitsOf (n : Nat) : List Nat := (Nat.toDigits 10 n).map fun c => c.toNat - 48

def dropZeros (ds : List Nat) : List Nat := (ds.reverse.dropWhile (· = 0)).reverse

def ofScaled (n : Nat) (scale : Int) : Decimal :=
  let ds := digitsOf n
  ⟨dropZeros ds, ds.length + scale⟩

/-- A positive number `value · 2 ^ e` with the ends of the interval that rounds to it. -/
structure Interval where
  low : Nat
  value : Nat
  high : Nat
  e : Int
  closed : Bool

/-- The interval of a finite number of a format. Below a power of two the gap is half as wide. -/
def interval (f : BinaryFormat) (m : Nat) (e : Int) : Interval :=
  { low := if m = 1 <<< f.fraction ∧ f.least < e then 4 * m - 1 else 4 * m - 2
    value := 4 * m
    high := 4 * m + 2
    e := e - 2
    closed := m % 2 = 0 }

namespace Interval

/-- The factors that turn a multiple of `2 ^ e` into a quotient of units `10 ^ s`. -/
def scale (i : Interval) (s : Int) : Nat × Nat :=
  (Nat.pow 10 (-s).toNat <<< i.e.toNat, Nat.pow 10 s.toNat <<< (-i.e).toNat)

/-- The multiple of `10 ^ s` next to the value that lies in the interval, the nearer if both do. -/
def onGrid? (i : Interval) (s : Int) : Option Nat :=
  let (mul, div) := i.scale s
  let v := i.value * mul
  let down := v / div
  let up := down + 1
  let okDown := if i.closed then i.low * mul ≤ down * div else i.low * mul < down * div
  let okUp := if i.closed then up * div ≤ i.high * mul else up * div < i.high * mul
  if okDown then
    if okUp then
      let below := v - down * div
      let above := up * div - v
      if below < above ∨ (below = above ∧ down % 2 = 0) then some down else some up
    else some down
  else if okUp then some up
  else none

/-- The number of digits before the decimal point, from a guess that is not too high. -/
def pointFrom (i : Interval) : Nat → Int → Int
  | 0, p => p
  | n + 1, p =>
    let (mul, div) := i.scale p
    if i.value * mul < div then p else pointFrom i n (p + 1)

def point (i : Interval) : Int := i.pointFrom 4 (((i.value.log2 : Int) + i.e) * 30103 / 100000 - 1)

def search (i : Interval) (p : Int) : Nat → Nat → Decimal
  | 0, n => ofScaled (i.value * (i.scale (p - n)).1 / (i.scale (p - n)).2) (p - n)
  | fuel + 1, n =>
    match i.onGrid? (p - n) with
    | some d => ofScaled d (p - n)
    | none => search i p fuel (n + 1)

end Interval

/-- The fewest digits that read back as the same number of the format; of those, the nearest.
Seventeen are always enough. -/
def shortest (f : BinaryFormat) (m : Nat) (e : Int) : Decimal :=
  if m = 0 then ⟨[], 0⟩
  else
    let i := interval f m e
    i.search i.point 17 1

end Decimal

/-- Where a float is written with an exponent, and how many digits the exponent has at least. -/
structure FloatLayout where
  smallest : Int
  largest : Int
  exponentDigits : Nat

namespace FloatLayout

def digitText (ds : List Nat) : String := String.ofList (ds.map fun d => Char.ofNat (48 + d))

def scientific (layout : FloatLayout) (d : Decimal) : String :=
  let ds := if d.digits.isEmpty then [0] else d.digits
  let e := if d.digits.isEmpty then 0 else d.point - 1
  let tail := if ds.length > 1 then "." ++ digitText ds.tail else ""
  let exponent := toString e.natAbs
  let zeros := String.ofList (List.replicate (layout.exponentDigits - exponent.length) '0')
  digitText (ds.take 1) ++ tail ++ "e" ++ (if e < 0 then "-" else "+") ++ zeros ++ exponent

def positional (d : Decimal) : String :=
  if d.point ≤ 0 then
    let zeros := if d.digits.isEmpty then [] else List.replicate (-d.point).toNat 0
    if d.digits.isEmpty then "0" else "0." ++ digitText (zeros ++ d.digits)
  else
    let n := d.point.toNat
    let whole := d.digits.take n ++ List.replicate (n - d.digits.length) 0
    let rest := d.digits.drop n
    digitText whole ++ if rest.isEmpty then "" else "." ++ digitText rest

def layout (l : FloatLayout) (d : Decimal) : String :=
  if !d.digits.isEmpty && (d.point - 1 < l.smallest || l.largest ≤ d.point - 1) then l.scientific d
  else positional d

def write (l : FloatLayout) (f : BinaryFormat) (bits : Nat) : String :=
  match Binary.decode f bits with
  | .nan _ _ => "NaN"
  | .infinite negative => if negative then "-Inf" else "+Inf"
  | .finite negative m e => (if negative then "-" else "") ++ l.layout (Decimal.shortest f m e)

/-- Numbers below 0.0001 and from a million on have an exponent, of two digits at least. -/
def general : FloatLayout := ⟨-4, 6, 2⟩

def json : FloatLayout := ⟨-6, 21, 1⟩

end FloatLayout

end ClassForge

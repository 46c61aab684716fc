import ClassForge.Number.Binary

namespace ClassForge.Number

def withPoint (places n : Nat) : String :=
  let digits := toString n
  let digits := String.ofList (List.replicate (places + 1 - digits.length) '0') ++ digits
  let whole := digits.toList.take (digits.length - places)
  let rest := digits.toList.drop (digits.length - places)
  String.ofList (if places = 0 then whole else whole ++ '.' :: rest)

/-- A double with a fixed number of places, rounded to the nearest, a tie to the even digit. -/
def fixed (places : Nat) (bits : UInt64) : String :=
  match Binary.decode .double bits.toNat with
  | .nan .. => "NaN"
  | .infinite negative => if negative then "-Inf" else "+Inf"
  | .finite negative m e =>
    (if negative then "-" else "") ++ withPoint places (roundDiv ((m * Nat.pow 10 places) <<< e.toNat) (1 <<< (-e).toNat))

def quotient (n : Int) (d : Nat) : UInt64 :=
  (Binary.withSign .double (n < 0) (Binary.ofRatio .double n.natAbs d)).toUInt64

def fraction (bits : UInt64) : Nat × Nat :=
  match Binary.decode .double bits.toNat with
  | .finite _ m e => (m <<< e.toNat, 1 <<< (-e).toNat)
  | _ => (0, 1)

def plus (a b : UInt64) : UInt64 :=
  let (p, q) := fraction a
  let (r, s) := fraction b
  (Binary.ofRatio .double (p * s + r * q) (q * s)).toUInt64

def share (a : UInt64) (n : Nat) : UInt64 :=
  let (p, q) := fraction a
  (Binary.ofRatio .double p (q * n)).toUInt64

end ClassForge.Number

namespace ClassForge

def roundDiv (num den : Nat) : Nat :=
  let q := num / den
  let r := num % den
  if 2 * r < den then q
  else if den < 2 * r then q + 1
  else if q % 2 = 0 then q else q + 1

/-- A binary floating-point format by the widths of its fraction and exponent fields. -/
structure BinaryFormat where
  fraction : Nat
  exponent : Nat

namespace BinaryFormat

def single : BinaryFormat := ⟨23, 8⟩
def double : BinaryFormat := ⟨52, 11⟩

def least (f : BinaryFormat) : Int := 2 - (1 <<< (f.exponent - 1) : Nat) - f.fraction

def signBit (f : BinaryFormat) : Nat := 1 <<< (f.exponent + f.fraction)

def infinity (f : BinaryFormat) : Nat := (1 <<< f.exponent - 1) <<< f.fraction

def quietBit (f : BinaryFormat) : Nat := 1 <<< (f.fraction - 1)

end BinaryFormat

/-- What a bit pattern stands for; a finite number is `mantissa · 2 ^ exponent`. -/
inductive Binary
  | nan (negative : Bool) (payload : Nat)
  | infinite (negative : Bool)
  | finite (negative : Bool) (mantissa : Nat) (exponent : Int)
  deriving DecidableEq, Repr

namespace Binary

def decode (f : BinaryFormat) (bits : Nat) : Binary :=
  let negative := f.signBit ≤ bits
  let rest := bits % f.signBit
  let e := rest / 1 <<< f.fraction
  let m := rest % 1 <<< f.fraction
  if f.infinity < rest then .nan negative m
  else if rest = f.infinity then .infinite negative
  else if e = 0 then .finite negative m f.least
  else .finite negative (1 <<< f.fraction + m) (f.least + e - 1)

/-- The exponent of the last place of the number of the format that is nearest to `num / den`. -/
def lastPlace (f : BinaryFormat) (num den : Nat) : Int :=
  let q : Int := (num.log2 : Int) - den.log2 - f.fraction
  let q := if num <<< (-q).toNat < den <<< q.toNat <<< f.fraction then q - 1 else q
  max q f.least

def ofRatio (f : BinaryFormat) (num den : Nat) : Nat :=
  if num = 0 then 0
  else
    let q := lastPlace f num den
    let m := roundDiv (num <<< (-q).toNat) (den <<< q.toNat)
    min ((q - f.least).toNat <<< f.fraction + m) f.infinity

def withSign (f : BinaryFormat) (negative : Bool) (bits : Nat) : Nat :=
  if negative then f.signBit + bits else bits

def ofInt (f : BinaryFormat) (n : Int) : Nat := withSign f (n < 0) (ofRatio f n.natAbs 1)

/-- The same number in another format. A NaN becomes quiet and keeps the high end of its payload. -/
def convert (source target : BinaryFormat) (bits : Nat) : Nat :=
  match decode source bits with
  | .nan negative payload =>
    let payload := payload <<< target.fraction >>> source.fraction
    withSign target negative (target.infinity + (payload ||| target.quietBit))
  | .infinite negative => withSign target negative target.infinity
  | .finite negative m e =>
    withSign target negative (ofRatio target (m <<< e.toNat) (1 <<< (-e).toNat))

end Binary

def widenBits (bits : UInt32) : UInt64 := (Binary.convert .single .double bits.toNat).toUInt64

def narrowBits (bits : UInt64) : UInt32 := (Binary.convert .double .single bits.toNat).toUInt32

end ClassForge

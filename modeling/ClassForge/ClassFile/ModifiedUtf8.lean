import ClassForge.Text.Utf8

namespace ClassForge.ModifiedUtf8

def three (n : Nat) : List UInt8 :=
  [(0xe0 + n / 4096).toUInt8, (0x80 + n / 64 % 64).toUInt8, (0x80 + n % 64).toUInt8]

/-- NUL takes two bytes, and a character beyond the basic plane the three-byte forms of its
surrogates. -/
def encodeChar (c : Char) : List UInt8 :=
  let n := c.toNat
  if n ≠ 0 ∧ n < 0x80 then [n.toUInt8]
  else if n < 0x800 then [(0xc0 + n / 64).toUInt8, (0x80 + n % 64).toUInt8]
  else if n < 0x10000 then three n
  else three (0xd800 + (n - 0x10000) / 1024) ++ three (0xdc00 + (n - 0x10000) % 1024)

def encodeChars (cs : List Char) : List UInt8 := cs.flatMap encodeChar

def encode (s : String) : List UInt8 := encodeChars s.toList

def size (s : String) : Nat := s.toList.foldl (fun n c => n + (encodeChar c).length) 0

/-- The UTF-16 units of an encoding. A byte that begins no complete form is skipped. -/
def units : List UInt8 → List Nat
  | [] => []
  | a :: r =>
    if a < 0x80 then a.toNat :: units r
    else match r with
      | [] => []
      | b :: r' =>
        if a.toNat / 32 = 6 then ((a.toNat % 32) * 64 + b.toNat % 64) :: units r'
        else match r' with
          | [] => units [b]
          | c :: r'' => ((a.toNat % 16) * 4096 + (b.toNat % 64) * 64 + c.toNat % 64) :: units r''

/-- The characters of UTF-16 units. A surrogate without its partner reads as the replacement
character. -/
def joinUnits : List Nat → List Char
  | [] => []
  | [u] => [if 0xd800 ≤ u ∧ u < 0xe000 then Text.replacement else Char.ofNat u]
  | u :: v :: r =>
    if 0xd800 ≤ u ∧ u < 0xdc00 ∧ 0xdc00 ≤ v ∧ v < 0xe000 then
      Char.ofNat (0x10000 + (u - 0xd800) * 1024 + (v - 0xdc00)) :: joinUnits r
    else (if 0xd800 ≤ u ∧ u < 0xe000 then Text.replacement else Char.ofNat u) :: joinUnits (v :: r)

def decode (bytes : List UInt8) : String := String.ofList (joinUnits (units bytes))

end ClassForge.ModifiedUtf8

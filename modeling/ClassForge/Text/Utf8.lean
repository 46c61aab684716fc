namespace ClassForge.Text

def isContinuation (b : UInt8) : Bool := 0x80 ≤ b && b ≤ 0xbf

def replacement : Char := Char.ofNat 0xfffd

/-- The first character of a byte string and its number of bytes. A byte that begins no well-formed
sequence reads as the replacement character. -/
def decodeHead (a : UInt8) (rest : List UInt8) : Char × Nat :=
  if a < 0x80 then (Char.ofNat a.toNat, 1)
  else match rest with
    | [] => (replacement, 1)
    | b :: rest =>
      if 0xc2 ≤ a && a ≤ 0xdf && isContinuation b then
        (Char.ofNat ((a.toNat % 32) * 64 + b.toNat % 64), 2)
      else match rest with
        | [] => (replacement, 1)
        | c :: rest =>
          let n := (a.toNat % 16) * 4096 + (b.toNat % 64) * 64 + c.toNat % 64
          if 0xe0 ≤ a && a ≤ 0xef && isContinuation b && isContinuation c && 0x800 ≤ n &&
              !(0xd800 ≤ n && n ≤ 0xdfff) then (Char.ofNat n, 3)
          else match rest with
            | [] => (replacement, 1)
            | d :: _ =>
              let n := (a.toNat % 8) * 262144 + (b.toNat % 64) * 4096 + (c.toNat % 64) * 64 + d.toNat % 64
              if 0xf0 ≤ a && a ≤ 0xf4 && isContinuation b && isContinuation c && isContinuation d &&
                  0x10000 ≤ n && n ≤ 0x10ffff then (Char.ofNat n, 4)
              else (replacement, 1)

/-- The characters of a byte string, `skip` bytes of which belong to a character already read. -/
def decodeFrom : Nat → List UInt8 → List Char
  | _, [] => []
  | skip + 1, _ :: rest => decodeFrom skip rest
  | 0, a :: rest =>
    let (c, n) := decodeHead a rest
    c :: decodeFrom (n - 1) rest

/-- The characters of a byte string, with a replacement character for each invalid byte. -/
def decodeUtf8 (bytes : List UInt8) : List Char := decodeFrom 0 bytes

def encodeChar (c : Char) : List UInt8 :=
  let n := c.toNat
  if n < 0x80 then [n.toUInt8]
  else if n < 0x800 then [(0xc0 + n / 64).toUInt8, (0x80 + n % 64).toUInt8]
  else if n < 0x10000 then
    [(0xe0 + n / 4096).toUInt8, (0x80 + n / 64 % 64).toUInt8, (0x80 + n % 64).toUInt8]
  else
    [(0xf0 + n / 262144).toUInt8, (0x80 + n / 4096 % 64).toUInt8, (0x80 + n / 64 % 64).toUInt8,
     (0x80 + n % 64).toUInt8]

def encodeUtf8 (s : String) : List UInt8 := s.toList.flatMap encodeChar

end ClassForge.Text

import ClassForge.Text.Quoted

namespace ClassForge

structure Digest where
  bytes : List UInt8
  deriving DecidableEq, Repr

namespace Digest

def hex (d : Digest) : String := Text.hexText d.bytes

namespace Sha256

def rotate (x : UInt32) (n : UInt32) : UInt32 := (x >>> n) ||| (x <<< (32 - n))

def constants : List UInt32 :=
  [0x428a2f98, 0x71374491, 0xb5c0fbcf, 0xe9b5dba5, 0x3956c25b, 0x59f111f1, 0x923f82a4, 0xab1c5ed5,
   0xd807aa98, 0x12835b01, 0x243185be, 0x550c7dc3, 0x72be5d74, 0x80deb1fe, 0x9bdc06a7, 0xc19bf174,
   0xe49b69c1, 0xefbe4786, 0x0fc19dc6, 0x240ca1cc, 0x2de92c6f, 0x4a7484aa, 0x5cb0a9dc, 0x76f988da,
   0x983e5152, 0xa831c66d, 0xb00327c8, 0xbf597fc7, 0xc6e00bf3, 0xd5a79147, 0x06ca6351, 0x14292967,
   0x27b70a85, 0x2e1b2138, 0x4d2c6dfc, 0x53380d13, 0x650a7354, 0x766a0abb, 0x81c2c92e, 0x92722c85,
   0xa2bfe8a1, 0xa81a664b, 0xc24b8b70, 0xc76c51a3, 0xd192e819, 0xd6990624, 0xf40e3585, 0x106aa070,
   0x19a4c116, 0x1e376c08, 0x2748774c, 0x34b0bcb5, 0x391c0cb3, 0x4ed8aa4a, 0x5b9cca4f, 0x682e6ff3,
   0x748f82ee, 0x78a5636f, 0x84c87814, 0x8cc70208, 0x90befffa, 0xa4506ceb, 0xbef9a3f7, 0xc67178f2]

structure State where
  a : UInt32 := 0x6a09e667
  b : UInt32 := 0xbb67ae85
  c : UInt32 := 0x3c6ef372
  d : UInt32 := 0xa54ff53a
  e : UInt32 := 0x510e527f
  f : UInt32 := 0x9b05688c
  g : UInt32 := 0x1f83d9ab
  h : UInt32 := 0x5be0cd19

def State.words (s : State) : List UInt32 := [s.a, s.b, s.c, s.d, s.e, s.f, s.g, s.h]

def State.add (s t : State) : State :=
  ⟨s.a + t.a, s.b + t.b, s.c + t.c, s.d + t.d, s.e + t.e, s.f + t.f, s.g + t.g, s.h + t.h⟩

def round (s : State) (k w : UInt32) : State :=
  let mix := s.h + (rotate s.e 6 ^^^ rotate s.e 11 ^^^ rotate s.e 25) +
    ((s.e &&& s.f) ^^^ (~~~s.e &&& s.g)) + k + w
  let top := (rotate s.a 2 ^^^ rotate s.a 13 ^^^ rotate s.a 22) +
    ((s.a &&& s.b) ^^^ (s.a &&& s.c) ^^^ (s.b &&& s.c))
  ⟨mix + top, s.a, s.b, s.c, s.d + mix, s.e, s.f, s.g⟩

def schedule : Nat → Array UInt32 → Array UInt32
  | 0, ws => ws
  | n + 1, ws =>
    let ago (back : Nat) : UInt32 := ws.getD (ws.size - back) 0
    let x := ago 15
    let y := ago 2
    schedule n (ws.push (ago 16 + (rotate x 7 ^^^ rotate x 18 ^^^ (x >>> 3)) + ago 7 +
      (rotate y 17 ^^^ rotate y 19 ^^^ (y >>> 10))))

def block (s : State) (ws : List UInt32) : State :=
  let ws := schedule 48 ws.toArray
  s.add ((constants.zip ws.toList).foldl (fun s (k, w) => round s k w) s)

def wordsOf : List UInt8 → List UInt32
  | a :: b :: c :: d :: rest =>
    ((a.toUInt32 <<< 24) ||| (b.toUInt32 <<< 16) ||| (c.toUInt32 <<< 8) ||| d.toUInt32) :: wordsOf rest
  | _ => []

/-- The message with a one bit, zeros up to whole blocks, and its length in bits at the end. -/
def padded (message : List UInt8) : List UInt8 :=
  let n := message.length
  let bits := 8 * n
  message ++ (0x80 : UInt8) :: List.replicate ((119 - n % 64) % 64) 0 ++
    (List.range 8).map fun i => (bits >>> (8 * (7 - i))).toUInt8

def blocks : Nat → State → List UInt32 → State
  | 0, s, _ => s
  | n + 1, s, ws => blocks n (block s (ws.take 16)) (ws.drop 16)

end Sha256

def sha256 (message : List UInt8) : Digest :=
  let ws := Sha256.wordsOf (Sha256.padded message)
  let s := Sha256.blocks (ws.length / 16) {} ws
  ⟨s.words.flatMap fun (w : UInt32) => [(w >>> 24).toUInt8, (w >>> 16).toUInt8, (w >>> 8).toUInt8, w.toUInt8]⟩

def framed (part : List UInt8) : List UInt8 :=
  ((List.range 8).map fun i => (part.length >>> (8 * i)).toUInt8) ++ part

def message (parts : List (List UInt8)) : List UInt8 := parts.flatMap framed

/-- A checksum of several parts, which also depends on where one ends and the next begins. -/
def ofParts (parts : List (List UInt8)) : Digest := sha256 (message parts)

end Digest

end ClassForge

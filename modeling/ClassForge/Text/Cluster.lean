import ClassForge.Text.Table

namespace ClassForge.Text

/-! Text as a reader counts it: a letter with its marks, or a picture made of several, is one cluster. -/

inductive BreakClass
  | other
  | carriageReturn
  | lineFeed
  | control
  | extend
  | joiner
  | flag
  | prepend
  | spacing
  | leading
  | vowel
  | trailing
  | syllable (closed : Bool)
  | picture
  deriving DecidableEq, Repr

def extendRanges : CharRanges := .ofTable
  ["300-70 113-7 107-2d 1 1-2 1-2 1 48-b 30-15 10 65-7 2-6 2-2 1-4 23 1e-1b 5b-b 3a-9 9 18-4 1-9 1-3 1-5 2b-3 3c-8",
   "2a-18 1-20 37 1 4-8 4 3-7 a-2 1d 3a 1 2-4 8 9 a-2 1a 2-2 39 4-2 4-2 2-3 3 1e-2 3 b-2 39 4-5 1-2 4 14-2 16-6 1 3a",
   "1-2 1-4 8 7-3 a-2 1e 3b 1 c 9 28 3 37 1-3 5-3 1-4 7-2 b-2 1d 3a 2 2 3 5-2 7-2 b-2 1c-2 39-2 1 2-4 8 9 a-2 1d 48 4",
   "2-3 1 8 51 2-7 c-8 62 2-9 b-7 49-2 1b 1 1 37-e 1-5 1-2 5-b 1-24 9 66-4 1-6 1-2 2-2 19-2 4-3 10-4 d 2-2 6 f 2bf-3",
   "3b2-3 1d-2 1e-2 1e-2 40-2 1-7 8 2-b 9 2d-3 1 75-2 22 76-3 4-2 9 6-3 db-2 2 3a 1-7 1 1 2-8 6-a 2 30-1f 31-4 30-7 1",
   "5 28-9 c-2 20-4 2-2 1-3 38 1-2 3 1-3 3a-8 2-2 98-3 1-d 1-7 4 6 3-2 c6-40 20c c3-21 bfe-3 8d 60-20 22a-6 69-2",
   "75d4-4 1-a 20-2 50-2 110 3 4 19-2 5 97-2 1a-12 d 26-8 19-b 2e-3 30 2-4 2-2 27 43-6 2-2 2-2 c 8 2f 33 1-3 2-2 5-2 1",
   "2a-2 8 ee 2 4 4f30 2e1-10 10-10 16e-2 25d e2 95-5 686-3 1-2 5-4 28-3 4 a5-2 23d-4 183-2 50-3 46-b 31-4 7b 36-f 29",
   "2-2 a-3 31-4 2-2 7 3d-3 24-5 1-8 3e c-2 34-9 a-4 2 5f-3 2 1-2 6 2 9d 3-8 15-2 39-2 1 1 16 e-7 3-5 c3-8 2-3 1 17 51",
   "2-6 1 2 1-2 1-2 eb 2-4 6-2 1-2 1b-2 55-8 2 1-2 6a 1 2-6 1 65-3 2-4 1-5 103-9 1-2 f5 a-2 1 4 90-4 2-2 4 20-a 28-6",
   "2-4 8 9-6 2-3 2e-d 1-2 196-7 1-6 1 52-16 2-7 1-2 1-2 7a-6 3 1-2 1-7 1 48-2 3 1 15b-2 b-2 34-5 5 1 14fd 6-f 369a-5",
   "3b-7 418 3f-4 51 4cb8-2 1261-2e 2-17 21e 1-3 4-5 8-8 2-7 1e-4 94-3 7bb-37 4-32 8 e 16-5 1-f 550-7 1-11 2-7 1-2 1-5",
   "64 a0-7 177 3d-4 1fc-4 3e0-7 6d-7 ab0-5 c0c20-60 80-f0"]

def controlRanges : CharRanges := .ofTable
  ["0-a 1-2 1-12 5f-21 d 56e 11f1 7fc 2-2 18-7 31-10 de8f f0-c 3434-10 8860-4 14cf-8 c2e85-20 60-80 f0-e10"]

def spacingRanges : CharRanges := .ofTable
  ["903 37 2-3 8-4 1-2 32-2 3b-2 6-2 2-2 36 3a-3 42 3a-3 8 1-2 35-2 3c 6-2 2-2 72 1-2 3-3 1-3 34-3 3d-4 3d-2 3a 1-2",
   "1-2 2-2 1-2 27 e-2 3b-2 5-3 1-3 35-2 4c-2 6-7 13-2 3f 7f 8a-2 3f b1 9-2 19-2 2c 690 1e 81 7-8 1-2 15a-4 2-3 4-2",
   "1-6 e0-2 3a 1 15-6 91 36 1-5 1-2 3d 1e 4-2 2 3c 2-3 1 3-2 30-8 8-2 ab 15 8b2b-2 2 58-2 32-10 8e-2 2f 30-2 4-2 2-3",
   "6e-2 2-2 18 9d 2-2 5 ed-2 1-2 1-2 1 6413 1 7f 2d-3 4-2 73 18-2 3b 30-3 9-2 d 5d-3 3-2 1 aa-3 1f-2 3b 1-4 2-2 2-3",
   "14-2 d1-3 8-2 3 6b-2 6 1-2 1 2 ee-2 6-4 2 71-3 8-2 1 6d 1-2 6 6f 105-3 9 f8-5 1-2 4 2 1 8e-3 8-4 4 54 1d-2 3e 197",
   "e 6a 7 2 d5-5 4-2 1 15e-2 c 30-2 8-2 1 500f-37 68-2 6174 6"]

def prependRanges : CharRanges := .ofTable
  ["600-6 d7 31 180-2 50 46b 1036e f f4-2 77b 1 f8 49-6 2bc 1bb"]

def pictureRanges : CharRanges := .ofTable
  ["a9 4 1f8d c d8 16 5a-6 f-2 16f-2 c 5f 46 19-b 4-3 c7 e7-2 a 9 3a-4 1-6 1-c 1-72 a-76 2-b 1 1 6 3 6 a-2 f 2 4 1 4-3",
   "1 b-5 2d-3 9 e e 174-2 1cf-3 13-2 33 4 4da c 259 1 1bd66-100 d-3 1f 3c-6 c-2 e 2-a 12-39 1b-f a 14 2-9 1-4 9-1b2",
   "5-13e 8-10a 30-80 74-c 55-2b c-4 38-8 a-6 28-8 1e-52 c-2f 1-a 1-1b9 100-3fe"]

namespace BreakClass

/-- The Korean letters of the three places in a syllable, and whole syllables with and without a last
letter. -/
def korean? (n : Nat) : Option BreakClass :=
  let within (a b : Nat) : Bool := a ≤ n && n ≤ b
  if within 0x1100 0x115f || within 0xa960 0xa97c then some .leading
  else if within 0x1160 0x11a7 || within 0xd7b0 0xd7c6 then some .vowel
  else if within 0x11a8 0x11ff || within 0xd7cb 0xd7fb then some .trailing
  else if within 0xac00 0xd7a3 then some (.syllable ((n - 0xac00) % 28 != 0))
  else none

def ofChar (c : Char) : BreakClass :=
  let n := c.toNat
  if 0x20 ≤ n && n < 0x7f then .other
  else if n = 13 then .carriageReturn
  else if n = 10 then .lineFeed
  else if n = 0x200d then .joiner
  else if 0x1f1e6 ≤ n && n ≤ 0x1f1ff then .flag
  else match korean? n with
    | some k => k
    | none =>
      if extendRanges.contains n then .extend
      else if controlRanges.contains n then .control
      else if spacingRanges.contains n then .spacing
      else if prependRanges.contains n then .prepend
      else if pictureRanges.contains n then .picture
      else .other

def isControl (b : BreakClass) : Bool := b = .control || b = .carriageReturn || b = .lineFeed

end BreakClass

/-- The end of a cluster: the class of its last character, whether a picture with its marks stands
there, whether a joiner follows, and whether it ends in a flag letter without its partner. -/
structure ClusterEnd where
  last : BreakClass
  picture : Bool
  joined : Bool
  halfFlag : Bool
  deriving DecidableEq, Repr

namespace ClusterEnd

def start (b : BreakClass) : ClusterEnd := ⟨b, b = .picture, false, b = .flag⟩

def accepts (e : ClusterEnd) (b : BreakClass) : Bool :=
  if e.last = .carriageReturn && b = .lineFeed then true
  else if e.last.isControl || b.isControl then false
  else match e.last, b with
    | .leading, .leading | .leading, .vowel | .leading, .syllable _ => true
    | .syllable false, .vowel | .syllable false, .trailing | .vowel, .vowel | .vowel, .trailing => true
    | .syllable true, .trailing | .trailing, .trailing => true
    | _, .extend | _, .joiner | _, .spacing => true
    | .prepend, _ => true
    | _, .picture => e.joined
    | _, .flag => e.halfFlag
    | _, _ => false

def push (e : ClusterEnd) (b : BreakClass) : ClusterEnd :=
  ⟨b, b = .picture || (e.picture && b = .extend), e.picture && b = .joiner, b = .flag && !e.halfFlag⟩

end ClusterEnd

def clustersFrom : ClusterEnd → List Char → List Char → List (List Char)
  | _, now, [] => [now.reverse]
  | e, now, c :: cs =>
    let b := BreakClass.ofChar c
    if e.accepts b then clustersFrom (e.push b) (c :: now) cs
    else now.reverse :: clustersFrom (.start b) [c] cs

def clusters : List Char → List (List Char)
  | [] => []
  | c :: cs => clustersFrom (.start (.ofChar c)) [c] cs

end ClassForge.Text

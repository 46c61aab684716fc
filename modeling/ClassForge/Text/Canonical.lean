import ClassForge.Text.CanonicalTable

namespace ClassForge.Text

/-! Hangul syllables are composed by arithmetic: a leading consonant, a vowel and perhaps a trailing
consonant. -/

def syllableBase : Nat := 0xac00
def leadBase : Nat := 0x1100
def vowelBase : Nat := 0x1161
def trailBase : Nat := 0x11a7
def leadCount : Nat := 19
def vowelCount : Nat := 21
def trailCount : Nat := 28

def isSyllable (n : Nat) : Bool :=
  syllableBase ≤ n && n < syllableBase + leadCount * vowelCount * trailCount

def splitSyllable (n : Nat) : List Nat :=
  let i := n - syllableBase
  let parts := [leadBase + i / (vowelCount * trailCount), vowelBase + i / trailCount % vowelCount]
  if i % trailCount = 0 then parts else parts ++ [trailBase + i % trailCount]

def joinSyllable? (a b : Nat) : Option Nat :=
  if leadBase ≤ a ∧ a < leadBase + leadCount ∧ vowelBase ≤ b ∧ b < vowelBase + vowelCount then
    some (syllableBase + ((a - leadBase) * vowelCount + (b - vowelBase)) * trailCount)
  else if isSyllable a ∧ (a - syllableBase) % trailCount = 0 ∧ trailBase < b ∧ b < trailBase + trailCount then
    some (a + (b - trailBase))
  else none

/-- The full canonical decomposition of a character. No chain of decompositions is longer than the
fuel. -/
def decomposeWith : Nat → Nat → List Nat
  | 0, c => [c]
  | fuel + 1, c =>
    match decompositions[c]? with
    | some parts => parts.flatMap (decomposeWith fuel)
    | none => [c]

def decompose (c : Nat) : List Nat :=
  if isSyllable c then splitSyllable c else decomposeWith 8 c

def combiningClass (c : Nat) : Nat := combiningClasses.getD c 0

def insertMark (c k : Nat) : List (Nat × Nat) → List (Nat × Nat)
  | [] => [(c, k)]
  | (d, l) :: rest => if k < l then (c, k) :: (d, l) :: rest else (d, l) :: insertMark c k rest

/-- The characters with each run of combining characters in the order of their classes. `marks` is
the run so far. -/
def orderMarks (marks : List (Nat × Nat)) : List Nat → List (Nat × Nat)
  | [] => marks
  | c :: rest =>
    match combiningClass c with
    | 0 => marks ++ (c, 0) :: orderMarks [] rest
    | k => orderMarks (insertMark c k marks) rest

def composePair? (a b : Nat) : Option Nat :=
  (joinSyllable? a b).orElse fun _ => compositions[(a, b)]?

/-- Joins characters to the starter before them. `last` is the class of the last character kept
since, and a character joins only if no such class is as high as its own. -/
def joinMarks (starter : Nat) (kept : List Nat) (last : Nat) : List (Nat × Nat) → List Nat
  | [] => starter :: kept.reverse
  | (c, k) :: rest =>
    let reaches := kept.isEmpty || (last != 0 && last < k)
    match if reaches then composePair? starter c else none with
    | some joined => joinMarks joined kept last rest
    | none =>
      if k = 0 then starter :: kept.reverse ++ joinMarks c [] 0 rest
      else joinMarks starter (c :: kept) k rest

def joinFrom : List (Nat × Nat) → List Nat
  | [] => []
  | (c, 0) :: rest => joinMarks c [] 0 rest
  | (c, _) :: rest => c :: joinFrom rest

def composed (s : String) : String :=
  if s.toList.all fun c => c.toNat < 0x300 then s
  else
    String.ofList
      ((joinFrom (orderMarks [] (s.toList.flatMap fun c => decompose c.toNat))).map Char.ofNat)

end ClassForge.Text

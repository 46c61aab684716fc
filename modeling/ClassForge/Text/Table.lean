namespace ClassForge.Text

def hexValue (c : Char) : Nat :=
  if '0' ≤ c && c ≤ '9' then c.toNat - '0'.toNat
  else if 'a' ≤ c && c ≤ 'f' then c.toNat - 'a'.toNat + 10
  else if 'A' ≤ c && c ≤ 'F' then c.toNat - 'A'.toNat + 10
  else 0

def hexNumber (cs : List Char) : Nat := cs.foldl (fun n c => 16 * n + hexValue c) 0

def hexBytes : List Char → List UInt8
  | a :: b :: rest => (hexValue a * 16 + hexValue b).toUInt8 :: hexBytes rest
  | _ => []

def splitAt (sep : Char) : List Char → List (List Char)
  | [] => [[]]
  | c :: cs =>
    if c == sep then [] :: splitAt sep cs
    else match splitAt sep cs with
      | [] => [[c]]
      | w :: ws => (c :: w) :: ws

def tableWords (lines : List String) : List (List Char) :=
  lines.flatMap fun s => (splitAt ' ' s.toList).filter fun w => !w.isEmpty

def tableRows (lines : List String) : List (List Nat) := (tableWords lines).map fun w => (splitAt '-' w).map hexNumber

/-- The rows of a table that goes through the characters in order, each with its first character.
`skip` says how many are left out before a row, and `length` how many the row is about. -/
def placeRows (skip length : List Nat → Nat) : Nat → List (List Nat) → List (Nat × List Nat)
  | _, [] => []
  | start, row :: rows =>
    (start + skip row, row) :: placeRows skip length (start + skip row + length row) rows

structure CharRanges where
  ranges : Array (Nat × Nat)

/-- From rows of the characters left out before a range, and its length where that is not 1. -/
def CharRanges.ofTable (lines : List String) : CharRanges :=
  ⟨((placeRows (·.headD 0) (·.getD 1 1) 0 (tableRows lines)).map fun (first, row) =>
    (first, first + row.getD 1 1 - 1)).toArray⟩

def CharRanges.contains (r : CharRanges) (n : Nat) : Bool :=
  r.ranges.any fun (a, b) => a ≤ n && n ≤ b

end ClassForge.Text

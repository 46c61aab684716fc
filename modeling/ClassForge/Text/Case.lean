import ClassForge.Text.Table

namespace ClassForge.Text

/-- Characters that map one to one: from `first` to `last` by `step`, the first to `image` and the
others at the same distance. -/
structure CaseRange where
  first : Nat
  last : Nat
  step : Nat
  image : Nat

/-- From rows of the first image, the characters left out before the range, how many it maps, and its step. -/
def caseRanges (lines : List String) : List CaseRange :=
  let step (row : List Nat) := row.getD 3 1
  let span (row : List Nat) := (row.getD 2 1 - 1) * step row
  (placeRows (·.getD 1 0) (span · + 1) 0 (tableRows lines)).map fun (first, row) =>
    ⟨first, first + span row, step row, row.headD 0⟩

def mapCase (table : List CaseRange) (c : Char) : Char :=
  let n := c.toNat
  match table.find? fun r => r.first ≤ n && n ≤ r.last && (n - r.first) % r.step == 0 with
  | some r => Char.ofNat (n + r.image - r.first)
  | none => c

def lowerTable : List CaseRange := caseRanges
  ["61-41-1a e0-65-17 f8-1-7 101-21-18-2 69-1 133-1-3-2 13a-2-8-2 14b-2-17-2 ff-1 17a-0-3-2 253-3 183-0-2-2 254-1 188",
   "256-1-2 18c 1dd-2 259 25b 192 260-1 263 269-1 268 199 26f-3 272 275-1 1a1-0-3-2 280-1 1a8 283-1 1ad-2 288-1 1b0",
   "28a-1-2 1b4-0-2-2 292-1 1b9 1bd-3 1c6-7 1c6 1c9-1 1c9 1cc-1 1cc-0-9-2 1df-2-9-2 1f3-2 1f3-0-2-2 195-1 1bf",
   "1f9-0-14-2 19e-1 223-1-9-2 2c65-7 23c 19a-1 2c66 242-2 180-1 289 28c 247-0-5-2 371-121-2-2 377-3 3f3-8 3ac-6",
   "3ad-1-3 3cc-1 3cd-1-2 3b1-1-11 3c3-1-9 3d7-23 3d9-8-c-2 3b8-5 3f8-2 3f2-1 3fb 37b-2-3 450-0-10 430-0-20",
   "461-30-11-2 48b-9-1b-2 4cf-1 4c2-0-7-2 4d1-2-30-2 561-2-26 2d00-b49-26 2d27-1 2d2d-5 ab70-2d2-50 13f8-0-6",
   "10d0-89a-2b 10fd-2-3 1e01-140-4b-2 df-9 1ea1-1-30-2 1f00-9-8 1f10-8-6 1f20-a-8 1f30-8-8 1f40-8-6 1f51-b-4-2",
   "1f60-8-8 1f80-18-8 1f90-8-8 1fa0-8-8 1fb0-8-2 1f70-0-2 1fb3 1f72-b-4 1fc3 1fd0-b-2 1f76-0-2 1fe0-c-2 1f7a-0-2 1fe5",
   "1f78-b-2 1f7c-0-2 1ff3 3c9-129 6b-3 e5 214e-6 2170-2d-10 2184-13 24d0-332-1a 2c30-730-30 2c61-30 26b-1 1d7d 27d",
   "2c68-2-3-2 251-1 271 250 252 2c73-1 2c76-2 23f-8-2 2c81-0-32-2 2cec-8-2-2 2cf3-4 a641-794d-17-2 a681-13-e-2",
   "a723-87-7-2 a733-3-1f-2 a77a-a-2-2 1d79-1 a77f-0-5-2 a78c-4 265-1 a791-2-2-2 a797-3-a-2 266-1 25c 261 26c 26a",
   "29e-1 287 29d ab53 a7b5-0-8-2 a794-1 282 1d8e a7c8-0-2-2 a7d1-6 a7d7-5-2-2 a7f6-1c ff41-572b-1a 10428-4c5-28",
   "104d8-88-24 10597-9c-b 105a3-1-f 105b3-1-7 105bb-1-2 10cc0-6ea-33 118c0-bed-20 16e60-5580-20 1e922-7aa0-22"]

/-- First the characters that are not the image of their own capital, or of several. -/
def upperTable : List CaseRange := caseRanges
  ["39c-b5 df-29 49-51 53-4d 1c4-45 1c7-2 1ca-2 1f1-26 399-152 3a3-7c 392-d 398 3a6-3 3a0 39a-19 3a1 395-3 412-188a 414",
   "41e 421-0-2 422 42a 462 a64a 1e60-212 399-122"] ++
  lowerTable.map fun r => ⟨r.image, r.image + (r.last - r.first), r.step, r.first⟩

def lowerChar (c : Char) : Char :=
  if c.toNat < 128 then c.toLower else mapCase lowerTable c

def upperChar (c : Char) : Char :=
  if c.toNat < 128 then c.toUpper else mapCase upperTable c

def lower (s : String) : String := String.ofList (s.toList.map lowerChar)

/-- The letter that stands for all cases of an ASCII letter: the long s and the Kelvin sign are cases
of `s` and `k`. -/
def foldAscii (c : Char) : Char :=
  if c.toNat = 0x17f then 's' else if c.toNat = 0x212a then 'k' else c.toLower

def sameLetters (s word : String) : Bool := s.toList.map foldAscii == word.toList.map foldAscii

end ClassForge.Text

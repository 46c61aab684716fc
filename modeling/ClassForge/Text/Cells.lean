import ClassForge.Text.Blank
import ClassForge.Text.Cluster
import ClassForge.Text.Columns

namespace ClassForge.Text

/-! How much room text takes on a terminal. -/

def markRanges : CharRanges := .ofTable
  ["300-70 113-5 363-9 40c 3 ee c-2 65b-3 71f 30-1f 9c-9 24c-40 2d0-21 bfe-3 ee-20 299-2 75d4-4 1-a 20-2 50-2 1ee-12",
   "552e-10 3cd 178-5 b30-2 99-b 31-4 37a-2 39-2 29-7 3-5 577b-5 640b-2e 2-17 21e-5 3-6 8-8 2-7 1e-4 94-3 dbb-7 1-11",
   "2-7 1-2 1-5 64 840-7"]

def invisibleRanges : CharRanges := .ofTable
  ["0-20 5f-21 d 661 10fb-4 7fc-5 18-7 3b-6 de8f f9-3 2-2"]

def wideRanges : CharRanges := .ofTable
  ["1100-60 11ba-2 d-2 be-4 3 2 209-2 15-2 32-c 2b 13 d 8-2 11-2 5-2 8 5 15 7-2 1 4 2 7 4-2 1c 23 1 4-3 1 3d-3 18 e",
   "35b-2 33 4 32a-1a 1-59 c-d6 1a-c 4-3f 2-56 2-67 5-2b 1-5e 1-54 c-2f 1-28 8-1b70 40-568d 3-37 499-1d 283-2ba4",
   "215c-200 310-a 16-23 1-13 1-4 95-60 7f-7 6ff9-5 b-2 e-17f8 8-4d6 2a-9 22e7-4 1-7 1-2 1-123 f 1d-3 2 e-4 8-18c 3d08",
   "ca be 2-a 65-3 d-2c 4-9 7-2 e-6 9a-21 c-9 1-46 1-16 c-2b 4-5 c-11 3 3-47 1 1-bb 2-3f d-4 1-18 12 1a-2 d 56-55",
   "30-46 6 3-3 2-3 4-4 b-2 7-9 e3-c 4 11b-2f 1-a 1-b9 70-d 3-9 7-2e 1-7 8-e 4-9 7-9 507-fffe 2-fffe"]

def charCells (c : Char) : Nat :=
  let n := c.toNat
  if 0x20 ≤ n && n < 0x7f then 1
  else if invisibleRanges.contains n || markRanges.contains n then 0
  else if wideRanges.contains n then 2
  else 1

def clusterCells (cs : List Char) : Nat := ((cs.map charCells).find? (· ≠ 0)).getD 0

def cells (s : String) : Nat := (clusters s.toList).foldl (fun n c => n + clusterCells c) 0

def fitting : Nat → List (List Char) → List Char
  | _, [] => []
  | room, k :: ks =>
    let w := clusterCells k
    if room < w then [] else k ++ fitting (room - w) ks

/-- A text cut to a number of cells, with a mark at the cut where there is room. Without a positive
width it stays whole. -/
def shorten (s : String) (width : Int) : String :=
  if width ≤ 0 || (cells s : Int) ≤ width then s
  else
    let tail := if width ≤ 3 then "" else "..."
    String.ofList (fitting (width.toNat - cells tail) (clusters s.toList)) ++ tail

def fillRight (width : Nat) (s : String) : String := s ++ spaces (width - cells s)

def columnWidths (rows : List (List String)) : List Nat :=
  rows.foldl (fun ws row => widen ws (row.map cells)) []
where
  widen : List Nat → List Nat → List Nat
    | [], ns => ns
    | ws, [] => ws
    | w :: ws, n :: ns => max w n :: widen ws ns

def gridRow : List Nat → List String → String
  | _, [] => ""
  | _, [s] => s
  | ws, s :: rest => fillRight (ws.headD 0) s ++ "  " ++ gridRow ws.tail rest

def grid (rows : List (List String)) : String :=
  let widths := columnWidths rows
  String.join (rows.map fun row =>
    String.ofList ((gridRow widths row).toList.reverse.dropWhile (· == ' ')).reverse ++ "\n")

def block (s : String) : String :=
  let s := (s.replace "\t" "    ").replace "\r\n" "\n"
  match s.splitOn "\n" with
  | [line] => line
  | lines =>
    let width := (lines.map cells).foldl max 0
    "\n".intercalate (lines.map (fillRight width))

end ClassForge.Text

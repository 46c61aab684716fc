import ClassForge.Files.Path
import ClassForge.Files.Tree

namespace ClassForge.Files

structure Failure where
  operation : String
  path : Path
  fault : Fault
  deriving DecidableEq, Repr

def Failure.message (f : Failure) : String := f.operation ++ " " ++ f.path ++ ": " ++ f.fault.message

def Path.above (p : Path) : Path :=
  String.ofList (((p.toList.reverse.dropWhile (· == '/')).dropWhile (· != '/')).reverse)

structure Disk where
  root : Tree := .directory []
  working : Path := "/"

namespace Disk

/-- Walks the parts of a path. Where it stands is given innermost first. Steps lead on from
directories only. -/
def walk (root : Tree) : List String → List String → Except Fault (List String)
  | here, [] => .ok here
  | here, p :: ps =>
    match root.find here.reverse with
    | .error e => .error e
    | .ok (.file _) => .error .notDirectory
    | .ok (.directory _) =>
      if p = "" ∨ p = "." then walk root here ps
      else if p = ".." then walk root here.tail ps
      else walk root (p :: here) ps

def place (d : Disk) (p : Path) : Except Fault (List String) :=
  if p = "" then .error .missing
  else (walk d.root [] (Path.parts (if p.isAbsolute then p else d.working ++ "/" ++ p))).map (·.reverse)

def look (d : Disk) (p : Path) : Except Fault Tree := do
  d.root.find (← d.place p)

def isDirectory (d : Disk) (p : Path) : Bool :=
  match d.look p with
  | .ok t => t.isDirectory
  | .error _ => false

def stat (d : Disk) (operation : String) (p : Path) : Except Failure Tree :=
  match d.look p with
  | .ok t => .ok t
  | .error e => .error ⟨operation, p, e⟩

def read (d : Disk) (p : Path) : Except Failure (List UInt8) := do
  match ← d.stat "open" p with
  | .file data => .ok data
  | .directory _ => .error ⟨"read", p, .isDirectory⟩

def write (d : Disk) (p : Path) (data : List UInt8) : Except Failure Disk :=
  match d.place p with
  | .error e => .error ⟨"open", p, e⟩
  | .ok names =>
    match d.root.find names with
    | .ok (.directory _) => .error ⟨"open", p, .isDirectory⟩
    | _ => .ok { d with root := Tree.put (.file data) names d.root }

def makeDirectory (d : Disk) (p : Path) : Except Failure Disk :=
  match d.place (String.ofList (p.toList.reverse.dropWhile (· == '/')).reverse) with
  | .error e => .error ⟨"mkdir", p, e⟩
  | .ok names =>
    match d.root.find names with
    | .ok t => if t.isDirectory && d.isDirectory p then .ok d else .error ⟨"mkdir", p, .occupied⟩
    | .error _ => .ok { d with root := Tree.put (.directory []) names d.root }

def makeWithin : Nat → Path → Disk → Except Failure Disk
  | 0, p, d => d.makeDirectory p
  | depth + 1, p, d =>
    match d.look p with
    | .ok (.directory _) => .ok d
    | .ok (.file _) => .error ⟨"mkdir", p, .notDirectory⟩
    | .error _ => do
      let d ← if p.above = "" then pure d else makeWithin depth p.above d
      d.makeDirectory p

def makeDirectories (d : Disk) (p : Path) : Except Failure Disk := makeWithin p.length p d

/-- The disk with one more file and the directories above it, where they can be. A path ending with
a slash stands for a directory. -/
def lay (d : Disk) (p : Path) (data : List UInt8) : Disk :=
  let made := if p.endsWith "/" then d.makeDirectories p else do
    (← d.makeDirectories p.dir).write p data
  match made with
  | .ok d => d
  | .error _ => d

def remove (d : Disk) (p : Path) : Disk :=
  match d.place p with
  | .ok names => { d with root := d.root.erase names }
  | .error _ => d

def filesBelow (d : Disk) (p : Path) : List (Path × List UInt8) :=
  match d.look p with
  | .ok t => (t.files []).map fun (names, data) => (Path.join (p :: names), data)
  | .error _ => []

end Disk

end ClassForge.Files

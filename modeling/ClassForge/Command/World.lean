import ClassForge.Build.Run
import ClassForge.Command.Config
import ClassForge.Command.Verb
import ClassForge.Hierarchy.Snapshot
import ClassForge.Release

namespace ClassForge.Command

open Files (Path Disk)

/-- What the tool finds when it is called: files, the directory for caches, the moment, whether it
writes to a terminal, whether colours are unwanted, and the numbers that recorded events have got
to. -/
structure World where
  disk : Disk
  cacheHome : Path
  release : Release := {}
  now : Int := 0
  terminal : Bool := false
  plain : Bool := false
  seq : Nat := 0
  ids : Nat := 0

/-- A call at work: its arguments, the record of events, and what it has written so far. -/
structure Job where
  world : World
  verb : Verb
  arguments : Arguments
  recorder : Trace.Recorder := {}
  colour : Bool := false
  out : String := ""
  err : String := ""

abbrev Action := ExceptT String (StateM Job)

namespace Action

def print (s : String) : Action Unit := modify fun j => { j with out := j.out ++ s }

def complain (s : String) : Action Unit := modify fun j => { j with err := j.err ++ s }

def disk : Action Disk := return (← get).world.disk

def setDisk (disk : Disk) : Action Unit := modify fun j => { j with world := { j.world with disk } }

def text (name : String) : Action String := do
  let j ← get
  return j.arguments.text j.verb.flags name

def number (name : String) : Action Int := do
  let j ← get
  return j.arguments.number j.verb.flags name

def switch (name : String) : Action Bool := return (← get).arguments.switch name

def isSet (name : String) : Action Bool := return (← get).arguments.isSet name

def operands : Action (List String) := return (← get).arguments.rest

def change (f : Disk → Except Files.Failure Disk) : Action Unit := do
  match f (← disk) with
  | .ok d => setDisk d
  | .error e => throw e.message

def manifest : Action Manifest := do
  Manifest.load (← disk) (← text "config")

def snapshot (path : Path) : Action Registry := do
  match (← disk).stat "open" path with
  | .error e => throw e.message
  | .ok t =>
    let data := match t with
      | .file data => data
      | .directory _ => []
    match Hierarchy.load (.ofPath path) data with
    | .ok r => return r
    | .error e => throw s!"{e.code.id}: {e.message}"

def registry (path : Path) : Action Registry := do
  if path = "" then return Hierarchy.library
  match (← disk).look path with
  | .error .missing => throw s!"registry snapshot {path} does not exist"
  | _ => return Hierarchy.library.merge (← snapshot path)

def cache (dir : Path) : Action Build.Cache := do
  let j ← get
  match Build.Cache.openAt (if dir = "" then Path.join [j.world.cacheHome, "classbuilder"] else dir) j.world.disk with
  | .ok (c, d) => setDisk d; return c
  | .error e => throw e.message

end Action

mutual

def recipesIn (dir : Path) : Files.Tree → List Path
  | .file _ => []
  | .directory es => recipesOf dir es

def recipesOf (dir : Path) : List (String × Files.Tree) → List Path
  | [] => []
  | e :: es => recipesAt dir e ++ recipesOf dir es

def recipesAt (dir : Path) : String × Files.Tree → List Path
  | (name, .file _) =>
    let p := Path.join [dir, name]
    if name ≠ Config.fileName && (Recipe.Format.ofPath p).isOk then [p] else []
  | (name, .directory below) => if name.startsWith "." then [] else recipesOf (Path.join [dir, name]) below

end

def expandRecipes (inputs : List Path) : Action (List Path) := do
  let d ← Action.disk
  let found ← inputs.mapM fun p => do
    match d.stat "stat" p with
    | .error e => throw s!"recipe {p}: {e.message}"
    | .ok (.file _) => return [p.clean]
    | .ok t => return recipesIn p t
  return (found.flatten.foldl (fun ps p => if ps.contains p then ps else ps ++ [p]) []).mergeSort (· ≤ ·)

end ClassForge.Command

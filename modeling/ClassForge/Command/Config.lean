import ClassForge.Files.Disk
import ClassForge.Format.Toml.Record
import ClassForge.Text.Blank
import ClassForge.Text.Utf8

namespace ClassForge.Command

open Files (Path Disk)

structure Config where
  outputDir : Path := ""
  render : Bool := false
  major : UInt16 := 0
  minor : UInt16 := 0
  debug : Bool := false
  maxLocals : Int := 0
  snapshot : Path := ""
  recipes : List Path := []
  jobs : Int := 0
  cache : Bool := false
  cacheDir : Path := ""
  deriving DecidableEq, Repr

namespace Config

def fileName : String := "classbuilder.toml"

inductive Fault
  | unreadable
  | unknownKey (key : String)
  | badVersion (major : UInt16)
  | negativeLocals
  deriving DecidableEq, Repr

def Fault.message : Fault → String
  | .unreadable => "failed to parse TOML"
  | .unknownKey k => "unknown key " ++ k
  | .badVersion n => s!"[class].major {n.toNat} is not a class-file version"
  | .negativeLocals => "[class].max_locals must not be negative"

def ofTable (t : Toml.Table) : Option Config := do
  let output ← t.tableAt "output"
  let classes ← t.tableAt "class"
  let registry ← t.tableAt "registry"
  let build ← t.tableAt "build"
  return {
    outputDir := ← output.textAt "dir", render := ← output.boolAt "render",
    major := ← classes.wordAt "major", minor := ← classes.wordAt "minor", debug := ← classes.boolAt "debug",
    maxLocals := ← classes.intAt "max_locals", snapshot := ← registry.textAt "snapshot",
    recipes := ← build.textsAt "recipes", jobs := ← build.intAt "jobs", cache := ← build.boolAt "cache",
    cacheDir := ← build.textAt "cache_dir" }

def sections : List (String × List String) :=
  [("output", ["dir", "render"]), ("class", ["major", "minor", "debug", "max_locals"]), ("registry", ["snapshot"]),
   ("build", ["recipes", "jobs", "cache", "cache_dir"])]

def isKnown : Toml.Key → Bool
  | [s] => sections.any fun (name, _) => Text.sameLetters s name
  | [s, k] => sections.any fun (name, keys) => Text.sameLetters s name && Toml.isOneOf keys k
  | _ => false

def parse (text : String) : Except Fault Config :=
  match Toml.Document.read? text with
  | none => .error .unreadable
  | some d =>
    match ofTable d.root, d.order.toList.find? (!isKnown ·) with
    | none, _ => .error .unreadable
    | some _, some k => .error (.unknownKey (Toml.keyText k))
    | some c, none =>
      if c.major ≠ 0 && c.major < 45 then .error (.badVersion c.major)
      else if c.maxLocals < 0 then .error .negativeLocals
      else .ok c

end Config

structure Manifest where
  path : Path := ""
  config : Config := {}
  deriving DecidableEq, Repr

namespace Manifest

def search (d : Disk) : Nat → Path → Except String (Option Path)
  | 0, _ => .ok none
  | depth + 1, dir =>
    let candidate := Path.join [dir, Config.fileName]
    match d.stat "stat" candidate with
    | .ok _ => .ok (some candidate)
    | .error e =>
      if e.fault ≠ .missing then .error s!"failed to stat {Text.quote candidate}: {e.message}"
      else if dir.dir = dir then .ok none
      else search d depth dir.dir

def read (d : Disk) (path : Path) : Except String Manifest :=
  let parsed := match d.read path with
    | .ok data => Config.parse (String.ofList (Text.decodeUtf8 data))
    | .error _ => .error .unreadable
  match parsed with
  | .ok config => .ok { path, config }
  | .error e => .error s!"{path}: {e.message}"

/-- The settings in a given file, else those of the project around the working directory. -/
def load (d : Disk) (path : Path) : Except String Manifest :=
  if Text.trim path = "" then do
    match ← search d (d.working.length + 1) d.working.clean with
    | some p => read d p
    | none => return {}
  else read d path

def resolve (m : Manifest) (p : Path) : Path :=
  if p = "" || p.isAbsolute || m.path = "" then p else Path.join [m.path.dir, p]

end Manifest

end ClassForge.Command

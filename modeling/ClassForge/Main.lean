import ClassForge.Command.Run
import ClassForge.Files.Change
import Std.Time.DateTime.Timestamp

namespace ClassForge.Command

open Files (Path Disk Tree Change)

/-- Reads what lies at a path into a disk, if anything. Hidden directories below it and links to
directories are left out. -/
def readInto (disk : Disk) (path : Path) : Nat → IO Disk
  | 0 => return disk
  | depth + 1 => do
    match ← (IO.FS.realPath path).toBaseIO with
    | .error _ => return disk
    | .ok place =>
      if !(← place.isDir) then return disk.lay path (← IO.FS.readBinFile path).toList
      (← place.readDir).foldlM (fun disk e => do
        let below := s!"{path}/{e.fileName}"
        if !(← e.path.isDir) then readInto disk below depth
        else if e.fileName.startsWith "." then return disk
        else if (← IO.FS.realPath below).toString ≠ s!"{place.toString}/{e.fileName}" then return disk
        else readInto disk below depth) (disk.lay (path ++ "/") [])

def pathsOf (arg : String) : List Path :=
  match arg.splitOn "=" with
  | _ :: rest@(_ :: _) => [arg, "=".intercalate rest]
  | _ => [arg]

def Manifest.paths (m : Manifest) : List Path :=
  ([m.config.outputDir, m.config.snapshot, m.config.cacheDir] ++ m.config.recipes).map m.resolve

def upwards : Nat → Path → List Path
  | 0, _ => []
  | depth + 1, p => if p.dir = p then [p] else p :: upwards depth p.dir

def depth : Nat := 64

/-- The files that a call may need: below the working directory, the settings above it, and what
arguments and settings name. -/
def gather (working cacheHome : Path) (args : List String) : IO Disk := do
  let configs := (upwards depth working).map fun d => Path.join [d, Config.fileName]
  let disk := ({ working } : Disk).lay (working ++ "/") []
  let disk ← (configs ++ [working, cacheHome ++ "/classbuilder"] ++ args.flatMap pathsOf).foldlM
    (fun disk p => if p = "" then pure disk else readInto disk p depth) disk
  match Manifest.load disk "" with
  | .ok m => m.paths.foldlM (fun disk p => if p = "" then pure disk else readInto disk p depth) disk
  | .error _ => return disk

def apply : Change → IO Unit
  | .remove place => do
    let path ← IO.FS.realPath ("/" ++ "/".intercalate place)
    if ← path.isDir then IO.FS.removeDirAll path else IO.FS.removeFile path
  | .makeDirectory place => IO.FS.createDirAll ("/" ++ "/".intercalate place)
  | .write place data => IO.FS.writeBinFile ("/" ++ "/".intercalate place) (ByteArray.mk data.toArray)

def cacheHome : IO Path := do
  match ← IO.getEnv "XDG_CACHE_HOME", ← IO.getEnv "HOME" with
  | some d, _ => return d
  | none, some home => return home ++ "/.cache"
  | none, none => return ""

end ClassForge.Command

open ClassForge ClassForge.Command in
def main (args : List String) : IO UInt32 := do
  let working := (← IO.currentDir).toString
  let cacheHome ← cacheHome
  let disk ← gather working cacheHome args
  let terminal ← (← IO.getStdout).isTty
  let plain := ((← IO.getEnv "NO_COLOR").getD "") ≠ ""
  let now := (← Std.Time.Timestamp.now).toNanosecondsSinceUnixEpoch.val / 1000
  let (answer, world) := Command.run args { disk, cacheHome, terminal, plain, now }
  (disk.changes world.disk).forM apply
  IO.print answer.out
  IO.eprint answer.err
  match answer.failure with
  | none => return 0
  | some e =>
    IO.eprintln ("error: " ++ e)
    return 1

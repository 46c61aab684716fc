import ClassForge.Build.Cache
import ClassForge.Diagnostic.Bag
import ClassForge.Recipe.Compile
import ClassForge.Time.Timer

namespace ClassForge.Build

open Files (Path Disk)
open Diagnostic (Problem)

inductive Stage
  | load
  | compile
  | serialize
  | write
  deriving DecidableEq, Repr

namespace Stage

def name : Stage → String
  | .load => "load"
  | .compile => "compile"
  | .serialize => "serialize"
  | .write => "write"

def all : List Stage := [.load, .compile, .serialize, .write]

def ofName? (s : String) : Option Stage := all.find? (·.name = s)

end Stage

inductive Status
  | queued
  | working
  | done
  | failed
  deriving DecidableEq, Repr

def Status.name : Status → String
  | .queued => "queued"
  | .working => "working"
  | .done => "done"
  | .failed => "error"

/-- The status of a name. A name that stands for none is that of something that waits. -/
def Status.ofName (s : String) : Status :=
  (([.working, .done, .failed] : List Status).find? (·.name = s)).getD .queued

structure Event where
  file : Path
  stage : Stage
  status : Status
  problem : Option Problem := none

structure Output where
  recipe : Path
  className : String
  data : List UInt8
  rendered : String := ""
  cached : Bool := false
  path : Path := ""
  deriving DecidableEq, Repr, Inhabited

structure Request where
  recipes : List Path
  output : Path := ""
  registry : Registry := Hierarchy.library
  options : Assembler.Options := {}
  render : Bool := false
  dryRun : Bool := false
  cache : Cache := {}
  salt : String := ""
  maxDiagnostics : Int := 0
  timed : Bool := false
  cancelled : Bool := false

def Request.truth (b : Bool) : String := if b then "true" else "false"

def Request.settings (q : Request) : List String :=
  let o := q.options
  ["class=" ++ toString o.major.toNat ++ "." ++ toString o.minor.toNat ++ " debug=" ++ truth o.debug ++
    " source=" ++ o.sourceFile ++ " locals=" ++ toString o.maxLocals ++ " render=" ++ truth q.render,
   q.salt]

/-- What a build works on and leaves behind: files, events, times, reports on progress, and the
stages that took place. -/
structure Site where
  disk : Disk
  recorder : Trace.Recorder := {}
  timer : Timer := {}
  now : Int := 0
  events : Array Event := #[]
  stages : List Stage := []

namespace Site

def report (s : Site) (e : Event) : Site := { s with events := s.events.push e }

def passed (s : Site) (stage : Stage) : Site := { s with stages := stage :: s.stages }

def openSpan (name : String) (parent : Nat) : StateM Site Trace.Span := fun s =>
  let (span, recorder) := s.recorder.beginSpan .driver name parent
  (span, { s with recorder })

def closeSpan (span : Trace.Span) : StateM Site Unit := fun s =>
  ((), { s with recorder := (s.recorder.endSpan span "").2 })

end Site

end ClassForge.Build

import ClassForge.Build.Recipe

namespace ClassForge.Build

open Files (Path Disk)
open Diagnostic (Problem Report Bag)

structure Finished where
  place : Nat
  path : Path
  made : Except (Stage × Problem) (List Output)

namespace Finished

def failed (f : Finished) : Bool :=
  match f.made with
  | .ok _ => false
  | .error _ => true

def problem? (f : Finished) : Option Problem :=
  match f.made with
  | .ok _ => none
  | .error e => some e.2

def outputs (f : Finished) : List Output :=
  match f.made with
  | .ok os => os
  | .error _ => []

end Finished

/-- Builds recipes one after the other. A failure is reported and does not stop the others. -/
def buildEach (q : Request) (parent : Nat) : List (Path × Nat) → StateM Site (List Finished)
  | [] => pure []
  | (path, place) :: rest => do
    let made ← buildRecipe q parent path
    match made with
    | .ok _ => pure ()
    | .error (stage, p) => modify (·.report ⟨path, stage, .failed, some p⟩)
    return ⟨place, path, made⟩ :: (← buildEach q parent rest)

/-- The outputs of all recipes by class name; those of one name are in the order of the recipes. -/
def gather (fs : List Finished) : List Output :=
  ((fs.mergeSort fun a b => a.place ≤ b.place).flatMap (·.outputs)).mergeSort
    fun a b => a.className ≤ b.className

def clash (a b : Output) : Report :=
  ⟨.invalidRecipe, "class " ++ b.className ++ " is generated by both " ++ a.recipe ++ " and " ++ b.recipe,
    b.recipe, b.className⟩

def clashes : List Output → List (Output × Output)
  | a :: b :: rest => if a.className = b.className then (a, b) :: clashes (b :: rest) else clashes (b :: rest)
  | _ => []

def classPath (dir : Path) (className ending : String) : Path :=
  Path.join [if dir = "" then "." else dir, className ++ ending]

def ioProblem (o : Output) (what : String) (f : Files.Failure) : Problem :=
  .coded .outputFailed (what ++ ": " ++ f.message) o.className none

def writeOutput (dir : Path) (o : Output) (d : Disk) : Option Problem × Disk :=
  let path := classPath dir o.className ".class"
  match d.makeDirectories path.dir with
  | .error e => (some (ioProblem o ("create " ++ path.dir) e), d)
  | .ok d =>
    match d.write path o.data with
    | .error e => (some (ioProblem o ("write " ++ path) e), d)
    | .ok d =>
      if o.rendered = "" then (none, d)
      else
        let path := classPath dir o.className ".jrender"
        match d.write path (Text.encodeUtf8 o.rendered) with
        | .error e => (some (ioProblem o ("write " ++ path) e), d)
        | .ok d => (none, d)

/-- Writes outputs, but none of a recipe that is held back. One that cannot be written holds back the
rest of its recipe. Gives the outputs with their paths, the recipes held back, and the problems. -/
def writeEach (q : Request) : List Output → List Path →
    StateM Site (List Output × List Path × List (Path × Problem))
  | [], held => pure ([], held, [])
  | o :: os, held => do
    if held.contains o.recipe then
      let (done, held, ps) ← writeEach q os held
      return (o :: done, held, ps)
    let written := { o with path := classPath q.output o.className ".class" }
    let p ← modifyGet fun s => let (p, disk) := writeOutput q.output o s.disk; (p, { s with disk })
    match p with
    | none =>
      let (done, held, ps) ← writeEach q os held
      return (written :: done, held, ps)
    | some p =>
      modify (·.report ⟨o.recipe, .write, .failed, some p⟩)
      let (done, held, ps) ← writeEach q os (o.recipe :: held)
      return (written :: done, held, (o.recipe, p) :: ps)

structure Outcome where
  outputs : List Output := []
  bag : Bag := {}
  failure : Option String := none

def Outcome.failed (r : Outcome) : Bool := !r.bag.items.isEmpty

def Outcome.hits (r : Outcome) : Nat := (r.outputs.filter (·.cached)).length

def defaultMaxDiagnostics : Int := 200

def emptyBag (q : Request) : Bag :=
  { max := if q.maxDiagnostics ≤ 0 then defaultMaxDiagnostics else q.maxDiagnostics }

def collect (b : Bag) (rs : List Report) : Bag := rs.foldl (fun b r => (b.add r).2) b

def conclude (held : List Path) (fs : List Finished) : List Event :=
  ((fs.mergeSort fun a b => a.place ≤ b.place).filter (!·.failed)).map fun f =>
    ⟨f.path, .write, if held.contains f.path then .failed else .done, none⟩

/-- What is done once all recipes are built: clashes are found, and what is left is written. -/
def finish (q : Request) (fs : List Finished) : StateM Site Outcome := do
  let os := gather fs
  let pairs := clashes os
  let held := pairs.flatMap fun (a, b) => [a.recipe, b.recipe]
  let (os, held, problems) ← if q.dryRun then pure (os, held, []) else writeEach q os held
  if !q.dryRun then modify (·.passed .write)
  modify fun s => (conclude held fs).foldl Site.report s
  let bag := collect (emptyBag q)
    ((fs.filterMap fun f => f.problem?.map (Report.ofProblem f.path)) ++ pairs.map (fun (a, b) => clash a b) ++
      problems.map fun (path, p) => Report.ofProblem path p)
  return { outputs := os, bag := bag.sort.dedup }

/-- Builds recipes in the order of their places, which is in general up to the machine. -/
def runIn (order : List (Path × Nat)) (q : Request) : StateM Site Outcome := do
  if q.recipes.isEmpty then return { bag := emptyBag q }
  let span ← Site.openSpan "build" 0
  modify fun s => (q.recipes.map fun p => ⟨p, .load, .queued, none⟩).foldl Site.report s
  let r ← if q.cancelled then pure { bag := emptyBag q, failure := some "context canceled" }
    else finish q (← buildEach q span.id order)
  Site.closeSpan span
  return r

def run (q : Request) : StateM Site Outcome := runIn q.recipes.zipIdx q

end ClassForge.Build

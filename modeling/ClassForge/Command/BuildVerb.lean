import ClassForge.Command.World
import ClassForge.Diagnostic.Listing
import ClassForge.Text.Cells

namespace ClassForge.Command

open Action

open Files (Path)
open Diagnostic (PathMode)

structure BuildPlan where
  out : Path
  jobs : Int
  render : Bool
  dryRun : Bool
  json : Bool
  pathMode : PathMode
  snapshot : Path
  cache : Bool
  cacheDir : Path
  options : Assembler.Options

def buildPlan (m : Manifest) : Action BuildPlan := do
  let c := m.config
  let chosen (name : String) (own : Bool) : Action Bool := do
    if ← isSet name then switch name else return own
  let out ← if ← isSet "out" then text "out" else pure (m.resolve c.outputDir)
  let jobs ← if ← isSet "jobs" then number "jobs" else pure c.jobs
  let snapshot ← if ← isSet "registry" then text "registry" else pure (m.resolve c.snapshot)
  let format ← text "format"
  let kind := Text.lower (Text.trim format)
  if kind ≠ "pretty" && kind ≠ "json" then
    throw s!"unsupported format {Text.quote format} (must be pretty or json)"
  let mode ← text "path-mode"
  match PathMode.parse? mode with
  | none => throw ("invalid --path-mode value " ++ Text.quote mode)
  | some pathMode =>
    let ui ← text "ui"
    unless ["", "auto", "on", "off"].contains (Text.trim (Text.lower ui)) do
      throw s!"invalid --ui value {Text.quote ui} (expected auto|on|off)"
    if jobs < 0 then throw "--jobs must not be negative"
    return {
      out := if out = "" then "classes" else out, jobs, snapshot, pathMode, json := kind = "json"
      render := ← chosen "render" c.render, dryRun := ← switch "dry-run"
      cache := ← chosen "cache" c.cache, cacheDir := m.resolve c.cacheDir
      options := { major := c.major, minor := c.minor, debug := ← chosen "debug" c.debug, maxLocals := c.maxLocals } }

def cacheSalt (snapshot : Path) : Action String := do
  let salt := "classbuilder " ++ (← get).world.release.version
  if snapshot = "" then return salt
  match (← disk).read snapshot with
  | .ok data => return salt ++ " registry " ++ (Build.Cache.key data []).hex
  | .error e => throw e.message

def outputGrid (os : List Build.Output) : String :=
  Text.grid (["CLASS", "RECIPE", "BYTES"] :: os.map fun o => [o.className, o.recipe, toString o.data.length])

def performBuild (q : Build.Request) : Action (Build.Outcome × Build.Site) := fun j =>
  let (r, site) := (Build.run q).run { disk := j.world.disk, recorder := j.recorder, now := j.world.now }
  (.ok (r, site), { j with world := { j.world with disk := site.disk }, recorder := site.recorder })

def millis (time : Int) : String := Number.fixed 1 (Number.quotient time 1000) ++ " ms"

def reportBuild (plan : BuildPlan) (q : Build.Request) (r : Build.Outcome) (took : Int) : Action Unit := do
  let shown := plan.pathMode.display (← disk).working ""
  if plan.json then print (r.bag.json q.maxDiagnostics shown)
  else
    complain (r.bag.pretty (← get).colour true shown)
    if !(← switch "quiet") then
      if !r.outputs.isEmpty then
        print (outputGrid r.outputs ++ if plan.dryRun then "dry run: nothing written\n" else "")
      print (s!"{r.outputs.length} class(es) from {q.recipes.length} recipe(s) in {millis took}" ++
        (if q.cache.isOpen then s!", {r.hits} cached" else "") ++ "\n")

def buildVerb : Action Unit := do
  let m ← manifest
  let plan ← buildPlan m
  let given ← operands
  let inputs := if given.isEmpty then m.config.recipes.map m.resolve else given
  if inputs.isEmpty then throw ("no recipes given and none listed in " ++ Config.fileName)
  let recipes ← expandRecipes inputs
  if recipes.isEmpty then throw "no recipe files found"
  let registry ← registry plan.snapshot
  let cache ← if plan.cache then cache plan.cacheDir else pure {}
  let salt ← if plan.cache then cacheSalt plan.snapshot else pure ""
  let timed ← switch "timings"
  let q : Build.Request :=
    { recipes, output := plan.out, registry, options := plan.options, render := plan.render, dryRun := plan.dryRun
      cache, salt, timed, maxDiagnostics := ← number "max-diagnostics" }
  let (r, site) ← performBuild q
  let took := site.now - (← get).world.now
  reportBuild plan q r took
  if timed then
    complain (String.join ((Build.Stage.all.filter site.stages.contains).map fun s => s!"{s.name} {millis took}\n") ++
      site.timer.summary ++ "\n")
  if r.failed then throw s!"build failed with {r.bag.items.length} diagnostic(s)"

end ClassForge.Command

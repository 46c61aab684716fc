import ClassForge.Command.BuildVerb
import ClassForge.Trace.Setup

namespace ClassForge.Command

open Action

open Files (Path Disk)

/-! Before and after every verb: colours, and the record of events. -/

def chooseColour : Action Unit := do
  let mode ← text "color"
  let w := (← get).world
  match Text.lower (Text.trim mode) with
  | "" | "auto" => modify fun j => { j with colour := w.terminal && !w.plain }
  | "on" => modify fun j => { j with colour := true }
  | "off" => modify fun j => { j with colour := false }
  | _ => throw s!"invalid --color value {Text.quote mode} (expected auto|on|off)"

def isFile (path : Path) : Bool := path ≠ "" && path ≠ "-"

def startTrace : Action Unit := do
  let path ← text "trace"
  let level ← ((Trace.Level.parse (← text "trace-level")).mapError ("invalid trace level: " ++ ·) :
    Except String Trace.Level)
  let level := if level = .off && path ≠ "" && !(← isSet "trace-level") then .phase else level
  if level ≠ .off then
    let mode ← ((Trace.StorageMode.parse (← text "trace-mode")).mapError ("invalid trace mode: " ++ ·) :
      Except String Trace.StorageMode)
    let recorder ← ((Trace.Recorder.start level mode .auto path (← number "trace-ring-size")).mapError
      ("failed to create tracer: " ++ ·) : Except String Trace.Recorder)
    if recorder.ring?.isNone && isFile path then
      match (← disk).write path [] with
      | .ok d => setDisk d
      | .error e => throw ("failed to create tracer: failed to open trace output: " ++ e.message)
    modify fun j => { j with recorder := { recorder with seq := j.world.seq, ids := j.world.ids, now := j.world.now } }

def finishTrace (j : Job) : Job :=
  let path := j.arguments.text j.verb.flags "trace"
  let w := { j.world with seq := max j.world.seq j.recorder.seq, ids := max j.world.ids j.recorder.ids }
  let j := { j with world := w }
  if !isFile path then j
  else
    let text? := match j.recorder.sink with
      | .none => none
      | .ring k => some (k.dump .ndjson)
      | _ => some j.recorder.written
    match text? with
    | none => j
    | some text =>
      match w.disk.write path (Text.encodeUtf8 text) with
      | .ok disk => { j with world := { w with disk } }
      | .error e => { j with err := s!"{j.err}trace: dump error: {e.message}\n" }

/-! The verbs. -/

def loadRecipe (path : Path) : Action Recipe := do
  let d ← disk
  let loaded : Except Diagnostic.Problem Recipe := do
    discard ((Recipe.Format.ofPath path).mapError (·.report))
    match d.read path with
    | .error e => .error (.coded .recipeDecode s!"{path}: {e.message}" "" none)
    | .ok data => (Recipe.load path (Build.contentText data)).mapError (·.report)
  match loaded with
  | .ok r => return r
  | .error p => throw p.text

def assembled (r : Recipe) (known : Registry) : Except String (List Assembler.Draft) :=
  let (made, w) := (r.compile {}).run { base := .registry known }
  match made with
  | .ok is => .ok (is.filterMap fun i => w.drafts[i]?)
  | .error e => .error e.report.text

def renderVerb : Action Unit := do
  let only ← text "class"
  let snapshot ← text "registry"
  let m ← manifest
  let registry ← registry (if snapshot = "" then m.resolve m.config.snapshot else snapshot)
  let path := (← operands).headD ""
  let r ← loadRecipe path
  let ds ← (assembled r registry : Except String (List Assembler.Draft))
  let wanted := ds.filter fun d => only = "" || d.name = r.internalName only || d.name = only
  print ("\n".intercalate (wanted.map fun d => s!"// {d.name}\n{d.source}"))
  if only ≠ "" && wanted.isEmpty then throw s!"recipe {path} does not define class {only}"

/-- Adds the classes of recipes to a registry. Later recipes know those of earlier ones. -/
def addRecipes : List Path → Registry → Registry → Action Registry
  | [], _, r => pure r
  | p :: ps, known, r => do
    let recipe ← loadRecipe p
    let ds ← ((assembled recipe known).mapError (p ++ ": " ++ ·) : Except String (List Assembler.Draft))
    let add (r : Registry) : Registry := ds.foldl (fun r d => r.add d.info) r
    addRecipes ps (add known) (add r)

def exportVerb : Action Unit := do
  let out : Path ← text "out"
  let start := if ← switch "no-bootstrap" then Registry.empty else Hierarchy.library
  let recipes ← expandRecipes (← operands)
  let r ← addRecipes recipes Hierarchy.library start
  let format := Hierarchy.SnapshotFormat.ofPath out
  change (·.makeDirectories out.dir)
  change (·.write out (Hierarchy.save format r))
  if !(← switch "quiet") then print s!"wrote {r.names.length} classes to {out} ({format.name})\n"

def classText (bold : Bool) (c : ClassInfo) : String :=
  (if bold then Text.Style.apply ⟨[1]⟩ c.name else c.name) ++ "\n" ++
    (if c.super = "" then "" else "  extends " ++ c.super ++ "\n") ++
    (if c.interfaces.isEmpty then "" else "  implements " ++ ", ".intercalate c.interfaces ++ "\n") ++
    Text.grid (c.fields.toList.map (fun f => ["  field", f.name, f.descriptor]) ++
      (c.methods.toList.mergeSort fun a b => a.name ≤ b.name).map fun m => ["  method", m.name, m.descriptor])

def showClasses (bold : Bool) (r : Registry) : Bool → List String → Action Unit
  | _, [] => pure ()
  | first, name :: names => do
    match r[Text.slashed name]? with
    | none => throw s!"class {name} is not in the registry"
    | some c =>
      print ((if first then "" else "\n") ++ classText bold c)
      showClasses bold r false names

def showVerb : Action Unit := do
  let path ← text "registry"
  let r ← if path = "" then pure Hierarchy.library else snapshot path
  match ← operands with
  | [] =>
    print (Text.grid (["CLASS", "SUPER", "FIELDS", "METHODS"] :: r.toList.map fun (name, c) =>
      [name, c.super, toString c.fields.size, toString c.methods.size]))
  | names =>
    let j ← get
    showClasses (j.colour && !j.world.plain) r true names

def cleanVerb : Action Unit := do
  let m ← manifest
  let c ← cache (m.resolve m.config.cacheDir)
  change c.clear
  if !(← switch "quiet") then print s!"cleared {c.directory}\n"

def versionVerb : Action Unit := do
  let full ← switch "full"
  let wanted (name : String) : Action Bool := return full || (← switch name)
  let parts : Release.Parts := { commit := ← wanted "hash", message := ← wanted "message", date := ← wanted "date" }
  let j ← get
  let format ← text "format"
  match Text.lower format with
  | "pretty" => print (j.world.release.text parts j.colour)
  | "json" => print (j.world.release.json parts)
  | _ => throw s!"unsupported format {Text.quote format} (must be pretty or json)"

def Verb.action : Verb → Action Unit
  | .build => buildVerb
  | .cacheClean => cleanVerb
  | .registryExport => exportVerb
  | .registryShow => showVerb
  | .render => renderVerb
  | .version => versionVerb
  | .top | .cache | .registry | .completion | .help => pure ()

structure Answer where
  out : String := ""
  err : String := ""
  failure : Option String := none
  deriving DecidableEq, Repr

def Verb.perform (v : Verb) : Action Unit := do
  chooseColour
  startTrace
  (v.checkRequired (← get).arguments : Except String Unit)
  v.action

def run (args : List String) (w : World) : Answer × World :=
  let read : Except String (Verb × Arguments) := do
    let (v, left) ← Verb.find args
    return (v, ← (readArguments v.flags left {}).mapError (·.message))
  match read with
  | .error e => ({ failure := some e }, w)
  | .ok (v, a) =>
    if a.switch "help" then ({}, w)
    else if v = .top && a.switch "version" then
      ({ out := s!"{v.name} version {w.release.version}\n" }, w)
    else if !v.isRunnable then ({}, w)
    else match v.checkCount a.rest with
      | .error e => ({ failure := some e }, w)
      | .ok () =>
        let (r, j) := v.perform.run { world := w, verb := v, arguments := a }
        let j := finishTrace j
        ({ out := j.out, err := j.err, failure := match r with | .ok _ => none | .error e => some e }, j.world)

end ClassForge.Command

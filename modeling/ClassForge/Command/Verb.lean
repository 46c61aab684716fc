import ClassForge.Command.Flag
import ClassForge.Text.Case
import ClassForge.Text.Utf8

namespace ClassForge.Command

inductive Verb
  | top
  | build
  | cache
  | cacheClean
  | completion
  | help
  | registry
  | registryExport
  | registryShow
  | render
  | version
  deriving DecidableEq, Repr

namespace Verb

def name : Verb → String
  | .top => "classbuilder"
  | .build => "build"
  | .cache => "cache"
  | .cacheClean => "clean"
  | .completion => "completion"
  | .help => "help"
  | .registry => "registry"
  | .registryExport => "export"
  | .registryShow => "show"
  | .render => "render"
  | .version => "version"

def children : Verb → List Verb
  | .top => [.build, .cache, .completion, .registry, .render, .version, .help]
  | .cache => [.cacheClean]
  | .registry => [.registryExport, .registryShow]
  | _ => []

def path : Verb → String
  | .top => "classbuilder"
  | .cacheClean => "classbuilder cache clean"
  | .registryExport => "classbuilder registry export"
  | .registryShow => "classbuilder registry show"
  | v => "classbuilder " ++ v.name

def common : List Flag :=
  [{ name := "color", initial := "auto" }, { name := "quiet", kind := .switch }, { name := "timings", kind := .switch },
   { name := "max-diagnostics", kind := .number, initial := "100" }, { name := "config" }, { name := "trace" },
   { name := "trace-level", initial := "off" }, { name := "trace-mode", initial := "stream" },
   { name := "trace-ring-size", kind := .number, initial := "4096" }, { name := "cpu-profile" },
   { name := "mem-profile" }, { name := "runtime-trace" }]

def own : Verb → List Flag
  | .build =>
    [{ name := "out", short := some 'o' }, { name := "debug", kind := .switch }, { name := "render", kind := .switch },
     { name := "jobs", kind := .number, initial := "0" }, { name := "registry" }, { name := "ui", initial := "auto" },
     { name := "dry-run", kind := .switch }, { name := "format", initial := "pretty" },
     { name := "cache", kind := .switch }, { name := "path-mode", initial := "auto" }]
  | .registryExport =>
    [{ name := "out", short := some 'o', required := true }, { name := "no-bootstrap", kind := .switch }]
  | .registryShow => [{ name := "registry" }]
  | .render => [{ name := "class" }, { name := "registry" }]
  | .version =>
    [{ name := "hash", kind := .switch }, { name := "message", kind := .switch }, { name := "date", kind := .switch },
     { name := "full", kind := .switch }, { name := "format", initial := "pretty" }]
  | _ => []

def outline (v : Verb) : List Flag := v.own ++ common

def flags (v : Verb) : List Flag :=
  v.outline ++ [{ name := "help", kind := .switch, short := some 'h' }] ++
    (if v = .top then [{ name := "version", kind := .switch, short := some 'v' }] else [])

def isRunnable : Verb → Bool
  | .top | .cache | .registry => false
  | _ => true

end Verb

def takesNext (flags : List Flag) (s : String) : Bool :=
  let isSwitch (f? : Option Flag) : Bool := (f?.map fun f => f.kind == .switch).getD false
  match s.toList with
  | '-' :: '-' :: body => !body.contains '=' && !isSwitch (flags.find? (·.name = String.ofList body))
  | ['-', c] => c != '=' && !isSwitch (flags.find? (·.short = some c))
  | _ => false

/-- The arguments that are neither flags nor their values. A flag that lacks more than its value
ends them. -/
def words (flags : List Flag) : List String → List String
  | [] => []
  | s :: rest =>
    if s = "--" then []
    else if takesNext flags s then
      match rest with
      | _ :: next :: more => words flags (next :: more)
      | _ => []
    else if s = "" || s.startsWith "-" then words flags rest
    else s :: words flags rest
termination_by args => args.length

def withoutWord (flags : List Flag) (word : String) : List String → List String
  | [] => []
  | s :: rest =>
    if s = "--" then s :: rest
    else if takesNext flags s then
      match rest with
      | v :: more => s :: v :: withoutWord flags word more
      | [] => [s]
    else if !s.startsWith "-" && s = word then rest
    else s :: withoutWord flags word rest
termination_by args => args.length

/-- Follows the words from a verb to the verbs below it, and gives what is left of the arguments. -/
def Verb.follow : Nat → Verb → List String → Verb × List String
  | 0, v, args => (v, args)
  | depth + 1, v, args =>
    match words v.outline args with
    | [] => (v, args)
    | w :: _ =>
      match v.children.find? (·.name = w) with
      | some child => Verb.follow depth child (withoutWord v.outline w args)
      | none => (v, args)

def distanceRow (b : UInt8) : List UInt8 → List Nat → Nat → List Nat
  | a :: as, diag :: up :: rest, left =>
    let n := if a = b then diag else min (min up left) diag + 1
    n :: distanceRow b as (up :: rest) n
  | _, _, _ => []

/-- How many letters have to be changed, added or dropped to get from one text to another. -/
def distance (s t : List UInt8) : Nat :=
  let start := List.range (s.length + 1)
  let last := t.foldl (fun row b => let head := row.headD 0 + 1; head :: distanceRow b s row head) start
  last.getLastD 0

/-- The verbs that a mistyped word may mean: those close to it, and those that begin with it. -/
def suggestions (word : String) : List String :=
  let lower := Text.lower word
  ((Verb.top.children.filter (· ≠ .help)).map Verb.name).filter fun n =>
    distance (Text.encodeUtf8 lower) (Text.encodeUtf8 n) ≤ 2 || n.startsWith lower

def suggestionText (word : String) : String :=
  match suggestions word with
  | [] => ""
  | ns => "\n\nDid you mean this?\n" ++ String.join (ns.map fun n => s!"\t{n}\n")

def Verb.find (args : List String) : Except String (Verb × List String) :=
  let (v, left) := Verb.follow 3 .top args
  match v, words v.outline left with
  | .top, w :: _ => .error s!"unknown command {Text.quote w} for {Text.quote v.name}{suggestionText w}"
  | _, _ => .ok (v, left)

def Verb.checkCount (v : Verb) (args : List String) : Except String Unit :=
  match v, args with
  | .cacheClean, a :: _ | .version, a :: _ =>
    .error s!"unknown command {Text.quote a} for {Text.quote v.path}"
  | .render, args =>
    if args.length = 1 then .ok ()
    else .error s!"accepts 1 arg(s), received {args.length}"
  | _, _ => .ok ()

def Verb.checkRequired (v : Verb) (a : Arguments) : Except String Unit :=
  match (v.flags.filter fun f => f.required && !a.isSet f.name).map (Text.quote ·.name) with
  | [] => .ok ()
  | ns => .error ("required flag(s) " ++ ", ".intercalate ns ++ " not set")

end ClassForge.Command

import ClassForge.Build.Request

namespace ClassForge.Build

open Files (Path Disk)
open Diagnostic (Problem)
open Assembler (Workspace)

inductive Loaded
  | stored (classes : List StoredClass)
  | fresh (recipe : Recipe) (key : Option Digest)

def contentText (data : List UInt8) : String := String.ofList (Text.decodeUtf8 data)

def load (q : Request) (path : Path) (d : Disk) : Except Problem Loaded :=
  match d.read path with
  | .error e => .error (.coded .recipeDecode (path ++ ": " ++ e.message) "" none)
  | .ok data =>
    let key := if q.cache.isOpen then some (Cache.key data q.settings) else none
    let stored := match key with
      | some k => match q.cache.find k d with
        | .ok found => found
        | .error _ => none
      | none => none
    match stored with
    | some e => .ok (.stored e.classes)
    | none =>
      match Recipe.load path (contentText data) with
      | .ok r => .ok (.fresh r key)
      | .error e => .error e.report

def assemble (q : Request) (r : Recipe) (span : Nat) :
    StateM Site (Except Problem (List Nat × Workspace)) := fun s =>
  let (made, w) := (r.compile q.options).run
    { base := .registry q.registry, recorder := s.recorder, parentSpan := span }
  (match made with
    | .ok numbers => .ok (numbers, w)
    | .error e => .error e.report,
   { s with recorder := w.recorder })

def outputs (q : Request) (path : Path) : List Nat → Workspace → Except Problem (List Output) × Workspace
  | [], w => (.ok [], w)
  | i :: is, w =>
    match w.call i .bytes with
    | (some (.error f), w) => (.error f.problem, w)
    | (some (.ok (.bytes data)), w) =>
      let d := w.drafts.getD i default
      let o : Output :=
        { recipe := path, className := d.name, data := data.toList, rendered := if q.render then d.source else "" }
      let (rest, w) := outputs q path is w
      (rest.map (o :: ·), w)
    | (_, w) => outputs q path is w

def serialize (q : Request) (path : Path) (numbers : List Nat) (w : Workspace) :
    StateM Site (Except Problem (List Output)) := fun s =>
  let (r, w) := outputs q path numbers w
  (r, { s with recorder := w.recorder })

def keep (q : Request) (path : Path) (key : Option Digest) (span : Nat) (os : List Output) :
    StateM Site Unit := fun s =>
  match key with
  | none => ((), s)
  | some k =>
    let e : CacheRecord :=
      { schema := 0, recipe := path, classes := os.map fun o => ⟨o.className, o.data, o.rendered⟩, created := none }
    match q.cache.store k e s.now s.disk with
    | .ok disk => ((), { s with disk })
    | .error f => ((), { s with recorder := s.recorder.point .driver "cache-put" span f.message })

abbrev Work := ExceptT (Stage × Problem) (StateM Site)

/-- A stage of a recipe: it is reported before, and counted after, whatever comes of it. -/
def during {α : Type} (stage : Stage) (path : Path) (act : StateM Site (Except Problem α)) : Work α := do
  modify (·.report ⟨path, stage, .working, none⟩)
  let r ← act
  modify (·.passed stage)
  match r with
  | .ok a => pure a
  | .error p => throw (stage, p)

def recalled (path : Path) (cs : List StoredClass) : List Output :=
  cs.map fun c => { recipe := path, className := c.name, data := c.data, rendered := c.rendered, cached := true }

def makeRecipe (q : Request) (path : Path) (span : Nat) : Work (List Output × String × String) := do
  match ← during .load path (fun s => (load q path s.disk, s)) with
  | .stored cs => return (recalled path cs, "cache", "hit")
  | .fresh r key =>
    let (numbers, w) ← during .compile path (assemble q r span)
    let os ← during .serialize path (serialize q path numbers w)
    keep q path key span os
    return (os, "classes", toString os.length)

def openRecipe (q : Request) (parent : Nat) (path : Path) : StateM Site (Trace.Span × Nat) := do
  let span ← Site.openSpan ("recipe:" ++ path) parent
  if q.timed then
    let phase ← modifyGet fun s => let (i, timer) := s.timer.start s.now ("recipe " ++ path); (i, { s with timer })
    return (span, phase)
  return (span, 0)

def closeRecipe (q : Request) (span : Trace.Span) (phase : Nat)
    (made : Except (Stage × Problem) (List Output × String × String)) :
    StateM Site (Except (Stage × Problem) (List Output)) := do
  if q.timed then modify fun s => { s with timer := s.timer.finish s.now phase "" }
  match made with
  | .ok (os, note, value) =>
    Site.closeSpan (span.setExtra note value)
    return .ok os
  | .error e =>
    Site.closeSpan span
    return .error e

def buildRecipe (q : Request) (parent : Nat) (path : Path) :
    StateM Site (Except (Stage × Problem) (List Output)) := do
  let (span, phase) ← openRecipe q parent path
  closeRecipe q span phase (← (makeRecipe q path span.id).run)

end ClassForge.Build

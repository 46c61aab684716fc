import ClassForge.Build.Request
import ClassForge.Text.Cells
import ClassForge.Time.Duration

namespace ClassForge.Build

open Files (Path)
open Diagnostic (Problem)

def Stage.label : Stage → String
  | .load => "loading"
  | .compile => "compiling"
  | .serialize => "serializing"
  | .write => "writing"

def Stage.tenths : Stage → Nat
  | .load => 1
  | .compile => 4
  | .serialize => 7
  | .write => 9

structure ProgressRow where
  path : Path
  status : Status := .queued
  stage : Option Stage := none
  problem : Option Problem := none
  started : Option Int := none
  took : Int := 0

namespace ProgressRow

def finished (r : ProgressRow) : Bool := r.status = .done || r.status = .failed

def label (r : ProgressRow) : String :=
  if r.status = .working then ((r.stage.map Stage.label).getD "") else r.status.name

def share (r : ProgressRow) : UInt64 :=
  if r.finished then Number.quotient 1 1
  else if r.status = .working then Number.quotient ((r.stage.map Stage.tenths).getD 0 : Nat) 10
  else 0

def update (r : ProgressRow) (now : Int) (stage : Option Stage) (status : Status) (problem : Option Problem) :
    ProgressRow :=
  if r.finished then r
  else
    let started := if status = .working then some (r.started.getD now) else r.started
    let r := { r with started, status, stage, problem := problem.or r.problem }
    if r.finished then { r with took := (started.map (now - ·)).getD 0 } else r

end ProgressRow

/-- The progress of a build as it is shown: one row for each recipe, below a title and above a bar. -/
structure Progress where
  title : String
  rows : List ProgressRow
  width : Int := 80
  barWidth : Int := 76
  finished : Bool := false

namespace Progress

def start (title : String) (recipes : List Path) : Progress :=
  { title, rows := recipes.map fun path => { path } }

def modifyLast (path : Path) (f : ProgressRow → ProgressRow) : List ProgressRow → List ProgressRow
  | [] => []
  | r :: rs => if r.path = path && !rs.any (·.path = path) then f r :: rs else r :: modifyLast path f rs

def event (p : Progress) (now : Int) (file : Path) (stage : Option Stage) (status : Status)
    (problem : Option Problem) : Progress :=
  { p with rows := modifyLast file (·.update now stage status problem) p.rows }

def finish (p : Progress) : Progress := { p with finished := true }

def resize (p : Progress) (width : Int) : Progress :=
  if 0 < width then { p with width, barWidth := max (width - 4) 10 } else p

inductive Message
  | event (file : Path) (stage : Option Stage) (status : Status) (problem : Option Problem)
  | finished
  | resized (width : Int)
  | key (name : String)

def update (now : Int) (p : Progress) : Message → Progress × Bool
  | .event file stage status problem => (p.event now file stage status problem, false)
  | .finished => (p.finish, true)
  | .resized width => (p.resize width, false)
  | .key name => if name = "ctrl+c" then (p.finish, true) else (p, false)

def share (p : Progress) : UInt64 :=
  if p.rows.isEmpty then 0
  else Number.share (p.rows.foldl (fun t r => Number.plus t r.share) 0) p.rows.length

def count (p : Progress) (status : Status) : Nat := (p.rows.filter (·.status = status)).length

def header (p : Progress) : String :=
  let failed := p.count .failed
  let head := p.title ++ " " ++ toString (p.count .done + failed) ++ "/" ++ toString p.rows.length ++
    (if 0 < failed then ", " ++ toString failed ++ " failed" else "")
  if p.finished then "done: " ++ head else "⣾  " ++ head

def rowText (nameWidth : Int) (r : ProgressRow) : String :=
  "  " ++ Text.padLeft 12 r.label ++ " " ++ Text.shorten r.path nameWidth ++
    (if 0 < r.took then " " ++ Duration.text (Duration.millis r.took.toNat) else "") ++ "\n" ++
    (match r.problem with
    | some e => Text.spaces 15 ++ Text.block (Text.shorten e.text nameWidth) ++ "\n"
    | none => "")

/-- A full or an empty bar with its percentage. The bar does not move before the end. -/
def bar (p : Progress) : String :=
  let cell := if p.finished then '█' else '░'
  let percent := if p.finished then " 100%" else "   0%"
  String.ofList (List.replicate (p.barWidth - percent.length).toNat cell) ++ percent

def view (p : Progress) : String :=
  if p.rows.isEmpty then ""
  else
    Text.block p.header ++ "\n\n" ++
      String.join (p.rows.map (rowText (max (p.width - 26) 20))) ++ "\n" ++ p.bar ++ "\n"

end Progress

end ClassForge.Build

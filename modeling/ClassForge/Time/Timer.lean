import ClassForge.Number.Fixed
import ClassForge.Number.Shortest
import ClassForge.Text.Columns
import ClassForge.Text.Json

namespace ClassForge

structure Phase where
  name : String
  start : Int
  length : Option Int := none
  note : String := ""
  deriving DecidableEq, Repr

structure Timer where
  phases : Array Phase := #[]

namespace Timer

def start (t : Timer) (now : Int) (name : String) : Nat × Timer :=
  (t.phases.size, { t with phases := t.phases.push ⟨name, now, none, ""⟩ })

def finish (t : Timer) (now : Int) (i : Int) (note : String) : Timer :=
  if i < 0 then t
  else { t with phases := t.phases.modify i.toNat fun p =>
    if p.length.isNone then { p with length := some (now - p.start), note } else p }

def closed (t : Timer) : List (Phase × Int) :=
  t.phases.toList.filterMap fun p => p.length.map (p, ·)

def total (t : Timer) : Int := t.closed.foldl (fun n (_, d) => n + d) 0

def wall (t : Timer) : Int :=
  match t.closed with
  | [] => 0
  | (p, d) :: rest =>
    let first := rest.foldl (fun a (q, _) => min a q.start) p.start
    let last := rest.foldl (fun a (q, e) => max a (q.start + e)) (p.start + d)
    last - first

def millis (us : Int) : UInt64 := Number.quotient us 1000

open Text (Json)

def jsonFloat (bits : UInt64) : Json := .raw (FloatLayout.json.write .double bits.toNat)

def report (t : Timer) : Json :=
  let phases := t.closed.map fun (p, d) =>
    Json.obj ([("name", .str p.name), ("duration_ms", jsonFloat (millis d))] ++
      (if p.note = "" then [] else [("note", .str p.note)]))
  .obj [("sum_ms", jsonFloat (millis t.total)), ("wall_ms", jsonFloat (millis t.wall)),
    ("phases", if phases.isEmpty then .null else .arr phases)]

def row (name : String) (us : Int) : String :=
  "  " ++ Text.padRight 32 name ++ " " ++ Text.padLeft 8 (Number.fixed 2 (millis us)) ++ " ms"

def summary (t : Timer) : String :=
  let phases := t.closed.mergeSort fun a b => b.2 ≤ a.2
  "timings:\n" ++
    String.join (phases.map fun (p, d) =>
      row p.name d ++ (if p.note = "" then "" else "  // " ++ p.note) ++ "\n") ++
    row "sum" t.total ++ "\n" ++ row "wall" t.wall ++ "\n"

end Timer

end ClassForge

import ClassForge.Diagnostic.Bag
import ClassForge.Files.Path
import ClassForge.Text.Blank
import ClassForge.Text.Case
import ClassForge.Text.Json
import ClassForge.Text.Style

namespace ClassForge.Diagnostic

open Files (Path)

inductive PathMode
  | asGiven
  | absolute
  | relative
  | basename
  deriving DecidableEq, Repr

def PathMode.parse? (s : String) : Option PathMode :=
  match Text.lower (Text.trim s) with
  | "" | "auto" => some .asGiven
  | "absolute" => some .absolute
  | "relative" => some .relative
  | "basename" => some .basename
  | _ => none

/-- A path as it is shown. Relative paths start from `base`, or else from the working directory. -/
def PathMode.display (mode : PathMode) (working base path : Path) : String :=
  if path = "" then ""
  else match mode with
    | .asGiven => path
    | .absolute => Path.absolute working path
    | .relative =>
      Path.relative (Path.absolute working (if base = "" then "." else base)) (Path.absolute working path)
    | .basename => Path.base path

namespace Bag

open Text (Style)

def line (colour titled : Bool) (shown : Report → String) (d : Report) : String :=
  let paint (s : Style) (text : String) := if colour then s.apply text else text
  (if d.source = "" then "" else paint ⟨[1]⟩ (shown d) ++ ": ") ++
    paint ⟨[31, 1]⟩ "error" ++ " " ++ paint ⟨[33]⟩ d.code.id ++
    (if d.place = "" then "" else " " ++ paint ⟨[36]⟩ ("[" ++ d.place ++ "]")) ++ ": " ++ d.message ++
    (if titled && d.code ≠ .unknown then " (" ++ d.code.title ++ ")" else "")

def pretty (b : Bag) (colour titled : Bool) (shown : String → String) : String :=
  String.join (b.items.map fun d => line colour titled (fun d => shown d.source) d ++ "\n")

open Text (Json)

def reportJson (shown : String → String) (d : Report) : Json :=
  .obj ([("code", .str d.code.id), ("category", .str d.code.category.name), ("title", .str d.code.title),
    ("message", .str d.message)] ++
    (if shown d.source = "" then [] else [("source", .str (shown d.source))]) ++
    (if d.place = "" then [] else [("where", .str d.place)]))

def json (b : Bag) (limit : Int) (shown : String → String) : String :=
  let cut := 0 < limit && limit < b.items.length
  let items := if cut then b.items.take limit.toNat else b.items
  Json.pretty 0 (.obj ([("diagnostics", .arr (items.map (reportJson shown))),
    ("count", .int b.items.length)] ++ (if cut then [("truncated", .bool true)] else []))) ++ "\n"

end Bag

end ClassForge.Diagnostic

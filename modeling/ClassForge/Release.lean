import ClassForge.Text.Blank
import ClassForge.Text.Json
import ClassForge.Text.Style

namespace ClassForge

structure Release where
  version : String := "0.1.0-dev"
  commit : String := ""
  message : String := ""
  date : String := ""
  deriving DecidableEq, Repr

namespace Release

def classVersion : String := "49.0"

def orElse (s other : String) : String := if s = "" then other else s

def number (r : Release) : String := orElse (Text.trim r.version) "dev"

open Text (Style)

/-- The version with its three numbers in colours of their own. What follows a hyphen or plus is plain. -/
def pretty (r : Release) (colour : Bool) : String :=
  let v := Text.trim r.version
  if v = "" then "dev"
  else
    let core := v.toList.takeWhile fun c => c != '-' && c != '+'
    let suffix := String.ofList (v.toList.drop core.length)
    let paint (n : Nat) (s : String) : String := if colour then Style.apply ⟨[n, 1]⟩ s else s
    match (String.ofList core).splitOn "." with
    | major :: minor :: patch :: rest =>
      paint 33 major ++ "." ++ paint 32 minor ++ "." ++ paint 34 (".".intercalate (patch :: rest)) ++ suffix
    | _ => v

structure Parts where
  commit : Bool := false
  message : Bool := false
  date : Bool := false
  deriving DecidableEq, Repr

def known (s : String) : String := orElse (Text.trim s) "unknown"

def text (r : Release) (p : Parts) (colour : Bool) : String :=
  "classbuilder " ++ r.pretty colour ++ " (class files " ++ classVersion ++ ")\n" ++
    (if p.commit then "commit:  " ++ known r.commit ++ "\n" else "") ++
    (if p.message then "message: " ++ known r.message ++ "\n" else "") ++
    (if p.date then "built:   " ++ known r.date ++ "\n" else "")

open Text (Json)

def json (r : Release) (p : Parts) : String :=
  let part (wanted : Bool) (name value : String) : List (String × Json) :=
    if wanted then [(name, .str (known value))] else []
  Json.pretty 0 (.obj ([("tool", .str "classbuilder"), ("version", .str r.number),
    ("class_file_version", .str classVersion)] ++ part p.commit "git_commit" r.commit ++
    part p.message "git_message" r.message ++ part p.date "build_date" r.date)) ++ "\n"

end Release

end ClassForge

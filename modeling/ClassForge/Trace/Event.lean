import ClassForge.Text.Case
import ClassForge.Text.Json
import ClassForge.Time.Calendar

namespace ClassForge.Trace

structure Level where
  number : UInt8
  deriving DecidableEq, Repr

structure Scope where
  number : UInt8
  deriving DecidableEq, Repr

structure Kind where
  number : UInt8
  deriving DecidableEq, Repr

namespace Scope

def driver : Scope := ⟨1⟩
def classes : Scope := ⟨2⟩
def method : Scope := ⟨3⟩
def statement : Scope := ⟨4⟩

def name (s : Scope) : String :=
  match s.number.toNat with
  | 1 => "driver"
  | 2 => "class"
  | 3 => "method"
  | 4 => "stmt"
  | _ => "unknown"

end Scope

namespace Kind

def spanBegin : Kind := ⟨1⟩
def spanEnd : Kind := ⟨2⟩
def point : Kind := ⟨3⟩

def name (k : Kind) : String :=
  match k.number.toNat with
  | 1 => "begin"
  | 2 => "end"
  | 3 => "point"
  | _ => "unknown"

end Kind

namespace Level

def off : Level := ⟨0⟩
def error : Level := ⟨1⟩
def phase : Level := ⟨2⟩
def detail : Level := ⟨3⟩
def debug : Level := ⟨4⟩

def names : List String := ["off", "error", "phase", "detail", "debug"]

def name (l : Level) : String := names.getD l.number.toNat "unknown"

def isEnabled (l : Level) : Bool := l.number != 0

def records (l : Level) (s : Scope) : Bool :=
  if l = phase then s.number ≤ Scope.classes.number
  else if l = detail then s.number ≤ Scope.method.number
  else if l = debug then s.number != 0
  else false

def parse (s : String) : Except String Level :=
  match names.findIdx? fun n => Text.sameLetters s n with
  | some i => .ok ⟨i.toUInt8⟩
  | none => .error ("invalid trace level: " ++ Text.quote s ++ " (expected: " ++ "|".intercalate names ++ ")")

end Level

inductive Format
  | auto
  | text
  | ndjson
  | chrome
  deriving DecidableEq, Repr

namespace Format

def parse (s : String) : Except String Format :=
  match Text.lower s with
  | "" | "auto" => .ok .auto
  | "text" => .ok .text
  | "ndjson" => .ok .ndjson
  | "chrome" => .ok .chrome
  | _ => .error s!"invalid trace format: {Text.quote s} (expected: auto|text|ndjson|chrome)"

def forPath (f : Format) (path : String) : Format :=
  if f ≠ .auto then f
  else if path.endsWith ".ndjson" then .ndjson
  else if path.endsWith ".json" then .chrome
  else .text

def orText (f : Format) : Format := if f = .auto then .text else f

end Format

/-- One record. The lane groups the spans below one root. Extra values are in key order. -/
structure Event where
  time : Int := 0
  seq : Nat := 0
  kind : Kind
  scope : Scope
  span : Nat := 0
  parent : Nat := 0
  lane : Nat := 0
  name : String
  detail : String := ""
  extra : List (String × String) := []
  deriving DecidableEq, Repr

def setExtra (key value : String) : List (String × String) → List (String × String)
  | [] => [(key, value)]
  | (k, v) :: rest =>
    if key = k then (key, value) :: rest
    else if key < k then (key, value) :: (k, v) :: rest
    else (k, v) :: setExtra key value rest

namespace Event

open Text (Json)

def textMap (m : List (String × String)) : Json := .obj (m.map fun (k, v) => (k, .str v))

def unlessZero (key : String) (n : Nat) : List (String × Json) :=
  if n = 0 then [] else [(key, .int n)]

def ndjson (e : Event) : String :=
  Json.compact (.obj
    ([("time", .str (Calendar.stamp e.time)), ("seq", .int e.seq), ("kind", .str e.kind.name),
      ("scope", .str e.scope.name)] ++ unlessZero "span_id" e.span ++ unlessZero "parent_id" e.parent ++
      unlessZero "lane" e.lane ++ [("name", .str e.name)] ++
      (if e.detail = "" then [] else [("detail", .str e.detail)]) ++
      (if e.extra.isEmpty then [] else [("extra", textMap e.extra)]))) ++ "\n"

def phase (e : Event) : String :=
  if e.kind = .spanBegin then "B" else if e.kind = .spanEnd then "E" else "i"

def chrome (e : Event) : String :=
  let args := if e.detail = "" then e.extra else setExtra "detail" e.detail e.extra
  Json.compact (.obj
    ([("name", .str e.name), ("cat", .str e.scope.name), ("ph", .str e.phase), ("ts", .int e.time),
      ("pid", .int 1), ("tid", .int e.lane)] ++
      (if args.isEmpty then [] else [("args", textMap args)])))

def seqText (n : Nat) : String :=
  let s := toString n
  String.ofList (List.replicate (6 - s.length) ' ') ++ s

def text (e : Event) : String :=
  let indent := String.join (List.replicate (e.scope.number.toNat - 1) "  ")
  let arrow := if e.kind = .spanBegin then "→ " else if e.kind = .spanEnd then "← " else "• "
  let detail := if e.detail = "" then "" else " (" ++ e.detail ++ ")"
  let extra :=
    if e.extra.isEmpty then ""
    else " \x7b" ++ ", ".intercalate (e.extra.map fun (k, v) => s!"{k}={v}") ++ "\x7d"
  s!"[{seqText e.seq}] {indent}{arrow}{e.name}{detail}{extra}\n"

def encode (e : Event) : Format → String
  | .ndjson => e.ndjson
  | .chrome => e.chrome
  | .text | .auto => e.text

end Event

end ClassForge.Trace

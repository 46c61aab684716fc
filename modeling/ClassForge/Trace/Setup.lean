import ClassForge.Trace.Recorder

namespace ClassForge.Trace

structure StorageMode where
  number : UInt8
  deriving DecidableEq, Repr

namespace StorageMode

def stream : StorageMode := ⟨1⟩
def ring : StorageMode := ⟨2⟩
def both : StorageMode := ⟨3⟩

def name (m : StorageMode) : String :=
  match m.number.toNat with
  | 1 => "stream"
  | 2 => "ring"
  | 3 => "both"
  | _ => "unknown"

def parse (s : String) : Except String StorageMode :=
  match [stream, ring, both].find? fun m => Text.sameLetters s m.name with
  | some m => .ok m
  | none => .error ("invalid storage mode: " ++ Text.quote s ++ " (expected: stream|ring|both)")

end StorageMode

def Format.number : Format → Nat
  | .auto => 0
  | .text => 1
  | .ndjson => 2
  | .chrome => 3

namespace Recorder

def start (level : Level) (mode : StorageMode) (format : Format) (path : String) (ringSize : Int) :
    Except String Recorder :=
  if level = .off then .ok {}
  else
    let stream := Stream.start (format.forPath path)
    let ring := Ring.ofSize ringSize
    if mode = .ring then .ok { level, sink := .ring ring }
    else if mode = .stream then .ok { level, sink := .stream stream }
    else if mode = .both then .ok { level, sink := .both stream ring }
    else .error ("unknown storage mode: " ++ mode.name)

def ring? (r : Recorder) : Option Ring :=
  match r.sink with
  | .ring k => some k
  | _ => none

def written (r : Recorder) : String :=
  match r.sink with
  | .stream s | .both s _ => s.finish.text
  | _ => ""

end Recorder

def Ring.dump (r : Ring) (format : Format) : String :=
  ((r.snapshot.filter (Level.debug.records ·.scope)).foldl Stream.push (.start format)).finish.text

end ClassForge.Trace

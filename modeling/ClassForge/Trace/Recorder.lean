import ClassForge.Trace.Event

namespace ClassForge.Trace

/-- The newest events, up to a capacity. While there is room the oldest is first; later it is at
`next`. -/
structure Ring where
  capacity : Nat
  events : Array Event := #[]
  next : Nat := 0

namespace Ring

def defaultCapacity : Nat := 4096

def ofSize (n : Int) : Ring := { capacity := if n ≤ 0 then defaultCapacity else n.toNat }

def push (r : Ring) (e : Event) : Ring :=
  let ⟨capacity, events, next⟩ := r
  if events.size < capacity then ⟨capacity, events.push e, 0⟩
  else ⟨capacity, events.setIfInBounds next e, if next + 1 = capacity then 0 else next + 1⟩

def snapshot (r : Ring) : List Event := r.events.toList.drop r.next ++ r.events.toList.take r.next

end Ring

structure Stream where
  format : Format
  text : String := ""
  count : Nat := 0

namespace Stream

def start (format : Format) : Stream :=
  { format := format.orText, text := if format = .chrome then "\x7b\"traceEvents\":[\n" else "" }

def push (s : Stream) (e : Event) : Stream :=
  let ⟨format, text, count⟩ := s
  let text := if format = .chrome && count > 0 then text ++ ",\n" else text
  ⟨format, text ++ e.encode format, count + 1⟩

def finish (s : Stream) : Stream :=
  if s.format = .chrome then { s with text := s.text ++ "\n]\x7d\n" } else s

end Stream

inductive Sink
  | none
  | stream (s : Stream)
  | ring (r : Ring)
  | both (s : Stream) (r : Ring)

def Sink.push (k : Sink) (e : Event) : Sink :=
  match k with
  | .none => .none
  | .stream s => .stream (s.push e)
  | .ring r => .ring (r.push e)
  | .both s r => .both (s.push e) (r.push e)

structure Span where
  id : Nat := 0
  parent : Nat := 0
  lane : Nat := 0
  scope : Scope := .driver
  name : String := ""
  extra : List (String × String) := []
  live : Bool := false
  deriving DecidableEq, Repr

def Span.setExtra (s : Span) (key value : String) : Span :=
  if s.live then { s with extra := Trace.setExtra key value s.extra } else s

/-- The state of recording: the level, the sink, the counters, and the lanes of open spans. -/
structure Recorder where
  level : Level := .off
  sink : Sink := .none
  seq : Nat := 0
  ids : Nat := 0
  lanes : List (Nat × Nat) := []
  now : Int := 0

namespace Recorder

def isEnabled (r : Recorder) : Bool := r.level.isEnabled

def emit (r : Recorder) (e : Event) : Recorder :=
  if r.level.records e.scope then
    let ⟨level, sink, seq, ids, lanes, now⟩ := r
    ⟨level, sink.push e, seq, ids, lanes, now⟩
  else r

def laneOf (r : Recorder) (parent own : Nat) : Nat :=
  if parent = 0 then own else (r.lanes.lookup parent).getD own

def emitNext (r : Recorder) (e : Event) : Recorder :=
  let r := { r with seq := r.seq + 1 }
  r.emit { e with seq := r.seq, time := r.now }

def beginSpan (r : Recorder) (scope : Scope) (name : String) (parent : Nat) : Span × Recorder :=
  if r.isEnabled && r.level.records scope then
    let id := r.ids + 1
    let lane := r.laneOf parent id
    let s : Span := { id, parent, lane, scope, name, live := true }
    let r := { r with ids := id, lanes := (id, lane) :: r.lanes }
    (s, r.emitNext { kind := .spanBegin, scope, span := id, parent, lane, name })
  else ({}, r)

def endSpan (r : Recorder) (s : Span) (detail : String) : Span × Recorder :=
  if s.live then
    let r := { r with lanes := r.lanes.filter (·.1 ≠ s.id) }
    ({ s with live := false },
      r.emitNext { kind := .spanEnd, scope := s.scope, span := s.id, parent := s.parent, lane := s.lane,
                   name := s.name, detail, extra := s.extra })
  else (s, r)

def point (r : Recorder) (scope : Scope) (name : String) (parent : Nat) (detail : String) : Recorder :=
  if r.isEnabled && r.level.records scope then
    r.emitNext { kind := .point, scope, parent, lane := r.laneOf parent 0, name, detail }
  else r

def ofRing (level : Level) (size : Int) : Recorder := { level, sink := .ring (.ofSize size) }

def snapshot (r : Recorder) : List Event :=
  match r.sink with
  | .ring k | .both _ k => k.snapshot
  | _ => []

end Recorder

end ClassForge.Trace

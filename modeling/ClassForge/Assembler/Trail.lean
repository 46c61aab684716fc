import ClassForge.Trace.Recorder

namespace ClassForge.Assembler

open Trace (Recorder Span)

inductive Note
  | classOpened (name : String) (parent : Nat)
  | classFailed (text : String)
  | classWritten (bytes : Nat)
  | methodOpened (method : Nat) (name : String)
  | methodFinished (method : Nat) (bytes : Nat)
  | statement (method : Nat) (kind text : String)
  | writing
  | written (entries : Nat)
  | notWritten
  deriving DecidableEq, Repr

/-- A recorder, and the span below which a class is recorded. -/
structure Tracer where
  recorder : Recorder := {}
  parent : Nat := 0

/-- What a class records on: the recorder, and the spans of the class, of its writing and of its methods. -/
structure Trail where
  recorder : Recorder := {}
  span : Span := {}
  writing : Span := {}
  methods : List (Nat × Span) := []
  deriving Inhabited

def Trail.spanOf (methods : List (Nat × Span)) (m : Nat) : Span := (methods.lookup m).getD {}

def Trail.record (t : Trail) (n : Note) : Trail :=
  let ⟨r, span, writing, methods⟩ := t
  match n with
  | .classOpened name parent =>
    let (span, r) := r.beginSpan .classes ("class:" ++ name) parent
    ⟨r, span, writing, methods⟩
  | .classFailed text =>
    let (span, r) := r.endSpan span ("failed: " ++ text)
    ⟨r, span, writing, methods⟩
  | .classWritten n =>
    let (span, r) := r.endSpan (span.setExtra "bytes" (toString n)) ""
    ⟨r, span, writing, methods⟩
  | .methodOpened m name =>
    let (own, r) := r.beginSpan .method ("method:" ++ name) span.id
    ⟨r, span, writing, (m, own) :: methods⟩
  | .methodFinished m n =>
    let (own, r) := r.endSpan ((spanOf methods m).setExtra "bytes" (toString n)) ""
    ⟨r, span, writing, (m, own) :: methods.filter (·.1 ≠ m)⟩
  | .statement m kind text => ⟨r.point .statement kind (spanOf methods m).id text, span, writing, methods⟩
  | .writing =>
    let (writing, r) := r.beginSpan .classes "serialize" span.id
    ⟨r, span, writing, methods⟩
  | .written n =>
    let (writing, r) := r.endSpan (writing.setExtra "pool" (toString n)) ""
    ⟨r, span, writing, methods⟩
  | .notWritten =>
    let (writing, r) := r.endSpan writing "failed"
    ⟨r, span, writing, methods⟩

end ClassForge.Assembler

import ClassForge.Assembler.Call
import ClassForge.Hierarchy.Library

namespace ClassForge.Assembler

/-- Classes under construction over a common base. With `published`, each is seen by the others as
soon as its members are declared. All record on one recorder, which a class has while it is called. -/
structure Workspace where
  base : Provider := .registry Hierarchy.library
  published : Option Registry := none
  drafts : Array Draft := #[]
  recorder : Trace.Recorder := {}
  parentSpan : Nat := 0

namespace Workspace

def above (base : Provider) : Option Registry → Provider
  | some r => .session r (some base)
  | none => base

def provider (w : Workspace) : Provider := above w.base w.published

def publish (w : Workspace) (c : ClassInfo) : Workspace :=
  { w with published := w.published.map (·.add c) }

def create (w : Workspace) (access : Access) (name super : String) (interfaces : List String)
    (options : Options) : Except Failure Nat × Workspace :=
  let (r, recorder) := Draft.create w.provider access name super interfaces options ⟨w.recorder, w.parentSpan⟩
  let w := { w with recorder }
  match r with
  | .error f => (.error f, w)
  | .ok d =>
    let number := w.drafts.size
    let w := w.publish d.info
    (.ok number, { w with drafts := w.drafts.push (d.recording {}) })

def memberCount (d : Draft) : Nat := d.info.fields.size + d.info.methods.size

/-- Makes a call on a class and publishes what it declared. There is no answer where the class or
member is not there. -/
def call (w : Workspace) (i : Nat) (c : Call) : Option (Except Failure Reply) × Workspace :=
  let ⟨base, published, drafts, recorder, parentSpan⟩ := w
  if h : i < drafts.size then
    let (d, drafts) := takeOut drafts i h
    if c.isFor d then
      let before := memberCount d
      let (r, d) := (d.recording recorder).call (above base published) c
      let recorder := d.trail.recorder
      let d := d.recording {}
      let published :=
        if memberCount d > before then published.map (·.add d.info) else published
      (some r, ⟨base, published, drafts.setIfInBounds i d, recorder, parentSpan⟩)
    else (none, ⟨base, published, drafts.setIfInBounds i d, recorder, parentSpan⟩)
  else (none, ⟨base, published, drafts, recorder, parentSpan⟩)

/-- Writes the class file to a device, which tells how many bytes it took and why no more. The
answer is the number of bytes and what failed. -/
def writeTo (w : Workspace) (i : Nat) (device : Array UInt8 → Nat × Option String) :
    (Nat × Option Failure) × Workspace :=
  let name := ((w.drafts[i]?).map (·.name)).getD ""
  match w.call i .bytes with
  | (some (.ok (.bytes data)), w) =>
    let (n, reason) := device data
    ((n, reason.map fun r => .fault (.notWritten name r) ""), w)
  | (some (.error e), w) => ((0, some e), w)
  | (_, w) => ((0, none), w)

end Workspace

structure MethodRef where
  draft : Nat
  method : Nat
  deriving DecidableEq, Repr

structure PartRef where
  home : MethodRef
  number : Nat
  deriving DecidableEq, Repr

namespace Workspace

def method? (w : Workspace) (m : MethodRef) : Option Method :=
  match w.drafts[m.draft]? with
  | some d => d.methods[m.method]?
  | none => none

def node? (w : Workspace) (n : PartRef) : Option Node :=
  match w.method? n.home with
  | some m => m.nodes[n.number]?
  | none => none

def local? (w : Workspace) (l : PartRef) : Option Local :=
  match w.method? l.home with
  | some m => m.locals[l.number]?
  | none => none

def operand (w : Workspace) (here : MethodRef) : Option PartRef → Operand
  | none => .missing
  | some n =>
    if n.home = here then .node n.number
    else match w.node? n, w.method? n.home with
      | some x, some m => .foreign x.expr.kind m.place
      | _, _ => .missing

def localArg (w : Workspace) (here : MethodRef) : Option PartRef → LocalArg
  | none => .missing
  | some l =>
    if l.home = here then .local l.number
    else match w.local? l, w.method? l.home with
      | some x, some m => .foreign x.name m.place
      | _, _ => .missing

def rootWithin (m : Method) : Nat → Nat → Nat
  | 0, n => n
  | fuel + 1, n =>
    match (m.nodes[n]?).bind (·.parent) with
    | some p => rootWithin m fuel p
    | none => n

def rootKind (m : Method) (n : Nat) : String :=
  (m.nodes.getD (rootWithin m m.nodes.size n) default).expr.kind

end Workspace

end ClassForge.Assembler

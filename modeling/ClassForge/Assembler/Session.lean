import ClassForge.Assembler.Workspace
import Std.Data.HashMap

namespace ClassForge.Assembler

/-- A workspace whose parts are known by name. Members and statements go to the current class and
method. -/
structure Session where
  work : Workspace := {}
  options : Options := {}
  classes : Std.HashMap String Nat := {}
  fields : Std.HashMap String (Nat × Nat) := {}
  methods : Std.HashMap String MethodRef := {}
  locals : Std.HashMap String PartRef := {}
  exprs : Std.HashMap String PartRef := {}
  draft : Option Nat := none
  method : Option MethodRef := none

namespace Session

/-- Why a step gives nothing: a name or part is missing, or the call failed. -/
inductive Refusal
  | noClass
  | noField
  | noMethod
  | failed (f : Failure)
  deriving DecidableEq

abbrev Action := ExceptT Refusal (StateM Session)

inductive LocalName
  | kept (name : String)
  | arg (name : String)
  | param (i : Int)
  | missing
  deriving DecidableEq, Repr

def need {α : Type} (e : Refusal) : Option α → Action α
  | some a => pure a
  | none => throw e

def theDraft : Action Nat := do need .noClass (← get).draft

def theMethod : Action MethodRef := do need .noMethod (← get).method

def drafted (i : Nat) : Action Draft := do need .noClass (← get).work.drafts[i]?

def currentDraft : Action Draft := do drafted (← theDraft)

def currentMethod : Action Method := do need .noMethod ((← get).work.method? (← theMethod))

def onWork {α : Type} (f : Workspace → α × Workspace) : Action α :=
  modifyGet fun s =>
    let w := s.work
    let s := { s with work := {} }
    let (r, w) := f w
    (r, { s with work := w })

def call (i : Nat) (c : Call) : Action Reply := do
  match ← onWork (·.call i c) with
  | some (.ok r) => pure r
  | some (.error f) => throw (.failed f)
  | none => throw .noClass

/-- The sizes that steps change: of the pool, and of the current method the code, the stack and the
locals. -/
structure Status where
  pool : Option Nat
  body : Option (Nat × Nat × Nat)
  deriving DecidableEq, Repr

def status : Action Status := do
  let s ← get
  return {
    pool := (s.draft.bind (s.work.drafts[·]?)).map (·.pool.count)
    body := (s.method.bind s.work.method?).map fun m => (m.code.pos, m.stackSize, m.nextSlot) }

/-! Classes and members. -/

def openClass (handle : String) (access : Access) (name super : String) (interfaces : List String)
    (options : Option Options) : Action Draft := do
  let options := options.getD (← get).options
  match ← onWork (·.create access name super interfaces options) with
  | .error f => throw (.failed f)
  | .ok i =>
    modify fun s => { s with classes := s.classes.insert handle i, draft := some i, method := none }
    drafted i

def useClass (handle : String) : Action Unit := do
  let i ← need .noClass (← get).classes[handle]?
  modify fun s => { s with draft := some i }

def useMethod (handle : String) : Action Unit := do
  let m ← need .noMethod (← get).methods[handle]?
  modify fun s => { s with method := some m }

def addField (handle : String) (access : Access) (type : JType) (name : String) : Action Field := do
  let i ← theDraft
  match ← call i (.addField access type name) with
  | .field n =>
    modify fun s => { s with fields := s.fields.insert handle (i, n) }
    need .noField ((← drafted i).fields[n]?)
  | _ => throw .noField

def initField (handle : String) (v : Literal) : Action Unit := do
  let (i, n) ← need .noField (← get).fields[handle]?
  discard (call i (.initField n v))

def openMethod (handle : String) (c : Call) : Action Unit := do
  let i ← theDraft
  match ← call i c with
  | .method n => modify fun s => { s with methods := s.methods.insert handle ⟨i, n⟩, method := some ⟨i, n⟩ }
  | _ => throw .noMethod

def annotateClass (as : List Annotation) : Action Unit := do
  discard (call (← theDraft) (.annotateClass as))

def annotateField (handle : String) (as : List Annotation) : Action Unit := do
  let (i, n) ← need .noField (← get).fields[handle]?
  discard (call i (.annotateField n as))

def annotateMethod (handle : String) (as : List Annotation) : Action Unit := do
  let m ← need .noMethod (← get).methods[handle]?
  discard (call m.draft (.annotateMethod m.method as))

def throws (types : List JType) : Action Unit := do
  let m ← theMethod
  discard (call m.draft (.throws m.method types))

def setLine (n : Int) : Action Unit := do
  discard (call (← theDraft) (.setLine n))

def bytes : Action (Array UInt8) := do
  match ← call (← theDraft) .bytes with
  | .bytes data => pure data
  | _ => throw .noClass

def writeTo (device : Array UInt8 → Nat × Option String) : Action (Nat × Option Failure) := do
  let i ← theDraft
  onWork (·.writeTo i device)

def fillFrom : Nat → Nat → Int → Pool → Pool
  | 0, _, _, p => p
  | fuel + 1, next, n, p =>
    if n ≤ p.count then p
    else match (Pool.integer next.toUInt32).run p with
      | (.ok _, p) => fillFrom fuel (next + 1) n p
      | (.error _, p) => p

def fill (n : Int) : Action Unit := do
  let i ← theDraft
  onWork fun w => ((), { w with drafts := w.drafts.modify i fun d =>
    { d with pool := fillFrom 65536 1000000 n d.pool } })

/-! Locals, expressions and statements. -/

def local? : LocalName → Action (Option PartRef)
  | .kept name => return (← get).locals[name]?
  | .arg name => do
    let home ← theMethod
    return ((← get).work.method? home).bind fun m => (m.arg? name).map (⟨home, ·⟩)
  | .param i => do
    let home ← theMethod
    return ((← get).work.method? home).bind fun m => (m.param? i).map (⟨home, ·⟩)
  | .missing => pure none

def localArg (l : LocalName) : Action LocalArg := do
  let here ← theMethod
  let part ← local? l
  return (← get).work.localArg here part

def operand (e : Option PartRef) : Action Operand := do
  let here ← theMethod
  return (← get).work.operand here e

def build (b : Build) : Action (Option PartRef) := do
  let home ← theMethod
  match ← call home.draft (.build home.method b) with
  | .node n => return some ⟨home, n⟩
  | _ => return none

def keep (handle : String) (e : PartRef) : Action Unit :=
  modify fun s => { s with exprs := s.exprs.insert handle e }

def kept (handle : String) : Action (Option PartRef) := return (← get).exprs[handle]?

structure NodeInfo where
  kind : String
  type : JType
  subsumed : Bool
  consumed : Bool
  implicit : Bool
  parent : Option String
  root : String
  deriving DecidableEq

def describe (e : PartRef) : Action (Option NodeInfo) := do
  let w := (← get).work
  return do
    let n ← w.node? e
    let m ← w.method? e.home
    return {
      kind := n.expr.kind, type := n.expr.type, subsumed := n.subsumed, consumed := n.consumed,
      implicit := n.expr.isImplicit, parent := n.parent.map fun p => (m.nodes.getD p n).expr.kind,
      root := Workspace.rootKind m e.number }

def perform (r : Statement) : Action Reply := do
  let home ← theMethod
  call home.draft (.perform home.method r)

def declare (handle : String) (r : Statement) : Action Local := do
  let home ← theMethod
  match ← perform r with
  | .local n =>
    modify fun s => { s with locals := s.locals.insert handle ⟨home, n⟩ }
    need .noMethod ((← get).work.local? ⟨home, n⟩)
  | _ => throw .noMethod

end Session

end ClassForge.Assembler

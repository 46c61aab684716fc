import ClassForge.Assembler.Emission
import ClassForge.Assembler.Fault
import ClassForge.Assembler.Frame
import ClassForge.Assembler.Rendering
import ClassForge.Assembler.Trail

namespace ClassForge.Assembler

/-- What a class is assembled with. A `maxLocals` that is not positive means the limit of the
format, and a zero `major` the oldest version. -/
structure Options where
  major : UInt16 := 0
  minor : UInt16 := 0
  debug : Bool := false
  sourceFile : String := ""
  maxLocals : Int := 0
  deriving DecidableEq, Repr, Inhabited

def checkName (name : String) : Except Fault Unit :=
  if name = "" then .error .emptyName
  else if name.toList.any (['.', ';', '[', '/', '<', '>'].contains ·) then .error (.illegalName name)
  else .ok ()

def checkClassName (name : String) : Except Fault Unit :=
  if name = "" then .error .emptyName
  else if name.toList.any (['.', ';', '['].contains ·) then .error (.illegalName name)
  else .ok ()

structure AnnotationBytes where
  visible : Bool
  data : Array UInt8
  deriving Inhabited

structure Field where
  info : FieldInfo
  init : Option Value := none
  ref : UInt16 := 0
  fieldref : UInt16
  annotations : Array AnnotationBytes := #[]

structure Local where
  slot : Nat
  type : JType
  name : String
  /-- The position from which the variable holds a value. -/
  start : Nat
  param : Bool := false
  hidden : Bool := false
  deriving DecidableEq, Repr, Inhabited

structure Handler where
  start : Nat
  stop : Nat
  target : Nat
  catchType : UInt16
  deriving DecidableEq, Repr

structure LineRow where
  pc : Nat
  line : Nat
  deriving DecidableEq, Repr

structure TextLine where
  depth : Nat
  text : String
  deriving DecidableEq, Repr

/-- An expression node. It is owned at most once: as an operand (`subsumed`) or as a statement of
its own (`consumed`). -/
structure Node where
  expr : Expr
  operands : List Nat
  parent : Option Nat := none
  subsumed : Bool := false
  consumed : Bool := false
  deriving Inhabited

def Node.isOwned (n : Node) : Bool := n.subsumed || n.consumed

structure Method where
  number : Nat
  info : MethodInfo
  bodiless : Bool := false
  place : String
  locals : Array Local := #[]
  nextSlot : Nat := 0
  code : Code := .empty
  /-- The open scopes, innermost first. -/
  frames : List Frame := []
  nodes : Array Node := #[]
  handlers : Array Handler := #[]
  lines : Array LineRow := #[]
  maxStack : Nat := 0
  statements : Nat := 0
  superCalled : Bool := false
  finished : Bool := false
  throws : Array (UInt16 × JType) := #[]
  annotations : Array AnnotationBytes := #[]
  rendered : Array TextLine := #[]
  deriving Inhabited

/-- An entry of an array and the array with a blank there, so that the entry can change without a
copy. -/
@[noinline] def takeOut {α : Type} [Inhabited α] (a : Array α) (i : Nat) (h : i < a.size) : α × Array α :=
  a.swapAt i default h

namespace Method

def firstParam (m : Method) : Nat := if m.info.isStatic then 0 else 1

def paramLocals (m : Method) : List Local :=
  (m.locals.toList.drop m.firstParam).take m.info.params.length

def param? (m : Method) (i : Int) : Option Nat :=
  if 0 ≤ i ∧ i < m.info.params.length then some (m.firstParam + i.toNat) else none

def arg? (m : Method) (name : String) : Option Nat :=
  (m.paramLocals.findIdx? (·.name == name)).map (m.firstParam + ·)

def initializes (m : Method) (isStatic : Bool) : Bool :=
  m.info.name == if isStatic then MethodInfo.initializerName else MethodInfo.constructorName

def stackSlack : Nat := 2

def stackSize (m : Method) : Nat := min (m.maxStack + stackSlack) 65535

def depth (m : Method) : Nat := m.frames.length

def fits (m : Method) (limit : Int) (type : JType) : Bool := (m.nextSlot + type.slots : Int) ≤ limit

def addLocal (m : Method) (type : JType) (name : String) (param hidden : Bool) : Method :=
  { m with
    locals := m.locals.push ⟨m.nextSlot, type, name, m.code.pos, param, hidden⟩
    nextSlot := m.nextSlot + type.slots }

def overLimit (m : Method) (limit : Int) (type : JType) (name : String) : Fault :=
  .tooManyLocals name (m.nextSlot + type.slots - 1) (limit - 1)

def create (number : Nat) (className : String) (limit : Int) (info : MethodInfo) (names : List String) :
    Except (Fault × String) Method := do
  let place := className ++ "." ++ info.name ++ info.descriptor
  let m : Method := { number, info, place, bodiless := info.isAbstract || info.access.isNative }
  let receiver := if info.isStatic then [] else [("this", JType.ofClass className)]
  let m ← (receiver ++ names.zip info.params).foldlM (fun m (name, type) =>
    if m.fits limit type then .ok (m.addLocal type name true false)
    else .error (m.overLimit limit type name, place)) m
  if m.bodiless then pure { m with finished := true }
  else
    let known := LocalSet.below m.locals.size
    pure { m with frames := [{ scope := .body, inherited := known, assigned := known }] }

end Method

structure Context where
  provider : Provider
  info : ClassInfo
  options : Options
  fields : Array Field

def Context.lookup (c : Context) : Provider := .overlay (some c.info) (some c.provider)

def Context.name (c : Context) : String := c.info.name

/-- What a step in a method changes: the method, and of the class the pool, the line and the trail. -/
structure Work where
  method : Method
  pool : Pool
  line : Nat
  trail : Trail
  deriving Inhabited

abbrev Step := ReaderT Context (ExceptT Fault (StateM Work))

structure Term where
  id : Nat
  expr : Expr
  deriving Inhabited

def Term.type (t : Term) : JType := t.expr.type

/-- An expression passed to a builder call: none, one of the method, or one of another method. -/
inductive Operand
  | missing
  | node (id : Nat)
  | foreign (kind place : String)
  deriving DecidableEq, Repr, Inhabited

inductive LocalArg
  | missing
  | local (id : Nat)
  | foreign (name place : String)
  deriving DecidableEq, Repr

namespace Step

def ofExcept {α : Type} : Except Fault α → Step α
  | .ok a => pure a
  | .error e => throw e

def method : Step Method := return (← get).method

@[inline] def update (f : Method → Method) : Step Unit :=
  modify fun w => { w with method := f w.method }

def pool {α : Type} (a : Pool.Action α) : Step α := fun _ w =>
  let ⟨method, pool, line, trail⟩ := w
  let (r, pool) := a.run pool
  (match r with
    | .ok x => .ok x
    | .error e => .error (.pool e), ⟨method, pool, line, trail⟩)

def code {α : Type} (a : Code.Action α) : Step α := fun _ w =>
  let c := w.method.code
  let w := { w with method := { w.method with code := .empty } }
  let (r, c) := a.run c
  (match r with
    | .ok x => .ok x
    | .error e => .error (.code e), { w with method := { w.method with code := c } })

def pos : Step Nat := return (← method).code.pos

def top : Step Frame := return (← method).frames.headD default

def setTop (f : Frame) : Step Unit := update fun m => { m with frames := f :: m.frames.tail }

def close : Step Unit := do
  setTop { (← top) with closed := true }

def openScope (scope : Scope) : Step Unit := do
  let outer ← top
  update fun m =>
    { m with frames :=
        { scope, inherited := outer.assigned, assigned := outer.assigned, firstNode := m.nodes.size } ::
          m.frames }

def isAssigned (id : Nat) : Step Bool := return (← top).assigned.contains id

def assign (id : Nat) : Step Unit := do
  let f ← top
  setTop { f with assigned := f.assigned.insert id }

def render (depth : Nat) (text : String) : Step Unit :=
  update fun m => { m with rendered := m.rendered.push ⟨depth, text⟩ }

def addLine (lines : Array LineRow) (pc line : Nat) : Array LineRow :=
  match lines.back? with
  | some row => if row.pc = pc then lines.pop.push ⟨pc, line⟩ else lines.push ⟨pc, line⟩
  | none => lines.push ⟨pc, line⟩

def mark (kind : String) (depth : Nat) (text : String) : Step Unit :=
  modify fun ⟨m, pool, line, trail⟩ =>
    ⟨{ m with
        statements := m.statements + 1
        lines := addLine m.lines m.code.pos (line + 1)
        rendered := m.rendered.push ⟨depth, text⟩ },
      pool, line + 1, trail.record (.statement m.number kind text)⟩

def reserve (words : Nat) : Step Unit := update fun m => { m with maxStack := max m.maxStack words }

def allocate (type : JType) (name : String) (hidden : Bool) : Step Nat := do
  let ctx ← read
  let limit := ctx.options.maxLocals
  let type := type.resolve ctx.name
  if (← method).fits limit type then
    let id := (← method).locals.size
    update (·.addLocal type name false hidden)
    pure id
  else throw ((← method).overLimit limit type name)

def localAt (id : Nat) : Step Local := return (← method).locals.getD id default

def node (expr : Expr) (operands : List Term) : Step Term := do
  let id := (← method).nodes.size
  let ids := operands.map (·.id)
  update fun m =>
    { m with nodes :=
        (ids.foldl (fun ns i => ns.modify i fun n => { n with subsumed := true, parent := some id })
          m.nodes).push { expr, operands := ids } }
  pure ⟨id, expr⟩

def own (t : Term) : Step Unit :=
  update fun m => { m with nodes := m.nodes.modify t.id fun n => { n with subsumed := true } }

def consume (t : Term) : Step Unit :=
  update fun m => { m with nodes := m.nodes.modify t.id fun n => { n with consumed := true } }

def replace (t : Term) (expr : Expr) : Step Term := do
  update fun m => { m with nodes := m.nodes.modify t.id fun n => { n with expr } }
  pure ⟨t.id, expr⟩

/-- Checks that operands may get an owner: each there, of this method, free, and given once. -/
def claimFrom (position : Nat) (seen : List Nat) : List Operand → Step (List Term)
  | [] => pure []
  | .missing :: _ => throw (.missingOperand position)
  | .foreign kind place :: _ => throw (.foreignNode kind place)
  | .node id :: rest => do
    match (← method).nodes[id]? with
    | none => throw (.missingOperand position)
    | some n =>
      if n.isOwned then throw (.nodeUsed n.expr.kind)
      else if seen.contains id then throw (.nodeTwice n.expr.kind)
      else return ⟨id, n.expr⟩ :: (← claimFrom (position + 1) (id :: seen) rest)

def claimAll (operands : List Operand) : Step (List Term) := claimFrom 0 [] operands

def claim (a : Operand) : Step Term := do
  match ← claimAll [a] with
  | [x] => pure x
  | _ => throw (.missingOperand 0)

def claim2 (a b : Operand) : Step (Term × Term) := do
  match ← claimAll [a, b] with
  | [x, y] => pure (x, y)
  | _ => throw (.missingOperand 0)

def claim3 (a b c : Operand) : Step (Term × Term × Term) := do
  match ← claimAll [a, b, c] with
  | [x, y, z] => pure (x, y, z)
  | _ => throw (.missingOperand 0)

def ownLocal : LocalArg → Step Nat
  | .missing => throw .missingLocal
  | .foreign name place => throw (.foreignLocal name place)
  | .local id => do
    if id < (← method).locals.size then pure id else throw .missingLocal

end Step

end ClassForge.Assembler

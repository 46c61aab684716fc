import ClassForge.Assembler.Control
import ClassForge.Assembler.Output

namespace ClassForge.Assembler

open MethodInfo

/-- A class under construction. After the first failure, and once written, it takes no more changes. -/
structure Draft where
  info : ClassInfo
  options : Options
  pool : Pool := .empty
  thisRef : UInt16 := 0
  superRef : UInt16 := 0
  interfaceRefs : List UInt16 := []
  fields : Array Field := #[]
  methods : Array Method := #[]
  annotations : Array AnnotationBytes := #[]
  line : Nat := 0
  broken : Option Failure := none
  output : Option (Array UInt8) := none
  trail : Trail := {}
  deriving Inhabited

/-- A change of the class outside its methods. What it changed before a failure stays. -/
abbrev Change := ExceptT Fault (StateM Draft)

namespace Draft

def name (d : Draft) : String := d.info.name

def unusable (d : Draft) : Option Failure :=
  match d.broken with
  | some first => some (.unusable d.name first)
  | none => if d.output.isSome then some (.fault (.finalized d.name) d.name) else none

def note (d : Draft) (n : Note) : Draft := { d with trail := d.trail.record n }

def recording (d : Draft) (r : Trace.Recorder) : Draft :=
  { d with trail := { d.trail with recorder := r } }

def fail {α : Type} (d : Draft) (f : Failure) : Except Failure α × Draft :=
  let f := f.located d.name
  (.error f, if d.broken.isNone then { d with broken := some f }.note (.classFailed f.describe) else d)

def attempt {α : Type} (d : Draft) (a : Change α) : Except Failure α × Draft :=
  match a.run d with
  | (.ok x, d) => (.ok x, d)
  | (.error e, d) => d.fail (.fault e "")

def change {α : Type} (d : Draft) (a : Change α) : Except Failure α × Draft :=
  match d.unusable with
  | some f => (.error f, d)
  | none => d.attempt a

end Draft

namespace Change

def pool {α : Type} (a : Pool.Action α) : Change α := fun d =>
  let p := d.pool
  let d := { d with pool := .empty }
  let (r, p) := a.run p
  (match r with
    | .ok x => .ok x
    | .error e => .error (.pool e), { d with pool := p })

def ofExcept {α : Type} : Except Fault α → Change α
  | .ok a => pure a
  | .error e => throw e

def ofHierarchy {α : Type} : Except Hierarchy.Fault α → Change α
  | .ok a => pure a
  | .error e => throw (.hierarchy e)

end Change

def Options.javaFive : UInt16 := 49

def Options.complete (o : Options) (name : String) : Options :=
  { major := if o.major = 0 then javaFive else o.major
    minor := if o.major = 0 then 0 else o.minor
    debug := o.debug
    sourceFile := if o.sourceFile = "" then (JType.ofClass name).simpleName ++ ".java" else o.sourceFile
    maxLocals := if o.maxLocals ≤ 0 ∨ 65535 < o.maxLocals then 65535 else o.maxLocals }

namespace Draft

def rootName : String := "java/lang/Object"

/-- A class with nothing declared. Interfaces are abstract and have no superclass. -/
def start (access : Access) (name super : String) (interfaces : List String) (options : Options)
    (tracer : Tracer) : Except Fault Draft := do
  let name := Text.slashed name
  let super := if super = "" then rootName else Text.slashed super
  checkClassName name
  let access :=
    if access.isInterface then (access ||| .abstractBit).without .superBit else access ||| .superBit
  if access.isInterface && super ≠ rootName then throw (.interfaceExtends name super)
  if access.isFinal && access.isAbstract then throw (.finalAbstract name)
  pure
    { info := ⟨name, super, interfaces.map Text.slashed, access, #[], #[]⟩
      options := options.complete name
      trail := Trail.record { recorder := tracer.recorder } (.classOpened name tracer.parent) }

def connect (p : Provider) : Change Unit := do
  let info := (← get).info
  let lookup : Provider := .overlay (some info) (some p)
  let super ← Change.ofHierarchy (lookup.lookup info.super)
  if super.access.isFinal || super.isInterface then throw (.cannotExtend info.super)
  for name in info.interfaces do
    let c ← Change.ofHierarchy (lookup.lookup name)
    if !c.isInterface then throw (.notInterface name)
  let thisRef ← Change.pool (Pool.classRef info.name)
  let superRef ← Change.pool (Pool.classRef info.super)
  let refs ← info.interfaces.mapM fun name => Change.pool (Pool.classRef name)
  modify fun d => { d with thisRef, superRef, interfaceRefs := refs }

/-- A class that extends and implements what the provider knows, and what the recorder has become. -/
def create (p : Provider) (access : Access) (name super : String) (interfaces : List String)
    (options : Options) (tracer : Tracer) : Except Failure Draft × Trace.Recorder :=
  match start access name super interfaces options tracer with
  | .error e => (.error (.fault e ""), tracer.recorder)
  | .ok d =>
    match d.attempt (connect p) with
    | (.ok _, d) => (.ok d, d.trail.recorder)
    | (.error f, d) => (.error f, d.trail.recorder)

def lookup (d : Draft) (p : Provider) : Provider := .overlay (some d.info) (some p)

def addField (access : Access) (type : JType) (name : String) : Change Nat := do
  let info := (← get).info
  Change.ofExcept (checkName name)
  let type := type.resolve info.name
  if type.isVoid || type.isNull then throw (.fieldType name type)
  if (info.field? name).isSome then throw (.duplicateField name)
  let access :=
    if info.isInterface then access ||| .publicBit ||| .staticBit ||| .finalBit else access
  if access.isFinal && access.meets .volatileBit then throw (.finalVolatile name)
  let fieldref ← Change.pool (Pool.fieldref info.name name type.descriptor)
  let f : FieldInfo := ⟨info.name, name, type, access⟩
  let number := (← get).fields.size
  modify fun d =>
    { d with
      info := { d.info with fields := d.info.fields.push f }
      fields := d.fields.push { info := f, fieldref } }
  pure number

/-- Sets the initial value of a field, as long as the initializer that stores it is open. -/
def initField (number : Nat) (v : Literal) : Change Unit := do
  let d ← get
  match d.fields[number]? with
  | none => pure ()
  | some f =>
    match d.methods.find? fun m => m.finished && m.initializes f.info.isStatic with
    | some m => throw (.lateInitializer f.info.name m.info.name)
    | none =>
      let value ← Change.ofExcept (constantFor f.info.type v)
      modify fun d => { d with fields := d.fields.modify number fun f => { f with init := some value } }
      let ref ← Change.pool value.intern
      modify fun d => { d with fields := d.fields.modify number fun f => { f with ref } }

def declareMethod (access : Access) (ret : JType) (name : String) (params : List (String × JType)) :
    Change MethodInfo := do
  let info := (← get).info
  if name ≠ constructorName ∧ name ≠ initializerName then Change.ofExcept (checkName name)
  for (p, t) in params do
    if t.isVoid || t.isNull then throw (.paramType p name t)
    Change.ofExcept (checkName p)
  let m : MethodInfo :=
    ⟨info.name, name, params.map fun (_, t) => t.resolve info.name, ret.resolve info.name, access⟩
  if info.methods.any fun other => other.name == name && other.descriptor == m.descriptor then
    throw (.duplicateMethod name m.descriptor)
  let inInterface := info.isInterface && name ≠ initializerName
  if inInterface && name = constructorName then throw (.interfaceConstructor info.name)
  if inInterface && access.isStatic then throw (.interfaceStatic name)
  let m := if inInterface then { m with access := access ||| .publicBit ||| .abstractBit } else m
  if m.isAbstract then
    if !info.access.isAbstract then throw (.abstractInConcrete name info.name)
    if m.access.meets (.privateBit ||| .staticBit ||| .finalBit ||| .nativeBit) then
      throw (.abstractModifiers name (m.access.modifiers true))
  modify fun d => { d with info := { d.info with methods := d.info.methods.push m } }
  pure m

def openMethod (d : Draft) (m : MethodInfo) (names : List String) : Except Failure Nat × Draft :=
  let number := d.methods.size
  match Method.create number d.name d.options.maxLocals m names with
  | .error (e, place) => d.fail (.fault e place)
  | .ok method =>
    let d := { d with methods := d.methods.push method }
    (.ok number,
      if method.bodiless then d else d.note (.methodOpened number (m.name ++ m.descriptor)))

def declare (d : Draft) (access : Access) (ret : JType) (name : String) (params : List (String × JType)) :
    Except Failure Nat × Draft :=
  match d.change (declareMethod access ret name params) with
  | (.error f, d) => (.error f, d)
  | (.ok m, d) => d.openMethod m (params.map (·.1))

def addMethod (d : Draft) (access : Access) (ret : JType) (name : String)
    (params : List (String × JType)) : Except Failure Nat × Draft :=
  if name = constructorName ∨ name = initializerName then d.change (throw (.specialName name))
  else d.declare access ret name params

def addConstructor (d : Draft) (access : Access) (params : List (String × JType)) :
    Except Failure Nat × Draft :=
  d.declare (access.without (.staticBit ||| .abstractBit ||| .finalBit)) .void
    constructorName params

def addStaticInit (d : Draft) : Except Failure Nat × Draft :=
  d.declare .staticBit .void initializerName []

def setLine (d : Draft) (n : Int) : Draft :=
  if n > 0 then { d with line := (n - 1).toNat } else d

/-! Work in a method. -/

def runStep {α : Type} (p : Provider) (d : Draft) (i : Nat) (a : Step α) :
    Except (Fault × String) α × Draft :=
  let ⟨info, options, pool, thisRef, superRef, interfaceRefs, fields, methods, annotations, line,
    broken, output, trail⟩ := d
  if h : i < methods.size then
    let (method, methods) := takeOut methods i h
    let (r, w) := (a ⟨p, info, options, fields⟩).run ⟨method, pool, line, trail⟩
    let ⟨method, pool, line, trail⟩ := w
    let place := method.place
    (match r with
      | .ok x => .ok x
      | .error e => .error (e, place),
      ⟨info, options, pool, thisRef, superRef, interfaceRefs, fields, methods.setIfInBounds i method,
        annotations, line, broken, output, trail⟩)
  else
    (.error (.missingLocal, ""),
      ⟨info, options, pool, thisRef, superRef, interfaceRefs, fields, methods, annotations, line, broken,
        output, trail⟩)

def tryStep {α : Type} (p : Provider) (d : Draft) (i : Nat) (a : Step α) : Except Failure α × Draft :=
  match d.runStep p i a with
  | (.ok x, d) => (.ok x, d)
  | (.error (e, place), d) => d.fail (Failure.located place (.fault e ""))

end Draft

namespace Step

def entered : Step Unit := do
  let m ← method
  if m.bodiless then throw (.noBody m.info.name)
  if m.finished then throw (.finished m.info.name)

def reachable : Step Unit := do
  if (← top).closed then throw .unreachable

def throws (types : List JType) : Step Unit := do
  let ctx ← read
  for t in types do
    let t := t.resolve ctx.name
    if !ctx.lookup.isAssignable t .throwable then throw (.notThrowable t)
    let ref ← pool (Pool.classRef t.internalName)
    update fun m => { m with throws := m.throws.push (ref, t) }

end Step

def Statement.afterLeaving : Statement → Bool
  | .declare .. | .elseIf .. | .elseOpen | .catchOpen .. | .close => true
  | _ => false

/-- Whether building the expression on a written class counts as a failure of the class. -/
def Build.isStrict : Build → Bool
  | .const _ | .char _ | .self | .get _ | .static .. | .length _ => false
  | _ => true

namespace Draft

def build (p : Provider) (d : Draft) (i : Nat) (b : Build) : Except Failure Nat × Draft :=
  let request : Step Nat := do
    Step.entered
    return (← Step.build b).id
  let early : Option Fault := match b with
    | .char n => if n < 0 ∨ 65535 < n then some (.charRange n) else none
    | _ => none
  match early with
  | some e => d.tryStep p i (throw e)
  | none =>
    match d.unusable with
    | some f => if b.isStrict && d.broken.isNone then d.fail f else (.error f, d)
    | none => d.tryStep p i request

def perform (p : Provider) (d : Draft) (i : Nat) (s : Statement) : Except Failure (Option Nat) × Draft :=
  match d.unusable with
  | some f => (.error f, d)
  | none => d.tryStep p i (do
      Step.entered
      if !s.afterLeaving then Step.reachable
      Step.perform s)

def throws (p : Provider) (d : Draft) (i : Nat) (types : List JType) : Except Failure Unit × Draft :=
  match d.unusable with
  | some f => (.error f, d)
  | none => d.tryStep p i (Step.throws types)

/-! Annotations. -/

def encoded (a : Annotation) : Change AnnotationBytes := fun d =>
  let p := d.pool
  let d := { d with pool := .empty }
  let encoding := Annotation.encode d.name a
  let (r, out) := encoding.run ⟨p, .empty⟩
  let d := { d with pool := out.pool }
  match r with
  | .error e => (.error e, d)
  | .ok _ => match out.writer.overflow with
    | some e => (.error (.annotationSize a.type e), d)
    | none => (.ok ⟨a.visible, out.writer.bytes⟩, d)

def annotate (d : Draft) (attach : Draft → AnnotationBytes → Draft) :
    List Annotation → Except Failure Unit × Draft
  | [] => (.ok (), d)
  | a :: rest =>
    match d.change (encoded a) with
    | (.error f, d) => (.error f, d)
    | (.ok b, d) => annotate (attach d b) attach rest

def annotateClass (d : Draft) (as : List Annotation) : Except Failure Unit × Draft :=
  d.annotate (fun d b => { d with annotations := d.annotations.push b }) as

def annotateField (d : Draft) (i : Nat) (as : List Annotation) : Except Failure Unit × Draft :=
  d.annotate (fun d b =>
    { d with fields := d.fields.modify i fun f => { f with annotations := f.annotations.push b } }) as

def annotateMethod (d : Draft) (i : Nat) (as : List Annotation) : Except Failure Unit × Draft :=
  d.annotate (fun d b =>
    { d with methods := d.methods.modify i fun m => { m with annotations := m.annotations.push b } }) as

end Draft

end ClassForge.Assembler

import ClassForge.Assembler.Draft

namespace ClassForge.Assembler

open Serial

def annotationBody (blobs : Array AnnotationBytes) (visible : Bool) : Option (Array UInt8) :=
  match blobs.toList.filter (·.visible == visible) with
  | [] => none
  | kept => some (kept.foldl (fun bs b => bs ++ b.data) (be16 kept.length.toUInt16).toArray)

def annotationAttrs (blobs : Array AnnotationBytes) : List (String × Array UInt8) :=
  ((annotationBody blobs true).toList.map fun b => ("RuntimeVisibleAnnotations", b)) ++
    ((annotationBody blobs false).toList.map fun b => ("RuntimeInvisibleAnnotations", b))

def Serial.attrs (as : List (String × Array UInt8)) : Serial Unit :=
  as.forM fun (name, body) => attr name body

def Serial.member (access : Access) (name descriptor : String) : Serial Unit := do
  let n ← intern (Pool.utf8 name)
  let d ← intern (Pool.utf8 descriptor)
  u2 access.bits
  u2 n
  u2 d

def Field.constantIndex : Value → Serial UInt16
  | .bool b => intern (Pool.integer (if b then 1 else 0))
  | .int n => intern (Pool.integer n.toUInt32)
  | .long n => intern (Pool.long n.toUInt64)
  | .float b => intern (Pool.float b)
  | .double b => intern (Pool.double b)
  | .text s => intern (Pool.string s)
  | .null | .type _ => throw (.unsupportedConstant "<nil>")

def Field.write (f : Field) : Serial Unit := do
  member f.info.access f.info.name f.info.descriptor
  let annotations := annotationAttrs f.annotations
  count (annotations.length + if f.isConstant then 1 else 0) "field attributes"
  if f.isConstant then
    let i ← constantIndex (f.init.getD .null)
    attr "ConstantValue" (be16 i).toArray
  attrs annotations

namespace Method

def lineTable (m : Method) (size : Nat) : Serial Unit := do
  let kept := m.lines.toList.filter (·.pc < size)
  count kept.length "line numbers"
  for row in kept do
    let pc ← narrow row.pc "line pc"
    let line ← narrow row.line "line number"
    u2 pc
    u2 line

def localTable (m : Method) (size : Nat) : Serial Unit := do
  let kept := m.locals.toList.filter fun l => !l.hidden && l.start < size
  count kept.length "local variables"
  for l in kept do
    let name ← intern (Pool.utf8 l.name)
    let descriptor ← intern (Pool.utf8 l.type.descriptor)
    u2 (← narrow l.start "local range")
    u2 (← narrow (size - l.start) "local range")
    u2 name
    u2 descriptor
    u2 (← narrow l.slot "local slot")

def codeBody (m : Method) (debug : Bool) : Serial Unit := do
  let size := m.code.pos
  let stack ← narrow (m.maxStack + stackSlack) "max_stack"
  let locals ← narrow m.nextSlot "max_locals"
  u2 stack
  u2 locals
  write fun w => (w.len4 size "code").raw m.code.bytes
  count m.handlers.size "exception table"
  for h in m.handlers.toList do
    u2 (← narrow h.start "handler offset")
    u2 (← narrow h.stop "handler offset")
    u2 (← narrow h.target "handler offset")
    u2 h.catchType
  if debug then
    let lines ← bytesOf (m.lineTable size)
    let locals ← bytesOf (m.localTable size)
    count 2 "code attributes"
    attr "LineNumberTable" lines
    attr "LocalVariableTable" locals
  else count 0 "code attributes"

def exceptionBody (m : Method) : Array UInt8 :=
  (m.throws.foldl (fun w t => w.u2 t.1) (Writer.empty.len2 m.throws.size "exceptions")).bytes

def write (m : Method) (debug : Bool) : Serial Unit := do
  member m.info.access m.info.name m.info.descriptor
  let annotations := annotationAttrs m.annotations
  count (annotations.length + (if m.bodiless then 0 else 1) + if m.throws.isEmpty then 0 else 1)
    "method attributes"
  if !m.bodiless then
    let body ← bytesOf (m.codeBody debug)
    attr "Code" body
  if !m.throws.isEmpty then attr "Exceptions" m.exceptionBody
  attrs annotations

end Method

namespace Draft

def writeBody (d : Draft) : Serial Unit := do
  u2 d.info.access.bits
  u2 d.thisRef
  u2 d.superRef
  count d.interfaceRefs.length "interfaces"
  d.interfaceRefs.forM u2
  count d.fields.size "fields"
  d.fields.toList.forM Field.write
  count d.methods.size "methods"
  d.methods.toList.forM (Method.write · d.options.debug)
  let annotations := annotationAttrs d.annotations
  count (annotations.length + if d.options.debug then 1 else 0) "class attributes"
  if d.options.debug then
    let file ← intern (Pool.utf8 d.options.sourceFile)
    attr "SourceFile" (be16 file).toArray
  attrs annotations

def magic : UInt32 := 0xcafebabe

def assemble (options : Options) (pool : Pool) (body : Array UInt8) : Writer :=
  (Pool.write (((Writer.empty.u4 magic).u2 options.minor).u2 options.major) pool).raw body

def serialize : Change (Array UInt8) := fun d =>
  let p := d.pool
  let d := { d with pool := .empty }
  let (r, out) := d.writeBody.run ⟨p, .empty⟩
  let ⟨pool, body⟩ := out
  let d := { d with pool }
  match r with
  | .error e => (.error e, d)
  | .ok _ => match body.overflow with
    | some e => (.error (.output e), d)
    | none =>
      let w := assemble d.options d.pool body.bytes
      match w.overflow with
      | some e => (.error (.output e), d)
      | none => (.ok w.bytes, d)

def needsStaticInit (d : Draft) : Bool :=
  !(d.methods.any fun m => m.info.name == MethodInfo.initializerName) &&
    d.fields.any fun f => f.isStored true

def checkComplete (p : Provider) : Change Unit := do
  let d ← get
  match d.methods.find? fun m => !m.finished with
  | some m => throw (.methodOpen m.info.name m.info.descriptor)
  | none =>
    if !d.info.isInterface && !d.info.access.isAbstract then
      match ← Change.ofHierarchy ((d.lookup p).unimplemented d.name) with
      | [] => pure ()
      | m :: _ => throw (.notImplemented d.name m.owner m.signature)

def addMissingStaticInit (p : Provider) (d : Draft) : Except Failure Unit × Draft :=
  if d.needsStaticInit then
    match d.addStaticInit with
    | (.error f, d) => (.error f, d)
    | (.ok i, d) =>
      match d.perform p i .close with
      | (.error f, d) => (.error f, d)
      | (.ok _, d) => (.ok (), d)
  else (.ok (), d)

/-- Finishes the class and gives its class file. From then on the same bytes are given. -/
def bytes (p : Provider) (d : Draft) : Except Failure (Array UInt8) × Draft :=
  match d.output, d.broken with
  | some out, none => (.ok out, d)
  | _, _ =>
    match d.change (checkComplete p) with
    | (.error f, d) => (.error f, d)
    | (.ok _, d) =>
      match d.addMissingStaticInit p with
      | (.error f, d) => (.error f, d)
      | (.ok _, d) =>
        match serialize (d.note .writing) with
        | (.error e, d) => (d.note .notWritten).fail (.fault e "")
        | (.ok out, d) =>
          let d := (d.note (.written d.pool.count)).note (.classWritten out.size)
          (.ok out, { d with output := some out })

end Draft

end ClassForge.Assembler

import ClassForge.Assembler.Method

namespace ClassForge.Assembler

def intRange : Kind → Int × Int
  | .prim .byte => (-128, 127)
  | .prim .short => (-32768, 32767)
  | .prim .char => (0, 65535)
  | _ => (-2147483648, 2147483647)

def numberFor (t : JType) (v : Literal) (whole : Option Int) (fraction : Option UInt64) : Except Fault Value :=
  match t.kind, whole, fraction with
  | .prim .boolean, _, _ => .error (.notBooleanConstant v.numberText)
  | .prim .long, some i, _ => .ok (.long (Int64.ofInt i))
  | .prim .float, some i, _ => .ok (.float (Binary.ofInt .single i).toUInt32)
  | .prim .float, none, some f => .ok (.float (narrowBits f))
  | .prim .double, some i, _ => .ok (.double (Binary.ofInt .double i).toUInt64)
  | .prim .double, none, some f => .ok (.double f)
  | .prim .long, none, _ | .prim .float, none, none | .prim .double, none, none =>
    .error (.constantRange v.numberText t)
  | k, some i, _ =>
    if (intRange k).1 ≤ i ∧ i ≤ (intRange k).2 then .ok (.int (Int32.ofInt i))
    else .error (.constantRange v.numberText t)
  | _, none, _ => .error (.constantRange v.numberText t)

def constantFor (t : JType) (v : Literal) : Except Fault Value :=
  match v with
  | .null => if t.isReference then .ok .null else .error (.nullConstant t)
  | _ =>
    if t.isReference then
      match v with
      | .text s => if t = .string ∨ t = .object then .ok (.text s) else .error (.constantForm t v.typeName)
      | _ => .error (.constantForm t v.typeName)
    else match v with
      | .bool b => if t.kind = .prim .boolean then .ok (.bool b) else .error (.booleanConstant t)
      | .integer w n =>
        if w.isSupported then numberFor t v (some n) none else .error (.unsupportedConstant v.typeName)
      | .float b => numberFor t v none (some (widenBits b))
      | .double b => numberFor t v none (some b)
      | _ => .error (.unsupportedConstant v.typeName)

def convertOp (source target : Kind) : Opcode :=
  let s := Opcode.family source
  let t := Opcode.family target
  Opcode.i2l.plus (3 * s + if t > s then t - 1 else t)

def isInt (k : Kind) : Bool := Opcode.family k == 0

/-- The instructions from one primitive to another, through `int` where no direct one exists. -/
def convertOps (source target : Kind) : List Opcode :=
  if source = target then []
  else match target with
    | .prim .byte | .prim .short | .prim .char =>
      (if isInt source then [] else [convertOp source (.prim .int)]) ++
        match target with
        | .prim .byte => [.i2b]
        | .prim .short => if source = .prim .byte then [] else [.i2s]
        | _ => [.i2c]
    | _ => if Opcode.family source = Opcode.family target then [] else [convertOp source target]

def widens (source target : Kind) : Bool :=
  source != target && source.isNumeric && target.isNumeric && target != .prim .char &&
    source.level < target.level

def argConvertible (p : Provider) (boxing : Bool) (s t : JType) : Bool :=
  if s = t then true
  else if s.isVoid then false
  else if s.isPrimitive && t.isPrimitive then widens s.kind t.kind
  else if s.isReference && t.isReference then p.isAssignable s t
  else if !boxing then false
  else if s.isPrimitive then
    match s.box with
    | some b => p.isAssignable b t
    | none => false
  else match s.unbox with
    | some u => u == t || widens u.kind t.kind
    | none => false

namespace Step

def convert (e : Term) (t : JType) : Step Term :=
  if e.type = t then pure e
  else node (.convert t (convertOps e.type.kind t.kind) true e.expr) [e]

def retype (e : Term) (t : JType) : Step Term :=
  if e.type = t then pure e else node (.convert t [] true e.expr) [e]

def target (op : Opcode) (owner : String) (isInterface : Bool) (name : String) (ret : JType)
    (params : List JType) : Step CallTarget := do
  let descriptor := JType.methodDescriptor ret params
  let ref ← pool (if isInterface then Pool.interfaceMethodref owner name descriptor
    else Pool.methodref owner name descriptor)
  let argSlots := if isInterface && op == .invokeinterface then params.foldl (fun n t => n + t.slots) 0 else 0
  pure ⟨op, .ofClass owner, name, ref, argSlots⟩

def box (e : Term) : Step Term := do
  match e.type.box with
  | none => throw (.noBox e.type)
  | some t =>
    let c ← target .invokestatic t.internalName false "valueOf" t [e.type]
    node (.invoke t c true [e.expr]) [e]

def unbox (e : Term) : Step Term := do
  match e.type.unbox with
  | none => throw (.notBox e.type)
  | some t =>
    let c ← target .invokevirtual e.type.internalName false (t.kind.name ++ "Value") t []
    node (.invoke t c true [e.expr]) [e]

def unboxed (e : Term) : Step Term :=
  if e.type.unbox.isSome then unbox e else pure e

def isAssignable (s t : JType) : Step Bool := return (← read).lookup.isAssignable s t

def narrowed (e : Expr) (t : JType) : Option Expr :=
  match e, t.kind with
  | .const s (.int n) ref, .prim .byte | .const s (.int n) ref, .prim .short
  | .const s (.int n) ref, .prim .char =>
    if s.kind.isIntLike && (intRange t.kind).1 ≤ n.toInt && n.toInt ≤ (intRange t.kind).2 then
      some (.const t (.int n) ref)
    else none
  | _, _ => none

/-- Adapts a value for storage: identity, a constant narrowed, widening, boxing, unboxing and then
widening, or assignability. -/
def assignConv (e : Term) (t : JType) : Step Term := do
  let s := e.type
  if s = t then pure e
  else if s.isVoid then throw (.voidWhere t)
  else if s.isPrimitive && t.isPrimitive then
    if s.kind = .prim .boolean || t.kind = .prim .boolean then throw (.notAssignable s t)
    else match narrowed e.expr t with
      | some c => replace e c
      | none => if widens s.kind t.kind then convert e t else throw (.notAssignable s t)
  else if s.isPrimitive then
    match s.box with
    | some b => if ← isAssignable b t then box e else throw (.notAssignable s t)
    | none => throw (.notAssignable s t)
  else if t.isPrimitive then
    match s.unbox with
    | some u =>
      if u = t || widens u.kind t.kind then convert (← unbox e) t else throw (.notAssignable s t)
    | none => throw (.notAssignable s t)
  else if ← isAssignable s t then pure e
  else throw (.notAssignable s t)

def isInterfaceType (t : JType) : Step Bool := do
  if t.isArray || !t.isReference || t.isNull then pure false
  else match (← read).lookup.find? t.internalName with
    | some c => pure c.isInterface
    | none => pure false

def checkCast (e : Term) (t : JType) : Step Term := do
  let ref ← pool (Pool.classRef t.internalName)
  node (.checkCast t ref e.expr) [e]

/-- Adapts a value by a cast. Downcasts and casts to or from an interface are checked at run time. -/
def castConv (e : Term) (t : JType) : Step Term := do
  let s := e.type
  if s.isVoid || t.isVoid then throw (.invalidCast s t)
  else if s = t then pure e
  else if s.isPrimitive && t.isPrimitive then
    if (s.kind == .prim .boolean) != (t.kind == .prim .boolean) then throw (.invalidCast s t)
    else convert e t
  else if s.isPrimitive then
    match s.box with
    | some b => if ← isAssignable b t then box e else throw (.invalidCast s t)
    | none => throw (.invalidCast s t)
  else if t.isPrimitive then
    match s.unbox, t.box with
    | some u, _ =>
      if u = t || widens u.kind t.kind then convert (← unbox e) t else throw (.invalidCast s t)
    | none, some b =>
      if ← isAssignable b s then
        let c ← checkCast e b
        convert (← unbox c) t
      else throw (.invalidCast s t)
    | none, none => throw (.invalidCast s t)
  else if ← isAssignable s t then retype e t
  else if ← isAssignable t s then checkCast e t
  else if (← isInterfaceType s) && !t.isArray then checkCast e t
  else if (← isInterfaceType t) && !s.isArray then checkCast e t
  else throw (.invalidCast s t)

end Step

end ClassForge.Assembler

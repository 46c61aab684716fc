import ClassForge.Assembler.Workspace
import ClassForge.Recipe.Format

namespace ClassForge.Recipe

open Assembler (Workspace Options Call Reply Build Operand LocalArg)

/-! Order. -/

def class? (r : Recipe) (name : String) : Option ClassDecl := r.classes.find? (·.name = name)

/-- A class behind those of the recipe that it extends, without those that are placed already. -/
def chain (r : Recipe) (placed : List ClassDecl) :
    Nat → List String → ClassDecl → Except Problem (List ClassDecl)
  | 0, _, c => .error (.fault (.cycle c.name) "")
  | fuel + 1, below, c =>
    if placed.any (·.name = c.name) then .ok []
    else if below.contains c.name then .error (.fault (.cycle c.name) "")
    else match r.class? c.super with
      | some s => (chain r placed fuel (c.name :: below) s).map (· ++ [c])
      | none => .ok [c]

/-- The classes in an order where each comes after the class of the recipe that it extends. -/
def order (r : Recipe) : Except Problem (List ClassDecl) :=
  r.classes.foldlM (fun placed c => (r.chain placed (r.classes.length + 1) [] c).map (placed ++ ·)) []

/-! Names and types. -/

def className (r : Recipe) (name : String) : String :=
  if (r.class? name).isSome then r.internalName name else Text.slashed name

def typeOf (r : Recipe) (spelling : String) : Except Problem JType :=
  let (dims, cs) := JType.pairsAndBase spelling
  let base := String.ofList cs
  if (r.class? base).isSome then .ok (dims.repeat JType.arrayOf (.ofClass (r.internalName base)))
  else match JType.parseName spelling with
    | .ok t => .ok t
    | .error e => .error (.fault (.unknownType spelling e.message) "")

def literal (t : JType) (v : Value) : Except Problem Assembler.Literal :=
  match v.literal? t with
  | some l => .ok l
  | none => .error (.fault (.misfit v.describe v.typeName t) "")

/-! Classes. -/

abbrev Compile := ExceptT Problem (StateM Workspace)

def onWorkspace {α : Type} (f : Workspace → Except Assembler.Failure α × Workspace) : Compile α := fun w =>
  let (r, w) := f w
  (r.mapError .assembly, w)

def call (i : Nat) (c : Call) : Compile Reply :=
  onWorkspace fun w =>
    let (r, w) := w.call i c
    (r.getD (.ok .done), w)

def located {α : Type} (place : String) : Except Problem α → Compile α
  | .ok a => pure a
  | .error e => throw (e.located place)

/-- A class whose fields are declared: its number in the workspace, its name, and fields with types. -/
structure Unit where
  decl : ClassDecl
  number : Nat
  name : String
  fields : List (FieldDecl × JType)

def fieldAccess (f : FieldDecl) : Access :=
  ((accessOf? f.access).getD .none).union
    ((if f.isStatic then .staticBit else Access.none).union (if f.isFinal then .finalBit else .none))

def declareField (r : Recipe) (i : Nat) (owner : String) (f : FieldDecl) : Compile (FieldDecl × JType) := do
  let place := owner ++ "." ++ f.name
  let t ← located place (r.typeOf f.type)
  let field ← call i (.addField (fieldAccess f) t f.name)
  match field, f.value with
  | .field n, some v => do
    let l ← located place (literal t v)
    discard (call i (.initField n l))
  | _, _ => pure ()
  return (f, t)

def declare (r : Recipe) (options : Options) (c : ClassDecl) : Compile Unit := do
  let access := if c.isFinal then Access.publicBit.union .finalBit else .publicBit
  let super := if c.super = "" then "" else r.className c.super
  let name := r.internalName c.name
  let i ← onWorkspace (·.create access name super (c.interfaces.map r.className) options)
  let fields ← c.fields.mapM (r.declareField i name)
  return ⟨c, i, name, fields⟩

namespace Unit

def addMethod (u : Unit) (c : Call) : Compile Nat := do
  match ← call u.number c with
  | .method m => return m
  | _ => return 0

def build (u : Unit) (m : Nat) (b : Build) : Compile Operand := do
  match ← call u.number (.build m b) with
  | .node n => return .node n
  | _ => return .missing

def perform (u : Unit) (m : Nat) (s : Assembler.Statement) : Compile PUnit :=
  discard (call u.number (.perform m s))

def argument (u : Unit) (m : Nat) (name : String) : Compile LocalArg := do
  match ((← get).method? ⟨u.number, m⟩).bind (·.arg? name) with
  | some l => return .local l
  | none => return .missing

def publicStatic : Access := Access.publicBit.union .staticBit

def instanceFields (u : Unit) : List (FieldDecl × JType) := u.fields.filter (!·.1.isStatic)

def constructorFields (u : Unit) : List (FieldDecl × JType) :=
  if u.decl.constructor then u.instanceFields.filter (·.1.value.isNone) else []

def addConstructor (u : Unit) : Compile PUnit := do
  let fields := u.constructorFields
  let m ← u.addMethod (.addConstructor .publicBit (fields.map fun (f, t) => (f.name, t)))
  for (f, _) in fields do
    let self ← u.build m .self
    let v ← u.build m (.get (← u.argument m f.name))
    u.perform m (.setField self f.name v)
  u.perform m .close

def getterName (field : String) (t : JType) : String :=
  let head := match field.toList with
    | c :: cs => String.ofList (Text.upperChar c :: cs)
    | [] => ""
  (if t = .boolean then "is" else "get") ++ head

def addGetter (u : Unit) (name : String) (ret : JType) (field : String) (isStatic : Bool) : Compile PUnit := do
  let m ← u.addMethod (.addMethod (if isStatic then publicStatic else .publicBit) ret name [])
  let v ←
    if isStatic then u.build m (.static (.ofClass u.name) field)
    else do
      let self ← u.build m .self
      u.build m (.field self field)
  u.perform m (.leave v)
  u.perform m .close

def addDeclared (u : Unit) (r : Recipe) (d : MethodDecl) : Compile PUnit := do
  let place := u.name ++ "." ++ d.name
  let ret ← located place (r.typeOf d.returns)
  if d.field ≠ "" then u.addGetter d.name ret d.field d.isStatic
  else do
    let m ← u.addMethod (.addMethod (if d.isStatic then publicStatic else .publicBit) ret d.name [])
    let l ← located place (literal ret (d.value.getD .null))
    let e ← u.build m (.const l)
    u.perform m (.leave e)
    u.perform m .close

def append (u : Unit) (m : Nat) (text : Option Operand) (e : Operand) : Compile Operand :=
  match text with
  | some t => u.build m (.binary .add t e)
  | none => pure e

def describeFields (u : Unit) (m : Nat) : String → Option Operand → List (FieldDecl × JType) → Compile (String × Option Operand)
  | lead, text, [] => return (lead, text)
  | lead, text, (f, _) :: fs => do
    let separator := if text.isSome then ", " else ""
    let name ← u.build m (.const (.text (lead ++ separator ++ f.name ++ "=")))
    let text ← u.append m text name
    let self ← u.build m .self
    let v ← u.build m (.field self f.name)
    let text ← u.build m (.binary .add text v)
    describeFields u m "" (some text) fs

def addToString (u : Unit) : Compile PUnit := do
  let m ← u.addMethod (.addMethod .publicBit .string "toString" [])
  let (lead, text) ← u.describeFields m ((JType.ofClass u.name).simpleName ++ "[") none u.instanceFields
  let tail ← u.build m (.const (.text (lead ++ "]")))
  let text ← u.append m text tail
  u.perform m (.leave text)
  u.perform m .close

def addMain (u : Unit) : Compile PUnit := do
  let m ← u.addMethod (.addMethod publicStatic .void "main" [("args", .arrayOf .string)])
  let out ← u.build m (.static (.ofClass "java/lang/System") "out")
  let line ← u.build m (.const (.text u.decl.main))
  let e ← u.build m (.call out "println" [line])
  u.perform m (.evaluate e)
  u.perform m .close

def define (u : Unit) (r : Recipe) : Compile PUnit := do
  u.addConstructor
  if u.decl.getters then
    for (f, t) in u.instanceFields do
      u.addGetter (getterName f.name t) t f.name false
  for d in u.decl.methods do
    u.addDeclared r d
  if u.decl.toText then u.addToString
  if u.decl.main ≠ "" then u.addMain

end Unit

/-- Assembles the classes of a recipe, which see each other, and gives their numbers in the
workspace. They are not yet written. -/
def compile (r : Recipe) (options : Options) : Compile (List Nat) := do
  modify fun w => { w with published := some {} }
  let order ← (r.order : Except Problem (List ClassDecl))
  let units ← order.mapM (r.declare options)
  for u in units do
    u.define r
  return units.map (·.number)

end ClassForge.Recipe

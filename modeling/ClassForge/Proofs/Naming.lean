import ClassForge.Assembler.Control
import ClassForge.Proofs.Nodes

/-! What requests refer to: the members and classes that they resolve, and the constants they mention. -/

namespace ClassForge

def FieldInfo.reference (f : FieldInfo) : Reference := .member .field f.owner f.name f.descriptor

namespace Assembler

namespace Method

def typeOf? (m : Method) : Operand → Option JType
  | .node id => (m.nodes[id]?).map (·.expr.type)
  | _ => none

def HasTypes (m : Method) : List Operand → List JType → Prop := List.Forall₂ fun o t => m.typeOf? o = some t

end Method

def Literal.constant? (name : String) : Literal → Option Value
  | .type c => if c.box.isSome then none else some (.type (c.resolve name))
  | .text s => some (.text s)
  | v => v.constantType.bind fun t => (constantFor t v).toOption

/-- The instruction that calls a method; `special` calls look for no override. -/
def MethodInfo.callOp (m : MethodInfo) (className : String) (special isInterface : Bool) : Opcode :=
  if m.isStatic then .invokestatic
  else if special || m.isConstructor || (m.access.isPrivate && m.owner == className) then .invokespecial
  else if isInterface then .invokeinterface
  else .invokevirtual

/-- The call of a resolved method, by an entry of the kind of the class that declares it. -/
inductive Calls (ctx : Context) (m : MethodInfo) (special : Bool) : Opcode → Reference → Prop
  | intro {owner : ClassInfo} : ctx.lookup.lookup m.owner = .ok owner →
      Calls ctx m special (MethodInfo.callOp m ctx.name special owner.isInterface)
        (.member (methodKind owner.isInterface) m.owner m.name m.descriptor)

inductive Concatenates (s t : JType) : Opcode → Reference → Prop
  | builder : Concatenates s t .new (.type Step.builderName)
  | init : Concatenates s t .invokespecial (.member .method Step.builderName "<init>" "()V")
  | append (u : JType) : u = s ∨ u = t → Concatenates s t .invokevirtual
      (.member .method Step.builderName "append"
        (JType.methodDescriptor (.ofClass Step.builderName) [Step.appendType u]))
  | finish : Concatenates s t .invokevirtual (.member .method Step.builderName "toString" "()Ljava/lang/String;")

/-- A request for an expression refers to `r` by the instruction `op`. -/
inductive Build.Names (ctx : Context) (m : Method) : Build → Opcode → Reference → Prop
  | const {v : Literal} {value : Value} {op : Opcode} {r : Reference} : v.constant? ctx.name = some value →
      value.reference? = some r → op ∈ value.loadOps → Names ctx m (.const v) op r
  | char {n : Int} {value : Value} {op : Opcode} {r : Reference} :
      (Literal.integer .uint16 n).constant? ctx.name = some value → value.reference? = some r →
      op ∈ value.loadOps → Names ctx m (.char n) op r
  | primitive {c b : JType} : c.box = some b →
      Names ctx m (.const (.type c)) .getstatic (.member .field b.internalName "TYPE" "Ljava/lang/Class;")
  | static {owner : JType} {name : String} {f : FieldInfo} :
      ctx.lookup.findField (owner.resolve ctx.name).internalName name = .ok f →
      Names ctx m (.static owner name) .getstatic f.reference
  | field {object : Operand} {t : JType} {name : String} {f : FieldInfo} : m.typeOf? object = some t →
      ctx.lookup.findField t.internalName name = .ok f → Names ctx m (.field object name) .getfield f.reference
  | newArray {elem : JType} {n : Operand} :
      Names ctx m (.newArray elem n) .anewarray (.type (elem.resolve ctx.name).internalName)
  | cast {e : Operand} {t : JType} : Names ctx m (.cast e t) .checkcast
      (.type ((t.resolve ctx.name).box.getD (t.resolve ctx.name)).internalName)
  | instanceOf {e : Operand} {t : JType} :
      Names ctx m (.instanceOf e t) .instanceof (.type (t.resolve ctx.name).internalName)
  | concat {a b : Operand} {s t : JType} {op : Opcode} {r : Reference} : m.typeOf? a = some s →
      m.typeOf? b = some t → s = .string ∨ t = .string → Concatenates s t op r → Names ctx m (.binary .add a b) op r
  | call {object : Operand} {name : String} {args : List Operand} {t : JType} {ts : List JType} {f : MethodInfo}
      {op : Opcode} {r : Reference} : m.typeOf? object = some t → m.HasTypes args ts →
      Overload.resolve ctx (if t.isArray then "java/lang/Object" else t.internalName) name false ts = .ok f →
      Calls ctx f false op r → Names ctx m (.call object name args) op r
  | callStatic {owner : JType} {name : String} {args : List Operand} {ts : List JType} {f : MethodInfo}
      {op : Opcode} {r : Reference} : m.HasTypes args ts →
      Overload.resolve ctx (owner.resolve ctx.name).internalName name true ts = .ok f → Calls ctx f false op r →
      Names ctx m (.callStatic owner name args) op r
  | callSuper {name : String} {args : List Operand} {ts : List JType} {f : MethodInfo} {op : Opcode}
      {r : Reference} : m.HasTypes args ts → Overload.resolve ctx ctx.info.super name false ts = .ok f →
      Calls ctx f true op r → Names ctx m (.callSuper name args) op r
  | new {t : JType} {args : List Operand} {c : ClassInfo} :
      ctx.lookup.lookup (t.resolve ctx.name).internalName = .ok c → Names ctx m (.new t args) .new (.type c.name)
  | constructor {t : JType} {args : List Operand} {c : ClassInfo} {ts : List JType} {f : MethodInfo} :
      ctx.lookup.lookup (t.resolve ctx.name).internalName = .ok c → m.HasTypes args ts →
      Overload.resolve ctx c.name MethodInfo.constructorName false ts = .ok f →
      Names ctx m (.new t args) .invokespecial (.member .method c.name MethodInfo.constructorName f.descriptor)

inductive Field.Stores (f : Field) : Opcode → Reference → Prop
  | put : Stores f (if f.info.isStatic then .putstatic else .putfield) f.info.reference
  | value {v : Value} {op : Opcode} {r : Reference} : f.init = some v → v.reference? = some r → op ∈ v.loadOps →
      Stores f op r

def Statement.iteratorCalls : List (String × String × String) :=
  [(Step.iterableName, "iterator", "()Ljava/util/Iterator;"), (Step.iteratorName, "hasNext", "()Z"),
    (Step.iteratorName, "next", "()Ljava/lang/Object;")]

/-- A statement refers to `r` by `op`. Closing the body of a constructor or initializer adds what
has to run before it. -/
inductive Statement.Names (ctx : Context) (m : Method) : Statement → Opcode → Reference → Prop
  | setField {object value : Operand} {t : JType} {name : String} {f : FieldInfo} : m.typeOf? object = some t →
      ctx.lookup.findField t.internalName name = .ok f →
      Names ctx m (.setField object name value) .putfield f.reference
  | setStatic {owner : JType} {name : String} {value : Operand} {f : FieldInfo} :
      ctx.lookup.findField (owner.resolve ctx.name).internalName name = .ok f →
      Names ctx m (.setStatic owner name value) .putstatic f.reference
  | superCall {args : List Operand} {ts : List JType} {f : MethodInfo} {op : Opcode} {r : Reference} :
      m.HasTypes args ts → Overload.resolve ctx ctx.info.super MethodInfo.constructorName false ts = .ok f →
      Calls ctx f true op r → Names ctx m (.superCall args) op r
  | superStore {args : List Operand} {f : Field} {op : Opcode} {r : Reference} : f ∈ ctx.fields →
      f.isStored false = true → f.Stores op r → Names ctx m (.superCall args) op r
  | iterate {t : JType} {name : String} {source : Operand} {owner method descriptor : String} :
      (owner, method, descriptor) ∈ iteratorCalls →
      Names ctx m (.forEach t name source) .invokeinterface (.member .interfaceMethod owner method descriptor)
  | item {t : JType} {name : String} {source : Operand} : Names ctx m (.forEach t name source) .checkcast
      (.type ((t.resolve ctx.name).box.getD (t.resolve ctx.name)).internalName)
  | implicitSuper : m.info.isConstructor = true → Names ctx m .close .invokespecial
      (.member .method ctx.info.super MethodInfo.constructorName "()V")
  | closeStore {isStatic : Bool} {f : Field} {op : Opcode} {r : Reference} : m.initializes isStatic = true →
      f ∈ ctx.fields → f.isStored isStatic = true → f.Stores op r → Names ctx m .close op r

inductive Statement.Catches (name : String) : Statement → String → Prop
  | intro {t : JType} {l : String} : Catches name (.catchOpen t l) (t.resolve name).internalName

/-- What closing a body refers to depends on the declaration of the method only. -/
theorem Statement.Names.of_info (h : Names ctx m .close op r) (info : m.info = m'.info) : Names ctx m' .close op r := by
  cases h with
  | implicitSuper constructs => exact .implicitSuper (info ▸ constructs)
  | closeStore initializes mem stored stores =>
    refine .closeStore ?_ mem stored stores
    rwa [Method.initializes, ← info]

section

theorem Claimed.typeOf? (h : Claimed w o t) : w.method.typeOf? o = some t.type := by
  obtain ⟨rfl, n, found, same⟩ := h
  rw [Method.typeOf?, found, Option.map_some, same]
  rfl

theorem hasTypes_of_claimed (h : List.Forall₂ (Claimed w) os ts) : w.method.HasTypes os (ts.map (·.type)) := by
  induction h with
  | nil => exact .nil
  | cons first _ ih => exact .cons first.typeOf? ih

end

end Assembler

end ClassForge

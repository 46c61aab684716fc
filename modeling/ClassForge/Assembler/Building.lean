import ClassForge.Assembler.Overload

namespace ClassForge.Assembler

inductive Build
  | const (v : Literal)
  | char (code : Int)
  | self
  | get (l : LocalArg)
  | static (owner : JType) (name : String)
  | field (object : Operand) (name : String)
  | index (array index : Operand)
  | length (array : Operand)
  | newArray (elem : JType) (length : Operand)
  | cast (operand : Operand) (type : JType)
  | instanceOf (operand : Operand) (type : JType)
  | nullTest (cmp : Cmp) (operand : Operand)
  | binary (op : BinaryOp) (left right : Operand)
  | negate (operand : Operand)
  | not (operand : Operand)
  | logic (conj : Bool) (left right : Operand)
  | compare (cmp : Cmp) (left right : Operand)
  | call (receiver : Operand) (name : String) (args : List Operand)
  | callStatic (owner : JType) (name : String) (args : List Operand)
  | callSuper (name : String) (args : List Operand)
  | new (type : JType) (args : List Operand)

namespace Step

def const (v : Literal) : Step Term := do
  match v.constantType with
  | none => throw (.unsupportedConstant v.typeName)
  | some t =>
    match v with
    | .type c =>
      if c.isVoid || c.isNull then throw (.classLiteral c)
      else match c.box with
        | some b =>
          let ref ← pool (Pool.fieldref b.internalName "TYPE" "Ljava/lang/Class;")
          node (.primitiveClass c ref) []
        | none =>
          let value := Value.type (c.resolve (← read).name)
          node (.const t value (← pool value.intern)) []
    | .null => node (.const t .null (← pool Value.null.intern)) []
    | .text s => node (.const t (.text s) (← pool (Value.text s).intern)) []
    | _ =>
      let value ← ofExcept (constantFor t v)
      node (.const t value (← pool value.intern)) []

def receiver : Step Term := do
  let m ← method
  if m.info.isStatic then throw (.noReceiver m.info.name)
  else node (.self (.ofClass (← read).name) false) []

def localRead (id : Nat) : Step Expr := do
  let l ← localAt id
  pure (.local ⟨id, l.name, l.slot, l.type⟩)

def getLocal (l : LocalArg) : Step Term := do
  let id ← ownLocal l
  if ← isAssigned id then node (← localRead id) []
  else throw (.unassigned (← localAt id).name)

def isIndex (t : JType) : Bool := t.kind.isIntLike && t.kind != .prim .boolean

def arrayIndex (array index : Term) : Step Term := do
  if !array.type.isArray then throw (.notArray array.type)
  else
    let i ← unboxed index
    if isIndex i.type then convert i .int else throw (.indexType index.type)

def arrayGet (array idx : Operand) : Step Term := do
  let (a, i) ← claim2 array idx
  let i ← arrayIndex a i
  node (.arrayGet a.type.elem a.expr i.expr) [a, i]

def arrayLength (array : Operand) : Step Term := do
  let a ← claim array
  if a.type.isArray then node (.arrayLength a.expr) [a] else throw (.notArray a.type)

def newArray (elem : JType) (length : Operand) : Step Term := do
  let n ← claim length
  let elem := elem.resolve (← read).name
  if elem.isVoid || elem.isNull then throw (.noArrays elem)
  else
    let i ← unboxed n
    if !isIndex i.type then throw (.lengthType n.type)
    else
      let i ← convert i .int
      match elem.kind with
      | .prim p => node (.newArray elem (Opcode.arrayCode p).toUInt16 i.expr) [i]
      | _ =>
        -- the node takes its operand before the class entry is interned
        let e ← node (.newArray elem 0 i.expr) [i]
        let ref ← pool (Pool.classRef elem.internalName)
        replace e (.newArray elem ref i.expr)

def cast (operand : Operand) (type : JType) : Step Term := do
  let e ← claim operand
  let t := type.resolve (← read).name
  let c ← castConv e t
  node (.convert t [] false c.expr) [c]

def instanceOf (operand : Operand) (type : JType) : Step Term := do
  let e ← claim operand
  let t := type.resolve (← read).name
  if !e.type.isReference || !t.isReference || t.isNull then throw (.instanceOfTypes e.type t)
  else
    let ref ← pool (Pool.classRef t.internalName)
    node (.instanceOf t ref e.expr) [e]

def nullTest (cmp : Cmp) (operand : Operand) : Step Term := do
  let e ← claim operand
  if e.type.isReference then node (.nullTest cmp e.expr) [e] else throw (.nullTest e.type)

def promoted (symbol : String) (a b : Term) : Step (JType × Term × Term) := do
  match a.type.promote b.type with
  | some t =>
    if t = .boolean then throw (.operator symbol a.type b.type)
    else pure (t, ← convert a t, ← convert b t)
  | none => throw (.operator symbol a.type b.type)

def appendType (t : JType) : JType :=
  match t.kind with
  | .prim .byte | .prim .short => .int
  | .reference => if t = .string then t else .object
  | _ => t

def builderName : String := "java/lang/StringBuilder"

def concat (a b : Term) : Step Term := do
  if a.type.isVoid || b.type.isVoid then throw .voidConcatenation
  else
    let append (t : JType) : Pool.Action UInt16 :=
      Pool.methodref builderName "append" (JType.methodDescriptor (.ofClass builderName) [appendType t])
    let builder ← pool (Pool.classRef builderName)
    let init ← pool (Pool.methodref builderName "<init>" "()V")
    let finish ← pool (Pool.methodref builderName "toString" "()Ljava/lang/String;")
    let first ← pool (append a.type)
    let second ← pool (append b.type)
    node (.concat ⟨builder, init, first, second, finish⟩ a.expr b.expr) [a, b]

def arithmetic (op : BinaryOp) (left right : Operand) : Step Term := do
  let (a, b) ← claim2 left right
  if op = .add && (a.type = .string || b.type = .string) then concat a b
  else
    let ua ← unboxed a
    let ub ← unboxed b
    let (t, ca, cb) ← promoted op.symbol ua ub
    node (.binary t op ca.expr cb.expr) [ca, cb]

def bitwise (op : BinaryOp) (left right : Operand) : Step Term := do
  let (a, b) ← claim2 left right
  let ua ← unboxed a
  let ub ← unboxed b
  match ua.type.promote ub.type with
  | some t =>
    if t = .boolean || t.kind.isIntegral then
      let ca ← convert ua t
      let cb ← convert ub t
      node (.binary t op ca.expr cb.expr) [ca, cb]
    else throw (.operator op.symbol a.type b.type)
  | none => throw (.operator op.symbol a.type b.type)

def shift (op : BinaryOp) (left right : Operand) : Step Term := do
  let (a, b) ← claim2 left right
  let ua ← unboxed a
  let ub ← unboxed b
  if !ua.type.kind.isIntegral && ua.type.kind != .prim .boolean then throw (.shiftOf a.type)
  else if !isIndex ub.type then throw (.shiftDistance b.type)
  else
    let t := if ua.type.promoteUnary = .boolean then .int else ua.type.promoteUnary
    let ca ← if ua.type = .boolean then retype ua t else convert ua t
    let cb ← convert ub .int
    node (.binary t op ca.expr cb.expr) [ca, cb]

def binary (op : BinaryOp) (left right : Operand) : Step Term :=
  match op with
  | .add | .sub | .mul | .div | .rem => arithmetic op left right
  | .and | .or | .xor => bitwise op left right
  | .shl | .shr | .ushr => shift op left right

def negate (operand : Operand) : Step Term := do
  let a ← claim operand
  let ua ← unboxed a
  if !ua.type.kind.isNumeric then throw (.negation a.type)
  else
    let t := ua.type.promoteUnary
    let c ← convert ua t
    node (.neg t c.expr) [c]

def condition (e : Term) : Step Term := do
  let u ← unboxed e
  if u.type = .boolean then pure u else throw (.condition e.type)

def complement (operand : Operand) : Step Term := do
  let a ← claim operand
  let c ← condition a
  node (.not c.expr) [c]

def logic (conj : Bool) (left right : Operand) : Step Term := do
  let (a, b) ← claim2 left right
  let ca ← condition a
  let cb ← condition b
  node (.logic conj ca.expr cb.expr) [ca, cb]

/-- Equality takes two numbers, two booleans or two references; order takes numbers. -/
def compare (cmp : Cmp) (left right : Operand) : Step Term := do
  let (a, b) ← claim2 left right
  if cmp.isEquality && a.type.isReference && b.type.isReference then
    node (.compare cmp a.expr b.expr) [a, b]
  else if a.type.isVoid || b.type.isVoid then throw .voidComparison
  else
    let ua ← unboxed a
    let ub ← unboxed b
    if cmp.isEquality && ua.type = .boolean && ub.type = .boolean then
      node (.compare cmp ua.expr ub.expr) [ua, ub]
    else
      let (_, ca, cb) ← promoted cmp.symbol ua ub
      node (.compare cmp ca.expr cb.expr) [ca, cb]

def call (object : Operand) (name : String) (args : List Operand) : Step Term := do
  match ← claimAll (object :: args) with
  | [] => throw (.missingOperand 0)
  | r :: args =>
    let t := r.type
    if !t.isReference || t.isNull then throw (.callOn name t)
    else
      let owner := if t.isArray then "java/lang/Object" else t.internalName
      let m ← resolve owner name false args
      invoke m (some r) false args

def callStatic (owner : JType) (name : String) (args : List Operand) : Step Term := do
  let args ← claimAll args
  let owner := owner.resolve (← read).name
  let m ← resolve owner.internalName name true args
  invoke m none false args

def callSuper (name : String) (args : List Operand) : Step Term := do
  if (← method).info.isStatic then throw (.superInStatic name)
  else
    let args ← claimAll args
    let m ← resolve (← read).info.super name false args
    if m.isAbstract then throw (.abstractSuper m.signature)
    else
      let r ← node (.self (.ofClass (← read).name) true) []
      invoke m (some r) true args

def create (type : JType) (args : List Operand) : Step Term := do
  let args ← claimAll args
  let t := type.resolve (← read).name
  if t.isArray || !t.isReference || t.isNull then throw (.cannotInstantiate t)
  else
    let c ← lookup t.internalName
    if c.isInterface || c.access.isAbstract then throw (.abstractInstance t)
    else
      let m ← resolve c.name MethodInfo.constructorName false args
      let args ← coerceArgs m args
      let classRef ← pool (Pool.classRef c.name)
      let constructor ← pool (Pool.methodref c.name MethodInfo.constructorName m.descriptor)
      node (.new t classRef constructor (args.map (·.expr))) args

def staticGet (owner : JType) (name : String) : Step Term := do
  let owner := owner.resolve (← read).name
  let (f, ref) ← field owner name true
  node (.staticGet f.type owner name ref) []

def fieldGet (object : Operand) (name : String) : Step Term := do
  let o ← claim object
  let (f, ref) ← field o.type name false
  node (.fieldGet f.type name ref o.expr) [o]

def build : Build → Step Term
  | .const v => const v
  | .char n => const (.integer .uint16 n)
  | .self => receiver
  | .get l => getLocal l
  | .static owner name => staticGet owner name
  | .field object name => fieldGet object name
  | .index a i => arrayGet a i
  | .length a => arrayLength a
  | .newArray elem n => newArray elem n
  | .cast e t => cast e t
  | .instanceOf e t => instanceOf e t
  | .nullTest c e => nullTest c e
  | .binary op a b => binary op a b
  | .negate a => negate a
  | .not a => complement a
  | .logic conj a b => logic conj a b
  | .compare c a b => compare c a b
  | .call r name args => call r name args
  | .callStatic owner name args => callStatic owner name args
  | .callSuper name args => callSuper name args
  | .new t args => create t args

end Step

end ClassForge.Assembler

import ClassForge.Assembler.Building

namespace ClassForge.Assembler

open Code

inductive Statement
  | declare (type : JType) (name : String)
  | assign (l : LocalArg) (value : Operand)
  | increment (l : LocalArg) (delta : Int)
  | evaluate (e : Operand)
  | setField (object : Operand) (name : String) (value : Operand)
  | setStatic (owner : JType) (name : String) (value : Operand)
  | setIndex (array index value : Operand)
  | leave (value : Operand)
  | raise (e : Operand)
  | superCall (args : List Operand)
  | ifOpen (condition : Operand)
  | elseIf (condition : Operand)
  | elseOpen
  | whileOpen (condition : Operand)
  | forEach (type : JType) (name : String) (source : Operand)
  | breakLoop
  | continueLoop
  | tryOpen
  | catchOpen (type : JType) (name : String)
  | close

namespace Field

/-- Whether the initial value is written as an attribute of the field and not by code. -/
def isConstant (f : Field) : Bool :=
  match f.init with
  | none | some .null => false
  | some _ => f.info.isStatic && f.info.access.isFinal && (f.info.type.isPrimitive || f.info.type = .string)

def isStored (f : Field) (isStatic : Bool) : Bool :=
  f.init.isSome && f.info.isStatic == isStatic && !f.isConstant

def store (f : Field) : Action Unit := do
  if !f.info.isStatic then emit .aload0
  (f.init.getD .null).emit f.ref
  emitU2 (if f.info.isStatic then .putstatic else .putfield) f.fieldref

end Field

def negate64 (n : Int) : Int := (-n).bmod 18446744073709551616

namespace Step

def declare (type : JType) (name : String) : Step Nat := do
  ofExcept (checkName name)
  if type.isVoid || type.isNull then throw (.localType name type)
  else
    let id ← allocate type name false
    render (← method).depth ((← localAt id).type.spelling ++ " " ++ name ++ ";")
    pure id

def emitValue (e : Expr) : Step Unit := code (e.emit .value)

def assignLocal (l : LocalArg) (value : Operand) : Step Unit := do
  let id ← ownLocal l
  let e ← claim value
  let x ← localAt id
  let v ← assignConv e x.type
  own v
  mark "assign" (← method).depth (x.name ++ " = " ++ v.expr.render ++ ";")
  reserve v.expr.need
  emitValue v.expr
  code (store x.type x.slot)
  assign id

def incrementText (name : String) (delta : Int) : String :=
  if delta = -1 then name ++ "--;"
  else if delta < 0 then name ++ " -= " ++ toString (negate64 delta) ++ ";"
  else if delta ≠ 1 then name ++ " += " ++ toString delta ++ ";"
  else name ++ "++;"

def increment (l : LocalArg) (delta : Int) : Step Unit := do
  let id ← ownLocal l
  let x ← localAt id
  if x.type ≠ .int then throw (.incrementOf x.type x.name)
  else if !(← isAssigned id) then throw (.unassigned x.name)
  else
    mark "increment" (← method).depth (incrementText x.name delta)
    code (iinc x.slot delta)

def discard (t : JType) : Action Unit :=
  match t.slots with
  | 0 => pure ()
  | 1 => emit .pop
  | _ => emit .pop2

def evaluate (operand : Operand) : Step Unit := do
  let e ← claim operand
  consume e
  mark "expr" (← method).depth (e.expr.render ++ ";")
  reserve e.expr.need
  emitValue e.expr
  code (discard e.type)

def setField (object : Operand) (name : String) (value : Operand) : Step Unit := do
  let (o, v) ← claim2 object value
  let (f, ref) ← field o.type name false
  checkFinal f
  let c ← assignConv v f.type
  own o
  own c
  mark "putfield" (← method).depth (o.expr.render ++ "." ++ name ++ " = " ++ c.expr.render ++ ";")
  reserve (Expr.needSeq 0 [o.expr, c.expr])
  emitValue o.expr
  emitValue c.expr
  code (emitU2 .putfield ref)

def setStatic (owner : JType) (name : String) (value : Operand) : Step Unit := do
  let v ← claim value
  let owner := owner.resolve (← read).name
  let (f, ref) ← field owner name true
  checkFinal f
  let c ← assignConv v f.type
  own c
  mark "putstatic" (← method).depth (owner.simpleName ++ "." ++ name ++ " = " ++ c.expr.render ++ ";")
  reserve c.expr.need
  emitValue c.expr
  code (emitU2 .putstatic ref)

def setIndex (array index value : Operand) : Step Unit := do
  let (a, i, v) ← claim3 array index value
  let i ← arrayIndex a i
  let elem := a.type.elem
  let c ← assignConv v elem
  own a
  own i
  own c
  mark "astore" (← method).depth
    (a.expr.render ++ "[" ++ i.expr.render ++ "] = " ++ c.expr.render ++ ";")
  reserve (Expr.needSeq 0 [a.expr, i.expr, c.expr])
  emitValue a.expr
  emitValue i.expr
  emitValue c.expr
  code (emit (arrayStore elem))

def leave (value : Operand) : Step Unit := do
  let info := (← method).info
  match value with
  | .missing =>
    if !info.ret.isVoid then throw (.missingReturn info.name info.ret)
    else
      mark "return" (← method).depth "return;"
      code (emit .voidReturn)
      close
  | _ =>
    if info.ret.isVoid then throw (.extraneousReturn info.name)
    else
      let e ← claim value
      let v ← assignConv e info.ret
      own v
      mark "return" (← method).depth ("return " ++ v.expr.render ++ ";")
      reserve v.expr.need
      emitValue v.expr
      code (emit (returnOp info.ret))
      close

def isThrowable (t : JType) : Step Bool := isAssignable t .throwable

def raise (operand : Operand) : Step Unit := do
  let e ← claim operand
  if !e.type.isReference || e.type.isNull || !(← isThrowable e.type) then throw (.cannotThrow e.type)
  else
    own e
    mark "throw" (← method).depth ("throw " ++ e.expr.render ++ ";")
    reserve e.expr.need
    emitValue e.expr
    code (emit .athrow)
    close

/-- Stores of the fields that an initializer, static or not, has to set, in order. -/
def fieldStores (fields : Array Field) (isStatic : Bool) : Action Unit :=
  (fields.toList.filter (·.isStored isStatic)).forM Field.store

def fieldStoresNeed (fields : Array Field) (isStatic : Bool) : Nat :=
  (fields.toList.filter (·.isStored isStatic)).foldl (fun n f => max n (1 + f.info.type.slots)) 0

/-- The superclass constructor, as the first statement of a constructor; initial values of fields
follow it. -/
def superCall (args : List Operand) : Step Unit := do
  let m ← method
  if !m.info.isConstructor || m.superCalled || m.statements > 0 then throw .misplacedSuper
  else
    let ctx ← read
    let args ← claimAll args
    let constructor ← resolve ctx.info.super MethodInfo.constructorName false args
    let this ← node (.self (.ofClass ctx.name) false) []
    let e ← invoke constructor (some this) true args
    own e
    let shown := match e.expr with
      | .invoke _ _ _ (_ :: args) => Expr.renderList args
      | _ => ""
    mark "super" (← method).depth ("super(" ++ shown ++ ");")
    reserve e.expr.need
    emitValue e.expr
    update fun m => { m with superCalled := true }
    code (fieldStores ctx.fields false)
    reserve (fieldStoresNeed ctx.fields false)

end Step

end ClassForge.Assembler

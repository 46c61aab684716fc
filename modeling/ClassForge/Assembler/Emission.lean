import ClassForge.Assembler.Expr
import ClassForge.ClassFile.Code
import ClassForge.ClassFile.Pool

namespace ClassForge.Assembler

open Code Opcode

/-- The pool entry that loading a constant needs; 0 where a short instruction does. -/
def Value.intern : Value → Pool.Action UInt16
  | .null | .bool _ => pure 0
  | .int n => if -32768 ≤ n.toInt ∧ n.toInt ≤ 32767 then pure 0 else Pool.integer n.toUInt32
  | .long n => if n = 0 ∨ n = 1 then pure 0 else Pool.long n.toUInt64
  | .float b => if b = 0 ∨ b = 0x3f800000 ∨ b = 0x40000000 then pure 0 else Pool.float b
  | .double b => if b = 0 ∨ b = 0x3ff0000000000000 then pure 0 else Pool.double b
  | .text s => Pool.string s
  | .type t => Pool.classRef t.internalName

def Value.emit (v : Value) (ref : UInt16) : Code.Action Unit :=
  match v with
  | .null => Code.emit .aconstNull
  | .bool b => Code.emit (if b then .iconst1 else .iconst0)
  | .int n =>
    let n := n.toInt
    if -1 ≤ n ∧ n ≤ 5 then Code.emit (iconstM1.plus (n + 1).toNat.toUInt8)
    else if -128 ≤ n ∧ n ≤ 127 then Code.emitU1 .bipush (Code.low16 n).toUInt8
    else if -32768 ≤ n ∧ n ≤ 32767 then Code.emitU2 .sipush (Code.low16 n)
    else Code.ldc ref false
  | .long n => if ref = 0 then Code.emit (lconst0.plus (if n = 0 then 0 else 1)) else Code.ldc ref true
  | .float b =>
    if ref = 0 then Code.emit (fconst0.plus (if b = 0 then 0 else if b = 0x3f800000 then 1 else 2))
    else Code.ldc ref false
  | .double b => if ref = 0 then Code.emit (dconst0.plus (if b = 0 then 0 else 1)) else Code.ldc ref true
  | .text _ | .type _ => Code.ldc ref false

def arrayLoad (elem : JType) : Opcode :=
  match elem.kind with
  | .prim .boolean | .prim .byte => .baload
  | .prim .char => .caload
  | .prim .short => .saload
  | .prim .int => .iaload
  | .prim .long => .laload
  | .prim .float => .faload
  | .prim .double => .daload
  | .void | .reference => .aaload

def arrayStore (elem : JType) : Opcode := (arrayLoad elem).plus (iastore.byte - iaload.byte)

def returnOp (t : JType) : Opcode :=
  match t.kind with
  | .void => .voidReturn
  | .prim .long => .lreturn
  | .prim .float => .freturn
  | .prim .double => .dreturn
  | .reference => .areturn
  | .prim _ => .ireturn

def Cmp.nullBranch (c : Cmp) : Opcode := if c = .eq then .ifnull else .ifnonnull

def Cmp.nanCompare (c : Cmp) (l g : Opcode) : Opcode := if c = .lt ∨ c = .le then g else l

namespace Expr

/-- How a value is wanted: on the stack, or as a jump on one of its outcomes, which leaves one open
site. -/
inductive Want
  | value
  | jump (outcome : Bool)

def Want.ofValue : Want → Action Unit
  | .value => pure ()
  | .jump outcome => pushSite (if outcome then .ifne else .ifeq)

def falseTail : Action Unit := do
  pushSite .goto
  swapSites
  popSite
  emit .iconst0
  popSite

def testValue (test : Bool → Action Unit) : Want → Action Unit
  | .value => do
    test false
    emit .iconst1
    falseTail
  | .jump outcome => test outcome

mutual

def emit : Expr → Want → Code.Action Unit
  | .const _ v ref, w => do v.emit ref; w.ofValue
  | .self _ _, w => do Code.emit .aload0; w.ofValue
  | .local l, w => do Code.load l.type l.slot; w.ofValue
  | .staticGet _ _ _ ref, w | .primitiveClass _ ref, w => do Code.emitU2 .getstatic ref; w.ofValue
  | .fieldGet _ _ ref a, w => do
    emit a .value
    Code.emitU2 .getfield ref
    w.ofValue
  | .arrayGet t a i, w => do
    emit a .value
    emit i .value
    Code.emit (arrayLoad t)
    w.ofValue
  | .arrayLength a, w => do
    emit a .value
    Code.emit .arraylength
    w.ofValue
  | .invoke _ target _ args, w => do
    emitAll args
    if target.op = .invokeinterface then Code.emitInterface target.ref target.argSlots
    else Code.emitU2 target.op target.ref
    w.ofValue
  | .new _ classRef constructor args, w => do
    Code.emitU2 .new classRef
    Code.emit .dup
    emitAll args
    Code.emitU2 .invokespecial constructor
    w.ofValue
  | .newArray t ref n, w => do
    emit n .value
    if t.isPrimitive then Code.emitU1 .newarray ref.toUInt8 else Code.emitU2 .anewarray ref
    w.ofValue
  | .convert _ ops _ a, w => do
    emit a .value
    ops.forM Code.emit
    w.ofValue
  | .checkCast _ ref a, w => do
    emit a .value
    Code.emitU2 .checkcast ref
    w.ofValue
  | .neg t a, w => do
    emit a .value
    Code.emit (ineg.plus (family t.kind))
    w.ofValue
  | .binary t op a b, w => do
    emit a .value
    emit b .value
    Code.emit (op.opcode t)
    w.ofValue
  | .instanceOf _ ref a, w => do
    emit a .value
    Code.emitU2 .instanceof ref
    w.ofValue
  | .concat refs a b, w => do
    Code.emitU2 .new refs.builder
    Code.emit .dup
    Code.emitU2 .invokespecial refs.init
    emit a .value
    Code.emitU2 .invokevirtual refs.first
    emit b .value
    Code.emitU2 .invokevirtual refs.second
    Code.emitU2 .invokevirtual refs.finish
    w.ofValue
  | .not a, w => testValue (fun outcome => emit a (.jump (!outcome))) w
  | .nullTest c a, w =>
    testValue (fun outcome => do
      emit a .value
      Code.pushSite (if outcome then c else c.negate).nullBranch) w
  | .compare c a b, w =>
    testValue (fun outcome => do
      let branch := if outcome then c else c.negate
      if a.type.isReference then
        if a.isNull then
          emit b .value
          Code.pushSite branch.nullBranch
        else
          emit a .value
          if b.isNull then Code.pushSite branch.nullBranch
          else
            emit b .value
            Code.pushSite (ifAcmpeq.plus branch.offset)
      else
        emit a .value
        emit b .value
        match a.type.kind with
        | .prim .long =>
          Code.emit .lcmp
          Code.pushSite (ifeq.plus branch.offset)
        | .prim .float =>
          Code.emit (c.nanCompare .fcmpl .fcmpg)
          Code.pushSite (ifeq.plus branch.offset)
        | .prim .double =>
          Code.emit (c.nanCompare .dcmpl .dcmpg)
          Code.pushSite (ifeq.plus branch.offset)
        | _ => Code.pushSite (ifIcmpeq.plus branch.offset)) w
  | .logic true a b, w => do
    emit a (.jump false)
    emit b (.jump false)
    Code.emit .iconst1
    Code.pushSite .goto
    Code.swapSites
    Code.popSite
    Code.swapSites
    Code.popSite
    Code.emit .iconst0
    Code.popSite
    w.ofValue
  | .logic false a b, w => do
    emit a (.jump true)
    emit b (.jump false)
    Code.swapSites
    Code.popSite
    Code.emit .iconst1
    falseTail
    w.ofValue

def emitAll : List Expr → Action Unit
  | [] => pure ()
  | e :: es => do
    emit e .value
    emitAll es

end

end Expr

end ClassForge.Assembler

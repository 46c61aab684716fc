import ClassForge.Assembler.Statement

namespace ClassForge.Assembler

open Code

def Method.shift (m : Method) (n : Nat) : Method :=
  { m with
    lines := m.lines.map fun r => { r with pc := r.pc + n }
    handlers := m.handlers.map fun h =>
      { h with start := h.start + n, stop := h.stop + n, target := h.target + n }
    locals := m.locals.map fun l => if l.param then l else { l with start := l.start + n } }

namespace Step

def test (condition : Operand) : Step Term := do
  let e ← claim condition
  let c ← Step.condition e
  own c
  pure c

def emitTest (e : Expr) : Step Unit := code (e.emit (.jump false))

def ifOpen (condition : Operand) : Step Unit := do
  let c ← test condition
  mark "if" (← method).depth ("if (" ++ c.expr.render ++ ") \x7b")
  reserve c.expr.need
  emitTest c.expr
  openScope (.branch .first 0)

def chainExits (what : String) : Step Nat := do
  let f ← top
  match f.scope with
  | .branch .first exits | .branch .next exits => pure exits
  | s => throw (.elseOutside what s.name)

/-- Ends an arm: one that completes jumps over the rest, and the failed test lands behind it. -/
def skipArm (exits : Nat) : Step Nat := do
  let f ← top
  setTop f.merge
  if f.closed then
    code popSite
    pure exits
  else
    code (do
      pushSite .goto
      swapSites
      popSite)
    pure (exits + 1)

def elseIf (condition : Operand) : Step Unit := do
  let exits ← chainExits "else if"
  let c ← test condition
  let before := (← top).inherited
  match c.expr.reads.find? fun l => !before.contains l.id with
  | some l => throw (.unassigned l.name)
  | none =>
    let exits ← skipArm exits
    setTop ((← top).rearm (.branch .next exits))
    mark "elseif" ((← method).depth - 1) ("\x7d else if (" ++ c.expr.render ++ ") \x7b")
    reserve c.expr.need
    emitTest c.expr

def elseOpen : Step Unit := do
  let exits ← chainExits "else"
  let exits ← skipArm exits
  setTop ((← top).rearm (.branch .last exits))
  render ((← method).depth - 1) "\x7d else \x7b"

def isEndless : Expr → Bool
  | .const _ (.bool b) _ => b
  | _ => false

def whileOpen (condition : Operand) : Step Unit := do
  let c ← test condition
  mark "while" (← method).depth ("while (" ++ c.expr.render ++ ") \x7b")
  let top ← pos
  if !isEndless c.expr then
    reserve c.expr.need
    emitTest c.expr
  openScope (.loop (.test (isEndless c.expr)) top [] none)

def hiddenLocal (type : JType) (name : String) : Step Nat := do
  let id ← allocate type name true
  assign id
  pure id

def openLoop (kind : LoopKind) (top : Nat) (type : JType) (item : Nat) (elem : Term) : Step Unit := do
  own elem
  reserve elem.expr.need
  emitValue elem.expr
  code (store type (← localAt item).slot)
  let here ← pos
  update fun m => { m with locals := m.locals.modify item fun l => { l with start := here } }
  openScope (.loop kind top [] none)
  assign item

def forArray (type : JType) (name : String) (source : JType) : Step Nat := do
  let array ← hiddenLocal source "$array"
  let counter ← hiddenLocal .int "$index"
  let item ← allocate type name false
  let arraySlot := (← localAt array).slot
  let counterSlot := (← localAt counter).slot
  code (store source arraySlot)
  code (emit .iconst0)
  code (store .int counterSlot)
  let top ← pos
  code (load .int counterSlot)
  code (load source arraySlot)
  code (emit .arraylength)
  code (pushSite .ifIcmpge)
  let a ← node (← localRead array) []
  let i ← node (← localRead counter) []
  let load ← node (.arrayGet source.elem a.expr i.expr) [a, i]
  let elem ← assignConv load type
  openLoop (.array counterSlot []) top type item elem
  pure item

def iterableName : String := "java/lang/Iterable"
def iteratorName : String := "java/util/Iterator"

def forIterable (type : JType) (name : String) : Step Nat := do
  let iterator := JType.ofClass iteratorName
  let it ← hiddenLocal iterator "$iterator"
  let item ← allocate type name false
  let slot := (← localAt it).slot
  let start ← pool (Pool.interfaceMethodref iterableName "iterator" "()Ljava/util/Iterator;")
  let hasNext ← pool (Pool.interfaceMethodref iteratorName "hasNext" "()Z")
  code (emitInterface start 0)
  code (store iterator slot)
  let top ← pos
  code (load iterator slot)
  code (emitInterface hasNext 0)
  code (pushSite .ifeq)
  let r ← node (← localRead it) []
  let c ← target .invokeinterface iteratorName true "next" .object []
  let next ← node (.invoke .object c false [r.expr]) [r]
  let elem ← castConv next type
  openLoop .items top type item elem
  pure item

def forEach (type : JType) (name : String) (source : Operand) : Step Nat := do
  ofExcept (checkName name)
  let swept ← claim source
  let ctx ← read
  let t := type.resolve ctx.name
  let s := swept.type
  if t.isVoid || t.isNull then throw (.loopVariable name t)
  else if !s.isArray && !ctx.lookup.isAssignable s (.ofClass iterableName) then throw (.notIterable s)
  else if s.isArray && !argConvertible ctx.lookup true s.elem t then throw (.elementType s t)
  else
    own swept
    mark "foreach" (← method).depth
      ("for (" ++ t.spelling ++ " " ++ name ++ " : " ++ swept.expr.render ++ ") \x7b")
    reserve swept.expr.need
    emitValue swept.expr
    if s.isArray then forArray t name s else forIterable t name

def updateLoop (f : LoopKind → Nat → List Nat → Option LocalSet → Scope) : List Frame → List Frame
  | [] => []
  | frame :: rest =>
    match frame.scope with
    | .loop kind top breaks left => { frame with scope := f kind top breaks left } :: rest
    | _ => frame :: updateLoop f rest

def innermostLoop : List Frame → Option (LoopKind × Nat)
  | [] => none
  | frame :: rest =>
    match frame.scope with
    | .loop kind top _ _ => some (kind, top)
    | _ => innermostLoop rest

def breakLoop : Step Unit := do
  match innermostLoop (← method).frames with
  | none => throw .breakOutside
  | some _ =>
    mark "break" (← method).depth "break;"
    let site ← code (jump .goto)
    let here := (← top).assigned
    update fun m =>
      { m with frames := updateLoop (fun kind top breaks left =>
          .loop kind top (breaks ++ [site]) (some (here.meet left))) m.frames }
    close

def continueLoop : Step Unit := do
  match innermostLoop (← method).frames with
  | none => throw .continueOutside
  | some (kind, top) =>
    mark "continue" (← method).depth "continue;"
    match kind with
    | .array _ _ =>
      let site ← code (jump .goto)
      update fun m =>
        { m with frames := updateLoop (fun kind top breaks left => match kind with
            | .array counter sites => .loop (.array counter (sites ++ [site])) top breaks left
            | kind => .loop kind top breaks left) m.frames }
    | _ => code (branchTo .goto top)
    close

def tryOpen : Step Unit := do
  mark "try" (← method).depth "try \x7b"
  openScope (.guarded 0 none [] [])
  let here ← pos
  let f ← top
  setTop { f with scope := .guarded here none [] [] }

def catchOpen (type : JType) (name : String) : Step Nat := do
  let f ← top
  match f.scope with
  | .guarded start stop exits caught =>
    let ctx ← read
    let t := type.resolve ctx.name
    ofExcept (checkName name)
    if !t.isReference || t.isArray || t.isNull || !(← isThrowable t) then throw (.cannotCatch t)
    else match caught.find? fun earlier => ctx.lookup.isAssignable t earlier with
      | some earlier => throw (.overlappingCatch t earlier)
      | none =>
        if stop.isNone && (← pos) = start then code (emit .nop)
        let stop := stop.getD (← pos)
        let f := f.merge
        let exits ← if f.closed then pure exits else do pure (exits ++ [← code (jump .goto)])
        let ref ← pool (Pool.classRef t.internalName)
        setTop (f.rearm (.guarded start (some stop) exits (caught ++ [t])))
        let id ← allocate t name false
        let target ← pos
        update fun m => { m with handlers := m.handlers.push ⟨start, stop, target, ref⟩ }
        mark "catch" ((← method).depth - 1) ("\x7d catch (" ++ t.spelling ++ " " ++ name ++ ") \x7b")
        reserve 1
        code (store t (← localAt id).slot)
        let here ← pos
        update fun m => { m with locals := m.locals.modify id fun l => { l with start := here } }
        assign id
        pure id
  | s => throw (.catchOutside s.name)

def closeScope : Step Unit :=
  update fun m =>
    match m.frames with
    | f :: outer :: rest => { m with frames := f.outcome outer :: rest }
    | _ => m

def popSites : Nat → Action Unit
  | 0 => pure ()
  | n + 1 => do
    popSite
    popSites n

def endBranch (arm : Arm) (exits : Nat) : Step Unit := do
  setTop (← top).merge
  if arm ≠ .last then
    code popSite
    let f ← top
    setTop { f with closed := false, assigned := f.inherited }.merge
  code (popSites exits)
  closeScope

/-- What is assigned behind a loop: a tested one may run zero times, an endless one is left by
breaks only. -/
def afterLoop (kind : LoopKind) (inherited : LocalSet) (left : Option LocalSet) : Option LocalSet :=
  match kind with
  | .test true => left
  | _ => some inherited

def endLoop (kind : LoopKind) (start : Nat) (breaks : List Nat) (left : Option LocalSet) : Step Unit := do
  let f ← top
  let closed ← match kind with
    | .array counter continues =>
      if !f.closed || !continues.isEmpty then
        code (do
          resolveAll continues (← get).pos
          iinc counter 1)
        pure false
      else pure true
    | _ => pure f.closed
  if !closed then code (branchTo .goto start)
  if kind ≠ .test true then code popSite
  code (do resolveAll breaks (← get).pos)
  setTop { f with closed := false, merged := afterLoop kind f.inherited left }
  closeScope

def endGuarded (stop : Option Nat) (exits : List Nat) : Step Unit := do
  if stop.isNone then throw .tryWithoutCatch
  else
    setTop (← top).merge
    code (do resolveAll exits (← get).pos)
    closeScope

def checkDangling (first : Nat) : Step Unit := do
  match ((← method).nodes.toList.drop first).find? fun n => !n.isOwned with
  | some n => throw (.dangling n.expr.kind n.expr.render)
  | none => pure ()

def implicitSuper : Step (Action Unit) := do
  let ctx ← read
  let super := ctx.info.super
  match ctx.lookup.findMethods super MethodInfo.constructorName with
  | .error e => throw (.hierarchy e)
  | .ok constructors =>
    if constructors.any fun c => c.params.isEmpty && ctx.sees c.owner c.access then
      let ref ← pool (Pool.methodref super MethodInfo.constructorName "()V")
      reserve 1
      pure (do
        emit .aload0
        emitU2 .invokespecial ref)
    else throw (.noDefaultConstructor super)

/-- What runs before the first statement: in a constructor that of the superclass and the initial
values of fields, in a static initializer those of static fields. -/
def prologue : Step (Action Unit) := do
  let ctx ← read
  let m ← method
  if m.info.isConstructor && !m.superCalled then
    let call ← implicitSuper
    reserve (fieldStoresNeed ctx.fields false)
    pure (do
      call
      fieldStores ctx.fields false)
  else if m.info.name = MethodInfo.initializerName then
    reserve (fieldStoresNeed ctx.fields true)
    pure (fieldStores ctx.fields true)
  else pure (pure ())

def maxCodeLength : Nat := 65535

/-- Closes the body: the implicit return, no node left over, the prologue, the size limit. -/
def finish : Step Unit := do
  let info := (← method).info
  if !(← top).closed then
    if !info.ret.isVoid then throw (.fallsThrough info.name info.ret)
    code (emit .voidReturn)
  checkDangling 0
  let sites := (← method).code.sites.length
  if sites ≠ 0 then throw (.openSites sites)
  let (_, front) := (← prologue).run .empty
  if front.pos > 0 then
    code (prepend front)
    update (Method.shift · front.pos)
  let size ← pos
  if size > maxCodeLength then throw (.codeSize size)
  update fun m => { m with finished := true, frames := [] }
  modify fun w => { w with trail := w.trail.record (.methodFinished w.method.number size) }

def closeInnermost : Step Unit := do
  let f ← top
  match f.scope with
  | .body => finish
  | scope =>
    checkDangling f.firstNode
    match scope with
    | .branch arm exits => endBranch arm exits
    | .loop kind start breaks left => endLoop kind start breaks left
    | .guarded _ stop exits _ => endGuarded stop exits
    | .body => throw .noScope
    render (← method).depth "\x7d"

def plainly (a : Step Unit) : Step (Option Nat) := do
  a
  pure none

def perform : Statement → Step (Option Nat)
  | .declare t name => some <$> declare t name
  | .assign l v => plainly (assignLocal l v)
  | .increment l d => plainly (increment l d)
  | .evaluate e => plainly (evaluate e)
  | .setField o name v => plainly (setField o name v)
  | .setStatic owner name v => plainly (setStatic owner name v)
  | .setIndex a i v => plainly (setIndex a i v)
  | .leave v => plainly (leave v)
  | .raise e => plainly (raise e)
  | .superCall args => plainly (superCall args)
  | .ifOpen c => plainly (ifOpen c)
  | .elseIf c => plainly (elseIf c)
  | .elseOpen => plainly (elseOpen)
  | .whileOpen c => plainly (whileOpen c)
  | .forEach t name e => some <$> forEach t name e
  | .breakLoop => plainly (breakLoop)
  | .continueLoop => plainly (continueLoop)
  | .tryOpen => plainly (tryOpen)
  | .catchOpen t name => some <$> catchOpen t name
  | .close => plainly (closeInnermost)

end Step

end ClassForge.Assembler

import ClassForge.ClassFile.Reader

namespace ClassForge.ClassFile

structure HandlerRow where
  start : Nat
  stop : Nat
  pc : Nat
  catchType : Nat := 0
  deriving DecidableEq, Repr

structure Body where
  maxStack : Nat
  maxLocals : Nat
  code : List UInt8
  handlers : List HandlerRow
  attrs : List Attr
  deriving Repr

structure VariableRow where
  start : Nat
  length : Nat
  name : String
  descriptor : String
  slot : Nat
  deriving DecidableEq, Repr

open Reader

def readHandler : Reader HandlerRow := do
  return ⟨(← u2).toNat, (← u2).toNat, (← u2).toNat, (← u2).toNat⟩

def readBody (t : Table) : Reader Body := do
  let maxStack ← u2
  let maxLocals ← u2
  let code ← bytes (← u4).toNat
  let handlers ← times readHandler (← u2).toNat
  let attrs ← readAttrs t
  return ⟨maxStack.toNat, maxLocals.toNat, code, handlers, attrs⟩

def body? (t : Table) (m : Member) : Except Fault Body :=
  match Attr.find? m.attrs "Code" with
  | none => .error (.noCode m.name m.descriptor)
  | some data => (readBody t ⟨data, 0⟩).map (·.1)

def numberPairs : Nat → List UInt8 → List (Nat × Nat)
  | 0, _ => []
  | n + 1, a :: b :: c :: d :: rest =>
    (a.toNat * 256 + b.toNat, c.toNat * 256 + d.toNat) :: numberPairs n rest
  | n + 1, a :: b :: _ => (a.toNat * 256 + b.toNat, 0) :: List.replicate n (0, 0)
  | n + 1, _ => List.replicate (n + 1) (0, 0)

def Body.lines (b : Body) : List (Nat × Nat) :=
  match Attr.find? b.attrs "LineNumberTable" with
  | some (a :: c :: rest) => numberPairs (a.toNat * 256 + c.toNat) rest
  | _ => []

def readVariable (t : Table) (more : Nat) : Reader VariableRow := do
  let start ← index
  let length ← index
  let name ← checked (t.utf8 (← index))
  let descriptor ← checked (t.utf8 (← index))
  let slot ← if more = 0 then u2 else index
  return ⟨start.toNat, length.toNat, name, descriptor, slot.toNat⟩

def readVariables (t : Table) : Nat → Reader (List VariableRow)
  | 0 => pure []
  | n + 1 => do
    let row ← readVariable t n
    return row :: (← readVariables t n)

def Body.variables (t : Table) (b : Body) : Except Fault (List VariableRow) :=
  match Attr.find? b.attrs "LocalVariableTable" with
  | none => .ok []
  | some data => ((do readVariables t (← u2).toNat : Reader (List VariableRow)) ⟨data, 0⟩).map (·.1)

end ClassForge.ClassFile

import ClassForge.Assembler.Statement

namespace ClassForge.Assembler

open Pool

structure Output where
  pool : Pool
  writer : Writer

abbrev Serial := ExceptT Fault (StateM Output)

namespace Serial

def intern {α : Type} (a : Action α) : Serial α := fun ⟨pool, writer⟩ =>
  let (r, pool) := a.run pool
  (match r with
    | .ok x => .ok x
    | .error e => .error (.pool e), ⟨pool, writer⟩)

def write (f : Writer → Writer) : Serial Unit := modify fun ⟨pool, writer⟩ => ⟨pool, f writer⟩

def u1 (n : UInt8) : Serial Unit := write (·.u1 n)
def u2 (n : UInt16) : Serial Unit := write (·.u2 n)
def count (n : Nat) (what : String) : Serial Unit := write (·.len2 n what)

def narrow (n : Nat) (what : String) : Serial UInt16 :=
  if n < 65536 then pure n.toUInt16 else throw (.fieldRange what n)

def apart (part : Serial Unit) : Serial Writer := fun ⟨pool, writer⟩ =>
  let (r, out) := part.run ⟨pool, .empty⟩
  (match r with
    | .ok _ => .ok out.writer
    | .error e => .error e, ⟨out.pool, writer⟩)

def bytesOf (part : Serial Unit) : Serial (Array UInt8) := do
  let w ← apart part
  match w.overflow with
  | some e => throw (.overflow e)
  | none => pure w.bytes

def attr (name : String) (body : Array UInt8) : Serial Unit := do
  let i ← intern (utf8 name)
  write (·.attr i body)

end Serial

namespace Annotation

def tagged (tag : Char) (index : Action UInt16) : Serial Unit := do
  let i ← Serial.intern index
  Serial.u1 tag.toNat.toUInt8
  Serial.u2 i

def int32 (n : Int) : UInt32 := (Int32.ofInt n).toUInt32
def int64 (n : Int) : UInt64 := (Int64.ofInt n).toUInt64

def header (name : String) (type : JType) (elements : Nat) : Serial Unit := do
  let t := type.resolve name
  if !t.isReference || t.isArray || t.isNull then throw (.annotationType t)
  else
    Serial.u2 (← Serial.intern (utf8 t.descriptor))
    Serial.count elements "annotation elements"

def texts : List String → Serial Unit
  | [] => pure ()
  | s :: rest => do
    tagged 's' (utf8 s)
    texts rest

mutual

def encodeValue (name : String) : Literal → Serial Unit
  | .bool b => tagged 'Z' (integer (if b then 1 else 0))
  | .integer .int8 n => tagged 'B' (integer (int32 n))
  | .integer .int16 n => tagged 'S' (integer (int32 n))
  | .integer .uint16 n => tagged 'C' (integer (int32 n))
  | .integer .int32 n => tagged 'I' (integer (int32 n))
  | .integer .int n =>
    match constantFor .int (.integer .int n) with
    | .ok _ => tagged 'I' (integer (int32 n))
    | .error e => throw e
  | .integer .int64 n => tagged 'J' (long (int64 n))
  | .float b => tagged 'F' (float b)
  | .double b => tagged 'D' (double b)
  | .text s => tagged 's' (utf8 s)
  | .type t => tagged 'c' (utf8 (t.resolve name).descriptor)
  | .enumeration t constant => do
    let ti ← Serial.intern (utf8 (t.resolve name).descriptor)
    let ni ← Serial.intern (utf8 constant)
    Serial.u1 'e'.toNat.toUInt8
    Serial.u2 ti
    Serial.u2 ni
  | .nested t _ es => do
    Serial.u1 '@'.toNat.toUInt8
    header name t es.length
    encodePairs name es
  | .texts xs => do
    Serial.u1 '['.toNat.toUInt8
    Serial.count xs.length "array element"
    texts xs
  | .list xs => do
    Serial.u1 '['.toNat.toUInt8
    Serial.count xs.length "array element"
    encodeValues name xs
  | .null => throw (.annotationValue Literal.null.typeName)
  | .integer w n => throw (.annotationValue (Literal.integer w n).typeName)

def encodePairs (name : String) : List (String × Literal) → Serial Unit
  | [] => pure ()
  | (key, v) :: rest => do
    match checkName key with
    | .error e => throw e
    | .ok _ =>
      Serial.u2 (← Serial.intern (utf8 key))
      encodeValue name v
      encodePairs name rest

def encodeValues (name : String) : List Literal → Serial Unit
  | [] => pure ()
  | v :: rest => do
    encodeValue name v
    encodeValues name rest

end

def encode (name : String) (a : Annotation) : Serial Unit := do
  header name a.type a.elements.length
  encodePairs name a.elements

end Annotation

end ClassForge.Assembler

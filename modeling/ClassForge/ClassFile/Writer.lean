namespace ClassForge

def be16 (n : UInt16) : List UInt8 := [(n >>> 8).toUInt8, n.toUInt8]

def be32 (n : UInt32) : List UInt8 :=
  [(n >>> 24).toUInt8, (n >>> 16).toUInt8, (n >>> 8).toUInt8, n.toUInt8]

def be64 (n : UInt64) : List UInt8 := be32 (n >>> 32).toUInt32 ++ be32 n.toUInt32

inductive Overflow
  | u2 (what : String) (count : Int)
  | u4 (what : String) (count : Int)
  deriving DecidableEq, Repr

def Overflow.message : Overflow → String
  | .u2 what n => what ++ " count " ++ toString n ++ " exceeds u2: out of range"
  | .u4 what n => what ++ " length " ++ toString n ++ " exceeds u4: out of range"

/-- Class-file items written one after the other, with the first count that did not fit. -/
structure Writer where
  bytes : Array UInt8 := #[]
  overflow : Option Overflow := none

namespace Writer

def empty : Writer := {}

def put (w : Writer) (bs : List UInt8) : Writer :=
  let ⟨bytes, overflow⟩ := w
  ⟨bytes.appendList bs, overflow⟩

def u1 (w : Writer) (n : UInt8) : Writer :=
  let ⟨bytes, overflow⟩ := w
  ⟨bytes.push n, overflow⟩

def u2 (w : Writer) (n : UInt16) : Writer := w.put (be16 n)
def u4 (w : Writer) (n : UInt32) : Writer := w.put (be32 n)
def u8 (w : Writer) (n : UInt64) : Writer := w.put (be64 n)

def raw (w : Writer) (bs : Array UInt8) : Writer :=
  let ⟨bytes, overflow⟩ := w
  ⟨bytes ++ bs, overflow⟩

def fail (w : Writer) (e : Overflow) : Writer :=
  match w.overflow with
  | none => ⟨w.bytes, some e⟩
  | some _ => w

def len2 (w : Writer) (n : Int) (what : String) : Writer :=
  if 0 ≤ n ∧ n < 65536 then w.u2 n.toNat.toUInt16 else w.fail (.u2 what n)

def len4 (w : Writer) (n : Int) (what : String) : Writer :=
  if 0 ≤ n ∧ n < 4294967296 then w.u4 n.toNat.toUInt32 else w.fail (.u4 what n)

def attr (w : Writer) (nameIndex : UInt16) (body : Array UInt8) : Writer :=
  ((w.u2 nameIndex).len4 body.size "attribute").raw body

end Writer

end ClassForge

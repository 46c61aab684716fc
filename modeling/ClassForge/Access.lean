namespace ClassForge

structure Access where
  bits : UInt16
  deriving DecidableEq, Repr, Inhabited

namespace Access

def none : Access := ⟨0⟩
def publicBit : Access := ⟨0x0001⟩
def privateBit : Access := ⟨0x0002⟩
def protectedBit : Access := ⟨0x0004⟩
def staticBit : Access := ⟨0x0008⟩
def finalBit : Access := ⟨0x0010⟩
def superBit : Access := ⟨0x0020⟩
def synchronizedBit : Access := ⟨0x0020⟩
def volatileBit : Access := ⟨0x0040⟩
def transientBit : Access := ⟨0x0080⟩
def nativeBit : Access := ⟨0x0100⟩
def interfaceBit : Access := ⟨0x0200⟩
def abstractBit : Access := ⟨0x0400⟩

def union (a b : Access) : Access := ⟨a.bits ||| b.bits⟩
def without (a b : Access) : Access := ⟨a.bits &&& ~~~b.bits⟩

instance : OrOp Access := ⟨union⟩

def meets (a b : Access) : Bool := a.bits &&& b.bits != 0

def isPublic (a : Access) : Bool := a.meets publicBit
def isPrivate (a : Access) : Bool := a.meets privateBit
def isProtected (a : Access) : Bool := a.meets protectedBit
def isStatic (a : Access) : Bool := a.meets staticBit
def isFinal (a : Access) : Bool := a.meets finalBit
def isNative (a : Access) : Bool := a.meets nativeBit
def isInterface (a : Access) : Bool := a.meets interfaceBit
def isAbstract (a : Access) : Bool := a.meets abstractBit

/-- The flags as words in source order; some bits mean one thing on methods and another on fields. -/
def modifiers (a : Access) (method : Bool) : String :=
  let shared :=
    [(a.isPublic, "public"), (a.isProtected, "protected"), (a.isPrivate, "private"),
     (a.isAbstract && !a.isInterface, "abstract"), (a.isStatic, "static"), (a.isFinal, "final")]
  let own :=
    if method then [(a.meets synchronizedBit, "synchronized"), (a.isNative, "native")]
    else [(a.meets volatileBit, "volatile"), (a.meets transientBit, "transient")]
  " ".intercalate ((shared ++ own).filterMap fun (on, word) => if on then some word else Option.none)

end Access

end ClassForge

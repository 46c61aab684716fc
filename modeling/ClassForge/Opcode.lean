import ClassForge.JType

namespace ClassForge

structure Opcode where
  byte : UInt8
  deriving DecidableEq, Repr, Inhabited

namespace Opcode

def nop : Opcode := ⟨0x00⟩
def aconstNull : Opcode := ⟨0x01⟩
def iconstM1 : Opcode := ⟨0x02⟩
def iconst0 : Opcode := ⟨0x03⟩
def iconst1 : Opcode := ⟨0x04⟩
def lconst0 : Opcode := ⟨0x09⟩
def fconst0 : Opcode := ⟨0x0b⟩
def dconst0 : Opcode := ⟨0x0e⟩
def bipush : Opcode := ⟨0x10⟩
def sipush : Opcode := ⟨0x11⟩
def ldc : Opcode := ⟨0x12⟩
def ldcW : Opcode := ⟨0x13⟩
def ldc2W : Opcode := ⟨0x14⟩
def iload : Opcode := ⟨0x15⟩
def lload : Opcode := ⟨0x16⟩
def fload : Opcode := ⟨0x17⟩
def dload : Opcode := ⟨0x18⟩
def aload : Opcode := ⟨0x19⟩
def iload0 : Opcode := ⟨0x1a⟩
def aload0 : Opcode := ⟨0x2a⟩
def iaload : Opcode := ⟨0x2e⟩
def laload : Opcode := ⟨0x2f⟩
def faload : Opcode := ⟨0x30⟩
def daload : Opcode := ⟨0x31⟩
def aaload : Opcode := ⟨0x32⟩
def baload : Opcode := ⟨0x33⟩
def caload : Opcode := ⟨0x34⟩
def saload : Opcode := ⟨0x35⟩
def istore : Opcode := ⟨0x36⟩
def lstore : Opcode := ⟨0x37⟩
def fstore : Opcode := ⟨0x38⟩
def dstore : Opcode := ⟨0x39⟩
def astore : Opcode := ⟨0x3a⟩
def istore0 : Opcode := ⟨0x3b⟩
def iastore : Opcode := ⟨0x4f⟩
def pop : Opcode := ⟨0x57⟩
def pop2 : Opcode := ⟨0x58⟩
def dup : Opcode := ⟨0x59⟩
def iadd : Opcode := ⟨0x60⟩
def isub : Opcode := ⟨0x64⟩
def imul : Opcode := ⟨0x68⟩
def idiv : Opcode := ⟨0x6c⟩
def irem : Opcode := ⟨0x70⟩
def ineg : Opcode := ⟨0x74⟩
def ishl : Opcode := ⟨0x78⟩
def ishr : Opcode := ⟨0x7a⟩
def iushr : Opcode := ⟨0x7c⟩
def iand : Opcode := ⟨0x7e⟩
def ior : Opcode := ⟨0x80⟩
def ixor : Opcode := ⟨0x82⟩
def iinc : Opcode := ⟨0x84⟩
def i2l : Opcode := ⟨0x85⟩
def i2b : Opcode := ⟨0x91⟩
def i2c : Opcode := ⟨0x92⟩
def i2s : Opcode := ⟨0x93⟩
def lcmp : Opcode := ⟨0x94⟩
def fcmpl : Opcode := ⟨0x95⟩
def fcmpg : Opcode := ⟨0x96⟩
def dcmpl : Opcode := ⟨0x97⟩
def dcmpg : Opcode := ⟨0x98⟩
def ifeq : Opcode := ⟨0x99⟩
def ifne : Opcode := ⟨0x9a⟩
def ifIcmpeq : Opcode := ⟨0x9f⟩
def ifIcmpge : Opcode := ⟨0xa2⟩
def ifAcmpeq : Opcode := ⟨0xa5⟩
def ifAcmpne : Opcode := ⟨0xa6⟩
def goto : Opcode := ⟨0xa7⟩
def ireturn : Opcode := ⟨0xac⟩
def lreturn : Opcode := ⟨0xad⟩
def freturn : Opcode := ⟨0xae⟩
def dreturn : Opcode := ⟨0xaf⟩
def areturn : Opcode := ⟨0xb0⟩
def voidReturn : Opcode := ⟨0xb1⟩
def getstatic : Opcode := ⟨0xb2⟩
def putstatic : Opcode := ⟨0xb3⟩
def getfield : Opcode := ⟨0xb4⟩
def putfield : Opcode := ⟨0xb5⟩
def invokevirtual : Opcode := ⟨0xb6⟩
def invokespecial : Opcode := ⟨0xb7⟩
def invokestatic : Opcode := ⟨0xb8⟩
def invokeinterface : Opcode := ⟨0xb9⟩
def new : Opcode := ⟨0xbb⟩
def newarray : Opcode := ⟨0xbc⟩
def anewarray : Opcode := ⟨0xbd⟩
def arraylength : Opcode := ⟨0xbe⟩
def athrow : Opcode := ⟨0xbf⟩
def checkcast : Opcode := ⟨0xc0⟩
def instanceof : Opcode := ⟨0xc1⟩
def wide : Opcode := ⟨0xc4⟩
def ifnull : Opcode := ⟨0xc6⟩
def ifnonnull : Opcode := ⟨0xc7⟩

def plus (op : Opcode) (n : UInt8) : Opcode := ⟨op.byte + n⟩

def isBranch (op : Opcode) : Bool :=
  (ifeq.byte ≤ op.byte && op.byte ≤ goto.byte) || op == ifnull || op == ifnonnull

def isTerminal (op : Opcode) : Bool :=
  (ireturn.byte ≤ op.byte && op.byte ≤ voidReturn.byte) || op == athrow || op == goto

/-- The branch on the opposite condition. Conditions come in pairs that differ in the low bit from
`ifeq` on. -/
def negate (op : Opcode) : Opcode :=
  if ifeq.byte ≤ op.byte && op.byte ≤ ifAcmpne.byte then ⟨ifeq.byte + ((op.byte - ifeq.byte) ^^^ 1)⟩
  else if op == ifnull then ifnonnull
  else if op == ifnonnull then ifnull
  else op

def twoByte : List Opcode :=
  [bipush, ldc, iload, lload, fload, dload, aload, istore, lstore, fstore, dstore, astore, newarray]

def threeByte : List Opcode :=
  [sipush, ldcW, ldc2W, iinc, getstatic, putstatic, getfield, putfield, invokevirtual,
   invokespecial, invokestatic, new, anewarray, checkcast, instanceof]

/-- The encoded size of a fixed-size instruction; 0 for the wide form, whose size is its operand's. -/
def length (op : Opcode) : Nat :=
  if twoByte.contains op then 2
  else if threeByte.contains op then 3
  else if op == invokeinterface then 5
  else if op == wide then 0
  else if op.isBranch then 3
  else 1

def arrayCode : Prim → UInt8
  | .boolean => 4
  | .char => 5
  | .float => 6
  | .double => 7
  | .byte => 8
  | .short => 9
  | .int => 10
  | .long => 11

/-- The place of a kind in the order int, long, float, double, reference of typed instructions. -/
def family : Kind → UInt8
  | .prim .long => 1
  | .prim .float => 2
  | .prim .double => 3
  | .reference => 4
  | _ => 0

/-- Loads of the family's kind: the form with an operand and the form for slot 0. -/
def load (k : Kind) : Opcode × Opcode := (iload.plus (family k), iload0.plus (4 * family k))

def store (k : Kind) : Opcode × Opcode := (istore.plus (family k), istore0.plus (4 * family k))

end Opcode

end ClassForge

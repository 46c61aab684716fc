import ClassForge.Opcode
import ClassForge.Text.Quoted

namespace ClassForge

/-- One instruction. `target` is the destination of a branch and `index` the first operand; each is
-1 where there is none. -/
structure Instruction where
  pc : Nat
  op : Opcode
  wide : Bool := false
  target : Int := -1
  index : Int := -1
  deriving DecidableEq, Repr, Inhabited

namespace Instruction

inductive Fault
  | wideAtEnd (pc : Nat)
  | truncated (pc : Nat) (op : UInt8)
  deriving DecidableEq, Repr

def hexByte (b : UInt8) : String := "0x" ++ String.ofList (Nat.toDigits 16 b.toNat)

def Fault.message : Fault → String
  | .wideAtEnd pc => "pc " ++ toString pc ++ ": wide at end of code"
  | .truncated pc op => "pc " ++ toString pc ++ ": " ++ hexByte op ++ " truncated"

def word (a b : UInt8) : Nat := a.toNat * 256 + b.toNat

def offset (a b : UInt8) : Int :=
  if word a b < 32768 then word a b else (word a b : Int) - 65536

def read (pc : Nat) (op : UInt8) (operands : List UInt8) : Except Fault (Instruction × Nat) :=
  let code : Opcode := ⟨op⟩
  if code = .wide then
    match operands with
    | [] => .error (.wideAtEnd pc)
    | inner :: rest =>
      let size := if (⟨inner⟩ : Opcode) = .iinc then 6 else 4
      if operands.length + 1 < size then .error (.truncated pc op)
      else
        let index : Int := match rest with
          | a :: b :: _ => word a b
          | _ => -1
        .ok ({ pc, op := ⟨inner⟩, wide := true, index }, size)
  else
    let size := code.length
    if operands.length + 1 < size then .error (.truncated pc op)
    else
      match operands with
      | a :: b :: _ =>
        if code.isBranch then .ok ({ pc, op := code, target := pc + offset a b }, size)
        else if size = 2 then .ok ({ pc, op := code, index := a.toNat }, size)
        else if 3 ≤ size then .ok ({ pc, op := code, index := word a b }, size)
        else .ok ({ pc, op := code }, size)
      | a :: [] =>
        if size = 2 then .ok ({ pc, op := code, index := a.toNat }, size) else .ok ({ pc, op := code }, size)
      | [] => .ok ({ pc, op := code }, size)

/-- Splits code from a position on, the instructions before it in reverse. As many steps as bytes
suffice. -/
def splitFrom : Nat → Nat → List UInt8 → List Instruction → Except Fault (List Instruction)
  | _, _, [], done => .ok done.reverse
  | 0, _, _, done => .ok done.reverse
  | fuel + 1, pc, op :: rest, done =>
    match read pc op rest with
    | .error e => .error e
    | .ok (i, size) => splitFrom fuel (pc + size) (rest.drop (size - 1)) (i :: done)

def split (code : List UInt8) : Except Fault (List Instruction) := splitFrom code.length 0 code []

end Instruction

end ClassForge

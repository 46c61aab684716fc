import ClassForge.Proofs.Applicability
import ClassForge.Proofs.Finishing
import ClassForge.Recipe.Compile

/-! The literals of recipes: which values a type takes, and that the assembler takes what is made
from them. -/

namespace ClassForge

open JType

namespace Assembler

open Step hiding Meets

variable {s t : JType} {value : Value} {l : Literal}

def Value.number? : Value → Option Int
  | .int n | .long n => some n.toInt
  | _ => none

end Assembler

namespace Recipe

open Assembler (Literal Draft Step IntWidth constantFor returnOp)

namespace Value

def ranges : List (JType × Int × Int) :=
  [(.byte, -128, 127), (.short, -32768, 32767), (.char, 0, 65535), (.int, -2147483648, 2147483647),
    (.long, -9223372036854775808, 9223372036854775807)]

/-- What a type takes for a constant: a character is given as a text of its own or by number. -/
def Fits (t : JType) : Value → Prop
  | .bool _ => t = .boolean
  | .integer _ n => ∃ low high, (t, low, high) ∈ ranges ∧ low ≤ n ∧ n ≤ high
  | .text s => (t = .char ∧ ∃ c, s.toList = [c] ∧ c.toNat ≤ 65535) ∨ t = .string ∨ t = .object
  | _ => False

variable {t : JType} {v : Value} {l : Literal}

end Value

end Recipe

end ClassForge

import ClassForge.Proofs.Catching

/-! The debug tables of written code. -/

namespace ClassForge

open List

namespace Assembler.Draft

variable {p q : Provider} {d d' : Draft} {name : String} {options : Options}

end Assembler.Draft

end ClassForge

import ClassForge.ClassFile.Check
import ClassForge.Files.Disk
import ClassForge.Hierarchy.Snapshot
import ClassForge.Recipe.Basic

namespace ClassForge.Diagnostic

class Reported (ε : Type) where
  problem : ε → Problem

instance : Reported Problem := ⟨id⟩
instance : Reported String := ⟨.plain⟩
instance : Reported TypeSyntaxError := ⟨fun e => .plain e.message⟩
instance : Reported Instruction.Fault := ⟨fun e => .plain e.message⟩
instance : Reported ClassFile.Fault := ⟨fun e => .plain e.message⟩
instance : Reported ClassFile.Defect := ⟨fun e => .plain e.message⟩
instance : Reported Files.Failure := ⟨fun e => .plain e.message⟩
instance : Reported Hierarchy.Fault := ⟨fun e => .coded e.code e.message "" none⟩
instance : Reported Hierarchy.Snapshot.Fault := ⟨fun e => .coded e.code e.message "" none⟩
instance : Reported Pool.Fault := ⟨fun e => .coded e.code e.message "" none⟩
instance : Reported Code.Fault := ⟨fun e => .coded e.code e.message "" none⟩
instance : Reported Assembler.Failure := ⟨Assembler.Failure.problem⟩
instance : Reported Recipe.Problem := ⟨Recipe.Problem.report⟩

end ClassForge.Diagnostic

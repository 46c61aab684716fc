import ClassForge.Assembler.Session
import ClassForge.Build.Progress
import ClassForge.Diagnostic.Reported
import ClassForge.Hierarchy.Shelf
import ClassForge.Main
import ClassForge.Proofs.Assignability
import ClassForge.Proofs.Assignment
import ClassForge.Proofs.Clashes
import ClassForge.Proofs.Constants
import ClassForge.Proofs.Counting
import ClassForge.Proofs.DebugTables
import ClassForge.Proofs.Describing
import ClassForge.Proofs.Dimensions
import ClassForge.Proofs.Framing
import ClassForge.Proofs.Inheritance
import ClassForge.Proofs.Keys
import ClassForge.Proofs.Literals
import ClassForge.Proofs.Mending
import ClassForge.Proofs.Obligations
import ClassForge.Proofs.Overflows
import ClassForge.Proofs.Patching
import ClassForge.Proofs.References
import ClassForge.Proofs.Ring
import ClassForge.Proofs.Slots
import ClassForge.Proofs.Snapshots
import ClassForge.Proofs.Stacks
import ClassForge.Proofs.Tracing

import ClassForge.ClassFile.Body
import ClassForge.ClassFile.Instruction
import ClassForge.Number.Shortest
import Std.Data.HashMap

namespace ClassForge.ClassFile

inductive Defect
  | unreadable (cause : Fault)
  | code (cause : Instruction.Fault)
  | emptyCode
  | badBranch (pc : Nat) (target : Int)
  | fallsOff (pc : Nat) (op : UInt8)
  | emptyRange (handler start stop : Nat)
  | badHandler (handler start stop pc : Nat)
  | emptyEntry (index : Nat)
  | entry (index : Nat) (part : String) (cause : Fault)
  | duplicate (first second : Nat) (constant : Constant)
  | within (what : String) (cause : Defect)
  deriving DecidableEq, Repr

def spell (c : Constant) : String :=
  let (text, int, long, float, double, a, b) : String × Int × Int × String × String × Nat × Nat :=
    match c with
    | .utf8 s => (s, 0, 0, "0", "0", 0, 0)
    | .integer n => ("", n.toInt32.toInt, 0, "0", "0", 0, 0)
    | .long n => ("", 0, n.toInt64.toInt, "0", "0", 0, 0)
    | .float n => ("", 0, 0, FloatLayout.general.write .single n.toNat, "0", 0, 0)
    | .double n => ("", 0, 0, "0", FloatLayout.general.write .double n.toNat, 0, 0)
    | .classRef n => ("", 0, 0, "0", "0", n.toNat, 0)
    | .string n => ("", 0, 0, "0", "0", n.toNat, 0)
    | .member _ o n => ("", 0, 0, "0", "0", o.toNat, n.toNat)
    | .nameAndType n d => ("", 0, 0, "0", "0", n.toNat, d.toNat)
  s!"\x7bTag:{c.tag.name} Utf8:{text} Int:{int} Long:{long}" ++
    s!" Float:{float} Double:{double} A:{a} B:{b}\x7d"

def Defect.range (start stop : Nat) : String := s!"[{start},{stop})"

def Defect.message : Defect → String
  | .unreadable e => e.message
  | .code e => e.message
  | .emptyCode => "empty code"
  | .badBranch pc t => s!"pc {pc}: branch to {t} is not an instruction start"
  | .fallsOff pc op => s!"pc {pc}: code falls off the end after {Instruction.hexByte op}"
  | .emptyRange i s e => s!"handler {i}: empty range {range s e}"
  | .badHandler i s e pc => s!"handler {i}: {range s e}->{pc} not on instruction boundaries"
  | .emptyEntry i => s!"pool entry {i} is empty"
  | .entry i part e => s!"entry {i}{part}: {e.message}"
  | .duplicate i j c => s!"entries {i} and {j} are both {c.tag.name} {spell c}"
  | .within what e => s!"{what}: {e.message}"

/-! The code of a method. -/

def checkBranches (starts : Std.HashMap Nat Unit) : List Instruction → Except Defect Unit
  | [] => .ok ()
  | i :: rest =>
    if (0 ≤ i.target ∨ i.op.isBranch) ∧ ¬(0 ≤ i.target ∧ starts.contains i.target.toNat) then
      .error (.badBranch i.pc i.target)
    else checkBranches starts rest

def checkHandlers (size : Nat) (starts : Std.HashMap Nat Unit) : Nat → List HandlerRow → Except Defect Unit
  | _, [] => .ok ()
  | n, h :: rest =>
    if h.stop ≤ h.start then .error (.emptyRange n h.start h.stop)
    else if starts.contains h.start && starts.contains h.pc && (h.stop == size || starts.contains h.stop) then
      checkHandlers size starts (n + 1) rest
    else .error (.badHandler n h.start h.stop h.pc)

/-- Every branch and handler lands on an instruction, and control cannot run off the end. -/
def checkCode (code : List UInt8) (handlers : List HandlerRow) : Except Defect Unit :=
  match Instruction.split code with
  | .error e => .error (.code e)
  | .ok instructions =>
    match instructions.getLast? with
    | none => .error .emptyCode
    | some last =>
      let starts : Std.HashMap Nat Unit := instructions.foldl (fun m i => m.insert i.pc ()) {}
      do
        checkBranches starts instructions
        if last.op.isTerminal then checkHandlers code.length starts 0 handlers
        else throw (.fallsOff last.pc last.op.byte)

/-! The constant pool. -/

/-- The constant as it is compared with others: the two zeros are equal, and a NaN has no equal. -/
def comparable : Constant → Option Constant
  | .float n =>
    match Binary.decode .single n.toNat with
    | .nan .. => none
    | .finite _ 0 _ => some (.float 0)
    | _ => some (.float n)
  | .double n =>
    match Binary.decode .double n.toNat with
    | .nan .. => none
    | .finite _ 0 _ => some (.double 0)
    | _ => some (.double n)
  | c => some c

def checkConstant (t : Table) (i : Nat) (c : Constant) : Except Defect Unit :=
  let inEntry {α : Type} (part : String) (r : Except Fault α) : Except Defect Unit :=
    match r with
    | .ok _ => .ok ()
    | .error e => .error (.entry i part e)
  match c with
  | .classRef n | .string n => inEntry s!" ({c.tag.name})" (t.utf8 n)
  | .nameAndType n d => do
    inEntry ": name" (t.utf8 n)
    inEntry ": descriptor" (t.utf8 d)
  | .member .. => inEntry "" (t.memberRef i.toUInt16)
  | _ => .ok ()

/-- The entries from index `i` on. `wide` says that the entry before takes two places. -/
def checkEntries (t : Table) : Nat → Bool → Std.HashMap Constant Nat → List (Option Constant) →
    Except Defect Unit
  | _, _, _, [] => .ok ()
  | i, wide, seen, none :: rest =>
    if wide then checkEntries t (i + 1) false seen rest else .error (.emptyEntry i)
  | i, _, seen, some c :: rest =>
    match checkConstant t i c with
    | .error e => .error e
    | .ok () =>
      match comparable c with
      | none => checkEntries t (i + 1) c.tag.isWide seen rest
      | some k =>
        match seen[k]? with
        | some first => .error (.duplicate first i c)
        | none => checkEntries t (i + 1) c.tag.isWide (seen.insert k i) rest

/-- Every reference points at an entry of the right kind, and no two entries are equal. -/
def checkPool (t : Table) : Except Defect Unit := checkEntries t 1 false {} (t.toList.drop 1)

/-! The whole class. -/

def checkMethods (t : Table) : List Member → Except Defect Unit
  | [] => .ok ()
  | m :: rest =>
    if (Attr.find? m.attrs "Code").isNone then checkMethods t rest
    else
      match body? t m with
      | .error e => .error (.within (m.name ++ m.descriptor) (.unreadable e))
      | .ok b =>
        match checkCode b.code b.handlers with
        | .error e => .error (.within (m.name ++ m.descriptor) e)
        | .ok () => checkMethods t rest

def check (data : List UInt8) : Except Defect Unit :=
  match decode data with
  | .error e => .error (.unreadable e)
  | .ok c => do
    checkPool c.pool
    checkMethods c.pool c.methods

def refCounts (t : Table) : Std.HashMap (RefKind × String × String × String) Nat :=
  let count (m : Std.HashMap (RefKind × String × String × String) Nat) (e : Option Constant × Nat) :=
    match e.1, t.memberRef e.2.toUInt16 with
    | some (.member kind _ _), .ok r => m.insert (kind, r) (m.getD (kind, r) 0 + 1)
    | _, _ => m
  t.toList.zipIdx.foldl count {}

end ClassForge.ClassFile

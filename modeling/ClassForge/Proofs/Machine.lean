import ClassForge.Proofs.Effect

/-! A machine that runs method bodies over numbers, references and int arrays: the instructions as
bytes, and one step of each. -/

namespace ClassForge.Machine

open Instruction

/-- A value on the operand stack or in a slot. A reference without an address is null. -/
inductive Datum
  | int (n : Int32)
  | long (n : Int64)
  | ref (address : Option Nat)
  deriving DecidableEq, Repr

def Datum.word : Datum → Word
  | .int _ => .int
  | .long _ => .long
  | .ref _ => .reference

def Datum.ofBool (b : Bool) : Datum := .int (if b then 1 else 0)

inductive Arith
  | add | sub | mul | and | or | xor
  deriving DecidableEq, Repr

def Arith.on32 (op : Arith) (x y : Int32) : Int32 :=
  match op with
  | .add => x + y
  | .sub => x - y
  | .mul => x * y
  | .and => x &&& y
  | .or => x ||| y
  | .xor => x ^^^ y

def Arith.on64 (op : Arith) (x y : Int64) : Int64 :=
  match op with
  | .add => x + y
  | .sub => x - y
  | .mul => x * y
  | .and => x &&& y
  | .or => x ||| y
  | .xor => x ^^^ y

inductive Shift
  | left | right | unsigned
  deriving DecidableEq, Repr

def Shift.on32 (op : Shift) (x y : Int32) : Int32 :=
  match op with
  | .left => x <<< (y &&& 31)
  | .right => x >>> (y &&& 31)
  | .unsigned => (x.toUInt32 >>> (y.toUInt32 &&& 31)).toInt32

def Shift.on64 (op : Shift) (x : Int64) (y : Int32) : Int64 :=
  match op with
  | .left => x <<< (y.toInt64 &&& 63)
  | .right => x >>> (y.toInt64 &&& 63)
  | .unsigned => (x.toUInt64 >>> (y.toInt64.toUInt64 &&& 63)).toInt64

inductive Operator
  | ineg | lneg | i2l | l2i | i2b | i2c | i2s | lcmp
  | int (op : Arith)
  | long (op : Arith)
  | intShift (op : Shift)
  | longShift (op : Shift)
  deriving DecidableEq, Repr

def Operator.apply : Operator → List Datum → Option (List Datum)
  | .ineg, .int x :: s => some (.int (-x) :: s)
  | .lneg, .long x :: s => some (.long (-x) :: s)
  | .i2l, .int x :: s => some (.long x.toInt64 :: s)
  | .l2i, .long x :: s => some (.int x.toInt32 :: s)
  | .i2b, .int x :: s => some (.int x.toInt8.toInt32 :: s)
  | .i2c, .int x :: s => some (.int (x.toUInt32 &&& 65535).toInt32 :: s)
  | .i2s, .int x :: s => some (.int x.toInt16.toInt32 :: s)
  | .lcmp, .long y :: .long x :: s => some (.int (if x < y then -1 else if x = y then 0 else 1) :: s)
  | .int op, .int y :: .int x :: s => some (.int (op.on32 x y) :: s)
  | .long op, .long y :: .long x :: s => some (.long (op.on64 x y) :: s)
  | .intShift op, .int y :: .int x :: s => some (.int (op.on32 x y) :: s)
  | .longShift op, .int y :: .long x :: s => some (.long (op.on64 x y) :: s)
  | _, _ => none

inductive Condition
  | eq | ne | lt | ge | gt | le
  deriving DecidableEq, Repr

def Condition.holds (c : Condition) (x y : Int32) : Bool :=
  match c with
  | .eq => x == y
  | .ne => x != y
  | .lt => x < y
  | .ge => y ≤ x
  | .gt => y < x
  | .le => x ≤ y

def Condition.ofNumber : Nat → Condition
  | 0 => .eq
  | 1 => .ne
  | 2 => .lt
  | 3 => .ge
  | 4 => .gt
  | _ => .le

inductive Test
  | always
  | zero (c : Condition)
  | ints (c : Condition)
  | refs (same : Bool)
  | null (expected : Bool)
  deriving DecidableEq, Repr

def Test.decide : Test → List Datum → Option (Bool × List Datum)
  | .always, s => some (true, s)
  | .zero c, .int x :: s => some (c.holds x 0, s)
  | .ints c, .int y :: .int x :: s => some (c.holds x y, s)
  | .refs same, .ref b :: .ref a :: s => some ((a == b) == same, s)
  | .null expected, .ref a :: s => some (a.isNone == expected, s)
  | _, _ => none

inductive Insn
  | push (d : Datum)
  | constant (index : UInt16) (isWide : Bool)
  | load (w : Word) (slot : Nat)
  | store (w : Word) (slot : Nat)
  | increment (slot : Nat) (delta : Int32)
  | operate (op : Operator)
  | branch (test : Test) (target : Nat)
  | arrayLength
  | arrayLoad
  | leave (w : Option Word)
  deriving DecidableEq, Repr

namespace Insn

/-- Instructions without operands, in runs: the first byte, how many there are, and each by its distance from the
first. -/
def plain : List (Nat × Nat × (Nat → Insn)) :=
  [(0x01, 1, fun _ => .push (.ref none)),
   (0x02, 7, fun n => .push (.int (Int32.ofNat n - 1))),
   (0x09, 2, fun n => .push (.long (Int64.ofNat n))),
   (0x1a, 4, .load .int),
   (0x1e, 4, .load .long),
   (0x2a, 4, .load .reference),
   (0x2e, 1, fun _ => .arrayLoad),
   (0x3b, 4, .store .int),
   (0x4b, 4, .store .reference),
   (0x60, 1, fun _ => .operate (.int .add)),
   (0x61, 1, fun _ => .operate (.long .add)),
   (0x64, 1, fun _ => .operate (.int .sub)),
   (0x65, 1, fun _ => .operate (.long .sub)),
   (0x68, 1, fun _ => .operate (.int .mul)),
   (0x69, 1, fun _ => .operate (.long .mul)),
   (0x74, 1, fun _ => .operate .ineg),
   (0x75, 1, fun _ => .operate .lneg),
   (0x78, 1, fun _ => .operate (.intShift .left)),
   (0x79, 1, fun _ => .operate (.longShift .left)),
   (0x7a, 1, fun _ => .operate (.intShift .right)),
   (0x7b, 1, fun _ => .operate (.longShift .right)),
   (0x7c, 1, fun _ => .operate (.intShift .unsigned)),
   (0x7d, 1, fun _ => .operate (.longShift .unsigned)),
   (0x7e, 1, fun _ => .operate (.int .and)),
   (0x7f, 1, fun _ => .operate (.long .and)),
   (0x80, 1, fun _ => .operate (.int .or)),
   (0x81, 1, fun _ => .operate (.long .or)),
   (0x82, 1, fun _ => .operate (.int .xor)),
   (0x83, 1, fun _ => .operate (.long .xor)),
   (0x85, 1, fun _ => .operate .i2l),
   (0x88, 1, fun _ => .operate .l2i),
   (0x91, 1, fun _ => .operate .i2b),
   (0x92, 1, fun _ => .operate .i2c),
   (0x93, 1, fun _ => .operate .i2s),
   (0x94, 1, fun _ => .operate .lcmp),
   (0xac, 1, fun _ => .leave (some .int)),
   (0xad, 1, fun _ => .leave (some .long)),
   (0xb0, 1, fun _ => .leave (some .reference)),
   (0xb1, 1, fun _ => .leave none),
   (0xbe, 1, fun _ => .arrayLength)]

def onSlot (op : UInt8) (slot : Nat) : Option Insn :=
  match op.toNat with
  | 0x15 => some (.load .int slot)
  | 0x16 => some (.load .long slot)
  | 0x19 => some (.load .reference slot)
  | 0x36 => some (.store .int slot)
  | 0x3a => some (.store .reference slot)
  | _ => none

def tests : List (Nat × Nat × (Nat → Test)) :=
  [(0x99, 6, fun n => .zero (.ofNumber n)),
   (0x9f, 6, fun n => .ints (.ofNumber n)),
   (0xa5, 2, fun n => .refs (n == 0)),
   (0xa7, 1, fun _ => .always),
   (0xc6, 2, fun n => .null (n == 0))]

def inRuns {α : Type} (runs : List (Nat × Nat × (Nat → α))) (op : UInt8) : Option α :=
  runs.findSome? fun (first, count, entry) =>
    if first ≤ op.toNat ∧ op.toNat < first + count then some (entry (op.toNat - first)) else none

def withByte (op a : UInt8) : Option Insn :=
  match op.toNat with
  | 0x10 => some (.push (.int a.toInt8.toInt32))
  | 0x12 => some (.constant a.toUInt16 false)
  | _ => onSlot op a.toNat

/-- Instructions with two bytes of operands. The target of a branch is relative to its own position. -/
def withTwo (pc : Nat) (op a b : UInt8) : Option Insn :=
  match op.toNat with
  | 0x11 => some (.push (.int (Int32.ofInt (offset a b))))
  | 0x13 => some (.constant (UInt16.ofNat (word a b)) false)
  | 0x14 => some (.constant (UInt16.ofNat (word a b)) true)
  | 0x84 => some (.increment a.toNat b.toInt8.toInt32)
  | _ => do
    let test ← inRuns tests op
    if 0 ≤ pc + offset a b then some (.branch test (pc + offset a b).toNat) else none

def wide (code : Array UInt8) (pc : Nat) : Option (Insn × Nat) := do
  let op ← code[pc + 1]?
  let a ← code[pc + 2]?
  let b ← code[pc + 3]?
  if op = 0x84 then
    let c ← code[pc + 4]?
    let d ← code[pc + 5]?
    some (.increment (word a b) (Int32.ofInt (offset c d)), 6)
  else (onSlot op (word a b)).map (·, 4)

def decode (code : Array UInt8) (pc : Nat) : Option (Insn × Nat) := do
  let op ← code[pc]?
  if op = 0xc4 then wide code pc
  else match inRuns plain op with
    | some i => some (i, 1)
    | none =>
      let a ← code[pc + 1]?
      match withByte op a with
      | some i => some (i, 2)
      | none => (withTwo pc op a (← code[pc + 2]?)).map (·, 3)

end Insn

/-- What a body runs in: its bytes, the pool of its class, and the int arrays by their addresses. -/
structure World where
  code : Array UInt8
  pool : Pool
  arrays : Nat → Option (Array Int32)
  short : ∀ a xs, arrays a = some xs → xs.size < 2147483648

/-- A running body. The log holds what was stored in slots, in order. -/
structure State where
  pc : Nat
  stack : List Datum
  slots : Nat → Datum
  log : List (Nat × Datum)

inductive Thrown
  | nullPointer | indexRange
  deriving DecidableEq, Repr

inductive Next
  | runs (s : State)
  | returns (result : Option Datum) (log : List (Nat × Datum))
  | throws (e : Thrown) (log : List (Nat × Datum))
  | stuck

def State.goOn (s : State) (pc : Nat) (stack : List Datum) : Next := .runs { s with pc, stack }

def State.keep (s : State) (pc : Nat) (stack : List Datum) (slot : Nat) (d : Datum) : Next :=
  .runs ⟨pc, stack, fun i => if i = slot then d else s.slots i, s.log ++ [(slot, d)]⟩

def Insn.run (w : World) (next : Nat) (s : State) : Insn → Next
  | .push d => s.goOn next (d :: s.stack)
  | .constant index isWide =>
    match w.pool.get? index, isWide with
    | some (.integer v), false => s.goOn next (.int v.toInt32 :: s.stack)
    | some (.long v), true => s.goOn next (.long v.toInt64 :: s.stack)
    | _, _ => .stuck
  | .load word slot =>
    if (s.slots slot).word = word then s.goOn next (s.slots slot :: s.stack) else .stuck
  | .store word slot =>
    match s.stack with
    | d :: rest => if d.word = word then s.keep next rest slot d else .stuck
    | [] => .stuck
  | .increment slot delta =>
    match s.slots slot with
    | .int n => s.keep next s.stack slot (.int (n + delta))
    | _ => .stuck
  | .operate op =>
    match op.apply s.stack with
    | some stack => s.goOn next stack
    | none => .stuck
  | .branch test target =>
    match test.decide s.stack with
    | some (taken, rest) => s.goOn (if taken then target else next) rest
    | none => .stuck
  | .arrayLength =>
    match s.stack with
    | .ref none :: _ => .throws .nullPointer s.log
    | .ref (some a) :: rest =>
      match w.arrays a with
      | some xs => s.goOn next (.int (Int32.ofNat xs.size) :: rest)
      | none => .stuck
    | _ => .stuck
  | .arrayLoad =>
    match s.stack with
    | .int _ :: .ref none :: _ => .throws .nullPointer s.log
    | .int i :: .ref (some a) :: rest =>
      match w.arrays a with
      | some xs =>
        if 0 ≤ i.toInt ∧ i.toInt < xs.size then s.goOn next (.int (xs.getD i.toInt.toNat 0) :: rest)
        else .throws .indexRange s.log
      | none => .stuck
    | _ => .stuck
  | .leave none => .returns none s.log
  | .leave (some word) =>
    match s.stack with
    | d :: _ => if d.word = word then .returns (some d) s.log else .stuck
    | [] => .stuck

def step (w : World) (s : State) : Next :=
  match Insn.decode w.code s.pc with
  | some (i, size) => i.run w (s.pc + size) s
  | none => .stuck

inductive Runs (w : World) : Nat → State → State → Prop
  | done {s : State} : Runs w 0 s s
  | more {n : Nat} {s t u : State} : step w s = .runs t → Runs w n t u → Runs w (n + 1) s u

def Reaches (w : World) (s t : State) : Prop := ∃ n, Runs w n s t

section

variable {w : World} {s t u : State} {n : Nat}

theorem Runs.one (h : step w s = .runs t) : Runs w 1 s t := .more h .done

theorem Runs.trans (h : Runs w m s t) (k : Runs w n t u) : Runs w (m + n) s u := by
  induction h with
  | done => simpa using k
  | more first _ ih =>
    rw [Nat.add_right_comm]
    exact .more first (ih k)

theorem Reaches.refl (w : World) (s : State) : Reaches w s s := ⟨0, .done⟩

theorem Reaches.one (h : step w s = .runs t) : Reaches w s t := ⟨1, .one h⟩

theorem Reaches.trans (h : Reaches w s t) (k : Reaches w t u) : Reaches w s u := by
  obtain ⟨m, first⟩ := h
  obtain ⟨n, second⟩ := k
  exact ⟨m + n, first.trans second⟩

end

/-! Reading instructions of each form. -/

namespace Insn

variable {code : Array UInt8} {pc : Nat} {op a b : UInt8} {i : Insn} {slot target : Nat}

theorem decode_plain (first : code[pc]? = some op) (form : inRuns plain op = some i) :
    decode code pc = some (i, 1) := by
  have narrow : op ≠ 0xc4 := by
    rintro rfl
    cases form
  simp [decode, first, narrow, form]

theorem decode_byte (first : code[pc]? = some op) (second : code[pc + 1]? = some a)
    (more : inRuns plain op = none) (form : withByte op a = some i) : decode code pc = some (i, 2) := by
  have narrow : op ≠ 0xc4 := by
    rintro rfl
    cases form
  simp [decode, first, second, narrow, more, form]

theorem decode_two (first : code[pc]? = some op) (second : code[pc + 1]? = some a)
    (third : code[pc + 2]? = some b) (more : inRuns plain op = none) (yetMore : withByte op a = none)
    (form : withTwo pc op a b = some i) : decode code pc = some (i, 3) := by
  have narrow : op ≠ 0xc4 := by
    rintro rfl
    cases form
  simp [decode, first, second, third, narrow, more, yetMore, form]

theorem tests_apart : ∀ op : UInt8, (inRuns tests op).isSome = true → inRuns plain op = none ∧
    op.toNat ∉ [0x10, 0x11, 0x12, 0x13, 0x14, 0x15, 0x16, 0x19, 0x36, 0x3a, 0x84] := by
  have all : ∀ n : Fin 256, (inRuns tests (UInt8.ofFin n)).isSome = true →
      inRuns plain (UInt8.ofFin n) = none ∧
        (UInt8.ofFin n).toNat ∉ [0x10, 0x11, 0x12, 0x13, 0x14, 0x15, 0x16, 0x19, 0x36, 0x3a, 0x84] := by
    decide +kernel
  intro op
  have := all op.toFin
  rwa [UInt8.ofFin_toFin] at this

theorem decode_branch (first : code[pc]? = some op) (second : code[pc + 1]? = some a)
    (third : code[pc + 2]? = some b) (form : inRuns tests op = some test)
    (distance : pc + offset a b = target) : decode code pc = some (.branch test target, 3) := by
  obtain ⟨more, others⟩ := tests_apart op (by rw [form]; rfl)
  refine decode_two first second third more ?_ ?_
  · unfold withByte onSlot
    split <;> simp_all
  · unfold withTwo
    split <;> simp_all

theorem of_onSlot (form : onSlot op slot = some i) :
    inRuns plain op = none ∧ op ≠ 0x84 ∧ ∀ a : UInt8, a.toNat = slot → withByte op a = some i := by
  obtain ⟨n, rfl⟩ : ∃ n : Fin 256, op = UInt8.ofFin n := ⟨op.toFin, by simp⟩
  have known : (UInt8.ofFin n).toNat ∈ [0x15, 0x16, 0x19, 0x36, 0x3a] := by
    unfold onSlot at form
    split at form <;> simp_all
  have facts : ∀ n : Fin 256, (UInt8.ofFin n).toNat ∈ [0x15, 0x16, 0x19, 0x36, 0x3a] →
      inRuns plain (UInt8.ofFin n) = none ∧ UInt8.ofFin n ≠ 0x84 ∧ (UInt8.ofFin n).toNat ≠ 0x10 ∧
        (UInt8.ofFin n).toNat ≠ 0x12 := by
    decide +kernel
  obtain ⟨more, other, notPush, notConstant⟩ := facts n known
  refine ⟨more, other, ?_⟩
  unfold withByte
  split <;> simp_all

theorem decode_wide (first : code[pc]? = some 0xc4) (second : code[pc + 1]? = some op)
    (third : code[pc + 2]? = some a) (fourth : code[pc + 3]? = some b)
    (form : onSlot op (word a b) = some i) : decode code pc = some (i, 4) := by
  obtain ⟨-, other, -⟩ := of_onSlot form
  simp [decode, wide, first, second, third, fourth, other, form]

/-- The final code has an instruction at a position, and the next one starts behind it. -/
def Found (final : Array UInt8) (pc : Nat) (i : Insn) (next : Nat) : Prop :=
  ∃ size, decode final pc = some (i, size) ∧ pc + size = next

theorem Found.step (h : Found w.code s.pc i next) : step w s = i.run w next s := by
  obtain ⟨size, read, rfl⟩ := h
  simp [Machine.step, read]

end Insn

end ClassForge.Machine

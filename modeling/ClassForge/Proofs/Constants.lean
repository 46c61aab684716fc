import ClassForge.Proofs.Building
import ClassForge.Proofs.Evaluation
import ClassForge.Proofs.PoolRuns

/-! Constants are pushed as they are: by their own bytes, or from an entry of the pool that holds them. -/

namespace ClassForge

namespace Machine

open Insn

def Datum.constant? : Datum → Option Reference
  | .int n => some (.integer n.toUInt32)
  | .long n => some (.long n.toUInt64)
  | .ref _ => none

def fractions : List (Nat × Nat × (Nat → Reference)) :=
  [(0x0b, 3, fun n => .float (Binary.ofInt .single n).toUInt32),
   (0x0e, 2, fun n => .double (Binary.ofInt .double n).toUInt64)]

def pushed? (q : Pool) (bytes : List UInt8) : Option (Option Reference) :=
  match decode bytes.toArray 0 with
  | some (.push d, size) => if size = bytes.length then some d.constant? else none
  | some (.constant index isWide, size) => do
    let r ← q.reference? index
    let w ← r.word?
    if size = bytes.length ∧ isWide = (w.size == 2) then some (some r) else none
  | _ =>
    match bytes with
    | [op] => (inRuns fractions op).map some
    | _ => none

variable {a : Code.Action Unit} {d : Datum}

theorem pushed?_of_push (h : Code.Writes a (.push d)) :
    ∃ bytes, a = Code.put bytes ∧ ∀ q, pushed? q bytes = some d.constant? := by
  obtain ⟨bytes, same, read⟩ := h
  refine ⟨bytes, same, fun q => ?_⟩
  simp [pushed?, read bytes.toArray 0 fun k _ => by simp]

theorem pushed?_of_constant (h : Code.Writes a (.constant index isWide)) :
    ∃ bytes, a = Code.put bytes ∧ pushed? .empty bytes = none ∧ ∀ {q : Pool} {r : Reference} {w : Word},
      q.reference? index = some r → r.word? = some w → isWide = (w.size == 2) → pushed? q bytes = some (some r) := by
  obtain ⟨bytes, same, read⟩ := h
  have found := read bytes.toArray 0 fun k _ => by simp
  have empty : Pool.empty.reference? index = none := by simp [Pool.reference?, Pool.get?, Pool.empty]
  refine ⟨bytes, same, by simp [pushed?, found, empty], fun entry word width => ?_⟩
  simp [pushed?, found, entry, word, width]

end Machine

namespace Assembler

open Machine

def Value.held : Value → Option Reference
  | .bool b => some (.integer (if b then 1 else 0))
  | v => v.reference?

theorem Value.pushed?_short {v : Value} (short : v.Short) :
    ∃ bytes, v.emit 0 = Code.put bytes ∧ ∀ q, pushed? q bytes = some v.held := by
  cases v with
  | null => exact pushed?_of_push (Expr.writes_short rfl short)
  | bool b => cases b <;> exact pushed?_of_push (Expr.writes_short rfl short)
  | int | long => exact pushed?_of_push (Expr.writes_short rfl short)
  | float b =>
    rcases short with rfl | rfl | rfl
    · exact ⟨[0x0b], rfl, fun _ => rfl⟩
    · exact ⟨[0x0c], rfl, fun _ => rfl⟩
    · exact ⟨[0x0d], rfl, fun _ => rfl⟩
  | double b =>
    rcases short with rfl | rfl
    · exact ⟨[0x0e], rfl, fun _ => rfl⟩
    · exact ⟨[0x0f], rfl, fun _ => rfl⟩
  | text | type => cases short

theorem Value.intern_short {v : Value} (short : v.Short) : v.intern = pure 0 := by
  cases v with
  | null | bool => rfl
  | int | long | float | double => exact if_pos short
  | text | type => cases short

/-- One instruction pushes the constant, with the entry that interning gives, as long as the pool
keeps it. The entry is 0 exactly where the instruction does without the pool. -/
theorem Value.emit_faithful (v : Value) (rs : List Pool.Request) :
    (v.Short → Yields v.intern (Pool.empty.after rs) 0 (Pool.empty.after rs)) ∧
    ∀ (p q : Pool) (ref : UInt16), Yields v.intern (Pool.empty.after rs) ref p → p.Le q →
      ∃ bytes, v.emit ref = Code.put bytes ∧ pushed? q bytes = some v.held ∧
        (ref = 0 ↔ ∀ q, pushed? q bytes = some v.held) := by
  refine ⟨fun short => by rw [intern_short short]; rfl, fun p q ref interned kept => ?_⟩
  have sound := (Pool.ordered_after .empty rs).1.sound
  rcases (v.interns_entered.finds interned sound).2 with ⟨short, rfl⟩ | ⟨long, entry, r, same, found⟩
  · obtain ⟨bytes, written, pushed⟩ := pushed?_short short
    exact ⟨bytes, written, pushed q, by simp [pushed]⟩
  · obtain ⟨bytes, written, without, pushed⟩ := pushed?_of_constant (Expr.writes_entry long entry)
    have held : v.held = some r := by
      cases v with
      | bool => cases same
      | _ => exact same
    rw [held]
    refine ⟨bytes, written, pushed (kept.reference? found) (word?_of_reference? same) rfl, fun zero => absurd zero entry, ?_⟩
    intro always
    rw [always] at without
    cases without

/-- A NaN keeps its payload. -/
theorem Value.emit_faithful_nan :
    let p := Pool.empty.push (.float 0x7fc00001)
    Yields (Value.float 0x7fc00001).intern .empty 1 p ∧ ∃ bytes, (Value.float 0x7fc00001).emit 1 = Code.put bytes ∧
      pushed? p bytes = some (some (.float 0x7fc00001)) := by
  obtain ⟨bytes, written, pushed, -⟩ := (Value.emit_faithful (.float 0x7fc00001) []).2 _ _ 1 rfl (.refl _)
  exact ⟨rfl, bytes, written, pushed⟩

end Assembler

end ClassForge

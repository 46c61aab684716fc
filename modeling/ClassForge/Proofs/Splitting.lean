import ClassForge.ClassFile.Code
import ClassForge.ClassFile.Instruction
import Mathlib.Data.List.Basic

/-! Splitting code into instructions, as a relation that grows at the end. -/

namespace ClassForge

open List

namespace Opcode

theorem forall_byte {P : Opcode → Prop} (h : ∀ n : Fin 256, P ⟨UInt8.ofFin n⟩) (op : Opcode) : P op := by
  have := h op.byte.toFin
  rwa [UInt8.ofFin_toFin] at this

theorem length_of_isBranch (op : Opcode) : op.isBranch = true → op.length = 3 := by
  revert op
  exact forall_byte (by decide +kernel)

theorem ne_wide_of_length (op : Opcode) : op.length ≠ 0 → op ≠ .wide := by
  rintro h rfl
  exact h (by decide)

end Opcode

namespace Instruction

variable {i : Instruction} {is : List Instruction} {code operands : List UInt8} {pc : Nat} {op : UInt8}

/-- `Splits pc code is`: the bytes, read from position `pc` on, are exactly the instructions. -/
inductive Splits : Nat → List UInt8 → List Instruction → Prop
  | nil {pc : Nat} : Splits pc [] []
  | cons {pc : Nat} {op : UInt8} {operands rest : List UInt8} {i : Instruction} {is : List Instruction} :
      read pc op operands = .ok (i, operands.length + 1) →
      Splits (pc + (operands.length + 1)) rest is → Splits pc (op :: (operands ++ rest)) (i :: is)

theorem splits_single (h : read pc op operands = .ok (i, operands.length + 1)) : Splits pc (op :: operands) [i] := by
  simpa using Splits.cons h .nil

theorem read_append (h : read pc op operands = .ok (i, operands.length + 1)) (rest : List UInt8) :
    read pc op (operands ++ rest) = .ok (i, operands.length + 1) := by
  unfold read at h ⊢
  dsimp only at h ⊢
  by_cases wide : (⟨op⟩ : Opcode) = .wide
  · rw [if_pos wide] at h ⊢
    match operands with
    | [] => simp at h
    | [a] => simp at h; split at h <;> simp at h
    | [a, b] => simp at h; split at h <;> simp at h
    | a :: b :: c :: more =>
      simp only [cons_append, length_cons, length_append] at h ⊢
      generalize (if (⟨a⟩ : Opcode) = .iinc then 6 else 4) = size at h ⊢
      by_cases short : more.length + 1 + 1 + 1 + 1 < size
      · simp [short] at h
      · rw [if_neg short] at h
        rw [if_neg (by omega)]
        exact h
  · rw [if_neg wide] at h ⊢
    split at h
    · simp at h
    · rename_i long
      rw [if_neg (by simp only [length_append]; omega)]
      match operands with
      | [] =>
        simp only [Except.ok.injEq, Prod.mk.injEq, length_nil] at h
        have size : (⟨op⟩ : Opcode).length = 1 := by omega
        have plain : (⟨op⟩ : Opcode).isBranch = false := by
          by_contra branch
          have := Opcode.length_of_isBranch ⟨op⟩ (by simpa using branch)
          omega
        match rest with
        | [] => simp [h.1, size]
        | [a] => simp [h.1, size]
        | a :: b :: more => simp [h.1, size, plain]
      | [a] =>
        have size : (⟨op⟩ : Opcode).length = 2 := by
          simp only [length_cons, length_nil] at h long
          split at h
          · assumption
          · simp only [Except.ok.injEq, Prod.mk.injEq] at h
            omega
        have plain : (⟨op⟩ : Opcode).isBranch = false := by
          by_contra branch
          have := Opcode.length_of_isBranch ⟨op⟩ (by simpa using branch)
          omega
        match rest with
        | [] => simpa [size] using h
        | b :: more => simpa [size, plain] using h
      | a :: b :: more => simpa using h

theorem read_pc (h : read pc op operands = .ok (i, size)) : i.pc = pc := by
  unfold read at h
  dsimp only at h
  repeat' split at h
  all_goals
    first
    | (simp only [Except.ok.injEq, Prod.mk.injEq] at h; rw [← h.1])
    | (cases h)

theorem splitFrom_of_splits (h : Splits pc code is) (enough : code.length ≤ fuel) :
    splitFrom fuel pc code done = .ok (done.reverse ++ is) := by
  induction h generalizing fuel done with
  | nil => simp [splitFrom]
  | @cons pc op operands rest i is one _ ih =>
    simp only [length_cons, length_append] at enough
    obtain ⟨fuel, rfl⟩ : ∃ n, fuel = n + 1 := ⟨fuel - 1, by omega⟩
    simp only [splitFrom, read_append one rest, Nat.add_sub_cancel, drop_left]
    rw [ih (by omega)]
    simp

theorem split_of_splits (h : Splits 0 code is) : split code = .ok is := by
  unfold split
  rw [splitFrom_of_splits h (Nat.le_refl _), reverse_nil, nil_append]

namespace Splits

variable {pc : Nat} {code : List UInt8} {is : List Instruction}

theorem append (h : Splits pc code is) (k : Splits (pc + code.length) more js) :
    Splits pc (code ++ more) (is ++ js) := by
  induction h with
  | nil => simpa using k
  | @cons pc op operands rest i is one _ ih =>
    simp only [cons_append, append_assoc]
    refine .cons one (ih ?_)
    simpa [Nat.add_assoc, Nat.add_comm, Nat.add_left_comm] using k

theorem pc_bounds (h : Splits pc code is) : ∀ i ∈ is, pc ≤ i.pc ∧ i.pc < pc + code.length := by
  induction h with
  | nil => simp
  | @cons pc op operands rest i is one _ ih =>
    intro j hj
    simp only [length_cons, length_append]
    rcases mem_cons.mp hj with rfl | hj
    · rw [read_pc one]
      omega
    · have := ih j hj
      omega

theorem pairwise (h : Splits pc code is) : is.Pairwise fun i j => i.pc < j.pc := by
  induction h with
  | nil => exact .nil
  | cons one tail ih =>
    refine .cons (fun j hj => ?_) ih
    have := tail.pc_bounds j hj
    have := read_pc one
    omega

end Splits

variable {i : Instruction} {is : List Instruction} {code operands : List UInt8} {pc site : Nat} {op : Opcode}

def shift (n : Nat) (i : Instruction) : Instruction :=
  { i with pc := i.pc + n, target := if i.op.isBranch && !i.wide then i.target + n else i.target }

theorem read_shift {op : UInt8} (n : Nat)
    (h : read pc op operands = .ok (i, size)) : read (pc + n) op operands = .ok (i.shift n, size) := by
  unfold read at h ⊢
  dsimp only at h ⊢
  by_cases wide : (⟨op⟩ : Opcode) = .wide
  · rw [if_pos wide] at h ⊢
    cases operands with
    | nil => cases h
    | cons inner rest =>
      dsimp only at h ⊢
      generalize (if (⟨inner⟩ : Opcode) = .iinc then 6 else 4) = long at h ⊢
      by_cases short : (inner :: rest).length + 1 < long
      · rw [if_pos short] at h
        cases h
      · rw [if_neg short] at h ⊢
        obtain ⟨rfl, rfl⟩ := h
        simp [shift]
  · rw [if_neg wide] at h ⊢
    split at h
    · cases h
    · rename_i long
      rw [if_neg long]
      by_cases branch : (⟨op⟩ : Opcode).isBranch = true
      · have three := Opcode.length_of_isBranch ⟨op⟩ branch
        match operands with
        | [] => simp [three] at long
        | [_] => simp [three] at long
        | a :: b :: rest =>
          simp only [branch, if_true, Except.ok.injEq, Prod.mk.injEq] at h ⊢
          obtain ⟨rfl, rfl⟩ := h
          simp [shift, branch, Int.add_right_comm]
      · match operands with
        | [] =>
          obtain ⟨rfl, rfl⟩ := h
          simp [shift, branch]
        | [_] =>
          simp only at h ⊢
          split at h
          all_goals
            obtain ⟨rfl, rfl⟩ := h
            simp_all [shift]
        | a :: b :: rest =>
          repeat' split at h
          all_goals
            obtain ⟨rfl, rfl⟩ := h
            simp_all [shift]

theorem Splits.shift (h : Splits pc code is) (n : Nat) : Splits (pc + n) code (is.map (Instruction.shift n)) := by
  induction h with
  | nil => exact .nil
  | @cons pc op operands rest i is one _ ih =>
    refine .cons (read_shift n one) ?_
    rwa [Nat.add_right_comm]

def retarget (site : Nat) (target : Int) (i : Instruction) : Instruction :=
  if i.pc = site then { i with target } else i

section

variable (site : Nat) (target : Int) (i : Instruction)

@[simp] theorem retarget_pc : (i.retarget site target).pc = i.pc := by
  unfold retarget
  split <;> rfl

@[simp] theorem retarget_op : (i.retarget site target).op = i.op := by
  unfold retarget
  split <;> rfl

@[simp] theorem retarget_wide : (i.retarget site target).wide = i.wide := by
  unfold retarget
  split <;> rfl

@[simp] theorem retarget_index : (i.retarget site target).index = i.index := by
  unfold retarget
  split <;> rfl

end

theorem retarget_of_ne {target : Int} (h : i.pc ≠ site) : i.retarget site target = i := if_neg h

theorem read_branch (pc : Nat) (branch : op.isBranch = true) (a b : UInt8) :
    read pc op.byte [a, b] = .ok ({ pc, op, target := pc + offset a b }, 3) := by
  have three := op.length_of_isBranch branch
  have narrow := op.ne_wide_of_length (by omega)
  unfold read
  simp [three, narrow, branch]

theorem operands_of_branch {op : UInt8}
    (h : read pc op operands = .ok (i, operands.length + 1)) (branch : i.op.isBranch = true) (narrow : i.wide = false) :
    i.op = ⟨op⟩ ∧ ∃ a b, operands = [a, b] ∧ i = { pc, op := i.op, target := pc + offset a b } := by
  by_cases wide : (⟨op⟩ : Opcode) = .wide
  · unfold read at h
    rw [if_pos wide] at h
    cases operands with
    | nil => cases h
    | cons inner rest =>
      dsimp only at h
      generalize (if (⟨inner⟩ : Opcode) = .iinc then 6 else 4) = long at h
      by_cases short : (inner :: rest).length + 1 < long
      · rw [if_pos short] at h
        cases h
      · rw [if_neg short] at h
        simp only [Except.ok.injEq, Prod.mk.injEq] at h
        rw [← h.1] at narrow
        cases narrow
  · have same : i.op = ⟨op⟩ := by
      unfold read at h
      dsimp only at h
      rw [if_neg wide] at h
      repeat' split at h
      all_goals first
        | cases h
        | (simp only [Except.ok.injEq, Prod.mk.injEq] at h
           rw [← h.1])
    rw [same] at branch
    have three := Opcode.length_of_isBranch ⟨op⟩ branch
    have size : operands.length + 1 = 3 := by
      unfold read at h
      dsimp only at h
      rw [if_neg wide] at h
      repeat' split at h
      all_goals first
        | (simp only [Except.ok.injEq, Prod.mk.injEq] at h
           omega)
        | cases h
    match operands with
    | [a, b] =>
      have known := read_branch pc branch a b
      rw [known] at h
      simp only [Except.ok.injEq, Prod.mk.injEq] at h
      exact ⟨same, a, b, rfl, by rw [same, ← h.1]⟩

theorem Splits.retarget (h : Splits pc code is) (hi : i ∈ is) (site : i.pc = pc + k) (branch : i.op.isBranch = true)
    (narrow : i.wide = false) (a b : UInt8) : Splits pc ((code.set (k + 1) a).set (k + 2) b)
      (is.map (Instruction.retarget (pc + k) (pc + k + offset a b))) := by
  induction h generalizing k with
  | nil => cases hi
  | @cons pc op operands rest j is one tail ih =>
    have first := read_pc one
    by_cases zero : k = 0
    · subst zero
      have head : i = j := by
        rcases mem_cons.mp hi with head | inTail
        · exact head
        · have := tail.pc_bounds i inTail
          omega
      subst head
      obtain ⟨same, x, y, rfl, form⟩ := operands_of_branch one branch narrow
      have others : is.map (Instruction.retarget (pc + 0) (pc + 0 + offset a b)) = is := by
        have same : ∀ l ∈ is, Instruction.retarget (pc + 0) (pc + 0 + offset a b) l = l := by
          intro l hl
          have := tail.pc_bounds l hl
          exact retarget_of_ne (by omega)
        simpa using map_congr_left same
      have changed : Instruction.retarget (pc + 0) (pc + 0 + offset a b) i =
          { pc, op := i.op, target := pc + offset a b } := by
        rw [form]
        simp [Instruction.retarget]
      simp only [map_cons, Int.natCast_zero] at others changed ⊢
      rw [others, changed]
      have known := read_branch pc branch a b
      rw [same] at known ⊢
      exact Splits.cons known tail
    · have inTail : i ∈ is := by
        rcases mem_cons.mp hi with rfl | inTail
        · omega
        · exact inTail
      have bounds := tail.pc_bounds i inTail
      obtain ⟨n, rfl⟩ : ∃ n, k = operands.length + 1 + n := ⟨k - (operands.length + 1), by omega⟩
      have rest' := ih (k := n) inTail (by omega)
      have setRest : ∀ (v : UInt8) (d : Nat) (r : List UInt8),
          (op :: (operands ++ r)).set (operands.length + 1 + n + d) v =
            op :: (operands ++ r.set (n + d) v) := by
        intro v d r
        have : operands.length + 1 + n + d = (operands.length + (n + d)) + 1 := by omega
        rw [this, set_cons_succ, set_append_right _ _ (by omega)]
        simp
      rw [setRest, setRest, map_cons, retarget_of_ne (by omega)]
      refine .cons one ?_
      have place : pc + (operands.length + 1) + n = pc + (operands.length + 1 + n) := by omega
      simpa [place, Int.add_assoc] using rest'

/-! The forms of instructions that are written. -/

theorem read_plain (pc : Nat) (h : op.length = 1) : read pc op.byte [] = .ok ({ pc, op }, 1) := by
  have narrow := op.ne_wide_of_length (by omega)
  unfold read
  simp [h, narrow]

theorem read_u1 (pc : Nat) (h : op.length = 2) (n : UInt8) :
    read pc op.byte [n] = .ok ({ pc, op, index := n.toNat }, 2) := by
  have narrow := op.ne_wide_of_length (by omega)
  unfold read
  simp [h, narrow]

theorem read_u2 (pc : Nat) (h : op.length = 3) (straight : op.isBranch = false) (a b : UInt8) :
    read pc op.byte [a, b] = .ok ({ pc, op, index := word a b }, 3) := by
  have narrow := op.ne_wide_of_length (by omega)
  unfold read
  simp [h, narrow, straight]

theorem read_interface (pc : Nat) (a b c d : UInt8) :
    read pc Opcode.invokeinterface.byte [a, b, c, d] = .ok ({ pc, op := .invokeinterface, index := word a b }, 5) := by
  rfl

theorem read_wide (pc : Nat) (h : op ≠ .iinc) (a b : UInt8) :
    read pc Opcode.wide.byte [op.byte, a, b] = .ok ({ pc, op, wide := true, index := word a b }, 4) := by
  unfold read
  simp [h]

theorem read_wide_iinc (pc : Nat) (a b c d : UInt8) :
    read pc Opcode.wide.byte [Opcode.iinc.byte, a, b, c, d] =
      .ok ({ pc, op := .iinc, wide := true, index := word a b }, 6) := by
  rfl

theorem word_be16 (n : UInt16) : word (n >>> 8).toUInt8 n.toUInt8 = n.toNat := by
  have bound := n.toNat_lt
  simp [word, Nat.shiftRight_eq_div_pow]
  omega

theorem offset_low16 (low : -32768 ≤ d) (high : d ≤ 32767) :
    offset (Code.low16 d >>> 8).toUInt8 (Code.low16 d).toUInt8 = d := by
  have value : (Code.low16 d).toNat = (d % 65536).toNat := by
    simp only [Code.low16, UInt16.toNat_ofNat']
    omega
  unfold offset
  rw [word_be16, value]
  split <;> omega

end Instruction

end ClassForge

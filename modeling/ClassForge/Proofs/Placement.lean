import ClassForge.ClassFile.Check
import ClassForge.Proofs.RoundTrip
import Std.Data.HashMap.Lemmas

/-! Where control goes: every branch and handler lands on an instruction, and the last instruction
leaves the body. -/

namespace ClassForge

open List ClassFile

namespace ClassFile

/-- The instructions of a body, with branches and handlers that land on them. -/
structure Placed (code : List UInt8) (handlers : List HandlerRow) (is : List Instruction) : Prop where
  splits : Instruction.split code = .ok is
  ends : ∃ last, is.getLast? = some last ∧ last.op.isTerminal = true
  lands : ∀ i ∈ is, 0 ≤ i.target ∨ i.op.isBranch = true → ∃ j ∈ is, i.target = j.pc
  guards : ∀ h ∈ handlers, h.start < h.stop ∧ (∃ j ∈ is, j.pc = h.start) ∧ (∃ j ∈ is, j.pc = h.pc) ∧
    (h.stop = code.length ∨ ∃ j ∈ is, j.pc = h.stop)

theorem contains_starts (is : List Instruction) (starts : Std.HashMap Nat Unit) (pc : Nat) :
    (is.foldl (fun m i => m.insert i.pc ()) starts).contains pc = true ↔ starts.contains pc = true ∨ ∃ j ∈ is, j.pc = pc := by
  induction is generalizing starts with
  | nil => simp
  | cons i is ih =>
    rw [foldl_cons, ih, Std.HashMap.contains_insert]
    simp only [Bool.or_eq_true, beq_iff_eq, exists_mem_cons_iff]
    tauto

theorem checkBranches_eq_ok (is : List Instruction) : checkBranches starts is = .ok () ↔
    ∀ i ∈ is, 0 ≤ i.target ∨ i.op.isBranch = true → 0 ≤ i.target ∧ starts.contains i.target.toNat = true := by
  induction is with
  | nil => simp [checkBranches]
  | cons i is ih =>
    rw [checkBranches, forall_mem_cons, ← ih]
    split_ifs with bad
    · simp only [false_iff, not_and]
      exact fun good => absurd (good bad.1) bad.2
    · exact ⟨fun rest => ⟨fun branch => not_not.mp fun away => bad ⟨branch, away⟩, rest⟩, And.right⟩

theorem checkHandlers_eq_ok (size n : Nat) (hs : List HandlerRow) : checkHandlers size starts n hs = .ok () ↔
    ∀ h ∈ hs, h.start < h.stop ∧ starts.contains h.start = true ∧ starts.contains h.pc = true ∧
      (h.stop = size ∨ starts.contains h.stop = true) := by
  induction hs generalizing n with
  | nil => simp [checkHandlers]
  | cons h hs ih =>
    rw [checkHandlers, forall_mem_cons]
    split_ifs with empty bounds
    · simp only [false_iff, not_and]
      exact fun good => absurd good.1 (Nat.not_lt.mpr empty)
    · simp only [Bool.and_eq_true, Bool.or_eq_true, beq_iff_eq] at bounds
      rw [ih]
      exact ⟨fun rest => ⟨⟨Nat.lt_of_not_le empty, bounds.1.1, bounds.1.2, bounds.2⟩, rest⟩, And.right⟩
    · simp only [Bool.and_eq_true, Bool.or_eq_true, beq_iff_eq] at bounds
      simp only [false_iff, not_and]
      exact fun good => absurd ⟨⟨good.2.1, good.2.2.1⟩, good.2.2.2⟩ bounds

theorem checkCode_eq_ok : checkCode code handlers = .ok () ↔ ∃ is, Placed code handlers is := by
  unfold checkCode
  cases splits : Instruction.split code with
  | error e =>
    simp only [reduceCtorEq, false_iff]
    rintro ⟨is, placed⟩
    cases splits.symm.trans placed.splits
  | ok is =>
    dsimp only
    have here : (∃ js, Placed code handlers js) ↔ Placed code handlers is := by
      constructor
      · rintro ⟨js, placed⟩
        cases splits.symm.trans placed.splits
        exact placed
      · exact fun placed => ⟨is, placed⟩
    rw [here]
    cases last : is.getLast? with
    | none =>
      simp only [reduceCtorEq, false_iff]
      rintro ⟨-, ⟨x, found, -⟩, -⟩
      cases last.symm.trans found
    | some x =>
      have starts (pc : Nat) : (is.foldl (fun m i => m.insert i.pc ()) ({} : Std.HashMap Nat Unit)).contains pc = true ↔
          ∃ j ∈ is, j.pc = pc := (contains_starts is {} pc).trans (by simp)
      have steps {a b : Except Defect Unit} {c : Bool} {e : Defect} :
          (do a; if c then b else throw e) = .ok () ↔ a = .ok () ∧ c = true ∧ b = .ok () := by
        cases a <;> cases c <;> simp [bind, Except.bind]
      rw [steps, checkBranches_eq_ok, checkHandlers_eq_ok]
      simp only [starts]
      constructor
      · rintro ⟨branches, terminal, guards⟩
        refine ⟨splits, ⟨x, last, terminal⟩, fun i hi branch => ?_, guards⟩
        obtain ⟨positive, j, hj, pc⟩ := branches i hi branch
        exact ⟨j, hj, by rw [pc, Int.toNat_of_nonneg positive]⟩
      · rintro ⟨-, ⟨y, found, terminal⟩, lands, guards⟩
        obtain rfl : x = y := Option.some.inj (last.symm.trans found)
        refine ⟨fun i hi branch => ?_, terminal, guards⟩
        obtain ⟨j, hj, target⟩ := lands i hi branch
        rw [target]
        exact ⟨Int.natCast_nonneg _, j, hj, rfl⟩

end ClassFile

namespace Instruction

theorem target_of_read {pc size : Nat} {op : UInt8}
    (h : read pc op operands = .ok (i, size)) (straight : i.op.isBranch = false) : i.target = -1 := by
  unfold read at h
  dsimp only at h
  repeat' split at h
  all_goals cases h
  any_goals rfl
  rename_i branch
  cases branch.symm.trans straight

theorem Splits.targets {pc : Nat} (h : Splits pc code is) : ∀ i ∈ is, i.op.isBranch = false → i.target = -1 := by
  induction h with
  | nil => simp
  | cons one _ ih => exact forall_mem_cons.mpr ⟨target_of_read one, ih⟩

end Instruction

theorem Falls.ends (h : Falls R (spots ++ [x]) none) : x.insn.op.isTerminal = true := by
  by_contra straight
  obtain ⟨e, next, -⟩ := (falls_append.mp h).2.1 (by simpa using straight)
  cases next

namespace Assembler

theorem Method.Complete.placed {P : Policy} {m : Method} {p : Pool} (h : m.Complete P p) :
    ∃ is, Placed m.code.bytes.toList (m.handlers.toList.map Handler.row) is := by
  obtain ⟨spots, cert, tables⟩ := h
  refine ⟨spots.map Spot.insn, Instruction.split_of_splits cert.splits, ?_, fun i hi branch => ?_, fun row hr => ?_⟩
  · obtain ⟨d, first, -⟩ := cert.starts
    obtain rfl | ⟨before, x, rfl⟩ := spots.eq_nil_or_concat
    · cases first
    · have falls := cert.falls
      rw [concat_eq_append] at falls
      exact ⟨x.insn, by simp, falls.ends⟩
  · obtain ⟨x, hx, rfl⟩ := mem_map.mp hi
    have branches : x.insn.op.isBranch = true := by
      by_contra straight
      have target := cert.splits.targets _ hi (by simpa using straight)
      simp_all
    obtain ⟨pos, target, e, ⟨y, hy, pc, -⟩ | ⟨-, missing⟩, -⟩ := cert.lands x hx branches (by simp)
    · exact ⟨y.insn, mem_map_of_mem hy, by rw [target, pc]⟩
    · cases missing
  · obtain ⟨k, hk, rfl⟩ := mem_map.mp hr
    have guard := tables.guards k (Array.mem_toList_iff.mp hk)
    have start : ∀ pos, (View.mk spots m.code.bytes.size none).IsStart pos →
        pos = m.code.bytes.toList.length ∨ ∃ j ∈ spots.map Spot.insn, j.pc = pos := by
      rintro pos (rfl | ⟨x, hx, pc⟩)
      · exact .inl rfl
      · exact .inr ⟨x.insn, mem_map_of_mem hx, pc⟩
    obtain ⟨d, ⟨x, hx, target, -⟩ | ⟨-, missing⟩, -⟩ := guard.entry
    · refine ⟨guard.range, (start _ guard.starts).resolve_left fun last => ?_, ⟨x.insn, mem_map_of_mem hx, target⟩,
        start _ guard.stops⟩
      have range := guard.range
      have inside := guard.inside
      rw [Array.length_toList] at last
      dsimp only at inside
      omega
    · cases missing

namespace Draft

variable {p q : Provider} {d d' : Draft} {access : Access} {name super : String} {interfaces : List String}
  {options : Options}

/-- Every body in a class file that calls end with passes the check. -/
theorem checkCode_written (made : create p access name super interfaces options tracer = (.ok d, recorder))
    (written : (d.after calls).bytes q = (.ok out, d')) : ∃ c, decode out.toList = .ok c ∧
      ∀ x ∈ c.methods, (x.attrs.map Attr.name).count "Code" ≤ 1 ∧ ("Code" ∈ x.attrs.map Attr.name →
        ∃ b, body? c.pool x = .ok b ∧ checkCode b.code b.handlers = .ok () ∧
          ∃ is, Placed b.code b.handlers is) := by
  obtain ⟨valid, wrote, -, c, read, -, shows⟩ := lax_written made written
  refine ⟨c, read, fun x hx => ?_⟩
  obtain ⟨i, hx⟩ := mem_iff_getElem?.mp hx
  refine ⟨?_, fun has => ?_⟩
  · obtain ⟨m, -, shown, -⟩ := shows.method hx
    rw [shown.attrs, count_attrNames]
    split <;> decide
  · obtain ⟨m, b, -, body, same, -, complete⟩ := valid.body wrote shows hx has
    have placed := complete.placed
    rw [← same.code, ← same.handlers] at placed
    exact ⟨b, body, checkCode_eq_ok.mpr placed, placed⟩

theorem checkCode_written_counter : ∃ out d', (counter.after counterCalls).bytes library = (.ok out, d') ∧
    ∃ c, decode out.toList = .ok c ∧
      ∀ x ∈ c.methods, (x.attrs.map Attr.name).count "Code" ≤ 1 ∧ ("Code" ∈ x.attrs.map Attr.name →
        ∃ b, body? c.pool x = .ok b ∧ checkCode b.code b.handlers = .ok () ∧
          ∃ is, Placed b.code b.handlers is) := by
  exact ⟨_, _, counter_written, checkCode_written counter_created counter_written⟩

end Draft

end Assembler

end ClassForge

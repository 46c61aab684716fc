import ClassForge.Proofs.Frames
import ClassForge.Proofs.Tables

/-! Paths of control through code, and what a certificate says about all of them. -/

namespace ClassForge

open List

namespace Instruction

/-- Where control goes from an instruction: to the next position, or where a branch leads. The
branches at `opened` lead nowhere yet, and `size` is the position behind the last instruction. -/
inductive Flows (is : List Instruction) (size : Nat) (opened : List Nat) : Instruction → Nat → Prop
  | next {k : Nat} {i : Instruction} : is[k]? = some i → i.op.isTerminal = false →
      Flows is size opened i ((is[k + 1]?).elim size (·.pc))
  | jump {i : Instruction} {pos : Nat} : i ∈ is → i.op.isBranch = true → i.pc ∉ opened → i.target = pos →
      Flows is size opened i pos

theorem Flows.mem (h : Flows is size opened i pos) : i ∈ is := by
  cases h with
  | next found => exact mem_of_getElem? found
  | jump mem => exact mem

/-- A way of control from the start to a position, with the instructions that were completed, the
last one first. One that a handler covers may fail, and then it is not completed. -/
inductive Path (is : List Instruction) (size : Nat) (opened : List Nat) (rows : List ClassFile.HandlerRow) :
    List Instruction → Nat → Prop
  | entry : Path is size opened rows [] 0
  | step {done : List Instruction} {i : Instruction} {pos : Nat} : Path is size opened rows done i.pc →
      Flows is size opened i pos → Path is size opened rows (i :: done) pos
  | raise {done : List Instruction} {i : Instruction} {h : ClassFile.HandlerRow} : Path is size opened rows done i.pc →
      i ∈ is → h ∈ rows → h.start ≤ i.pc → i.pc < h.stop → Path is size opened rows done h.pc

end Instruction

namespace Certified

open Instruction

variable {opened : List Nat} {k pos : Nat}

theorem state_at (cert : Certified R bytes opened spots here) (hx : x ∈ spots)
    (at_pc : (View.mk spots bytes.size here).At x.insn.pc d) : x.state = d := by
  rcases at_pc with ⟨y, hy, pc, rfl⟩ | ⟨pc, -⟩
  · rw [cert.pc_inj hx hy pc.symm]
  · exact absurd pc (Nat.ne_of_lt (cert.pc_lt hx))

theorem at_start (cert : Certified R bytes opened spots here) :
    ∃ d, (View.mk spots bytes.size here).At 0 d ∧ R.Weaker d R.entry := by
  obtain ⟨d, first, weaker⟩ := cert.starts
  refine ⟨d, ?_, weaker⟩
  have splits := cert.splits
  cases spots with
  | nil =>
    have empty : bytes.toList = [] := by
      generalize code : bytes.toList = bs at splits
      cases splits
      rfl
    exact .inr ⟨by simp [← Array.length_toList, empty], first⟩
  | cons x rest =>
    cases first
    refine .inl ⟨x, mem_cons_self, ?_, rfl⟩
    generalize code : bytes.toList = bs at splits
    cases splits with
    | cons one _ => exact read_pc one

theorem falls_at (falls : Falls R spots here) (found : spots[k]? = some x) (straight : x.insn.op.isTerminal = false) :
    ∃ e, stateBefore (spots.drop (k + 1)) here = some e ∧ R.Passes x.insn x.state e := by
  induction spots generalizing k with
  | nil => cases found
  | cons y rest ih =>
    cases k with
    | zero =>
      cases found
      exact falls.1 straight
    | succ k => exact ih falls.2 found

theorem flows (cert : Certified R bytes opened spots here) (hx : x ∈ spots)
    (flows : Flows (spots.map Spot.insn) bytes.size opened x.insn pos) :
    ∃ e, (View.mk spots bytes.size here).At pos e ∧ R.Passes x.insn x.state e := by
  generalize same : x.insn = i at flows
  cases flows with
  | @next k _ found straight =>
    rw [List.getElem?_map, Option.map_eq_some_iff] at found
    obtain ⟨y, found, rfl⟩ := found
    obtain rfl := cert.pc_inj hx (List.mem_of_getElem? found) (congrArg Instruction.pc same)
    obtain ⟨e, next, passes⟩ := falls_at cert.falls found straight
    refine ⟨e, ?_, passes⟩
    rw [List.getElem?_map]
    cases behind : spots[k + 1]? with
    | none =>
      rw [List.drop_eq_nil_of_le (List.getElem?_eq_none_iff.mp behind)] at next
      exact .inr ⟨rfl, next⟩
    | some z =>
      obtain ⟨inside, rfl⟩ := List.getElem?_eq_some_iff.mp behind
      rw [List.drop_eq_getElem_cons inside] at next
      cases next
      exact .inl ⟨_, List.getElem_mem inside, rfl, rfl⟩
  | jump _ branch shut target =>
    obtain ⟨pos', target', e, arrives, passes⟩ := cert.lands x hx (same ▸ branch) (same ▸ shut)
    obtain rfl : pos' = pos := Int.ofNat_inj.mp (target'.symm.trans (same ▸ target))
    exact ⟨e, arrives, same ▸ passes⟩

theorem known_of_path {handlers : List Assembler.Handler} (cert : Certified R bytes opened spots here)
    (guards : ∀ h ∈ handlers, h.Guards R ⟨spots, bytes.size, here⟩)
    (path : Path (spots.map Spot.insn) bytes.size opened (handlers.map Assembler.Handler.row) done pos) :
    ∃ d, (View.mk spots bytes.size here).At pos d ∧
      ∀ slot ∈ d.known, slot ∈ R.given ∨ ∃ j ∈ done, j.writeSlot? = some slot := by
  induction path with
  | entry =>
    obtain ⟨d, start, weaker⟩ := cert.at_start
    exact ⟨d, start, fun slot hs => .inl (weaker.known hs)⟩
  | @step done i pos _ flow ih =>
    obtain ⟨x, hx, rfl⟩ := mem_map.mp flow.mem
    obtain ⟨d, arrives, written⟩ := ih
    obtain rfl := cert.state_at hx arrives
    obtain ⟨e, next, passes⟩ := cert.flows hx flow
    refine ⟨e, next, fun slot hs => ?_⟩
    rcases passes.known slot hs with before | now
    · exact (written slot before).imp id fun ⟨j, hj, writes⟩ => ⟨j, mem_cons_of_mem _ hj, writes⟩
    · exact .inr ⟨x.insn, mem_cons_self, now⟩
  | @raise done i row _ mem hr start stop ih =>
    obtain ⟨x, hx, rfl⟩ := mem_map.mp mem
    obtain ⟨h, hh, rfl⟩ := mem_map.mp hr
    obtain ⟨d, arrives, written⟩ := ih
    obtain rfl := cert.state_at hx arrives
    obtain ⟨e, entry, -, covers⟩ := (guards h hh).entry
    exact ⟨e, entry, fun slot hs => written slot (covers x hx start stop hs)⟩

end Certified

end ClassForge

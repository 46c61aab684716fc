import ClassForge.Proofs.Effect
import ClassForge.Proofs.Splitting
import Mathlib.Data.List.Nodup
import Mathlib.Data.Set.Basic

/-! Certificates of code under construction: a state for every instruction, such that each way from
one to another hands on what the other asks for. -/

namespace ClassForge

open Instruction List

/-- What is known when an instruction starts: the operand stack and the slots that hold a value. -/
structure State where
  stack : List Word
  known : Set Nat

/-- What certificates answer for. Where types are not followed, stacks say nothing; where reads are
not followed, slots may be read unknown. -/
structure Rules where
  typed : Prop
  strict : Prop
  pool : Pool
  limit : Nat
  given : Set Nat
  holds : Nat → Kind → Prop
  named : Opcode → Reference → Prop
  caught : String → Prop

namespace Rules

/-- The entry stands for something that the instruction may refer to. -/
def Names (R : Rules) (op : Opcode) (index : UInt16) : Prop :=
  ∃ r, R.pool.reference? index = some r ∧ R.named op r

def entry (R : Rules) : State := ⟨[], R.given⟩

structure Weaker (R : Rules) (d e : State) : Prop where
  stack : R.typed → d.stack = e.stack
  known : d.known ⊆ e.known

namespace Weaker

variable {R : Rules} {d e : State}

theorem refl (d : State) : R.Weaker d d := ⟨fun _ => rfl, fun _ h => h⟩

theorem trans (h : R.Weaker d e) (k : R.Weaker e f) : R.Weaker d f :=
  ⟨fun typed => (h.stack typed).trans (k.stack typed), h.known.trans k.known⟩

end Weaker

variable {i : Instruction} {R : Rules} {d e : State}

structure Admits (R : Rules) (i : Instruction) (d : State) : Prop where
  reads : R.strict → ∀ slot, i.readSlot? = some slot → slot ∈ d.known
  slots : ∀ slot, i.readSlot? = some slot ∨ i.writeSlot? = some slot → ∃ k, i.Touches slot k ∧ R.holds slot k
  fits : R.typed → Word.depth d.stack ≤ R.limit
  pops : R.typed → ∃ after, i.Moves R.pool d.stack after
  names : i.op.takesEntry = true → R.Names i.op i.entry

structure Passes (R : Rules) (i : Instruction) (d e : State) : Prop where
  moves : R.typed → i.Moves R.pool d.stack e.stack
  known : ∀ slot ∈ e.known, slot ∈ d.known ∨ i.writeSlot? = some slot

theorem Passes.weaken (h : R.Passes i d e) (w : R.Weaker f e) : R.Passes i d f :=
  ⟨fun typed => w.stack typed ▸ h.moves typed, fun slot hs => h.known slot (w.known hs)⟩

theorem Passes.sameForm (h : R.Passes j d e) (same : i.SameForm j) : R.Passes i d e :=
  ⟨fun typed => same.moves (h.moves typed), fun slot hs => by
    rw [same.writeSlot?]
    exact h.known slot hs⟩

theorem Admits.sameForm (h : R.Admits j d) (same : i.SameForm j) : R.Admits i d :=
  ⟨fun strict slot hs => h.reads strict slot (by rwa [← same.readSlot?]), by
    simpa only [Touches, same.readSlot?, same.writeSlot?, same.op, same.index] using h.slots, h.fits, fun typed =>
    let ⟨after, moves⟩ := h.pops typed
    ⟨after, same.moves moves⟩, by rw [same.op, Instruction.entry, same.index]; exact h.names⟩

end Rules

/-- Rules that ask for no more: the pool has more entries, or the stack may grow higher. -/
structure Rules.Le (R S : Rules) : Prop where
  typed : S.typed → R.typed
  strict : S.strict → R.strict
  given : S.given = R.given
  holds : ∀ slot k, R.holds slot k → S.holds slot k
  limit : R.limit ≤ S.limit
  pool : R.pool.Le S.pool
  named : ∀ op r, R.named op r → S.named op r
  caught : ∀ name, R.caught name → S.caught name

namespace Rules.Le

variable {R S : Rules} {i : Instruction} {d e : State}

theorem refl (R : Rules) : R.Le R := ⟨id, id, rfl, fun _ _ => id, Nat.le_refl _, .refl _, fun _ _ => id, fun _ => id⟩

theorem names (h : R.Le S) {op : Opcode} {index : UInt16} (n : R.Names op index) : S.Names op index :=
  let ⟨r, found, named⟩ := n
  ⟨r, h.pool.reference? found, h.named op r named⟩

theorem weaker (h : R.Le S) (w : R.Weaker d e) : S.Weaker d e :=
  ⟨fun typed => w.stack (h.typed typed), w.known⟩

theorem passes (h : R.Le S) (p : R.Passes i d e) : S.Passes i d e :=
  ⟨fun typed => h.pool.moves (p.moves (h.typed typed)), p.known⟩

theorem admits (h : R.Le S) (a : R.Admits i d) : S.Admits i d :=
  ⟨fun strict => a.reads (h.strict strict), fun slot hs => (a.slots slot hs).imp fun k => And.imp_right (h.holds slot k),
    fun typed => Nat.le_trans (a.fits (h.typed typed)) h.limit,
    fun typed =>
      let ⟨after, moves⟩ := a.pops (h.typed typed)
      ⟨after, h.pool.moves moves⟩,
    fun takes => h.names (a.names takes)⟩

end Rules.Le

structure Spot where
  insn : Instruction
  state : State

namespace Spot

def retarget (site : Nat) (target : Int) (x : Spot) : Spot :=
  { x with insn := x.insn.retarget site target }

structure Like (x y : Spot) : Prop where
  pc : x.insn.pc = y.insn.pc
  form : x.insn.SameForm y.insn
  state : x.state = y.state

theorem Like.refl (x : Spot) : x.Like x := ⟨rfl, .refl _, rfl⟩

theorem Like.trans {x y z : Spot} (h : x.Like y) (k : y.Like z) : x.Like z :=
  ⟨h.pc.trans k.pc, h.form.trans k.form, h.state.trans k.state⟩

theorem like_retarget (site : Nat) (target : Int) (x : Spot) : (x.retarget site target).Like x := by
  refine ⟨?_, ⟨?_, ?_, ?_⟩, rfl⟩ <;> simp [retarget]

end Spot

/-- Code with the states of its instructions, and that at its end, unless the end cannot be reached. -/
structure View where
  spots : List Spot
  size : Nat
  here : Option State

def View.At (v : View) (pos : Nat) (d : State) : Prop :=
  (∃ x ∈ v.spots, x.insn.pc = pos ∧ x.state = d) ∨ (pos = v.size ∧ v.here = some d)

def View.IsStart (v : View) (pos : Nat) : Prop := pos = v.size ∨ ∃ x ∈ v.spots, x.insn.pc = pos

variable {site : Nat} {spots : List Spot} {here : Option State} {R S : Rules} {d e : State}

def stateBefore (spots : List Spot) (here : Option State) : Option State :=
  match spots with
  | [] => here
  | x :: _ => some x.state

/-- Each instruction that does not leave the line hands its successor what that asks for. -/
def Falls (R : Rules) : List Spot → Option State → Prop
  | [], _ => True
  | x :: rest, here =>
    (x.insn.op.isTerminal = false → ∃ e, stateBefore rest here = some e ∧ R.Passes x.insn x.state e) ∧
      Falls R rest here

theorem stateBefore_append (xs ys : List Spot) (here : Option State) :
    stateBefore (xs ++ ys) here = stateBefore xs (stateBefore ys here) := by
  cases xs <;> rfl

theorem falls_append : Falls R (xs ++ ys) here ↔ Falls R xs (stateBefore ys here) ∧ Falls R ys here := by
  induction xs with
  | nil => simp [Falls]
  | cons x xs ih => simp [Falls, ih, stateBefore_append, and_assoc]

theorem Falls.weaken (h : Falls R spots here) (w : ∀ d, here = some d → ∃ e, here' = some e ∧ R.Weaker e d) :
    Falls R spots here' := by
  induction spots with
  | nil => trivial
  | cons x rest ih =>
    refine ⟨fun straight => ?_, ih h.2⟩
    obtain ⟨d, next, passes⟩ := h.1 straight
    cases rest with
    | nil =>
      obtain ⟨e, found, weaker⟩ := w d next
      exact ⟨e, found, passes.weaken weaker⟩
    | cons y rest => exact ⟨d, next, passes⟩

structure Certified (R : Rules) (bytes : Array UInt8) (opened : List Nat) (spots : List Spot)
    (here : Option State) : Prop where
  splits : Splits 0 bytes.toList (spots.map Spot.insn)
  starts : ∃ d, stateBefore spots here = some d ∧ R.Weaker d R.entry
  admits : ∀ x ∈ spots, R.Admits x.insn x.state
  narrow : ∀ x ∈ spots, x.insn.op.isBranch = true → x.insn.wide = false
  falls : Falls R spots here
  lands : ∀ x ∈ spots, x.insn.op.isBranch = true → x.insn.pc ∉ opened →
    ∃ pos : Nat, x.insn.target = pos ∧
      ∃ e, (View.mk spots bytes.size here).At pos e ∧ R.Passes x.insn x.state e

def Carries (R : Rules) (spots : List Spot) (site : Nat) (e : State) : Prop :=
  ∃ x ∈ spots, x.insn.pc = site ∧ x.insn.op.isBranch = true ∧ R.Passes x.insn x.state e

theorem Carries.weaken (h : Carries R spots site d) (w : R.Weaker e d) : Carries R spots site e := by
  obtain ⟨x, hx, pc, branch, passes⟩ := h
  exact ⟨x, hx, pc, branch, passes.weaken w⟩

theorem Carries.mono (h : Carries R spots site e) (le : R.Le S) : Carries S spots site e := by
  obtain ⟨x, hx, pc, branch, passes⟩ := h
  exact ⟨x, hx, pc, branch, le.passes passes⟩

theorem Falls.mono (h : Falls R spots here) (le : R.Le S) : Falls S spots here := by
  induction spots with
  | nil => trivial
  | cons x rest ih =>
    refine ⟨fun straight => ?_, ih h.2⟩
    obtain ⟨e, next, passes⟩ := h.1 straight
    exact ⟨e, next, le.passes passes⟩

theorem Certified.mono (h : Certified R bytes opened spots here) (le : R.Le S) :
    Certified S bytes opened spots here where
  splits := h.splits
  starts := by
    obtain ⟨d, found, weaker⟩ := h.starts
    rw [Rules.entry, ← le.given] at weaker
    exact ⟨d, found, le.weaker weaker⟩
  admits x hx := le.admits (h.admits x hx)
  narrow := h.narrow
  falls := h.falls.mono le
  lands x hx branch shut := by
    obtain ⟨pos, target, e, at_pos, passes⟩ := h.lands x hx branch shut
    exact ⟨pos, target, e, at_pos, le.passes passes⟩

/-- The later view keeps what the earlier one says. New spots lie behind the earlier code and know
at least `floor`. -/
structure View.Grows (R : Rules) (floor : Set Nat) (v w : View) : Prop where
  size : v.size ≤ w.size
  old : ∀ x ∈ v.spots, ∃ y ∈ w.spots, y.Like x
  new : ∀ y ∈ w.spots, (∃ x ∈ v.spots, y.Like x) ∨ v.size ≤ y.insn.pc ∧ floor ⊆ y.state.known
  states : ∀ pos d, v.At pos d → ∃ e, w.At pos e ∧ R.Weaker e d
  ends : w.IsStart v.size
  /-- Control that arrives at the end is lost by an instruction only. -/
  lasts : w.size = v.size → v.here.isSome = true → w.here.isSome = true

namespace View.Grows

variable {R : Rules} {floor : Set Nat} {u v w : View}

theorem refl (R : Rules) (floor : Set Nat) (v : View) : v.Grows R floor v where
  size := Nat.le_refl _
  old x hx := ⟨x, hx, .refl x⟩
  new y hy := .inl ⟨y, hy, .refl y⟩
  states _ d h := ⟨d, h, .refl d⟩
  ends := .inl rfl
  lasts _ h := h

theorem isStart (h : v.Grows R floor w) (start : v.IsStart pos) : w.IsStart pos := by
  rcases start with rfl | ⟨x, hx, rfl⟩
  · exact h.ends
  · obtain ⟨y, hy, like⟩ := h.old x hx
    exact .inr ⟨y, hy, like.pc⟩

theorem trans (h : u.Grows R floor v) (k : v.Grows R floor w) : u.Grows R floor w where
  size := Nat.le_trans h.size k.size
  old x hx := by
    obtain ⟨y, hy, xy⟩ := h.old x hx
    obtain ⟨z, hz, yz⟩ := k.old y hy
    exact ⟨z, hz, yz.trans xy⟩
  new z hz := by
    rcases k.new z hz with ⟨y, hy, zy⟩ | ⟨behind, above⟩
    · rcases h.new y hy with ⟨x, hx, yx⟩ | ⟨behind, above⟩
      · exact .inl ⟨x, hx, zy.trans yx⟩
      · exact .inr ⟨zy.pc ▸ behind, zy.state ▸ above⟩
    · exact .inr ⟨Nat.le_trans h.size behind, above⟩
  states pos d hd := by
    obtain ⟨e, he, ed⟩ := h.states pos d hd
    obtain ⟨f, hf, fe⟩ := k.states pos e he
    exact ⟨f, hf, fe.trans ed⟩
  ends := k.isStart h.ends
  lasts same here := by
    have first := h.size
    have second := k.size
    exact k.lasts (by omega) (h.lasts (by omega) here)

theorem carries (h : v.Grows R floor w) (c : Carries R' v.spots site e) : Carries R' w.spots site e := by
  obtain ⟨x, hx, pc, branch, passes⟩ := c
  obtain ⟨y, hy, like⟩ := h.old x hx
  refine ⟨y, hy, like.pc.trans pc, by rw [like.form.op, branch], ?_⟩
  rw [like.state]
  exact passes.sameForm like.form

end View.Grows

theorem size_appendList (a : Array α) (xs : List α) : (a.appendList xs).size = a.size + xs.length := by
  simp [← Array.length_toList]

namespace Certified

variable {R : Rules} {bytes : Array UInt8} {opened : List Nat} {spots : List Spot} {here : Option State} {d e : State}
  {x y : Spot} {a op : UInt8}

section

variable (h : Certified R bytes opened spots here)

include h

theorem pc_lt (hx : x ∈ spots) : x.insn.pc < bytes.size := by
  have := h.splits.pc_bounds x.insn (mem_map_of_mem hx)
  simpa using this.2

theorem pc_inj (hx : x ∈ spots) (hy : y ∈ spots) (same : x.insn.pc = y.insn.pc) : x = y := by
  have ordered := pairwise_map.mp h.splits.pairwise
  have distinct : (spots.map fun x => x.insn.pc).Nodup :=
    pairwise_map.mpr (ordered.imp fun lt => Nat.ne_of_lt lt)
  exact inj_on_of_nodup_map distinct hx hy same

theorem mono_opened (sub : ∀ s ∈ opened, s ∈ opened') : Certified R bytes opened' spots here :=
  { h with lands := fun x hx branch shut => h.lands x hx branch fun inside => shut (sub _ inside) }

theorem rehere (floor : Set Nat)
    (w : ∀ d, here = some d → ∃ e, here' = some e ∧ R.Weaker e d) : Certified R bytes opened spots here' ∧
      (View.mk spots bytes.size here).Grows R floor ⟨spots, bytes.size, here'⟩ := by
  have grows : (View.mk spots bytes.size here).Grows R floor ⟨spots, bytes.size, here'⟩ :=
    { View.Grows.refl R floor _ with
      states := by
        rintro pos d (inside | ⟨rfl, found⟩)
        · exact ⟨d, .inl inside, .refl d⟩
        · obtain ⟨e, he, weaker⟩ := w d found
          exact ⟨e, .inr ⟨rfl, he⟩, weaker⟩
      lasts := by
        intro _ some
        obtain ⟨d, found⟩ := Option.isSome_iff_exists.mp some
        obtain ⟨e, he, -⟩ := w d found
        exact Option.isSome_iff_exists.mpr ⟨e, he⟩ }
  refine ⟨{ h with
    starts := ?_
    falls := h.falls.weaken w
    lands := ?_ }, grows⟩
  · obtain ⟨d, found, weaker⟩ := h.starts
    cases spots with
    | nil =>
      obtain ⟨e, he, less⟩ := w d found
      exact ⟨e, he, less.trans weaker⟩
    | cons x rest => exact ⟨d, found, weaker⟩
  · intro x hx branch shut
    obtain ⟨pos, target, d, at_pos, passes⟩ := h.lands x hx branch shut
    obtain ⟨e, he, weaker⟩ := grows.states pos d at_pos
    exact ⟨pos, target, e, he, passes.weaken weaker⟩

end

theorem push (h : Certified R bytes opened spots (some d))
    (one : read bytes.size op operands = .ok (i, operands.length + 1)) (admits : R.Admits i d)
    (narrow : i.op.isBranch = true → i.wide = false) (sub : ∀ s ∈ opened, s ∈ opened')
    (site : i.op.isBranch = true → bytes.size ∈ opened')
    (next : i.op.isTerminal = false → ∃ e, here' = some e ∧ R.Passes i d e) (above : floor ⊆ d.known) :
    Certified R (bytes.appendList (op :: operands)) opened' (spots ++ [⟨i, d⟩]) here' ∧
      (View.mk spots bytes.size (some d)).Grows R floor
        ⟨spots ++ [⟨i, d⟩], (bytes.appendList (op :: operands)).size, here'⟩ := by
  have pc : i.pc = bytes.size := read_pc one
  have grows : (View.mk spots bytes.size (some d)).Grows R floor
      ⟨spots ++ [⟨i, d⟩], (bytes.appendList (op :: operands)).size, here'⟩ :=
    { size := by rw [size_appendList]; exact Nat.le_add_right _ _
      old := fun x hx => ⟨x, mem_append_left _ hx, .refl x⟩
      new := by
        intro y hy
        rcases mem_append.mp hy with old | new
        · exact .inl ⟨y, old, .refl y⟩
        · rw [mem_singleton.mp new]
          exact .inr ⟨Nat.le_of_eq pc.symm, above⟩
      states := by
        rintro pos e (⟨x, hx, at_pos, state⟩ | ⟨rfl, state⟩)
        · exact ⟨e, .inl ⟨x, mem_append_left _ hx, at_pos, state⟩, .refl e⟩
        · cases state
          exact ⟨d, .inl ⟨⟨i, d⟩, by simp, pc, rfl⟩, .refl d⟩
      ends := .inr ⟨⟨i, d⟩, by simp, pc⟩
      lasts := by
        intro same
        have grown := size_appendList bytes (op :: operands)
        rw [length_cons] at grown
        dsimp only at same
        omega }
  refine ⟨{ splits := ?_, starts := ?_, admits := ?_, narrow := ?_, falls := ?_, lands := ?_ }, grows⟩
  · have single : Splits (0 + bytes.toList.length) (op :: operands) [i] := splits_single (by simpa using one)
    simpa using h.splits.append single
  · obtain ⟨e, found, weaker⟩ := h.starts
    refine ⟨e, ?_, weaker⟩
    rw [stateBefore_append]
    exact found
  · intro x hx
    rcases mem_append.mp hx with old | new
    · exact h.admits x old
    · rw [mem_singleton.mp new]
      exact admits
  · intro x hx
    rcases mem_append.mp hx with old | new
    · exact h.narrow x old
    · rw [mem_singleton.mp new]
      exact narrow
  · rw [falls_append]
    exact ⟨h.falls, next, trivial⟩
  · intro x hx branch shut
    rcases mem_append.mp hx with old | new
    · obtain ⟨pos, target, e, at_pos, passes⟩ := h.lands x old branch fun inside => shut (sub _ inside)
      obtain ⟨f, hf, weaker⟩ := grows.states pos e at_pos
      exact ⟨pos, target, f, hf, passes.weaken weaker⟩
    · rw [mem_singleton.mp new] at branch shut
      exact absurd (pc ▸ site branch) shut

theorem resolve (h : Certified R bytes opened spots here) (floor : Set Nat) {target : Nat}
    (carries : Carries R spots site e) (arrives : (View.mk spots bytes.size here).At target d)
    (weaker : R.Weaker d e) (distance : offset a b = (target : Int) - site)
    (sub : ∀ s ∈ opened, s = site ∨ s ∈ opened') :
    Certified R ((bytes.setIfInBounds (site + 1) a).setIfInBounds (site + 2) b) opened'
        (spots.map (Spot.retarget site target)) here ∧ (View.mk spots bytes.size here).Grows R floor
        ⟨spots.map (Spot.retarget site target), bytes.size, here⟩ := by
  have grows : (View.mk spots bytes.size here).Grows R floor
      ⟨spots.map (Spot.retarget site target), bytes.size, here⟩ :=
    { size := Nat.le_refl _
      old := fun x hx => ⟨_, mem_map_of_mem hx, Spot.like_retarget site target x⟩
      new := by
        intro y hy
        obtain ⟨x, hx, rfl⟩ := mem_map.mp hy
        exact .inl ⟨x, hx, Spot.like_retarget site target x⟩
      states := by
        rintro pos f (⟨x, hx, at_pos, state⟩ | at_end)
        · have like := Spot.like_retarget site target x
          exact ⟨f, .inl ⟨_, mem_map_of_mem hx, like.pc.trans at_pos, like.state.trans state⟩, .refl f⟩
        · exact ⟨f, .inr at_end, .refl f⟩
      ends := .inl rfl
      lasts := fun _ here => here }
  obtain ⟨y, hy, at_site, branch, passes⟩ := carries
  have size : ((bytes.setIfInBounds (site + 1) a).setIfInBounds (site + 2) b).size = bytes.size := by simp
  have before : ∀ xs : List Spot,
      stateBefore (xs.map (Spot.retarget site target)) here = stateBefore xs here := by
    intro xs
    cases xs <;> rfl
  refine ⟨{ splits := ?_, starts := ?_, admits := ?_, narrow := ?_, falls := ?_, lands := ?_ }, grows⟩
  · have patched := h.splits.retarget (mem_map_of_mem hy) (k := site) (by simpa using at_site) branch
      (h.narrow y hy branch) a b
    have reaches : ((0 : Nat) : Int) + site + offset a b = target := by
      omega
    rw [reaches] at patched
    simpa [Function.comp_def, Spot.retarget] using patched
  · rw [before]
    exact h.starts
  · intro x' hx'
    obtain ⟨x, hx, rfl⟩ := mem_map.mp hx'
    exact (h.admits x hx).sameForm (Spot.like_retarget site target x).form
  · intro x' hx'
    obtain ⟨x, hx, rfl⟩ := mem_map.mp hx'
    simpa [Spot.retarget] using h.narrow x hx
  · have keep : ∀ xs : List Spot, Falls R xs here → Falls R (xs.map (Spot.retarget site target)) here := by
      intro xs hxs
      induction xs with
      | nil => trivial
      | cons x rest ih =>
        refine ⟨fun straight => ?_, ih hxs.2⟩
        obtain ⟨f, next, ok⟩ := hxs.1 (by simpa [Spot.retarget] using straight)
        exact ⟨f, by rw [before, next], ok.sameForm (Spot.like_retarget site target x).form⟩
    exact keep spots h.falls
  · intro x' hx' isBranch shut
    obtain ⟨x, hx, rfl⟩ := mem_map.mp hx'
    have like := Spot.like_retarget site target x
    rw [like.form.op] at isBranch
    rw [like.pc] at shut
    rw [size]
    by_cases here_site : x.insn.pc = site
    · have same : x = y := h.pc_inj hx hy (here_site.trans at_site.symm)
      obtain ⟨f, hf, less⟩ := grows.states target d arrives
      refine ⟨target, by simp [Spot.retarget, Instruction.retarget, here_site], f, hf, ?_⟩
      rw [like.state, same]
      exact (passes.weaken (less.trans weaker)).sameForm (same ▸ like.form)
    · have open_elsewhere : x.insn.pc ∉ opened := fun inside =>
        (sub _ inside).elim here_site shut
      obtain ⟨pos, target', f, at_pos, ok⟩ := h.lands x hx isBranch open_elsewhere
      obtain ⟨g, hg, less⟩ := grows.states pos f at_pos
      refine ⟨pos, ?_, g, hg, (ok.weaken less).sameForm like.form⟩
      simpa [Spot.retarget, retarget_of_ne here_site] using target'

end Certified

end ClassForge

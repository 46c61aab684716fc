import ClassForge.Proofs.Segment

/-! Code that is written by calls and patched later splits into instructions: each where it was
emitted, each branch with the target that its site was last resolved to. -/

namespace ClassForge.Code

inductive Issues (pc : Nat) : Action Unit → Instruction → Prop
  | emit : op.length = 1 → Issues pc (emit op) { pc, op }
  | emitU1 : op.length = 2 → Issues pc (emitU1 op n) { pc, op, index := n.toNat }
  | emitU2 : op.length = 3 → op.isBranch = false → Issues pc (emitU2 op n) { pc, op, index := n.toNat }
  | emitBranch : op.isBranch = true → Issues pc (emitU2 op n) { pc, op, target := pc + n.toInt16.toInt }
  | emitInterface : Issues pc (emitInterface n slots) { pc, op := .invokeinterface, index := n.toNat }
  | load : Issues pc (load t slot) (localForm pc (Opcode.load t.kind) slot)
  | store : Issues pc (store t slot) (localForm pc (Opcode.store t.kind) slot)
  | iinc : Issues pc (iinc slot delta) (iincForm pc slot delta)
  | ldc : Issues pc (ldc n isWide)
      { pc, op := if isWide then .ldc2W else if n ≤ 255 then .ldc else .ldcW, index := n.toNat }

/-- Code that calls have written from nothing, none of which failed, with its instructions and the
sites given out. What is put in front moves the sites, so those given before are of no more use. -/
inductive Written : Code → List Instruction → List Nat → Prop
  | nil : Written .empty [] []
  | issue : Written c is held → Issues c.pos a i → Yields a c () c' → Written c' (is ++ [i]) held
  | push : Written c is held → op.isBranch = true → Yields (pushSite op) c () c' →
      Written c' (is ++ [{ pc := c.pos, op, target := c.pos }]) held
  | jump : Written c is held → op.isBranch = true → Yields (jump op) c site c' →
      Written c' (is ++ [{ pc := c.pos, op, target := c.pos }]) (site :: held)
  | branchTo : Written c is held → op.isBranch = true → Yields (branchTo op target) c () c' →
      Written c' (is ++ [{ pc := c.pos, op, target }]) held
  | pop : Written c is held → c.sites = site :: rest → Yields popSite c () c' →
      Written c' (is.map (Instruction.retarget site c.pos)) held
  | swap : Written c is held → Yields swapSites c () c' → Written c' is held
  | take : Written c is held → Yields takeSite c site c' → Written c' is (site :: held)
  | resolve : Written c is held → site ∈ held → Yields (resolve site target) c () c' →
      Written c' (is.map (Instruction.retarget site target)) held
  | resolveAll : Written c is held → all ⊆ held → Yields (resolveAll all target) c () c' →
      Written c' (all.foldl (fun is site => is.map (Instruction.retarget site target)) is) held
  | prepend : Written c is held → Written front js kept → Yields (prepend front) c () c' →
      Written c' (js ++ is.map (Instruction.shift front.pos)) []

open Instruction

variable {c c' : Code} {is : List Instruction} {held : List Nat} {pc site : Nat} {op : Opcode} {target slot : Int}

theorem offset_be16 (n : UInt16) : offset (n >>> 8).toUInt8 n.toUInt8 = n.toInt16.toInt := by
  unfold offset
  rw [word_be16]
  have value : n.toInt16.toInt = n.toBitVec.toInt := rfl
  have same : n.toBitVec.toNat = n.toNat := rfl
  rw [value, BitVec.toInt_eq_toNat_cond, same]
  split <;> split <;> omega

theorem Issues.reads {a : Action Unit} {i : Instruction} (issues : Issues c.pos a i) (run : Yields a c () c') :
    ∃ b operands, ⟨c.bytes.appendList (b :: operands), c.sites⟩ = c' ∧
      read c.pos b operands = .ok (i, operands.length + 1) := by
  cases issues with
  | emit one => exact ⟨_, [], yields_emit.mp run, read_plain _ one⟩
  | emitU1 two => exact ⟨_, _, yields_put.mp run, read_u1 _ two _⟩
  | emitU2 three straight =>
    refine ⟨_, _, yields_put.mp run, ?_⟩
    rw [← word_be16]
    exact read_u2 _ three straight _ _
  | emitBranch branch =>
    refine ⟨_, _, yields_put.mp run, ?_⟩
    rw [← offset_be16]
    exact read_branch _ branch _ _
  | emitInterface =>
    unfold Code.emitInterface at run
    split at run
    · refine ⟨_, _, yields_put.mp run, ?_⟩
      rw [← word_be16]
      exact read_interface _ _ _ _ _
    · simp at run
  | @load t => exact reads_local true t.kind run
  | @store t => exact reads_local false t.kind run
  | iinc => exact reads_iinc run
  | @ldc n isWide =>
    unfold Code.ldc at run
    split_ifs at run ⊢ with wide short
    · refine ⟨_, _, yields_put.mp run, ?_⟩
      rw [← word_be16]
      exact read_u2 _ (by decide) (by decide) _ _
    · refine ⟨_, _, yields_put.mp run, ?_⟩
      have small : n.toNat ≤ 255 := UInt16.le_iff_toNat_le.mp short
      have value : n.toUInt8.toNat = n.toNat := by
        simp
        omega
      rw [← value]
      exact read_u1 _ (by decide) _
    · refine ⟨_, _, yields_put.mp run, ?_⟩
      rw [← word_be16]
      exact read_u2 _ (by decide) (by decide) _ _

/-- The bytes split into the instructions, and each site is at a branch among them. -/
def Patched (bytes : Array UInt8) (is : List Instruction) (sites : List Nat) : Prop :=
  Splits 0 bytes.toList is ∧ ∀ s ∈ sites, ∃ i ∈ is, i.pc = s ∧ i.op.isBranch = true ∧ i.wide = false

namespace Patched

variable {sites : List Nat} (h : Patched c.bytes is sites)

include h

theorem append (one : read c.pos b operands = .ok (i, operands.length + 1)) :
    Patched (c.bytes.appendList (b :: operands)) (is ++ [i]) sites := by
  refine ⟨?_, fun s hs => ?_⟩
  · have tail : Splits (0 + c.bytes.toList.length) (b :: operands) [i] := by
      simpa [pos] using splits_single one
    simpa using h.1.append tail
  · obtain ⟨j, hj, found⟩ := h.2 s hs
    exact ⟨j, List.mem_append_left _ hj, found⟩

theorem branch (branch : op.isBranch = true) :
    Patched (c.bytes.appendList [op.byte, 0, 0]) (is ++ [{ pc := c.pos, op, target := c.pos }]) (c.pos :: sites) := by
  have one : read c.pos op.byte [0, 0] = .ok ({ pc := c.pos, op, target := c.pos }, 3) := by
    simpa [offset, word] using read_branch c.pos branch 0 0
  obtain ⟨splits, marks⟩ := h.append one
  refine ⟨splits, fun s hs => ?_⟩
  rcases List.mem_cons.mp hs with rfl | old
  · exact ⟨_, List.mem_append_right _ List.mem_cons_self, rfl, branch, rfl⟩
  · exact marks s old

theorem mono (fewer : sites' ⊆ sites) : Patched c.bytes is sites' :=
  ⟨h.1, fun s hs => h.2 s (fewer hs)⟩

theorem resolve (known : site ∈ sites) (run : Yields (resolve site target) c () c') :
    Patched c'.bytes (is.map (retarget site target)) sites ∧ c'.sites = c.sites := by
  obtain ⟨low, high, rfl⟩ := yields_resolve.mp run
  obtain ⟨i, hi, place, branch, narrow⟩ := h.2 site known
  refine ⟨⟨?_, fun s hs => ?_⟩, rfl⟩
  · have set := h.1.retarget hi (k := site) (by simpa using place) branch narrow
      (low16 (target - site) >>> 8).toUInt8 (low16 (target - site)).toUInt8
    rw [offset_low16 low high] at set
    simpa using set
  · obtain ⟨j, hj, found⟩ := h.2 s hs
    exact ⟨_, List.mem_map_of_mem hj, by simpa using found⟩

theorem resolveAll (known : all ⊆ sites) (run : Yields (resolveAll all target) c () c') :
    Patched c'.bytes (all.foldl (fun is site => is.map (retarget site target)) is) sites ∧ c'.sites = c.sites := by
  induction all generalizing c is with
  | nil =>
    obtain ⟨-, rfl⟩ := run
    exact ⟨h, rfl⟩
  | cons site all ih =>
    simp only [Code.resolveAll, List.forM, Yields.bind_iff] at run
    obtain ⟨_, c1, one, rest⟩ := run
    obtain ⟨next, same⟩ := h.resolve (known List.mem_cons_self) one
    rw [← same]
    exact ih next (fun s hs => known (List.mem_cons_of_mem _ hs)) rest

theorem prepend (k : Patched front.bytes js sites')
    (run : Yields (prepend front) c () c') : Patched c'.bytes (js ++ is.map (shift front.pos)) c'.sites := by
  simp only [Code.prepend, Yields.bind_iff, Yields.get_iff] at run
  obtain ⟨_, _, ⟨rfl, rfl⟩, run⟩ := run
  split at run
  · rw [Yields.set_iff] at run
    subst run
    refine ⟨?_, by simp⟩
    have tail := h.1.shift front.pos
    simpa using k.1.append (by simpa [pos] using tail)
  · simp at run

end Patched

theorem of_takeSite (run : Yields takeSite c site c') : ∃ rest, c.sites = site :: rest ∧ ⟨c.bytes, rest⟩ = c' := by
  unfold takeSite at run
  simp only [Yields.bind_iff, Yields.get_iff] at run
  obtain ⟨_, _, ⟨rfl, rfl⟩, taken⟩ := run
  split at taken
  · simp at taken
  · rename_i s rest top
    obtain ⟨_, _, rfl, rfl, rfl⟩ := taken
    exact ⟨rest, top, rfl⟩

theorem Written.patched (written : Written c is held) : Patched c.bytes is (c.sites ++ held) := by
  induction written with
  | nil => exact ⟨.nil, by simp [empty]⟩
  | issue _ issues run ih =>
    obtain ⟨b, operands, rfl, one⟩ := issues.reads run
    exact ih.append one
  | push _ branch run ih =>
    rw [yields_pushSite] at run
    subst run
    exact ih.branch branch
  | jump _ branch run ih =>
    obtain ⟨rfl, rfl⟩ := yields_jump.mp run
    refine (ih.branch branch).mono (c := ⟨_, []⟩) ?_
    simp
  | @branchTo c is held op target c' _ branch run ih =>
    simp only [Code.branchTo, Yields.bind_iff, yields_jump] at run
    obtain ⟨_, c1, ⟨rfl, rfl⟩, resolved⟩ := run
    obtain ⟨patched, same⟩ := (ih.branch branch).resolve List.mem_cons_self resolved
    have old : ∀ i ∈ is, retarget c.pos target i = i := by
      intro i hi
      have := ih.1.pc_bounds i hi
      simp only [Array.length_toList, Nat.zero_add] at this
      exact retarget_of_ne (Nat.ne_of_lt this.2)
    rw [List.map_append, List.map_congr_left old, List.map_id'] at patched
    rw [same]
    simpa [retarget] using patched.mono (List.subset_cons_self _ _)
  | @pop c is held site rest c' _ top run ih =>
    have known : site ∈ c.sites ++ held := by simp [top]
    obtain ⟨_, _, sites, resolved⟩ := of_popSite run
    rw [top, List.cons.injEq] at sites
    obtain ⟨rfl, rfl⟩ := sites
    obtain ⟨patched, same⟩ := ih.resolve (c := ⟨c.bytes, rest⟩) known resolved
    refine patched.mono fun s hs => ?_
    rw [same] at hs
    rw [top]
    exact List.mem_cons_of_mem _ hs
  | swap _ run ih =>
    obtain ⟨a, b, rest, sites, rfl⟩ := of_swapSites run
    refine ih.mono fun s hs => ?_
    rw [sites]
    simpa [or_left_comm] using hs
  | take _ run ih =>
    obtain ⟨rest, sites, rfl⟩ := of_takeSite run
    refine ih.mono fun s hs => ?_
    rw [sites]
    simpa [or_left_comm] using hs
  | resolve _ known run ih =>
    obtain ⟨patched, same⟩ := ih.resolve (List.mem_append_right _ known) run
    rwa [same]
  | resolveAll _ known run ih =>
    obtain ⟨patched, same⟩ := ih.resolveAll (fun s hs => List.mem_append_right _ (known hs)) run
    rwa [same]
  | prepend _ _ run ih ihFront =>
    rw [List.append_nil]
    exact ih.prepend ihFront run

/-- Code that was written splits into the instructions that were written, in the order of their positions. Each site
that is open or given out is at a branch, and to resolve it gives that branch its target and changes nothing else. -/
theorem split_written (written : Written c is held) : split c.bytes.toList = .ok is ∧
    is.Pairwise (fun i j => i.pc < j.pc) ∧ ∀ site ∈ c.sites ++ held,
      (∃ i ∈ is, i.pc = site ∧ i.op.isBranch = true ∧ i.wide = false) ∧
      ∀ target c', Yields (resolve site target) c () c' → split c'.bytes.toList =
        .ok (is.map fun i => if i.pc = site then { i with target } else i) := by
  have patched := written.patched
  refine ⟨split_of_splits patched.1, patched.1.pairwise, fun site known => ⟨patched.2 site known, ?_⟩⟩
  intro target c' run
  exact split_of_splits (patched.resolve known run).1.1

theorem split_written_forward : split [167, 0, 6, 132, 1, 255] =
    .ok [{ pc := 0, op := .goto, target := 6 }, { pc := 3, op := .iinc, index := 511 }] := by
  have jumped : Written ⟨#[167, 0, 0], []⟩ [{ pc := 0, op := .goto, target := 0 }] [0] := .jump .nil rfl rfl
  have counts : Yields (iinc 1 (-1)) ⟨#[167, 0, 0], []⟩ () ⟨#[167, 0, 0, 132, 1, 255], []⟩ := by
    rfl
  have counted : Written ⟨#[167, 0, 0, 132, 1, 255], []⟩ _ [0] := .issue jumped .iinc counts
  have closed : Written ⟨#[167, 0, 6, 132, 1, 255], []⟩ _ [0] :=
    .resolve counted List.mem_cons_self (rfl : Yields (resolve 0 6) _ _ _)
  exact (split_written closed).1

theorem split_issue (issues : Issues 0 a i) :
    (∃ c, Yields a .empty () c ∧ split c.bytes.toList = .ok [i]) ↔ ∃ c, Yields a .empty () c :=
  exists_congr fun _ => and_iff_left_of_imp fun run => split_of_splits (Written.issue .nil issues run).patched.1

theorem accepts_local (forms : Opcode × Opcode) (slot : Nat) :
    (∃ c', Yields (emitLocal forms.1 forms.2 slot) c () c') ↔ slot ≤ 65535 := by
  unfold emitLocal
  split_ifs <;> simp [yields_emit, yields_put, emitU1] <;> omega

theorem accepts_iinc (slot : Nat) (delta : Int) : (∃ c', Yields (iinc slot delta) c () c') ↔
    slot ≤ 65535 ∧ -32768 ≤ delta ∧ delta ≤ 32767 := by
  unfold iinc
  split_ifs <;> simp [yields_put] <;> omega

/-- A slot below 65536 is accepted, and its instruction tells it when it is read. The index is the
slot, but for opcodes with a slot of their own and for the short form of an increment, whose
operands are read as one. -/
theorem split_slots (t : JType) (slot : Nat) (delta : Int) :
    ((∃ c, Yields (load t slot) .empty () c ∧ split c.bytes.toList = .ok [localForm 0 (Opcode.load t.kind) slot]) ↔
      slot ≤ 65535) ∧
    ((∃ c, Yields (store t slot) .empty () c ∧ split c.bytes.toList = .ok [localForm 0 (Opcode.store t.kind) slot]) ↔
      slot ≤ 65535) ∧
    ((∃ c, Yields (iinc slot delta) .empty () c ∧ split c.bytes.toList = .ok [iincForm 0 slot delta]) ↔
      slot ≤ 65535 ∧ -32768 ≤ delta ∧ delta ≤ 32767) ∧
    (localForm 0 (Opcode.load t.kind) slot).readSlot? = some slot ∧
    (localForm 0 (Opcode.store t.kind) slot).writeSlot? = some slot ∧ (iincForm 0 slot delta).readSlot? = some slot := by
  have loads := of_access true (localForm_shows 0 (Opcode.access true t.kind) slot)
  have stores := of_access false (localForm_shows 0 (Opcode.access false t.kind) slot)
  exact ⟨(split_issue .load).trans (accepts_local _ slot), (split_issue .store).trans (accepts_local _ slot),
    (split_issue .iinc).trans (accepts_iinc slot delta), loads.2.1, stores.2.2.1, (iincForm_shows 0 slot delta).2⟩

theorem iinc_index_differs : ∃ c c', Yields (iinc 5 3) .empty () c ∧ Yields (iinc 5 300) .empty () c' ∧
    split c.bytes.toList = .ok [{ pc := 0, op := .iinc, index := 1283 }] ∧
    split c'.bytes.toList = .ok [{ pc := 0, op := .iinc, wide := true, index := 5 }] :=
  ⟨⟨#[132, 5, 3], []⟩, ⟨#[196, 132, 0, 5, 1, 44], []⟩, rfl, rfl, by decide, by decide⟩

end ClassForge.Code

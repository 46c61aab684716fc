import ClassForge.Proofs.Machine
import ClassForge.Proofs.Segment

/-! Code under construction and what becomes of it: what is written stays, but for the operands of
open branches. -/

namespace ClassForge.Code

def Apart (s t : Nat) : Prop := s + 3 ≤ t ∨ t + 3 ≤ s

/-- The open branches stand in the code from `base` on, each in a place of its own. -/
structure Sited (base : Nat) (opened : List Nat) (c : Code) : Prop where
  start : base ≤ c.pos
  inside : ∀ s ∈ opened, base ≤ s ∧ s + 3 ≤ c.pos
  apart : opened.Pairwise Apart

/-- The final code has what was written from `base` on, but for the operands of open branches. -/
def Settles (final : Array UInt8) (base : Nat) (opened : List Nat) (c : Code) : Prop :=
  ∀ i, base ≤ i → i < c.pos → (∀ s ∈ opened, i ≠ s + 1 ∧ i ≠ s + 2) → final[i]? = c.bytes[i]?

def Directs (final : Array UInt8) (site target : Nat) : Prop :=
  ∃ a b, final[site + 1]? = some a ∧ final[site + 2]? = some b ∧ (site + Instruction.offset a b : Int) = target

/-- Writing leads from one code to another. What is before `base` is kept; a final code that settles
the later code settles the earlier one, and has the property on top. -/
structure Leads (base : Nat) (opened : List Nat) (c : Code) (opened' : List Nat) (c' : Code)
    (has : Array UInt8 → Prop) : Prop where
  sited : c'.Sited base opened'
  grows : c.pos ≤ c'.pos
  kept : ∀ i < base, c'.bytes[i]? = c.bytes[i]?
  settles : ∀ final, Settles final base opened' c' → Settles final base opened c ∧ has final

section

variable {base : Nat} {opened opened' : List Nat} {c c' : Code} {y : Unit} {has : Array UInt8 → Prop}

theorem Apart.symm (h : Apart s t) : Apart t s := Or.symm h

theorem Sited.perm (h : c.Sited base opened) (same : opened.Perm opened') : c.Sited base opened' where
  start := h.start
  inside s hs := h.inside s (same.mem_iff.mpr hs)
  apart := same.pairwise h.apart Apart.symm

theorem Settles.of_mem (h : Settles final base opened c) (sub : ∀ s ∈ opened, s ∈ opened') :
    Settles final base opened' c :=
  fun i low high free => h i low high fun s hs => free s (sub s hs)

namespace Leads

theorem refl (sited : c.Sited base opened) : Leads base opened c opened c fun _ => True :=
  ⟨sited, Nat.le_refl _, fun _ _ => rfl, fun _ h => ⟨h, trivial⟩⟩

theorem trans (h : Leads base opened c opened' c' has) (k : Leads base opened' c' opened'' c'' has') :
    Leads base opened c opened'' c'' fun final => has final ∧ has' final where
  sited := k.sited
  grows := Nat.le_trans h.grows k.grows
  kept i low := (k.kept i low).trans (h.kept i low)
  settles final settled := by
    obtain ⟨later, second⟩ := k.settles final settled
    obtain ⟨earlier, first⟩ := h.settles final later
    exact ⟨earlier, first, second⟩

theorem imp (h : Leads base opened c opened' c' has) (more : ∀ final, has final → has' final) :
    Leads base opened c opened' c' has' :=
  ⟨h.sited, h.grows, h.kept, fun final settled => ⟨(h.settles final settled).1, more final (h.settles final settled).2⟩⟩

theorem perm (h : Leads base opened c opened' c' has) (same : opened'.Perm opened'') :
    Leads base opened c opened'' c' has :=
  ⟨h.sited.perm same, h.grows, h.kept, fun final settled =>
    h.settles final (settled.of_mem fun _ hs => same.mem_iff.mpr hs)⟩

end Leads

variable {i : Insn} {site slot target : Nat} {op short : Opcode}

theorem getElem?_appendList (a : Array UInt8) (bs : List UInt8) (i : Nat) :
    (a.appendList bs)[i]? = if i < a.size then a[i]? else bs[i - a.size]? := by
  simp [← Array.getElem?_toList, List.getElem?_append]

theorem kept_appendList {i : Nat} (low : i < c.pos) (bs : List UInt8) : (c.bytes.appendList bs)[i]? = c.bytes[i]? := by
  rw [getElem?_appendList, if_pos (show i < c.bytes.size from low)]

theorem new_appendList (c : Code) (bs : List UInt8) (k : Nat) : (c.bytes.appendList bs)[c.pos + k]? = bs[k]? := by
  have size : c.bytes.size = c.pos := rfl
  rw [getElem?_appendList, size, if_neg (by omega), Nat.add_sub_cancel_left]

theorem leads_put {bs : List UInt8} (sited : c.Sited base opened) (run : Yields (put bs) c y c') :
    c'.sites = c.sites ∧ c'.pos = c.pos + bs.length ∧
      Leads base opened c opened c' fun final => ∀ k < bs.length, final[c.pos + k]? = bs[k]? := by
  rw [yields_put] at run
  subst run
  have size : (⟨c.bytes.appendList bs, c.sites⟩ : Code).pos = c.pos + bs.length := size_appendList _ _
  have start := sited.start
  refine ⟨rfl, size, ⟨by omega, fun s hs => ?_, sited.apart⟩, by omega, fun i low => ?_, fun final settled => ?_⟩
  · have := sited.inside s hs
    omega
  · exact kept_appendList (Nat.lt_of_lt_of_le low start) _
  · refine ⟨fun i low high free => ?_, fun k few => ?_⟩
    · rw [settled i low (by omega) free]
      exact kept_appendList high _
    · rw [settled (c.pos + k) (by omega) (by omega) fun s hs => ?_]
      · exact new_appendList c bs k
      · have := sited.inside s hs
        omega

theorem leads_jump (sited : c.Sited base opened) (run : Yields (jump op) c site c') :
    site = c.pos ∧ c'.sites = c.sites ∧ c'.pos = c.pos + 3 ∧
      Leads base opened c (c.pos :: opened) c' fun final => final[c.pos]? = some op.byte := by
  obtain ⟨rfl, rfl⟩ := yields_jump.mp run
  have size : (⟨c.bytes.appendList [op.byte, 0, 0], c.sites⟩ : Code).pos = c.pos + 3 := size_appendList _ _
  have start := sited.start
  have inside : ∀ s ∈ c.pos :: opened, s = c.pos ∨ base ≤ s ∧ s + 3 ≤ c.pos ∧ s ∈ opened := by
    intro s hs
    rcases List.mem_cons.mp hs with rfl | hs
    · exact .inl rfl
    · exact .inr ⟨(sited.inside s hs).1, (sited.inside s hs).2, hs⟩
  refine ⟨rfl, rfl, size, ⟨by omega, fun s hs => ?_, .cons (fun s hs => .inr (sited.inside s hs).2) sited.apart⟩,
    by omega, fun i low => kept_appendList (Nat.lt_of_lt_of_le low start) _, fun final settled => ?_⟩
  · have := inside s hs
    omega
  · refine ⟨fun i low high free => ?_, ?_⟩
    · rw [settled i low (by omega) fun s hs => ?_]
      · exact kept_appendList high _
      · rcases inside s hs with rfl | old
        · omega
        · exact free s old.2.2
    · rw [settled c.pos start (by omega) fun s hs => ?_]
      · exact new_appendList c _ 0
      · have := inside s hs
        omega

theorem leads_resolve (sited : c.Sited base (site :: opened)) (run : Yields (resolve site target) c y c') :
    c'.sites = c.sites ∧ c'.pos = c.pos ∧ Leads base (site :: opened) c opened c' (Directs · site target) := by
  obtain ⟨low, high, rfl⟩ := yields_resolve.mp run
  obtain ⟨after, inside⟩ := sited.inside site List.mem_cons_self
  have apart := List.pairwise_cons.mp sited.apart
  set n := low16 (target - site) with hn
  have size : (⟨(c.bytes.setIfInBounds (site + 1) (n >>> 8).toUInt8).setIfInBounds (site + 2) n.toUInt8, c.sites⟩ :
      Code).pos = c.pos := by
    simp [pos]
  have bound : site + 2 < c.bytes.size := inside
  have old : ∀ i, i ≠ site + 1 ∧ i ≠ site + 2 →
      ((c.bytes.setIfInBounds (site + 1) (n >>> 8).toUInt8).setIfInBounds (site + 2) n.toUInt8)[i]? = c.bytes[i]? := by
    intro i other
    rw [Array.getElem?_setIfInBounds_ne (by omega), Array.getElem?_setIfInBounds_ne (by omega)]
  refine ⟨rfl, size, ⟨?_, ?_, apart.2⟩, ?_, ?_, ?_⟩
  · exact size ▸ sited.start
  · intro s hs
    exact size ▸ sited.inside s (List.mem_cons_of_mem _ hs)
  · omega
  · intro i before
    exact old i (by omega)
  · intro final settled
    have others : ∀ s ∈ opened, site + 1 ≠ s + 1 ∧ site + 1 ≠ s + 2 ∧ site + 2 ≠ s + 1 ∧ site + 2 ≠ s + 2 := by
      intro s hs
      rcases apart.1 s hs with before | behind <;> omega
    refine ⟨fun i above below free => ?_, (n >>> 8).toUInt8, n.toUInt8, ?_, ?_, ?_⟩
    · rw [settled i above (by omega) fun s hs => free s (List.mem_cons_of_mem _ hs)]
      exact old i (free site List.mem_cons_self)
    · rw [settled (site + 1) (by omega) (by omega) fun s hs => ⟨(others s hs).1, (others s hs).2.1⟩]
      rw [Array.getElem?_setIfInBounds_ne (by omega), Array.getElem?_setIfInBounds_self_of_lt (by omega)]
    · rw [settled (site + 2) (by omega) (by omega) fun s hs => ⟨(others s hs).2.2.1, (others s hs).2.2.2⟩]
      rw [Array.getElem?_setIfInBounds_self_of_lt (by simpa using bound)]
    · rw [hn, Instruction.offset_low16 low high]
      omega

theorem leads_pushSite (sited : c.Sited base opened) (run : Yields (pushSite op) c y c') : c'.sites = c.pos :: c.sites ∧
    c'.pos = c.pos + 3 ∧ Leads base opened c (c.pos :: opened) c' fun final => final[c.pos]? = some op.byte := by
  rw [yields_pushSite] at run
  subst run
  obtain ⟨-, -, pos, leads⟩ := leads_jump sited (yields_jump.mpr ⟨rfl, rfl⟩ : Yields (jump op) c c.pos _)
  exact ⟨rfl, pos, ⟨leads.sited.start, leads.sited.inside, leads.sited.apart⟩, leads.grows, leads.kept, leads.settles⟩

theorem leads_popSite (sited : c.Sited base (site :: opened))
    (top : c.sites = site :: rest) (run : Yields popSite c y c') :
    c'.sites = rest ∧ c'.pos = c.pos ∧ Leads base (site :: opened) c opened c' (Directs · site c.pos) := by
  obtain ⟨site', rest', top', resolved⟩ := of_popSite run
  rw [top] at top'
  cases top'
  obtain ⟨sites, pos, leads⟩ :=
    leads_resolve (c := ⟨c.bytes, rest⟩) ⟨sited.start, sited.inside, sited.apart⟩ resolved
  exact ⟨sites, pos, leads.sited, leads.grows, leads.kept, leads.settles⟩

theorem leads_swapSites (sited : c.Sited base (a :: b :: opened))
    (top : c.sites = a :: b :: rest) (run : Yields swapSites c y c') : c'.sites = b :: a :: rest ∧ c'.pos = c.pos ∧
      Leads base (a :: b :: opened) c (b :: a :: opened) c' fun _ => True := by
  obtain ⟨a', b', rest', top', rfl⟩ := of_swapSites run
  rw [top] at top'
  cases top'
  have swapped := sited.perm (.swap b a opened)
  exact ⟨rfl, rfl, ⟨swapped.start, swapped.inside, swapped.apart⟩, Nat.le_refl _, fun _ _ => rfl, fun final settled =>
    ⟨settled.of_mem fun s hs => (List.Perm.swap a b opened).mem_iff.mp hs, trivial⟩⟩

/-! Instructions that are written are those that the machine finds. -/

open Machine Insn

/-- The action writes one instruction, which the machine finds wherever the bytes stand. -/
def Writes (a : Action Unit) (i : Insn) : Prop :=
  ∃ bytes, a = put bytes ∧ ∀ (code : Array UInt8) (pc : Nat), (∀ k < bytes.length, code[pc + k]? = bytes[k]?) →
    decode code pc = some (i, bytes.length)

theorem Writes.leads (h : Writes a i) (sited : c.Sited base opened) (run : Yields a c y c') :
    c'.sites = c.sites ∧ Leads base opened c opened c' (Found · c.pos i c'.pos) := by
  obtain ⟨bytes, rfl, read⟩ := h
  obtain ⟨sites, pos, leads⟩ := leads_put sited run
  exact ⟨sites, leads.imp fun final here => ⟨_, read final _ here, pos.symm⟩⟩

theorem writes_plain (form : inRuns plain op.byte = some i) : Writes (emit op) i :=
  ⟨[op.byte], rfl, fun _ _ bytes => decode_plain (bytes 0 Nat.one_pos) form⟩

theorem leads_plain (form : inRuns plain op.byte = some i) (sited : c.Sited base opened)
    (run : Yields (emit op) c y c') :
    c'.sites = c.sites ∧ Leads base opened c opened c' (Found · c.pos i c'.pos) := (writes_plain form).leads sited run

theorem leads_test (form : inRuns tests op.byte = some test) (sited : c.Sited base opened)
    (run : Yields (pushSite op) c y c') :
    c'.sites = c.pos :: c.sites ∧ Leads base opened c (c.pos :: opened) c' fun final =>
      ∀ target, Directs final c.pos target → Found final c.pos (.branch test target) c'.pos := by
  obtain ⟨sites, pos, leads⟩ := leads_pushSite sited run
  refine ⟨sites, leads.imp fun final byte target directs => ?_⟩
  obtain ⟨a, b, second, third, distance⟩ := directs
  exact ⟨3, decode_branch byte second third form distance, pos.symm⟩

theorem writes_byte (more : inRuns plain op.byte = none) (form : withByte op.byte a = some i) : Writes (emitU1 op a) i :=
  ⟨_, rfl, fun _ _ bytes => decode_byte (bytes 0 (by simp)) (bytes 1 (by simp)) more form⟩

theorem writes_two {n : UInt16} (more : inRuns plain op.byte = none) (yetMore : ∀ a, withByte op.byte a = none)
    (form : ∀ pc, withTwo pc op.byte (n >>> 8).toUInt8 n.toUInt8 = some i) : Writes (emitU2 op n) i :=
  ⟨_, rfl, fun _ pc bytes => decode_two (bytes 0 (by simp [be16])) (bytes 1 (by simp [be16])) (bytes 2 (by simp [be16]))
    more (yetMore _) (form pc)⟩

theorem writes_ldc (index : UInt16) (isWide : Bool) : Writes (ldc index isWide) (.constant index isWide) := by
  have entry : UInt16.ofNat (Instruction.word (index >>> 8).toUInt8 index.toUInt8) = index := by
    rw [Instruction.word_be16]
    simp
  unfold ldc
  split_ifs with two few
  · rw [two]
    exact writes_two (by decide) (fun _ => rfl) fun _ => congrArg (fun n => some (Insn.constant n true)) entry
  · rw [Bool.eq_false_of_not_eq_true two]
    have byte : index.toUInt8.toUInt16 = index := by
      have small : index.toNat ≤ 255 := UInt16.le_iff_toNat_le.mp few
      apply UInt16.toNat_inj.mp
      simp
      omega
    exact writes_byte (by decide) (congrArg (fun n => some (Insn.constant n false)) byte)
  · rw [Bool.eq_false_of_not_eq_true two]
    exact writes_two (by decide) (fun _ => rfl) fun _ => congrArg (fun n => some (Insn.constant n false)) entry

theorem leads_local {make : Nat → Insn} (tiny : ∀ n < 4, inRuns plain (short.plus n.toUInt8).byte = some (make n))
    (long : ∀ n, onSlot op.byte n = some (make n)) (sited : c.Sited base opened)
    (run : Yields (emitLocal op short slot) c y c') :
    c'.sites = c.sites ∧ Leads base opened c opened c' (Found · c.pos (make slot) c'.pos) := by
  unfold emitLocal at run
  split_ifs at run with negative few small large
  · simp at run
  · have form := tiny slot (by omega)
    exact leads_plain form sited run
  · obtain ⟨more, -, form⟩ := of_onSlot (long slot)
    exact (writes_byte more (form _ (by simp; omega))).leads sited run
  · obtain ⟨sites, pos, leads⟩ := leads_put sited run
    refine ⟨sites, leads.imp fun final bytes => ⟨4, ?_, pos.symm⟩⟩
    refine decode_wide (bytes 0 (by simp [be16])) (bytes 1 (by simp [be16])) (bytes 2 (by simp [be16]))
      (bytes 3 (by simp [be16])) ?_
    have shown : (slot : Int).toNat.toUInt16.toNat = slot := by
      simp
      omega
    rw [Instruction.word_be16, shown, long]
  · simp at run

end

end ClassForge.Code

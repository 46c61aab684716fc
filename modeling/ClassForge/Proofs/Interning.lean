import ClassForge.Proofs.Effect
import ClassForge.Proofs.Yields
import Std.Data.TreeMap.Lemmas

/-! Interning: what is asked for is found at the index that is given, then and later. -/

namespace ClassForge

theorem Tag.width_pos (t : Tag) : 0 < t.width := by
  unfold Tag.width
  split <;> decide

theorem Tag.ofCode?_code (t : Tag) : ofCode? t.code = some t := by
  cases t <;> rfl

theorem Constant.eq_of_compare {c d : Constant} (same : c.compare d = .eq) : c = d := by
  simp only [Constant.compare, compareLex_eq_eq, compareOn, Std.LawfulEqOrd.compare_eq_iff_eq] at same
  obtain ⟨code, text, numbers⟩ := same
  have tag : c.tag = d.tag := Option.some.inj (by rw [← Tag.ofCode?_code c.tag, code, Tag.ofCode?_code])
  rcases c with _ | _ | _ | _ | _ | _ | _ | ⟨_ | _ | _, _, _⟩ | _ <;>
    rcases d with _ | _ | _ | _ | _ | _ | _ | ⟨_ | _ | _, _, _⟩ | _ <;>
    simp_all [Constant.tag, Constant.text, Constant.numbers, ← UInt16.toNat_inj, ← UInt32.toNat_inj,
      ← UInt64.toNat_inj]

instance : Std.TransCmp Constant.compare :=
  inferInstanceAs (Std.TransCmp (compareLex _ (compareLex _ _)))

namespace Pool

variable {c : Constant} {entries : List (UInt16 × Constant)} {m n : Nat} {α β : Type} {e : UInt16 × Constant}
  {a : Action α}

/-- The entries are numbered from `n` on, wide ones twice; `m` is the number after them. -/
def Numbered : Nat → List (UInt16 × Constant) → Nat → Prop
  | n, [], m => n = m
  | n, e :: rest, m => e.1.toNat = n ∧ Numbered (n + e.2.tag.width) rest m

theorem Numbered.length_le (h : Numbered n entries m) : n + entries.length ≤ m := by
  induction entries generalizing n with
  | nil => exact Nat.le_of_eq h
  | cons e entries ih =>
    have rest := ih h.2
    have width := e.2.tag.width_pos
    rw [List.length_cons]
    omega

theorem Numbered.le (h : Numbered n entries m) : n ≤ m := Nat.le_of_add_right_le h.length_le

theorem Numbered.range (h : Numbered n entries m) (he : e ∈ entries) : n ≤ e.1.toNat ∧ e.1.toNat + e.2.tag.width ≤ m := by
  induction entries generalizing n with
  | nil => cases he
  | cons f rest ih =>
    obtain ⟨first, others⟩ := h
    rcases List.mem_cons.mp he with rfl | later
    · rw [first]
      exact ⟨Nat.le_refl _, others.le⟩
    · exact ⟨Nat.le_trans (Nat.le_add_right _ _) (ih others later).1, (ih others later).2⟩

theorem Numbered.snoc (h : Numbered n entries m) (next : e.1.toNat = m) : Numbered n (entries ++ [e]) (m + e.2.tag.width) := by
  induction entries generalizing n with
  | nil =>
    cases h
    exact ⟨next, rfl⟩
  | cons f rest ih => exact ⟨h.1, ih h.2⟩

/-- Indices are given out in order, and every index that is remembered holds its constant. -/
structure Sound (p : Pool) : Prop where
  numbered : Numbered 1 p.entries.toList p.next
  room : p.next ≤ lastIndex + 1
  remembered : ∀ (c : Constant) (i : UInt16), p.indices[c]? = some i → p.get? i = some c

theorem sound_empty : empty.Sound where
  numbered := rfl
  room := by decide
  remembered c i found := by simp [empty] at found

variable {p p' : Pool} {i : UInt16}

theorem Sound.index_range (sound : p.Sound) (found : p.get? i = some c) : i ≠ 0 ∧ i.toNat < p.count := by
  obtain ⟨e, there, -⟩ := Option.map_eq_some_iff.mp found
  have same := Array.find?_some there
  simp only [beq_iff_eq] at same
  obtain ⟨low, high⟩ := sound.numbered.range (Array.mem_toList_iff.mpr (Array.mem_of_find?_eq_some there))
  have width := e.2.tag.width_pos
  rw [same] at low high
  refine ⟨?_, ?_⟩
  · rintro rfl
    exact absurd low (by decide)
  · rw [count]
    omega

def push (p : Pool) (c : Constant) : Pool :=
  ⟨p.entries.push (p.next.toUInt16, c), p.indices.insert c p.next.toUInt16, p.next + c.tag.width⟩

theorem le_push (c : Constant) : p.Le (p.push c) := by
  intro index d found
  unfold get? at found ⊢
  obtain ⟨e, there, rfl⟩ := Option.map_eq_some_iff.mp found
  simp [push, Array.find?_push, there]

theorem toNat_next (sound : p.Sound) : p.next.toUInt16.toNat = p.next := by
  have room := sound.room
  unfold lastIndex at room
  simp only [Nat.toUInt16_eq, UInt16.toNat_ofNat']
  omega

theorem get?_push (sound : p.Sound) : (p.push c).get? p.next.toUInt16 = some c := by
  have fresh : (p.entries.find? fun e => e.1 == p.next.toUInt16) = none := by
    rw [Array.find?_eq_none]
    intro e he same
    have range := (sound.numbered.range (Array.mem_toList_iff.mpr he)).2
    have width := e.2.tag.width_pos
    rw [beq_iff_eq.mp same, toNat_next sound] at range
    omega
  simp [get?, push, Array.find?_push, fresh]

theorem Sound.push (sound : p.Sound) (room : p.next + c.tag.width - 1 ≤ lastIndex) : (p.push c).Sound where
  numbered := by
    simp only [Pool.push, Array.toList_push]
    exact sound.numbered.snoc (toNat_next sound)
  room := by
    simp only [Pool.push]
    omega
  remembered d i found := by
    simp only [Pool.push, Std.TreeMap.getElem?_insert] at found
    split_ifs at found with same
    · cases found
      rw [← Constant.eq_of_compare same]
      exact get?_push sound
    · exact le_push c i d (sound.remembered d i found)

theorem intern_cases (run : Yields (intern c) p i p') : (p.indices[c]? = some i ∧ p' = p) ∨
      (p.next + c.tag.width - 1 ≤ lastIndex ∧ i = p.next.toUInt16 ∧ p' = p.push c) := by
  change intern c p = _ at run
  unfold intern at run
  split at run
  · rename_i j found
    cases run
    exact .inl ⟨found, rfl⟩
  · split at run
    · cases run
    · rename_i room
      cases run
      exact .inr ⟨Nat.le_of_not_lt room, rfl, rfl⟩

theorem intern_spec (run : Yields (intern c) p i p') : p.Le p' ∧ (p.Sound → p'.Sound ∧ p'.get? i = some c) := by
  rcases intern_cases run with ⟨found, rfl⟩ | ⟨room, rfl, rfl⟩
  · exact ⟨.refl _, fun sound => ⟨sound, sound.remembered c i found⟩⟩
  · exact ⟨le_push c, fun sound => ⟨sound.push room, get?_push sound⟩⟩

/-- A pool action keeps all entries and, on a sound pool, finds what it gives. -/
structure Interns {α : Type} (a : Action α) (found : Pool → α → Prop) : Prop where
  grows : ∀ {p p' : Pool} {x : α}, Yields a p x p' → p.Le p'
  finds : ∀ {p p' : Pool} {x : α}, Yields a p x p' → p.Sound → p'.Sound ∧ found p' x

theorem interns_intern (c : Constant) : Interns (intern c) fun p i => p.get? i = some c :=
  ⟨fun run => (intern_spec run).1, fun run => (intern_spec run).2⟩

theorem interns_pure (x : α) : Interns (pure x) fun _ y => y = x where
  grows run := by
    obtain ⟨-, rfl⟩ := Yields.pure_iff.mp run
    exact .refl _
  finds run sound := by
    obtain ⟨rfl, rfl⟩ := Yields.pure_iff.mp run
    exact ⟨sound, rfl⟩

/-- One action after another. What the first found must still be there after the second. -/
theorem Interns.bind (first : Interns a P) (keeps : ∀ {p q x}, p.Le q → P p x → P q x)
    (second : ∀ x, Interns (f x) fun p y => P p x → Q p y) : Interns (a >>= f) Q where
  grows run := by
    obtain ⟨x, q, run1, run2⟩ := Yields.bind_iff.mp run
    exact (first.grows run1).trans ((second x).grows run2)
  finds run sound := by
    obtain ⟨x, q, run1, run2⟩ := Yields.bind_iff.mp run
    obtain ⟨sound1, found1⟩ := first.finds run1 sound
    obtain ⟨sound2, found2⟩ := (second x).finds run2 sound1
    exact ⟨sound2, found2 (keeps ((second x).grows run2) found1)⟩

theorem Interns.weaken (h : Interns a P) (less : ∀ p x, P p x → Q p x) : Interns a Q :=
  ⟨h.grows, fun run sound => (h.finds run sound).imp id (less _ _)⟩

theorem interns_utf8 (s : String) : Interns (utf8 s) fun p i => p.text? i = some s := by
  have found : Interns (intern (.utf8 s)) fun p i => p.text? i = some s :=
    (interns_intern (.utf8 s)).weaken fun p i h => by rw [text?, h]
  constructor
  · intro p p' i run
    simp only [utf8] at run
    split_ifs at run with long
    · simp at run
    · exact found.grows (by simpa using run)
  · intro p p' i run
    simp only [utf8] at run
    split_ifs at run with long
    · simp at run
    · exact found.finds (by simpa using run)

theorem interns_classRef (name : String) : Interns (classRef name) fun p i => p.className? i = some name :=
  (interns_utf8 name).bind (fun le => le.text?) fun j =>
    (interns_intern (.classRef j)).weaken fun p i h text => by rw [className?, h]; exact text

theorem interns_type (name : String) : Interns (classRef name) fun p i => p.reference? i = some (.type name) :=
  (interns_classRef name).weaken fun p i h => by
    unfold className? at h
    unfold reference?
    split at h
    · rename_i entry
      rw [entry]
      exact Option.map_eq_some_iff.mpr ⟨name, h, rfl⟩
    · cases h

theorem interns_string (s : String) : Interns (string s) fun p i => p.reference? i = some (.text s) :=
  (interns_utf8 s).bind (fun le => le.text?) fun j =>
    (interns_intern (.string j)).weaken fun p i h text => by
      rw [reference?, h]
      simp [text]

theorem interns_nameAndType (name descriptor : String) :
    Interns (nameAndType name descriptor) fun p i => p.nameAndType? i = some (name, descriptor) :=
  (interns_utf8 name).bind (fun le => le.text?) fun n =>
    (interns_utf8 descriptor).bind (fun le => le.text?) fun d =>
      (interns_intern (.nameAndType n d)).weaken fun _ _ found text first => by
        rw [nameAndType?, found]
        simp [text, first]

theorem interns_member (kind : RefKind) (owner name descriptor : String) :
    Interns (member kind owner name descriptor) fun p i =>
      p.reference? i = some (.member kind owner name descriptor) := by
  refine (interns_classRef owner).bind (fun le => le.className?) fun c => ?_
  refine (interns_nameAndType name descriptor).bind (fun le => le.nameAndType?) fun nt => ?_
  refine (interns_intern (.member kind c nt)).weaken fun p i found spelled named => ?_
  rw [reference?, found]
  simp [spelled, named]

theorem interns_number (same : ∀ (p : Pool) (i : UInt16), p.get? i = some c →
    p.reference? i = some r) : Interns (intern c) fun p i => p.reference? i = some r :=
  (interns_intern c).weaken same

theorem Interns.ne_zero {a : Action UInt16} (h : Interns a fun p i => p.reference? i = some r) :
    Interns a fun p i => i ≠ 0 ∧ p.reference? i = some r where
  grows := h.grows
  finds {p p' i} run sound := by
    obtain ⟨sound', found⟩ := h.finds run sound
    refine ⟨sound', ?_, found⟩
    cases there : p'.get? i with
    | none => simp [reference?, there] at found
    | some c => exact (sound'.index_range there).1

end Pool

end ClassForge

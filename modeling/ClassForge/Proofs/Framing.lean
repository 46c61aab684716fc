import ClassForge.Proofs.Reading

/-! A class file says where it ends: of two that are read, neither goes on where the other stops. -/

namespace ClassForge.ClassFile

/-- A lack of bytes is reported at a place that the data has, and only if they do not reach as far
as asked. -/
def Fault.Inside (size : Nat) : Fault → Prop
  | .truncated offset need => offset ≤ size ∧ size < offset + need
  | .within _ cause => cause.Inside size
  | _ => True

namespace Reader

variable {α β : Type} {r : Reader α}

/-- A framed reader fails, or is settled by the bytes that it takes. -/
def Framed (r : Reader α) : Prop := ∀ c : Cursor,
  (∃ e, r c = .error e ∧ e.Inside (c.offset + c.rest.length)) ∨ ∃ bs rest x, c.rest = bs ++ rest ∧ Reads r bs x

theorem Framed.pure (x : α) : Framed (Pure.pure x) := fun c => .inr ⟨[], c.rest, x, rfl, Reads.pure x⟩

theorem Framed.bind {f : α → Reader β} (first : Framed r) (second : ∀ x, Framed (f x)) : Framed (r >>= f) := by
  intro c
  have run : (r >>= f) c = r c >>= fun p => f p.1 p.2 := rfl
  obtain ⟨e, failed, inside⟩ | ⟨bs, rest, x, parts, reads⟩ := first c
  · exact .inl ⟨e, by rw [run, failed]; rfl, inside⟩
  have here : r c = .ok (x, ⟨rest, c.offset + bs.length⟩) := by
    rw [← reads, ← parts]
  obtain ⟨e, failed, inside⟩ | ⟨cs, more, y, others, later⟩ := second x ⟨rest, c.offset + bs.length⟩
  · refine .inl ⟨e, by rw [run, here]; exact failed, ?_⟩
    rwa [parts, List.length_append, ← Nat.add_assoc]
  · exact .inr ⟨bs ++ cs, more, y, by rw [parts, List.append_assoc, ← others], reads.bind later⟩

theorem Framed.map {f : α → β} (h : Framed r) : Framed (do return f (← r)) := h.bind fun x => .pure (f x)

theorem framed_bytes (n : Nat) : Framed (bytes n) := by
  intro c
  by_cases short : c.rest.length < n
  · exact .inl ⟨.truncated c.offset n, by simp [bytes, short], by simp [Fault.Inside]; omega⟩
  · have reads := reads_bytes (c.rest.take n)
    rw [List.length_take_of_le (Nat.not_lt.mp short)] at reads
    exact .inr ⟨_, _, _, (List.take_append_drop n _).symm, reads⟩

theorem framed_number (n : Nat) : Framed (number n) := (framed_bytes n).map

theorem framed_u1 : Framed u1 := (framed_number 1).map
theorem framed_u2 : Framed u2 := (framed_number 2).map
theorem framed_u4 : Framed u4 := (framed_number 4).map
theorem framed_u8 : Framed u8 := (framed_number 4).bind fun _ => (framed_number 4).map

theorem Framed.orFault (h : Framed r) {e : Fault} (silent : ∀ size, e.Inside size) : Framed (r.orFault e) := by
  intro c
  obtain ⟨_, failed, -⟩ | ⟨bs, rest, x, parts, reads⟩ := h c
  · exact .inl ⟨e, by rw [Reader.orFault, failed], silent _⟩
  · exact .inr ⟨bs, rest, x, parts, reads.orFault e⟩

theorem framed_index : Framed index := framed_u2.orFault fun _ => trivial

theorem Framed.within (h : Framed r) (what : String) : Framed (Reader.within what r) := by
  intro c
  obtain ⟨e, failed, inside⟩ | ⟨bs, rest, x, parts, reads⟩ := h c
  · exact .inl ⟨.within what e, by rw [Reader.within, failed], inside⟩
  · exact .inr ⟨bs, rest, x, parts, reads.within what⟩

theorem framed_times (h : Framed r) (n : Nat) : Framed (times r n) := by
  induction n with
  | zero => exact .pure []
  | succ n ih => exact h.bind fun _ => ih.map

end Reader

open Reader

/-! Looking up a constant takes no bytes, so its faults speak of none. -/

theorem framed_entry {t : Table} {i : UInt16} {f : Option Constant → Except Fault α}
    (h : ∀ c, Framed (checked (f c))) : Framed (checked (t.entry i >>= f)) := by
  unfold Table.entry
  split
  · split
    · exact fun _ => .inl ⟨_, rfl, trivial⟩
    · exact h _
  · exact fun _ => .inl ⟨_, rfl, trivial⟩

theorem framed_utf8 (t : Table) (i : UInt16) : Framed (checked (t.utf8 i)) :=
  framed_entry fun c => by
    split
    · exact .pure _
    · exact fun _ => .inl ⟨_, rfl, trivial⟩

theorem framed_className (t : Table) (i : UInt16) : Framed (checked (t.className i)) :=
  framed_entry fun c => by
    split
    · exact framed_utf8 t _
    · exact fun _ => .inl ⟨_, rfl, trivial⟩

theorem framed_constant (i : Nat) (tag : UInt8) : Framed (readConstant i tag) := by
  unfold readConstant
  split
  · exact framed_u2.bind fun n => (framed_bytes _).map
  · exact framed_u4.map
  · exact framed_u4.map
  · exact framed_u8.map
  · exact framed_u8.map
  · exact framed_u2.map
  · exact framed_u2.map
  · exact framed_u2.bind fun _ => framed_u2.map
  · exact framed_u2.bind fun _ => framed_u2.map
  · exact framed_u2.bind fun _ => framed_u2.map
  · exact framed_u2.bind fun _ => framed_u2.map
  · exact fun _ => .inl ⟨_, rfl, trivial⟩

theorem framed_pool (count fuel : Nat) (table : Table) : Framed (readPool count fuel table) := by
  induction fuel generalizing table with
  | zero => exact .pure table
  | succ fuel ih =>
    unfold readPool
    dsimp only
    split
    · exact .pure table
    · have tag : Framed (u1.orFault (.unknownTag table.size 0)) := framed_u1.orFault fun _ => trivial
      exact tag.bind fun tag => (framed_constant _ tag).bind fun _ => ih _

theorem framed_data (more : Nat) : Framed (readData more) := by
  have data : Framed (do bytes (← u4).toNat) := framed_u4.bind fun _ => framed_bytes _
  unfold readData
  dsimp only
  split
  · exact data
  · exact data.orFault fun _ => trivial

theorem framed_attrs (t : Table) : Framed (readAttrs t) := by
  refine framed_u2.bind fun n => ?_
  induction n.toNat with
  | zero => exact .pure []
  | succ n ih =>
    exact framed_index.bind fun i => (framed_utf8 t i).bind fun _ => (framed_data n).bind fun _ => ih.map

theorem framed_member (t : Table) : Framed (readMember t) :=
  framed_index.bind fun _ => framed_index.bind fun i => (framed_utf8 t i).bind fun name =>
    framed_index.bind fun j => (framed_utf8 t j).bind fun _ => ((framed_attrs t).within name).map

theorem framed_members (t : Table) : Framed (readMembers t) := framed_u2.bind fun _ => framed_times (framed_member t) _

theorem framed_read : Framed read := by
  refine (framed_number 4).bind fun found => ?_
  split
  · exact fun _ => .inl ⟨_, rfl, trivial⟩
  refine framed_u2.bind fun _ => framed_u2.bind fun _ => (framed_u2.bind fun _ => framed_pool _ _ _).bind fun pool =>
    framed_u2.bind fun _ => framed_u2.bind fun this => framed_u2.bind fun super =>
    ((framed_className pool this).within _).bind fun _ => ?_
  extract_lets others
  have rest : ∀ name, Framed (others name) := fun _ => (framed_u2.within _).bind fun _ =>
    (framed_times ((framed_index.bind fun i => framed_className pool i).within _) _).bind fun _ =>
    ((framed_members pool).within _).bind fun _ => ((framed_members pool).within _).bind fun _ =>
    ((framed_attrs pool).within _).map
  split
  · exact (Framed.pure _).bind rest
  · exact ((framed_className pool super).within _).bind rest

theorem decode_append (h : Reads read d c) (more : rest ≠ []) : decode (d ++ rest) = .error (.trailing rest.length) := by
  rw [decode, h]
  simp [more]

theorem decode_reads (d : List UInt8) :
    (∃ e, decode d = .error e ∧ e.Inside d.length) ∨ ∃ c, decode d = .ok c ∧ Reads read d c := by
  obtain ⟨e, failed, inside⟩ | ⟨bs, rest, c, parts, reads⟩ := framed_read ⟨d, 0⟩
  · exact .inl ⟨e, by rw [decode, failed], by simpa using inside⟩
  · have whole : d = bs ++ rest := parts
    by_cases more : rest = []
    · rw [whole, more, List.append_nil]
      have run := reads [] 0
      rw [List.append_nil] at run
      exact .inr ⟨c, by rw [decode, run]; rfl, reads⟩
    · exact .inl ⟨.trailing rest.length, whole ▸ decode_append reads more, trivial⟩

theorem decode_prefix_free (d : List UInt8) :
    (∃ e, decode d = .error e ∧ e.Inside d.length) ∨
    ∃ c, decode d = .ok c ∧ ∀ other, other ≠ d → other <+: d ∨ d <+: other → ∃ e, decode other = .error e := by
  obtain failed | ⟨c, accepted, reads⟩ := decode_reads d
  · exact .inl failed
  refine .inr ⟨c, accepted, ?_⟩
  rintro other new (⟨rest, rfl⟩ | ⟨rest, rfl⟩)
  · obtain ⟨e, failed, -⟩ | ⟨_, -, short⟩ := decode_reads other
    · exact ⟨e, failed⟩
    · rw [decode_append short (by simpa using new)] at accepted
      cases accepted
  · exact ⟨_, decode_append reads (by simpa using new)⟩

end ClassForge.ClassFile

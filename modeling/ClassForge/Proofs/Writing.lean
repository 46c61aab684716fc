import ClassForge.Assembler.ClassBytes
import ClassForge.Proofs.Outcomes
import ClassForge.Proofs.Reading

/-! Class-file items as they are written: what is written reads back, with any table that holds the
entries interned on the way. -/

namespace ClassForge.Assembler

open ClassFile (Table)
open ClassFile.Reader (Reads reads_checked reads_index reads_u2)

namespace Serial

variable {α β : Type} {s s' : Output}

theorem of_intern (run : Yields (intern a) s x s') : Yields a s.pool x s'.pool ∧ s'.writer = s.writer := by
  change (_, (⟨(a s.pool).2, s.writer⟩ : Output)) = _ at run
  change a s.pool = _ ∧ _
  cases ran : a s.pool with
  | mk r p =>
    rw [ran] at run
    cases r with
    | ok y =>
      cases run
      exact ⟨rfl, rfl⟩
    | error e => cases run

theorem of_write (run : Yields (write f) s y s') : s'.pool = s.pool ∧ s'.writer = f s.writer := by
  cases run
  exact ⟨rfl, rfl⟩

theorem of_apart (run : Yields (apart part) s w s') :
    ∃ y, Yields part ⟨s.pool, .empty⟩ y ⟨s'.pool, w⟩ ∧ s'.writer = s.writer := by
  change (_, (⟨(part ⟨s.pool, .empty⟩).2.pool, s.writer⟩ : Output)) = _ at run
  change ∃ y, part ⟨s.pool, .empty⟩ = _ ∧ _
  cases ran : part ⟨s.pool, .empty⟩ with
  | mk r out =>
    rw [ran] at run
    cases r with
    | ok y =>
      cases run
      exact ⟨y, rfl, rfl⟩
    | error e => cases run

/-- The part keeps all pool entries. Where it cannot be written, a request explains it. -/
def Grows (a : Serial α) : Prop := ∀ s : Output, Meets (fun e : Fault => e.isInternal = false) a s fun _ s' =>
  s.pool.Le s'.pool ∧ (s.pool.Sound → s'.pool.Sound)

namespace Grows

theorem bind (first : Grows a) (second : ∀ x, Grows (f x)) : Grows (a >>= f) := by
  refine fun s => meets_bind.mpr ((first s).imp fun x v h => (second x v).imp fun _ _ k => ?_)
  exact ⟨h.1.trans k.1, k.2 ∘ h.2⟩

theorem pure (x : α) : Grows (Pure.pure x) := fun _ => ⟨.refl _, id⟩

theorem throw (mild : e.isInternal = false) : Grows (throw e : Serial α) := fun _ => mild

theorem intern (interns : Pool.Interns a found) : Grows (Serial.intern a) := by
  refine fun s => Meets.of_yields ?_ fun x s' run => ?_
  · unfold Meets Serial.intern
    simp only [ExceptT.run]
    cases a s.pool with
    | mk r p => cases r <;> trivial
  · obtain ⟨ran, -⟩ := of_intern run
    exact ⟨interns.grows ran, fun sound => (interns.finds ran sound).1⟩

theorem write (f : Writer → Writer) : Grows (Serial.write f) := fun _ => ⟨.refl _, id⟩

theorem apart (h : Grows part) : Grows (Serial.apart part) := by
  intro s
  have inner := h ⟨s.pool, .empty⟩
  unfold Meets Serial.apart at *
  simp only [ExceptT.run] at *
  cases ran : part ⟨s.pool, .empty⟩ with
  | mk r out =>
    rw [ran] at inner
    cases r <;> exact inner

end Grows

/-- The part keeps all pool entries. Unless a count does not fit, it appends bytes with `Q` for
every table with the entries. -/
structure Writes (a : Serial α) (Q : Table → α → List UInt8 → Prop) : Prop where
  grows : Grows a
  puts : ∀ {s s' : Output} {x : α}, Yields a s x s' → s'.writer.overflow = none → s.writer.overflow = none ∧
    ∃ bs, s'.writer.bytes.toList = s.writer.bytes.toList ++ bs ∧
      (s.pool.Sound → ∀ t : Table, t.Holds s'.pool → Q t x bs)

namespace Writes

variable {xs : List α} {Q : α → Table → List UInt8 → Prop}

theorem weaken {Q R : Table → α → List UInt8 → Prop} (h : Writes a Q)
    (less : ∀ t x bs, Q t x bs → R t x bs) : Writes a R where
  grows := h.grows
  puts run whole := by
    obtain ⟨before, bs, bytes, holds⟩ := h.puts run whole
    exact ⟨before, bs, bytes, fun sound t ht => less t _ bs (holds sound t ht)⟩

theorem bind {Q : Table → α → List UInt8 → Prop}
    {R : α → Table → β → List UInt8 → Prop} (first : Writes a Q) (second : ∀ x, Writes (f x) (R x)) :
    Writes (a >>= f) fun t y bs => ∃ x bs1 bs2, bs = bs1 ++ bs2 ∧ Q t x bs1 ∧ R x t y bs2 where
  grows := first.grows.bind fun x => (second x).grows
  puts run whole := by
    obtain ⟨x, v, run1, run2⟩ := Yields.bind_iff.mp run
    obtain ⟨-, sound1⟩ := (first.grows _).yields run1
    obtain ⟨le2, -⟩ := ((second x).grows _).yields run2
    obtain ⟨between, bs2, bytes2, holds2⟩ := (second x).puts run2 whole
    obtain ⟨before, bs1, bytes1, holds1⟩ := first.puts run1 between
    refine ⟨before, bs1 ++ bs2, by rw [bytes2, bytes1, List.append_assoc], fun sound t ht => ?_⟩
    exact ⟨x, bs1, bs2, rfl, holds1 sound t (ht.mono le2), holds2 (sound1 sound) t ht⟩

theorem pure (x : α) : Writes (Pure.pure x) fun _ y bs => y = x ∧ bs = [] where
  grows := .pure x
  puts run whole := by
    obtain ⟨rfl, rfl⟩ := Yields.pure_iff.mp run
    exact ⟨whole, [], by simp, fun _ _ _ => ⟨rfl, rfl⟩⟩

theorem throw {Q : Table → α → List UInt8 → Prop} (mild : e.isInternal = false) : Writes (throw e) Q where
  grows := .throw mild
  puts run := by simp at run

theorem intern {Q : Table → α → Prop} (interns : Pool.Interns a found)
    (read : ∀ p t x, found p x → Table.Holds t p → Q t x) : Writes (Serial.intern a) fun t x bs => bs = [] ∧ Q t x where
  grows := .intern interns
  puts run whole := by
    obtain ⟨ran, same⟩ := of_intern run
    rw [same] at whole
    refine ⟨whole, [], by simp [same], fun sound t ht => ⟨rfl, ?_⟩⟩
    exact read _ t _ (interns.finds ran sound).2 ht

theorem utf8 (text : String) : Writes (Serial.intern (Pool.utf8 text)) fun t i bs => bs = [] ∧ t.utf8 i = .ok text :=
  .intern (Pool.interns_utf8 text) fun _ _ _ found holds => holds.utf8 found

theorem write {f : Writer → Writer} {bs : List UInt8} {F : Prop} (adds : ∀ w w', f w = w' → w'.overflow = none →
    F ∧ w.overflow = none ∧ w'.bytes.toList = w.bytes.toList ++ bs) :
    Writes (Serial.write f) fun _ _ cs => F ∧ cs = bs where
  grows := .write f
  puts run whole := by
    obtain ⟨-, writer⟩ := of_write run
    obtain ⟨fits, before, bytes⟩ := adds _ _ writer.symm whole
    exact ⟨before, bs, bytes, fun _ _ _ => ⟨fits, rfl⟩⟩

theorem u1 (n : UInt8) : Writes (Serial.u1 n) fun _ _ bs => bs = [n] := by
  refine (Writes.write (F := True) fun w w' h whole => ?_).weaken fun _ _ _ h => h.2
  subst h
  exact ⟨trivial, by simpa using whole, by simp⟩

theorem u2 (n : UInt16) : Writes (Serial.u2 n) fun _ _ bs => bs = be16 n := by
  refine (Writes.write (F := True) fun w w' h whole => ?_).weaken fun _ _ _ h => h.2
  subst h
  exact ⟨trivial, by simpa [Writer.u2] using whole, by simp [Writer.u2]⟩

theorem count (n : Nat) (what : String) :
    Writes (Serial.count n what) fun _ _ bs => n < 65536 ∧ bs = be16 n.toUInt16 := by
  refine .write fun w w' h whole => ?_
  rw [← h] at whole ⊢
  exact Writer.of_len2 whole

theorem sized (what : String) (body : Array UInt8) : Writes (Serial.write fun w => (w.len4 body.size what).raw body)
    fun _ _ bs => body.size < 4294967296 ∧ bs = be32 body.size.toUInt32 ++ body.toList := by
  refine .write fun w w' h whole => ?_
  rw [← h, Writer.overflow_raw] at whole
  obtain ⟨fits, before, bytes⟩ := Writer.of_len4 whole
  exact ⟨fits, before, by rw [← h, Writer.toList_raw, bytes, List.append_assoc]⟩

theorem narrow (n : Nat) (what : String) :
    Writes (Serial.narrow n what) fun _ x bs => bs = [] ∧ n < 65536 ∧ x = n.toUInt16 := by
  unfold Serial.narrow
  split_ifs with fits
  · exact (Writes.pure _).weaken fun _ _ _ ⟨same, nothing⟩ => ⟨nothing, fits, same⟩
  · exact .throw rfl

theorem bytesOf {Q : Table → Unit → List UInt8 → Prop} (h : Writes part Q) :
    Writes (Serial.bytesOf part) fun t x bs => bs = [] ∧ Q t () x.toList where
  grows := by
    refine (Grows.apart h.grows).bind fun w => ?_
    split
    · exact .throw rfl
    · exact .pure _
  puts run whole := by
    obtain ⟨w, v, run, rest⟩ := Yields.bind_iff.mp run
    obtain ⟨y, ran, same⟩ := of_apart run
    split at rest
    · simp at rest
    · rename_i fits
      obtain ⟨rfl, rfl⟩ := Yields.pure_iff.mp rest
      rw [same] at whole
      obtain ⟨-, bs, bytes, holds⟩ := h.puts ran fits
      refine ⟨whole, [], by simp [same], fun sound t ht => ⟨rfl, ?_⟩⟩
      have all : w.bytes.toList = bs := by simpa [Writer.empty] using bytes
      exact all ▸ holds sound t ht

theorem forM {f : α → Serial Unit} (each : ∀ x ∈ xs, Writes (f x) fun t _ bs => Q x t bs) :
    Writes (xs.forM f) fun t _ bs => ∃ bss, List.Forall₂ (fun x b => Q x t b) xs bss ∧ bs = bss.flatten := by
  induction xs with
  | nil => exact (Writes.pure ()).weaken fun _ _ _ ⟨_, nothing⟩ => ⟨[], .nil, nothing⟩
  | cons x xs ih =>
    have rest := ih fun y hy => each y (List.mem_cons_of_mem _ hy)
    refine ((each x List.mem_cons_self).bind fun _ => rest).weaken ?_
    rintro t _ _ ⟨_, bs, _, rfl, first, bss, others, rfl⟩
    exact ⟨bs :: bss, .cons first others, rfl⟩

theorem forIn {g : α → PUnit → Serial (ForInStep PUnit)}
    (each : ∀ x ∈ xs, Writes (g x PUnit.unit) fun t r bs => r = .yield PUnit.unit ∧ Q x t bs) :
    Writes (ForIn.forIn xs PUnit.unit g) fun t _ bs =>
      ∃ bss, List.Forall₂ (fun x b => Q x t b) xs bss ∧ bs = bss.flatten := by
  induction xs with
  | nil => exact (Writes.pure _).weaken fun _ _ _ ⟨_, nothing⟩ => ⟨[], .nil, nothing⟩
  | cons x xs ih =>
    have rest := ih fun y hy => each y (List.mem_cons_of_mem _ hy)
    rw [List.forIn_cons]
    refine ((each x List.mem_cons_self).bind (R := fun r t _ bs => r = .yield PUnit.unit →
      ∃ bss, List.Forall₂ (fun x b => Q x t b) xs bss ∧ bs = bss.flatten) fun r => ?_).weaken ?_
    · cases r with
      | done => exact (Writes.pure _).weaken (by rintro _ _ _ _ ⟨⟩)
      | yield => exact rest.weaken fun _ _ _ h _ => h
    · rintro t _ _ ⟨_, bs, _, rfl, ⟨rfl, first⟩, others⟩
      obtain ⟨bss, rest, rfl⟩ := others rfl
      exact ⟨bs :: bss, .cons first rest, rfl⟩

end Writes

end Serial

theorem toNat_toUInt16 (h : n < 65536) : n.toUInt16.toNat = n := by
  simp only [Nat.toUInt16_eq, UInt16.toNat_ofNat']
  omega

theorem toNat_toUInt32 (h : n < 4294967296) : n.toUInt32.toNat = n := by
  simp only [Nat.toUInt32_eq, UInt32.toNat_ofNat']
  omega

structure Counted (items : List (List UInt8)) (bs : List UInt8) : Prop where
  few : items.length < 65536
  bytes : bs = be16 items.length.toUInt16 ++ items.flatten

def Tabled {α : Type} (item : α → List UInt8 → Prop) (xs : List α) (bs : List UInt8) : Prop :=
  ∃ items, List.Forall₂ item xs items ∧ Counted items bs

namespace Tabled

variable {α : Type} {item : α → List UInt8 → Prop} {xs : List α} {bs : List UInt8} {items : List (List UInt8)}

theorem of_count (few : n < 65536) (size : xs.length = n) (each : List.Forall₂ item xs items) :
    Tabled item xs (be16 n.toUInt16 ++ items.flatten) := by
  subst size
  refine ⟨items, each, each.length_eq ▸ few, ?_⟩
  rw [each.length_eq]

theorem imp (h : Tabled item xs bs) (less : ∀ x b, item x b → other x b) : Tabled other xs bs :=
  let ⟨items, each, counted⟩ := h
  ⟨items, each.imp less, counted⟩

end Tabled

def AttrBytes (t : Table) (a : Attr) (bs : List UInt8) : Prop :=
  ∃ i, t.utf8 i = .ok a.name ∧ a.data.length < 4294967296 ∧ bs = be16 i ++ (be32 a.data.length.toUInt32 ++ a.data)

theorem Serial.Writes.attr (name : String) (body : Array UInt8) :
    Writes (Serial.attr name body) fun t _ bs => AttrBytes t ⟨name, body.toList⟩ bs := by
  have put : ∀ i, Writes (Serial.write (·.attr i body)) fun _ _ bs =>
      body.size < 4294967296 ∧ bs = be16 i ++ (be32 body.size.toUInt32 ++ body.toList) := by
    refine fun i => .write fun w w' h whole => ?_
    have h : ((w.u2 i).len4 body.size "attribute").raw body = w' := h
    rw [← h, Writer.overflow_raw] at whole
    obtain ⟨fits, before, bytes⟩ := Writer.of_len4 whole
    refine ⟨fits, by simpa [Writer.u2] using before, ?_⟩
    rw [← h, Writer.toList_raw, bytes]
    simp [Writer.u2]
  refine ((Writes.utf8 name).bind put).weaken ?_
  rintro t _ _ ⟨i, _, _, rfl, ⟨rfl, found⟩, fits, rfl⟩
  exact ⟨i, found, by simpa using fits, by simp⟩

def AttrsBytes (t : Table) (attrs : List Attr) (bs : List UInt8) : Prop :=
  ∃ items, List.Forall₂ (AttrBytes t) attrs items ∧ bs = items.flatten

namespace AttrsBytes

variable {t : Table} {bs : List Attr}

theorem single (h : AttrBytes t a cs) : AttrsBytes t [a] cs := ⟨[cs], .cons h .nil, by simp⟩

theorem append (h : AttrsBytes t as cs) (k : AttrsBytes t bs ds) : AttrsBytes t (as ++ bs) (cs ++ ds) := by
  obtain ⟨items, each, rfl⟩ := h
  obtain ⟨items', each', rfl⟩ := k
  exact ⟨items ++ items', List.rel_append each each', List.flatten_append.symm⟩

theorem counted (h : AttrsBytes t as cs) (few : n < 65536) (size : as.length = n) :
    Tabled (AttrBytes t) as (be16 n.toUInt16 ++ cs) := by
  obtain ⟨items, each, rfl⟩ := h
  exact .of_count few size each

end AttrsBytes

variable {data : List UInt8} {D : List UInt8 → Prop} {none : Prop} {descriptor name : String}

theorem Serial.Writes.attrs (as : List (String × Array UInt8)) :
    Writes (Serial.attrs as) fun t _ bs => AttrsBytes t (as.map fun a => ⟨a.1, a.2.toList⟩) bs := by
  refine (Writes.forM (Q := fun a t bs => AttrBytes t ⟨a.1, a.2.toList⟩ bs) fun a _ => .attr a.1 a.2).weaken ?_
  rintro t _ _ ⟨bss, each, rfl⟩
  exact ⟨bss, List.forall₂_map_left_iff.mpr each, rfl⟩

def Optional (none : Prop) [Decidable none] (name : String) (D : List UInt8 → Prop) (attrs : List Attr) : Prop :=
  if none then attrs = [] else ∃ data, attrs = [⟨name, data⟩] ∧ D data

theorem Optional.names [Decidable none] {attrs : List Attr}
    (h : Optional none name D attrs) : attrs.map (·.name) = if none then [] else [name] := by
  unfold Optional at h
  split_ifs at h ⊢
  · rw [h]
    rfl
  · obtain ⟨data, rfl, -⟩ := h
    rfl

theorem Optional.length [Decidable none] {attrs : List Attr}
    (h : Optional none name D attrs) : attrs.length = if none then 0 else 1 := by
  rw [← List.length_map (·.name), h.names]
  split_ifs <;> rfl

theorem Serial.Writes.optional [Decidable none]
    {D : Table → List UInt8 → Prop} (h : Writes part fun t _ bs => ∃ data, AttrBytes t ⟨name, data⟩ bs ∧ D t data) :
    Writes (if none then Pure.pure () else part) fun t _ bs =>
      ∃ attrs, AttrsBytes t attrs bs ∧ Optional none name (D t) attrs := by
  unfold Optional
  split_ifs
  · refine (Writes.pure ()).weaken ?_
    rintro t _ _ ⟨-, rfl⟩
    exact ⟨[], ⟨[], .nil, rfl⟩, rfl⟩
  · refine h.weaken ?_
    rintro t _ bs ⟨data, written, laid⟩
    exact ⟨_, .single written, data, rfl, laid⟩

theorem reads_data (more : Nat) (fits : data.length < 4294967296) :
    Reads (ClassFile.readData more) (be32 data.length.toUInt32 ++ data) data := by
  have read := (ClassFile.Reader.reads_u4 data.length.toUInt32).bind (f := fun n => ClassFile.Reader.bytes n.toNat)
    ((toNat_toUInt32 fits).symm ▸ ClassFile.Reader.reads_bytes data)
  unfold ClassFile.readData
  split_ifs
  · exact read
  · exact read.orFault _

theorem reads_attrList
    (h : List.Forall₂ (AttrBytes t) attrs bss) : Reads (ClassFile.readAttrList t attrs.length) bss.flatten attrs := by
  induction h with
  | nil => exact .pure []
  | @cons a bs attrs bss first _ ih =>
    obtain ⟨i, name, fits, rfl⟩ := first
    refine (reads_index i).bind ?_
    refine (reads_checked name).skip ?_
    exact (reads_data attrs.length fits).bind ih.map

theorem reads_attrs (h : Tabled (AttrBytes t) attrs bs) : Reads (ClassFile.readAttrs t) bs attrs := by
  obtain ⟨items, each, few, rfl⟩ := h
  refine (reads_u2 _).bind ?_
  rw [toNat_toUInt16 few, ← each.length_eq]
  exact reads_attrList each

def HeadBytes (t : Table) (access : Access) (name descriptor : String) (bs : List UInt8) : Prop :=
  ∃ n d, t.utf8 n = .ok name ∧ t.utf8 d = .ok descriptor ∧ bs = be16 access.bits ++ (be16 n ++ be16 d)

theorem Serial.Writes.member (access : Access) (name descriptor : String) :
    Writes (Serial.member access name descriptor) fun t _ bs => HeadBytes t access name descriptor bs := by
  refine ((Writes.utf8 name).bind fun n => (Writes.utf8 descriptor).bind fun d => (Writes.u2 access.bits).bind fun _ =>
    (Writes.u2 n).bind fun _ => Writes.u2 d).weaken ?_
  rintro t _ _ ⟨n, _, _, rfl, ⟨rfl, name⟩, d, _, _, rfl, ⟨rfl, descriptor⟩, _, _, _, rfl, rfl, _, _, _, rfl, rfl, rfl⟩
  exact ⟨n, d, name, descriptor, rfl⟩

theorem reads_member (first : HeadBytes t access name descriptor head) (table : Tabled (AttrBytes t) attrs tail) :
    Reads (ClassFile.readMember t) (head ++ tail) ⟨access, name, descriptor, attrs⟩ := by
  obtain ⟨i, j, name, descriptor, rfl⟩ := first
  refine (reads_index _).bind ((reads_index i).bind ((reads_checked name).skip ?_))
  refine (reads_index j).bind ((reads_checked descriptor).skip ?_)
  exact ((reads_attrs table).within _).map

theorem reads_members (h : Tabled (fun i bs => ∃ m, Reads (ClassFile.readMember t) bs m ∧ S i m) items bs) :
    ∃ ms, Reads (ClassFile.readMembers t) bs ms ∧ List.Forall₂ S items ms := by
  obtain ⟨bss, each, few, rfl⟩ := h
  have split : ∃ ms, List.Forall₂ (Reads (ClassFile.readMember t)) bss ms ∧ List.Forall₂ S items ms := by
    clear few
    induction each with
    | nil => exact ⟨[], .nil, .nil⟩
    | cons first _ ih =>
      obtain ⟨m, read, shows⟩ := first
      obtain ⟨ms, reads, others⟩ := ih
      exact ⟨m :: ms, .cons read reads, .cons shows others⟩
  obtain ⟨ms, reads, shows⟩ := split
  refine ⟨ms, (reads_u2 _).bind ?_, shows⟩
  rw [toNat_toUInt16 few, reads.length_eq]
  exact ClassFile.Reader.reads_times reads

end ClassForge.Assembler

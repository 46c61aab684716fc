import ClassForge.ClassFile.Body
import ClassForge.Proofs.Interning
import ClassForge.Proofs.Utf8
import Mathlib.Data.List.Forall2

/-! Readers of class files on what the writer puts: numbers, texts and the constant pool. -/

namespace ClassForge

open List hiding count

namespace ModifiedUtf8

variable {n : Nat}

def charUnits (c : Char) : List Nat :=
  if c.toNat < 0x10000 then [c.toNat]
  else [0xd800 + (c.toNat - 0x10000) / 1024, 0xdc00 + (c.toNat - 0x10000) % 1024]

theorem units_one (h : n < 0x80) (r : List UInt8) : units (n.toUInt8 :: r) = n :: units r := by
  rw [units.eq_def]
  simp (disch := omega) only [UInt8.lt_iff_toNat_lt, UInt8.reduceToNat, Text.toNat_toUInt8, if_pos]

theorem units_two (h : n < 0x800) (r : List UInt8) :
    units ((0xc0 + n / 64).toUInt8 :: (0x80 + n % 64).toUInt8 :: r) = n :: units r := by
  rw [units.eq_def]
  simp (disch := omega) only [UInt8.lt_iff_toNat_lt, UInt8.reduceToNat, Text.toNat_toUInt8, if_pos, if_neg]
  congr 1
  omega

theorem units_three (h : n < 0x10000) (r : List UInt8) : units (three n ++ r) = n :: units r := by
  simp only [three, cons_append, nil_append]
  rw [units.eq_def]
  simp (disch := omega) only [UInt8.lt_iff_toNat_lt, UInt8.reduceToNat, Text.toNat_toUInt8, if_neg]
  congr 1
  omega

theorem units_encodeChar (c : Char) (r : List UInt8) : units (encodeChar c ++ r) = charUnits c ++ units r := by
  have valid := Text.scalar c
  unfold encodeChar charUnits
  dsimp only
  by_cases plane : c.toNat < 0x10000
  · rw [if_pos plane]
    split_ifs with ascii two
    · exact units_one ascii.2 r
    · exact units_two two r
    · exact units_three plane r
  · rw [if_neg (by omega), if_neg (by omega), if_neg plane, if_neg plane, append_assoc,
      units_three (by omega), units_three (by omega)]
    rfl

theorem units_encodeChars (cs : List Char) : units (encodeChars cs) = cs.flatMap charUnits := by
  induction cs with
  | nil => rfl
  | cons c cs ih =>
    rw [encodeChars, flatMap_cons, units_encodeChar, flatMap_cons]
    exact congrArg _ ih

theorem joinUnits_charUnits (cs : List Char) : joinUnits (cs.flatMap charUnits) = cs := by
  induction cs with
  | nil => rfl
  | cons c cs ih =>
    have valid := Text.scalar c
    rw [flatMap_cons]
    by_cases plane : c.toNat < 0x10000
    · rw [charUnits, if_pos plane, singleton_append]
      cases rest : cs.flatMap charUnits with
      | nil =>
        rw [rest] at ih
        rw [joinUnits, if_neg (by omega), Char.ofNat_toNat, ← ih]
        rfl
      | cons v r =>
        rw [joinUnits, if_neg (by omega), if_neg (by omega), Char.ofNat_toNat, ← rest, ih]
    · rw [charUnits, if_neg plane, cons_append, cons_append, joinUnits, if_pos (by omega), nil_append, ih]
      have back : 0x10000 + (0xd800 + (c.toNat - 0x10000) / 1024 - 0xd800) * 1024 +
          (0xdc00 + (c.toNat - 0x10000) % 1024 - 0xdc00) = c.toNat := by omega
      rw [back, Char.ofNat_toNat]

theorem decode_encode (s : String) : decode (encode s) = s := by
  rw [decode, encode, units_encodeChars, joinUnits_charUnits]
  exact String.ofList_toList

theorem length_encode (s : String) : (encode s).length = size s := by
  have count : ∀ (cs : List Char) (n : Nat),
      cs.foldl (fun n c => n + (encodeChar c).length) n = n + (encodeChars cs).length := by
    intro cs
    induction cs with
    | nil => exact fun n => rfl
    | cons c cs ih =>
      intro n
      rw [foldl_cons, ih, encodeChars, encodeChars, flatMap_cons, length_append]
      omega
  rw [size, count, encode, Nat.zero_add]

end ModifiedUtf8

namespace ClassFile

namespace Reader

variable {α β : Type} {bs : List UInt8} {r : Reader α} {x : α}

def Reads (r : Reader α) (bs : List UInt8) (x : α) : Prop :=
  ∀ (rest : List UInt8) (offset : Nat), r ⟨bs ++ rest, offset⟩ = .ok (x, ⟨rest, offset + bs.length⟩)

theorem Reads.pure (x : α) : Reads (Pure.pure x) [] x := fun _ _ => rfl

theorem Reads.bind (first : Reads r bs x) (second : Reads (f x) cs y) : Reads (r >>= f) (bs ++ cs) y := by
  intro rest offset
  change (r ⟨bs ++ cs ++ rest, offset⟩ >>= fun p => f p.1 p.2) = _
  rw [append_assoc, first (cs ++ rest) offset]
  refine (second rest _).trans ?_
  rw [length_append, Nat.add_assoc]

theorem Reads.map {f : α → β} (first : Reads r bs x) : Reads (do return f (← r)) bs (f x) := by
  have both := first.bind (f := fun x => Pure.pure (f x)) (Reads.pure (f x))
  rwa [append_nil] at both

theorem reads_bytes (bs : List UInt8) : Reads (bytes bs.length) bs bs := by
  intro rest offset
  simp [bytes]

theorem reads_number (bs : List UInt8) :
    Reads (number bs.length) bs (bs.foldl (fun k b => k * 256 + b.toNat) 0) := (reads_bytes bs).map

theorem reads_u1 (n : UInt8) : Reads u1 [n] n := by
  have read := (reads_number [n]).map (f := Nat.toUInt8)
  have back : (0 * 256 + n.toNat).toUInt8 = n := by simp
  rw [foldl_cons, foldl_nil, back] at read
  exact read

theorem value_be16 (n : UInt16) : (be16 n).foldl (fun k b => k * 256 + b.toNat) 0 = n.toNat := by
  have bound := n.toNat_lt
  simp [be16, Nat.shiftRight_eq_div_pow]
  omega

theorem value_be32 (n : UInt32) : (be32 n).foldl (fun k b => k * 256 + b.toNat) 0 = n.toNat := by
  have bound := n.toNat_lt
  simp [be32, Nat.shiftRight_eq_div_pow]
  omega

theorem reads_u2 (n : UInt16) : Reads u2 (be16 n) n := by
  have read := (reads_number (be16 n)).map (f := Nat.toUInt16)
  have back : n.toNat.toUInt16 = n := by simp
  rw [value_be16, back] at read
  exact read

theorem reads_u4 (n : UInt32) : Reads u4 (be32 n) n := by
  have read := (reads_number (be32 n)).map (f := Nat.toUInt32)
  have back : n.toNat.toUInt32 = n := by simp
  rw [value_be32, back] at read
  exact read

theorem reads_u8 (n : UInt64) : Reads u8 (be64 n) n := by
  have low := (reads_number (be32 n.toUInt32)).map (f := fun lo => ((n >>> 32).toUInt32.toNat * 4294967296 + lo).toUInt64)
  have read := (reads_number (be32 (n >>> 32).toUInt32))
  rw [value_be32] at low read
  have both := read.bind (f := fun hi => do return (hi * 4294967296 + (← number 4)).toUInt64) low
  have back : ((n >>> 32).toUInt32.toNat * 4294967296 + n.toUInt32.toNat).toUInt64 = n := by
    apply UInt64.toNat_inj.mp
    have bound := n.toNat_lt
    simp [Nat.shiftRight_eq_div_pow]
    omega
  rw [back] at both
  exact both

theorem Reads.orFault (h : Reads r bs x) (e : Fault) : Reads (r.orFault e) bs x := by
  intro rest offset
  rw [Reader.orFault, h rest offset]

theorem Reads.within (h : Reads r bs x) (what : String) : Reads (Reader.within what r) bs x := by
  intro rest offset
  rw [Reader.within, h rest offset]

theorem reads_index (n : UInt16) : Reads index (be16 n) n := (reads_u2 n).orFault _

theorem reads_checked {r : Except Fault α} (h : r = .ok x) : Reads (checked r) [] x := by
  rw [h]
  exact Reads.pure x

theorem Reads.skip (first : Reads r [] x) (rest : Reads (f x) bs y) : Reads (r >>= f) bs y := first.bind rest

theorem reads_times (h : List.Forall₂ (Reads r) bss xs) : Reads (times r xs.length) bss.flatten xs := by
  induction h with
  | nil => exact Reads.pure []
  | cons first _ ih => exact first.bind ih.map

end Reader

end ClassFile

namespace Writer

variable {w : Writer} {bs : List UInt8} {n : Nat} {what : String} {a : Array UInt8} {b : UInt8}

@[simp] theorem overflow_put : (w.put bs).overflow = w.overflow := by cases w; rfl
@[simp] theorem toList_put : (w.put bs).bytes.toList = w.bytes.toList ++ bs := by simp [put]

@[simp] theorem overflow_u1 : (w.u1 b).overflow = w.overflow := by cases w; rfl
@[simp] theorem toList_u1 : (w.u1 b).bytes.toList = w.bytes.toList ++ [b] := by simp [u1]

@[simp] theorem overflow_raw : (w.raw a).overflow = w.overflow := by cases w; rfl
@[simp] theorem toList_raw : (w.raw a).bytes.toList = w.bytes.toList ++ a.toList := by simp [raw]

theorem overflow_fail (e : Overflow) : (w.fail e).overflow ≠ none := by
  unfold fail
  split <;> simp_all

theorem of_len2 (h : (w.len2 n what).overflow = none) : n < 65536 ∧ w.overflow = none ∧
    (w.len2 n what).bytes.toList = w.bytes.toList ++ be16 n.toUInt16 := by
  unfold len2 at h ⊢
  split_ifs at h ⊢ with fits
  · exact ⟨by omega, h, toList_put⟩
  · exact absurd h (overflow_fail _)

theorem of_len4 (h : (w.len4 n what).overflow = none) : n < 4294967296 ∧ w.overflow = none ∧
    (w.len4 n what).bytes.toList = w.bytes.toList ++ be32 n.toUInt32 := by
  unfold len4 at h ⊢
  split_ifs at h ⊢ with fits
  · exact ⟨by omega, h, toList_put⟩
  · exact absurd h (overflow_fail _)

end Writer

def Constant.payload : Constant → List UInt8
  | .utf8 s => be16 (ModifiedUtf8.encode s).length.toUInt16 ++ ModifiedUtf8.encode s
  | .integer v | .float v => be32 v
  | .long v | .double v => be64 v
  | .classRef a | .string a => be16 a
  | .member _ a b | .nameAndType a b => be16 a ++ be16 b

def Constant.Short (c : Constant) : Prop := ∀ s, c = .utf8 s → (ModifiedUtf8.encode s).length < 65536

theorem Pool.of_writeConstant (h : (writeConstant w c).overflow = none) :
    w.overflow = none ∧ c.Short ∧ (writeConstant w c).bytes.toList = w.bytes.toList ++ (c.tag.code :: c.payload) := by
  cases c with
  | utf8 s =>
    simp only [writeConstant, Writer.overflow_put] at h
    obtain ⟨short, whole, written⟩ := Writer.of_len2 h
    refine ⟨whole, fun t same => ?_, ?_⟩
    · rw [← Constant.utf8.inj same]
      exact short
    simp only [writeConstant, Writer.toList_put, Constant.payload]
    rw [written]
    simp [Constant.tag]
  | integer | float | long | double | classRef | string | member | nameAndType =>
    refine ⟨?_, by rintro _ ⟨⟩, ?_⟩
    · simpa [writeConstant, Writer.u2, Writer.u4, Writer.u8] using h
    · simp [writeConstant, Constant.tag, Writer.u2, Writer.u4, Writer.u8, Constant.payload]

namespace Pool

variable {w : Writer}

def image (entries : List (UInt16 × Constant)) : List UInt8 := entries.flatMap fun e => e.2.tag.code :: e.2.payload

theorem of_writeConstants {entries : List (UInt16 × Constant)}
    (h : (entries.foldl (fun w e => writeConstant w e.2) w).overflow = none) : w.overflow = none ∧
      (∀ e ∈ entries, e.2.Short) ∧
      (entries.foldl (fun w e => writeConstant w e.2) w).bytes.toList = w.bytes.toList ++ image entries := by
  induction entries generalizing w with
  | nil => exact ⟨h, by simp, by simp [image]⟩
  | cons e entries ih =>
    obtain ⟨whole, short, written⟩ := ih h
    obtain ⟨before, first, bytes⟩ := of_writeConstant whole
    refine ⟨before, forall_mem_cons.mpr ⟨first, short⟩, ?_⟩
    rw [foldl_cons, written, bytes, image, image, flatMap_cons, append_assoc]

theorem of_write {p : Pool} (h : (p.write w).overflow = none) : p.next < 65536 ∧ w.overflow = none ∧
    (∀ e ∈ p.entries.toList, e.2.Short) ∧
    (p.write w).bytes.toList = w.bytes.toList ++ (be16 p.next.toUInt16 ++ image p.entries.toList) := by
  unfold write at h ⊢
  rw [← Array.foldl_toList] at h ⊢
  obtain ⟨whole, short, written⟩ := of_writeConstants h
  obtain ⟨few, before, bytes⟩ := Writer.of_len2 whole
  exact ⟨few, before, short, by rw [written, bytes, append_assoc]⟩

end Pool

namespace ClassFile

open Reader

theorem reads_constant (i : Nat) (short : c.Short) : Reads (readConstant i c.tag.code) c.payload c := by
  cases c with
  | utf8 s =>
    have size : (ModifiedUtf8.encode s).length.toUInt16.toNat = (ModifiedUtf8.encode s).length := by
      have := short s rfl
      simp only [Nat.toUInt16_eq, UInt16.toNat_ofNat']
      omega
    refine (reads_u2 _).bind ?_
    rw [size]
    have text := (reads_bytes (ModifiedUtf8.encode s)).map (f := fun bs => Constant.utf8 (ModifiedUtf8.decode bs))
    rwa [ModifiedUtf8.decode_encode] at text
  | integer v | float v => exact (reads_u4 v).map
  | long v | double v => exact (reads_u8 v).map
  | classRef a | string a => exact (reads_u2 a).map
  | member kind a b =>
    cases kind with
    | field | method | interfaceMethod => exact (reads_u2 a).bind (reads_u2 b).map
  | nameAndType a b => exact (reads_u2 a).bind (reads_u2 b).map

namespace Table

def places (c : Constant) : List (Option Constant) := if c.tag.isWide then [some c, none] else [some c]

theorem length_places (c : Constant) : (places c).length = c.tag.width := by
  unfold places Tag.width
  split <;> rfl

theorem places_zero (c : Constant) : (places c)[0]? = some (some c) := by
  unfold places
  split <;> rfl

end Table

theorem reads_pool (numbered : Pool.Numbered table.size entries count) (short : ∀ e ∈ entries, e.2.Short)
    (enough : entries.length ≤ fuel) : Reads (readPool count fuel table) (Pool.image entries)
    (table ++ (entries.flatMap fun e => Table.places e.2).toArray) := by
  induction entries generalizing table fuel with
  | nil =>
    have full : table.size = count := numbered
    have same : table ++ #[] = table := by simp
    cases fuel with
    | zero => exact same ▸ Reads.pure table
    | succ fuel =>
      rw [readPool, if_pos (by omega), Pool.image, flatMap_nil, flatMap_nil]
      exact same ▸ Reads.pure table
  | cons e entries ih =>
    obtain ⟨fuel, rfl⟩ := Nat.exists_eq_add_of_le' (Nat.lt_of_lt_of_le (Nat.succ_pos _) enough)
    obtain ⟨first, others⟩ := numbered
    have width := e.2.tag.width_pos
    have range := others.le
    rw [readPool, if_neg (by omega), Pool.image, flatMap_cons, cons_append]
    refine ((reads_u1 _).orFault _).bind ((reads_constant _ (short e mem_cons_self)).bind ?_)
    have grown : (if e.2.tag.isWide && decide (table.size + 1 < count) then (table.push (some e.2)).push none
        else table.push (some e.2)) = table ++ (Table.places e.2).toArray := by
      unfold Table.places
      cases wide : e.2.tag.isWide with
      | false => simp
      | true =>
        rw [Tag.width, wide] at range
        have more : table.size + 1 < count := by simp at range; omega
        simp [more]
        rfl
    dsimp only
    rw [grown]
    have size : (table ++ (Table.places e.2).toArray).size = table.size + e.2.tag.width := by
      simp [Table.length_places]
    have rest := @ih fuel (table ++ (Table.places e.2).toArray) (size ▸ others)
      (fun x hx => short x (mem_cons_of_mem _ hx)) (by simp at enough; omega)
    have spread : table ++ ((e :: entries).flatMap fun e => Table.places e.2).toArray =
        table ++ (Table.places e.2).toArray ++ (entries.flatMap fun e => Table.places e.2).toArray := by simp
    exact spread ▸ rest

namespace Table

variable {s : String}

def Holds (t : Table) (p : Pool) : Prop := ∀ (i : UInt16) (c : Constant), p.get? i = some c → t.entry i = .ok (some c)

variable {t : Table} {p : Pool} {i : UInt16}

theorem Holds.mono (h : t.Holds q) (le : p.Le q) : t.Holds p := fun i c found => h i c (le i c found)

theorem Holds.utf8 (h : t.Holds p) (found : p.text? i = some s) : t.utf8 i = .ok s := by
  unfold Pool.text? at found
  split at found
  · rename_i entry
    cases found
    rw [Table.utf8, h i _ entry]
    rfl
  · cases found

theorem Holds.className (h : t.Holds p) (found : p.className? i = some s) : t.className i = .ok s := by
  unfold Pool.className? at found
  split at found
  · rename_i entry
    rw [Table.className, h i _ entry]
    exact h.utf8 found
  · cases found

theorem getElem?_places (numbered : Pool.Numbered n entries m) (he : e ∈ entries) (here : (places e.2)[k]? = some x) :
    (entries.flatMap fun e => places e.2)[e.1.toNat + k - n]? = some x := by
  induction entries generalizing n with
  | nil => cases he
  | cons f entries ih =>
    obtain ⟨first, others⟩ := numbered
    rw [flatMap_cons]
    rcases mem_cons.mp he with rfl | later
    · rw [first, Nat.add_sub_cancel_left, getElem?_append_left (List.getElem?_eq_some_iff.mp here).1, here]
    · have behind := (others.range later).1
      rw [getElem?_append_right (by rw [length_places]; omega), length_places, Nat.sub_sub]
      exact ih others later

def ofPool (p : Pool) : Table := #[none] ++ (p.entries.toList.flatMap fun e => places e.2).toArray

theorem size_ofPool (sound : p.Sound) : (ofPool p).size = p.count := by
  have counted : ∀ {n m : Nat} {entries : List (UInt16 × Constant)}, Pool.Numbered n entries m →
      n + (entries.flatMap fun e => places e.2).length = m := by
    intro n m entries numbered
    induction entries generalizing n with
    | nil => exact numbered
    | cons e entries ih =>
      rw [flatMap_cons, length_append, length_places, ← Nat.add_assoc]
      exact ih numbered.2
  have all := counted sound.numbered
  rw [ofPool, Array.size_append, size_toArray]
  exact all

theorem reads_ofPool (sound : p.Sound) (short : ∀ e ∈ p.entries.toList, e.2.Short) :
    Reads readTable (be16 p.next.toUInt16 ++ Pool.image p.entries.toList) (ofPool p) := by
  have room := sound.numbered.length_le
  have count : p.next.toUInt16.toNat = p.next := Pool.toNat_next sound
  refine (reads_u2 _).bind ?_
  dsimp only
  rw [count, if_neg (by omega)]
  exact reads_pool sound.numbered short (by omega)

theorem holds_ofPool (sound : p.Sound) : (ofPool p).Holds p := by
  intro i c found
  obtain ⟨inside, -⟩ := sound.index_range found
  obtain ⟨e, there, rfl⟩ := Option.map_eq_some_iff.mp found
  have same := Array.find?_some there
  simp only [beq_iff_eq] at same
  have mem := Array.mem_toList_iff.mpr (Array.mem_of_find?_eq_some there)
  have low := (sound.numbered.range mem).1
  have place := getElem?_places sound.numbered mem (places_zero _)
  rw [same, Nat.add_zero] at place
  rw [same] at low
  rw [entry, ofPool, Array.getElem?_append_right (by simpa using low)]
  simp only [getElem?_toArray, size_toArray, length_cons, length_nil, Nat.zero_add]
  rw [place]
  simp [inside]

end Table

end ClassFile

end ClassForge

import ClassForge.Proofs.Writing

/-! Annotations as written: each value reads back, and each table stands behind the number of its
items. -/

namespace ClassForge

open List

namespace ClassFile

open Reader

/-- The value of an annotation element. A tag tells numbers of 32 bits apart, and texts from
classes. -/
inductive Element
  | int (tag : Char) (n : Int32)
  | long (n : Int64)
  | float (bits : UInt32)
  | double (bits : UInt64)
  | text (tag : Char) (s : String)
  | enumeration (type name : String)
  | nested (type : String) (elements : List (String × Element))
  | array (elements : List Element)

def Element.ofConstant? : Char → Constant → Option Element
  | 'D', .double b => some (.double b)
  | 'F', .float b => some (.float b)
  | 'J', .long v => some (.long v.toInt64)
  | tag, .integer v => if tag ∈ ['B', 'C', 'I', 'S', 'Z'] then some (.int tag v.toInt32) else none
  | _, _ => none

def readText (t : Table) : Reader String := do checked (t.utf8 (← u2))

def readNumber (t : Table) (tag : Char) (i : UInt16) : Reader Element := do
  match (← checked (t.entry i)).bind (Element.ofConstant? tag) with
  | some x => pure x
  | none => throw (.noEntry i.toNat)

def readPairs (t : Table) (element : Reader Element) : Reader (String × List (String × Element)) := do
  return (← readText t, ← times (do return (← readText t, ← element)) (← u2).toNat)

def readElement (t : Table) : Nat → Reader Element
  | 0 => throw (.noEntry 0)
  | depth + 1 => do
    let tag := Char.ofNat (← u1).toNat
    match tag with
    | 's' | 'c' => return .text tag (← readText t)
    | 'e' => return .enumeration (← readText t) (← readText t)
    | '@' => return (fun a => .nested a.1 a.2) (← readPairs t (readElement t depth))
    | '[' => return .array (← times (readElement t depth) (← u2).toNat)
    | tag => readNumber t tag (← u2)

def readAnnotated (t : Table) : Reader (String × List (String × Element)) := fun c =>
  readPairs t (readElement t c.rest.length) c

section

variable {α : Type} {t : Table} {i : UInt16} {s : String} {bs : List UInt8} {x : Element} {items : List (List UInt8)}

def Spells (r : Nat → Reader α) (bs : List UInt8) (x : α) : Prop := ∀ depth, bs.length ≤ depth → Reads (r depth) bs x

theorem reads_text (found : t.utf8 i = .ok s) : Reads (readText t) (be16 i) s := by
  have read := (reads_u2 i).bind (f := fun i => checked (t.utf8 i)) (reads_checked found)
  rwa [append_nil] at read

theorem spells_times (each : List.Forall₂ (Spells r) items xs)
    (room : items.flatten.length ≤ d) : Reads (times (r d) xs.length) items.flatten xs := by
  induction each with
  | nil => exact Reads.pure []
  | cons first _ ih =>
    rw [flatten_cons, length_append] at room
    exact (first d (by omega)).bind (ih (by omega)).map

theorem spells_number (tag : c ∈ ['B', 'C', 'D', 'F', 'I', 'J', 'S', 'Z']) (found : t.entry i = .ok (some k))
    (is : Element.ofConstant? c k = some x) : Spells (readElement t) (c.toNat.toUInt8 :: be16 i) x := by
  intro depth room
  obtain ⟨depth, rfl⟩ := Nat.exists_eq_add_of_le' (Nat.lt_of_lt_of_le (Nat.succ_pos _) room)
  have number : Reads (readNumber t c i) [] x := by
    refine (reads_checked found).skip ?_
    rw [Option.bind_some, is]
    exact Reads.pure x
  have read := (reads_u2 i).bind (f := readNumber t c) number
  simp only [mem_cons, not_mem_nil, or_false] at tag
  rcases tag with rfl | rfl | rfl | rfl | rfl | rfl | rfl | rfl <;> exact (reads_u1 _).bind read

theorem spells_text (tag : c = 's' ∨ c = 'c') (found : t.utf8 i = .ok s) :
    Spells (readElement t) (c.toNat.toUInt8 :: be16 i) (.text c s) := by
  intro depth room
  obtain ⟨depth, rfl⟩ := Nat.exists_eq_add_of_le' (Nat.lt_of_lt_of_le (Nat.succ_pos _) room)
  rcases tag with rfl | rfl <;> exact (reads_u1 _).bind (reads_text found).map

end

end ClassFile

namespace Assembler

open ClassFile (Table Element Spells readElement readPairs readText readAnnotated)
open ClassFile.Reader (Reads reads_u1 reads_u2)
open Serial (Writes)

def Literal.isPlain : Literal → Bool
  | .bool _ | .integer .. | .float _ | .double _ | .text _ | .type _ => true
  | _ => false

mutual

inductive ValueBytes : Literal → List UInt8 → Prop
  | plain {v : Literal} {tag : UInt8} {i : UInt16} : v.isPlain = true → ValueBytes v (tag :: be16 i)
  | enumeration {type : JType} {name : String} {tag : UInt8} {i j : UInt16} :
      ValueBytes (.enumeration type name) (tag :: (be16 i ++ be16 j))
  | nested {type : JType} {visible : Bool} {es : List (String × Literal)} {tag : UInt8} {i : UInt16}
      {items : List (List UInt8)} {bs : List UInt8} : PairsBytes es items → Counted items bs →
      ValueBytes (.nested type visible es) (tag :: (be16 i ++ bs))
  | texts {xs : List String} {tag : UInt8} {bs : List UInt8} :
      Tabled (fun _ b => ∃ tag i, b = tag :: be16 i) xs bs → ValueBytes (.texts xs) (tag :: bs)
  | list {xs : List Literal} {tag : UInt8} {items : List (List UInt8)} {bs : List UInt8} : ValuesBytes xs items →
      Counted items bs → ValueBytes (.list xs) (tag :: bs)

inductive PairsBytes : List (String × Literal) → List (List UInt8) → Prop
  | nil : PairsBytes [] []
  | cons {key : String} {v : Literal} {es : List (String × Literal)} {i : UInt16} {bs : List UInt8}
      {items : List (List UInt8)} : ValueBytes v bs → PairsBytes es items →
      PairsBytes ((key, v) :: es) ((be16 i ++ bs) :: items)

inductive ValuesBytes : List Literal → List (List UInt8) → Prop
  | nil : ValuesBytes [] []
  | cons {v : Literal} {vs : List Literal} {bs : List UInt8} {items : List (List UInt8)} : ValueBytes v bs →
      ValuesBytes vs items → ValuesBytes (v :: vs) (bs :: items)

end

def Annotation.Laid (a : Annotation) (bs : List UInt8) : Prop :=
  ∃ i items tail, PairsBytes a.elements items ∧ Counted items tail ∧ bs = be16 i ++ tail

/-- The annotation can be laid out: two bytes can count the items of each of its tables. -/
def Annotation.Fits (a : Annotation) : Prop := ∃ bs, a.Laid bs

/-! Values as they read back. -/

/-- The type of an annotation, unless it is not a class or has too many elements. -/
def annotated? (name : String) (type : JType) (size : Nat) (es : Option (List (String × Element))) :
    Option (String × List (String × Element)) :=
  if !(type.resolve name).isReference || (type.resolve name).isArray || (type.resolve name).isNull || 65536 ≤ size then none
  else es.map ((type.resolve name).descriptor, ·)

mutual

/-- What the value is in a class file: nothing for one of another kind, a bad name of an element, or
a list that two bytes cannot count. -/
def Literal.element? (name : String) : Literal → Option Element
  | .bool b => some (.int 'Z' (if b then 1 else 0))
  | .integer .int8 n => some (.int 'B' (.ofInt n))
  | .integer .int16 n => some (.int 'S' (.ofInt n))
  | .integer .uint16 n => some (.int 'C' (.ofInt n))
  | .integer .int32 n => some (.int 'I' (.ofInt n))
  | .integer .int n => if -2147483648 ≤ n ∧ n ≤ 2147483647 then some (.int 'I' (.ofInt n)) else none
  | .integer .int64 n => some (.long (.ofInt n))
  | .float b => some (.float b)
  | .double b => some (.double b)
  | .text s => some (.text 's' s)
  | .type t => some (.text 'c' (t.resolve name).descriptor)
  | .enumeration t constant => some (.enumeration (t.resolve name).descriptor constant)
  | .nested t _ es => (annotated? name t es.length (pairs? name es)).map fun a => .nested a.1 a.2
  | .texts xs => if xs.length < 65536 then some (.array (xs.map (.text 's'))) else none
  | .list xs => if xs.length < 65536 then (values? name xs).map .array else none
  | .null | .integer .. => none

def pairs? (name : String) : List (String × Literal) → Option (List (String × Element))
  | [] => some []
  | (key, v) :: rest =>
    if (checkName key).isOk then do return (key, ← v.element? name) :: (← pairs? name rest) else none

def values? (name : String) : List Literal → Option (List Element)
  | [] => some []
  | v :: rest => do return (← v.element? name) :: (← values? name rest)

end

def Annotation.shown? (name : String) (a : Annotation) : Option (String × List (String × Element)) :=
  annotated? name a.type a.elements.length (pairs? name a.elements)

namespace Annotation

variable {items : List (List UInt8)} {a : Pool.Action UInt16} {t : Table} {x : Element}

theorem length_pairsBytes (h : PairsBytes es items) : items.length = es.length := by
  induction es generalizing items with
  | nil =>
    cases h
    rfl
  | cons e es ih =>
    cases h with
    | cons _ rest => exact congrArg (· + 1) (ih rest)

theorem length_valuesBytes (h : ValuesBytes vs items) : items.length = vs.length := by
  induction vs generalizing items with
  | nil =>
    cases h
    rfl
  | cons v vs ih =>
    cases h with
    | cons _ rest => exact congrArg (· + 1) (ih rest)

theorem writes_tagged {c : Char} {Q : Table → UInt16 → Prop} (interns : Pool.Interns a found)
    (read : ∀ p t i, found p i → Table.Holds t p → Q t i) :
    Writes (tagged c a) fun t _ bs => ∃ i, Q t i ∧ bs = c.toNat.toUInt8 :: be16 i := by
  refine ((Writes.intern interns read).bind fun i => (Writes.u1 _).bind fun _ => Writes.u2 i).weaken ?_
  rintro t _ _ ⟨i, _, _, rfl, ⟨rfl, holds⟩, _, _, _, rfl, rfl, rfl⟩
  exact ⟨i, holds, rfl⟩

def Written (name : String) (v : Literal) (t : Table) (bs : List UInt8) : Prop :=
  ValueBytes v bs ∧ ∃ x, v.element? name = some x ∧ Spells (readElement t) bs x

theorem writes_number {name : String} {v : Literal} {c : Char} {k : Constant} (plain : v.isPlain = true)
    (tag : c ∈ ['B', 'C', 'D', 'F', 'I', 'J', 'S', 'Z']) (shown : v.element? name = Element.ofConstant? c k)
    (is : Element.ofConstant? c k = some x) : Writes (tagged c (Pool.intern k)) fun t _ bs => Written name v t bs := by
  refine (writes_tagged (Q := fun t i => t.entry i = .ok (some k)) (Pool.interns_intern k) fun p t i entry holds =>
    holds i k entry).weaken ?_
  rintro t _ _ ⟨i, entry, rfl⟩
  exact ⟨.plain plain, x, shown.trans is, ClassFile.spells_number tag entry is⟩

theorem writes_string {c : Char} (tag : c = 's' ∨ c = 'c') (s : String) : Writes (tagged c (Pool.utf8 s)) fun t _ bs =>
    ∃ i, Spells (readElement t) bs (.text c s) ∧ bs = c.toNat.toUInt8 :: be16 i := by
  refine (writes_tagged (Q := fun t i => t.utf8 i = .ok s) (Pool.interns_utf8 s) fun _ _ _ found holds =>
    holds.utf8 found).weaken ?_
  rintro t _ _ ⟨i, found, rfl⟩
  exact ⟨i, ClassFile.spells_text tag found, rfl⟩

theorem writes_header (name : String) (type : JType) (n : Nat) : Writes (header name type n) fun t _ bs =>
    n < 65536 ∧ (∀ es, annotated? name type n (some es) = some ((type.resolve name).descriptor, es)) ∧
      ∃ i, t.utf8 i = .ok (type.resolve name).descriptor ∧ bs = be16 i ++ be16 n.toUInt16 := by
  unfold header
  dsimp only
  split_ifs with other
  · exact .throw rfl
  · refine ((Writes.utf8 _).bind fun i => (Writes.u2 i).bind fun _ => Writes.count n _).weaken ?_
    rintro t _ _ ⟨i, _, _, rfl, ⟨rfl, text⟩, _, _, _, rfl, rfl, few, rfl⟩
    refine ⟨few, fun es => ?_, i, text, rfl⟩
    rw [annotated?, if_neg, Option.map_some]
    rw [Bool.or_eq_true, not_or, decide_eq_true_eq]
    exact ⟨other, by omega⟩

theorem writes_texts (xs : List String) : Writes (texts xs) fun t _ bs => ∃ items,
    List.Forall₂ (fun _ b => ∃ tag i, b = tag :: be16 i) xs items ∧ bs = items.flatten ∧
      List.Forall₂ (Spells (readElement t)) items (xs.map (.text 's')) := by
  induction xs with
  | nil =>
    refine (Writes.pure ()).weaken ?_
    rintro t _ _ ⟨-, rfl⟩
    exact ⟨[], .nil, rfl, .nil⟩
  | cons s xs ih =>
    refine ((writes_string (.inl rfl) s).bind fun _ => ih).weaken ?_
    rintro t _ _ ⟨_, bs, _, rfl, ⟨i, spells, shape⟩, items, rest, rfl, others⟩
    exact ⟨bs :: items, .cons ⟨_, i, shape⟩ rest, rfl, .cons spells others⟩

theorem spells_array (few : items.length < 65536) (each : List.Forall₂ (Spells (readElement t)) items xs) :
    Spells (readElement t) ('['.toNat.toUInt8 :: (be16 items.length.toUInt16 ++ items.flatten)) (.array xs) := by
  intro depth room
  obtain ⟨depth, rfl⟩ := Nat.exists_eq_add_of_le' (Nat.lt_of_lt_of_le (Nat.succ_pos _) room)
  simp only [length_cons, length_append] at room
  have all := ClassFile.spells_times each (d := depth) (by omega)
  rw [← each.length_eq, ← toNat_toUInt16 few] at all
  exact (reads_u1 _).bind ((reads_u2 _).bind all.map)

/-- An annotation is read off its type and its elements, as deep as its bytes are many. -/
theorem spells_pairs {type : String} (text : t.utf8 i = .ok type) (few : items.length < 65536)
    (each : List.Forall₂ (Spells fun depth => do return (← readText t, ← readElement t depth)) items xs) :
    Spells (fun depth => readPairs t (readElement t depth)) (be16 i ++ (be16 items.length.toUInt16 ++ items.flatten))
      (type, xs) := by
  intro depth room
  simp only [length_append] at room
  have all := ClassFile.spells_times each (d := depth) (by omega)
  rw [← each.length_eq, ← toNat_toUInt16 few] at all
  exact (ClassFile.reads_text text).bind ((reads_u2 _).bind all.map)

mutual

theorem writes_encodeValue (name : String) : ∀ v : Literal, Writes (encodeValue name v) fun t _ bs => Written name v t bs
  | .bool b => writes_number rfl (by decide) (by cases b <;> rfl) rfl
  | .integer w n => by
    cases w with
    | int =>
      unfold encodeValue
      split
      · rename_i fits
        have range : -2147483648 ≤ n ∧ n ≤ 2147483647 := by
          by_contra out
          have refused : constantFor .int (.integer .int n) = .error _ := if_neg out
          rw [refused] at fits
          cases fits
        exact writes_number rfl (by decide) (if_pos range) rfl
      · exact .throw (Step.constantFor_mild _ _ _ ‹_›)
    | int8 | int16 | uint16 | int32 | int64 => exact writes_number rfl (by decide) rfl rfl
    | uint8 | uint32 | uint64 => exact .throw rfl
  | .float _ | .double _ => writes_number rfl (by decide) rfl rfl
  | .text s => by
    refine (writes_string (.inl rfl) s).weaken ?_
    rintro t _ _ ⟨i, spells, rfl⟩
    exact ⟨.plain rfl, _, rfl, spells⟩
  | .type u => by
    refine (writes_string (.inr rfl) (u.resolve name).descriptor).weaken ?_
    rintro t _ _ ⟨i, spells, rfl⟩
    exact ⟨.plain rfl, _, rfl, spells⟩
  | .enumeration _ _ => by
    refine ((Writes.utf8 _).bind fun i => (Writes.utf8 _).bind fun j => (Writes.u1 _).bind fun _ => (Writes.u2 i).bind fun _ =>
      Writes.u2 j).weaken ?_
    rintro t _ _ ⟨i, _, _, rfl, ⟨rfl, first⟩, j, _, _, rfl, ⟨rfl, second⟩, _, _, _, rfl, rfl, _, _, _, rfl, rfl, rfl⟩
    refine ⟨.enumeration, _, rfl, fun depth room => ?_⟩
    obtain ⟨depth, rfl⟩ := Nat.exists_eq_add_of_le' (Nat.lt_of_lt_of_le (Nat.succ_pos _) room)
    exact (reads_u1 _).bind ((ClassFile.reads_text first).bind (ClassFile.reads_text second).map)
  | .nested type visible es => by
    refine ((Writes.u1 _).bind fun _ => (writes_header name type es.length).bind fun _ => writes_encodePairs name es).weaken ?_
    rintro t _ _ ⟨_, _, _, rfl, rfl, _, _, _, rfl, ⟨few, headed, i, text, rfl⟩, items, pairs, rfl, xs, shown, each⟩
    have is : (Literal.nested type visible es).element? name = some (.nested (type.resolve name).descriptor xs) := by
      rw [Literal.element?, shown, headed, Option.map_some]
    rw [← length_pairsBytes pairs, append_assoc] at *
    refine ⟨.nested pairs ⟨few, rfl⟩, _, is, fun depth room => ?_⟩
    obtain ⟨depth, rfl⟩ := Nat.exists_eq_add_of_le' (Nat.lt_of_lt_of_le (Nat.succ_pos _) room)
    exact (reads_u1 _).bind ((spells_pairs text few each) depth (by simpa using room)).map
  | .texts xs => by
    refine ((Writes.u1 _).bind fun _ => (Writes.count _ _).bind fun _ => writes_texts xs).weaken ?_
    rintro t _ _ ⟨_, _, _, rfl, rfl, _, _, _, rfl, ⟨few, rfl⟩, items, each, rfl, spells⟩
    refine ⟨.texts (.of_count few rfl each), _, if_pos few, ?_⟩
    rw [each.length_eq] at few ⊢
    exact spells_array few spells
  | .list xs => by
    refine ((Writes.u1 _).bind fun _ => (Writes.count _ _).bind fun _ => writes_encodeValues name xs).weaken ?_
    rintro t _ _ ⟨_, _, _, rfl, rfl, _, _, _, rfl, ⟨few, rfl⟩, items, values, rfl, ys, shown, each⟩
    have is : (Literal.list xs).element? name = some (.array ys) := by rw [Literal.element?, if_pos few, shown]; rfl
    rw [← length_valuesBytes values] at *
    exact ⟨.list values ⟨few, rfl⟩, _, is, spells_array few each⟩
  | .null => by
    exact .throw rfl

theorem writes_encodePairs (name : String) : ∀ es : List (String × Literal), Writes (encodePairs name es) fun t _ bs =>
    ∃ items, PairsBytes es items ∧ bs = items.flatten ∧ ∃ xs, pairs? name es = some xs ∧
      List.Forall₂ (Spells fun depth => do return (← readText t, ← readElement t depth)) items xs
  | [] => by
    refine (Writes.pure ()).weaken ?_
    rintro t _ _ ⟨-, rfl⟩
    exact ⟨[], .nil, rfl, [], rfl, .nil⟩
  | (key, v) :: rest => by
    unfold encodePairs
    split
    · exact .throw (Step.checkName_mild _ _ ‹_›)
    · rename_i named
      refine ((Writes.utf8 _).bind fun i => (Writes.u2 i).bind fun _ => (writes_encodeValue name v).bind fun _ =>
        writes_encodePairs name rest).weaken ?_
      rintro t _ _ ⟨i, _, _, rfl, ⟨rfl, text⟩, _, _, _, rfl, rfl, _, bs, _, rfl, ⟨first, x, is, spells⟩, items, others, rfl, xs,
        shown, each⟩
      refine ⟨(be16 i ++ bs) :: items, .cons first others, by simp, (key, x) :: xs, ?_, .cons (fun depth room => ?_) each⟩
      · simp [pairs?, named, Except.isOk, Except.toBool, is, shown]
      · simp only [List.length_append] at room
        exact (ClassFile.reads_text text).bind (spells depth (by omega)).map

theorem writes_encodeValues (name : String) : ∀ vs : List Literal, Writes (encodeValues name vs) fun t _ bs =>
    ∃ items, ValuesBytes vs items ∧ bs = items.flatten ∧ ∃ xs, values? name vs = some xs ∧
      List.Forall₂ (Spells (readElement t)) items xs
  | [] => by
    refine (Writes.pure ()).weaken ?_
    rintro t _ _ ⟨-, rfl⟩
    exact ⟨[], .nil, rfl, [], rfl, .nil⟩
  | v :: rest => by
    unfold encodeValues
    refine ((writes_encodeValue name v).bind fun _ => writes_encodeValues name rest).weaken ?_
    rintro t _ _ ⟨_, bs, _, rfl, ⟨first, x, is, spells⟩, items, others, rfl, xs, shown, each⟩
    exact ⟨bs :: items, .cons first others, rfl, x :: xs, by simp [values?, is, shown], .cons spells each⟩

end

theorem writes_encode (name : String) (a : Annotation) : Writes (encode name a) fun t _ bs => a.Laid bs ∧
    ∃ x, a.shown? name = some x ∧ Reads (readAnnotated t) bs x := by
  refine ((writes_header name a.type a.elements.length).bind fun _ => writes_encodePairs name a.elements).weaken ?_
  rintro t _ _ ⟨_, _, _, rfl, ⟨few, headed, i, text, rfl⟩, items, pairs, rfl, xs, shown, each⟩
  have is : a.shown? name = some ((a.type.resolve name).descriptor, xs) := by rw [shown?, shown, headed]
  rw [← length_pairsBytes pairs, append_assoc] at *
  refine ⟨⟨i, items, _, pairs, ⟨few, rfl⟩, rfl⟩, _, is, fun rest offset => ?_⟩
  exact spells_pairs text few each _ (by simp) rest offset

end Annotation

end Assembler

end ClassForge

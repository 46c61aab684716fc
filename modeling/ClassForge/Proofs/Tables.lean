import ClassForge.Proofs.Annotations
import ClassForge.Proofs.Splitting

/-! The class file as it is written: each table stands behind the number of its items, and all reads
back with any table that holds the entries interned on the way. -/

namespace ClassForge.Assembler

open List

open ClassFile (Body Table body? readBody readHandler readMembers readVariables)
open Instruction (word_be16)
open ClassFile.Reader (Reads checked index reads_bytes reads_checked reads_index reads_times reads_u2 reads_u4 times u2
  within)
open Serial (Writes)

/-- The annotations of each visibility that has any, under the name of their attribute. -/
def annotationTables (blobs : Array AnnotationBytes) : List (String × List AnnotationBytes) :=
  [("RuntimeVisibleAnnotations", blobs.toList.filter (·.visible == true)),
    ("RuntimeInvisibleAnnotations", blobs.toList.filter (·.visible == false))].filter fun x => !x.2.isEmpty

/-- An attribute of annotations. Their number is not checked, so the table is right where it fits. -/
def AnnotationAttr (x : String × List AnnotationBytes) (a : Attr) : Prop :=
  a.name = x.1 ∧ (x.2.length < 65536 → Tabled (fun b bs => bs = b.data.toList) x.2 a.data)

theorem toList_foldl_data (bs : Array UInt8) (kept : List AnnotationBytes) :
    (kept.foldl (fun bs b => bs ++ b.data) bs).toList = bs.toList ++ (kept.map (·.data.toList)).flatten := by
  induction kept generalizing bs with
  | nil => simp
  | cons b kept ih => simp [ih]

theorem annotationAttr_body :
    AnnotationAttr (name, kept) ⟨name, (kept.foldl (fun bs b => bs ++ b.data) (be16 kept.length.toUInt16).toArray).toList⟩ := by
  refine ⟨rfl, fun few => ?_⟩
  rw [toList_foldl_data]
  exact .of_count few rfl (forall₂_map_right_iff.mpr (forall₂_same.mpr fun _ _ => rfl))

theorem annotationAttrs_laid (blobs : Array AnnotationBytes) : List.Forall₂ AnnotationAttr (annotationTables blobs)
    ((annotationAttrs blobs).map fun a => ⟨a.1, a.2.toList⟩) := by
  unfold annotationTables annotationAttrs annotationBody
  cases blobs.toList.filter (·.visible == true) with
  | nil =>
    cases blobs.toList.filter (·.visible == false) with
    | nil => exact .nil
    | cons => exact .cons annotationAttr_body .nil
  | cons =>
    cases blobs.toList.filter (·.visible == false) with
    | nil => exact .cons annotationAttr_body .nil
    | cons => exact .cons annotationAttr_body (.cons annotationAttr_body .nil)

def annotationNames (blobs : Array AnnotationBytes) : List String :=
  (if blobs.any (·.visible) then ["RuntimeVisibleAnnotations"] else []) ++
    if blobs.any (!·.visible) then ["RuntimeInvisibleAnnotations"] else []

theorem toList_annotationBody (blobs : Array AnnotationBytes) (visible : Bool) (name : α) :
    (annotationBody blobs visible).toList.map (fun _ => name) =
      if blobs.any (·.visible == visible) then [name] else [] := by
  unfold annotationBody
  rw [← Array.any_toList]
  cases kept : blobs.toList.filter (·.visible == visible) with
  | nil =>
    rw [any_eq_false.mpr (filter_eq_nil_iff.mp kept)]
    rfl
  | cons b rest =>
    have mem : b ∈ blobs.toList.filter (·.visible == visible) := kept ▸ mem_cons_self
    rw [any_eq_true.mpr ⟨b, mem_filter.mp mem⟩]
    rfl

theorem names_annotationAttrs (blobs : Array AnnotationBytes) :
    (annotationAttrs blobs).map (·.1) = annotationNames blobs := by
  have shown := toList_annotationBody blobs true "RuntimeVisibleAnnotations"
  have hidden := toList_annotationBody blobs false "RuntimeInvisibleAnnotations"
  simp only [beq_true, beq_false] at shown hidden
  rw [annotationAttrs, map_append, map_map, map_map, annotationNames, ← shown, ← hidden]
  rfl

theorem Serial.Writes.annotations (blobs : Array AnnotationBytes) :
    Writes (Serial.attrs (annotationAttrs blobs)) fun t _ bs => ∃ attrs, AttrsBytes t attrs bs ∧
      List.Forall₂ AnnotationAttr (annotationTables blobs) attrs ∧ attrs.length = (annotationAttrs blobs).length ∧
      attrs.map (·.name) = annotationNames blobs := by
  refine (Writes.attrs (annotationAttrs blobs)).weaken ?_
  rintro t _ _ written
  refine ⟨_, written, annotationAttrs_laid blobs, length_map _, ?_⟩
  rw [map_map, ← names_annotationAttrs]
  rfl

def Field.Laid (f : Field) (t : Table) (bs : List UInt8) : Prop :=
  ∃ head value annotations tail, bs = head ++ tail ∧ HeadBytes t f.info.access f.info.name f.info.descriptor head ∧
    Tabled (AttrBytes t) (value ++ annotations) tail ∧ value.length = (if f.isConstant then 1 else 0) ∧
    List.Forall₂ AnnotationAttr (annotationTables f.annotations) annotations

namespace Field

def attrNames (f : Field) : List String :=
  (if f.isConstant then ["ConstantValue"] else []) ++ annotationNames f.annotations

structure Shows (f : Field) (m : Member) : Prop where
  access : m.access = f.info.access
  name : m.name = f.info.name
  descriptor : m.descriptor = f.info.descriptor
  attrs : m.attrs.map (·.name) = f.attrNames

theorem writes_constantIndex (v : Value) : Writes (constantIndex v) fun _ _ bs => bs = [] := by
  have interned : ∀ {a : Pool.Action UInt16} {found : Pool → UInt16 → Prop}, Pool.Interns a found →
      Writes (Serial.intern a) fun _ _ bs => bs = [] := fun interns =>
    (Writes.intern (Q := fun _ _ => True) interns fun _ _ _ _ _ => trivial).weaken fun _ _ _ h => h.1
  cases v with
  | null | type => exact .throw rfl
  | bool | int | long | float | double => exact interned (Pool.interns_intern _)
  | text s => exact interned (Pool.interns_string s)

def valueAttr (f : Field) : Serial Unit :=
  if f.isConstant then do
    let i ← constantIndex (f.init.getD .null)
    Serial.attr "ConstantValue" (be16 i).toArray
  else pure ()

theorem write_eq (f : Field) : f.write = (do
    Serial.member f.info.access f.info.name f.info.descriptor
    Serial.count ((annotationAttrs f.annotations).length + if f.isConstant then 1 else 0) "field attributes"
    f.valueAttr
    Serial.attrs (annotationAttrs f.annotations)) := by
  unfold write valueAttr
  cases f.isConstant <;> simp

theorem writes_valueAttr (f : Field) : Writes f.valueAttr fun t _ bs =>
    ∃ attrs, AttrsBytes t attrs bs ∧ Optional (¬f.isConstant) "ConstantValue" (fun _ => True) attrs := by
  rw [valueAttr, ← ite_not]
  refine .optional (((writes_constantIndex _).bind fun i => Writes.attr _ _).weaken ?_)
  rintro t _ _ ⟨i, _, bs, rfl, rfl, written⟩
  exact ⟨_, written, trivial⟩

theorem writes (f : Field) : Writes f.write fun t _ bs =>
    f.Laid t bs ∧ ∃ m, Reads (ClassFile.readMember t) bs m ∧ f.Shows m := by
  rw [write_eq]
  refine ((Writes.member _ _ _).bind fun _ => (Writes.count _ _).bind fun _ => (writes_valueAttr f).bind fun _ =>
    Writes.annotations f.annotations).weaken ?_
  rintro t _ _ ⟨_, head, _, rfl, first, _, _, _, rfl, ⟨few, rfl⟩, _, _, _, rfl, ⟨value, put, optional⟩, annotations,
    put', laid, same, names⟩
  have size : value.length = (if f.isConstant then 1 else 0) := by rw [optional.length, ite_not]
  have table := (put.append put').counted few (by rw [length_append, size, same, Nat.add_comm])
  refine ⟨⟨head, value, annotations, _, rfl, first, table, size, laid⟩, _, reads_member first table, rfl, rfl, rfl, ?_⟩
  rw [map_append, optional.names, names, ite_not, attrNames]

end Field

def LineRow.Laid (row : LineRow) (bs : List UInt8) : Prop :=
  bs = be16 row.pc.toUInt16 ++ be16 row.line.toUInt16

def Local.Laid (l : Local) (size : Nat) (t : Table) (bs : List UInt8) : Prop :=
  ∃ n d, t.utf8 n = .ok l.name ∧ t.utf8 d = .ok l.type.descriptor ∧
    bs = be16 l.start.toUInt16 ++ (be16 (size - l.start).toUInt16 ++ (be16 n ++ (be16 d ++ be16 l.slot.toUInt16)))

def Handler.Laid (h : Handler) (bs : List UInt8) : Prop :=
  bs = be16 h.start.toUInt16 ++ (be16 h.stop.toUInt16 ++ (be16 h.target.toUInt16 ++ be16 h.catchType))

def Local.row (l : Local) (size : Nat) : ClassFile.VariableRow :=
  ⟨l.start, size - l.start, l.name, l.type.descriptor, l.slot⟩

def LineRow.Put (r : LineRow) (bs : List UInt8) : Prop := r.Laid bs ∧ r.pc < 65536 ∧ r.line < 65536

def Local.Put (l : Local) (size : Nat) (t : Table) (bs : List UInt8) : Prop :=
  l.Laid size t bs ∧ l.start < 65536 ∧ size - l.start < 65536 ∧ l.slot < 65536

theorem numberPairs_rows (h : List.Forall₂ LineRow.Put rows bss) :
    ClassFile.numberPairs rows.length bss.flatten = rows.map fun r => (r.pc, r.line) := by
  induction h with
  | nil => rfl
  | cons first _ ih =>
    obtain ⟨rfl, pc, line⟩ := first
    exact congrArg₂ cons (Prod.ext ((word_be16 _).trans (toNat_toUInt16 pc))
      ((word_be16 _).trans (toNat_toUInt16 line))) ih

theorem reads_variables {ls : List Local} (h : List.Forall₂ (fun l bs => l.Put size t bs) ls bss) :
    Reads (readVariables t ls.length) bss.flatten (ls.map (·.row size)) := by
  induction h with
  | nil => exact .pure []
  | @cons l _ ls _ first _ ih =>
    obtain ⟨⟨n, d, name, descriptor, rfl⟩, start, length, slot⟩ := first
    have row : Reads (ClassFile.readVariable t ls.length) (be16 l.start.toUInt16 ++ (be16 (size - l.start).toUInt16 ++
        (be16 n ++ (be16 d ++ be16 l.slot.toUInt16))))
        ⟨l.start.toUInt16.toNat, (size - l.start).toUInt16.toNat, l.name, l.type.descriptor, l.slot.toUInt16.toNat⟩ := by
      refine (reads_index _).bind ((reads_index _).bind
        ((reads_index n).bind ((reads_checked name).skip
          ((reads_index d).bind ((reads_checked descriptor).skip ?_)))))
      split
      · exact (reads_u2 _).map
      · exact (reads_index _).map
    rw [toNat_toUInt16 start, toNat_toUInt16 length, toNat_toUInt16 slot] at row
    exact row.bind ih.map

def Handler.row (h : Handler) : ClassFile.HandlerRow := ⟨h.start, h.stop, h.target, h.catchType.toNat⟩

namespace Method

variable {m : Method}

def attrNames (m : Method) : List String :=
  (if m.bodiless then [] else ["Code"]) ++ (if m.throws.isEmpty then [] else ["Exceptions"]) ++
    annotationNames m.annotations

structure ShowsBody (m : Method) (debug : Bool) (b : Body) : Prop where
  stack : b.maxStack = m.stackSize
  room : m.maxStack + stackSlack ≤ 65535
  locals : b.maxLocals = m.nextSlot
  code : b.code = m.code.bytes.toList
  handlers : b.handlers = m.handlers.toList.map Handler.row
  attrs : b.attrs.map (·.name) = if debug then ["LineNumberTable", "LocalVariableTable"] else []

/-- The debug tables of the code, as they read: the rows that start in it. -/
structure ShowsDebug (m : Method) (t : Table) (b : Body) : Prop where
  lines : b.lines = (m.lines.toList.filter (·.pc < m.code.pos)).map fun r => (r.pc, r.line)
  locals : b.variables t =
    .ok ((m.locals.toList.filter fun l => !l.hidden && l.start < m.code.pos).map (·.row m.code.pos))

def ShowsCode (m : Method) (debug : Bool) (t : Table) (b : Body) : Prop :=
  m.ShowsBody debug b ∧ (debug = true → m.ShowsDebug t b)

structure Shows (m : Method) (debug : Bool) (t : Table) (x : Member) : Prop where
  access : x.access = m.info.access
  name : x.name = m.info.name
  descriptor : x.descriptor = m.info.descriptor
  attrs : x.attrs.map (·.name) = m.attrNames
  body : m.bodiless = false → ∃ b, body? t x = .ok b ∧ m.ShowsBody debug b

def DebugLaid (m : Method) (debug : Bool) (t : Table) (attrs : List Attr) : Prop :=
  if debug then ∃ lines locals, attrs = [⟨"LineNumberTable", lines⟩, ⟨"LocalVariableTable", locals⟩] ∧
    Tabled LineRow.Laid (m.lines.toList.filter (·.pc < m.code.pos)) lines ∧
    Tabled (fun l bs => l.Laid m.code.pos t bs)
      (m.locals.toList.filter fun l => !l.hidden && l.start < m.code.pos) locals
  else attrs = []

def CodeLaid (m : Method) (debug : Bool) (t : Table) (bs : List UInt8) : Prop :=
  ∃ (stack locals : UInt16) (handlers : List UInt8) (attrs : List Attr) (tail : List UInt8),
    bs = be16 stack ++ (be16 locals ++ (be32 m.code.bytes.size.toUInt32 ++ (m.code.bytes.toList ++ (handlers ++ tail)))) ∧
    Tabled Handler.Laid m.handlers.toList handlers ∧ Tabled (AttrBytes t) attrs tail ∧ m.DebugLaid debug t attrs

/-- The classes a method may throw. Their number is not checked, so the table is right where it fits. -/
def ThrowsLaid (m : Method) (attrs : List Attr) : Prop :=
  if m.throws.isEmpty then attrs = []
  else ∃ data, attrs = [⟨"Exceptions", data⟩] ∧
    (m.throws.size < 65536 → Tabled (fun x bs => bs = be16 x.1) m.throws.toList data)

def Laid (m : Method) (debug : Bool) (t : Table) (bs : List UInt8) : Prop :=
  ∃ head code throws annotations tail, bs = head ++ tail ∧ HeadBytes t m.info.access m.info.name m.info.descriptor head ∧
    Tabled (AttrBytes t) (code ++ (throws ++ annotations)) tail ∧
    (if m.bodiless then code = [] else ∃ data, code = [⟨"Code", data⟩] ∧ m.CodeLaid debug t data) ∧
    m.ThrowsLaid throws ∧ List.Forall₂ AnnotationAttr (annotationTables m.annotations) annotations

theorem ShowsDebug.of_rows {lines locals : List UInt8}
    (attrs : b.attrs = [⟨"LineNumberTable", lines⟩, ⟨"LocalVariableTable", locals⟩])
    (rows : Tabled LineRow.Put (m.lines.toList.filter (·.pc < m.code.pos)) lines)
    (rows' : Tabled (fun l bs => l.Put m.code.pos t bs)
      (m.locals.toList.filter fun l => !l.hidden && l.start < m.code.pos) locals) : m.ShowsDebug t b where
  lines := by
    obtain ⟨bss, rows, few, rfl⟩ := rows
    have all := numberPairs_rows rows
    rw [rows.length_eq, ← toNat_toUInt16 few, ← word_be16] at all
    rw [Body.lines, attrs]
    exact all
  locals := by
    obtain ⟨bss, rows, few, rfl⟩ := rows'
    have all := reads_variables rows
    rw [rows.length_eq, ← toNat_toUInt16 few] at all
    have read := (reads_u2 bss.length.toUInt16).bind (f := fun n => readVariables t n.toNat) all [] 0
    rw [append_nil] at read
    rw [Body.variables, attrs]
    exact congrArg (Except.map Prod.fst) read

theorem writes_lines (m : Method) (size : Nat) : Writes (m.lineTable size) fun _ _ bs =>
    Tabled LineRow.Put (m.lines.toList.filter (·.pc < size)) bs := by
  refine ((Writes.count _ _).bind fun _ =>
    (Writes.forIn (Q := fun r _ bs => r.Put bs) fun row _ => ?_).bind fun _ => .pure _).weaken ?_
  · refine ((Writes.narrow _ _).bind fun _ => (Writes.narrow _ _).bind fun _ => (Writes.u2 _).bind fun _ =>
      (Writes.u2 _).bind fun _ => .pure _).weaken ?_
    rintro t _ _ ⟨_, _, _, rfl, ⟨rfl, pc, rfl⟩, _, _, _, rfl, ⟨rfl, line, rfl⟩, _, _, _, rfl, rfl, _, _, _, rfl, rfl, rfl, rfl⟩
    exact ⟨rfl, by simp [LineRow.Laid], pc, line⟩
  · rintro t _ _ ⟨_, _, _, rfl, ⟨few, rfl⟩, _, _, _, rfl, ⟨items, each, rfl⟩, -, rfl⟩
    rw [append_nil]
    exact .of_count few rfl each

theorem writes_locals (m : Method) (size : Nat) : Writes (m.localTable size) fun t _ bs =>
    Tabled (fun l bs => l.Put size t bs) (m.locals.toList.filter fun l => !l.hidden && l.start < size) bs := by
  refine ((Writes.count _ _).bind fun _ => (Writes.forIn (Q := fun l t bs => l.Put size t bs) fun row _ => ?_).bind fun _ => .pure _).weaken ?_
  · refine ((Writes.utf8 _).bind fun _ => (Writes.utf8 _).bind fun _ => (Writes.narrow _ _).bind fun _ =>
      (Writes.u2 _).bind fun _ => (Writes.narrow _ _).bind fun _ => (Writes.u2 _).bind fun _ => (Writes.u2 _).bind fun _ =>
      (Writes.u2 _).bind fun _ => (Writes.narrow _ _).bind fun _ => (Writes.u2 _).bind fun _ => .pure _).weaken ?_
    rintro t _ _ ⟨n, _, _, rfl, ⟨rfl, name⟩, d, _, _, rfl, ⟨rfl, descriptor⟩, _, _, _, rfl, ⟨rfl, start, rfl⟩, _, _, _, rfl, rfl, _, _, _,
      rfl, ⟨rfl, length, rfl⟩, _, _, _, rfl, rfl, _, _, _, rfl, rfl, _, _, _, rfl, rfl, _, _, _, rfl, ⟨rfl, slot, rfl⟩, _, _, _, rfl, rfl,
      rfl, rfl⟩
    exact ⟨rfl, ⟨n, d, name, descriptor, by simp⟩, start, length, slot⟩
  · rintro t _ _ ⟨_, _, _, rfl, ⟨few, rfl⟩, _, _, _, rfl, ⟨items, each, rfl⟩, -, rfl⟩
    rw [append_nil]
    exact .of_count few rfl each

def debugAttrs (m : Method) (debug : Bool) : Serial Unit :=
  if debug then do
    let lines ← Serial.bytesOf (m.lineTable m.code.pos)
    let locals ← Serial.bytesOf (m.localTable m.code.pos)
    Serial.count 2 "code attributes"
    Serial.attr "LineNumberTable" lines
    Serial.attr "LocalVariableTable" locals
  else Serial.count 0 "code attributes"

theorem writes_debug (m : Method) (debug : Bool) : Writes (m.debugAttrs debug) fun t _ bs =>
    ∃ attrs, Tabled (AttrBytes t) attrs bs ∧ m.DebugLaid debug t attrs ∧
      (debug = true → ∀ b : Body, b.attrs = attrs → m.ShowsDebug t b) := by
  cases debug with
  | true =>
    refine ((m.writes_lines _).bytesOf.bind fun _ => (m.writes_locals _).bytesOf.bind fun _ =>
      (Writes.count _ _).bind fun _ => (Writes.attr _ _).bind fun _ => Writes.attr _ _).weaken ?_
    rintro t _ _ ⟨lines, _, _, rfl, ⟨rfl, rows⟩, locals, _, _, rfl, ⟨rfl, rows'⟩, _, _, _, rfl, ⟨few, rfl⟩, _, one, two, rfl, first,
      second⟩
    refine ⟨_, ((AttrsBytes.single first).append (.single second)).counted few rfl,
      ⟨lines.toList, locals.toList, rfl, rows.imp fun _ _ h => h.1, rows'.imp fun _ _ h => h.1⟩, ?_⟩
    rintro - b tables
    exact .of_rows tables rows rows'
  | false =>
    refine (Writes.count _ _).weaken ?_
    rintro t _ _ ⟨few, rfl⟩
    exact ⟨[], ⟨[], .nil, few, by simp⟩, rfl, by rintro ⟨⟩⟩

theorem DebugLaid.names {attrs : List Attr} (h : m.DebugLaid debug t attrs) :
    attrs.map (·.name) = if debug then ["LineNumberTable", "LocalVariableTable"] else [] := by
  unfold DebugLaid at h
  split_ifs at h ⊢
  · obtain ⟨lines, locals, rfl, -⟩ := h
    rfl
  · rw [h]
    rfl

theorem writes_handler (h : Handler) : Writes (do
    Serial.u2 (← Serial.narrow h.start "handler offset")
    Serial.u2 (← Serial.narrow h.stop "handler offset")
    Serial.u2 (← Serial.narrow h.target "handler offset")
    Serial.u2 h.catchType
    pure (ForInStep.yield PUnit.unit)) fun _ r bs => r = .yield PUnit.unit ∧
      h.Laid bs ∧ Reads readHandler bs h.row := by
  refine ((Writes.narrow _ _).bind fun _ => (Writes.u2 _).bind fun _ => (Writes.narrow _ _).bind fun _ =>
    (Writes.u2 _).bind fun _ => (Writes.narrow _ _).bind fun _ => (Writes.u2 _).bind fun _ =>
    (Writes.u2 _).bind fun _ => .pure _).weaken ?_
  rintro t _ _ ⟨_, _, _, rfl, ⟨rfl, start, rfl⟩, _, _, _, rfl, rfl, _, _, _, rfl, ⟨rfl, stop, rfl⟩, _, _, _, rfl, rfl, _, _, _,
    rfl, ⟨rfl, target, rfl⟩, _, _, _, rfl, rfl, _, _, _, rfl, rfl, rfl, rfl⟩
  have read : Reads readHandler (be16 h.start.toUInt16 ++ (be16 h.stop.toUInt16 ++ (be16 h.target.toUInt16 ++
      be16 h.catchType))) ⟨h.start.toUInt16.toNat, h.stop.toUInt16.toNat, h.target.toUInt16.toNat, h.catchType.toNat⟩ :=
    (reads_u2 _).bind ((reads_u2 _).bind ((reads_u2 _).bind
      (reads_u2 _).map))
  rw [toNat_toUInt16 start, toNat_toUInt16 stop, toNat_toUInt16 target] at read
  exact ⟨rfl, by simp [Handler.Laid], by simpa [Handler.row] using read⟩

theorem writes_codeBody (m : Method) (debug : Bool) : Writes (m.codeBody debug) fun t _ bs =>
    m.CodeLaid debug t bs ∧ ∃ b, Reads (readBody t) bs b ∧ m.ShowsCode debug t b := by
  refine ((Writes.narrow _ _).bind fun _ => (Writes.narrow _ _).bind fun _ => (Writes.u2 _).bind fun _ =>
    (Writes.u2 _).bind fun _ => (Writes.sized _ m.code.bytes).bind fun _ => (Writes.count _ _).bind fun _ =>
    (Writes.forIn fun h _ => writes_handler h).bind fun _ => m.writes_debug debug).weaken ?_
  rintro t _ _ ⟨_, _, _, rfl, ⟨rfl, stack, rfl⟩, _, _, _, rfl, ⟨rfl, locals, rfl⟩, _, _, _, rfl, rfl, _, _, _, rfl, rfl, _, _, _,
    rfl, ⟨size, rfl⟩, _, _, _, rfl, ⟨few, rfl⟩, _, _, tail, rfl, ⟨bss, rows, rfl⟩, attrs, table, laid, tables⟩
  have read : Reads (readBody t) (be16 (m.maxStack + stackSlack).toUInt16 ++ (be16 m.nextSlot.toUInt16 ++
      (be32 m.code.bytes.size.toUInt32 ++ (m.code.bytes.toList ++ (be16 m.handlers.size.toUInt16 ++
        (bss.flatten ++ tail)))))) ⟨(m.maxStack + stackSlack).toUInt16.toNat, m.nextSlot.toUInt16.toNat,
          m.code.bytes.toList, m.handlers.toList.map Handler.row, attrs⟩ := by
    refine (reads_u2 _).bind ((reads_u2 _).bind ((reads_u4 _).bind ?_))
    rw [toNat_toUInt32 size, ← Array.length_toList]
    refine (reads_bytes _).bind ((reads_u2 _).bind ?_)
    rw [toNat_toUInt16 few, ← Array.length_toList, ← length_map Handler.row]
    have rows : List.Forall₂ (Reads readHandler) bss (m.handlers.toList.map Handler.row) :=
      forall₂_map_right_iff.mpr (rows.imp fun _ _ row => row.2).flip
    exact (reads_times rows).bind (reads_attrs table).map
  rw [toNat_toUInt16 stack, toNat_toUInt16 locals] at read
  simp only [nil_append, append_assoc]
  have room := Nat.le_of_lt_succ stack
  refine ⟨⟨(m.maxStack + stackSlack).toUInt16, m.nextSlot.toUInt16, _, attrs, tail, ?_, .of_count few (by simp) (rows.imp fun _ _ row => row.1), table, laid⟩, _, read,
    ⟨(Nat.min_eq_left room).symm, room, rfl, rfl, rfl, laid.names⟩, fun debug => tables debug _ rfl⟩
  rw [append_assoc]

def codeAttr (m : Method) (debug : Bool) : Serial Unit :=
  if m.bodiless then pure ()
  else do
    let body ← Serial.bytesOf (m.codeBody debug)
    Serial.attr "Code" body

def throwsAttr (m : Method) : Serial Unit :=
  if m.throws.isEmpty then pure () else Serial.attr "Exceptions" m.exceptionBody

theorem write_eq (m : Method) (debug : Bool) : m.write debug = (do
    Serial.member m.info.access m.info.name m.info.descriptor
    Serial.count ((annotationAttrs m.annotations).length + (if m.bodiless then 0 else 1) +
      if m.throws.isEmpty then 0 else 1) "method attributes"
    m.codeAttr debug
    m.throwsAttr
    Serial.attrs (annotationAttrs m.annotations)) := by
  unfold write codeAttr throwsAttr
  cases m.bodiless <;> cases m.throws.isEmpty <;> simp

theorem writes_codeAttr (m : Method) (debug : Bool) : Writes (m.codeAttr debug) fun t _ bs =>
    ∃ attrs, AttrsBytes t attrs bs ∧ Optional m.bodiless "Code" (fun data => m.CodeLaid debug t data ∧
      ∃ b, Reads (readBody t) data b ∧ m.ShowsCode debug t b) attrs := by
  refine .optional (((m.writes_codeBody debug).bytesOf.bind fun _ => Writes.attr _ _).weaken ?_)
  rintro t _ _ ⟨data, _, bs, rfl, ⟨rfl, laid⟩, written⟩
  exact ⟨data.toList, written, laid⟩

theorem toList_exceptionBody (few : m.throws.size < 65536) :
    m.exceptionBody.toList = be16 m.throws.size.toUInt16 ++ (m.throws.toList.map fun x => be16 x.1).flatten := by
  have each : ∀ (xs : List (UInt16 × JType)) (w : Writer),
      (xs.foldl (fun w t => w.u2 t.1) w).bytes.toList = w.bytes.toList ++ (xs.map fun x => be16 x.1).flatten := by
    intro xs
    induction xs with
    | nil => simp
    | cons x xs ih =>
      intro w
      rw [foldl_cons, ih]
      simp [Writer.u2]
  rw [exceptionBody, ← Array.foldl_toList, each, Writer.len2, if_pos (by omega)]
  simp [Writer.u2, Writer.empty]

theorem writes_throwsAttr (m : Method) : Writes m.throwsAttr fun t _ bs => ∃ attrs, AttrsBytes t attrs bs ∧
    Optional m.throws.isEmpty "Exceptions"
      (fun data => m.throws.size < 65536 → Tabled (fun x bs => bs = be16 x.1) m.throws.toList data) attrs := by
  refine .optional ((Writes.attr _ _).weaken ?_)
  rintro t _ bs written
  refine ⟨_, written, fun few => ?_⟩
  rw [toList_exceptionBody few]
  exact .of_count few (by simp) (forall₂_map_right_iff.mpr (forall₂_same.mpr fun _ _ => rfl))

theorem writes (m : Method) (debug : Bool) : Writes (m.write debug) fun t _ bs =>
    m.Laid debug t bs ∧ ∃ x, Reads (ClassFile.readMember t) bs x ∧ m.Shows debug t x ∧
      (m.bodiless = false → ∃ b, body? t x = .ok b ∧ m.ShowsCode debug t b) := by
  rw [write_eq]
  refine ((Writes.member _ _ _).bind fun _ => (Writes.count _ _).bind fun _ => (m.writes_codeAttr debug).bind fun _ =>
    m.writes_throwsAttr.bind fun _ => Writes.annotations m.annotations).weaken ?_
  rintro t _ _ ⟨_, head, _, rfl, first, _, _, _, rfl, ⟨few, rfl⟩, _, _, _, rfl, ⟨code, put1, body⟩, _, _, _, rfl,
    ⟨throws, put2, thrown⟩, annotations, put3, laid, same, names⟩
  have table := (put1.append (put2.append put3)).counted few (by
    rw [length_append, length_append, body.length, thrown.length, same]
    omega)
  have shown : (code ++ (throws ++ annotations)).map (·.name) = m.attrNames := by
    rw [map_append, map_append, body.names, thrown.names, names, attrNames, append_assoc]
  unfold Optional at body
  have read : m.bodiless = false → ∃ b, body? t ⟨m.info.access, m.info.name, m.info.descriptor,
      code ++ (throws ++ annotations)⟩ = .ok b ∧ m.ShowsCode debug t b := by
    intro bodied
    rw [if_neg (by simp [bodied])] at body
    obtain ⟨data, rfl, -, b, read, shows⟩ := body
    refine ⟨b, ?_, shows⟩
    have whole := read [] 0
    rw [append_nil] at whole
    simp only [body?, Attr.find?, cons_append, find?_cons, beq_self_eq_true, Option.map_some, whole]
    rfl
  refine ⟨⟨head, code, throws, annotations, _, rfl, first, table, ?_, thrown, laid⟩, _, reads_member first table,
    ⟨rfl, rfl, rfl, shown, fun bodied => (read bodied).imp fun b h => ⟨h.1, h.2.1⟩⟩, read⟩
  split_ifs at body ⊢
  · exact body
  · obtain ⟨data, rfl, laid, -⟩ := body
    exact ⟨data, rfl, laid⟩

end Method

theorem reads_interfaces {t : Table}
    (few : bss.length < 65536) (h : List.Forall₂ (fun i name => t.className i = .ok name) refs names)
    (each : List.Forall₂ (fun i bs => bs = be16 i) refs bss) :
    Reads (times (within "interface" (do
      checked (t.className (← index)))) bss.length.toUInt16.toNat) bss.flatten names := by
  rw [toNat_toUInt16 few, ← each.length_eq, h.length_eq]
  refine reads_times ?_
  clear few
  induction h generalizing bss with
  | nil =>
    cases each
    exact .nil
  | cons first _ ih =>
    obtain ⟨_, bss, rfl, others, rfl⟩ := forall₂_cons_left_iff.mp each
    refine .cons (Reads.within ?_ _) (ih others)
    exact (reads_index _).bind (reads_checked first)

def readItems (minor major : UInt16) (pool : Table) : ClassFile.Reader ClassFile := do
  let access ← u2
  let thisIndex ← u2
  let superIndex ← u2
  let this ← within "this_class" (checked (pool.className thisIndex))
  let super ← if superIndex = 0 then pure ""
    else within "super_class" (checked (pool.className superIndex))
  let interfaceCount ← within "fields" u2
  let interfaces ← times (within "interface" (do
    checked (pool.className (← index)))) interfaceCount.toNat
  let fields ← within "fields" (readMembers pool)
  let methods ← within "methods" (readMembers pool)
  let attrs ← within "class attributes" (ClassFile.readAttrs pool)
  return { minor, major, pool, access := ⟨access⟩, this, super, interfaces, fields, methods, attrs }

namespace Draft

/-- The table has the names of the class, its superclass and its interfaces. -/
structure Names (d : Draft) (t : Table) : Prop where
  this : t.className d.thisRef = .ok d.info.name
  super : t.className d.superRef = .ok d.info.super ∧ d.superRef ≠ 0
  interfaces : List.Forall₂ (fun i name => t.className i = .ok name) d.interfaceRefs d.info.interfaces

def attrNames (d : Draft) : List String :=
  (if d.options.debug then ["SourceFile"] else []) ++ annotationNames d.annotations

structure Shows (d : Draft) (c : ClassFile) : Prop where
  version : c.minor = d.options.minor ∧ c.major = d.options.major
  access : c.access = d.info.access
  this : c.this = d.info.name
  super : c.super = d.info.super
  interfaces : c.interfaces = d.info.interfaces
  fields : List.Forall₂ Field.Shows d.fields.toList c.fields
  methods : List.Forall₂ (fun m x => m.Shows d.options.debug c.pool x ∧ (m.bodiless = false →
    ∃ b, body? c.pool x = .ok b ∧ m.ShowsCode d.options.debug c.pool b)) d.methods.toList c.methods
  attrs : c.attrs.map (·.name) = d.attrNames

def sourceAttr (d : Draft) : Serial Unit :=
  if d.options.debug then do
    let file ← Serial.intern (Pool.utf8 d.options.sourceFile)
    Serial.attr "SourceFile" (be16 file).toArray
  else pure ()

def writeAttrs (d : Draft) : Serial Unit := do
  Serial.count ((annotationAttrs d.annotations).length + if d.options.debug then 1 else 0) "class attributes"
  d.sourceAttr
  Serial.attrs (annotationAttrs d.annotations)

theorem writeBody_eq (d : Draft) : d.writeBody = (do
    Serial.u2 d.info.access.bits
    Serial.u2 d.thisRef
    Serial.u2 d.superRef
    Serial.count d.interfaceRefs.length "interfaces"
    d.interfaceRefs.forM Serial.u2
    Serial.count d.fields.size "fields"
    d.fields.toList.forM Field.write
    Serial.count d.methods.size "methods"
    d.methods.toList.forM (Method.write · d.options.debug)
    d.writeAttrs) := by
  unfold writeBody writeAttrs sourceAttr
  cases d.options.debug <;> simp

/-- The class file: each table stands behind the number of its items. -/
def Laid (d : Draft) (out : Array UInt8) : Prop :=
  ∃ interfaces fields methods attrs source annotations,
    out.toList = be32 magic ++ (be16 d.options.minor ++ (be16 d.options.major ++ (be16 d.pool.next.toUInt16 ++
      (Pool.image d.pool.entries.toList ++ (be16 d.info.access.bits ++ (be16 d.thisRef ++ (be16 d.superRef ++
        (interfaces ++ (fields ++ (methods ++ attrs)))))))))) ∧
    Tabled (fun i bs => bs = be16 i) d.interfaceRefs interfaces ∧
    Tabled (fun f bs => f.Laid (.ofPool d.pool) bs) d.fields.toList fields ∧
    Tabled (fun m bs => m.Laid d.options.debug (.ofPool d.pool) bs) d.methods.toList methods ∧
    Tabled (AttrBytes (.ofPool d.pool)) (source ++ annotations) attrs ∧
    source.length = (if d.options.debug then 1 else 0) ∧
    List.Forall₂ AnnotationAttr (annotationTables d.annotations) annotations

theorem reads_items {d : Draft} {t : Table}
    {fields methods : List Member} (found : d.Names t)
    (interfaces : Tabled (fun i bs => bs = be16 i) d.interfaceRefs interfaceBytes)
    (readFields : Reads (readMembers t) fieldBytes fields)
    (readMethods : Reads (readMembers t) methodBytes methods)
    (readAttrs : Reads (ClassFile.readAttrs t) attrBytes attrs) :
    Reads (readItems d.options.minor d.options.major t) (be16 d.info.access.bits ++ (be16 d.thisRef ++ (be16 d.superRef ++
      (interfaceBytes ++ (fieldBytes ++ (methodBytes ++ attrBytes))))))
      ⟨d.options.minor, d.options.major, t, d.info.access, d.info.name, d.info.super, d.info.interfaces, fields, methods,
        attrs⟩ := by
  refine (reads_u2 _).bind ((reads_u2 _).bind ((reads_u2 _).bind ?_))
  refine ((reads_checked found.this).within _).skip ?_
  rw [if_neg found.super.2]
  refine ((reads_checked found.super.1).within _).skip ?_
  obtain ⟨refs, each, few, rfl⟩ := interfaces
  refine ((reads_u2 _).within _).bind ((reads_interfaces few found.interfaces each).bind ?_)
  exact (readFields.within _).bind ((readMethods.within _).bind (readAttrs.within _).map)

theorem writes_sourceAttr (d : Draft) : Writes d.sourceAttr fun t _ bs =>
    ∃ attrs, AttrsBytes t attrs bs ∧ Optional (¬d.options.debug) "SourceFile" (fun _ => True) attrs := by
  rw [sourceAttr, ← ite_not]
  refine .optional (((Writes.utf8 _).bind fun _ => Writes.attr _ _).weaken ?_)
  rintro t _ _ ⟨i, _, bs, rfl, ⟨rfl, -⟩, written⟩
  exact ⟨_, written, trivial⟩

theorem writes_attrs (d : Draft) : Writes d.writeAttrs fun t _ bs => ∃ source annotations,
    Tabled (AttrBytes t) (source ++ annotations) bs ∧ source.length = (if d.options.debug then 1 else 0) ∧
      List.Forall₂ AnnotationAttr (annotationTables d.annotations) annotations ∧
      (source ++ annotations).map (·.name) = d.attrNames := by
  refine ((Writes.count _ _).bind fun _ => d.writes_sourceAttr.bind fun _ => Writes.annotations d.annotations).weaken ?_
  rintro t _ _ ⟨_, _, _, rfl, ⟨few, rfl⟩, _, _, _, rfl, ⟨source, put, optional⟩, annotations, put', laid, same, names⟩
  have size : source.length = (if d.options.debug then 1 else 0) := by rw [optional.length, ite_not]
  have table := (put.append put').counted few (by rw [length_append, size, same, Nat.add_comm])
  refine ⟨source, annotations, table, size, laid, ?_⟩
  rw [map_append, optional.names, names, ite_not, attrNames]

theorem writes_body (d : Draft) : Writes d.writeBody fun t _ bs => ∃ interfaces fields methods attrs source annotations,
    (bs = be16 d.info.access.bits ++ (be16 d.thisRef ++ (be16 d.superRef ++ (interfaces ++ (fields ++ (methods ++ attrs))))) ∧
      Tabled (fun i bs => bs = be16 i) d.interfaceRefs interfaces ∧
      Tabled (fun f bs => f.Laid t bs) d.fields.toList fields ∧
      Tabled (fun m bs => m.Laid d.options.debug t bs) d.methods.toList methods ∧
      Tabled (AttrBytes t) (source ++ annotations) attrs ∧ source.length = (if d.options.debug then 1 else 0) ∧
      List.Forall₂ AnnotationAttr (annotationTables d.annotations) annotations) ∧
    (d.Names t → ∃ c, Reads (readItems d.options.minor d.options.major t) bs c ∧ c.pool = t ∧ d.Shows c) := by
  rw [writeBody_eq]
  refine ((Writes.u2 _).bind fun _ => (Writes.u2 _).bind fun _ => (Writes.u2 _).bind fun _ => (Writes.count _ _).bind fun _ =>
    (Writes.forM fun i _ => Writes.u2 i).bind fun _ => (Writes.count _ _).bind fun _ =>
    (Writes.forM fun f _ => Field.writes f).bind fun _ => (Writes.count _ _).bind fun _ =>
    (Writes.forM fun m _ => Method.writes m _).bind fun _ => d.writes_attrs).weaken ?_
  rintro t _ _ ⟨_, _, _, rfl, rfl, _, _, _, rfl, rfl, _, _, _, rfl, rfl, _, _, _, rfl, ⟨few1, rfl⟩, _, _, _, rfl,
    ⟨refs, each1, rfl⟩, _, _, _, rfl, ⟨few2, rfl⟩, _, _, _, rfl, ⟨fields, each2, rfl⟩, _, _, _, rfl, ⟨few3, rfl⟩, _, _, tail, rfl,
    ⟨methods, each3, rfl⟩, source, annotations, table, size, laid, names⟩
  have interfaces : Tabled (fun i bs => bs = be16 i) d.interfaceRefs _ := .of_count few1 rfl each1
  have fieldTable := Tabled.of_count few2 (by simp) each2
  have methodTable := Tabled.of_count few3 (by simp) each3
  refine ⟨_, _, _, tail, source, annotations, ⟨by simp, interfaces, fieldTable.imp fun _ _ h => h.1,
    methodTable.imp fun _ _ h => h.1, table, size, laid⟩, fun found => ?_⟩
  obtain ⟨fs, readFields, showFields⟩ := reads_members (fieldTable.imp fun _ _ h => h.2)
  obtain ⟨ms, readMethods, showMethods⟩ := reads_members (methodTable.imp fun _ _ h => h.2)
  have read := reads_items found interfaces readFields readMethods (reads_attrs table)
  exact ⟨_, read, rfl, ⟨rfl, rfl⟩, rfl, rfl, rfl, rfl, showFields, showMethods, names⟩

end Draft

theorem reads_class (sound : p.Sound) (short : ∀ e ∈ p.entries.toList, e.2.Short)
    (read : Reads (readItems minor major (Table.ofPool p)) items c) :
    Reads ClassFile.read (be32 Draft.magic ++ (be16 minor ++ (be16 major ++ (be16 p.next.toUInt16 ++
      (Pool.image p.entries.toList ++ items))))) c := by
  have first : Reads (ClassFile.Reader.number 4) (be32 Draft.magic) ClassFile.magic :=
    ClassFile.Reader.reads_number (be32 Draft.magic)
  have pool := Table.reads_ofPool sound short
  refine first.bind ?_
  refine (reads_u2 _).bind ((reads_u2 _).bind ?_)
  exact pool.bind read

/-- A class file has the tables of the class it was written from, and reads back as that class. -/
theorem Draft.decode_assemble {d : Draft} (sound : q.Sound)
    (written : Yields d.writeBody ⟨q, .empty⟩ y ⟨d.pool, body⟩) (whole : body.overflow = none)
    (fits : (assemble d.options d.pool body.bytes).overflow = none) :
    d.Laid (assemble d.options d.pool body.bytes).bytes ∧
      (((Table.ofPool d.pool).Holds d.pool → d.Names (Table.ofPool d.pool)) →
        ∃ c, ClassFile.decode (assemble d.options d.pool body.bytes).bytes.toList = .ok c ∧
          c.pool = Table.ofPool d.pool ∧ d.Shows c) := by
  obtain ⟨-, bs, bytes, holds⟩ := d.writes_body.puts written whole
  obtain ⟨-, kept⟩ := (d.writes_body.grows _).yields written
  have table := Table.holds_ofPool (kept sound)
  obtain ⟨interfaces, fields, methods, attrs, source, annotations, ⟨same, laid⟩, reads⟩ := holds sound _ table
  obtain ⟨-, -, short, front⟩ := Pool.of_write fits
  have all : (assemble d.options d.pool body.bytes).bytes.toList = be32 magic ++ (be16 d.options.minor ++
      (be16 d.options.major ++ (be16 d.pool.next.toUInt16 ++ (Pool.image d.pool.entries.toList ++ bs)))) := by
    rw [assemble, Writer.toList_raw, front, bytes]
    simp [Writer.u2, Writer.u4, Writer.empty]
  refine ⟨⟨interfaces, fields, methods, attrs, source, annotations, same ▸ all, laid⟩, fun names => ?_⟩
  obtain ⟨c, read, pool, shows⟩ := reads (names table)
  refine ⟨c, ?_, pool, shows⟩
  have read := reads_class (kept sound) short read [] 0
  rw [ClassFile.decode, all, ← append_nil (be32 _ ++ _), read]
  rfl

end ClassForge.Assembler

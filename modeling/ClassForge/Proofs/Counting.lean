import ClassForge.Proofs.Histories
import ClassForge.Proofs.Refusals

/-! A class that is written has true counts, in its annotations as in its tables. -/

namespace ClassForge.Assembler

open List Writer

/-- The bytes are those of an annotation, each table behind the number of its items. -/
def AnnotationBytes.Laid (b : AnnotationBytes) : Prop := ∃ a : Annotation, b.visible = a.visible ∧ a.Laid b.data.toList

namespace Draft

variable {p : Provider} {c : Call} {d d' : Draft} {b : AnnotationBytes} {j n : Nat} {α : Type} {name super : String}

theorem Encodes.blob (h : d.Encodes a b q) : b.Laid := ⟨a, h.visible, h.laid⟩

structure Annotated (d : Draft) : Prop where
  own : ∀ b ∈ d.annotations, b.Laid
  fields : ∀ (j : Nat) (f : Field), d.fields[j]? = some f → ∀ b ∈ f.annotations, b.Laid
  methods : ∀ (j : Nat) (m : Method), d.methods[j]? = some m → ∀ b ∈ m.annotations, b.Laid

theorem Turned.annotated {m : Method} (turned : Turned p d c j m) (valid : d.Valid lax) (h : d.Annotated) :
    ∀ b ∈ m.annotations, b.Laid := by
  cases turned with
  | kept found => exact h.methods j m found
  | declared _ fresh => simp [fresh.untouched.1]
  | marked found encodes => exact forall_push (h.methods j _ found) encodes.blob
  | threw found | built found =>
    have old := h.methods j _ found
    exact old
  | @performed m s x w _ found gives =>
    have same : w.method.annotations = m.annotations :=
      congrArg Method.Declaration.annotations (valid.requested found gives).2.1
    rw [same]
    exact h.methods j m found

theorem FieldTurned.annotated {f : Field} (turned : FieldTurned d c j f) (h : d.Annotated) :
    ∀ b ∈ f.annotations, b.Laid := by
  cases turned with
  | kept found => exact h.fields j f found
  | declared => simp
  | valued _ found =>
    have old := h.fields j _ found
    exact old
  | marked found encodes => exact forall_push (h.fields j _ found) encodes.blob

theorem Move.annotations (move : Move p c d d') (h : ∀ b ∈ d.annotations, b.Laid) : ∀ b ∈ d'.annotations, b.Laid := by
  cases move with
  | field _ run =>
    obtain ⟨q, ref, -, -, rfl⟩ := Change.of_addField run
    exact h
  | value _ run =>
    obtain rfl | ⟨q, f, value, ref, -, -, -, rfl⟩ := Change.of_initField run <;> exact h
  | markClass _ _ encodes => exact forall_push h encodes.blob
  | line | markField | markMethod | declare | throws | build | perform | close | write => exact h

theorem Move.annotated (move : Move p c d d') (valid : d.Valid lax) (h : d.Annotated) : d'.Annotated where
  own := move.annotations h.own
  fields _ _ found := (move.fieldTurned found).annotated h
  methods _ _ found := (move.turned valid found).annotated valid h

def attachedBy : Call → List Annotation
  | .annotateClass as | .annotateField _ as | .annotateMethod _ as => as
  | _ => []

theorem Valid.fits (h : d.Valid lax) (unwritten : d.output = none) (whole : (d.call p c).2.broken = none) :
    ∀ a ∈ attachedBy c, a.Fits := by
  cases c with
  | annotateClass as =>
    have run : d.annotateClass as = (_, _) := rfl
    exact (of_annotate run (.inr whole) (fun _ _ => rfl) id h.pool fun _ _ encodes _ => encodes.sound).2 unwritten
  | annotateField i as =>
    have run : d.annotateField i as = (_, _) := rfl
    exact (of_annotate run (.inr whole) (fun _ _ => rfl) id h.pool fun _ _ encodes _ => encodes.sound).2 unwritten
  | annotateMethod i as =>
    have run : d.annotateMethod i as = (_, _) := rfl
    exact (of_annotate run (.inr whole) (fun _ _ => rfl) id h.pool fun _ _ encodes _ => encodes.sound).2 unwritten
  | _ => rintro _ ⟨⟩

theorem annotated_create {options : Options}
    {recorder : Trace.Recorder} (made : create p access name super interfaces options tracer = (.ok d, recorder)) : d.Annotated := by
  obtain ⟨-, -, fields, methods, annotations, -⟩ := of_create made
  exact ⟨by simp [annotations], by simp [fields], by simp [methods]⟩

theorem whole_prefix (whole : (d.after (before ++ rest)).broken = none) : (d.after before).broken = none := by
  induction rest using reverseRecOn with
  | nil => simpa using whole
  | append_singleton rest c ih =>
    rw [← append_assoc] at whole
    exact ih (whole_before whole)

/-- In a class that is written every table stands behind the true number of its items, in
annotations as well, and an annotation with too large a table has been refused. The numbers of the
annotations of an attribute and of the exceptions of a method are not checked: they are true below
65536. -/
theorem counts_written {name : String} {options : Options}
    (made : create p access name super interfaces options tracer = (.ok d, recorder))
    (run : (d.after calls).bytes p' = (.ok out, d')) :
    d'.Laid out ∧ d'.Annotated ∧ ∀ before c rest, calls = before ++ c :: rest → (d.after before).output = none →
      ∀ a ∈ attachedBy c.2, a.Fits := by
  have valid := valid_create made
  have whole := whole_of_bytes run fine_ok
  have same : d.after (calls ++ [(p', .bytes)]) = d' := by
    rw [after_append]
    exact congrArg Prod.snd run
  have written : d'.output = some out := output_of_bytes run
  rw [← same] at whole
  refine ⟨?_, ?_, ?_⟩
  · have done := valid.lax_after whole
    rw [same] at done
    exact (done.output out written).laid
  · rw [← same]
    exact valid.keeps (annotated_create made) (fun valid h move => move.annotated valid h) whole
  · rintro before c rest rfl unwritten
    have whole : (d.after (before ++ [c] ++ (rest ++ [(p', .bytes)]))).broken = none := by simpa using whole
    have here := whole_prefix whole
    have before_ := valid.lax_after (whole_before here)
    rw [after_append] at here
    exact before_.fits unwritten here

theorem counts_written_counter : ∃ out d', (counter.after counterCalls).bytes library = (.ok out, d') ∧ d'.Laid out ∧
    d'.Annotated :=
  have ⟨laid, annotated, _⟩ := counts_written counter_created counter_written
  ⟨_, _, counter_written, laid, annotated⟩

theorem of_refused (run : d.change (encoded a) = (.error f, d')) :
    d'.annotations = d.annotations ∧ d'.fields = d.fields ∧ d'.methods = d.methods := by
  unfold change at run
  split at run
  · cases run
    exact ⟨rfl, rfl, rfl⟩
  unfold attempt at run
  split at run
  · cases run
  rename_i e v ran
  have kept : v = { d with pool := v.pool } := by
    unfold ExceptT.run encoded at ran
    dsimp only at ran
    split at ran
    split at ran
    · cases ran
      rfl
    · split at ran <;> cases ran
      rfl
  cases run
  split
  · rw [kept]
    exact ⟨rfl, rfl, rfl⟩
  · rw [kept]
    exact ⟨rfl, rfl, rfl⟩

/-- An annotation that a class accepts reads back from its bytes, with any table that has the
entries of the pool. One that nothing could read back is refused and not attached. -/
theorem annotation_reads_back {name : String} {options : Options}
    (made : create p access name super interfaces options tracer = (.ok d, recorder))
    (calls : List (Provider × Call)) (a : Annotation) :
    (∀ b d', (d.after calls).change (encoded a) = (.ok b, d') → b.visible = a.visible ∧
      d' = { d.after calls with pool := d'.pool } ∧ ∃ x, a.shown? (d.after calls).name = some x ∧
        ∀ t : ClassFile.Table, t.Holds d'.pool → (ClassFile.readAnnotated t).Reads b.data.toList x) ∧
    (a.shown? (d.after calls).name = none → ∀ attach as, ∃ f d', (d.after calls).annotate attach (a :: as) = (.error f, d') ∧
      d'.annotations = (d.after calls).annotations ∧ d'.fields = (d.after calls).fields ∧
      d'.methods = (d.after calls).methods) := by
  have accepted : ∀ b d', (d.after calls).change (encoded a) = (.ok b, d') → ∃ q, (d.after calls).Encodes a b q ∧
      d' = { d.after calls with pool := q } := by
    intro b d' run
    unfold change at run
    split at run
    · cases run
    rename_i usable
    have whole : (d.after calls).broken = none := by
      cases broken : (d.after calls).broken with
      | none => rfl
      | some f => simp [unusable, broken] at usable
    have valid := (valid_create made).lax_after whole
    unfold attempt at run
    split at run
    · cases run
      exact encodes_of_encoded valid.pool ‹_›
    · cases run
  refine ⟨fun b d' run => ?_, fun unread attach as => ?_⟩
  · obtain ⟨q, encodes, rfl⟩ := accepted b d' run
    exact ⟨encodes.visible, rfl, encodes.reads⟩
  · cases ran : (d.after calls).change (encoded a) with
    | mk r d' =>
      cases r with
      | ok b =>
        obtain ⟨q, encodes, -⟩ := accepted b d' ran
        obtain ⟨x, shown, -⟩ := encodes.reads
        rw [unread] at shown
        cases shown
      | error f => exact ⟨f, d', by rw [annotate, ran], of_refused ran⟩

def mixed : Annotation := ⟨.ofClass "demo/Mark", true, [("of", .list [.type .int, .nested (.ofClass "demo/Tag") true
  [("names", .texts ["a", "b"]), ("size", .integer .int (-5))]])]⟩

def gap : Annotation := ⟨.ofClass "demo/Mark", true, [("of", .list [.null])]⟩

theorem annotation_reads_back_mixed :
    (∃ b d', counter.change (encoded mixed) = (.ok b, d') ∧ ∀ t : ClassFile.Table, t.Holds d'.pool →
      (ClassFile.readAnnotated t).Reads b.data.toList ("Ldemo/Mark;", [("of", .array [.text 'c' "I", .nested "Ldemo/Tag;"
        [("names", .array [.text 's' "a", .text 's' "b"]), ("size", .int 'I' (-5))]])])) ∧
    ∃ f d', counter.annotateClass [gap] = (.error f, d') ∧ d'.annotations = counter.annotations := by
  have accepted : (counter.change (encoded mixed)).1.isOk = true := by decide +kernel
  have is : ∀ name, mixed.shown? name = some _ := fun _ => rfl
  obtain ⟨-, -, x, shown, reads⟩ := (annotation_reads_back counter_created [] mixed).1 _ _ (eq_of_isOk accepted)
  obtain ⟨f, d', refused, same, -⟩ := (annotation_reads_back counter_created [] gap).2 rfl
    (fun d b => { d with annotations := d.annotations.push b }) []
  refine ⟨⟨_, _, eq_of_isOk accepted, ?_⟩, f, d', refused, same⟩
  cases (is _).symm.trans shown
  exact reads

/-! One annotation too many: the number wraps around. -/

def mark : Annotation := ⟨.ofClass "demo/Mark", true, []⟩

def many : Draft :=
  (create library (.publicBit ||| .abstractBit) "demo.Many" "" [] {} {}).1.toOption.getD default

def marked : Draft := (many.call library (.annotateClass [mark])).2

def markBytes : AnnotationBytes := ⟨true, (be16 5 ++ be16 0).toArray⟩

structure Ready (d : Draft) : Prop where
  whole : d.broken = none
  unwritten : d.output = none
  known : d.pool.indices[Constant.utf8 "Ldemo/Mark;"]? = some 5

theorem intern_found (found : q.indices[k]? = some i) : Yields (Pool.intern k) q i q := by
  simp [Yields, ExceptT.run, Pool.intern, found]

theorem utf8_found (short : ¬ ModifiedUtf8.size s > 65535)
    (found : q.indices[Constant.utf8 s]? = some i) : Yields (Pool.utf8 s) q i q := by
  rw [Pool.utf8, Yields.refuse_iff]
  exact ⟨short, intern_found found⟩

theorem yields_intern (run : Yields a o x q) : Yields (Serial.intern a) ⟨o, w⟩ x ⟨q, w⟩ := by
  have run : a o = (.ok x, q) := run
  change (_, (⟨(a o).2, w⟩ : Output)) = _
  rw [run]

theorem yields_write : Yields (Serial.write f) o () ⟨o.pool, f o.writer⟩ := rfl

theorem Ready.encode (h : d.Ready) (name : String) : Yields (mark.encode name) ⟨d.pool, .empty⟩ ()
    ⟨d.pool, ⟨markBytes.data, none⟩⟩ := by
  have known : Yields (Serial.intern (Pool.utf8 "Ldemo/Mark;")) ⟨d.pool, .empty⟩ 5 ⟨d.pool, .empty⟩ :=
    yields_intern (utf8_found (by decide) h.known)
  have same : mark.type.resolve name = .ofClass "demo/Mark" := rfl
  simp only [same, Annotation.encode, Annotation.header, Yields.bind_iff]
  have counted : Yields (Serial.count 0 "annotation elements") ⟨d.pool, empty.u2 5⟩ () ⟨d.pool, ⟨markBytes.data, none⟩⟩ := by
    exact yields_write
  exact ⟨(), _, Yields.bind_iff.mpr ⟨5, _, known, Yields.bind_iff.mpr ⟨(), _, yields_write, counted⟩⟩, rfl⟩

theorem Ready.encoded (h : d.Ready) : Yields (encoded mark) d markBytes d := by
  have run : (mark.encode d.name).run ⟨d.pool, .empty⟩ = _ := h.encode d.name
  unfold Yields ExceptT.run Draft.encoded
  have name : { d with pool := .empty }.name = d.name := rfl
  simp only [name, run]
  rfl

theorem Ready.change (h : d.Ready) (run : Yields a d x d') : d.change a = (.ok x, d') := by
  have ran : a.run d = _ := run
  simp [Draft.change, unusable, h.whole, h.unwritten, attempt, ran]

theorem Ready.call (h : d.Ready) : (d.call library (.annotateClass [mark])).2 =
    { d with annotations := d.annotations.push markBytes } := by
  simp [Draft.call, replying, annotateClass, annotate, h.change h.encoded]

theorem Ready.after (h : d.Ready) (n : Nat) : d.after (.replicate n (library, .annotateClass [mark])) =
    { d with annotations := d.annotations ++ Array.replicate n markBytes } := by
  induction n generalizing d with
  | zero => simp [Draft.after]
  | succ n ih =>
    have more : { d with annotations := d.annotations.push markBytes }.Ready := ⟨h.whole, h.unwritten, h.known⟩
    rw [replicate_succ, Draft.after, foldl_cons, ← Draft.after, h.call, ih more]
    simp [Array.replicate_succ']

structure Bare (d : Draft) (n : Nat) : Prop extends Ready d where
  fields : d.fields = #[]
  methods : d.methods = #[]
  interfaces : d.interfaceRefs = []
  plain : d.options.debug = false
  abstract : d.info.access.isAbstract = true
  annotations : d.annotations = Array.replicate n markBytes

def marksBody (n : Nat) : Array UInt8 := (be16 n.toUInt16 ++ (List.replicate n markBytes.data.toList).flatten).toArray

theorem annotationAttrs_marks (some_ : 0 < n) :
    annotationAttrs (Array.replicate n markBytes) = [("RuntimeVisibleAnnotations", marksBody n)] := by
  have visible : (Array.replicate n markBytes).toList.filter (·.visible == true) = replicate n markBytes := by
    simp [markBytes]
  have hidden : (Array.replicate n markBytes).toList.filter (·.visible == false) = [] := by
    simp [markBytes]
  unfold annotationAttrs annotationBody
  rw [visible, hidden]
  cases n with
  | zero => omega
  | succ k =>
    have body : (replicate (k + 1) markBytes).foldl (fun bs b => bs ++ b.data)
        (be16 (replicate (k + 1) markBytes).length.toUInt16).toArray = marksBody (k + 1) := by
      apply Array.toList_inj.mp
      rw [toList_foldl_data]
      simp [marksBody]
    rw [← body]
    rfl

theorem Bare.writes (h : d.Bare n) (some_ : 0 < n) (few : 4 * n + 2 < 4294967296)
    (named : Yields (Pool.utf8 "RuntimeVisibleAnnotations") d.pool i q) :
    ∃ body, Yields d.writeBody ⟨d.pool, .empty⟩ () ⟨q, body⟩ ∧ body.overflow = none ∧
      ∃ front, body.bytes.toList = front ++ (be32 (4 * n + 2).toUInt32 ++ (marksBody n).toList) := by
  have size : (marksBody n).size = 4 * n + 2 := by
    simp [marksBody, be16, markBytes]
    omega
  have run : ∃ w : Writer, w.overflow = none ∧ Yields d.writeBody ⟨d.pool, .empty⟩ () ⟨q, w.attr i (marksBody n)⟩ := by
    rw [writeBody_eq, h.fields, h.methods, h.interfaces, writeAttrs, sourceAttr, h.plain, h.annotations,
      annotationAttrs_marks some_, if_neg (by decide)]
    simp only [Serial.attrs, Serial.attr, Serial.u2, Serial.count, forM_eq_forM, forM_cons, forM_nil,
      Yields.bind_iff, Yields.pure_iff]
    refine ⟨_, ?_, (), _, yields_write, (), _, yields_write, (), _, yields_write, (), _, yields_write, (), _, ⟨trivial, rfl⟩, (),
      _, yields_write, (), _, ⟨trivial, rfl⟩, (), _, yields_write, (), _, ⟨trivial, rfl⟩, (), _, yields_write, (), _, rfl, (), _,
      ⟨i, _, yields_intern named, yields_write⟩, trivial, rfl⟩
    simp [len2, u2, empty]
  obtain ⟨w, whole, run⟩ := run
  have sized : (w.u2 i).len4 (marksBody n).size "attribute" = (w.u2 i).u4 (4 * n + 2).toUInt32 := by
    rw [size, len4, if_pos (by omega)]
    rfl
  refine ⟨_, run, ?_, w.bytes.toList ++ be16 i, ?_⟩
  · rw [attr, sized]
    simpa [u2, u4] using whole
  · rw [attr, sized]
    simp [u2, u4]

theorem yields_serialize (written : Yields d.writeBody ⟨d.pool, .empty⟩ () ⟨q, body⟩)
    (whole : body.overflow = none) (fits : (assemble d.options q body.bytes).overflow = none) :
    Yields serialize d (assemble d.options q body.bytes).bytes { d with pool := q } := by
  have same : { d with pool := .empty }.writeBody = d.writeBody := rfl
  have written : d.writeBody.run ⟨d.pool, .empty⟩ = _ := written
  unfold Yields ExceptT.run serialize
  simp only [same, written, whole, fits]

theorem Bare.bytes (h : d.Bare n) (some_ : 0 < n) (few : 4 * n + 2 < 4294967296)
    (named : Yields (Pool.utf8 "RuntimeVisibleAnnotations") d.pool i q)
    (small : (assemble d.options q #[]).overflow = none) : ∃ out d', d.bytes p = (.ok out, d') ∧
      d'.annotations = d.annotations ∧
      ∃ front, out.toList = front ++ (be32 (4 * n + 2).toUInt32 ++ (marksBody n).toList) := by
  obtain ⟨body, written, whole, front, bytes⟩ := h.writes some_ few named
  have complete : Yields (checkComplete p) d () d := by
    simp [checkComplete, h.methods, h.abstract]
  have added : d.addMissingStaticInit p = (.ok (), d) := by
    simp [addMissingStaticInit, needsStaticInit, h.fields]
  have fits : (assemble d.options q body.bytes).overflow = none := by
    exact small
  have serialized : serialize (d.note .writing) = _ := yields_serialize (d := d.note .writing) written whole fits
  unfold Draft.bytes
  simp only [h.unwritten, h.change complete, added, serialized]
  refine ⟨_, _, rfl, rfl, (assemble d.options q #[]).bytes.toList ++ front, ?_⟩
  have options : (d.note .writing).options = d.options := rfl
  simp only [assemble, toList_raw, bytes, options]
  simp

theorem marked_bare : marked.Bare 1 := by
  have facts : (marked.broken.isNone && marked.output.isNone && marked.fields.isEmpty && marked.methods.isEmpty &&
      marked.interfaceRefs.isEmpty && !marked.options.debug && marked.info.access.isAbstract &&
      marked.pool.indices[Constant.utf8 "Ldemo/Mark;"]? == some 5 &&
      (marked.annotations.toList.map fun b => (b.visible, b.data.toList)) == [(true, markBytes.data.toList)]) = true := by
    decide +kernel
  simp only [Bool.and_eq_true, Option.isNone_iff_eq_none, Array.isEmpty_iff, List.isEmpty_iff, Bool.not_eq_true', beq_iff_eq] at facts
  obtain ⟨⟨⟨⟨⟨⟨⟨⟨whole, unwritten⟩, fields⟩, methods⟩, interfaces⟩, plain⟩, abstract⟩, known⟩, annotations⟩ := facts
  refine ⟨⟨whole, unwritten, known⟩, fields, methods, interfaces, plain, abstract, ?_⟩
  obtain ⟨⟨visible, bytes⟩, one, same⟩ := List.map_eq_singleton_iff.mp annotations
  obtain ⟨rfl, same⟩ := Prod.mk.inj same
  obtain rfl : bytes = markBytes.data := Array.toList_inj.mp same
  exact Array.toList_inj.mp one

/-- However often the annotation is attached, the class is written, with the number cut to two
bytes. -/
theorem marks_written (n : Nat) (few : 4 * (n + 1) + 2 < 4294967296) : ∃ out d' front,
    (many.after (.replicate (n + 1) (library, .annotateClass [mark]))).bytes library = (.ok out, d') ∧
    d'.annotations = Array.replicate (n + 1) markBytes ∧
    out.toList = front ++ (be32 (4 * (n + 1) + 2).toUInt32 ++ (marksBody (n + 1)).toList) := by
  have named : (Pool.utf8 "RuntimeVisibleAnnotations" marked.pool).1.isOk = true ∧
      (assemble marked.options (Pool.utf8 "RuntimeVisibleAnnotations" marked.pool).2 #[]).overflow = none := by
    decide +kernel
  have all : many.after (.replicate (n + 1) (library, .annotateClass [mark])) =
      { marked with annotations := Array.replicate (n + 1) markBytes } := by
    have rest : marked.after _ = _ := marked_bare.toReady.after n
    rw [marked_bare.annotations, Array.replicate_append_replicate, Nat.add_comm] at rest
    exact rest
  have bare : { marked with annotations := Array.replicate (n + 1) markBytes }.Bare (n + 1) :=
    { marked_bare with annotations := rfl }
  obtain ⟨out, d', run, annotations, front, bytes⟩ :=
    bare.bytes (p := library) (Nat.succ_pos n) few (eq_of_isOk named.1) named.2
  exact ⟨out, d', front, all ▸ run, annotations, bytes⟩

/-- Nothing says that a class has one annotation too many: 65536 of them are written behind the number 0. -/
theorem annotations_wrap : ∃ out d' front,
    (many.after (.replicate 65536 (library, .annotateClass [mark]))).bytes library = (.ok out, d') ∧
    d'.annotations.size = 65536 ∧
    out.toList = front ++ (be32 262146 ++ (be16 0 ++ (List.replicate 65536 markBytes.data.toList).flatten)) := by
  obtain ⟨out, d', front, run, annotations, bytes⟩ := marks_written 65535 (by decide)
  exact ⟨out, d', front, run, by rw [annotations, Array.size_replicate], bytes⟩

end Draft

end ClassForge.Assembler

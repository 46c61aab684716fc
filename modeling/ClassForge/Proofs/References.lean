import ClassForge.Proofs.Placement

/-! What the code of a class file refers to: entries of the kind that the instruction takes, for
what the calls resolved. -/

namespace ClassForge

def Opcode.takes (op : Opcode) : Reference → Bool
  | .integer _ | .float _ | .text _ => [ldc, ldcW].contains op
  | .long _ | .double _ => [ldc2W].contains op
  | .type _ => [ldc, ldcW, new, anewarray, checkcast, instanceof].contains op
  | .member .field .. => [getfield, putfield, getstatic, putstatic].contains op
  | .member .method .. => [invokevirtual, invokespecial, invokestatic].contains op
  | .member .interfaceMethod .. => [invokeinterface, invokevirtual, invokespecial, invokestatic].contains op

namespace ClassFile.Table

def Refers (t : Table) (i : UInt16) : Reference → Prop
  | .integer v => t.entry i = .ok (some (.integer v))
  | .float b => t.entry i = .ok (some (.float b))
  | .long v => t.entry i = .ok (some (.long v))
  | .double b => t.entry i = .ok (some (.double b))
  | .text s => ∃ j, t.entry i = .ok (some (.string j)) ∧ t.utf8 j = .ok s
  | .type name => t.className i = .ok name
  | .member kind owner name descriptor =>
    (∃ a b, t.entry i = .ok (some (.member kind a b))) ∧ t.memberRef i = .ok (owner, name, descriptor)

variable {t : Table} {p : Pool} {i : UInt16}

theorem Holds.nameAndType (h : t.Holds p) (found : p.nameAndType? i = some s) : t.nameAndType i = .ok s := by
  unfold Pool.nameAndType? at found
  split at found
  · rename_i entry
    obtain ⟨n, name, rest⟩ := Option.bind_eq_some_iff.mp found
    obtain ⟨d, descriptor, rfl⟩ := Option.map_eq_some_iff.mp rest
    rw [Table.nameAndType, h i _ entry]
    simp only [bind, Except.bind, h.utf8 name, h.utf8 descriptor]
    rfl
  · cases found

theorem Holds.refers (h : t.Holds p) (found : p.reference? i = some r) : t.Refers i r := by
  unfold Pool.reference? at found
  split at found
  · rename_i entry
    cases found
    exact h i _ entry
  · rename_i entry
    cases found
    exact h i _ entry
  · rename_i entry
    cases found
    exact h i _ entry
  · rename_i entry
    cases found
    exact h i _ entry
  · rename_i j entry
    obtain ⟨s, text, rfl⟩ := Option.map_eq_some_iff.mp found
    exact ⟨j, h i _ entry, h.utf8 text⟩
  · rename_i j entry
    obtain ⟨s, text, rfl⟩ := Option.map_eq_some_iff.mp found
    refine h.className ?_
    rw [Pool.className?, entry]
    exact text
  · rename_i kind a b entry
    obtain ⟨o, owner, rest⟩ := Option.bind_eq_some_iff.mp found
    obtain ⟨nt, spelled, rfl⟩ := Option.map_eq_some_iff.mp rest
    refine ⟨⟨a, b, h i _ entry⟩, ?_⟩
    rw [Table.memberRef, h i _ entry]
    simp only [bind, Except.bind, h.className owner, h.nameAndType spelled]
    rfl
  · cases found

end ClassFile.Table

theorem Pool.get?_of_reference? {p : Pool} (found : p.reference? i = some r) : ∃ c, p.get? i = some c := by
  unfold reference? at found
  cases entry : p.get? i with
  | none => simp [entry] at found
  | some c => exact ⟨c, rfl⟩

namespace Assembler

/-! The instruction takes what the request names. -/

variable {b : Build} {ctx : Context} {d : Draft} {f : Field} {m : Method} {op : Opcode} {p : Provider} {r : Reference}
  {s : Statement} {descriptor name owner : String} {c : Call} {n : Nat}

theorem Value.takes_of_loadOps {v : Value} (found : v.reference? = some r)
    (loads : op ∈ v.loadOps) : op.takes r = true := by
  cases v with
  | null | bool => cases found
  | int | long | float | double | text | type =>
    cases found
    simp only [Value.loadOps, Value.word, Word.size, Nat.reduceEqDiff, if_true, if_false, List.mem_cons, List.not_mem_nil,
      or_false] at loads
    rcases loads with rfl | rfl <;> rfl

theorem Calls.takes {m : MethodInfo} (h : Calls ctx m special op r) : op.takes r = true := by
  obtain @⟨owner, -⟩ := h
  unfold MethodInfo.callOp
  cases owner.isInterface with
  | false =>
    rw [if_neg (c := false = true) (by decide)]
    split_ifs <;> rfl
  | true => split_ifs <;> rfl

theorem Concatenates.takes {s t : JType} (h : Concatenates s t op r) : op.takes r = true := by
  cases h <;> rfl

theorem Build.Names.takes (h : b.Names ctx m op r) : op.takes r = true := by
  cases h with
  | const _ found loads | char _ found loads => exact Value.takes_of_loadOps found loads
  | concat _ _ _ concatenates => exact concatenates.takes
  | call _ _ _ calls | callStatic _ _ calls | callSuper _ _ calls => exact calls.takes
  | primitive | static | field | newArray | cast | instanceOf | new | constructor => rfl

theorem Field.Stores.takes (h : f.Stores op r) : op.takes r = true := by
  cases h with
  | put => split_ifs <;> rfl
  | value _ found loads => exact Value.takes_of_loadOps found loads

theorem Statement.Names.takes (h : s.Names ctx m op r) : op.takes r = true := by
  cases h with
  | superCall _ _ calls => exact calls.takes
  | superStore _ _ stores | closeStore _ _ _ stores => exact stores.takes
  | setField | setStatic | iterate | item | implicitSuper => rfl

theorem Boxing.takes (h : Boxing op r) : op.takes r = true := by
  cases h <;> rfl

theorem Value.reference?_ne_member (v : Value) : v.reference? ≠ some (.member kind owner name descriptor) := by
  cases v <;> simp [Value.reference?]

/-! An entry for a method of an interface is for a method that an interface declares. -/

def Context.HasInterface (ctx : Context) (name : String) : Prop :=
  ∃ c, ctx.lookup.lookup name = .ok c ∧ c.isInterface = true

theorem Calls.interface {m : MethodInfo} (h : Calls ctx m special op (.member .interfaceMethod owner name descriptor)) :
    ctx.HasInterface owner := by
  obtain ⟨c, found, kind, rfl⟩ : ∃ c : ClassInfo, ctx.lookup.lookup m.owner = .ok c ∧
      methodKind c.isInterface = .interfaceMethod ∧ m.owner = owner := by
    generalize same : Reference.member .interfaceMethod owner name descriptor = r at h
    obtain @⟨c, found⟩ := h
    simp only [Reference.member.injEq] at same
    exact ⟨c, found, same.1.symm, same.2.1.symm⟩
  refine ⟨c, found, ?_⟩
  by_contra other
  rw [methodKind, if_neg other] at kind
  cases kind

theorem Build.Names.interface (h : b.Names ctx m op (.member .interfaceMethod owner name descriptor)) :
    ctx.HasInterface owner := by
  cases h with
  | const _ found | char _ found => exact absurd found (Value.reference?_ne_member _)
  | concat _ _ _ concatenates => cases concatenates
  | call _ _ _ calls | callStatic _ _ calls | callSuper _ _ calls => exact calls.interface

theorem Field.Stores.not_interface : ¬f.Stores op (.member .interfaceMethod owner name descriptor) := by
  intro h
  cases h with
  | value _ found => exact absurd found (Value.reference?_ne_member _)

theorem Statement.Names.interface (h : s.Names ctx m op (.member .interfaceMethod owner name descriptor)) :
    op = .invokeinterface ∨ ctx.HasInterface owner := by
  cases h with
  | superCall _ _ calls => exact .inr calls.interface
  | superStore _ _ stores | closeStore _ _ _ stores => exact absurd stores Field.Stores.not_interface
  | iterate => exact .inl rfl

theorem Boxing.not_interface : ¬Boxing op (.member .interfaceMethod owner name descriptor) := by rintro ⟨⟩

/-- A call refers to `r` by `op` in the method numbered `n`. Writing adds the stores of static
fields to a missing initializer. -/
inductive Call.Names (p : Provider) (d : Draft) (n : Nat) : Call → Opcode → Reference → Prop
  | build {b : Build} {m : Method} {op : Opcode} {r : Reference} : d.methods[n]? = some m →
      b.Names (d.context p) m op r → Names p d n (.build n b) op r
  | perform {s : Statement} {m : Method} {op : Opcode} {r : Reference} : d.methods[n]? = some m →
      s.Names (d.context p) m op r → Names p d n (.perform n s) op r
  | bytes {f : Field} {op : Opcode} {r : Reference} : n = d.methods.size → f ∈ d.fields → f.isStored true = true →
      f.Stores op r → Names p d n .bytes op r

theorem Call.Names.takes (h : c.Names p d n op r) : op.takes r = true := by
  cases h with
  | build _ names | perform _ names => exact names.takes
  | bytes _ _ _ stores => exact stores.takes

theorem Call.Names.interface (h : c.Names p d n op (.member .interfaceMethod owner name descriptor)) :
    op = .invokeinterface ∨ (d.context p).HasInterface owner := by
  cases h with
  | build _ names => exact .inr names.interface
  | perform _ names => exact names.interface
  | bytes _ _ _ stores => exact absurd stores Field.Stores.not_interface

namespace Draft

/-- One of the calls refers to `r` by `op` in the method numbered `n`. -/
def Named (d : Draft) (calls : List (Provider × Call)) (n : Nat) (op : Opcode) (r : Reference) : Prop :=
  ∃ before c rest, calls = before ++ c :: rest ∧ c.2.Names c.1 (d.after before) n op r

/-- One of the calls opens a handler for the class in the method numbered `n`. -/
def Caught (d : Draft) (calls : List (Provider × Call)) (n : Nat) (name : String) : Prop :=
  ∃ before p s rest, calls = before ++ (p, .perform n s) :: rest ∧ s.Catches (d.after before).name name

def naming (d : Draft) (calls : List (Provider × Call)) (n : Nat) : Policy :=
  ⟨False, False, fun op r => Boxing op r ∨ d.Named calls n op r, d.Caught calls n, .empty, fun _ => True⟩

theorem allowed_naming (d : Draft) (calls : List (Provider × Call)) : d.Allowed (d.naming calls) calls := by
  intro before c rest same _
  obtain ⟨p, c⟩ := c
  cases c with
  | addField | addMethod | addConstructor => rintro _ ⟨⟩
  | build i b =>
    exact ⟨by rintro ⟨⟩, fun m found op r names => .inr ⟨before, _, rest, same, .build found names⟩⟩
  | perform i s =>
    exact ⟨by rintro ⟨⟩, fun m found => ⟨by rintro ⟨⟩, by rintro ⟨⟩, fun op r names => .inr ⟨before, _, rest, same, .perform found names⟩,
      fun name catches => ⟨before, p, s, rest, same, catches⟩, fun _ _ _ _ => trivial⟩⟩
  | bytes =>
    exact ⟨by rintro ⟨⟩, fun f hf stored op r stores => .inr ⟨before, _, rest, same, .bytes rfl hf stored stores⟩⟩
  | initField | addStaticInit | throws | annotateClass | annotateField | annotateMethod | setLine => trivial

/-- Every entry that code refers to is there, is of the kind that the instruction takes, and stands for what a call
resolved or for a conversion to or from a wrapper; handlers catch classes that calls name. -/
theorem references_written {p q : Provider} {d d' : Draft} {name : String} {options : Options}
    (made : create p access name super interfaces options tracer = (.ok d, recorder))
    (written : (d.after calls).bytes q = (.ok out, d')) : ∃ c, ClassFile.decode out.toList = .ok c ∧
      ∀ n x, c.methods[n]? = some x → "Code" ∈ x.attrs.map Attr.name →
        ∃ b is, ClassFile.body? c.pool x = .ok b ∧ Instruction.split b.code = .ok is ∧
          (∀ i ∈ is, i.op.takesEntry = true → i.entry ≠ 0 ∧ i.entry.toNat < c.pool.size ∧
            ∃ r, c.pool.Refers i.entry r ∧ i.op.takes r = true ∧
              (Boxing i.op r ∨ d.Named (calls ++ [(q, .bytes)]) n i.op r) ∧
              ∀ owner name descriptor, r = .member .interfaceMethod owner name descriptor → i.op ≠ .invokeinterface →
                ∃ before e rest, calls ++ [(q, .bytes)] = before ++ e :: rest ∧
                  ((d.after before).context e.1).HasInterface owner) ∧
          ∀ h ∈ b.handlers, h.catchType ≠ 0 ∧ h.catchType < c.pool.size ∧
            ∃ name, c.pool.className h.catchType.toUInt16 = .ok name ∧ d.Caught (calls ++ [(q, .bytes)]) n name := by
  have valid : d.Valid (d.naming (calls ++ [(q, .bytes)])) :=
    .of_create (fun _ => rfl) (fun _ _ => trivial) (fun _ _ _ => .inl) made
  obtain ⟨valid, wrote, -, c, read, pool, shows⟩ := valid.of_written (allowed_naming d _) written
  have holds : c.pool.Holds d'.pool := by
    rw [pool]
    exact ClassFile.Table.holds_ofPool valid.pool
  have inside : ∀ {i : UInt16} {r : Reference}, d'.pool.reference? i = some r → i ≠ 0 ∧ i.toNat < c.pool.size := by
    intro i r found
    obtain ⟨k, entry⟩ := Pool.get?_of_reference? found
    rw [pool, ClassFile.Table.size_ofPool valid.pool]
    exact valid.pool.index_range entry
  refine ⟨c, read, fun n x hx has => ?_⟩
  obtain ⟨m, b, -, body, same, -, spots, cert, tables⟩ := valid.body wrote shows hx has
  refine ⟨b, spots.map Spot.insn, body, ?_, fun i hi takes => ?_, fun h hh => ?_⟩
  · rw [same.code]
    exact Instruction.split_of_splits cert.splits
  · obtain ⟨y, hy, rfl⟩ := List.mem_map.mp hi
    obtain ⟨r, found, named⟩ := (cert.admits y hy).names takes
    refine ⟨(inside found).1, (inside found).2, r, holds.refers found, ?_, named, ?_⟩
    · rcases named with boxing | ⟨_, _, _, _, names⟩
      · exact boxing.takes
      · exact names.takes
    · rintro owner name descriptor rfl other
      rcases named with boxing | ⟨before, e, rest, split, names⟩
      · exact absurd boxing Boxing.not_interface
      · exact ⟨before, e, rest, split, names.interface.resolve_left other⟩
  · rw [same.handlers] at hh
    obtain ⟨k, hk, rfl⟩ := List.mem_map.mp hh
    obtain ⟨name, found, caught⟩ := (tables.guards k (Array.mem_toList_iff.mp hk)).catches
    refine ⟨fun zero => (inside found).1 (UInt16.toNat_inj.mp zero), (inside found).2, name, ?_, caught⟩
    simp only [Handler.row, Nat.toUInt16_eq, UInt16.ofNat_toNat]
    exact holds.refers found

theorem references_written_counter : ∃ out d', (counter.after counterCalls).bytes library = (.ok out, d') ∧
    ∃ c, ClassFile.decode out.toList = .ok c ∧ ∀ (n : Nat) x, c.methods[n]? = some x → "Code" ∈ x.attrs.map Attr.name →
      ∃ b is, ClassFile.body? c.pool x = .ok b ∧ Instruction.split b.code = .ok is ∧
        ∀ i ∈ is, i.op.takesEntry = true → ∃ r, c.pool.Refers i.entry r ∧ i.op.takes r = true := by
  obtain ⟨c, read, each⟩ := references_written counter_created counter_written
  refine ⟨_, _, counter_written, c, read, fun n x hx has => ?_⟩
  obtain ⟨b, is, body, split, entries, -⟩ := each n x hx has
  refine ⟨b, is, body, split, fun i hi takes => ?_⟩
  obtain ⟨-, -, r, refers, suits, -⟩ := entries i hi takes
  exact ⟨r, refers, suits⟩

end Draft

end Assembler

end ClassForge

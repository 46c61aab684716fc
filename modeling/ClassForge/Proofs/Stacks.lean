import ClassForge.Proofs.Flow
import ClassForge.Proofs.RoundTrip

/-! The operand stack: every instruction has one shape of stack to start from, whichever way control comes. -/

namespace ClassForge

open List Instruction ClassFile

theorem Instruction.Moves.eq_of_effect {i : Instruction} (h : i.Moves p s t)
    (known : i.effect? p = some e) : ∃ r, s = e.pops ++ r ∧ t = e.pushes ++ r := by
  have other : ∀ op : Opcode, op = .dup ∨ op = .pop ∨ op = .pop2 → i.op ≠ op := by
    rintro op (rfl | rfl | rfl) same <;>
    · have none : i.effect? p = none := by
        simp only [effect?, same]
        rfl
      cases none.symm.trans known
  cases h with
  | effect r found =>
    cases found.symm.trans known
    exact ⟨r, rfl, rfl⟩
  | dup _ op => exact absurd op (other _ (.inl rfl))
  | pop _ op => exact absurd op (other _ (.inr (.inl rfl)))
  | pop2 _ op => exact absurd op (other _ (.inr (.inr rfl)))

/-- The shapes give every instruction its operands, and every way to an instruction leaves its
shape. -/
structure Disciplined (p : Pool) (is : List Instruction) (size : Nat) (rows : List HandlerRow) (limit : Nat)
    (shape : Nat → List Word) : Prop where
  entry : shape 0 = []
  handlers : ∀ h ∈ rows, shape h.pc = [.reference]
  pops : ∀ i ∈ is, ∃ after, i.Moves p (shape i.pc) after
  flows : ∀ i pos, Flows is size [] i pos → i.Moves p (shape i.pc) (shape pos)
  fits : ∀ i ∈ is, Word.depth (shape i.pc) ≤ limit

def shapeAt (spots : List Spot) (pos : Nat) : List Word :=
  (spots.find? fun x => x.insn.pc == pos).elim [] (·.state.stack)

namespace Certified

variable {bytes : Array UInt8} {spots : List Spot}

theorem shapeAt_eq (cert : Certified R bytes opened spots none)
    (arrives : (View.mk spots bytes.size none).At pos d) : shapeAt spots pos = d.stack := by
  obtain ⟨x, hx, rfl, rfl⟩ | ⟨-, missing⟩ := arrives
  · have found : (spots.find? fun y => y.insn.pc == x.insn.pc).isSome = true := find?_isSome.mpr ⟨x, hx, by simp⟩
    obtain ⟨y, hy⟩ := Option.isSome_iff_exists.mp found
    rw [shapeAt, hy]
    have same := find?_some hy
    rw [cert.pc_inj (mem_of_find?_eq_some hy) hx (beq_iff_eq.mp same)]
    rfl
  · cases missing

theorem disciplined {handlers : List Assembler.Handler} (cert : Certified R bytes [] spots none) (typed : R.typed)
    (guards : ∀ h ∈ handlers, h.Guards R ⟨spots, bytes.size, none⟩) :
    Disciplined R.pool (spots.map Spot.insn) bytes.size (handlers.map Assembler.Handler.row) R.limit (shapeAt spots) := by
  have own : ∀ x ∈ spots, shapeAt spots x.insn.pc = x.state.stack := fun x hx =>
    cert.shapeAt_eq (.inl ⟨x, hx, rfl, rfl⟩)
  refine ⟨?_, fun row hr => ?_, fun i hi => ?_, fun i pos flows => ?_, fun i hi => ?_⟩
  · obtain ⟨d, start, weaker⟩ := cert.at_start
    rw [cert.shapeAt_eq start]
    exact weaker.stack typed
  · obtain ⟨h, hh, rfl⟩ := mem_map.mp hr
    obtain ⟨d, entry, stack, -⟩ := (guards h hh).entry
    rw [Assembler.Handler.row, cert.shapeAt_eq entry]
    exact stack typed
  · obtain ⟨x, hx, rfl⟩ := mem_map.mp hi
    rw [own x hx]
    exact (cert.admits x hx).pops typed
  · obtain ⟨x, hx, rfl⟩ := mem_map.mp flows.mem
    obtain ⟨e, arrives, passes⟩ := cert.flows hx flows
    rw [own x hx, cert.shapeAt_eq arrives]
    exact passes.moves typed
  · obtain ⟨x, hx, rfl⟩ := mem_map.mp hi
    rw [own x hx]
    exact (cert.admits x hx).fits typed

end Certified

namespace Assembler

/-- The types that a call to a class called `name` mentions and those that the provider knows are
well formed. -/
def Call.Proper (p : Provider) (name : String) : Call → Prop
  | .addField _ t _ => (t.resolve name).WellFormed
  | .addMethod _ ret _ params => (ret.resolve name).WellFormed ∧ ∀ x ∈ params, (x.2.resolve name).WellFormed
  | .addConstructor _ params => ∀ x ∈ params, (x.2.resolve name).WellFormed
  | .build _ b => p.WellFormed ∧ b.Proper name
  | .perform _ s => p.WellFormed ∧ s.Proper name
  | .bytes => p.WellFormed
  | _ => True

namespace Draft

variable {p q : Provider} {d d' : Draft}

def typing (_ : Nat) : Policy := ⟨True, False, fun _ _ => True, fun _ => True, .empty, fun _ => True⟩

theorem allowed_typing (h : d.Valid lax) (proper : ∀ c ∈ calls, c.2.Proper c.1 d.name) : d.Allowed typing calls := by
  intro before c rest same whole
  have proper := proper c (by simp [same])
  rw [← name_after h whole] at proper
  obtain ⟨p, c⟩ := c
  cases c with
  | addField | addMethod | addConstructor => exact fun _ _ => proper
  | build => exact ⟨fun _ => proper, fun _ _ _ _ _ => trivial⟩
  | perform => exact ⟨fun _ => proper.1, fun _ _ => ⟨fun _ => proper.2, by rintro ⟨⟩, fun _ _ _ => trivial, fun _ _ => trivial,
    fun _ _ _ _ => trivial⟩⟩
  | bytes => exact ⟨fun _ => proper, fun _ _ _ _ _ _ => trivial⟩
  | initField | addStaticInit | throws | annotateClass | annotateField | annotateMethod | setLine => trivial

/-- Where the types that calls mention are well formed, the code keeps to a stack discipline within
the height that it declares. -/
theorem disciplined_written {access : Access} {name super : String} {interfaces : List String} {options : Options}
    (made : create p access name super interfaces options tracer = (.ok d, recorder))
    (proper : ∀ c ∈ calls ++ [(q, .bytes)], c.2.Proper c.1 (Text.slashed name))
    (written : (d.after calls).bytes q = (.ok out, d')) : ∃ c, decode out.toList = .ok c ∧
      c.pool = .ofPool d'.pool ∧ ∀ x ∈ c.methods, "Code" ∈ x.attrs.map Attr.name →
        ∃ b is shape, body? c.pool x = .ok b ∧ split b.code = .ok is ∧
          Disciplined d'.pool is b.code.length b.handlers b.maxStack shape := by
  have valid : d.Valid typing := .of_create (fun _ => rfl) (fun _ _ => trivial) (fun _ _ _ _ => trivial) made
  have named : d.name = Text.slashed name := by rw [Draft.name, (of_create made).1]
  obtain ⟨valid, wrote, -, c, read, pool, shows⟩ :=
    valid.of_written (allowed_typing (valid_create made) (named ▸ proper)) written
  refine ⟨c, read, pool, fun x hx has => ?_⟩
  obtain ⟨i, hx⟩ := mem_iff_getElem?.mp hx
  obtain ⟨m, b, -, body, same, -, spots, cert, tables⟩ := valid.body wrote shows hx has
  have disciplined := cert.disciplined trivial fun h hh => tables.guards h (Array.mem_toList_iff.mp hh)
  refine ⟨b, spots.map Spot.insn, shapeAt spots, body, ?_, ?_⟩
  · rw [same.code]
    exact split_of_splits cert.splits
  · have height : b.maxStack = m.maxStack + Method.stackSlack := same.stack.trans (Nat.min_eq_left same.room)
    rw [same.code, same.handlers, height, Array.length_toList]
    exact disciplined

theorem wellFormed_add (h : (Provider.registry r).WellFormed) (own : c.WellFormed) :
    (Provider.registry (r.add c)).WellFormed := by
  intro name c' found
  rw [Provider.find?, Registry.add, Std.TreeMap.getElem?_insert] at found
  split_ifs at found
  · cases found
    exact own
  · exact h name c' found

theorem wellFormed_library : library.WellFormed := by
  have empty : (Provider.registry .empty).WellFormed := by
    intro name c found
    simp [Provider.find?, Registry.empty] at found
  refine wellFormed_add (wellFormed_add empty ⟨by simp, fun m hm => ?_⟩) ⟨by simp, fun m hm => ?_⟩ <;>
  · obtain rfl := by simpa using hm
    exact ⟨JType.wellFormed_void, by simp, fun _ => rfl⟩

theorem disciplined_written_counter : ∃ out d', (counter.after counterCalls).bytes library = (.ok out, d') ∧
    ∃ c, decode out.toList = .ok c ∧ c.pool = .ofPool d'.pool ∧
      ∀ x ∈ c.methods, "Code" ∈ x.attrs.map Attr.name →
        ∃ b is shape, body? c.pool x = .ok b ∧ split b.code = .ok is ∧
          Disciplined d'.pool is b.code.length b.handlers b.maxStack shape := by
  have proper : ∀ c ∈ counterCalls ++ [(library, .bytes)], c.2.Proper c.1 (Text.slashed "demo.Counter") := by
    have int : ∀ name, (JType.int.resolve name).WellFormed := fun _ => JType.wellFormed_ofPrim .int
    simp [counterCalls, Call.Proper, Build.Proper, Statement.Proper, wellFormed_library, int]
  exact ⟨_, _, counter_written, disciplined_written counter_created proper counter_written⟩

/-! An array type with as many dimensions as there can be, and one more. -/

def deep : Draft := (create library .publicBit "demo.Deep" "" [] {} {}).1.toOption.getD default

/-- The array that is made has one dimension too many: its type is taken for that of an element. -/
def deepCalls : List (Provider × Call) :=
  [.addMethod (.publicBit ||| .staticBit) .int "make" [], .build 0 (.const (.integer .int 1)),
    .build 0 (.newArray ⟨.prim .int, 255⟩ (.node 0)), .perform 0 (.leave (.node 1)), .perform 0 .close].map (library, ·)
/-- A number is made of an array. -/
theorem not_disciplined_deep : ∃ out d', (deep.after deepCalls).bytes library = (.ok out, d') ∧
    ∃ c, decode out.toList = .ok c ∧ ∃ x ∈ c.methods, ∃ b is, body? c.pool x = .ok b ∧
      split b.code = .ok is ∧
      ∀ shape, ¬Disciplined d'.pool is b.code.length b.handlers b.maxStack shape := by
  have made : (create library .publicBit "demo.Deep" "" [] {} {}).1.isOk = true := by decide +kernel
  have run : (fun r : Except Failure (Array UInt8) × Draft =>
      (r.1.isOk, r.2.methods[0]?.map fun m => (m.bodiless, m.code.bytes.toList))) ((deep.after deepCalls).bytes library) =
        (true, some (false, [4, 189, 0, 6, 172])) := by decide +kernel
  obtain ⟨written, code⟩ := Prod.mk.inj run
  obtain ⟨m, found, code⟩ := Option.map_eq_some_iff.mp code
  obtain ⟨bodied, code⟩ := Prod.mk.inj code
  obtain ⟨-, -, -, c, read, -, shows⟩ := lax_written (eq_of_isOk made) (eq_of_isOk written)
  obtain ⟨x, b, hx, body, shown⟩ := shows.body found bodied
  have bytes : b.code = [4, 189, 0, 6, 172] := shown.code.trans code
  refine ⟨_, _, eq_of_isOk written, c, read, x, mem_of_getElem? hx, b,
    [⟨0, .iconst1, false, -1, -1⟩, ⟨1, .anewarray, false, -1, 6⟩, ⟨4, .ireturn, false, -1, -1⟩], body, ?_, ?_⟩
  · rw [bytes]
    decide
  · rw [bytes]
    rintro shape ⟨-, -, pops, flows, -⟩
    have moves := flows ⟨1, .anewarray, false, -1, 6⟩ 4 (.next (k := 1) rfl rfl)
    obtain ⟨after, leaves⟩ := pops ⟨4, .ireturn, false, -1, -1⟩ (by simp)
    obtain ⟨s, -, made⟩ := moves.eq_of_effect (e := ⟨[.int], [.reference]⟩) rfl
    obtain ⟨t, taken, -⟩ := leaves.eq_of_effect (e := ⟨[.int], []⟩) rfl
    cases made.symm.trans taken

end Draft

end Assembler

end ClassForge

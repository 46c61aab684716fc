import ClassForge.Proofs.Faults

/-! The slots of locals, in every state of a class and in its code. -/

namespace ClassForge.Assembler.Draft

open Instruction

variable {p : Provider} {d : Draft} {name : String} {options : Options}

theorem limit_create (made : create p access name super interfaces options tracer = (.ok d, recorder)) :
    0 < options.maxLocals → d.options.maxLocals ≤ options.maxLocals := by
  rw [(of_create made).2.1, Options.complete]
  dsimp only
  split_ifs <;> omega

/-- In every state, also of a class that has failed, the locals of each method take consecutive
slots from the first on, in the order they were made, within the limits; a local that finds no room
changes nothing. In the file, each load, store or increment is on the slot of a local of its kind,
below the number that the code asks for. -/
theorem slots_exact (made : create p access name super interfaces options tracer = (.ok d, recorder))
    (calls : List (Provider × Call)) :
    (∀ m ∈ (d.after calls).methods, Packed 0 m.row m.nextSlot ∧ m.nextSlot ≤ 65535 ∧
      (0 < options.maxLocals → m.nextSlot ≤ options.maxLocals)) ∧
    (∀ ctx w w' t text hidden f, Step.allocate t text hidden ctx w = (.error f, w') → w' = w) ∧
    ∀ q out d', (d.after calls).bytes q = (.ok out, d') → ∃ c, ClassFile.decode out.toList = .ok c ∧
      ∀ (n : Nat) x, c.methods[n]? = some x → "Code" ∈ x.attrs.map Attr.name →
        ∃ (m : Method) (b : ClassFile.Body) (is : List Instruction), d'.methods[n]? = some m ∧
          ClassFile.body? c.pool x = .ok b ∧ split b.code = .ok is ∧ Packed 0 m.row b.maxLocals ∧
          ∀ i ∈ is, ∀ slot, i.readSlot? = some slot ∨ i.writeSlot? = some slot →
            ∃ l ∈ m.locals, l.slot = slot ∧ i.Touches slot l.type.kind ∧ slot + l.type.slots ≤ b.maxLocals := by
  refine ⟨fun m hm => ?_, fun ctx w w' t text hidden f failed => ?_, fun q out d' written => ?_⟩
  · have rows := (sane_after made calls).rows
    obtain ⟨packed, room⟩ := rows.methods m hm
    have limit := rows.limit
    have given := limit_create made
    exact ⟨packed, by omega, by omega⟩
  · rw [Step.allocate_eq] at failed
    split_ifs at failed
    · cases failed
    · exact (Prod.mk.inj failed).2.symm
  · obtain ⟨valid, wrote, -, c, read, -, shows⟩ := lax_written made written
    obtain ⟨last, -⟩ := after_written written
    refine ⟨c, read, fun n x hx has => ?_⟩
    obtain ⟨m, b, found, body, same, -, spots, cert, -⟩ := valid.body wrote shows hx has
    have row := (sane_after made (calls ++ [(q, .bytes)])).rows.methods m (last ▸ Array.mem_of_getElem? found)
    refine ⟨m, b, spots.map Spot.insn, found, body, ?_, same.locals ▸ row.1, fun i hi slot touched => ?_⟩
    · rw [same.code]
      exact split_of_splits cert.splits
    · obtain ⟨y, hy, rfl⟩ := List.mem_map.mp hi
      obtain ⟨k, touches, l, hl, rfl, rfl⟩ := (cert.admits y hy).slots slot touched
      exact ⟨l, hl, rfl, touches, same.locals ▸ Step.inRow_bounds row hl⟩

theorem slots_exact_counter : ∃ out d' c, (counter.after counterCalls).bytes library = (.ok out, d') ∧
    ClassFile.decode out.toList = .ok c ∧ ∀ m ∈ (counter.after counterCalls).methods, Packed 0 m.row m.nextSlot := by
  obtain ⟨rows, -, file⟩ := slots_exact counter_created counterCalls
  obtain ⟨c, read, -⟩ := file _ _ _ counter_written
  exact ⟨_, _, c, counter_written, read, fun m hm => (rows m hm).1⟩

end ClassForge.Assembler.Draft

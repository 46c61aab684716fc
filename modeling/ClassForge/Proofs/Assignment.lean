import ClassForge.Proofs.Flow
import ClassForge.Proofs.RoundTrip

/-! Definite assignment: what a scope counts as assigned has got a value on every way to the current
position, and so have slots that are read. -/

namespace ClassForge.Assembler

open Instruction List ClassFile

def Method.openSites (m : Method) : List Nat := m.code.sites ++ m.frames.flatMap Frame.loose

namespace Draft

variable {p q : Provider} {d d' : Draft} {calls : List (Provider × Call)} {access : Access} {name super : String}
  {interfaces : List String} {options : Options}

/-- Between calls, every way to the end of an open method stores what its innermost scope counts as
assigned. -/
theorem stores_assigned {n : Nat} {m : Method}
    (made : create p access name super interfaces options tracer = (.ok d, recorder)) (whole : (d.after calls).broken = none)
    (found : (d.after calls).methods[n]? = some m) (open_ : m.finished = false) (reached : m.top.closed = false) :
    ∃ is, split m.code.bytes.toList = .ok is ∧ ∀ (id : Nat) (l : Local), m.locals[id]? = some l →
      m.top.assigned.contains id = true → l.param = false → ∀ done,
        Path is m.code.bytes.size m.openSites (m.handlers.toList.map Handler.row) done m.code.bytes.size →
          ∃ j ∈ done, j.writeSlot? = some l.slot := by
  have valid := (valid_create made).lax_after whole
  obtain ⟨ctx, line, texts, settled⟩ := (valid.methods n m found).opened open_
  obtain ⟨spots, own, below, plan⟩ := settled.laid
  have cert := plan.cert
  refine ⟨spots.map Spot.insn, split_of_splits cert.splits, fun id l hl assigned other done path => ?_⟩
  obtain ⟨e, arrives, written⟩ :=
    cert.known_of_path (fun h hh => plan.tables.guards h (Array.mem_toList_iff.mp hh)) path
  have here : e.known = slotsOf m.locals m.top.assigned := by
    obtain ⟨x, hx, pc, -⟩ | ⟨-, state⟩ := arrives
    · exact absurd pc (Nat.ne_of_lt (cert.pc_lt hx))
    · rw [Method.standing, reached] at state
      cases state
      rfl
  refine (written l.slot ?_).resolve_left (settled.sound.apart.others l (Array.mem_of_getElem? hl) other)
  rw [here]
  exact ⟨id, l, hl, assigned, rfl⟩

def arms : Draft := (create library .publicBit "demo.Arms" "" [] {} {}).1.toOption.getD default

/-- A local that both arms of a branch assign, in a loop that may be left before. -/
def joinCalls : List (Provider × Call) :=
  [.addMethod (.publicBit ||| .staticBit) .int "join" [("c", .boolean)], .perform 0 (.declare .int "x"),
    .build 0 (.get (.local 0)), .perform 0 (.whileOpen (.node 0)), .build 0 (.get (.local 0)),
    .perform 0 (.ifOpen (.node 1)), .build 0 (.const (.integer .int 1)), .perform 0 (.assign (.local 1) (.node 2)),
    .perform 0 .elseOpen, .build 0 (.const (.integer .int 2)), .perform 0 (.assign (.local 1) (.node 3)),
    .perform 0 .close].map (library, ·)

theorem stores_assigned_join : ∃ (m : Method) (is : List Instruction), (arms.after joinCalls).methods[0]? = some m ∧
    m.top.assigned.contains 1 = true ∧ split m.code.bytes.toList = .ok is ∧ ∀ done,
      Path is m.code.bytes.size m.openSites (m.handlers.toList.map Handler.row) done m.code.bytes.size →
        ∃ j ∈ done, j.writeSlot? = some 1 := by
  have made : (create library .publicBit "demo.Arms" "" [] {} {}).1.isOk = true := by decide +kernel
  have run : ((arms.after joinCalls).broken.isNone && (arms.after joinCalls).methods[0]?.any fun m =>
      !m.finished && !m.top.closed && m.top.assigned.contains 1 && m.locals[1]?.any fun l => !l.param && l.slot == 1) =
        true := by decide +kernel
  simp only [Bool.and_eq_true, Option.any_eq_true, Bool.not_eq_true', beq_iff_eq, Option.isNone_iff_eq_none] at run
  obtain ⟨whole, m, found, ⟨⟨open_, reached⟩, assigned⟩, l, hl, other, slot⟩ := run
  obtain ⟨is, splits, stores⟩ := stores_assigned (eq_of_isOk made) whole found open_ reached
  refine ⟨m, is, found, assigned, splits, fun done path => ?_⟩
  exact slot ▸ stores 1 l hl assigned other done path

def reading (_ : Nat) : Policy := ⟨False, True, fun _ _ => True, fun _ => True, .empty, fun _ => True⟩

/-- What a statement evaluates reads locals that are assigned where it stands. -/
def Timely (d : Draft) (calls : List (Provider × Call)) : Prop :=
  ∀ before p n s rest m, calls = before ++ (p, .perform n s) :: rest → (d.after before).methods[n]? = some m → s.Timely m

theorem Timely.bytes (timely : d.Timely calls) : d.Timely (calls ++ [(q, .bytes)]) := by
  intro before p n s rest m same found
  obtain rfl | ⟨rest, last, rfl⟩ := eq_nil_or_concat rest
  · cases (append_inj' same rfl).2
  · rw [concat_eq_append, ← cons_append, ← append_assoc] at same
    exact timely before p n s rest m (append_inj' same rfl).1 found

theorem allowed_reading (timely : d.Timely calls) : d.Allowed reading calls := by
  rintro before ⟨p, c⟩ rest same -
  have loose := allows_lax (d.after before) p c
  cases c with
  | perform n s =>
    exact ⟨by rintro ⟨⟩, fun m found => ⟨by rintro ⟨⟩, fun _ => timely before p n s rest m same found, fun _ _ _ => trivial,
      fun _ _ => trivial, fun _ _ _ _ => trivial⟩⟩
  | _ => exact loose

/-- Where statements read locals that are assigned by then, no slot is read before it has got a
value: on every way to a read, it is that of the receiver or a parameter, or it was stored. -/
theorem stored_before_read (made : create p access name super interfaces options tracer = (.ok d, recorder)) (timely : d.Timely calls)
    (written : (d.after calls).bytes q = (.ok out, d')) : ∃ c, decode out.toList = .ok c ∧
      ∀ (n : Nat) x, c.methods[n]? = some x → "Code" ∈ x.attrs.map Attr.name →
        ∃ (m : Method) (b : Body) (is : List Instruction), d'.methods[n]? = some m ∧ body? c.pool x = .ok b ∧ split b.code = .ok is ∧
          ∀ i ∈ is, ∀ done, Path is b.code.length [] b.handlers done i.pc → ∀ slot, i.readSlot? = some slot →
            slot ∈ m.given ∨ ∃ j ∈ done, j.writeSlot? = some slot := by
  have valid : d.Valid reading := .of_create (fun _ => rfl) (fun _ _ => trivial) (fun _ _ _ _ => trivial) made
  obtain ⟨valid, wrote, -, c, read, -, shows⟩ := valid.of_written (allowed_reading timely.bytes) written
  refine ⟨c, read, fun n x hx has => ?_⟩
  obtain ⟨m, b, found, body, same, -, spots, cert, tables⟩ := valid.body wrote shows hx has
  refine ⟨m, b, spots.map Spot.insn, found, body, ?_, fun i hi done path slot reads => ?_⟩
  · rw [same.code]
    exact split_of_splits cert.splits
  · obtain ⟨y, hy, rfl⟩ := mem_map.mp hi
    rw [same.code, same.handlers, Array.length_toList] at path
    obtain ⟨e, arrives, stored⟩ := cert.known_of_path (fun h hh => tables.guards h (Array.mem_toList_iff.mp hh)) path
    obtain rfl := cert.state_at hy arrives
    exact stored slot ((cert.admits y hy).reads trivial slot reads)

def timely (m : Method) (s : Statement) : Bool :=
  s.trusted.all fun
    | .node id => m.nodes[id]?.all fun n => n.expr.reads.all fun l => m.top.assigned.contains l.id
    | _ => true

theorem timely_of_check (h : timely m s = true) : s.Timely m := by
  rintro o ho id n rfl found l hl
  have all := all_eq_true.mp h _ ho
  dsimp only at all
  rw [found, Option.all_some] at all
  exact all_eq_true.mp all l hl

def allTimely (d : Draft) : List (Provider × Call) → Bool
  | [] => true
  | (p, c) :: calls => (match c with
      | .perform n s => d.methods[n]?.all (timely · s)
      | _ => true) && allTimely (d.call p c).2 calls

theorem timely_of_allTimely (h : d.allTimely calls = true) : d.Timely calls := by
  intro before p n s rest m same found
  induction before generalizing d calls with
  | nil =>
    subst same
    simp only [nil_append, allTimely, Bool.and_eq_true] at h
    have all := h.1
    rw [show d.methods[n]? = some m from found, Option.all_some] at all
    exact timely_of_check all
  | cons c before ih =>
    subst same
    simp only [cons_append, allTimely, Bool.and_eq_true] at h
    exact ih h.2 rfl found

theorem stored_before_read_counter : ∃ out d', (counter.after counterCalls).bytes library = (.ok out, d') ∧
    ∃ c, decode out.toList = .ok c ∧ ∀ (n : Nat) x, c.methods[n]? = some x → "Code" ∈ x.attrs.map Attr.name →
      ∃ (m : Method) (b : Body) (is : List Instruction), d'.methods[n]? = some m ∧
        body? c.pool x = .ok b ∧ split b.code = .ok is ∧
        ∀ i ∈ is, ∀ done, Path is b.code.length [] b.handlers done i.pc → ∀ slot, i.readSlot? = some slot →
          slot ∈ m.given ∨ ∃ j ∈ done, j.writeSlot? = some slot := by
  have timely : counter.Timely counterCalls := timely_of_allTimely (by decide +kernel)
  exact ⟨_, _, counter_written, stored_before_read counter_created timely counter_written⟩

/-- A read that is built in the arm that assigns the local and evaluated in the other arm. -/
def armsCalls : List (Provider × Call) :=
  [.addMethod (.publicBit ||| .staticBit) .int "run" [("c", .boolean)], .perform 0 (.declare .int "x"),
    .build 0 (.get (.local 0)), .perform 0 (.ifOpen (.node 0)), .build 0 (.const (.integer .int 1)),
    .perform 0 (.assign (.local 1) (.node 1)), .build 0 (.get (.local 1)), .perform 0 .elseOpen,
    .perform 0 (.leave (.node 2)), .perform 0 .close, .build 0 (.const (.integer .int 0)),
    .perform 0 (.leave (.node 3)), .perform 0 .close].map (library, ·)

/-- The other arm reads a slot that nothing was stored to. -/
theorem read_before_stored_arms : ∃ out d', (arms.after armsCalls).bytes library = (.ok out, d') ∧
    ∃ c, decode out.toList = .ok c ∧ ∃ (x : Member) (m : Method) (b : Body) (is : List Instruction),
      c.methods[0]? = some x ∧ d'.methods[0]? = some m ∧ body? c.pool x = .ok b ∧ split b.code = .ok is ∧
      ∃ i ∈ is, ∃ done slot, Path is b.code.length [] b.handlers done i.pc ∧ i.readSlot? = some slot ∧
        slot ∉ m.given ∧ ∀ j ∈ done, j.writeSlot? ≠ some slot := by
  have made : (create library .publicBit "demo.Arms" "" [] {} {}).1.isOk = true := by decide +kernel
  have run : (((arms.after armsCalls).bytes library).1.isOk && ((arms.after armsCalls).bytes library).2.methods[0]?.any
      fun m => !m.bodiless && m.locals.all (fun l => !l.param || l.slot == 0) &&
        m.code.bytes.toList == [26, 153, 0, 8, 4, 60, 167, 0, 5, 27, 172, 3, 172]) = true := by decide +kernel
  simp only [Bool.and_eq_true, Option.any_eq_true, Bool.not_eq_true', beq_iff_eq, Array.all_eq_true_iff_forall_mem,
    Bool.or_eq_true] at run
  obtain ⟨written, m, found, ⟨bodied, params⟩, code⟩ := run
  obtain ⟨-, -, -, c, read, -, shows⟩ := lax_written (eq_of_isOk made) (eq_of_isOk written)
  obtain ⟨x, b, hx, body, shown⟩ := shows.body found bodied
  have bytes := shown.code.trans code
  have splits : split b.code = .ok [⟨0, .iload0, false, -1, -1⟩, ⟨1, .ifeq, false, 9, -1⟩, ⟨4, .iconst1, false, -1, -1⟩,
      ⟨5, ⟨60⟩, false, -1, -1⟩, ⟨6, .goto, false, 11, -1⟩, ⟨9, ⟨27⟩, false, -1, -1⟩, ⟨10, .ireturn, false, -1, -1⟩,
      ⟨11, .iconst0, false, -1, -1⟩, ⟨12, .ireturn, false, -1, -1⟩] := by
    rw [bytes]
    decide +kernel
  -- the test fails at once, and control goes to the other arm
  refine ⟨_, _, eq_of_isOk written, c, read, x, m, b, _, hx, found, body, splits, ⟨9, ⟨27⟩, false, -1, -1⟩, by simp,
    [⟨1, .ifeq, false, 9, -1⟩, ⟨0, .iload0, false, -1, -1⟩], 1, ?_, by decide, ?_, by decide⟩
  · refine .step (.step .entry (.next (k := 0) rfl (by decide))) ?_
    exact .jump (by simp) (by decide) (by simp) rfl
  · rintro ⟨l, hl, param, slot⟩
    rcases params l hl with other | first
    · simp [other] at param
    · simp [first] at slot

end Draft

end ClassForge.Assembler

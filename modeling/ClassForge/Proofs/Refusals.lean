import ClassForge.Proofs.RoundTrip

/-! Classes that take no more changes: those that have failed, and those that were written. -/

namespace ClassForge.Assembler

/-- Whether a call asks first if changes may still be made. A character is checked before. -/
def Call.guarded : Call → Bool
  | .setLine _ => false
  | .annotateClass as | .annotateField _ as | .annotateMethod _ as => !as.isEmpty
  | .build _ (.char n) => decide (0 ≤ n ∧ n ≤ 65535)
  | _ => true

def Call.spoils : Call → Bool
  | .build _ (.char n) => decide (n < 0 ∨ 65535 < n)
  | .build _ b => b.isStrict
  | _ => false

namespace Draft

variable {p q : Provider} {d d' : Draft} {c : Call} {f first : Failure} {out : Array UInt8} {α : Type}

theorem located_unusable (refused : d.unusable = some f) : f.located d.name = f := by
  unfold unusable at refused
  split at refused
  · cases refused
    rfl
  · split_ifs at refused
    cases refused
    unfold Failure.located
    split
    · rename_i same
      obtain ⟨rfl, place⟩ := Failure.fault.inj same
      simp [Fault.code?, place]
    · rfl

theorem fail_broken (broken : d.broken ≠ none) (f : Failure) : (d.fail (α := α) f).2 = d := by
  simp [fail, broken]

theorem put_workOn (lt : i < d.methods.size) : d.put i (d.workOn d.methods[i]) = d := by
  have same : d.methods.setIfInBounds i d.methods[i] = d.methods := by simp [Array.setIfInBounds, lt]
  rw [put, workOn, same]

theorem code?_located (place : String) (f : Failure) : (f.located place).code? = f.code? := by
  unfold Failure.located
  split <;> rfl

theorem code?_fail (f : Failure) : ∃ g, (d.fail (α := α) f).1 = .error g ∧ g.code? = f.code? :=
  ⟨_, rfl, code?_located _ _⟩

/-- A fault that is found before the class is asked leaves a class that has failed as it is. -/
theorem tryStep_throw (broken : d.broken ≠ none) : (d.tryStep p i (throw e : Step α)).2 = d ∧
      (i < d.methods.size → ∃ f, (d.tryStep p i (throw e : Step α)).1 = .error f ∧ f.code? = e.code?) := by
  unfold tryStep
  by_cases lt : i < d.methods.size
  · have thrown : d.runStep p i (throw e : Step α) = (.error (e, d.methods[i].place), d) := by
      rw [runStep_eq lt]
      exact Prod.ext rfl (put_workOn lt)
    rw [thrown]
    refine ⟨fail_broken broken _, fun _ => ?_⟩
    obtain ⟨g, told, code⟩ := code?_fail (α := α) (d := d) (Failure.located d.methods[i].place (.fault e ""))
    exact ⟨g, told, code.trans (code?_located _ _)⟩
  · have missing : d.runStep p i (throw e : Step α) = (.error (.missingLocal, ""), d) := by
      simp [runStep, lt]
    rw [missing]
    exact ⟨fail_broken broken _, fun inside => absurd inside lt⟩

theorem annotate_refused
    (refused : d.unusable = some f) (some_ : as.isEmpty = false) : d.annotate attach as = (.error f, d) := by
  cases as with
  | nil => cases some_
  | cons a as => simp [annotate, change, refused]

theorem build_refused (refused : d.unusable = some f) (guarded : (Call.build i b).guarded = true) :
    d.build p i b = if b.isStrict && d.broken.isNone then d.fail f else (.error f, d) := by
  cases b with
  | char n =>
    have inside : 0 ≤ n ∧ n ≤ 65535 := by simpa [Call.guarded] using guarded
    have none_ : ¬(n < 0 ∨ 65535 < n) := by omega
    simp [build, none_, refused, Build.isStrict]
  | _ => simp [build, refused]

theorem build_outside (outside : n < 0 ∨ 65535 < n) : d.build p i (.char n) = d.tryStep p i (throw (.charRange n)) := by
  simp [build, outside]

theorem bytes_refused (refused : d.unusable = some f) (broken : d.broken ≠ none) : d.bytes p = (.error f, d) := by
  obtain ⟨g, failed⟩ := Option.ne_none_iff_exists'.mp broken
  simp [bytes, change, refused, failed]

/-- What a call that asks first is told; it changes nothing unless the refusal counts. -/
theorem call_refused (refused : d.unusable = some f) (guarded : c.guarded = true) (open_ : c = .bytes → d.broken ≠ none) :
    (d.call p c).1 = .error f ∧ (c.spoils = false ∨ d.broken ≠ none → (d.call p c).2 = d) := by
  cases c with
  | addField | initField | addConstructor | addStaticInit =>
    simp [call, replying, addConstructor, addStaticInit, declare, change, refused, Except.map]
  | addMethod access ret name params =>
    simp only [call, replying, addMethod]
    split_ifs <;> simp [declare, change, refused, Except.map]
  | annotateClass as | annotateField i as | annotateMethod i as =>
    have some_ : as.isEmpty = false := by simpa [Call.guarded] using guarded
    simp [call, replying, annotateClass, annotateField, annotateMethod, annotate_refused refused some_, Except.map]
  | throws | perform => simp [call, replying, throws, perform, refused, Except.map]
  | setLine => cases guarded
  | build i b =>
    simp only [call, replying, build_refused refused guarded]
    split_ifs with counts
    · refine ⟨?_, fun mild => ?_⟩
      · simp [fail, located_unusable refused, Except.map]
      · refine fail_broken (mild.resolve_left ?_) f
        cases b <;> simp_all [Call.spoils, Build.isStrict]
    · exact ⟨rfl, fun _ => rfl⟩
  | bytes => simp [call, replying, bytes_refused refused (open_ rfl), Except.map]

theorem bytes_written (whole : d.broken = none) (sealed : d.output = some out) : d.bytes p = (.ok out, d) := by
  unfold bytes
  rw [sealed, whole]

/-- A call of a class that takes no changes sets the line at most, unless the refusal counts. -/
theorem call_kept (refused : d.unusable = some f) (mild : c.spoils = false ∨ d.broken ≠ none) :
    ∃ line, (d.call p c).2 = { d with line } := by
  by_cases written : c = .bytes ∧ d.broken = none
  · obtain ⟨rfl, whole⟩ := written
    obtain ⟨out, sealed⟩ := Option.ne_none_iff_exists'.mp (unusable_some refused whole)
    exact ⟨d.line, congrArg Prod.snd (bytes_written (p := p) whole sealed)⟩
  cases guarded : c.guarded with
  | true => exact ⟨d.line, (call_refused refused guarded fun same whole => written ⟨same, whole⟩).2 mild⟩
  | false =>
    cases c with
    | setLine n => exact d.setLine_eq n
    | annotateClass as | annotateField i as | annotateMethod i as =>
      have none_ : as = [] := by simpa [Call.guarded] using guarded
      exact ⟨d.line, by simp [call, replying, annotateClass, annotateField, annotateMethod, annotate, none_]⟩
    | build i b =>
      cases b with
      | char n =>
        have outside : n < 0 ∨ 65535 < n := by
          simp only [Call.guarded, decide_eq_false_iff_not] at guarded
          omega
        refine ⟨d.line, ?_⟩
        rw [call, replying, build_outside outside]
        exact (tryStep_throw (mild.resolve_left (by simp [Call.spoils, outside]))).1
      | _ => cases guarded
    | _ => cases guarded

theorem after_kept (refused : d.unusable = some f)
    (mild : ∀ c ∈ calls, c.2.spoils = false ∨ d.broken ≠ none) : ∃ line, d.after calls = { d with line } := by
  induction calls using List.reverseRecOn with
  | nil => exact ⟨d.line, rfl⟩
  | append_singleton calls c ih =>
    obtain ⟨line, same⟩ := ih fun x hx => mild x (List.mem_append_left _ hx)
    obtain ⟨line', kept⟩ := call_kept (d := { d with line }) (p := c.1) refused (mild c (by simp))
    exact ⟨line', by rw [after_append, same, kept]⟩

theorem unusable_of_broken (failed : d.broken = some first) : d.unusable = some (.unusable d.name first) := by
  simp [unusable, failed]

theorem unusable_of_written (whole : d.broken = none) (written : d.output ≠ none) :
    d.unusable = some (.fault (.finalized d.name) d.name) := by
  obtain ⟨out, sealed⟩ := Option.ne_none_iff_exists'.mp written
  simp [unusable, whole, sealed]

/-- Once a call has failed, every later one that asks first is told of that, and nothing changes but
the line. -/
theorem refused_once_broken (failed : d.broken = some first) (calls : List (Provider × Call)) :
    (∃ line, d.after calls = { d with line }) ∧ ∀ p c, c.guarded = true → ∃ f,
      (d.after calls).call p c = (.error f, d.after calls) ∧ f.code? = some .unusable ∧ f.root = first.root := by
  have broken : d.broken ≠ none := by simp [failed]
  obtain ⟨line, same⟩ := after_kept (unusable_of_broken failed) fun c _ => .inr broken
  refine ⟨⟨line, same⟩, fun p c guarded => ⟨.unusable d.name first, ?_, rfl, rfl⟩⟩
  have refused : (d.after calls).unusable = some (.unusable d.name first) := by
    rw [same]
    exact unusable_of_broken failed
  have still : (d.after calls).broken ≠ none := by
    rw [same]
    exact broken
  obtain ⟨told, kept⟩ := call_refused (p := p) refused guarded fun _ => still
  exact Prod.ext told (kept (.inr still))

def voidField : List (Provider × Call) :=
  [.addMethod (.publicBit ||| .staticBit) .int "run" [], .addField .publicBit .void "nothing"].map (library, ·)

theorem voidField_broken : (counter.after voidField).broken ≠ none ∧ 0 < (counter.after voidField).methods.size := by
  have run : ((counter.after voidField).broken.isSome && decide (0 < (counter.after voidField).methods.size)) = true := by
    decide +kernel
  simpa [Option.isSome_iff_ne_none] using run

theorem refused_once_broken_field : ∃ first f, (counter.after voidField).broken = some first ∧
    ((counter.after voidField).after [(library, .setLine 7)]).call library .bytes =
      (.error f, (counter.after voidField).after [(library, .setLine 7)]) ∧ f.root = first.root := by
  obtain ⟨first, failed⟩ := Option.ne_none_iff_exists'.mp voidField_broken.1
  obtain ⟨f, told, -, root⟩ := (refused_once_broken failed [(library, .setLine 7)]).2 library .bytes rfl
  exact ⟨first, f, failed, told, root⟩

/-- A character that is none is reported as such, whatever failed before. -/
theorem char_checked_first : (counter.after voidField).broken ≠ none ∧ ∃ f,
    ((counter.after voidField).call library (.build 0 (.char 70000))).1 = .error f ∧ f.code? ≠ some .unusable := by
  obtain ⟨broken, inside⟩ := voidField_broken
  obtain ⟨f, told, code⟩ := (tryStep_throw (α := Nat) (p := library) (i := 0) (e := .charRange 70000) broken).2 inside
  refine ⟨broken, f, ?_, ?_⟩
  · rw [call, replying, build_outside (by decide), told]
    rfl
  · rw [code]
    decide

theorem output_of_bytes (run : d.bytes p = (.ok out, d')) : d'.output = some out := by
  obtain ⟨-, _, ⟨⟩, written, -⟩ := of_bytes run fine_ok
  exact written

/-- Once written, a class gives the same file again and tells every call that asks first that it was
written, up to the first refusal that counts. -/
theorem frozen_once_written {out : Array UInt8} (written : d.bytes p = (.ok out, d')) {calls : List (Provider × Call)}
    (mild : ∀ c ∈ calls, c.2.spoils = false) :
    (∃ line, d'.after calls = { d' with line }) ∧ (∀ q, (d'.after calls).bytes q = (.ok out, d'.after calls)) ∧
      ∀ q c, c.guarded = true → c ≠ .bytes → ∃ f, ((d'.after calls).call q c).1 = .error f ∧
        f.code? = some .finalized := by
  have whole := whole_of_bytes written fine_ok
  have sealed := output_of_bytes written
  have refused := unusable_of_written whole (by simp [sealed])
  obtain ⟨line, same⟩ := after_kept refused fun c hc => .inl (mild c hc)
  refine ⟨⟨line, same⟩, fun q => ?_, fun q c guarded other => ?_⟩
  · rw [same]
    exact bytes_written whole sealed
  · have later : (d'.after calls).unusable = some (.fault (.finalized d'.name) d'.name) := by
      rw [same]
      exact refused
    exact ⟨_, (call_refused later guarded fun bytes => absurd bytes other).1, rfl⟩

theorem frozen_once_written_counter : ∃ out d', (counter.after counterCalls).bytes library = (.ok out, d') ∧
    (d'.after [(library, .setLine 7), (library, .addStaticInit)]).bytes library =
      (.ok out, d'.after [(library, .setLine 7), (library, .addStaticInit)]) := by
  refine ⟨_, _, counter_written, ?_⟩
  exact (frozen_once_written counter_written (by decide)).2.1 library

theorem broken_negate (refused : d.unusable = some f) (whole : d.broken = none) :
    (d.after [(p, .build i (.negate o))]).broken ≠ none := by
  change (d.build p i (.negate o)).2.broken ≠ none
  rw [build_refused refused rfl, whole]
  exact broken_fail f

/-- Negating a number after the class was written makes it unusable. -/
theorem refused_after_written : ∃ out d', (counter.after counterCalls).bytes library = (.ok out, d') ∧
    ∃ f, ((d'.after [(library, .build 0 (.negate (.node 0)))]).bytes library).1 = .error f ∧ f.code? = some .unusable := by
  refine ⟨_, _, counter_written, ?_⟩
  have whole := whole_of_bytes counter_written fine_ok
  have refused := unusable_of_written whole (by simp [output_of_bytes counter_written])
  obtain ⟨first, failed⟩ := Option.ne_none_iff_exists'.mp (broken_negate refused whole)
  exact ⟨_, congrArg Prod.fst (bytes_refused (unusable_of_broken failed) (by simp [failed])), rfl⟩

end Draft

end ClassForge.Assembler

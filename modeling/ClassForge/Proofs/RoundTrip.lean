import ClassForge.Proofs.Calls

/-! The members that calls declare, and the class file that shows them. -/

namespace ClassForge.Assembler

open List ClassFile

namespace Draft

variable {P : Nat → Policy} {p : Provider} {d d' : Draft} {out : Array UInt8} {c : ClassFile}
  {calls : List (Provider × Call)} {x : Member} {i : Nat} {α ε σ : Type} {access : Access} {name super : String}
  {interfaces : List String} {options : Options}

def declaredFields (d : Draft) : List (Provider × Call) → List FieldInfo
  | [] => []
  | c :: calls => d.fieldsBy c.1 c.2 ++ declaredFields (d.call c.1 c.2).2 calls

def declaredMethods (d : Draft) : List (Provider × Call) → List MethodInfo
  | [] => []
  | c :: calls => d.methodsBy c.1 c.2 ++ declaredMethods (d.call c.1 c.2).2 calls

theorem declaredFields_append (calls : List (Provider × Call)) (c : Provider × Call) :
    d.declaredFields (calls ++ [c]) = d.declaredFields calls ++ (d.after calls).fieldsBy c.1 c.2 := by
  induction calls generalizing d with
  | nil => simp [declaredFields, after]
  | cons b calls ih =>
    rw [cons_append, declaredFields, ih, declaredFields, append_assoc]
    rfl

theorem declaredMethods_append (calls : List (Provider × Call)) (c : Provider × Call) :
    d.declaredMethods (calls ++ [c]) = d.declaredMethods calls ++ (d.after calls).methodsBy c.1 c.2 := by
  induction calls generalizing d with
  | nil => simp [declaredMethods, after]
  | cons b calls ih =>
    rw [cons_append, declaredMethods, ih, declaredMethods, append_assoc]
    rfl

theorem Valid.adds_after (h : d.Valid P) (allowed : d.Allowed P calls) (whole : (d.after calls).broken = none) :
    d.Adds (d.after calls) (d.declaredFields calls) (d.declaredMethods calls) := by
  induction calls using reverseRecOn with
  | nil => exact .refl d
  | append_singleton calls c ih =>
    have before := whole_before whole
    have valid := h.after allowed.init before
    rw [after_append] at whole ⊢
    rw [declaredFields_append, declaredMethods_append]
    exact (ih allowed.init before).trans (valid.served (allowed calls c [] rfl before) whole).adds

theorem name_after (h : d.Valid lax) (whole : (d.after calls).broken = none) : (d.after calls).name = d.name := by
  have adds := h.adds_after (allowed_lax d calls) whole
  rw [Draft.name, adds.info]
  rfl

theorem Wrote.laid (h : d.Wrote out) : d.Laid out := by
  obtain ⟨q, body, sound, written, whole, fits, rfl⟩ := h.written
  exact (decode_assemble sound written whole fits).1

theorem after_written (written : (d.after calls).bytes q = (.ok out, d')) :
    d.after (calls ++ [(q, .bytes)]) = d' ∧ d'.broken = none := by
  refine ⟨?_, whole_of_bytes written fine_ok⟩
  rw [after_append, Draft.call, replying, written]

theorem Valid.of_written (h : d.Valid P) (allowed : d.Allowed P (calls ++ [(q, .bytes)]))
    (written : (d.after calls).bytes q = (.ok out, d')) : d'.Valid P ∧
    d'.Wrote out ∧ d.Adds d' (d.declaredFields (calls ++ [(q, .bytes)])) (d.declaredMethods (calls ++ [(q, .bytes)])) ∧
    ∃ c, decode out.toList = .ok c ∧ c.pool = .ofPool d'.pool ∧ d'.Shows c := by
  obtain ⟨last, whole⟩ := after_written written
  rw [← last] at whole
  have before := whole_before whole
  have valid := h.after allowed.init before
  obtain ⟨valid, -, _, same, output, -⟩ := valid.writes (allowed calls (q, .bytes) [] rfl before) written fine_ok
  cases same
  have wrote := valid.output out output
  have adds := h.adds_after allowed whole
  rw [last] at adds
  obtain ⟨p0, body, sound, run, fits, small, rfl⟩ := wrote.written
  exact ⟨valid, wrote, adds, (decode_assemble sound run fits small).2 valid.names⟩

theorem lax_written (made : create p access name super interfaces options tracer = (.ok d, recorder))
    (written : (d.after calls).bytes q = (.ok out, d')) : d'.Valid lax ∧ d'.Wrote out ∧
    d.Adds d' (d.declaredFields (calls ++ [(q, .bytes)])) (d.declaredMethods (calls ++ [(q, .bytes)])) ∧
    ∃ c, decode out.toList = .ok c ∧ c.pool = .ofPool d'.pool ∧ d'.Shows c :=
  (valid_create made).of_written (allowed_lax d _) written

theorem Shows.method (shows : d.Shows c) (hx : c.methods[i]? = some x) :
    ∃ m : Method, d.methods[i]? = some m ∧ m.Shows d.options.debug c.pool x ∧ (m.bodiless = false →
      ∃ b, body? c.pool x = .ok b ∧ m.ShowsCode d.options.debug c.pool b) := by
  obtain ⟨inside, rfl⟩ := List.getElem?_eq_some_iff.mp hx
  obtain ⟨same, each⟩ := List.forall₂_iff_get.mp shows.methods
  have inside' : i < d.methods.toList.length := same ▸ inside
  exact ⟨d.methods[i], Array.getElem?_eq_getElem inside', each i inside' inside⟩

theorem Shows.body (shows : d.Shows c) (found : d.methods[i]? = some m)
    (bodied : m.bodiless = false) : ∃ (x : Member) (b : Body), c.methods[i]? = some x ∧
      body? c.pool x = .ok b ∧ m.ShowsBody d.options.debug b := by
  obtain ⟨inside, rfl⟩ := Array.getElem?_eq_some_iff.mp found
  obtain ⟨same, each⟩ := forall₂_iff_get.mp shows.methods
  have inside' : i < c.methods.length := same ▸ by simpa using inside
  obtain ⟨b, body, shown⟩ := (each i (by simpa using inside) inside').1.body bodied
  exact ⟨_, b, getElem?_eq_getElem inside', body, shown⟩

theorem count_attrNames (m : Method) : m.attrNames.count "Code" = if m.bodiless then 0 else 1 := by
  unfold Method.attrNames annotationNames
  repeat' split
  all_goals decide

theorem Valid.body (h : d.Valid P) (wrote : d.Wrote out)
    (shows : d.Shows c) (hx : c.methods[i]? = some x) (has : "Code" ∈ x.attrs.map Attr.name) :
    ∃ (m : Method) (b : Body), d.methods[i]? = some m ∧ body? c.pool x = .ok b ∧ m.ShowsBody d.options.debug b ∧
      (d.options.debug = true → m.ShowsDebug c.pool b) ∧ m.Complete (P i) d.pool := by
  obtain ⟨m, found, shown, reads⟩ := shows.method hx
  have bodied : m.bodiless = false := by
    by_contra bodiless
    have none := count_attrNames m
    rw [if_pos (by simpa using bodiless), count_eq_zero, ← shown.attrs] at none
    exact none has
  obtain ⟨b, body, same, tables⟩ := reads bodied
  exact ⟨m, b, found, body, same, tables,
    (h.methods i m found).ended (wrote.finished m (Array.mem_of_getElem? found)) bodied⟩

/-- The class file that calls end with reads back as the class that they declare: as it was created,
with fields and methods in the order of their declarations. -/
theorem decode_written (made : create p access name super interfaces options tracer = (.ok d, recorder))
    (written : (d.after calls).bytes q = (.ok out, d')) : ∃ c, decode out.toList = .ok c ∧
      c.major = (options.complete (Text.slashed name)).major ∧ c.minor = (options.complete (Text.slashed name)).minor ∧
      c.access = classAccess access ∧ c.this = Text.slashed name ∧
      c.super = (if super = "" then rootName else Text.slashed super) ∧ c.interfaces = interfaces.map Text.slashed ∧
      c.attrs.map (·.name) = d'.attrNames ∧ List.Forall₂ Field.Shows d'.fields.toList c.fields ∧
      List.Forall₂ (fun m x => m.Shows options.debug c.pool x) d'.methods.toList c.methods ∧
      d'.fields.toList.map (·.info) = d.declaredFields calls ∧
      d'.methods.toList.map (·.info) = d.declaredMethods (calls ++ [(q, .bytes)]) ∧
      ∀ m ∈ d'.methods, m.bodiless = (m.info.isAbstract || m.info.access.isNative) := by
  obtain ⟨info, completed, fields, methods, -⟩ := of_create made
  obtain ⟨valid, -, adds, c, read, -, shows⟩ := lax_written made written
  have same := adds.info
  rw [info] at same
  have options' := adds.options.trans completed
  refine ⟨c, read, ?_, ?_, ?_, ?_, ?_, ?_, shows.attrs, shows.fields, ?_, ?_, ?_, fun m hm => ?_⟩
  · rw [shows.version.2, options']
  · rw [shows.version.1, options']
  · rw [shows.access, same]
  · rw [shows.this, same]
  · rw [shows.super, same]
  · rw [shows.interfaces, same]
  · rw [show options.debug = d'.options.debug by rw [options']; rfl]
    exact shows.methods.imp fun _ _ h => h.1
  · rw [adds.fields, fields, declaredFields_append]
    simp [fieldsBy]
  · rw [adds.methods, methods]
    simp
  · obtain ⟨i, hi, rfl⟩ := Array.mem_iff_getElem.mp hm
    exact (valid.methods i _ (Array.getElem?_eq_getElem hi)).bodied

def library : Provider :=
  .registry ((Registry.empty.add ⟨rootName, "", [], .publicBit, #[],
      #[⟨rootName, MethodInfo.constructorName, [], .void, .publicBit⟩]⟩).add
    ⟨"java/lang/Throwable", rootName, [], .publicBit, #[],
      #[⟨"java/lang/Throwable", MethodInfo.constructorName, [], .void, .publicBit⟩]⟩)

def counter : Draft :=
  (create library .publicBit "demo.Counter" "" [] { debug := true } {}).1.toOption.getD default

/-- A field that the initializer stores, a constant, and a loop in a guarded block. -/
def counterCalls : List (Provider × Call) :=
  [.addField .staticBit .int "total", .initField 0 (.integer .int 70000),
    .addField (.staticBit ||| .finalBit) .int "limit", .initField 1 (.integer .int 10),
    .addMethod (.publicBit ||| .staticBit) .int "count" [("n", .int)],
    .perform 0 .tryOpen, .build 0 (.get (.local 0)), .build 0 (.static (.ofClass "demo/Counter") "limit"),
    .build 0 (.compare .lt (.node 0) (.node 1)), .perform 0 (.whileOpen (.node 2)),
    .perform 0 (.increment (.local 0) 1), .perform 0 .close, .build 0 (.get (.local 0)),
    .perform 0 (.leave (.node 3)), .perform 0 (.catchOpen (.ofClass "java/lang/Throwable") "e"),
    .build 0 (.const (.integer .int 0)), .perform 0 (.leave (.node 4)), .perform 0 .close, .perform 0 .close].map
    (library, ·)

theorem eq_of_isOk [Inhabited α] {r : Except ε α × σ} (ok : r.1.isOk = true) :
    r = (.ok (r.1.toOption.getD default), r.2) := by
  obtain ⟨e | x, s⟩ := r
  · cases ok
  · rfl

theorem counter_created : create library .publicBit "demo.Counter" "" [] { debug := true } {} =
    (.ok counter, (create library .publicBit "demo.Counter" "" [] { debug := true } {}).2) :=
  eq_of_isOk (by decide +kernel)

theorem counter_written : (counter.after counterCalls).bytes library =
    (.ok (((counter.after counterCalls).bytes library).1.toOption.getD default),
      ((counter.after counterCalls).bytes library).2) :=
  eq_of_isOk (by decide +kernel)

theorem names_eq (shown : List.Forall₂ R xs ms) (same : ∀ x m, R x m → m.name = f x) : ms.map Member.name = xs.map f := by
  induction shown with
  | nil => rfl
  | cons first _ ih => rw [map_cons, map_cons, ih, same _ _ first]

theorem decode_written_counter : ∃ out d', (counter.after counterCalls).bytes library = (.ok out, d') ∧
    ∃ c, decode out.toList = .ok c ∧ c.this = Text.slashed "demo.Counter" ∧
      c.fields.map Member.name = ["total", "limit"] ∧ c.methods.map Member.name = ["count", "<clinit>"] := by
  obtain ⟨c, read, -, -, -, this, -, -, -, fields, methods, fieldInfos, methodInfos, -⟩ :=
    decode_written counter_created counter_written
  have fieldNames := names_eq (f := FieldInfo.name ∘ Field.info) fields fun f x shows => shows.name
  have methodNames := names_eq (f := MethodInfo.name ∘ Method.info) methods fun m x shows => shows.name
  refine ⟨_, _, counter_written, c, read, this, fieldNames.trans ?_, methodNames.trans ?_⟩
  · decide +kernel
  · decide +kernel

end Draft

end ClassForge.Assembler

import ClassForge.Assembler.Call
import ClassForge.Proofs.Performing
import ClassForge.Proofs.Tables

/-! Classes under construction: what every call keeps, as long as the class has not failed. -/

namespace ClassForge

open Yields

theorem Access.isStatic_without (a : Access) (off : ~~~b.bits &&& Access.staticBit.bits = 0) :
    (a.without b).isStatic = false := by
  have none : a.bits &&& ~~~b.bits &&& Access.staticBit.bits = 0 := by
    rw [UInt16.and_assoc, off, UInt16.and_zero]
  simp [Access.isStatic, Access.meets, Access.without, none]

namespace ClassInfo

/-- A field as the class declares it. Those of interfaces are public, static and final. -/
def declareField (c : ClassInfo) (access : Access) (type : JType) (name : String) : FieldInfo :=
  ⟨c.name, name, type.resolve c.name, if c.isInterface then access ||| .publicBit ||| .staticBit ||| .finalBit else access⟩

/-- A method as the class declares it. Those of interfaces are public and abstract. -/
def declareMethod (c : ClassInfo) (access : Access) (ret : JType) (name : String) (params : List (String × JType)) :
    MethodInfo :=
  ⟨c.name, name, params.map fun x => x.2.resolve c.name, ret.resolve c.name,
    if c.isInterface && name ≠ MethodInfo.initializerName then access ||| .publicBit ||| .abstractBit else access⟩

end ClassInfo

theorem JType.slots_pos {t : JType} (value : t.isVoid = false) : 0 < t.slots := by
  rw [JType.slots, value]
  simp only [Bool.false_eq_true, if_false]
  split_ifs <;> decide

theorem JType.wellFormed_void : void.WellFormed := ⟨fun _ => rfl, by rintro _ ⟨⟩⟩

theorem JType.wellFormed_resolve_void (name : String) : (void.resolve name).WellFormed := wellFormed_void

namespace Assembler

namespace Change

variable {α : Type} {d d' : Draft} {x : α}

@[simp] theorem yields_pool : Yields (pool a) d x d' ↔ ∃ p, Yields a d.pool x p ∧ { d with pool := p } = d' := by
  change (_, ({ d with pool := (a d.pool).2 } : Draft)) = _ ↔ ∃ p, a d.pool = _ ∧ _
  cases a d.pool with
  | mk r p =>
    cases r with
    | ok y =>
      constructor
      · intro h
        cases h
        exact ⟨p, rfl, rfl⟩
      · rintro ⟨q, same, rfl⟩
        cases same
        rfl
    | error e =>
      constructor
      · intro h
        cases h
      · rintro ⟨q, same, _⟩
        cases same

@[simp] theorem yields_ofExcept : Yields (ofExcept r) d x d' ↔ r = .ok x ∧ d = d' := by
  cases r <;> simp [ofExcept]

@[simp] theorem yields_ofHierarchy : Yields (ofHierarchy r) d x d' ↔ r = .ok x ∧ d = d' := by
  cases r <;> simp [ofHierarchy]

end Change

namespace Draft

variable {α : Type} {p : Provider} {d d' : Draft} {r : Except Failure α}

def context (d : Draft) (p : Provider) : Context := ⟨p, d.info, d.options, d.fields⟩

def workOn (d : Draft) (m : Method) : Work := ⟨m, d.pool, d.line, d.trail⟩

def put (d : Draft) (i : Nat) (w : Work) : Draft :=
  { d with pool := w.pool, methods := d.methods.setIfInBounds i w.method, line := w.line, trail := w.trail }

theorem broken_fail (f : Failure) : (d.fail (α := α) f).2.broken ≠ none := by
  unfold fail
  split
  · rintro ⟨⟩
  · rename_i broken
    simpa using broken

theorem unusable_none (h : d.unusable = none) : d.broken = none ∧ d.output = none := by
  unfold unusable at h
  split at h
  · cases h
  · rename_i whole
    split_ifs at h with written
    exact ⟨whole, by simpa using written⟩

theorem unusable_some (h : d.unusable = some f) (whole : d.broken = none) : d.output ≠ none := by
  rw [unusable, whole] at h
  rintro unwritten
  simp [unwritten] at h

def Fine (r : Except Failure α) (d : Draft) : Prop := (∃ x, r = .ok x) ∨ d.broken = none

theorem fine_ok : Fine (.ok x) d := .inl ⟨x, rfl⟩

theorem Fine.whole (h : Fine (.error f : Except Failure α) d) : d.broken = none :=
  h.resolve_left (by rintro ⟨_, ⟨⟩⟩)

theorem not_fine_fail (h : d.fail f = (r, d')) : ¬ Fine r d' := by
  cases h
  exact fun fine => broken_fail (α := α) f fine.whole

def Refused (d : Draft) (r : Except Failure α) (d' : Draft) : Prop := (∃ f, r = .error f) ∧ d.output ≠ none ∧ d' = d

theorem of_attempt (h : d.attempt a = (r, d')) (fine : Fine r d') : ∃ x, r = .ok x ∧ Yields a d x d' := by
  unfold attempt at h
  split at h
  · rename_i x d1 ran
    cases h
    exact ⟨x, rfl, ran⟩
  · exact absurd fine (not_fine_fail h)

theorem of_change (h : d.change a = (r, d')) (fine : Fine r d') :
    d.broken = none ∧ ((∃ x, r = .ok x ∧ d.output = none ∧ Yields a d x d') ∨ d.Refused r d') := by
  unfold change at h
  split at h
  · rename_i f refused
    cases h
    exact ⟨fine.whole, .inr ⟨⟨f, rfl⟩, unusable_some refused fine.whole, rfl⟩⟩
  · rename_i usable
    obtain ⟨whole, unwritten⟩ := unusable_none usable
    obtain ⟨x, rfl, ran⟩ := of_attempt h fine
    exact ⟨whole, .inl ⟨x, rfl, unwritten, ran⟩⟩

theorem runStep_eq (lt : i < d.methods.size) (a : Step α) : d.runStep p i a =
    match (a (d.context p)).run (d.workOn d.methods[i]) with
    | (.ok x, w) => (.ok x, d.put i w)
    | (.error e, w) => (.error (e, w.method.place), d.put i w) := by
  obtain ⟨info, options, pool, thisRef, superRef, interfaceRefs, fields, methods, annotations, line, broken, output, trail⟩ := d
  have again : ∀ m : Method, (methods.set i default lt).setIfInBounds i m = methods.setIfInBounds i m := by
    simp [Array.setIfInBounds, lt]
  simp only [runStep, lt, dite_true, takeOut, Array.swapAt_def, context, workOn, put]
  generalize (a ⟨p, info, options, fields⟩).run ⟨methods[i], pool, line, trail⟩ = result
  obtain ⟨r, w⟩ := result
  cases r with
  | ok x | error e => simp [again]

theorem of_tryStep (h : d.tryStep p i a = (r, d')) (fine : Fine r d') : ∃ m x w, d.methods[i]? = some m ∧ r = .ok x ∧
    Step.Gives (d.context p) a (d.workOn m) x w ∧ d' = d.put i w := by
  unfold tryStep at h
  by_cases lt : i < d.methods.size
  · rw [runStep_eq lt] at h
    cases ran : (a (d.context p)).run (d.workOn d.methods[i]) with
    | mk r w =>
      rw [ran] at h
      cases r with
      | ok x =>
        cases h
        exact ⟨_, x, w, Array.getElem?_eq_getElem lt, rfl, ran, rfl⟩
      | error e => exact absurd fine (not_fine_fail h)
  · obtain ⟨info, options, pool, thisRef, superRef, interfaceRefs, fields, methods, annotations, line, broken, output, trail⟩ := d
    simp only [runStep, lt, dite_false] at h
    exact absurd fine (not_fine_fail h)

end Draft

/-- A method that has ended has complete code, and one that has not is settled. -/
structure Method.Valid (P : Policy) (p : Pool) (m : Method) : Prop where
  bodied : m.bodiless = (m.info.isAbstract || m.info.access.isNative)
  ended : m.finished = true → m.bodiless = false → m.Complete P p
  opened : m.finished = false → ∃ ctx line trail, Settled P ctx ⟨m, p, line, trail⟩

namespace Method.Valid

variable {P : Policy} {p q : Pool} {m : Method}

theorem grow {throws : Array (UInt16 × JType)} {annotations : Array AnnotationBytes} (h : m.Valid P p) (le : p.Le q)
    (sound : q.Sound) (declared : ∀ m, P.declared m) : { m with throws, annotations }.Valid P q where
  bodied := h.bodied
  ended finished body :=
    (h.ended finished body).later ⟨id, id, rfl, fun _ _ => id, Nat.le_refl _, le, fun _ _ => id, fun _ => id⟩ rfl rfl (fun _ => .inl) rfl
  opened open_ := by
    obtain ⟨ctx, line, trail, settled⟩ := h.opened open_
    have suits := settled.suits
    exact ⟨ctx, line, trail, settled.elsewhere le sound ⟨fun f hf => (suits.fields f hf).mono le, suits.typed⟩ (declared _)⟩

theorem of_settled (h : Settled P ctx w)
    (bodied : (w.method.info.isAbstract || w.method.info.access.isNative) = false) : w.method.Valid P w.pool where
  bodied := h.sound.live.1.trans bodied.symm
  ended finished := by
    rw [h.sound.live.2] at finished
    cases finished
  opened _ := ⟨ctx, w.line, w.trail, h⟩

theorem of_ended (h : Ended P w)
    (bodied : (w.method.info.isAbstract || w.method.info.access.isNative) = false) : w.method.Valid P w.pool where
  bodied := h.bodied.trans bodied.symm
  ended _ _ := h.complete
  opened open_ := by
    rw [h.finished] at open_
    cases open_

end Method.Valid

namespace Draft

structure Wrote (d : Draft) (out : Array UInt8) : Prop where
  finished : ∀ m ∈ d.methods, m.finished = true
  written : ∃ q body, q.Sound ∧ Yields d.writeBody ⟨q, .empty⟩ () ⟨d.pool, body⟩ ∧ body.overflow = none ∧
    (assemble d.options d.pool body.bytes).overflow = none ∧ (assemble d.options d.pool body.bytes).bytes = out

/-- A class that has not failed, with what is answered for in each of its methods. -/
structure Valid (P : Nat → Policy) (d : Draft) : Prop where
  pool : d.pool.Sound
  kept : ∀ i, (P i).kept.Le d.pool
  declared : ∀ i m, (P i).declared m
  boxing : ∀ i op r, Boxing op r → (P i).named op r
  this : d.pool.className? d.thisRef = some d.info.name
  super : d.pool.className? d.superRef = some d.info.super
  interfaces : List.Forall₂ (fun i name => d.pool.className? i = some name) d.interfaceRefs d.info.interfaces
  fields : ∀ f ∈ d.fields, f.Linked d.pool
  values : ∀ f ∈ d.fields, f.info.type.isVoid = false
  methods : ∀ (i : Nat) (m : Method), d.methods[i]? = some m → m.Valid (P i) d.pool
  typed : ∀ i, (P i).typed → d.info.WellFormed ∧ ∀ f ∈ d.fields, f.Proper
  output : ∀ out, d.output = some out → d.Wrote out

variable {P : Nat → Policy} {p : Provider} {d d' : Draft}

namespace Valid

variable {i line : Nat}

theorem suits (h : d.Valid P) (classes : (P i).typed → p.WellFormed) : (d.context p).Suits (P i) d.pool where
  fields := h.fields
  typed typed := by
    refine ⟨fun name c found => ?_, (h.typed i typed).2⟩
    simp only [Context.lookup, Provider.find?, context] at found
    split_ifs at found
    · cases found
      exact (h.typed i typed).1
    · exact classes typed name c found

theorem output_of_none (fresh : d.output = none) : ∀ out, d.output = some out → d'.Wrote out := by simp [fresh]

theorem grow (h : d.Valid P) (fresh : d.output = none) (le : d.pool.Le q) (sound : q.Sound) : { d with pool := q }.Valid P :=
  { h with
    pool := sound
    kept := fun i => (h.kept i).trans le
    this := le.className? h.this
    super := le.className? h.super
    interfaces := h.interfaces.imp fun _ _ found => le.className? found
    fields := fun f hf => (h.fields f hf).mono le
    methods := fun i m hm => (h.methods i m hm).grow le sound (h.declared i)
    output := output_of_none fresh }

theorem lines {trail : Trail} (h : d.Valid P) : { d with line, trail }.Valid P :=
  { h with output := fun out made => ⟨(h.output out made).finished, (h.output out made).written⟩ }

theorem put (h : d.Valid P) (fresh : d.output = none) (le : d.pool.Le w.pool)
    (sound : w.pool.Sound) (valid : w.method.Valid (P i) w.pool) : (d.put i w).Valid P := by
  have h := h.grow fresh le sound
  refine { h with methods := fun j m hm => ?_, output := output_of_none fresh }
  rw [Draft.put, Array.getElem?_setIfInBounds] at hm
  split_ifs at hm with same inside
  · cases hm
    exact same ▸ valid
  · exact h.methods j m hm

end Valid

end Draft

variable {d d' : Draft}

theorem Change.of_addField
    (run : Yields (Draft.addField access t name) d n d') : ∃ (p : Pool) (ref : UInt16),
      Yields (Pool.fieldref d.info.name name (t.resolve d.info.name).descriptor) d.pool ref p ∧
      (t.resolve d.info.name).isVoid = false ∧
      d' = { d with
        pool := p
        info := { d.info with fields := d.info.fields.push (d.info.declareField access t name) }
        fields := d.fields.push { info := d.info.declareField access t name, fieldref := ref } } := by
  simp only [Draft.addField, bind_iff, get_iff, yields_ofExcept, looked] at run
  obtain ⟨_, _, ⟨-, rfl⟩, run⟩ := run
  by_cases unfit : ((t.resolve d.info.name).isVoid || (t.resolve d.info.name).isNull) = true
  · simp [unfit] at run
  rw [if_neg unfit] at run
  by_cases twice : (d.info.field? name).isSome = true
  · simp [twice] at run
  rw [if_neg twice] at run
  rw [refuse_iff] at run
  obtain ⟨-, run⟩ := run
  simp only [bind_iff, yields_pool, get_iff, modify_iff, pure_iff, looked] at run
  obtain ⟨ref, _, ⟨p, ran, rfl⟩, _, _, rfl, rfl, rfl⟩ := run
  simp only [Bool.or_eq_true, not_or, Bool.not_eq_true] at unfit
  exact ⟨p, ref, ran, unfit.1, rfl⟩

theorem Change.of_initField
    (run : Yields (Draft.initField number v) d y d') : d' = d ∨ ∃ (p : Pool) (f : Field) (value : Value) (ref : UInt16),
      d.fields[number]? = some f ∧ constantFor f.info.type v = .ok value ∧ Yields value.intern d.pool ref p ∧
      d' = { d with pool := p, fields := d.fields.modify number fun f => { f with init := some value, ref } } := by
  simp only [Draft.initField, bind_iff, get_iff, looked] at run
  cases found : d.fields[number]? with
  | none =>
    rw [found] at run
    exact .inl (pure_iff.mp run).2.symm
  | some f =>
    rw [found] at run
    dsimp only at run
    split at run
    · simp at run
    · simp only [bind_iff, yields_ofExcept, yields_pool, modify_iff] at run
      obtain ⟨value, _, ⟨fits, rfl⟩, _, _, rfl, ref, _, ⟨p, ran, rfl⟩, rfl⟩ := run
      refine .inr ⟨p, f, value, ref, rfl, fits, ran, ?_⟩
      simp only [Draft.mk.injEq, true_and, and_true]
      apply Array.ext (by simp)
      intro i hi hj
      simp only [Array.getElem_modify]
      split <;> rfl

theorem Change.of_checks {xs : List α} {G : α → Prop} {g : α → PUnit → Change (ForInStep PUnit)}
    (each : ∀ x {d d' r}, Yields (g x PUnit.unit) d r d' → r = .yield PUnit.unit ∧ d = d' ∧ G x)
    (run : Yields (forIn xs PUnit.unit g) d y d') : d = d' ∧ ∀ x ∈ xs, G x := by
  induction xs with
  | nil => exact ⟨(pure_iff.mp run).2, by simp⟩
  | cons x xs ih =>
    rw [List.forIn_cons, bind_iff] at run
    obtain ⟨r, v, first, rest⟩ := run
    obtain ⟨rfl, rfl, here⟩ := each x first
    obtain ⟨same, there⟩ := ih rest
    refine ⟨same, fun z hz => ?_⟩
    rcases List.mem_cons.mp hz with rfl | later
    · exact here
    · exact there z later

structure Declares (c : ClassInfo) (a : Access) (t : JType) (n : String) (ps : List (String × JType))
    (m : MethodInfo) : Prop where
  same : m = c.declareMethod a t n ps
  constructor : n = MethodInfo.constructorName → c.isInterface = false
  values : ∀ x ∈ ps, x.2.isVoid = false

namespace Declares

variable {c : ClassInfo} {a : Access} {t : JType} {n : String} {ps : List (String × JType)} {m : MethodInfo}
  (h : Declares c a t n ps m)

include h

theorem name : m.name = n := by rw [h.same]; rfl

theorem ret : m.ret = t.resolve c.name := by rw [h.same]; rfl

theorem params : m.params = ps.map fun x => x.2.resolve c.name := by rw [h.same]; rfl

theorem access (special : n = MethodInfo.constructorName) : m.access = a := by
  rw [h.same, ClassInfo.declareMethod]
  simp [h.constructor special]

theorem value : ∀ t ∈ m.params, t.isVoid = false := by
  rw [h.params, List.forall_mem_map]
  intro x hx
  rw [JType.isVoid, JType.kind_resolve]
  exact h.values x hx

end Declares

theorem Change.of_declareMethod {ret : JType} {params : List (String × JType)} {m : MethodInfo}
    (run : Yields (Draft.declareMethod access ret name params) d m d') : Declares d.info access ret name params m ∧
    d' = { d with info := { d.info with methods := d.info.methods.push m } } := by
  simp only [Draft.declareMethod, bind_iff, get_iff, looked] at run
  obtain ⟨_, named, run⟩ := of_guard run
  obtain rfl : d = _ := by
    rcases named with ⟨-, named⟩ | ⟨-, rfl⟩
    · exact (yields_ofExcept.mp named).2
    · rfl
  rw [bind_iff] at run
  obtain ⟨_, _, checked, run⟩ := run
  obtain ⟨rfl, values⟩ := of_checks (G := fun x => x.2.isVoid = false) (by
    intro x d d' r run
    simp only [refuse_iff, bind_iff, yields_ofExcept, pure_iff] at run
    grind) checked
  generalize flagged : (if (d.info.isInterface && decide (name ≠ MethodInfo.initializerName)) = true then
    (_ : MethodInfo) else _) = m' at run
  simp only [refuse_iff] at run
  obtain ⟨-, notConstructor, -, run⟩ := run
  have run : m' = m ∧ { d with info := { d.info with methods := d.info.methods.push m' } } = d' := by
    split at run
    · simp only [refuse_iff, bind_iff, modify_iff, pure_iff] at run
      obtain ⟨-, -, _, _, rfl, rfl, rfl⟩ := run
      exact ⟨rfl, rfl⟩
    · simp only [bind_iff, modify_iff, pure_iff] at run
      obtain ⟨_, _, rfl, rfl, rfl⟩ := run
      exact ⟨rfl, rfl⟩
  obtain ⟨rfl, rfl⟩ := run
  refine ⟨⟨?_, fun special => ?_, values⟩, rfl⟩
  · rw [← flagged, ClassInfo.declareMethod]
    split_ifs <;> rfl
  · by_contra inside
    exact notConstructor (by simp [inside, special, MethodInfo.constructorName, MethodInfo.initializerName])

def Draft.Allows (P : Nat → Policy) (p : Provider) (d : Draft) : Call → Prop
  | .addField _ t _ => ∀ i, (P i).typed → (t.resolve d.name).WellFormed
  | .addMethod _ ret _ params => ∀ i, (P i).typed →
      (ret.resolve d.name).WellFormed ∧ ∀ x ∈ params, (x.2.resolve d.name).WellFormed
  | .addConstructor _ params => ∀ i, (P i).typed → ∀ x ∈ params, (x.2.resolve d.name).WellFormed
  | .build i b => ((P i).typed → p.WellFormed ∧ b.Proper d.name) ∧ ∀ m, d.methods[i]? = some m →
      ∀ op r, b.Names (d.context p) m op r → (P i).named op r
  | .perform i s => ((P i).typed → p.WellFormed) ∧ ∀ m, d.methods[i]? = some m →
      Step.Grants (P i) (d.context p) m s
  | .bytes => ((P d.methods.size).typed → p.WellFormed) ∧
      ∀ f ∈ d.fields, f.isStored true = true → ∀ op r, f.Stores op r → (P d.methods.size).named op r
  | _ => True

namespace Draft.Valid

variable {P : Nat → Policy} {p : Provider} {d d' : Draft} {n : Nat}

theorem addField {name : String} (h : d.Valid P) (fresh : d.output = none)
    (proper : ∀ i, (P i).typed → (t.resolve d.name).WellFormed)
    (run : Yields (Draft.addField access t name) d n d') : d'.Valid P := by
  obtain ⟨q, ref, ran, value, rfl⟩ := Change.of_addField run
  have interns := Pool.interns_member .field d.info.name name (t.resolve d.info.name).descriptor
  have le := interns.grows ran
  obtain ⟨sound, found⟩ := interns.finds ran h.pool
  have h := h.grow fresh le sound
  refine { h with
    fields := forall_push h.fields ⟨found, by rintro _ ⟨⟩⟩
    values := forall_push h.values value
    typed := fun i answers => ?_
    output := output_of_none fresh }
  obtain ⟨formed, fields⟩ := h.typed i answers
  exact ⟨⟨forall_push formed.fields (proper i answers), formed.methods⟩,
    forall_push fields ⟨proper i answers, by rintro _ ⟨⟩⟩⟩

theorem modifyField (h : d.Valid P) (fresh : d.output = none) (info : ∀ f, (g f).info = f.info)
    (linked : ∀ f, d.fields[n]? = some f → (g f).Linked d.pool)
    (proper : ∀ f, d.fields[n]? = some f → f.Proper → (g f).Proper) : { d with fields := d.fields.modify n g }.Valid P := by
  refine { h with
    fields := forall_modify_at h.fields linked
    values := forall_modify h.values fun f hf => info f ▸ h.values f hf
    typed := fun i answers => ?_
    output := output_of_none fresh }
  obtain ⟨formed, fields⟩ := h.typed i answers
  exact ⟨formed, forall_modify_at fields fun f found => proper f found (fields f (Array.mem_of_getElem? found))⟩

theorem initField (h : d.Valid P) (fresh : d.output = none) (run : Yields (Draft.initField n v) d y d') : d'.Valid P := by
  obtain rfl | ⟨q, f, value, ref, found, fits, ran, rfl⟩ := Change.of_initField run
  · exact h
  have le := (Value.interns value).grows ran
  obtain ⟨sound, linked⟩ := (Value.interns value).finds ran h.pool
  have value_ : f.info.type.kind ≠ .void := by
    simpa [JType.isVoid] using h.values f (Array.mem_of_getElem? found)
  have grown := h.grow fresh le sound
  refine grown.modifyField fresh (fun _ => rfl) (fun f' found' => ?_) fun f' found' proper => ?_
  · refine ⟨(grown.fields f' (Array.mem_of_getElem? found')).ref, fun v hv => ?_⟩
    cases hv
    exact linked
  · obtain rfl : f = f' := Option.some.inj (found.symm.trans found')
    refine ⟨proper.type, fun v hv => ?_⟩
    cases hv
    exact constantFor_words fits value_

end Draft.Valid

namespace Draft

variable {P : Nat → Policy} {p : Provider} {d d' : Draft} {r : Except Failure Nat}

theorem of_openMethod (run : d.openMethod m names = (r, d')) (fine : Fine r d') :
      ∃ method trail, method.info = m ∧ method.Fresh (.ofClass d.name :: m.params) ∧ r = .ok d.methods.size ∧
        d' = { d with methods := d.methods.push method, trail } := by
  unfold Draft.openMethod at run
  dsimp only at run
  split at run
  · exact absurd fine (not_fine_fail run)
  · rename_i method made
    obtain ⟨info, -, fresh⟩ := Method.fresh_create made
    cases run
    split_ifs
    · exact ⟨method, d.trail, info, fresh, rfl, rfl⟩
    · exact ⟨method, _, info, fresh, rfl, rfl⟩

theorem of_declare {name : String}
    (run : d.declare access ret name params = (r, d')) (fine : Fine r d') :
    d.broken = none ∧ (d.Refused r d' ∨ ∃ m trail, d.output = none ∧ Declares d.info access ret name params m.info ∧
      m.Fresh (.ofClass d.name :: m.info.params) ∧ r = .ok d.methods.size ∧
      d' = { d with
        info := { d.info with methods := d.info.methods.push m.info }
        methods := d.methods.push m
        trail }) := by
  unfold Draft.declare at run
  split at run
  · rename_i f d1 ran
    cases run
    obtain ⟨whole, ⟨x, made, -⟩ | ⟨-, written, rfl⟩⟩ := of_change ran (.inr fine.whole)
    · cases made
    · exact ⟨whole, .inl ⟨⟨f, rfl⟩, written, rfl⟩⟩
  · rename_i m d1 ran
    obtain ⟨method, trail, rfl, fresh, rfl, rfl⟩ := of_openMethod run fine
    obtain ⟨whole, ⟨x, made, unwritten, declared⟩ | ⟨⟨f, refused⟩, -⟩⟩ := of_change ran fine_ok
    · cases made
      obtain ⟨declares, rfl⟩ := Change.of_declareMethod declared
      exact ⟨whole, .inr ⟨method, trail, unwritten, declares, fresh, rfl, rfl⟩⟩
    · cases refused

end Draft

namespace Draft.Valid

variable {P : Nat → Policy} {p : Provider} {d d' : Draft} {m : Method}

theorem opened (h : d.Valid P) (fresh : m.Fresh (.ofClass d.name :: m.info.params))
    (constructor : m.info.isConstructor = true → m.info.isStatic = false)
    (params : ∀ t ∈ m.info.params, t.isVoid = false)
    (proper : (P d.methods.size).typed → ∀ t ∈ m.info.params, t.WellFormed) : m.Valid (P d.methods.size) d.pool := by
  cases body : m.bodiless with
  | true =>
    have done : m.finished = true := fresh.finished.trans body
    exact ⟨fresh.bodiless, fun _ bodied => by simp [body] at bodied, fun open_ => by simp [done] at open_⟩
  | false =>
    -- whatever the provider knows, it is not asked yet
    have suits := h.suits (p := .overlay none none) (i := d.methods.size) (fun _ => (by rintro _ _ ⟨⟩))
    refine .of_settled (w := d.workOn m) (.of_fresh fresh body constructor h.pool (h.kept _) (h.declared _ _) suits.fields
      (h.boxing _) suits.typed (fun t ht => ?_) fun typed t ht => ?_) (fresh.bodiless.symm.trans body)
    · rcases List.mem_cons.mp ht with rfl | param
      · exact JType.slots_pos (by simp [JType.isVoid])
      · exact JType.slots_pos (params t param)
    · rcases List.mem_cons.mp ht with rfl | param
      · exact ⟨by simp, JType.noVoidArray_ofClass _⟩
      · refine ⟨?_, (proper typed t param).noVoidArray⟩
        simpa [JType.isVoid] using params t param

theorem pushMethod {name : String} {trail : Trail} (h : d.Valid P)
    (constructor : name = MethodInfo.constructorName → access.isStatic = false ∧ ret = .void)
    (proper : ∀ i, (P i).typed → (ret.resolve d.name).WellFormed ∧ ∀ x ∈ params, (x.2.resolve d.name).WellFormed)
    (unwritten : d.output = none) (declares : Declares d.info access ret name params m.info)
    (fresh : m.Fresh (.ofClass d.name :: m.info.params)) :
    { d with
      info := { d.info with methods := d.info.methods.push m.info }
      methods := d.methods.push m
      trail }.Valid P := by
  have constructs : m.info.isConstructor = true → name = MethodInfo.constructorName :=
    fun constructs => declares.name ▸ beq_iff_eq.mp constructs
  have wellFormed : ∀ i, (P i).typed → ∀ t ∈ m.info.params, t.WellFormed := by
    intro i typed
    rw [declares.params, List.forall_mem_map]
    exact (proper i typed).2
  have opened := h.opened fresh (fun special => by
    rw [MethodInfo.isStatic, declares.access (constructs special)]
    exact (constructor (constructs special)).1) declares.value (wellFormed _)
  refine { h with
    methods := fun i m' hm => ?_
    typed := fun i typed => ⟨⟨(h.typed i typed).1.fields, ?_⟩, (h.typed i typed).2⟩
    output := output_of_none unwritten }
  · rw [Array.getElem?_push] at hm
    split_ifs at hm with last
    · cases hm
      exact last ▸ opened
    · exact h.methods i m' hm
  · refine forall_push (h.typed i typed).1.methods
      ⟨declares.ret ▸ (proper i typed).1, fun t ht => ⟨wellFormed i typed t ht, declares.value t ht⟩, fun special => ?_⟩
    rw [declares.ret, (constructor (constructs special)).2]
    rfl

end Draft.Valid

namespace Draft

variable {P : Nat → Policy} {p : Provider} {d d' : Draft}

/-- The annotation is laid out as `b`, over the pool that it leaves. -/
structure Encodes (d : Draft) (a : Annotation) (b : AnnotationBytes) (q : Pool) : Prop where
  visible : b.visible = a.visible
  laid : a.Laid b.data.toList
  reads : ∃ x, a.shown? d.name = some x ∧ ∀ t : ClassFile.Table, t.Holds q →
    (ClassFile.readAnnotated t).Reads b.data.toList x
  grows : d.pool.Le q
  sound : q.Sound

theorem encodes_of_encoded (sound : d.pool.Sound)
    (run : Yields (encoded a) d b d') : ∃ q, d.Encodes a b q ∧ d' = { d with pool := q } := by
  unfold Yields ExceptT.run encoded at run
  dsimp only at run
  split at run
  rename_i r out ran
  cases r with
  | error e => cases run
  | ok y =>
    dsimp only at run
    have writes := Annotation.writes_encode d.name a
    obtain ⟨le, kept⟩ := (writes.grows _).yields ran
    split at run
    · cases run
    · rename_i fits
      cases run
      obtain ⟨-, bs, bytes, holds⟩ := writes.puts ran fits
      obtain rfl : out.writer.bytes.toList = bs := by simpa [Writer.empty] using bytes
      obtain ⟨laid, x, shown, -⟩ := holds sound _ (ClassFile.Table.holds_ofPool (kept sound))
      refine ⟨out.pool, ⟨rfl, laid, ⟨x, shown, fun t ht => ?_⟩, le, kept sound⟩, rfl⟩
      obtain ⟨-, y, same, reads⟩ := holds sound t ht
      cases shown.symm.trans same
      exact reads

/-- Annotations are attached one after the other, unless the class was written. What does not fit is
refused. -/
theorem of_annotate {I : Draft → Prop} (run : d.annotate attach as = (r, d')) (fine : Fine r d')
    (same : ∀ d b, (attach d b).output = d.output) (sound : ∀ {d : Draft}, I d → d.pool.Sound) (h : I d)
    (step : ∀ {d : Draft} {a b q}, d.output = none → a ∈ as → d.Encodes a b q → I d → I (attach { d with pool := q } b)) :
    I d' ∧ (d.output = none → ∀ a ∈ as, a.Fits) := by
  induction as generalizing d with
  | nil =>
    cases run
    exact ⟨h, by simp⟩
  | cons a as ih =>
    unfold Draft.annotate at run
    split at run
    · rename_i f d1 ran
      cases run
      obtain ⟨-, ⟨x, made, -⟩ | ⟨-, written, rfl⟩⟩ := of_change ran (.inr fine.whole)
      · cases made
      · exact ⟨h, fun unwritten => absurd unwritten written⟩
    · rename_i b d1 ran
      obtain ⟨-, ⟨x, made, unwritten, encoded⟩ | ⟨⟨f, refused⟩, -⟩⟩ := of_change ran fine_ok
      · cases made
        obtain ⟨q, encodes, rfl⟩ := encodes_of_encoded (sound h) encoded
        obtain ⟨kept, fits⟩ := ih run (step unwritten List.mem_cons_self encodes h) fun unwritten mem =>
          step unwritten (List.mem_cons_of_mem _ mem)
        refine ⟨kept, fun _ x hx => ?_⟩
        rcases List.mem_cons.mp hx with rfl | later
        · exact ⟨_, encodes.laid⟩
        · exact fits ((same _ b).trans unwritten) x later
      · cases refused

namespace Valid

variable {a : Annotation} {b : AnnotationBytes} {q : Pool} {i : Nat}

section

variable (h : d.Valid P) (fresh : d.output = none) (encodes : d.Encodes a b q)

include h fresh encodes

theorem markClass : { d with pool := q, annotations := d.annotations.push b }.Valid P :=
  { h.grow fresh encodes.grows encodes.sound with output := output_of_none fresh }

theorem markField : { d with
      pool := q
      fields := d.fields.modify i fun f => { f with annotations := f.annotations.push b } }.Valid P := by
  have h := h.grow fresh encodes.grows encodes.sound
  refine h.modifyField fresh (fun _ => rfl) (fun f found => ?_) fun f _ proper => ⟨proper.type, proper.init⟩
  have linked := h.fields f (Array.mem_of_getElem? found)
  exact ⟨linked.ref, linked.init⟩

theorem markMethod : { d with
      pool := q
      methods := d.methods.modify i fun m => { m with annotations := m.annotations.push b } }.Valid P := by
  have h := h.grow fresh encodes.grows encodes.sound
  refine { h with methods := fun j m hm => ?_, output := output_of_none fresh }
  obtain ⟨-, m', found, rfl⟩ | kept := of_modify hm
  · exact (h.methods j m' found).grow (.refl _) h.pool (h.declared j)
  · exact h.methods j m kept

end

end Valid

end Draft

end Assembler

end ClassForge

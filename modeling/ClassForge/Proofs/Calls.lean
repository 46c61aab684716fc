import ClassForge.Assembler.Workspace
import ClassForge.Proofs.Drafts
import Mathlib.Data.List.Induction

/-! Calls on a class: what one call does, and what a run of them keeps. -/

namespace ClassForge.Assembler

open Yields Step

theorem Step.of_throws (run : Gives ctx (throws types) w y w') : w.pool.Le w'.pool ∧
    (w.pool.Sound → w'.pool.Sound) ∧ ∃ throws, w'.method = { w.method with throws } := by
  simp only [throws, gives_bind, gives_read, gives_pure, looked] at run
  obtain ⟨_, _, run, -, rfl⟩ := run
  induction types generalizing w with
  | nil =>
    obtain ⟨-, rfl⟩ := gives_pure.mp run
    exact ⟨.refl _, id, _, rfl⟩
  | cons t types ih =>
    rw [List.forIn_cons, gives_bind] at run
    obtain ⟨r, v, first, rest⟩ := run
    split_ifs at first
    · simp at first
    simp only [gives_bind, gives_pool, gives_update, gives_pure, passed] at first
    obtain ⟨ref, _, ⟨p, ran, rfl⟩, rfl, rfl⟩ := first
    have interns := Pool.interns_classRef (t.resolve ctx.name).internalName
    obtain ⟨le, sound, throws, same⟩ := ih rest
    exact ⟨(interns.grows ran).trans le, fun h => sound (interns.finds ran h).1, throws, same⟩

namespace Method.Declaration

def Keeps (m x : Method.Declaration) : Prop := x = { m with superCalled := x.superCalled }

variable {m x : Method.Declaration}

theorem Keeps.called (h : m.Keeps x) : m.Keeps { x with superCalled := true } := by
  rw [Keeps, h]

theorem Keeps.info (h : m.Keeps x) : m.info = x.info := (congrArg Method.Declaration.info h).symm

end Method.Declaration

namespace Draft.Valid

variable {P : Nat → Policy} {p : Provider} {d d' : Draft} {i : Nat} {m : Method}

theorem settled (h : d.Valid P) (classes : (P i).typed → p.WellFormed) (found : d.methods[i]? = some m)
    (open_ : m.finished = false) :
    Settled { P i with kept := d.pool, declared := m.declaration.Keeps } (d.context p) (d.workOn m) := by
  obtain ⟨ctx, line, trail, settled⟩ := (h.methods i m found).opened open_
  have here : Settled (P i) (d.context p) (d.workOn m) := settled.elsewhere (.refl _) h.pool (h.suits classes) (h.declared i _)
  exact here.rebase (.refl _) rfl

theorem goOn (h : d.Valid P) (fresh : d.output = none) (found : d.methods[i]? = some m) (body : m.bodiless = false)
    (done : Settled { P i with kept := d.pool, declared := m.declaration.Keeps } (d.context p) w ∨
      Ended { P i with kept := d.pool, declared := m.declaration.Keeps } w) : (d.put i w).Valid P ∧ m.info = w.method.info := by
  have bodied := (h.methods i m found).bodied.symm.trans body
  rcases done with settled | ended
  · have le := settled.sound.kept
    have info : m.info = w.method.info := settled.sound.declared.info
    have back : Settled (P i) (d.context p) w :=
      settled.rebase ((h.kept i).trans le) (h.declared i _)
    exact ⟨h.put fresh le settled.sound.pool (.of_settled back (info ▸ bodied)), info⟩
  · have le := ended.kept
    have info : m.info = w.method.info := ended.declared.info
    have back : Ended (P i) w :=
      ⟨ended.pool, (h.kept i).trans le, h.declared i _, ended.bodied, ended.finished, ended.complete⟩
    exact ⟨h.put fresh le ended.pool (.of_ended back (info ▸ bodied)), info⟩

end Draft.Valid

namespace Draft

variable {P : Nat → Policy} {p : Provider} {d d' : Draft} {i : Nat}

theorem of_build (run : d.build p i b = (r, d')) (fine : Fine r d') :
    d.broken = none ∧ (d.Refused r d' ∨ ∃ m x w, d.output = none ∧ d.methods[i]? = some m ∧ m.finished = false ∧
      r = .ok x.id ∧ Step.Gives (d.context p) (Step.build b) (d.workOn m) x w ∧ d' = d.put i w) := by
  unfold Draft.build at run
  dsimp only at run
  split at run
  · obtain ⟨m, x, w, -, -, gives, -⟩ := of_tryStep run fine
    exact absurd gives (by simp)
  · split at run
    · rename_i unusable
      split_ifs at run
      · exact absurd fine (not_fine_fail run)
      · cases run
        exact ⟨fine.whole, .inl ⟨⟨_, rfl⟩, unusable_some unusable fine.whole, rfl⟩⟩
    · rename_i usable
      obtain ⟨whole, unwritten⟩ := unusable_none usable
      obtain ⟨m, x, w, found, rfl, gives, rfl⟩ := of_tryStep run fine
      simp only [Step.gives_bind, Step.gives_pure] at gives
      obtain ⟨_, _, enter, x, _, gives, rfl, rfl⟩ := gives
      obtain ⟨rfl, -, open_⟩ := Step.of_entered enter
      exact ⟨whole, .inr ⟨m, x, _, unwritten, found, open_, rfl, gives, rfl⟩⟩

section

variable {α : Type} {a : Step α} {r : Except Failure α}

def Took (p : Provider) (i : Nat) (a : Step α) (d : Draft) (r : Except Failure α) (d' : Draft) : Prop :=
  ∃ m x w, d.output = none ∧ d.methods[i]? = some m ∧ r = .ok x ∧ Gives (d.context p) a (d.workOn m) x w ∧ d' = d.put i w

theorem of_step (run : (match d.unusable with
      | some f => (.error f, d)
      | none => d.tryStep p i a) = (r, d')) (fine : Fine r d') : d.broken = none ∧ (d.Refused r d' ∨ Took p i a d r d') := by
  split at run
  · rename_i refused
    cases run
    exact ⟨fine.whole, .inl ⟨⟨_, rfl⟩, unusable_some refused fine.whole, rfl⟩⟩
  · rename_i usable
    obtain ⟨whole, unwritten⟩ := unusable_none usable
    obtain ⟨m, x, w, found, rfl, gives, rfl⟩ := of_tryStep run fine
    exact ⟨whole, .inr ⟨m, x, w, unwritten, found, rfl, gives, rfl⟩⟩

end

theorem of_perform (run : d.perform p i s = (r, d')) (fine : Fine r d') :
    d.broken = none ∧ (d.Refused r d' ∨ Took p i (requested s) d r d') := of_step run fine

theorem of_throws (run : d.throws p i types = (r, d')) (fine : Fine r d') :
    d.broken = none ∧ (d.Refused r d' ∨ Took p i (Step.throws types) d r d') := of_step run fine

namespace Valid

variable {m : Method}

theorem built (h : d.Valid P) (allows : d.Allows P p (.build i b))
    (unwritten : d.output = none) (found : d.methods[i]? = some m) (open_ : m.finished = false)
    (gives : Step.Gives (d.context p) (Step.build b) (d.workOn m) x w) : (d.put i w).Valid P ∧ m.info = w.method.info := by
  have settled := h.settled (fun typed => (allows.1 typed).1) found open_
  exact h.goOn unwritten found settled.sound.live.1 (.inl (Step.settled_build settled (fun typed => (allows.1 typed).2) (allows.2 m found) gives))

theorem request (h : d.Valid P) (allows : d.Allows P p (.perform i s)) (found : d.methods[i]? = some m)
    (gives : Gives (d.context p) (requested s) (d.workOn m) x w) : Settled { P i with kept := d.pool, declared := m.declaration.Keeps } (d.context p) w ∨
      s = .close ∧ m.top.scope = .body ∧ Ended { P i with kept := d.pool, declared := m.declaration.Keeps } w := by
  have grants := allows.2 m found
  exact requested_spec (P := { P i with kept := d.pool, declared := m.declaration.Keeps }) (h.settled allows.1 found)
    ⟨grants.proper, grants.timely, grants.named, grants.caught, fun _ _ _ => .called⟩ gives

theorem performed (h : d.Valid P) (allows : d.Allows P p (.perform i s)) (unwritten : d.output = none)
    (found : d.methods[i]? = some m) (gives : Gives (d.context p) (requested s) (d.workOn m) x w) :
    (d.put i w).Valid P ∧ m.info = w.method.info :=
  h.goOn unwritten found (of_requested gives).1 ((h.request allows found gives).imp_right fun ended => ended.2.2)

theorem thrown (h : d.Valid P) (unwritten : d.output = none)
    (found : d.methods[i]? = some m) (gives : Step.Gives (d.context p) (Step.throws types) (d.workOn m) y w) :
    (d.put i w).Valid P ∧ m.info = w.method.info := by
  obtain ⟨le, sound, throws, same⟩ := Step.of_throws gives
  refine ⟨h.put unwritten le (sound h.pool) ?_, by rw [same]; rfl⟩
  rw [same]
  exact (h.methods i m found).grow le (sound h.pool) (h.declared i)

end Valid

end Draft

namespace Draft

variable {P : Nat → Policy} {p : Provider} {c : Call} {d d' : Draft}

/-- One change of a class, within a call. Writing may declare and close an initializer. -/
inductive Move (p : Provider) : Call → Draft → Draft → Prop
  | line {n : Int} {line : Nat} {d : Draft} : Move p (.setLine n) d { d with line }
  | field {access : Access} {t : JType} {name : String} {n : Nat} {d d' : Draft} : d.output = none →
      Yields (Draft.addField access t name) d n d' → Move p (.addField access t name) d d'
  | value {n : Nat} {v : Literal} {d d' : Draft} : d.output = none → Yields (Draft.initField n v) d () d' →
      Move p (.initField n v) d d'
  | markClass {as : List Annotation} {a : Annotation} {b : AnnotationBytes} {q : Pool} {d : Draft} : d.output = none →
      a ∈ as → d.Encodes a b q →
      Move p (.annotateClass as) d { d with pool := q, annotations := d.annotations.push b }
  | markField {i : Nat} {as : List Annotation} {a : Annotation} {b : AnnotationBytes} {q : Pool} {d : Draft} :
      d.output = none → a ∈ as → d.Encodes a b q → Move p (.annotateField i as) d
        { d with pool := q, fields := d.fields.modify i fun f => { f with annotations := f.annotations.push b } }
  | markMethod {i : Nat} {as : List Annotation} {a : Annotation} {b : AnnotationBytes} {q : Pool} {d : Draft} :
      d.output = none → a ∈ as → d.Encodes a b q → Move p (.annotateMethod i as) d
        { d with pool := q, methods := d.methods.modify i fun m => { m with annotations := m.annotations.push b } }
  | declare {c : Call} {access : Access} {ret : JType} {name : String} {params : List (String × JType)} {m : Method}
      {trail : Trail} {d : Draft} : d.output = none → Declares d.info access ret name params m.info →
      (name = MethodInfo.constructorName → access.isStatic = false ∧ ret = .void) → m.Fresh (.ofClass d.name :: m.info.params) → Move p c d
        { d with
          info := { d.info with methods := d.info.methods.push m.info }
          methods := d.methods.push m
          trail }
  | throws {i : Nat} {types : List JType} {m : Method} {w : Work} {d : Draft} : d.output = none →
      d.methods[i]? = some m → Step.Gives (d.context p) (Step.throws types) (d.workOn m) () w →
      Move p (.throws i types) d (d.put i w)
  | build {i : Nat} {b : Build} {m : Method} {x : Term} {w : Work} {d : Draft} : d.output = none →
      d.methods[i]? = some m → m.finished = false →
      Step.Gives (d.context p) (Step.build b) (d.workOn m) x w → Move p (.build i b) d (d.put i w)
  | perform {i : Nat} {s : Statement} {m : Method} {x : Option Nat} {w : Work} {d : Draft} : d.output = none →
      d.methods[i]? = some m → Step.Gives (d.context p) (Step.requested s) (d.workOn m) x w →
      Move p (.perform i s) d (d.put i w)
  | close {i : Nat} {m : Method} {x : Option Nat} {w : Work} {d : Draft} : d.output = none →
      d.methods[i]? = some m → m.Fresh (.ofClass d.name :: m.info.params) →
      Step.Gives (d.context p) (Step.requested .close) (d.workOn m) x w → Move p .bytes d (d.put i w)
  | write {q : Pool} {body : Writer} {trail : Trail} {d : Draft} : d.output = none →
      (∀ m ∈ d.methods, m.finished = true) → Yields d.writeBody ⟨d.pool, .empty⟩ () ⟨q, body⟩ → body.overflow = none →
      (assemble d.options q body.bytes).overflow = none → Move p .bytes d
        { d with pool := q, trail, output := some (assemble d.options q body.bytes).bytes }

abbrev Moves (p : Provider) (c : Call) : Draft → Draft → Prop := Relation.ReflTransGen (Move p c)

def fieldsBy (p : Provider) (d : Draft) (c : Call) : List FieldInfo :=
  match c, (d.call p c).1 with
  | .addField access type name, .ok _ => [d.info.declareField access type name]
  | _, _ => []

/-- The methods that a call declares. Writing adds the initializer that static fields need. -/
def methodsBy (p : Provider) (d : Draft) (c : Call) : List MethodInfo :=
  match c, (d.call p c).1 with
  | .addMethod access ret name params, .ok _ => [d.info.declareMethod access ret name params]
  | .addConstructor access params, .ok _ =>
    [d.info.declareMethod (access.without (.staticBit ||| .abstractBit ||| .finalBit)) .void
      MethodInfo.constructorName params]
  | .addStaticInit, .ok _ => [d.info.declareMethod .staticBit .void MethodInfo.initializerName []]
  | .bytes, .ok _ =>
    if d.output.isNone && d.needsStaticInit then
      [d.info.declareMethod .staticBit .void MethodInfo.initializerName []]
    else []
  | _, _ => []

structure Adds (d d' : Draft) (fs : List FieldInfo) (ms : List MethodInfo) : Prop where
  info : d'.info = { d.info with fields := d'.info.fields, methods := d'.info.methods }
  options : d'.options = d.options
  fields : d'.fields.toList.map (·.info) = d.fields.toList.map (·.info) ++ fs
  methods : d'.methods.toList.map (·.info) = d.methods.toList.map (·.info) ++ ms

namespace Adds

theorem refl (d : Draft) : d.Adds d [] [] := ⟨rfl, rfl, by simp, by simp⟩

theorem trans (h : d.Adds d' fs ms) (k : d'.Adds d'' fs' ms') :
    d.Adds d'' (fs ++ fs') (ms ++ ms') where
  info := by
    rw [k.info, h.info]
  options := k.options.trans h.options
  fields := by rw [k.fields, h.fields, List.append_assoc]
  methods := by rw [k.methods, h.methods, List.append_assoc]

theorem put (found : d.methods[i]? = some m) (info : m.info = w.method.info) : d.Adds (d.put i w) [] [] := by
  refine ⟨rfl, rfl, by simp [Draft.put], ?_⟩
  rw [List.append_nil, Draft.put, Array.toList_setIfInBounds]
  apply List.ext_getElem?
  intro j
  rw [List.getElem?_map, List.getElem?_map, List.getElem?_set]
  split_ifs with same inside
  · subst same
    rw [Array.getElem?_toList, found, Option.map_some, Option.map_some, info]
  · subst same
    rw [Array.length_toList, Nat.not_lt] at inside
    rw [Array.getElem?_toList, Array.getElem?_eq_none inside]
  · rfl

theorem map_modify {f : α → β} {g : α → α} {xs : Array α} (same : ∀ x, f (g x) = f x) :
    (xs.modify n g).toList.map f = xs.toList.map f ++ [] := by
  rw [List.append_nil]
  apply List.ext_getElem?
  intro j
  rw [List.getElem?_map, List.getElem?_map, Array.getElem?_toList, Array.getElem?_toList, Array.getElem?_modify]
  split_ifs
  · rw [Option.map_map]
    exact congrFun (congrArg Option.map (funext same)) _
  · rfl

end Adds

/-- What a call does to a class that stays whole: each change is a move, and these members are
added. -/
structure Served (P : Nat → Policy) (p : Provider) (c : Call) (d d' : Draft) (fs : List FieldInfo) (ms : List MethodInfo) :
    Prop where
  valid : d'.Valid P
  moves : Moves p c d d'
  adds : d.Adds d' fs ms

theorem Served.refl (h : d.Valid P) : Served P p c d d [] [] := ⟨h, .refl, .refl d⟩

theorem Valid.declared_served {name : String} (h : d.Valid P)
    (constructor : name = MethodInfo.constructorName → access.isStatic = false ∧ ret = .void)
    (proper : ∀ i, (P i).typed → (ret.resolve d.name).WellFormed ∧ ∀ x ∈ params, (x.2.resolve d.name).WellFormed)
    (run : d.declare access ret name params = (r, d')) (fine : Fine r d') :
    Served P p c d d' [] (if r.isOk then [d.info.declareMethod access ret name params] else []) := by
  obtain ⟨-, ⟨⟨f, rfl⟩, -, rfl⟩ | ⟨m, trail, unwritten, declares, fresh, rfl, rfl⟩⟩ := of_declare run fine
  · exact .refl h
  · exact ⟨h.pushMethod constructor proper unwritten declares fresh,
      .single (.declare unwritten declares constructor fresh),
      ⟨rfl, rfl, by simp, by simp [declares.same, Except.isOk, Except.toBool]⟩⟩

theorem Valid.took (h : d.Valid P)
    (run : d.Refused r d' ∨ Took p i a d r d') (step : ∀ {m x w}, d.output = none → d.methods[i]? = some m →
      Gives (d.context p) a (d.workOn m) x w → ((d.put i w).Valid P ∧ m.info = w.method.info) ∧ Move p c d (d.put i w)) :
    Served P p c d d' [] [] := by
  obtain ⟨-, -, rfl⟩ | ⟨m, x, w, unwritten, found, -, gives, rfl⟩ := run
  · exact .refl h
  · obtain ⟨⟨valid, info⟩, move⟩ := step unwritten found gives
    exact ⟨valid, .single move, .put found info⟩

end Draft

namespace Draft

variable {P : Nat → Policy} {p : Provider} {d d' : Draft} {r : Except Failure Unit} {m : Method}

theorem Valid.names (h : d.Valid P) (holds : t.Holds d.pool) : d.Names t := by
  refine ⟨holds.className h.this, ⟨holds.className h.super, ?_⟩, h.interfaces.imp fun _ _ found => holds.className found⟩
  have found := h.super
  unfold Pool.className? at found
  split at found
  · rename_i entry
    exact (h.pool.index_range entry).1
  · cases found

theorem of_checkComplete (run : Yields (checkComplete p) d y d') : d = d' ∧ (∀ m ∈ d.methods, m.finished = true) ∧
      (d.info.isInterface = false → d.info.access.isAbstract = false → (d.lookup p).unimplemented d.name = .ok []) := by
  simp only [checkComplete, bind_iff, get_iff, looked] at run
  split at run
  · simp at run
  · rename_i all
    refine and_left_comm.mp ⟨by simpa using all, ?_⟩
    split_ifs at run with concrete
    · simp only [bind_iff, Change.yields_ofHierarchy] at run
      obtain ⟨_, _, ⟨given, rfl⟩, run⟩ := run
      split at run
      · exact ⟨(pure_iff.mp run).2, fun _ _ => given⟩
      · simp at run
    · exact ⟨(pure_iff.mp run).2, fun ground solid => absurd (by simp [ground, solid]) concrete⟩

theorem of_serialize (run : Yields serialize d out d') : ∃ q body, Yields d.writeBody ⟨d.pool, .empty⟩ () ⟨q, body⟩ ∧
    body.overflow = none ∧ (assemble d.options q body.bytes).overflow = none ∧
    (assemble d.options q body.bytes).bytes = out ∧ d' = { d with pool := q } := by
  unfold Yields ExceptT.run serialize at run
  dsimp only at run
  split at run
  rename_i r s ran
  cases r with
  | error e => cases run
  | ok y =>
    dsimp only at run
    split at run
    · cases run
    · rename_i whole
      split at run
      · cases run
      · rename_i fits
        cases run
        exact ⟨s.pool, s.writer, ran, whole, fits, rfl, rfl⟩

theorem of_close (h : d.Valid P) (fresh : m.Fresh (.ofClass d.name :: m.info.params)) (unwritten : d.output = none)
    (found : d.methods[i]? = some m) (classes : (P i).typed → p.WellFormed)
    (named : ∀ op r, Statement.close.Names (d.context p) m op r → (P i).named op r)
    (gives : Gives (d.context p) (requested .close) (d.workOn m) x w) : (d.put i w).Valid P ∧
    w.method.finished = true ∧ m.info = w.method.info := by
  have body : m.bodiless = false := (of_requested gives).1
  have scope : m.top.scope = .body := by
    rw [Method.top, fresh.frames body]
    rfl
  have ended := requested_close_spec (w := d.workOn m) (h.settled classes found) scope named gives
  obtain ⟨valid, info⟩ := h.goOn (p := p) unwritten found body (.inr ended)
  exact ⟨valid, ended.finished, info⟩

theorem names_initializer {r : Reference} {named : Opcode → Reference → Prop}
    (name : m.info.name = MethodInfo.initializerName)
    (stores : ∀ f ∈ ctx.fields, f.isStored true = true → ∀ op r, f.Stores op r → named op r)
    (names : Statement.close.Names ctx m op r) : named op r := by
  cases names with
  | implicitSuper constructs =>
    rw [MethodInfo.isConstructor, name] at constructs
    exact absurd constructs (by decide)
  | @closeStore isStatic f _ _ initializes mem stored store =>
    cases isStatic with
    | true => exact stores f mem stored op r store
    | false =>
      rw [Method.initializes, name] at initializes
      exact absurd initializes (by decide)

def withMethod (d : Draft) (m : Method) (trail : Trail) : Draft :=
  { d with
    info := { d.info with methods := d.info.methods.push m.info }
    methods := d.methods.push m
    trail }

theorem of_addMissingStaticInit (run : d.addMissingStaticInit p = (r, d')) (fine : Fine r d') (unwritten : d.output = none) :
    r = .ok () ∧ (d.needsStaticInit = false ∧ d' = d ∨ d.needsStaticInit = true ∧ ∃ m trail x w,
      Declares d.info .staticBit .void MethodInfo.initializerName [] m.info ∧ m.Fresh (.ofClass d.name :: m.info.params) ∧
      Gives ((d.withMethod m trail).context p) (requested .close) ((d.withMethod m trail).workOn m) x w ∧
      d' = (d.withMethod m trail).put d.methods.size w) := by
  unfold addMissingStaticInit at run
  split_ifs at run with needed
  · split at run
    · rename_i f d1 added
      cases run
      obtain ⟨-, ⟨-, written, -⟩ | ⟨_, _, -, -, -, made, -⟩⟩ := of_declare added (.inr fine.whole)
      · exact absurd unwritten written
      · cases made
    rename_i i d1 added
    obtain ⟨-, ⟨⟨f, refused⟩, -⟩ | ⟨m, trail, -, declares, fresh, made, rfl⟩⟩ := of_declare added fine_ok
    · cases refused
    cases made
    split at run
    · rename_i f d2 closed
      cases run
      obtain ⟨-, ⟨-, written, -⟩ | ⟨_, _, _, -, -, made, -⟩⟩ := of_perform closed (.inr fine.whole)
      · exact absurd unwritten written
      · cases made
    · rename_i x d2 closed
      cases run
      obtain ⟨-, ⟨⟨f, refused⟩, -⟩ | ⟨m', x, w, -, found, -, gives, rfl⟩⟩ := of_perform closed fine_ok
      · cases refused
      obtain rfl : m = m' := Option.some.inj (Array.getElem?_push_size.symm.trans found)
      exact ⟨rfl, .inr ⟨needed, m, trail, x, w, declares, fresh, gives, rfl⟩⟩
  · cases run
    exact ⟨rfl, .inl ⟨by simpa using needed, rfl⟩⟩

/-- The bytes that a class gives are those it gave before, or it has just been written. -/
theorem of_bytes {r : Except Failure (Array UInt8)} (run : d.bytes p = (r, d')) (fine : Fine r d') : d.broken = none ∧
    ∃ out, r = .ok out ∧ d'.output = some out ∧ (d.output ≠ none ∧ d' = d ∨ d.output = none ∧
      Yields (checkComplete p) d () d ∧ ∃ d1 q body trail, d.addMissingStaticInit p = (.ok (), d1) ∧
        Yields d1.writeBody ⟨d1.pool, .empty⟩ () ⟨q, body⟩ ∧ body.overflow = none ∧
        (assemble d1.options q body.bytes).overflow = none ∧
        d' = { d1 with pool := q, trail, output := some (assemble d1.options q body.bytes).bytes }) := by
  unfold Draft.bytes at run
  split at run
  · rename_i out written whole
    cases run
    exact ⟨whole, out, rfl, written, .inl ⟨by simp [written], rfl⟩⟩
  rename_i unwritten
  split at run
  · rename_i f d1 checked
    cases run
    obtain ⟨whole, ⟨_, made, -⟩ | ⟨-, written, rfl⟩⟩ := of_change checked (.inr fine.whole)
    · cases made
    · obtain ⟨out, written⟩ := Option.ne_none_iff_exists'.mp written
      exact absurd whole (unwritten out written)
  rename_i y d1 checked
  obtain ⟨whole, ⟨_, -, unwritten, complete⟩ | ⟨⟨f, refused⟩, -⟩⟩ := of_change checked fine_ok
  · obtain ⟨rfl, -⟩ := of_checkComplete complete
    split at run
    · rename_i f d2 added
      cases run
      cases (of_addMissingStaticInit added (.inr fine.whole) unwritten).1
    rename_i y d2 added
    split at run
    · exact absurd fine (not_fine_fail run)
    rename_i out d3 ran
    cases run
    obtain ⟨q, body, written, fits, small, rfl, rfl⟩ := of_serialize ran
    exact ⟨whole, _, rfl, rfl, .inr ⟨unwritten, complete, d2, q, body, _, added, written, fits, small, rfl⟩⟩
  · cases refused

structure Completes (d d' : Draft) : Prop where
  options : d'.options = d.options
  annotations : d'.annotations = d.annotations
  fields : d'.fields = d.fields
  same : d.needsStaticInit = false → d'.info = d.info ∧ d'.methods = d.methods
  more : d.needsStaticInit = true → ∃ m : Method,
    m.info = d.info.declareMethod .staticBit .void MethodInfo.initializerName [] ∧
    d'.info = { d.info with methods := d.info.methods.push m.info } ∧ d'.methods = d.methods.push m

theorem Valid.seal {trail : Trail} (h : d.Valid P) (unwritten : d.output = none)
    (finished : ∀ m ∈ d.methods, m.finished = true) (written : Yields d.writeBody ⟨d.pool, .empty⟩ () ⟨q, body⟩)
    (fits : body.overflow = none) (small : (assemble d.options q body.bytes).overflow = none) : { d with pool := q, trail, output := some (assemble d.options q body.bytes).bytes }.Valid P := by
  obtain ⟨le, sound⟩ := (d.writes_body.grows _).yields written
  have grown := h.grow unwritten le (sound h.pool)
  refine { grown with output := fun out made => ⟨finished, d.pool, body, h.pool, written, fits, small, ?_⟩ }
  exact Option.some.inj made

theorem Valid.initialized (h : d.Valid P) (allows : d.Allows P p .bytes)
    (unwritten : d.output = none) (finished : ∀ m ∈ d.methods, m.finished = true)
    (run : d.addMissingStaticInit p = (.ok (), d')) : d'.Valid P ∧ Moves p .bytes d d' ∧ d.Completes d' ∧ d'.output = none ∧
      ∀ m ∈ d'.methods, m.finished = true := by
  obtain ⟨-, ⟨unneeded, rfl⟩ | ⟨needed, m, trail, x, w, declares, fresh, gives, rfl⟩⟩ :=
    of_addMissingStaticInit run fine_ok unwritten
  · exact ⟨h, .refl, ⟨rfl, rfl, rfl, fun _ => ⟨rfl, rfl⟩, fun needed => by simp [unneeded] at needed⟩, unwritten, finished⟩
  · have found : (d.withMethod m trail).methods[d.methods.size]? = some m := Array.getElem?_push_size
    obtain ⟨valid, ends, info⟩ := of_close (h.pushMethod (by decide)
      (fun _ _ => ⟨JType.wellFormed_resolve_void _, by simp⟩) unwritten declares fresh) fresh unwritten found allows.1
      (fun op r names => names_initializer declares.name allows.2 names) gives
    have last : ((d.withMethod m trail).put d.methods.size w).methods = d.methods.push w.method := by
      simp [withMethod, Draft.put, Array.setIfInBounds, Array.set_push]
    refine ⟨valid, .head (.declare unwritten declares (by decide) fresh) (.single (.close unwritten found fresh gives)),
      ⟨rfl, rfl, rfl, fun unneeded => by simp [needed] at unneeded, fun _ => ⟨w.method, info ▸ declares.same, ?_, last⟩⟩,
      unwritten, ?_⟩
    · rw [← info]
      rfl
    · rw [last]
      exact forall_push finished ends

theorem Valid.writes {r : Except Failure (Array UInt8)} (h : d.Valid P)
    (allows : d.Allows P p .bytes) (run : d.bytes p = (r, d'))
    (fine : Fine r d') : d'.Valid P ∧ Moves p .bytes d d' ∧
      ∃ out, r = .ok out ∧ d'.output = some out ∧ (d.output ≠ none ∧ d' = d ∨ d.output = none ∧ d.Completes d') := by
  obtain ⟨-, out, rfl, written, ⟨before, rfl⟩ | ⟨unwritten, complete, d1, q, body, trail, added, writes, fits, small, rfl⟩⟩ :=
    of_bytes run fine
  · exact ⟨h, .refl, out, rfl, written, .inl ⟨before, rfl⟩⟩
  · obtain ⟨valid, moves, completes, fresh, finished⟩ :=
      h.initialized allows unwritten (of_checkComplete complete).2.1 added
    exact ⟨valid.seal fresh finished writes fits small, moves.tail (.write fresh finished writes fits small), out, rfl, written,
      .inr ⟨unwritten, completes.options, completes.annotations, completes.fields, completes.same, completes.more⟩⟩

end Draft

/-! Calls one after the other. -/

namespace Draft

variable {P : Nat → Policy} {p : Provider} {c : Call} {d d' : Draft} {access : Access} {recorder : Trace.Recorder}
  {ret : JType} {calls : List (Provider × Call)} {params : List (String × JType)} {interfaces : List String}
  {i n : Nat} {x : Option Nat} {options : Options} {s : Statement} {name super : String} {α : Type} {a : Change α}

theorem whole_of_annotate (whole : (d.annotate attach as).2.broken = none) : d.broken = none := by
  cases as with
  | nil => exact whole
  | cons a as =>
    unfold annotate at whole
    split at whole
    · rename_i ran
      exact (of_change ran (.inr whole)).1
    · rename_i ran
      exact (of_change ran fine_ok).1

theorem whole_of_call (whole : (d.call p c).2.broken = none) : d.broken = none := by
  cases c with
  | addField | initField => exact (of_change rfl (.inr whole)).1
  | addConstructor | addStaticInit => exact (of_declare rfl (.inr whole)).1
  | addMethod access ret name params =>
    simp only [call, replying, addMethod] at whole
    split_ifs at whole
    · exact (of_change rfl (.inr whole)).1
    · exact (of_declare rfl (.inr whole)).1
  | annotateClass | annotateField | annotateMethod => exact whole_of_annotate whole
  | throws => exact (of_throws rfl (.inr whole)).1
  | perform => exact (of_perform rfl (.inr whole)).1
  | setLine n =>
    simp only [call, setLine] at whole
    split_ifs at whole <;> exact whole
  | build => exact (of_build rfl (.inr whole)).1
  | bytes => exact (of_bytes rfl (.inr whole)).1

theorem setLine_eq (n : Int) : ∃ line, d.setLine n = { d with line } := by
  unfold setLine
  split_ifs
  · exact ⟨_, rfl⟩
  · exact ⟨d.line, rfl⟩

theorem Valid.served (h : d.Valid P) (allows : d.Allows P p c)
    (whole : (d.call p c).2.broken = none) : Served P p c d (d.call p c).2 (d.fieldsBy p c) (d.methodsBy p c) := by
  cases c with
  | addField access t name =>
    cases run : d.change (Draft.addField access t name) with
    | mk r d' =>
      simp only [fieldsBy, methodsBy, Draft.call, replying, run] at whole ⊢
      obtain ⟨-, ⟨n, rfl, unwritten, ran⟩ | ⟨⟨f, rfl⟩, -, rfl⟩⟩ := of_change run (.inr whole)
      · refine ⟨h.addField unwritten allows ran, .single (.field unwritten ran), ?_⟩
        obtain ⟨q, ref, -, -, rfl⟩ := Change.of_addField ran
        exact ⟨rfl, rfl, by simp [Except.map], by simp⟩
      · exact .refl h
  | initField i v =>
    cases run : d.change (Draft.initField i v) with
    | mk r d' =>
      simp only [fieldsBy, methodsBy, Draft.call, replying, run] at whole ⊢
      obtain ⟨-, ⟨n, rfl, unwritten, ran⟩ | ⟨⟨f, rfl⟩, -, rfl⟩⟩ := of_change run (.inr whole)
      · refine ⟨h.initField unwritten ran, .single (.value unwritten ran), ?_⟩
        obtain rfl | ⟨q, f, value, ref, -, -, -, rfl⟩ := Change.of_initField ran
        · exact .refl _
        · exact ⟨rfl, rfl, Adds.map_modify (fun _ => rfl), by simp⟩
      · exact .refl h
  | addMethod access ret name params =>
    cases run : d.addMethod access ret name params with
    | mk r d' =>
      simp only [fieldsBy, methodsBy, Draft.call, replying, run] at whole ⊢
      unfold Draft.addMethod at run
      split_ifs at run with special
      · obtain ⟨-, ⟨n, -, -, ran⟩ | ⟨⟨f, rfl⟩, -, rfl⟩⟩ := of_change run (.inr whole)
        · simp at ran
        · exact .refl h
      · have served := h.declared_served (p := p) (c := .addMethod access ret name params)
          (fun constructs => absurd (.inl constructs) special) allows run (.inr whole)
        cases r <;> exact served
  | addConstructor access params =>
    cases run : d.addConstructor access params with
    | mk r d' =>
      simp only [fieldsBy, methodsBy, Draft.call, replying, run] at whole ⊢
      have served := h.declared_served (p := p) (c := .addConstructor access params)
        (fun _ => ⟨Access.isStatic_without _ (by decide), rfl⟩) (fun i typed => ⟨JType.wellFormed_resolve_void _, allows i typed⟩)
        run (.inr whole)
      cases r <;> exact served
  | addStaticInit =>
    cases run : d.addStaticInit with
    | mk r d' =>
      simp only [fieldsBy, methodsBy, Draft.call, replying, run] at whole ⊢
      have served := h.declared_served (p := p) (c := .addStaticInit) (by decide)
        (fun _ _ => ⟨JType.wellFormed_resolve_void _, by simp⟩) run (.inr whole)
      cases r <;> exact served
  | throws i types =>
    exact h.took (of_throws rfl (.inr whole)).2 fun unwritten found gives =>
      ⟨h.thrown unwritten found gives, .throws unwritten found gives⟩
  | annotateClass as =>
    have run : d.annotateClass as = (_, _) := rfl
    exact (of_annotate (I := (Served P p (.annotateClass as) d · [] [])) run (.inr whole) (fun _ _ => rfl) (·.valid.pool) (.refl h)
      fun fresh mem encodes h => ⟨h.valid.markClass fresh encodes, h.moves.tail (.markClass fresh mem encodes),
        h.adds.trans ⟨rfl, rfl, by simp, by simp⟩⟩).1
  | annotateField i as =>
    have run : d.annotateField i as = (_, _) := rfl
    exact (of_annotate (I := (Served P p (.annotateField i as) d · [] [])) run (.inr whole) (fun _ _ => rfl) (·.valid.pool) (.refl h)
      fun fresh mem encodes h => ⟨h.valid.markField fresh encodes, h.moves.tail (.markField fresh mem encodes),
        h.adds.trans ⟨rfl, rfl, Adds.map_modify (fun _ => rfl), by simp⟩⟩).1
  | annotateMethod i as =>
    have run : d.annotateMethod i as = (_, _) := rfl
    exact (of_annotate (I := (Served P p (.annotateMethod i as) d · [] [])) run (.inr whole) (fun _ _ => rfl) (·.valid.pool) (.refl h)
      fun fresh mem encodes h => ⟨h.valid.markMethod fresh encodes, h.moves.tail (.markMethod fresh mem encodes),
        h.adds.trans ⟨rfl, rfl, by simp, Adds.map_modify (fun _ => rfl)⟩⟩).1
  | setLine n =>
    obtain ⟨line, same⟩ := d.setLine_eq n
    have served : Served P p (.setLine n) d { d with line } [] [] := ⟨h.lines, .single .line, rfl, rfl, by simp, by simp⟩
    exact (congrArg (Served P p _ d · [] []) same).mpr served
  | build i b =>
    obtain ⟨-, ⟨-, -, same⟩ | ⟨m, x, w, unwritten, found, open_, -, gives, same⟩⟩ :=
      of_build (d := d) (p := p) (i := i) rfl (.inr whole)
    · exact (congrArg (Served P p _ d · [] []) same).mpr (.refl h)
    · obtain ⟨valid, info⟩ := h.built allows unwritten found open_ gives
      exact (congrArg (Served P p _ d · [] []) same).mpr ⟨valid, .single (.build unwritten found open_ gives), .put found info⟩
  | perform i s =>
    exact h.took (of_perform rfl (.inr whole)).2 fun unwritten found gives =>
      ⟨h.performed allows unwritten found gives, .perform unwritten found gives⟩
  | bytes =>
    cases run : d.bytes p with
    | mk r d' =>
      simp only [fieldsBy, methodsBy, Draft.call, replying, run] at whole ⊢
      obtain ⟨valid, moves, out, rfl, -, ⟨written, rfl⟩ | ⟨unwritten, complete⟩⟩ := h.writes allows run (.inr whole)
      · have added : d'.output.isNone = false := by simpa [Option.isSome_iff_ne_none] using written
        simp only [Except.map, added, Bool.false_and, Bool.false_eq_true, if_false]
        exact .refl h
      · refine ⟨valid, moves, ?_⟩
        simp only [Except.map, unwritten, Option.isNone_none, Bool.true_and]
        split_ifs with needed
        · obtain ⟨m, declared, info, methods⟩ := complete.more needed
          exact ⟨by rw [info], complete.options, by simp [complete.fields], by simp [methods, declared]⟩
        · obtain ⟨info, methods⟩ := complete.same (by simpa using needed)
          exact ⟨by rw [info], complete.options, by simp [complete.fields], by simp [methods]⟩

/-- The class after calls, each with the classes that are known then. -/
def after (d : Draft) (calls : List (Provider × Call)) : Draft := calls.foldl (fun d c => (d.call c.1 c.2).2) d

theorem after_append (d : Draft) (calls : List (Provider × Call)) (c : Provider × Call) :
    d.after (calls ++ [c]) = ((d.after calls).call c.1 c.2).2 := by simp [after]

theorem whole_before {c : Provider × Call}
    (whole : (d.after (calls ++ [c])).broken = none) : (d.after calls).broken = none := by
  rw [after_append] at whole
  exact whole_of_call whole

def Allowed (P : Nat → Policy) (d : Draft) (calls : List (Provider × Call)) : Prop :=
  ∀ before c rest, calls = before ++ c :: rest → (d.after before).broken = none → (d.after before).Allows P c.1 c.2

theorem Allowed.init {c : Provider × Call} (h : d.Allowed P (calls ++ [c])) :
    d.Allowed P calls := fun before c' rest same => h before c' (rest ++ [c]) (by simp [same])

theorem Valid.after (h : d.Valid P) (allowed : d.Allowed P calls)
    (whole : (d.after calls).broken = none) : (d.after calls).Valid P := by
  induction calls using List.reverseRecOn with
  | nil => exact h
  | append_singleton calls c ih =>
    have before := whole_before whole
    rw [after_append] at whole ⊢
    exact ((ih allowed.init before).served (allowed calls c [] rfl before) whole).valid

theorem interns_classes (names : List String) (sound : d.pool.Sound)
    (run : Yields (names.mapM fun name => Change.pool (Pool.classRef name)) d refs d') : d.pool.Le d'.pool ∧
      d'.pool.Sound ∧ List.Forall₂ (fun i name => d'.pool.className? i = some name) refs names ∧ d' = { d with pool := d'.pool } := by
  induction names generalizing d refs with
  | nil =>
    obtain ⟨rfl, rfl⟩ := pure_iff.mp run
    exact ⟨.refl _, sound, .nil, rfl⟩
  | cons name names ih =>
    simp only [List.mapM_cons, bind_iff, Change.yields_pool, pure_iff] at run
    obtain ⟨i, _, ⟨q, ran, rfl⟩, is, _, rest, rfl, rfl⟩ := run
    have interns := Pool.interns_classRef name
    obtain ⟨grown, found⟩ := interns.finds ran sound
    obtain ⟨le, sound, others, same⟩ := ih grown rest
    exact ⟨(interns.grows ran).trans le, sound, .cons (le.className? found) others, same⟩

theorem of_connect (sound : d.pool.Sound) (run : Yields (connect p) d y d') : ∃ pool thisRef superRef interfaceRefs,
    pool.Sound ∧ pool.className? thisRef = some d.info.name ∧ pool.className? superRef = some d.info.super ∧
    List.Forall₂ (fun i name => pool.className? i = some name) interfaceRefs d.info.interfaces ∧
    d' = { d with pool, thisRef, superRef, interfaceRefs } := by
  simp only [connect, bind_iff, get_iff, Change.yields_ofHierarchy, looked] at run
  obtain ⟨_, _, ⟨-, rfl⟩, run⟩ := run
  rw [refuse_iff, bind_iff] at run
  obtain ⟨-, _, _, checked, run⟩ := run
  obtain ⟨rfl, -⟩ := Change.of_checks (G := fun _ => True) (by
    intro x d d' r run
    simp only [bind_iff, Change.yields_ofHierarchy, refuse_iff, pure_iff] at run
    obtain ⟨_, _, ⟨-, rfl⟩, -, rfl, rfl⟩ := run
    exact ⟨rfl, rfl, trivial⟩) checked
  simp only [bind_iff, Change.yields_pool, modify_iff] at run
  obtain ⟨this, _, ⟨q1, ran1, rfl⟩, super, _, ⟨q2, ran2, rfl⟩, refs, d3, others, rfl⟩ := run
  obtain ⟨sound1, found1⟩ := (Pool.interns_classRef _).finds ran1 sound
  obtain ⟨sound2, found2⟩ := (Pool.interns_classRef _).finds ran2 sound1
  have le2 := (Pool.interns_classRef d.info.super).grows ran2
  obtain ⟨le3, sound3, found3, same⟩ := interns_classes _ sound2 others
  refine ⟨d3.pool, this, super, refs, sound3, le3.className? (le2.className? found1), le3.className? found2, found3, ?_⟩
  rw [same]

theorem whole_of_bytes (run : d.bytes p = (r, d')) (fine : Fine r d') : d'.broken = none := by
  obtain ⟨whole, _, -, -, ⟨-, rfl⟩ | ⟨unwritten, -, d1, _, _, _, added, -, -, -, rfl⟩⟩ := of_bytes run fine
  · exact whole
  · obtain ⟨-, ⟨-, rfl⟩ | ⟨-, _, _, _, _, -, -, -, rfl⟩⟩ := of_addMissingStaticInit added fine_ok unwritten <;> exact whole

def classAccess (access : Access) : Access :=
  if access.isInterface then (access ||| .abstractBit).without .superBit else access ||| .superBit

theorem of_start (made : start access name super interfaces options tracer = .ok d) : d =
      { info := ⟨Text.slashed name, if super = "" then rootName else Text.slashed super, interfaces.map Text.slashed,
          classAccess access, #[], #[]⟩
        options := options.complete (Text.slashed name)
        trail := Trail.record { recorder := tracer.recorder } (.classOpened (Text.slashed name) tracer.parent) } := by
  unfold start at made
  simp only [bind, Except.bind, pure, Except.pure, throw, throwThe, MonadExceptOf.throw] at made
  repeat' split at made
  all_goals cases made
  all_goals simp_all [classAccess]

theorem of_create (made : create p access name super interfaces options tracer = (.ok d, recorder)) :
    d.info = ⟨Text.slashed name, if super = "" then rootName else Text.slashed super, interfaces.map Text.slashed,
      classAccess access, #[], #[]⟩ ∧ d.options = options.complete (Text.slashed name) ∧ d.fields = #[] ∧
    d.methods = #[] ∧ d.annotations = #[] ∧ d.broken = none ∧ d.output = none ∧ d.pool.Sound ∧
    d.pool.className? d.thisRef = some d.info.name ∧ d.pool.className? d.superRef = some d.info.super ∧
    List.Forall₂ (fun i name => d.pool.className? i = some name) d.interfaceRefs d.info.interfaces := by
  unfold create at made
  split at made
  · cases made
  rename_i d1 started
  split at made
  · rename_i y d2 connected
    cases made
    obtain rfl := of_start started
    obtain ⟨_, -, connects⟩ := of_attempt connected fine_ok
    obtain ⟨pool, thisRef, superRef, interfaceRefs, sound, this, super, interfaces, rfl⟩ :=
      of_connect Pool.sound_empty connects
    exact ⟨rfl, rfl, rfl, rfl, rfl, rfl, rfl, sound, this, super, interfaces⟩
  · cases made

theorem Valid.of_create (kept : ∀ i, (P i).kept = .empty) (declared : ∀ i m, (P i).declared m)
    (boxing : ∀ i op r, Boxing op r → (P i).named op r) (made : create p access name super interfaces options tracer = (.ok d, recorder)) : d.Valid P := by
  obtain ⟨info, -, fields, methods, -, -, output, sound, this, super, interfaces⟩ := Draft.of_create made
  refine ⟨sound, fun i => ?_, declared, boxing, this, super, interfaces, by simp [fields], by simp [fields], by simp [methods],
    fun i _ => ⟨⟨by simp [info], by simp [info]⟩, by simp [fields]⟩, output_of_none output⟩
  rw [kept i]
  intro index c found
  simp [Pool.get?, Pool.empty] at found

def lax (_ : Nat) : Policy := ⟨False, False, fun _ _ => True, fun _ => True, .empty, fun _ => True⟩

theorem allows_lax (d : Draft) (p : Provider) (c : Call) : d.Allows lax p c := by
  cases c with
  | addField | addMethod | addConstructor => rintro _ ⟨⟩
  | build => exact ⟨by rintro ⟨⟩, fun _ _ _ _ _ => trivial⟩
  | perform => exact ⟨by rintro ⟨⟩, fun _ _ => ⟨by rintro ⟨⟩, by rintro ⟨⟩, fun _ _ _ => trivial, fun _ _ => trivial,
    fun _ _ _ _ => trivial⟩⟩
  | bytes => exact ⟨by rintro ⟨⟩, fun _ _ _ _ _ _ => trivial⟩
  | initField | addStaticInit | throws | annotateClass | annotateField | annotateMethod | setLine => trivial

/-- A statement keeps the entries and the declaration, and only the end of its body finishes a method. -/
theorem Valid.requested (h : d.Valid lax) (found : d.methods[i]? = some m)
    (gives : Gives (d.context p) (requested s) (d.workOn m) x w) : d.pool.Le w.pool ∧
    m.declaration.Keeps w.method.declaration ∧ (w.method.finished = true → s = .close ∧ m.top.scope = .body) := by
  obtain settled | ⟨last, body, ended⟩ := h.request (d.allows_lax p (.perform i s)) found gives
  · exact ⟨settled.sound.kept, settled.sound.declared, fun done => by simp [settled.sound.live.2] at done⟩
  · exact ⟨ended.kept, ended.declared, fun _ => ⟨last, body⟩⟩

theorem allowed_lax (d : Draft) (calls : List (Provider × Call)) : d.Allowed lax calls :=
  fun _ _ _ _ _ => allows_lax _ _ _

theorem valid_create (made : create p access name super interfaces options tracer = (.ok d, recorder)) : d.Valid lax :=
  .of_create (fun _ => rfl) (fun _ _ => trivial) (fun _ _ _ _ => trivial) made

theorem Valid.lax_after (h : d.Valid lax) (whole : (d.after calls).broken = none) : (d.after calls).Valid lax :=
  h.after (d.allowed_lax calls) whole

end Draft

namespace Workspace

variable {w : Workspace} {d : Draft} {i : Nat} {c : Call}

/-- A call on a class goes to the class with the recorder that all share. -/
theorem call_eq (there : w.drafts[i]? = some d) (isFor : c.isFor d = true) :
    w.call i c = match (d.recording w.recorder).call w.provider c with
      | (r, d') => (some r, { w with
          published := if memberCount d' > memberCount d then w.published.map (·.add d'.info) else w.published
          drafts := w.drafts.setIfInBounds i (d'.recording {})
          recorder := d'.trail.recorder }) := by
  obtain ⟨lt, rfl⟩ := Array.getElem?_eq_some_iff.mp there
  obtain ⟨base, published, drafts, recorder, span⟩ := w
  have again (d : Draft) : (drafts.set i default lt).setIfInBounds i d = drafts.setIfInBounds i d := by
    simp [Array.setIfInBounds, lt]
  unfold call
  simp only [lt, takeOut, Array.swapAt_def, isFor, dite_true, if_true, again]
  rfl

theorem call_none (absent : ∀ d, w.drafts[i]? = some d → c.isFor d = false) : w.call i c = (none, w) := by
  obtain ⟨base, published, drafts, recorder, span⟩ := w
  unfold call
  by_cases lt : i < drafts.size
  · have refused := absent _ (Array.getElem?_eq_getElem lt)
    simp only [lt, takeOut, Array.swapAt_def, refused, dite_true]
    simp [Array.setIfInBounds, lt]
  · simp [lt]

end Workspace

end ClassForge.Assembler

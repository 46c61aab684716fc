import ClassForge.Assembler.Draft
import ClassForge.Proofs.Finishing

/-! Methods from their declaration to their end: every request leaves a method settled or ends it. -/

namespace ClassForge.Assembler

open List Statement

def Statement.trusted : Statement → List Operand
  | .assign _ v | .evaluate v | .setStatic _ _ v | .leave v | .raise v | .ifOpen v | .whileOpen v | .forEach _ _ v => [v]
  | .setField o _ v => [o, v]
  | .setIndex a i v => [a, i, v]
  | .superCall args => args
  | _ => []

def Statement.Timely (m : Method) (s : Statement) : Prop := ∀ o ∈ s.trusted, o.Timely m

def Statement.Proper (name : String) : Statement → Prop
  | .declare t _ | .forEach t _ _ => (t.resolve name).NoVoidArray
  | _ => True

section

variable {P : Policy} {ctx : Context}

namespace Step

variable {s : Statement} {a : Step Unit}

theorem of_entered (run : Gives ctx entered w y w') :
    w = w' ∧ w.method.bodiless = false ∧ w.method.finished = false := by
  simp only [entered, gives_bind, gives_method, looked] at run
  by_cases bodiless : w.method.bodiless = true
  · simp [bodiless] at run
  by_cases finished : w.method.finished = true
  · simp [bodiless, finished] at run
  simp only [Bool.not_eq_true] at bodiless finished
  simp only [bodiless, finished, Bool.false_eq_true, if_false, gives_pure] at run
  exact ⟨run.2, bodiless, finished⟩

theorem of_reachable (run : Gives ctx reachable w y w') : w = w' ∧ w.method.top.closed = false := by
  simp only [reachable, gives_bind, gives_top, looked] at run
  by_cases closed : w.method.top.closed = true
  · simp [closed] at run
  · simp only [closed, Bool.false_eq_true, if_false, gives_pure] at run
    exact ⟨run.2, Bool.not_eq_true _ ▸ closed⟩

theorem settled_build {b : Build} (h : Settled P ctx w) (proper : P.typed → b.Proper ctx.name)
    (named : ∀ op r, b.Names ctx w.method op r → P.named op r) (run : Gives ctx (build b) w x w') : Settled P ctx w' :=
  h.calm (keeps_build b proper named h.sound run).calm

theorem settled_afterEnd (ends : ∀ v, Gives ctx a w () v → Settled P ctx v)
    (run : Gives ctx (do checkDangling first; a; render (← method).depth "\x7d") w y w') : Settled P ctx w' := by
  simp only [gives_bind, gives_method, looked] at run
  obtain ⟨_, _, dangling, _, v, ended, render⟩ := run
  cases of_checkDangling dangling
  have settled := ends v ended
  exact settled.calm (Calm.render settled.sound render)

theorem closeBody_spec (h : Settled P ctx w) (body : w.method.top.scope = .body)
    (named : ∀ op r, Statement.close.Names ctx w.method op r → P.named op r) (run : Gives ctx closeInnermost w y w') :
    Ended P w' := by
  simp only [closeInnermost, gives_bind, gives_top, looked] at run
  rw [body] at run
  exact ended_finish h body named run

theorem closeInnermost_spec (h : Settled P ctx w)
    (named : ∀ op r, Statement.close.Names ctx w.method op r → P.named op r) (run : Gives ctx closeInnermost w y w') :
    Settled P ctx w' ∨ w.method.top.scope = .body ∧ Ended P w' := by
  by_cases body : w.method.top.scope = .body
  · exact .inr ⟨body, closeBody_spec h body named run⟩
  simp only [closeInnermost, gives_bind, gives_top] at run
  obtain ⟨_, _, ⟨rfl, rfl⟩, run⟩ := run
  cases scope : w.method.top.scope with
  | body => exact absurd scope body
  | branch arm exits =>
    simp only [scope] at run
    exact .inl (settled_afterEnd (fun _ => settled_endBranch h scope) run)
  | loop kind start breaks left =>
    simp only [scope] at run
    exact .inl (settled_afterEnd (fun _ => settled_endLoop h scope) run)
  | guarded start stop exits caught =>
    simp only [scope] at run
    exact .inl (settled_afterEnd (fun _ => settled_endGuarded h scope) run)

theorem gives_plainly : Gives ctx (plainly a) w x w' ↔ Gives ctx a w () w' ∧ none = x := by
  simp only [plainly, gives_bind, gives_pure]
  constructor
  · rintro ⟨_, _, run, rfl, rfl⟩
    exact ⟨run, rfl⟩
  · rintro ⟨run, rfl⟩
    exact ⟨(), w', run, rfl, rfl⟩

structure Grants (P : Policy) (ctx : Context) (m : Method) (s : Statement) : Prop where
  proper : P.typed → s.Proper ctx.name
  timely : P.strict → s.Timely m
  named : ∀ op r, s.Names ctx m op r → P.named op r
  caught : ∀ name, s.Catches ctx.name name → P.caught name
  calls : ∀ args, s = .superCall args → ∀ m, P.declared m → P.declared { m with superCalled := true }

theorem perform_spec (h : Settled P ctx w) (grants : Grants P ctx w.method s)
    (opened : s.afterLeaving = false → w.method.top.closed = false) (run : Gives ctx (perform s) w x w') :
    Settled P ctx w' ∨ s = .close ∧ w.method.top.scope = .body ∧ Ended P w' := by
  obtain ⟨proper, timely, named, caught, calls⟩ := grants
  cases s with
  | declare t name =>
    obtain ⟨id, run, -⟩ := gives_map.mp run
    exact .inl (settled_declare h proper run)
  | assign l v =>
    exact .inl (settled_assignLocal h (opened rfl) (timely · v mem_cons_self) (gives_plainly.mp run).1)
  | increment l d => exact .inl (settled_increment h (opened rfl) (gives_plainly.mp run).1)
  | evaluate e =>
    exact .inl (settled_evaluate h (opened rfl) (timely · e mem_cons_self) (gives_plainly.mp run).1)
  | setField o name v =>
    exact .inl (settled_setField h (opened rfl) (fun strict => ⟨timely strict o (by simp [trusted]),
      timely strict v (by simp [trusted])⟩) named (gives_plainly.mp run).1)
  | setStatic owner name v =>
    exact .inl (settled_setStatic h (opened rfl) (timely · v mem_cons_self) named (gives_plainly.mp run).1)
  | setIndex a i v =>
    exact .inl (settled_setIndex h (opened rfl) (fun strict => ⟨timely strict a (by simp [trusted]),
      timely strict i (by simp [trusted]), timely strict v (by simp [trusted])⟩) (gives_plainly.mp run).1)
  | leave v =>
    exact .inl (settled_leave h (opened rfl) (timely · v mem_cons_self) (gives_plainly.mp run).1)
  | raise e =>
    exact .inl (settled_raise h (opened rfl) (timely · e mem_cons_self) (gives_plainly.mp run).1)
  | superCall args =>
    exact .inl (settled_superCall h (opened rfl) timely named (calls args rfl) (gives_plainly.mp run).1)
  | ifOpen c =>
    exact .inl (settled_ifOpen h (opened rfl) (timely · c mem_cons_self) (gives_plainly.mp run).1)
  | elseIf c => exact .inl (settled_elseIf h (gives_plainly.mp run).1)
  | elseOpen => exact .inl (settled_elseOpen h (gives_plainly.mp run).1)
  | whileOpen c =>
    exact .inl (settled_whileOpen h (opened rfl) (timely · c mem_cons_self) (gives_plainly.mp run).1)
  | forEach t name e =>
    obtain ⟨id, run, -⟩ := gives_map.mp run
    exact .inl (settled_forEach h (opened rfl) (timely · e mem_cons_self) proper named run)
  | breakLoop => exact .inl (settled_breakLoop h (opened rfl) (gives_plainly.mp run).1)
  | continueLoop => exact .inl (settled_continueLoop h (opened rfl) (gives_plainly.mp run).1)
  | tryOpen => exact .inl (settled_tryOpen h (opened rfl) (gives_plainly.mp run).1)
  | catchOpen t name =>
    obtain ⟨id, run, -⟩ := gives_map.mp run
    exact .inl (settled_catchOpen h (caught _ .intro) run)
  | close =>
    exact (closeInnermost_spec h named (gives_plainly.mp run).1).imp_right fun ended => ⟨rfl, ended⟩

def requested (s : Statement) : Step (Option Nat) := do
  entered
  if !s.afterLeaving then reachable
  perform s

theorem of_requested (run : Gives ctx (requested s) w x w') : w.method.bodiless = false ∧ w.method.finished = false ∧
    (s.afterLeaving = false → w.method.top.closed = false) ∧ Gives ctx (perform s) w x w' := by
  obtain ⟨_, _, enter, run⟩ := gives_bind.mp run
  obtain ⟨rfl, bodied, opened⟩ := of_entered enter
  refine ⟨bodied, opened, ?_⟩
  split at run
  · obtain ⟨_, _, reach, run⟩ := gives_bind.mp run
    obtain ⟨rfl, reached⟩ := of_reachable reach
    exact ⟨fun _ => reached, run⟩
  · rename_i leaves
    exact ⟨fun stays => absurd (by simp [stays]) leaves, run⟩

theorem requested_spec (h : w.method.finished = false → Settled P ctx w)
    (grants : Grants P ctx w.method s) (run : Gives ctx (requested s) w x w') :
    Settled P ctx w' ∨ s = .close ∧ w.method.top.scope = .body ∧ Ended P w' := by
  obtain ⟨-, open_, reached, run⟩ := of_requested run
  exact perform_spec (h open_) grants reached run

theorem requested_close_spec (h : w.method.finished = false → Settled P ctx w)
    (body : w.method.top.scope = .body) (named : ∀ op r, Statement.close.Names ctx w.method op r → P.named op r)
    (run : Gives ctx (requested .close) w x w') : Ended P w' := by
  obtain ⟨-, open_, -, run⟩ := of_requested run
  exact closeBody_spec (h open_) body named (gives_plainly.mp run).1

end Step

end

namespace Method

variable {m : Method}

theorem of_addParams {place : String} {params : List (String × JType)}
    (run : params.foldlM (fun m (name, type) =>
      if fits m limit type then Except.ok (m.addLocal type name true false)
      else .error (overLimit m limit type name, place)) m = .ok m') :
    m' = { m with locals := m'.locals, nextSlot := m'.nextSlot } ∧ (∀ l ∈ m.locals, l ∈ m'.locals) ∧
      (∀ l ∈ m'.locals, l ∈ m.locals ∨ l.param = true ∧ l.start = m.code.pos ∧ l.type ∈ params.map (·.2)) ∧
      ((∀ l ∈ m.locals, l.slot + l.type.slots ≤ m.nextSlot) → ∀ l ∈ m'.locals, l.slot + l.type.slots ≤ m'.nextSlot) := by
  induction params generalizing m with
  | nil =>
    cases run
    exact ⟨rfl, fun _ => id, fun _ => .inl, id⟩
  | cons p params ih =>
    obtain ⟨name, type⟩ := p
    rw [foldlM_cons] at run
    dsimp only at run
    by_cases room : fits m limit type = true
    · rw [if_pos room] at run
      obtain ⟨same, kept, new, below⟩ := ih run
      refine ⟨by rw [same]; rfl, fun l hl => kept l (Array.mem_push.mpr (.inl hl)), fun l hl => ?_, fun before =>
        below (forall_push (fun l hl => ?_) (Nat.le_refl _))⟩
      · rcases new l hl with old | ⟨param, start, typed⟩
        · rcases Array.mem_push.mp old with older | rfl
          · exact .inl older
          · exact .inr ⟨rfl, rfl, mem_cons_self⟩
        · exact .inr ⟨param, start, mem_cons_of_mem _ typed⟩
      · exact Nat.le_trans (before l hl) (Nat.le_add_right _ _)
    · rw [if_neg room] at run
      cases run

structure Fresh (types : List JType) (m : Method) : Prop where
  bodiless : m.bodiless = (m.info.isAbstract || m.info.access.isNative)
  finished : m.finished = m.bodiless
  nothing : m.code = .empty ∧ m.nodes = #[] ∧ m.handlers = #[] ∧ m.throws = #[] ∧ m.lines = #[]
  frames : m.bodiless = false →
    m.frames = [⟨.body, .below m.locals.size, .below m.locals.size, none, false, 0⟩]
  params : ∀ l ∈ m.locals, l.param = true ∧ l.start = 0 ∧ l.type ∈ types
  below : ∀ l ∈ m.locals, l.slot + l.type.slots ≤ m.nextSlot
  receiver : m.info.isStatic = false → ∃ l ∈ m.locals, l.slot = 0 ∧ l.type.kind = .reference
  untouched : m.annotations = #[] ∧ m.superCalled = false ∧ m.statements = 0

theorem fresh_create {number : Nat} {info : MethodInfo} {names : List String} (made : create number className limit info names = .ok m) :
    m.info = info ∧ m.number = number ∧ m.Fresh (.ofClass className :: info.params) := by
  simp only [create, bind, Except.bind] at made
  split at made
  · cases made
  rename_i m' added
  obtain ⟨same, kept, new, room⟩ := of_addParams added
  have below := room (by simp)
  have params : ∀ l ∈ m'.locals, l.param = true ∧ l.start = 0 ∧ l.type ∈ JType.ofClass className :: info.params := by
    intro l hl
    rcases new l hl with none | ⟨param, start, type⟩
    · simp at none
    · refine ⟨param, start, ?_⟩
      rw [map_append, mem_append] at type
      rcases type with receiver | given
      · split at receiver
        · simp at receiver
        · exact mem_cons.mpr (.inl (by simpa using receiver))
      · obtain ⟨x, hx, type⟩ := mem_map.mp given
        exact type ▸ mem_cons_of_mem _ (of_mem_zip hx).2
  have receiver : info.isStatic = false → ∃ l ∈ m'.locals, l.slot = 0 ∧ l.type.kind = .reference := by
    intro instance_
    rw [if_neg (by simp [instance_]), singleton_append, foldlM_cons] at added
    split at added
    · obtain ⟨-, kept, -⟩ := of_addParams added
      exact ⟨_, kept _ (Array.mem_push.mpr (.inr rfl)), rfl, JType.kind_ofClass _⟩
    · cases added
  have declared : m'.info = info ∧ m'.number = number := by
    rw [same]
    exact ⟨rfl, rfl⟩
  obtain ⟨rfl, rfl⟩ := declared
  have bodiless : m'.bodiless = (m'.info.isAbstract || m'.info.access.isNative) := by
    rw [same]
  have nothing : m'.code = .empty ∧ m'.nodes = #[] ∧ m'.handlers = #[] ∧ m'.throws = #[] ∧ m'.lines = #[] := by
    rw [same]
    exact ⟨rfl, rfl, rfl, rfl, rfl⟩
  have untouched : m'.annotations = #[] ∧ m'.superCalled = false ∧ m'.statements = 0 := by
    rw [same]
    exact ⟨rfl, rfl, rfl⟩
  have open_ : m'.finished = false := by rw [same]
  split_ifs at made with closed
  · cases made
    exact ⟨rfl, rfl, bodiless, closed.symm, nothing, fun opened => by simp [closed] at opened, params, below, receiver, untouched⟩
  · cases made
    rw [Bool.not_eq_true] at closed
    exact ⟨rfl, rfl, bodiless, open_.trans closed.symm, nothing, fun _ => rfl, params, below, receiver, untouched⟩

end Method

section

variable {P : Policy} {ctx : Context}

theorem Settled.of_fresh (fresh : w.method.Fresh types) (body : w.method.bodiless = false)
    (constructor : w.method.info.isConstructor = true → w.method.info.isStatic = false) (pool : w.pool.Sound)
    (kept : P.kept.Le w.pool) (declared : P.declared w.method.declaration) (fields : ∀ f ∈ ctx.fields, f.Linked w.pool) (boxing : ∀ op r, Boxing op r → P.named op r)
    (classes : P.typed → ctx.lookup.WellFormed ∧ ∀ f ∈ ctx.fields, f.Proper)
    (values : ∀ t ∈ types, 0 < t.slots) (proper : P.typed → ∀ t ∈ types, t.kind ≠ .void ∧ t.NoVoidArray) :
    Settled P ctx w := by
  obtain ⟨code, nodes, handlers, -, lines⟩ := fresh.nothing
  have frames := fresh.frames body
  have top : w.method.top = ⟨.body, .below w.method.locals.size, .below w.method.locals.size, none, false, 0⟩ := by
    rw [Method.top, frames]
    rfl
  have known : slotsOf w.method.locals (.below w.method.locals.size) = w.method.given := by
    ext slot
    constructor
    · rintro ⟨id, l, found, -, rfl⟩
      have mem := Array.mem_of_getElem? found
      exact ⟨l, mem, (fresh.params l mem).1, rfl⟩
    · rintro ⟨l, mem, -, rfl⟩
      obtain ⟨id, lt, rfl⟩ := Array.mem_iff_getElem.mp mem
      exact ⟨id, _, Array.getElem?_eq_getElem lt, by simpa using lt, rfl⟩
  refine ⟨?_, [], [], [], ?_⟩
  · refine ⟨by simp [nodes], ⟨body, by rw [fresh.finished, body]⟩, fun instance_ => ?_, constructor, pool, kept, declared, fields, boxing,
      ⟨?_, fun l hl other => by simp [(fresh.params l hl).1] at other⟩, fun typed => ⟨(classes typed).1, (classes typed).2, fun l hl => proper typed _ (fresh.params l hl).2.2⟩⟩
    · obtain ⟨l, mem, held⟩ := fresh.receiver instance_
      exact ⟨⟨l, mem, (fresh.params l mem).1, held.1⟩, l, mem, held⟩
    · rintro _ ⟨l, mem, -, rfl⟩
      have room := fresh.below l mem
      have value := values _ (fresh.params l mem).2.2
      omega
  have here : w.method.standing = some (w.rules P).entry := by
    rw [Method.standing, top]
    exact congrArg some (congrArg (State.mk []) known)
  rw [here]
  refine ⟨?_, by rw [code]; rfl, .nil, ?_,
    ⟨by simp [handlers], by simp [lines], fun l hl => by simp [fresh.params l hl]⟩, by simp, fun d hd => ?_⟩
  · rw [code, frames]
    exact .empty _
  · rw [frames]
    refine ⟨rfl, rfl, fun s hs => ?_, known.ge⟩
    simp only [Frame.sets, Option.toList_none, nil_append, mem_cons, Scope.left, not_mem_nil,
      or_false] at hs
    subst hs
    refine ⟨.refl _, fun id hi => ?_⟩
    rw [LocalSet.contains_below, decide_eq_true_eq] at hi
    exact hi
  · cases hd
    rw [Method.floor, top]
    exact known.le

/-! What surrounds a method changes. -/

/-- What the soundness of a method depends on of its class. -/
structure Context.Suits (P : Policy) (ctx : Context) (p : Pool) : Prop where
  fields : ∀ f ∈ ctx.fields, f.Linked p
  typed : P.typed → ctx.lookup.WellFormed ∧ ∀ f ∈ ctx.fields, f.Proper

/-- Other methods add entries, members are declared, and the method gets exceptions and annotations. -/
theorem Settled.elsewhere (h : Settled P ctx w) (le : w.pool.Le p) (sound : p.Sound)
    (suits : ctx'.Suits P p) (declared : P.declared { w.method with throws, annotations }.declaration) :
    Settled P ctx' ⟨{ w.method with throws, annotations }, p, line, trail⟩ := by
  have later : w.Le ⟨{ w.method with throws, annotations }, p, line, trail⟩ :=
    .of_locals le (Nat.le_refl _) rfl rfl
  refine ⟨?_, h.laid.later later rfl rfl rfl (fun _ => .inl) fun _ => .inl⟩
  exact
    { nodes := fun n hn => later.fine (h.sound.nodes n hn)
      live := h.sound.live
      receiver := h.sound.receiver
      constructor := h.sound.constructor
      pool := sound
      kept := h.sound.kept.trans le
      declared
      fields := suits.fields
      boxing := h.sound.boxing
      apart := later.apart h.sound.apart
      typed := fun typed => ⟨(suits.typed typed).1, (suits.typed typed).2, (h.sound.typed typed).locals⟩ }

theorem Settled.rebase (h : Settled P ctx w) (le : p.Le w.pool)
    (holds : declared w.method.declaration) : Settled { P with kept := p, declared } ctx w := by
  obtain ⟨spots, own, below, cert, split, carries, nested, tables, marked, above⟩ := h.laid
  refine ⟨?_, spots, own, below, cert, split, carries, nested, tables, marked, above⟩
  exact
    { h.sound with
      nodes := fun n hn => ⟨(h.sound.nodes n hn).good, (h.sound.nodes n hn).reads, (h.sound.nodes n hn).type⟩
      kept := le
      declared := holds }

theorem Settled.suits (h : Settled P ctx w) : ctx.Suits P w.pool :=
  ⟨h.sound.fields, fun typed => ⟨(h.sound.typed typed).classes, (h.sound.typed typed).fields⟩⟩

end

end ClassForge.Assembler

import ClassForge.Proofs.Closing

/-! Handlers: the protected range ends, and the handler starts with what holds all through it. -/

namespace ClassForge.Assembler

open Frame

section

variable {here : Option State} {start : Nat} {stop : Option Nat} {exits : List Nat} {caught : List JType}

theorem Frame.merge_closed (f : Frame) : f.merge.closed = f.closed := by
  unfold merge
  split <;> rfl

theorem Frame.rearm_merge (f : Frame) (s t : Scope) : { f with scope := s }.merge.rearm t = f.merge.rearm t := by
  unfold merge
  cases f.closed <;> rfl

theorem Frame.Holds.rearm {f : Frame} (holds : f.Holds L own) (scope : f.scope = .guarded start (some e) exits caught)
    (more : ∀ s ∈ exits', s ∈ exits ∨ ∃ m, f.merge.merged = some m ∧ L.Brings s m) :
    (f.merge.rearm (.guarded start (some e) exits' caught')).Holds L own := by
  simp only [Holds, scope] at holds
  obtain ⟨none, protects, leave⟩ := holds
  refine ⟨none, ?_, fun s hs => ?_⟩
  · rw [Frame.rearm, Frame.merge_inherited]
    exact protects
  · rcases more s hs with old | new
    · exact Frame.brings_merge leave s old
    · exact new

namespace Laid

theorem settle (h : Laid P w [] [] none) (above : w.method.floor ⊆ e.known) : Laid P w [] [] (some e) := by
  have laid : Laid P (w.withCode w.method.code) [] [] (some e) :=
    h.emit (fun _ _ _ _ seg => seg.settle (by rintro _ ⟨⟩)) fun d hd => by cases hd; exact above
  exact laid

theorem protects (h : Laid P w [] [] here) (scope : w.method.top.scope = .guarded start stop exits caught) :
    ∃ spots, Protects (w.layout P spots here) w.method.top.inherited start stop := by
  obtain ⟨spots, g, rest, own, below, inside, holds⟩ := h.inside scope (by rintro ⟨⟩)
  exact ⟨spots, holds.2.1⟩

theorem endRange (h : Laid P w [] [] here) (scope : w.method.top.scope = .guarded start stop exits caught)
    (range : start < stop.getD w.method.code.pos) :
    Laid P (w.withFrames ({ w.method.top with
      scope := .guarded start (some (stop.getD w.method.code.pos)) exits caught } :: w.method.frames.tail)) [] [] here := by
  obtain ⟨spots, g, rest, own, below, inside, rfl, protects, leave⟩ := h.inside scope (by rintro ⟨⟩)
  have tail : w.method.frames.tail = g :: rest := by rw [inside.frames]; rfl
  rw [tail]
  have fits := inside.fits.sets
  simp only [sets, scope] at fits
  have ended : Protects (w.layout P spots here) w.method.top.inherited start
      (some (stop.getD w.method.code.pos)) := by
    refine { protects with stops := fun e he => ?_ }
    obtain rfl := Option.some.inj he
    refine ⟨range, ?_⟩
    cases stop with
    | none => exact ⟨Nat.le_refl _, .inl rfl⟩
    | some e => exact (protects.stops e rfl).2
  refine inside.rearm (inside.segment [] (by rfl) .nil) (by rintro ⟨⟩) ?_ rfl fits (fun spots' top grown carries => ?_) inside.plan.above
  · rw [loose, scope]
    exact fun s hs => hs
  · cases carries
    refine ⟨rfl, ended.later grown inside.fits.below fun _ hs => hs, fun s hs => ?_⟩
    obtain ⟨m, merged, brought⟩ := leave s hs
    exact ⟨m, merged, brought.later grown (inside.fits.sets m (mem_sets_merged merged)).2⟩

theorem leave (h : Laid P w [] [] none) (caught' : List JType)
    (scope : w.method.top.scope = .guarded start (some e) exits caught) :
    Laid P (w.withFrames (w.method.top.merge.rearm (.guarded start (some e) exits caught') :: w.method.frames.tail))
      [] [] none := by
  obtain ⟨spots, g, rest, own, below, inside, -⟩ := h.inside scope (by rintro ⟨⟩)
  have tail : w.method.frames.tail = g :: rest := by rw [inside.frames]; rfl
  rw [tail]
  refine inside.rearm (inside.segment own (by rfl) .nil) (by rintro ⟨⟩) ?_ (merge_inherited _) (inside.fits.rearm rfl).sets
    (fun spots' top grown carries => ?_) (by rintro _ ⟨⟩)
  · rw [loose, scope]
    exact fun s hs => hs
  · cases carries
    exact (inside.holds.later inside.fits grown fun _ hs => hs).rearm scope fun s hs => .inl hs

theorem exit (h : Laid P w [] [] (some ⟨[], w.known⟩)) (caught' : List JType)
    (scope : w.method.top.scope = .guarded start (some e) exits caught) (opened : w.method.top.closed = false)
    (run : Yields (Code.jump .goto) w.method.code site c) :
    Laid P ((w.withCode c).withFrames
      (w.method.top.merge.rearm (.guarded start (some e) (exits ++ [site]) caught') :: w.method.frames.tail)) [] [] none := by
  have frames := h.frames
  have merged : w.method.top.merge.merged = some (w.method.top.assigned.meet w.method.top.merged) := by
    rw [merge_merged, opened]
    rfl
  refine h.jump _ run (fun L sites locals nested brings => ?_) ?_
  · rw [frames] at nested
    cases tail : w.method.frames.tail with
    | nil =>
      rw [tail] at nested
      rw [nested.1] at scope
      cases scope
    | cons g rest =>
      rw [tail] at nested
      obtain ⟨-, fits, inherited, opened, own, below, split, holds, outer⟩ := nested
      refine ⟨by rintro ⟨⟩, fits.rearm rfl, (merge_inherited _).trans inherited, opened, own, below, split,
        holds.rearm scope fun s hs => ?_, outer⟩
      rcases List.mem_append.mp hs with old | new
      · exact .inl old
      · rw [List.mem_singleton.mp new]
        exact .inr ⟨_, merged, brings.weaken (LocalSet.meet_sub _ _)⟩
  · rw [frames]
    simp only [List.map_cons, List.flatMap_cons, List.tail_cons, scope, Scope.loose, rearm,
      List.append_assoc, List.singleton_append]
    exact List.perm_middle.symm

end Laid

theorem Stands.guard (h : Stands P ctx w [] [] (some d))
    (scope : w.method.top.scope = .guarded start (some e) exits caught) (stack : P.typed → d.stack = [.reference])
    (known : d.known = w.method.floor) (catches : ∃ name, w.pool.reference? r = some (.type name) ∧ P.caught name) :
    Stands P ctx { w with method := { w.method with
      handlers := w.method.handlers.push ⟨start, e, w.method.code.pos, r⟩ } } [] [] (some d) := by
  obtain ⟨spots, g, rest, own, below, inside, -, protects, -⟩ := h.laid.inside scope (by rintro ⟨⟩)
  refine ⟨h.sound.reshape, spots, [], own ++ below,
    { inside.plan with tables := ⟨?_, inside.plan.tables.lines, inside.plan.tables.locals⟩ }⟩
  obtain ⟨range, within, ends⟩ := protects.stops e rfl
  refine forall_push inside.plan.tables.guards
    ⟨range, within, protects.starts, ends, ⟨d, .inr ⟨rfl, rfl⟩, stack, fun x hx behind _ => ?_⟩, catches⟩
  rw [known]
  exact protects.knows x hx behind

namespace Step

variable {t : JType} {id : Nat} {name : String}

def openHandler (f : Frame) (start stop : Nat) (exits : List Nat) (caught : List JType) (t : JType) (name : String) :
    Step Nat := do
  let ref ← pool (Pool.classRef t.internalName)
  setTop (f.rearm (.guarded start (some stop) exits (caught ++ [t])))
  let id ← allocate t name false
  let target ← pos
  update fun m => { m with handlers := m.handlers.push ⟨start, stop, target, ref⟩ }
  mark "catch" ((← method).depth - 1) ("\x7d catch (" ++ t.spelling ++ " " ++ name ++ ") \x7b")
  reserve 1
  code (Code.store t (← localAt id).slot)
  let here ← pos
  update fun m => { m with locals := m.locals.modify id fun l => { l with start := here } }
  assign id
  pure id

theorem settled_openHandler (sound : Sound P ctx w)
    (laid : Laid P (w.withFrames (f.rearm (.guarded start (some e) exits (caught ++ [t])) :: w.method.frames.tail)) [] [] none)
    (ref : t.isReference = true) (proper : P.typed → (t.resolve ctx.name).NoVoidArray) (catches : P.caught t.internalName)
    (run : Gives ctx (openHandler f start e exits caught t name) w id w') : Settled P ctx w' := by
  simp only [openHandler, gives_bind, gives_setTop, gives_pos, gives_method, gives_localAt, gives_pure, looked, passed, coded] at run
  obtain ⟨entry, w1, intern, item, w2, allocate, _, _, handler, _, w3, mark,
    _, w4, reserve, _, c, ran, _, w5, restart, _, w6, assign, rfl, rfl⟩ := run
  obtain ⟨interned, reference⟩ := sound.intern (Pool.interns_type _) intern
  obtain ⟨p, -, rfl⟩ := gives_pool.mp intern
  have calm := interned.calm.withFrames (f.rearm (.guarded start (some e) exits (caught ++ [t])) :: w.method.frames.tail)
  have h1 : Stands P ctx _ [] [] none := ⟨calm.sound, laid.calm calm⟩
  have words := JType.words_of_isReference ref
  have value := JType.kind_ne_void_of_words words
  obtain ⟨h2, le2, frames, -, l, found, plain, type⟩ := h1.allocate (fun typed => ⟨JType.kind_resolve t _ ▸ value, proper typed⟩) allocate
  have top : w2.method.top = f.rearm (.guarded start (some e) exits (caught ++ [t])) := by
    rw [Method.top, frames]
    rfl
  have floor : w2.known = w2.method.floor := by
    rw [Work.known, Method.floor, top]
    rfl
  have entered : Laid P w2 [] [] (some ⟨[.reference], w2.known⟩) := h2.laid.settle floor.ge
  have scope : w2.method.top.scope = .guarded start (some e) exits (caught ++ [t]) := by
    rw [top]
    rfl
  have h3 := Stands.guard (r := entry) ⟨h2.sound, entered⟩ scope (fun _ => rfl) floor
    ⟨_, le2.pool.reference? reference, catches⟩
  rw [gives_update] at handler
  subst handler
  obtain ⟨-, after, room⟩ := calm_marked (.refl h3.sound) mark reserve
  have h4 := h3.calm after
  rw [← words, ← List.append_nil t.words] at h4
  have locals : w4.method.locals = w2.method.locals := after.locals
  have here : w4.method.locals.getD item default = l := by
    rw [locals]
    simp [found]
  have held : (w4.rules P).holds (w4.method.locals.getD item default).slot t.kind :=
    ⟨l, Array.mem_of_getElem? (locals ▸ found), by rw [here], by rw [type, JType.kind_resolve]⟩
  have stored := h4.store held (fun _ => value) (fun _ => by rw [words]; exact Nat.le_trans room (Nat.le_add_right _ _)) ran
  obtain ⟨restarted, le, same⟩ := stands_restart stored (after.locals ▸ found) plain restart
  have known : w5.known = w2.known := (stored.keeps_known le same).trans after.known
  have inner : w5.method.top = w2.method.top := by
    rw [Method.top, same]
    exact after.top
  obtain ⟨l', found', slot, -⟩ := le.locals item l (locals ▸ found)
  rw [here, ← slot, ← known] at restarted
  exact settled_assign restarted (by rw [inner, top]; rfl) found' assign

def endArm (f : Frame) (start : Nat) (stop : Option Nat) (exits : List Nat) (caught : List JType) (t : JType)
    (name : String) : Step Nat := do
  let stop := stop.getD (← pos)
  let f := f.merge
  let exits ← if f.closed then pure exits else do pure (exits ++ [← code (Code.jump .goto)])
  openHandler f start stop exits caught t name

theorem settled_endArm (h : Settled P ctx w)
    (scope : w.method.top.scope = .guarded start stop exits caught) (range : start < stop.getD w.method.code.pos)
    (ref : t.isReference = true) (proper : P.typed → (t.resolve ctx.name).NoVoidArray) (catches : P.caught t.internalName)
    (run : Gives ctx (endArm w.method.top start stop exits caught t name) w id w') : Settled P ctx w' := by
  have ended := h.laid.endRange scope range
  simp only [endArm, gives_bind, gives_pos, merge_closed, looked] at run
  cases closed : w.method.top.closed with
  | true =>
    simp only [closed, if_true, gives_bind, gives_pure, looked] at run
    have standing : w.method.standing = none := by rw [Method.standing, closed]; rfl
    rw [standing] at ended
    refine settled_openHandler h.sound ?_ ref proper catches run
    rw [← rearm_merge w.method.top (.guarded start (some (stop.getD w.method.code.pos)) exits caught)]
    exact ended.leave (caught ++ [t]) rfl
  | false =>
    simp only [closed, Bool.false_eq_true, if_false, gives_bind, gives_pure, looked, coded] at run
    obtain ⟨site, c, ran, run⟩ := run
    rw [standing_of_opened closed] at ended
    refine settled_openHandler (w := w.withCode c) h.sound.reshape ?_ ref proper catches run
    rw [← rearm_merge w.method.top (.guarded start (some (stop.getD w.method.code.pos)) exits caught)]
    exact ended.exit (caught ++ [t]) rfl closed ran

theorem settled_catchOpen (h : Settled P ctx w) (catches : P.caught (type.resolve ctx.name).internalName)
    (run : Gives ctx (catchOpen type name) w id w') : Settled P ctx w' := by
  simp only [catchOpen, gives_bind, gives_top, looked] at run
  split at run
  · rename_i start stop exits caught scope
    simp only [gives_bind, gives_read, gives_ofExcept, isThrowable, gives_isAssignable, gives_unless, looked] at run
    obtain ⟨_, _, ⟨named, rfl⟩, refused, run⟩ := run
    split at run
    · simp at run
    simp only [gives_bind, gives_pos, looked] at run
    simp only [Bool.or_eq_true, Bool.not_eq_true', not_or, Bool.not_eq_false, Bool.not_eq_true] at refused
    obtain ⟨⟨⟨ref, single⟩, -⟩, -⟩ := refused
    have proper : P.typed → ((type.resolve ctx.name).resolve ctx.name).NoVoidArray := fun _ _ => by
      rw [← JType.isArray_resolve _ ctx.name] at single
      simpa [JType.isArray] using single
    obtain ⟨spots, protects⟩ := h.laid.protects scope
    by_cases vacant : (stop.isNone && decide (w.method.code.pos = start)) = true
    · rw [if_pos vacant, gives_bind] at run
      obtain ⟨_, _, nop, run⟩ := run
      simp only [Bool.and_eq_true, Option.isNone_iff_eq_none, decide_eq_true_eq] at vacant
      obtain ⟨rfl, rfl⟩ := vacant
      have reached := protects.fresh rfl
      have opened : w.method.top.closed = false := by
        by_contra closed
        rw [Bool.not_eq_false] at closed
        rw [Method.standing, closed] at reached
        cases reached
      have stays : Opcode.nop.effect? = some ⟨[], []⟩ := by decide
      have settled := settled_emit (h.opened opened) opened nop fun base below extra c ran seg =>
        seg.emit ran (by decide) (fun _ => Nat.zero_le _) (fun _ => moves_op stays [] rfl rfl) (h.opened opened).above
      obtain ⟨c, ran, rfl⟩ := gives_code.mp nop
      refine settled_endArm settled scope ?_ ref proper catches run
      rw [Code.yields_emit] at ran
      subst ran
      simp [Code.pos]
    · rw [if_neg vacant] at run
      refine settled_endArm h scope ?_ ref proper catches run
      cases stop with
      | none =>
        have le := protects.le
        simp only [Option.isNone_none, Bool.true_and, decide_eq_true_eq] at vacant
        change start ≤ w.method.code.pos at le
        simp only [Option.getD_none]
        omega
      | some e => exact (protects.stops e rfl).1
  · simp at run

end Step

end

end ClassForge.Assembler

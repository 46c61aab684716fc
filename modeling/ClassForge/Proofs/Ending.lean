import ClassForge.Proofs.Turning

/-! Scopes and methods that end: the branches of a scope land there, and nothing is left open. -/

namespace ClassForge.Assembler

open List

open Draft (lax)

section

variable {i : Nat} {ctx : Context} {w w' : Work} {ops : List Opcode} {scope : Scope}

/-! The end of a scope. -/

theorem Step.meets_closeScope (frames : w.method.frames = f :: g :: rest) :
    Meets ctx closeScope w good ↔ good () (w.withFrames (f.outcome g :: rest)) := by
  rw [closeScope, meets_update]
  simp only [frames]
  rfl

theorem Work.shape_outcome (f g : Frame) (rest : List Frame) :
    (w.withFrames (f.outcome g :: rest)).shape = { w.shape with scopes := (g :: rest).map Frame.scope } := by
  unfold Frame.outcome
  split <;> rfl

theorem Outcome.closes (old : w.method.scopes = scope :: outer) (inner : scope ≠ .body)
    (handled : ∀ start, scope.level ≠ .guarded start none) (shape : w'.shape = { w.shape with scopes := outer })
    (bears : w'.method.code.Bears w.method.code.pos (outer.flatMap Scope.loose) ops)
    (stacked : Stacked outer ops) (slots : SlotsFit w'.method.locals) : Outcome ctx .close w w' := by
  refine .of_bears old shape (.close ?_ handled bears.reaches) bears stacked slots
  cases scope <;> simp_all [Scope.level]

namespace Step

theorem shifts_popSites (n : Nat) : Code.Shifts (popSites n) (List.replicate n .goto) [] := by
  induction n with
  | zero => exact .nothing
  | succ n ih => exact (Code.Shifts.popSite .goto).bind ih

theorem meets_endBranch (h : Settled (lax i) ctx w) (top : w.method.top.scope = .branch arm exits)
    (tidy : w.method.Tidy) : Achieves ctx .close w (endBranch arm exits) := by
  obtain ⟨⟨ops, bears, stacked⟩, slots⟩ := tidy
  obtain ⟨spots, g, rest, own, below, inside, -⟩ := h.laid.inside top (by rintro ⟨⟩)
  have scopes : w.method.scopes = .branch arm exits :: (g :: rest).map Frame.scope := by
    rw [Method.scopes, inside.frames, map_cons, top]
  rw [scopes] at bears stacked
  simp only [endBranch, meets_bind, meets_top, meets_setTop]
  by_cases last : arm = .last
  · subst last
    obtain ⟨_, below, rfl, rfl, outer⟩ := stacked
    simp only [ne_eq, not_true_eq_false, if_false, meets_bind, meets_code]
    refine (shifts_popSites exits _ _ below _ bears).imp fun _ c bears => ?_
    rw [meets_closeScope (f := w.method.top.merge) (g := g) (by rw [inside.frames]; rfl)]
    exact .closes scopes (by rintro ⟨⟩) (by rintro _ ⟨⟩) (Work.shape_outcome _ g rest) bears outer slots
  · obtain ⟨t, below, rfl, outer⟩ := stacked_arm last stacked
    simp only [ne_eq, last, not_false_eq_true, if_true, meets_bind, meets_code, meets_top, meets_setTop]
    refine bears.popSite.imp fun _ c popped => ?_
    refine (shifts_popSites exits _ _ below _ popped.1).imp fun _ c bears => ?_
    rw [meets_closeScope (g := g) (by rw [inside.frames]; rfl)]
    exact .closes scopes (by rintro ⟨⟩) (by rintro _ ⟨⟩) (Work.shape_outcome _ g rest) bears outer slots

section

variable {c : Code} (frames : w.method.frames = w.method.top :: k :: rest)
  (top : w.method.top.scope = .loop kind start breaks left) (slots : SlotsFit w.method.locals)
  (stacked : Stacked w.method.scopes ops)
  (bears : c.Bears w.method.code.pos (breaks ++ ((k :: rest).map Frame.scope).flatMap Scope.loose) ops)

include frames top slots stacked bears

theorem meets_loopTail :
    Meets ctx (loopTail kind breaks left w.method.top) (w.withCode c) fun _ w' => Outcome ctx .close w w' := by
  have old : w.method.scopes = .loop kind start breaks left :: (k :: rest).map Frame.scope := by
    rw [Method.scopes, frames, map_cons, top]
  rw [old] at stacked
  obtain ⟨own, below, rfl, keeps, outer⟩ := stacked
  have finish : ∀ c : Code, c.Bears w.method.code.pos
        (breaks ++ ((k :: rest).map Frame.scope).flatMap Scope.loose) below →
      Meets ctx (do
        code (do Code.resolveAll breaks (← get).pos)
        setTop { w.method.top with closed := false, merged := afterLoop kind w.method.top.inherited left }
        closeScope) (w.withCode c) fun _ w' => Outcome ctx .close w w' := by
    intro c bears
    simp only [meets_bind, meets_code, ClassForge.meets_bind, meets_get, meets_setTop]
    refine bears.resolveAll.imp fun _ c resolved => ?_
    rw [meets_closeScope (g := k) (by rw [Work.withCode, frames]; rfl)]
    exact .closes old (by rintro ⟨⟩) (by rintro _ ⟨⟩) (Work.shape_outcome _ k rest) resolved.1 outer slots
  unfold loopTail
  by_cases endless : kind = .test true
  · subst endless
    obtain rfl : own = [] := keeps
    exact finish c bears
  · obtain ⟨t, rfl⟩ : ∃ t, own = [t] := by
      rcases kind with ⟨(_ | _)⟩ | _ | _
      · exact keeps.imp fun _ h => h.2
      · exact absurd rfl endless
      · exact keeps.imp fun _ h => h.2
      · exact keeps.imp fun _ h => h.2
    rw [if_pos endless, meets_bind, meets_code]
    exact bears.popSite.imp fun _ c popped => finish c popped.1

theorem meets_loopBack (closed : Bool) :
    Meets ctx (do
      if !closed then code (Code.branchTo .goto start)
      loopTail kind breaks left w.method.top) (w.withCode c) fun _ w' => Outcome ctx .close w w' := by
  cases closed with
  | true => exact meets_loopTail frames top slots stacked bears
  | false =>
    simp only [Bool.not_false, if_true]
    rw [meets_bind, meets_code]
    exact (bears.branchTo .goto).imp fun _ c jumped => meets_loopTail frames top slots stacked jumped.1

end

theorem meets_endLoop (h : Settled (lax i) ctx w) (top : w.method.top.scope = .loop kind start breaks left)
    (tidy : w.method.Tidy) : Achieves ctx .close w (endLoop kind start breaks left) := by
  obtain ⟨⟨ops, bears, stacked⟩, slots⟩ := tidy
  obtain ⟨spots, k, rest, own, below, inside, -, -, -, continued⟩ := h.laid.inside top (by rintro ⟨⟩)
  have loose : w.method.scopes.flatMap Scope.loose =
      (Scope.loop kind start breaks left).loose ++ ((k :: rest).map Frame.scope).flatMap Scope.loose := by
    rw [Method.scopes, inside.frames, List.map_cons, top]
    rfl
  rw [loose] at bears
  unfold Achieves endLoop
  rw [meets_bind, meets_top]
  cases kind with
  | test | items => exact meets_loopBack inside.frames top slots stacked bears _
  | array counter continues =>
    obtain ⟨⟨⟨id, l, found, -, rfl⟩, -⟩, -⟩ := continued counter continues rfl
    rw [meets_ite]
    refine ⟨fun _ => ?_, fun stepped => ?_⟩
    · rw [meets_bind, meets_code, ClassForge.meets_bind, meets_get]
      have same : ((breaks ++ continues) ++ ((k :: rest).map Frame.scope).flatMap Scope.loose).Perm
          (continues ++ (breaks ++ ((k :: rest).map Frame.scope).flatMap Scope.loose)) := by
        rw [← List.append_assoc]
        exact List.perm_append_comm.append_right _
      have apart := bears.perm same
      refine ClassForge.meets_bind.mpr (apart.resolveAll.imp fun _ c resolved => ?_)
      refine (resolved.1.keep (.iinc _ (slots l (Array.mem_of_getElem? found)))).imp fun _ c bears => ?_
      exact meets_loopBack inside.frames top slots stacked bears false
    · rw [meets_bind, meets_pure]
      simp only [Bool.or_eq_true, Bool.not_eq_true', not_or, Bool.not_eq_false, List.isEmpty_iff] at stepped
      obtain ⟨-, rfl⟩ := stepped
      refine meets_loopBack inside.frames top slots stacked ?_ true
      rw [Scope.loose, List.append_nil] at bears
      exact bears

variable {good : Work → Prop}

theorem meets_endGuarded (h : Settled (lax i) ctx w) (top : w.method.top.scope = .guarded start stop exits caught)
    (tidy : w.method.Tidy) : Achieves ctx .close w (endGuarded stop exits) := by
  obtain ⟨⟨ops, bears, stacked⟩, slots⟩ := tidy
  obtain ⟨spots, k, rest, own, below, inside, -⟩ := h.laid.inside top (by rintro ⟨⟩)
  have scopes : w.method.scopes = .guarded start stop exits caught :: (k :: rest).map Frame.scope := by
    rw [Method.scopes, inside.frames, map_cons, top]
  rw [scopes] at bears stacked
  obtain ⟨_, below, rfl, rfl, outer⟩ := stacked
  unfold endGuarded
  refine meets_else rfl fun handled => ?_
  simp only [meets_bind, meets_top, meets_setTop, meets_code, ClassForge.meets_bind, meets_get]
  refine bears.resolveAll.imp fun _ c resolved => ?_
  rw [meets_closeScope (g := k) (by rw [inside.frames]; rfl)]
  refine .closes scopes (by rintro ⟨⟩) ?_ (Work.shape_outcome _ k rest) resolved.1 outer slots
  rintro _ ⟨⟩
  exact handled rfl

/-! The end of the method. -/

theorem meets_sealCode (next : ∀ trail, good { w with
      method := { w.method with finished := true, frames := [] }, trail }) :
    Meets ctx sealCode w fun _ w' => good w' := by
  simp only [sealCode, meets_bind, meets_pos]
  rw [meets_ite]
  exact ⟨fun _ => rfl, fun _ => next _⟩

theorem lines_prologue (run : Gives ctx prologue w a w') : w'.method.lines = w.method.lines := by
  simp only [prologue, gives_bind, gives_read, gives_method, looked] at run
  split_ifs at run
  · simp only [implicitSuper, gives_bind, gives_read, gives_reserve, gives_pure, looked, passed] at run
    obtain ⟨call, v, implicit, -, rfl⟩ := run
    split at implicit
    · simp at implicit
    split_ifs at implicit
    · simp only [gives_bind, gives_pool, gives_reserve, gives_pure, passed] at implicit
      obtain ⟨_, _, ⟨_, -, rfl⟩, -, rfl⟩ := implicit
      rfl
    · simp at implicit
  · simp only [gives_bind, gives_reserve, gives_pure, passed] at run
    rw [← run.2]
  · rw [(gives_pure.mp run).2]

theorem meets_wrapUp (sound : Sound (lax i) ctx w) (sites : w.method.code.sites = [])
    (next : ∀ v (front : Array UInt8), v.method.frames = [] → v.method.finished = true →
      v.method.handlers = w.method.handlers.map (Handler.shift front.size) →
      v.method.lines = w.method.lines.map (LineRow.shift front.size) →
      v.method.code.bytes = front ++ w.method.code.bytes → good v) :
    Meets ctx wrapUp w fun _ w' => good w' := by
  unfold wrapUp
  rw [meets_bind]
  refine (mild_checkDangling 0).meets fun _ _ dangling => ?_
  obtain rfl := of_checkDangling dangling
  rw [meets_bind, meets_method]
  simp only [sites, length_nil, ne_eq, not_true_eq_false, if_false]
  rw [meets_bind]
  refine mild_prologue.meets fun a w1 prologue => ?_
  obtain ⟨calm, leads⟩ := prologue_spec sound (fun _ _ _ => trivial) prologue
  have lines := lines_prologue prologue
  obtain ⟨front, -, ran, none, -⟩ := leads.starts
  rw [show a.run Code.empty = _ from ran]
  rw [meets_ite]
  refine ⟨fun _ => ?_, fun _ => ?_⟩
  · rw [meets_bind, meets_code, Code.prepend, ClassForge.meets_bind, meets_get]
    rw [ClassForge.meets_ite]
    refine ⟨fun _ => ?_, fun left => absurd ?_ left⟩
    · rw [meets_set, meets_bind, meets_update]
      refine meets_sealCode fun trail => next _ front.bytes rfl rfl ?_ ?_ ?_
      · rw [← calm.handlers]
        rfl
      · rw [← lines]
        rfl
      · change front.bytes ++ w1.method.code.bytes = _
        rw [calm.code]
    · simp [calm.code, sites, none]
  · refine meets_sealCode fun trail => next _ #[] rfl rfl ?_ ?_ ?_
    · change w1.method.handlers = _
      rw [calm.handlers, show Handler.shift #[].size = id from rfl, Array.map_id]
    · change w1.method.lines = _
      rw [lines, show LineRow.shift #[].size = id from rfl, Array.map_id]
    · change w1.method.code.bytes = _
      rw [calm.code, Array.empty_append]

section

variable (h : Settled (lax i) ctx w) (body : w.method.top.scope = .body)

include h body

theorem scopes_of_body : w.method.scopes = [.body] := by
  obtain ⟨spots, own, below, plan⟩ := h.laid
  rw [h.scopes_of_top body, (plan.nested'.of_body body).1]
  rfl

/-- A method whose body is all that is open ends with its code between what runs first and a return. -/
theorem meets_ending
    (sites : ∃ ops, w.method.code.Bears w.method.code.pos (w.method.scopes.flatMap Scope.loose) ops ∧
      Stacked w.method.scopes ops)
    (next : ∀ v (first last : Array UInt8), v.method.frames = [] → v.method.finished = true →
      v.method.handlers = w.method.handlers.map (Handler.shift first.size) →
      v.method.lines = w.method.lines.map (LineRow.shift first.size) →
      v.method.code.bytes = first ++ (w.method.code.bytes ++ last) → good v) :
    Meets ctx finish w fun _ w' => good w' := by
  obtain ⟨ops, bears, stacked⟩ := sites
  rw [scopes_of_body h body] at stacked
  obtain ⟨_, _, rfl, rfl, rfl⟩ := stacked
  have wrap : ∀ (c : Code) (last : Array UInt8), c.bytes = w.method.code.bytes ++ last →
      c.Bears w.method.code.pos (w.method.scopes.flatMap Scope.loose) [] →
      Meets ctx wrapUp (w.withCode c) fun _ w' => good w' := by
    intro c last bytes bears
    refine meets_wrapUp (w := w.withCode c) h.sound.reshape (forall₂_nil_right_iff.mp bears.shown)
      fun v first frames finished handlers lines grown => next v first last frames finished handlers lines ?_
    rw [grown, ← bytes]
    rfl
  unfold finish
  rw [meets_bind, meets_method, meets_bind, meets_top]
  rw [meets_ite]
  refine ⟨fun _ => ?_, fun _ => wrap _ #[] Array.append_empty.symm bears⟩
  refine meets_else rfl fun _ => ?_
  rw [meets_bind, meets_code]
  have emits := bears.keep (.emit .voidReturn)
  refine Meets.of_yields (emits.imp fun _ _ _ => trivial) fun _ c ran => ?_
  refine wrap c #[Opcode.voidReturn.byte] ?_ (emits.yields ran)
  rw [← Code.yields_emit.mp ran]
  simp

theorem meets_finish (tidy : w.method.Tidy) : Achieves ctx .close w finish := by
  refine meets_ending h body tidy.sites fun v first last frames finished handlers _ bytes =>
    ⟨?_, fun opened => by simp [finished] at opened, fun opened => by simp [finished] at opened⟩
  rw [Method.outline, Method.outline, scopes_of_body h body, Method.scopes, frames, handlers]
  refine .finish first.size ?_
  simp only [Code.pos, bytes, Array.size_append]
  omega

end

theorem meets_leaving
    (ends : Achieves ctx .close w a) :
    Meets ctx (do
      checkDangling first
      a
      render (← method).depth "\x7d") w fun _ w' => Outcome ctx .close w w' := by
  rw [meets_bind]
  refine (mild_checkDangling first).meets fun _ _ dangling => ?_
  obtain rfl := of_checkDangling dangling
  rw [meets_bind]
  refine ends.imp fun _ v outcome => ?_
  exact ⟨outcome.turns, outcome.lines, fun opened => ⟨(outcome.tidy opened).sites, (outcome.tidy opened).slots⟩⟩

theorem meets_closeInnermost (h : Settled (lax i) ctx w) (tidy : w.method.Tidy) :
    Achieves ctx .close w closeInnermost := by
  unfold Achieves closeInnermost
  rw [meets_bind, meets_top]
  cases top : w.method.top.scope with
  | body => exact meets_finish h top tidy
  | branch => exact meets_leaving (meets_endBranch h top tidy)
  | loop => exact meets_leaving (meets_endLoop h top tidy)
  | guarded => exact meets_leaving (meets_endGuarded h top tidy)

theorem meets_plainly (h : Meets ctx a w fun _ w' => good w') : Meets ctx (plainly a) w fun _ w' => good w' := by
  unfold plainly
  rw [meets_bind]
  exact h.imp fun _ v done => done

/-- A statement turns the outline and leaves the method tidy, or a request explains its failure. -/
theorem meets_perform (s : Statement) (h : Settled (lax i) ctx w) (limit : ctx.options.maxLocals ≤ 65535)
    (tidy : w.method.Tidy) : Achieves ctx s w (perform s) := by
  cases s with
  | declare t name => exact meets_map.mpr (meets_declare limit tidy)
  | assign l v => exact meets_plainly (meets_assignLocal h tidy)
  | increment l d => exact meets_plainly (meets_increment tidy)
  | evaluate e => exact meets_plainly (meets_evaluate h tidy)
  | setField o name v => exact meets_plainly (meets_setField h tidy)
  | setStatic owner name v => exact meets_plainly (meets_setStatic h tidy)
  | setIndex a j v => exact meets_plainly (meets_setIndex h tidy)
  | leave v => exact meets_plainly (meets_leave h tidy)
  | raise e => exact meets_plainly (meets_raise h tidy)
  | superCall args => exact meets_plainly (meets_superCall h tidy)
  | ifOpen c => exact meets_plainly (meets_ifOpen h tidy)
  | elseIf c => exact meets_plainly (meets_elseIf h tidy)
  | elseOpen => exact meets_plainly (meets_elseOpen h tidy)
  | whileOpen c => exact meets_plainly (meets_whileOpen h tidy)
  | forEach t name e => exact meets_map.mpr (meets_forEach h limit tidy)
  | breakLoop => exact meets_plainly (meets_breakLoop tidy)
  | continueLoop => exact meets_plainly (meets_continueLoop h tidy)
  | tryOpen => exact meets_plainly (meets_tryOpen tidy)
  | catchOpen t name => exact meets_map.mpr (meets_catchOpen h limit tidy)
  | close => exact meets_plainly (meets_closeInnermost h tidy)

end Step

end

end ClassForge.Assembler

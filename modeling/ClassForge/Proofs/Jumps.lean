import ClassForge.Proofs.Statements

/-! Jumps out of loops and back to their tests. -/

namespace ClassForge.Assembler

open List Frame

open Step (updateLoop innermostLoop)

section

variable {L : Layout} {kind : LoopKind} {top : Nat} {f : Frame} {breaks continues own : List Nat} {counter site : Nat}
  {left : Option LocalSet}

theorem Nested.label (h : Nested L frames sites) (found : innermostLoop frames = some (kind, top)) :
    ∃ f ∈ frames, ∃ d, L.view.At top d ∧ L.rules.Weaker d (atRest L.locals f.inherited) := by
  induction frames generalizing sites with
  | nil => cases found
  | cons f rest ih =>
    cases rest with
    | nil =>
      obtain ⟨body, -⟩ := h
      simp [innermostLoop, body] at found
    | cons g rest =>
      obtain ⟨-, -, -, -, own, below, -, holds, outer⟩ := h
      cases scope : f.scope with
      | loop k t breaks left =>
        simp only [innermostLoop, scope, Option.some.injEq, Prod.mk.injEq] at found
        obtain ⟨rfl, rfl⟩ := found
        simp only [Holds, scope] at holds
        exact ⟨f, mem_cons_self, holds.2.1⟩
      | body | branch | guarded =>
        simp only [innermostLoop, scope] at found
        obtain ⟨k, hk, label⟩ := ih outer found
        exact ⟨k, mem_cons_of_mem _ hk, label⟩

theorem updateLoop_cons (F : LoopKind → Nat → List Nat → Option LocalSet → Scope) (f : Frame) (rest : List Frame) :
    ∃ scope rest', updateLoop F (f :: rest) = { f with scope } :: rest' := by
  obtain ⟨scope⟩ := f
  cases scope <;> exact ⟨_, _, rfl⟩

theorem Nested.updateLoop (h : Nested L frames sites) (inner : ∀ kind top breaks left, F kind top breaks left ≠ .body)
    (step : ∀ f ∈ frames, ∀ kind top breaks left own, f.scope = .loop kind top breaks left → f.Fits L → f.Holds L own →
      Fits L { f with scope := F kind top breaks left } ∧
        Holds L { f with scope := F kind top breaks left } own) :
    Nested L (Step.updateLoop F frames) sites := by
  induction frames generalizing sites with
  | nil => exact h
  | cons f rest ih =>
    cases rest with
    | nil =>
      obtain ⟨body, none, fits⟩ := h
      simp only [Step.updateLoop, body]
      exact ⟨body, none, fits⟩
    | cons g rest =>
      obtain ⟨scopes, fits, inherited, opened, own, below, split, holds, outer⟩ := h
      cases scope : f.scope with
      | loop k t breaks left =>
        obtain ⟨fits', holds'⟩ := step f mem_cons_self k t breaks left own scope fits holds
        simp only [Step.updateLoop, scope]
        exact ⟨inner _ _ _ _, fits', inherited, opened, own, below, split, holds', outer⟩
      | body | branch | guarded =>
        have outer' := ih outer fun k hk => step k (mem_cons_of_mem _ hk)
        obtain ⟨scope', rest', same⟩ := updateLoop_cons F g rest
        have skip : Step.updateLoop F (f :: g :: rest) = f :: Step.updateLoop F (g :: rest) := by
          rw [Step.updateLoop, scope]
        rw [skip]
        rw [same] at outer' ⊢
        exact ⟨scopes, fits, inherited, opened, own, below, split, holds, outer'⟩

theorem Frame.Holds.addBreak (holds : f.Holds L own) (fits : f.Fits L) (scope : f.scope = .loop kind top breaks left)
    (brings : L.Brings site here) (covers : f.inherited.Sub here) (below : here.Below L.locals.size) :
    Fits L { f with scope := .loop kind top (breaks ++ [site]) (some (here.meet left)) } ∧
      Holds L { f with scope := .loop kind top (breaks ++ [site]) (some (here.meet left)) } own := by
  have old : ∀ t, left = some t → f.inherited.Sub t := fun t ht =>
    (fits.sets t (mem_sets_left (by rw [scope]; exact ht))).1
  refine ⟨⟨fun s hs => ?_, fits.given⟩, ?_⟩
  · simp only [sets, Scope.left, Option.toList_some, mem_cons, mem_append, not_mem_nil,
      or_false] at hs
    rcases hs with rfl | merged | rfl
    · exact fits.sets _ mem_cons_self
    · exact fits.sets s (by simp only [sets, mem_cons, mem_append]; tauto)
    · exact ⟨covers.meet old, (LocalSet.meet_sub here left).below below⟩
  · simp only [Holds, scope] at holds ⊢
    obtain ⟨tested, label, broken, continued⟩ := holds
    refine ⟨tested, label, fun s hs => ⟨_, rfl, ?_⟩, continued⟩
    rcases mem_append.mp hs with before | new
    · obtain ⟨m, rfl, brought⟩ := broken s before
      exact brought.weaken (LocalSet.meet_sub_some here m)
    · rw [mem_singleton.mp new]
      exact brings.weaken (LocalSet.meet_sub here left)

theorem Frame.Holds.addContinue (holds : f.Holds L own) (fits : f.Fits L)
    (scope : f.scope = .loop (.array counter continues) top breaks left) (brings : L.Brings site f.inherited) :
    Fits L { f with scope := .loop (.array counter (continues ++ [site])) top breaks left } ∧
      Holds L { f with scope := .loop (.array counter (continues ++ [site])) top breaks left } own := by
  refine ⟨⟨fun s hs => fits.sets s ?_, fits.given⟩, ?_⟩
  · simpa only [sets, Scope.left, scope] using hs
  · simp only [Holds, scope, reduceCtorEq, if_false] at holds ⊢
    obtain ⟨tested, label, broken, continued⟩ := holds
    refine ⟨tested, label, broken, fun n more array => ?_⟩
    cases array
    obtain ⟨counts, before⟩ := continued counter continues rfl
    refine ⟨counts, fun s hs => ?_⟩
    rcases mem_append.mp hs with old | new
    · exact before s old
    · rw [mem_singleton.mp new]
      exact brings

theorem loose_updateLoop (found : innermostLoop frames = some (kind, top))
    (more : ∀ breaks left, (site :: (Scope.loop kind top breaks left).loose).Perm (F kind top breaks left).loose) :
    (site :: (frames.map scope).flatMap Scope.loose).Perm
      (((updateLoop F frames).map scope).flatMap Scope.loose) := by
  induction frames with
  | nil => cases found
  | cons f rest ih =>
    cases scope : f.scope with
    | loop k n breaks left =>
      simp only [innermostLoop, scope, Option.some.injEq, Prod.mk.injEq] at found
      obtain ⟨rfl, rfl⟩ := found
      simp only [updateLoop, scope, map_cons, flatMap_cons]
      exact (more breaks left).append_right _
    | body | branch | guarded =>
      simp only [innermostLoop, scope] at found
      simp only [updateLoop, scope, map_cons, flatMap_cons]
      exact perm_middle.symm.trans ((ih found).append_left _)

theorem perm_addBreak (kind : LoopKind) (breaks : List Nat) :
    (site :: (Scope.loop kind top breaks before).loose).Perm (Scope.loop kind top (breaks ++ [site]) later).loose := by
  cases kind with
  | test | items => exact (perm_append_singleton _ _).symm
  | array counter continues =>
    simp only [Scope.loose, append_assoc, singleton_append]
    exact perm_middle.symm

theorem perm_addContinue (breaks : List Nat) : (site :: (Scope.loop (.array counter continues) top breaks before).loose).Perm
    (Scope.loop (.array counter (continues ++ [site])) top breaks later).loose := by
  simp only [Scope.loose, ← append_assoc]
  exact (perm_append_singleton _ _).symm

theorem Nested.inherited_sub_assigned (h : Nested L (f :: rest) sites) : ∀ g ∈ f :: rest, g.inherited.Sub f.assigned := fun g hg =>
  (h.inherited_sub g hg).trans (h.fits.sets _ mem_cons_self).1

end

section

variable {P : Policy} {ctx : Context} {w w' : Work} {y : Unit}

theorem Laid.jump (h : Laid P w [] [] (some ⟨[], w.known⟩)) (frames : List Frame)
    (run : Yields (Code.jump .goto) w.method.code site c)
    (nested : ∀ (L : Layout) (sites : List Nat), L.locals = w.method.locals → Nested L w.method.frames sites →
      L.Brings site w.method.top.assigned → Nested L frames sites)
    (loose : (site :: (w.method.frames.map scope).flatMap Scope.loose).Perm
      ((frames.map scope).flatMap Scope.loose)) :
    Laid P ((w.withCode c).withFrames frames) [] [] none := by
  rw [flatMap_map, flatMap_map] at loose
  obtain ⟨spots, own, below, plan⟩ := h
  have start := Segment.start w.method.floor plan.cert plan.split plan.carries
  have pushed : Yields (Code.pushSite .goto) w.method.code () ⟨c.bytes, site :: c.sites⟩ := by
    obtain ⟨rfl, rfl⟩ := Code.yields_jump.mp run
    exact Code.yields_pushSite.mpr rfl
  have jumps : Opcode.goto.effect? = some ⟨[], []⟩ := by decide
  have leaves : Segment _ [⟨[], w.known⟩] none ⟨c.bytes, site :: c.sites⟩ :=
    start.pushSite pushed (by decide) (fun _ => Nat.zero_le _) (fun _ => moves_op jumps [] rfl rfl) (fun _ hs => hs)
      (.inl (by decide)) (plan.above _ rfl)
  obtain ⟨spots', own', cert, grows, split, carries⟩ := leaves
  cases carries with
  | cons brings rest =>
    cases rest
    obtain ⟨rfl, sites⟩ := cons.inj split
    have grown : (w.layout P spots (some ⟨[], w.known⟩)).Le w.method.floor
        (((w.withCode c).withFrames frames).layout P spots' none) := ⟨.refl _, grows, (Work.Le.refl w).locals⟩
    have kept := plan.nested'.later grown fun _ hs => hs
    rw [← plan.frames] at kept
    refine ⟨spots', [], below, ?_, sites, .nil, nested _ below rfl kept brings,
      plan.tables.grown (m := w.method) grown rfl, by simp, by rintro _ ⟨⟩⟩
    refine cert.mono_opened fun s hs => ?_
    rcases mem_append.mp hs with stack | kept
    · rcases mem_cons.mp stack with rfl | deeper
      · exact mem_append_right _ (loose.mem_iff.mp mem_cons_self)
      · exact mem_append_left _ deeper
    · exact mem_append_right _ (loose.mem_iff.mp (mem_cons_of_mem _ kept))

namespace Step

theorem stands_relaid (sound : Sound P ctx w) (laid : Laid P ((w.withCode c).withFrames frames) [] [] here) :
    Stands P ctx ((w.withCode c).withFrames frames) [] [] here :=
  ⟨sound.reshape, laid⟩

theorem settled_breakLoop (h : Settled P ctx w) (opened : w.method.top.closed = false)
    (run : Gives ctx breakLoop w y w') : Settled P ctx w' := by
  simp only [breakLoop, gives_bind, gives_method, looked] at run
  cases found : innermostLoop w.method.frames with
  | none => simp [found] at run
  | some loop =>
    obtain ⟨kind, label⟩ := loop
    simp only [found, gives_bind, gives_method, gives_top, gives_update, looked, passed, coded] at run
    obtain ⟨_, w1, mark, site, c, ran, close⟩ := run
    have calm := Calm.mark h.sound mark
    have stands := h.standing opened calm
    rw [← calm.frames] at found
    have laid := stands.laid.jump (updateLoop (fun kind top breaks left =>
      .loop kind top (breaks ++ [site]) (some (w1.method.top.assigned.meet left))) w1.method.frames) ran ?_ ?_
    · exact (stands_relaid stands.sound laid).close close
    · intro L sites locals nested brings
      rw [stands.laid.frames] at nested ⊢
      exact nested.updateLoop (by rintro _ _ _ _ ⟨⟩) fun f hf kind top breaks left own scope fits holds =>
        holds.addBreak fits scope brings (nested.inherited_sub_assigned f hf) (nested.fits.sets _ mem_cons_self).2
    · exact loose_updateLoop found fun breaks _ => perm_addBreak kind breaks

theorem settled_branchBack
    (h : Stands P ctx w [] [] (some ⟨[], w.known⟩)) (found : innermostLoop w.method.frames = some (kind, label))
    (back : Gives ctx (code (Code.branchTo .goto label)) w y w1) (close : Gives ctx close w1 y1 w') : Settled P ctx w' := by
  obtain ⟨c, ran, rfl⟩ := gives_code.mp back
  have jumps : Opcode.goto.effect? = some ⟨[], []⟩ := by decide
  have laid : Laid P (w.withCode c) [] [] none := by
    refine h.laid.emit (fun base below extra scopes seg => ?_) (by rintro _ ⟨⟩)
    obtain ⟨sites, nested⟩ := scopes
    obtain ⟨f, hf, d, label, weaker⟩ := nested.label found
    rw [h.laid.frames] at nested hf
    have covers := nested.inherited_sub_assigned f hf
    exact seg.branchTo ran (by decide) (by decide) (fun _ => Nat.zero_le _) (fun _ => moves_op jumps [] rfl rfl) label
      (weaker.trans (weaker_atRest covers)) h.above
  exact (stands_relaid (c := c) h.sound laid).close close

theorem settled_continueLoop (h : Settled P ctx w) (opened : w.method.top.closed = false)
    (run : Gives ctx continueLoop w y w') : Settled P ctx w' := by
  simp only [continueLoop, gives_bind, gives_method, looked] at run
  cases found : innermostLoop w.method.frames with
  | none => simp [found] at run
  | some loop =>
    obtain ⟨kind, label⟩ := loop
    simp only [found, gives_bind, gives_method, looked] at run
    obtain ⟨_, w1, mark, run⟩ := run
    have calm := Calm.mark h.sound mark
    have stands := h.standing opened calm
    rw [← calm.frames] at found
    cases kind with
    | test | items =>
      simp only [gives_bind] at run
      obtain ⟨_, w2, back, close⟩ := run
      exact settled_branchBack stands found back close
    | array counter continues =>
      simp only [gives_bind, gives_update, passed, coded] at run
      obtain ⟨site, c, ran, close⟩ := run
      refine (stands_relaid stands.sound (stands.laid.jump (updateLoop _ w1.method.frames) ran ?_ ?_)).close close
      · intro L sites locals nested brings
        rw [stands.laid.frames] at nested ⊢
        refine nested.updateLoop (fun kind _ _ _ => by cases kind <;> rintro ⟨⟩)
          fun f hf kind top breaks left own scope fits holds => ?_
        cases kind with
        | test | items =>
          dsimp only
          rw [← scope]
          exact ⟨fits, holds⟩
        | array counter continues =>
          exact holds.addContinue fits scope (brings.weaken (nested.inherited_sub_assigned f hf))
      · exact loose_updateLoop found fun breaks _ => perm_addContinue breaks

end Step

end

end ClassForge.Assembler

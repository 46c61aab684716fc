import ClassForge.Proofs.Outlines

/-! Statements that open, change and close scopes: the stack of branches follows the scopes, and no
step runs into a fault of the assembler. -/

namespace ClassForge.Assembler

open Draft (lax)
open Step (updateLoop innermostLoop)

section

variable {g i : Nat} {ctx : Context} {w w' : Work} {ops : List Opcode} {scope : Scope} {loose : List Nat}

theorem Outcome.opens (scope : Scope) (opens : s.opens? w.method.code.pos = some scope.level) (fresh : scope.loose = [])
    (keeps : scope.Keeps mine)
    (bears : w'.method.code.Bears w.method.code.pos (w.method.scopes.flatMap Scope.loose) (mine ++ ops))
    (stacked : Stacked w.method.scopes ops) (shape : w'.shape = (w.started s).push scope)
    (slots : SlotsFit w'.method.locals) : Outcome ctx s w w' := by
  refine .of_bears (k := scope :: w.method.scopes) rfl ?_ (.opens opens bears.reaches) (n := w.method.code.pos) ?_
    ⟨mine, ops, rfl, keeps, stacked⟩ slots
  · rw [shape, ← w.scopes_started.1, ← w.scopes_started.2]
    rfl
  · rw [List.flatMap_cons, fresh]
    exact bears

namespace Step

variable {exits : Nat}

theorem meets_test {good : Term → Work → Prop} (h : Settled (lax i) ctx w) (slots : SlotsFit w.method.locals)
    (next : ∀ x v, Made (lax i) ctx w v → SlotsFit v.method.locals → Expr.Fits x.expr.emit → good x v) :
    Meets ctx (test c) w good := by
  refine (mild_test c).meets fun x v run => ?_
  obtain ⟨_, -, made, adapted, -⟩ := test_spec h.sound run
  have slots := made.calm.locals ▸ slots
  exact next x v made slots (adapted.fine.fits slots)

theorem meets_ifOpen (h : Settled (lax i) ctx w) (tidy : w.method.Tidy) :
    Achieves ctx (.ifOpen c) w (ifOpen c) := by
  obtain ⟨⟨ops, bears, stacked⟩, slots⟩ := tidy
  simp only [ifOpen, meets_bind]
  refine meets_test h slots fun x v made slots fits => ?_
  obtain ⟨t, isTest, opens⟩ := fits.jump false
  simp only [meets_method, meets_mark, meets_reserve, emitTest, meets_code, meets_openScope]
  rw [made.calm.code]
  refine (bears.push (opens [])).imp fun _ c bears => ?_
  exact .opens (.branch .first 0) rfl rfl ⟨t, isTest, rfl⟩ bears stacked (congrArg (Shape.push _) made.begins) slots

theorem meets_skipArm (bears : w.method.code.Bears g loose (t :: (List.replicate exits .goto ++ ops))) :
    Meets ctx (skipArm exits) w fun n w' => ∃ c : Code, c.Bears g loose (List.replicate n .goto ++ ops) ∧
      c.pos = w.method.code.pos + w.method.top.jumpSize ∧ w' = { w with method := { w.method with code := c, frames := w.method.top.merge :: w.method.frames.tail } } := by
  simp only [skipArm, meets_bind, meets_top, meets_setTop]
  rw [meets_ite]
  refine ⟨fun closed => ?_, fun opened => ?_⟩
  · simp only [meets_bind, meets_code, meets_pure]
    refine bears.popSite.imp fun _ c popped => ⟨c, popped.1, ?_, rfl⟩
    rw [popped.2, Frame.jumpSize, if_pos closed, Nat.add_zero]
  · simp only [meets_bind, meets_code, meets_pure]
    refine ClassForge.meets_bind.mpr ((bears.pushSite .goto).imp fun _ c1 pushed => ?_)
    refine ClassForge.meets_bind.mpr (pushed.1.swapSites.imp fun _ c2 swapped => ?_)
    refine swapped.1.popSite.imp fun _ c popped => ⟨c, popped.1, ?_, rfl⟩
    rw [popped.2, swapped.2, pushed.2, Frame.jumpSize, if_neg opened]

theorem stacked_arm (another : arm ≠ .last) (stacked : Stacked (.branch arm exits :: scopes) ops) :
    ∃ t below, ops = t :: (List.replicate exits .goto ++ below) ∧ Stacked scopes below := by
  obtain ⟨own, below, rfl, keeps, outer⟩ := stacked
  cases arm with
  | last => exact absurd rfl another
  | first | next =>
    obtain ⟨t, -, rfl⟩ := keeps
    exact ⟨t, below, rfl, outer⟩

end Step

theorem Settled.scopes_of_top (h : Settled P ctx w) (top : w.method.top.scope = scope) :
    w.method.scopes = scope :: w.method.frames.tail.map Frame.scope := by
  rw [Method.scopes, h.laid.frames]
  simp [top]

theorem level_arm (another : arm ≠ .last) : (Scope.branch arm exits).level = .branch false := by
  simp [Scope.level, another]

namespace Step

variable (h : Settled (lax i) ctx w) (tidy : w.method.Tidy)

include h tidy

theorem meets_elseIf : Achieves ctx (.elseIf c) w (elseIf c) := by
  obtain ⟨⟨ops, bears, stacked⟩, slots⟩ := tidy
  simp only [elseIf, meets_bind]
  refine (mild_chainExits _).meets fun exits _ chain => ?_
  obtain ⟨rfl, arm, another, top⟩ := of_chainExits chain
  have scopes := h.scopes_of_top top
  refine meets_test h slots fun x v made slots fits => ?_
  have calm := made.calm
  obtain ⟨t, isTest, opens⟩ := fits.jump false
  rw [scopes] at bears stacked
  obtain ⟨_, below, rfl, outer⟩ := stacked_arm another stacked
  simp only [meets_top]
  split
  · rfl
  simp only [meets_bind]
  rw [← calm.code] at bears
  refine (meets_skipArm bears).imp fun n _ skipped => ?_
  obtain ⟨c, bears, skipped, rfl⟩ := skipped
  simp only [meets_top, meets_setTop, meets_method, meets_mark, meets_reserve, emitTest, meets_code]
  rw [calm.code, calm.top] at skipped
  refine (bears.push (opens [])).imp fun _ c' bears => ?_
  have reaches := bears.reaches
  rw [calm.code] at reaches
  refine .of_bears (k := .branch .next n :: w.method.frames.tail.map Frame.scope) (h := w.method.handlers)
    scopes ?_ ?_ bears ⟨t :: List.replicate n .goto, below, rfl, ⟨t, isTest, rfl⟩, outer⟩ slots
  · have begins := made.begins (n := c.pos)
    rw [← calm.frames]
    simp only [Work.started, Statement.start?, ← skipped, Option.elim_some, ← begins]
    rw [← calm.handlers]
    rfl
  · rw [List.map_cons, level_arm another]
    exact .elseIf reaches

theorem meets_elseOpen : Achieves ctx .elseOpen w elseOpen := by
  obtain ⟨⟨ops, bears, stacked⟩, slots⟩ := tidy
  simp only [elseOpen, meets_bind]
  refine (mild_chainExits _).meets fun exits _ chain => ?_
  obtain ⟨rfl, arm, another, top⟩ := of_chainExits chain
  have scopes := h.scopes_of_top top
  rw [scopes] at bears stacked
  obtain ⟨_, below, rfl, outer⟩ := stacked_arm another stacked
  refine (meets_skipArm bears).imp fun n _ skipped => ?_
  obtain ⟨c, bears, -, rfl⟩ := skipped
  have reaches := bears.reaches
  refine .of_bears scopes rfl ?_ bears
    ⟨_, below, rfl, rfl, outer⟩ slots
  rw [List.map_cons, level_arm another]
  exact .elseOpen reaches

theorem meets_whileOpen : Achieves ctx (.whileOpen c) w (whileOpen c) := by
  obtain ⟨⟨ops, bears, stacked⟩, slots⟩ := tidy
  simp only [whileOpen, meets_bind]
  refine meets_test h slots fun x v made slots fits => ?_
  simp only [meets_method, meets_mark, meets_pos]
  cases endless : isEndless x.expr with
  | true =>
    rw [made.calm.code]
    exact .opens (.loop (.test true) w.method.code.pos [] none) rfl rfl rfl bears stacked
      (congrArg (Shape.push _) made.begins) slots
  | false =>
    obtain ⟨t, isTest, opens⟩ := fits.jump false
    simp only [Bool.not_false, if_true, meets_bind, meets_reserve, emitTest, meets_code, meets_openScope]
    rw [made.calm.code]
    refine (bears.push (opens [])).imp fun _ c bears => ?_
    exact .opens (.loop (.test false) w.method.code.pos [] none) rfl rfl ⟨t, isTest, rfl⟩ bears stacked
      (congrArg (Shape.push _) made.begins) slots

end Step

structure Aside (w w' : Work) : Prop where
  code : w'.method.code = w.method.code
  frames : w.method.frames ≠ [] → w'.method.frames ≠ []
  shape : w.method.frames ≠ [] → w'.shape = w.shape
  slots : SlotsFit w.method.locals → SlotsFit w'.method.locals

namespace Aside

variable {t : JType} {name : String}

theorem trans (h : Aside w v) (k : Aside v w') : Aside w w' where
  code := k.code.trans h.code
  frames some := k.frames (h.frames some)
  shape some := (k.shape (h.frames some)).trans (h.shape some)
  slots low := k.slots (h.slots low)

theorem of_made (made : Made P ctx w w') : Aside w w' where
  code := made.calm.code
  frames some := made.calm.frames ▸ some
  shape _ := made.shape
  slots low := made.calm.locals ▸ low

theorem allocate {hidden : Bool} {id : Nat} (limit : ctx.options.maxLocals ≤ 65535)
    (run : Step.Gives ctx (Step.allocate t name hidden) w id w') : Aside w w' := by
  obtain ⟨fits, -, rfl⟩ := Step.gives_allocate.mp run
  simp only [Method.fits, decide_eq_true_eq] at fits
  exact ⟨rfl, fun some => some, fun _ => rfl, fun low => Step.slots_push low (by omega)⟩

theorem hiddenLocal {id : Nat} (limit : ctx.options.maxLocals ≤ 65535)
    (run : Step.Gives ctx (Step.hiddenLocal t name) w id w') : Aside w w' := by
  simp only [Step.hiddenLocal, Step.gives_bind, Step.gives_pure, Step.gives_assign, passed] at run
  obtain ⟨_, v, allocated, rfl, rfl⟩ := run
  refine (allocate limit allocated).trans ⟨rfl, fun _ => List.cons_ne_nil _ _, fun some => ?_, fun low => low⟩
  obtain ⟨f, rest, frames⟩ := List.exists_cons_of_ne_nil some
  simp [Work.shape, Method.scopes, Method.top, frames]

end Aside

theorem lax_proper {P : Prop} : (lax i).typed → P := False.elim

theorem Sound.hiddenLocal {id : Nat} (sound : Sound (lax i) ctx w)
    (run : Step.Gives ctx (Step.hiddenLocal t name) w id w') :
    Sound (lax i) ctx w' ∧ id < w'.method.locals.size ∧ w'.method.locals.size = w.method.locals.size + 1 := by
  simp only [Step.hiddenLocal, Step.gives_bind, Step.gives_pure, Step.gives_assign, passed] at run
  obtain ⟨_, v, allocated, rfl, rfl⟩ := run
  have sound := sound.allocate lax_proper allocated
  obtain ⟨-, rfl, rfl⟩ := Step.gives_allocate.mp allocated
  refine ⟨sound.reshape, ?_, ?_⟩ <;> simp [Method.addLocal]

namespace Step

variable {type : JType} {id item start top : Nat} {name : String} {good : Work → Prop}

theorem slots_modify (slots : SlotsFit locals) : SlotsFit (locals.modify item fun l => { l with start }) :=
  forall_modify slots slots

theorem meets_openLoop
    {good : Unit → Work → Prop} (fits : Expr.Fits elem.expr.emit) (slots : SlotsFit w.method.locals)
    (bears : w.method.code.Bears g loose (t :: ops))
    (next : ∀ v, v.method.code.Bears g loose (t :: ops) → v.shape = w.shape.push (.loop kind top [] none) →
      SlotsFit v.method.locals → good () v) :
    Meets ctx (openLoop kind top type item elem) w good := by
  simp only [openLoop, meets_bind, meets_own, meets_reserve, emitValue, meets_code, meets_localAt, meets_pos, meets_update,
    meets_openScope, meets_assign]
  refine (bears.keep fits.value).imp fun _ c bears => ?_
  refine (bears.keep (.store _ (slot_getD slots item))).imp fun _ c bears => ?_
  exact next _ bears rfl (slots_modify slots)

theorem meets_readNode {good : Term → Work → Prop} (sound : Sound (lax i) ctx w)
    (here : id < w.method.locals.size) (next : ∀ t v, Made (lax i) ctx w v → Fine (lax i) v t.expr → good t v) :
    Meets ctx (localRead id) w fun e v => Meets ctx (node e []) v good := by
  refine (mild_localRead _).meets fun _ _ read => ?_
  obtain ⟨rfl, rfl⟩ := gives_localRead.mp read
  refine (mild_node _ _).meets fun t v node => ?_
  obtain ⟨made, shown⟩ := sound.node (fine_local sound here) node
  exact next t v made (shown ▸ made.fine (fine_local sound here))

section

variable (sound : Sound (lax i) ctx w) (limit : ctx.options.maxLocals ≤ 65535) (some : w.method.frames ≠ [])
  (slots : SlotsFit w.method.locals) (bears : w.method.code.Bears g loose ops)

include sound limit some slots bears

theorem meets_forArray {source : JType}
    (next : ∀ v counter top, v.method.code.Bears g loose (.ifIcmpge :: ops) →
      v.shape = w.shape.push (.loop (.array counter []) top [] none) → SlotsFit v.method.locals → good v) :
    Meets ctx (forArray type name source) w fun _ w' => good w' := by
  simp only [forArray, meets_bind]
  refine (explained_hiddenLocal _ _).of_yields fun array w1 hidden1 => ?_
  refine (explained_hiddenLocal _ _).of_yields fun counter w2 hidden2 => ?_
  refine (explained_allocate _ _ _).of_yields fun item w3 allocated => ?_
  obtain ⟨sound1, lt1, -⟩ := sound.hiddenLocal hidden1
  obtain ⟨sound2, lt2, size2⟩ := sound1.hiddenLocal hidden2
  have sound3 := sound2.allocate lax_proper allocated
  have size3 : w3.method.locals.size = w2.method.locals.size + 1 := by
    obtain ⟨-, -, rfl⟩ := gives_allocate.mp allocated
    simp [Method.addLocal]
  have aside := ((Aside.hiddenLocal limit hidden1).trans (.hiddenLocal limit hidden2)).trans (.allocate limit allocated)
  have slots := aside.slots slots
  rw [← aside.code] at bears
  simp only [meets_localAt, meets_code, meets_pos]
  refine (bears.keep (.store _ (slot_getD slots array))).imp fun _ c bears => ?_
  refine (bears.keep (.emit _)).imp fun _ c bears => ?_
  refine (bears.keep (.store _ (slot_getD slots counter))).imp fun _ c1 bears => ?_
  refine (bears.keep (.load _ (slot_getD slots counter))).imp fun _ c bears => ?_
  refine (bears.keep (.load _ (slot_getD slots array))).imp fun _ c bears => ?_
  refine (bears.keep (.emit _)).imp fun _ c bears => ?_
  refine (bears.push (.pushSite _)).imp fun _ c bears => ?_
  have head : Sound (lax i) ctx (w3.withCode c) := sound3.reshape
  refine meets_readNode head (show array < w3.method.locals.size by omega) fun a w4 made1 fineA => ?_
  have lt : counter < w4.method.locals.size := by
    rw [made1.calm.locals]
    change counter < w3.method.locals.size
    omega
  refine meets_readNode made1.sound lt fun b w5 made2 fineB => ?_
  have fineX : Fine (lax i) w5 (.arrayGet source.elem a.expr b.expr) :=
    ⟨.arrayGet (made2.fine fineA).good fineB.good (lax_proper (i := i)),
      fun l hl => (List.mem_append.mp hl).elim ((made2.fine fineA).reads l) (fineB.reads l), lax_proper⟩
  refine (mild_node _ _).meets fun x w6 node3 => ?_
  obtain ⟨made3, exprX⟩ := made2.sound.node fineX node3
  have made := (made1.trans made2).trans made3
  refine meets_assignConv made (exprX ▸ made3.fine fineX) slots fun elem w7 made _ slots fits => ?_
  have same : w7.method.code = c := made.calm.code
  rw [← same] at bears
  refine meets_openLoop (t := .ifIcmpge) fits slots bears fun v bears shape low => ?_
  exact next v _ _ bears (shape.trans (congrArg _ (made.shape.trans (aside.shape some)))) low

theorem meets_forIterable (next : ∀ v top, v.method.code.Bears g loose (.ifeq :: ops) →
      v.shape = w.shape.push (.loop .items top [] none) → SlotsFit v.method.locals → good v) :
    Meets ctx (forIterable type name) w fun _ w' => good w' := by
  simp only [forIterable, meets_bind]
  refine (explained_hiddenLocal _ _).of_yields fun it w1 hidden => ?_
  refine (explained_allocate _ _ _).of_yields fun item w2 allocated => ?_
  obtain ⟨sound1, lt1, -⟩ := sound.hiddenLocal hidden
  have sound2 := sound1.allocate lax_proper allocated
  have size2 : w2.method.locals.size = w1.method.locals.size + 1 := by
    obtain ⟨-, -, rfl⟩ := gives_allocate.mp allocated
    simp [Method.addLocal]
  refine (mild_pool _).meets fun start w3 entry1 => ?_
  obtain ⟨made1, -⟩ := sound2.intern (Pool.interns_member _ _ _ _) entry1
  refine (mild_pool _).meets fun hasNext w4 entry2 => ?_
  obtain ⟨made2, -⟩ := made1.sound.intern (Pool.interns_member _ _ _ _) entry2
  have aside := ((Aside.hiddenLocal limit hidden).trans (.allocate limit allocated)).trans (.of_made (made1.trans made2))
  have before := (made1.trans made2).calm
  have slots := aside.slots slots
  have slot : (w2.method.locals.getD it default).slot < 65536 := before.locals ▸ slot_getD slots it
  rw [← aside.code] at bears
  simp only [meets_code, meets_pos]
  refine (bears.keep (.emitInterface _ _)).imp fun _ c bears => ?_
  refine (bears.keep (.store _ slot)).imp fun _ c bears => ?_
  refine (bears.keep (.load _ slot)).imp fun _ c bears => ?_
  refine (bears.keep (.emitInterface _ _)).imp fun _ c bears => ?_
  refine (bears.push (.pushSite _)).imp fun _ c bears => ?_
  have head : Sound (lax i) ctx (w4.withCode c) := made2.sound.reshape
  have lt : it < w4.method.locals.size := by
    rw [before.locals]
    omega
  refine meets_readNode head lt fun r w5 made3 fineR => ?_
  refine (mild_target _ _ _ _ _ _).meets fun call w6 called => ?_
  refine (mild_node _ _).meets fun x w7 node => ?_
  obtain ⟨made4, adapted1, -⟩ := callOne_spec made3.sound fineR lax_proper (by decide) trivial called lax_proper node
  refine (mild_castConv x type).meets fun elem w8 conv => ?_
  obtain ⟨made5, adapted, -⟩ := castConv_spec made4.sound adapted1.fine lax_proper trivial conv
  have made := made3.trans (made4.trans made5)
  have calm := made.calm
  have slots : SlotsFit w8.method.locals := calm.locals ▸ slots
  have same : w8.method.code = c := calm.code
  rw [← same] at bears
  refine meets_openLoop (t := .ifeq) (adapted.fine.fits slots) slots bears fun v bears shape low => ?_
  exact next v _ bears (shape.trans (congrArg _ (made.shape.trans (aside.shape some)))) low

end

theorem meets_forEach (h : Settled (lax i) ctx w) (limit : ctx.options.maxLocals ≤ 65535) (tidy : w.method.Tidy) :
    Achieves ctx (.forEach type name source) w (forEach type name source) := by
  obtain ⟨⟨ops, bears, stacked⟩, slots⟩ := tidy
  simp only [forEach, meets_bind]
  refine meets_ofExcept (checkName_mild name) fun _ _ => ?_
  refine meets_claim h fun e fine => ?_
  have fits := fine.fits slots
  simp only [meets_read]
  refine meets_else rfl fun _ => ?_
  refine meets_else rfl fun _ => ?_
  refine meets_else rfl fun _ => ?_
  simp only [meets_bind]
  refine (mild_own e).meets fun _ w1 own => ?_
  simp only [meets_method]
  refine (mild_mark _ _ _).meets fun _ w2 mark => ?_
  refine (mild_reserve _).meets fun _ w3 reserve => ?_
  obtain ⟨calm, -, -⟩ := calm_prepare (.refl h.sound) own mark reserve
  have shape : w3.shape = w.begins w.method.code.pos := by
    rw [gives_own] at own
    rw [gives_mark] at mark
    rw [gives_reserve] at reserve
    subst own mark reserve
    rfl
  have slots := calm.locals ▸ slots
  have some : w3.method.frames ≠ [] := by
    rw [calm.frames, h.laid.frames]
    exact List.cons_ne_nil _ _
  simp only [emitValue, meets_code]
  rw [calm.code]
  refine (bears.keep fits.value).imp fun _ c bears => ?_
  have sound : Sound (lax i) ctx (w3.withCode c) := calm.sound.reshape
  rw [meets_ite]
  refine ⟨fun _ => ?_, fun _ => ?_⟩
  · refine meets_forArray sound limit some slots bears fun v counter top bears new low => ?_
    exact .opens (.loop (.array counter []) top [] none) rfl rfl ⟨_, by decide, rfl⟩ bears stacked
      (new.trans (congrArg _ shape)) low
  · refine meets_forIterable sound limit some slots bears fun v top bears new low => ?_
    exact .opens (.loop .items top [] none) rfl rfl ⟨_, by decide, rfl⟩ bears stacked (new.trans (congrArg _ shape)) low

end Step

section

variable {frames : List Frame} {kind : LoopKind} {top site : Nat}

theorem levels_updateLoop (loops : ∀ kind top breaks left, (F kind top breaks left).level = .loop) :
    ((updateLoop F frames).map Frame.scope).map Scope.level = (frames.map Frame.scope).map Scope.level := by
  induction frames with
  | nil => rfl
  | cons f rest ih =>
    cases scope : f.scope with
    | loop k n breaks left =>
      simp only [updateLoop, scope, List.map_cons, loops]
      rfl
    | body | branch | guarded => simp [updateLoop, scope, ih]

theorem Stacked.updateLoop
    (keeps : ∀ kind top breaks left ops, (Scope.loop kind top breaks left).Keeps ops → (F kind top breaks left).Keeps ops)
    (stacked : Stacked (frames.map Frame.scope) ops) : Stacked ((Step.updateLoop F frames).map Frame.scope) ops := by
  induction frames generalizing ops with
  | nil => exact stacked
  | cons f rest ih =>
    obtain ⟨own, below, rfl, kept, outer⟩ := stacked
    cases scope : f.scope with
    | loop k n breaks left =>
      simp only [Step.updateLoop, scope, List.map_cons]
      exact ⟨own, below, rfl, keeps _ _ _ _ _ (scope ▸ kept), outer⟩
    | body | branch | guarded =>
      simp only [Step.updateLoop, scope, List.map_cons]
      exact ⟨own, below, rfl, scope ▸ kept, ih outer⟩

theorem mem_levels_of_innermostLoop (found : innermostLoop frames = some (kind, top)) :
    .loop ∈ (frames.map Frame.scope).map Scope.level := by
  induction frames with
  | nil => cases found
  | cons f rest ih =>
    cases scope : f.scope with
    | loop k n breaks left =>
      simp only [List.map_cons, scope]
      exact List.mem_cons_self
    | body | branch | guarded =>
      simp only [innermostLoop, scope] at found
      exact List.mem_cons_of_mem _ (ih found)

theorem scopes_close (some : frames ≠ []) {m : Method} (shown : m.frames = frames) :
    ({ m.top with closed := true } :: m.frames.tail).map Frame.scope = frames.map Frame.scope := by
  obtain ⟨f, rest, rfl⟩ := List.exists_cons_of_ne_nil some
  simp [Method.top, shown]

end

theorem innermostLoop_ne_nil (loop : innermostLoop frames = some found)
    (F : LoopKind → Nat → List Nat → Option LocalSet → Scope) : updateLoop F frames ≠ [] := by
  cases frames with
  | nil => cases loop
  | cons f rest =>
    obtain ⟨scope, rest', shown⟩ := updateLoop_cons F f rest
    rw [shown]
    exact List.cons_ne_nil _ _

namespace Step

variable {f : Frame} {t type : JType} {caught : List JType} {exits : List Nat} {e site start top : Nat}
  {name : String} {good : Work → Prop}

theorem meets_breakLoop (tidy : w.method.Tidy) : Achieves ctx .breakLoop w breakLoop := by
  obtain ⟨⟨ops, bears, stacked⟩, slots⟩ := tidy
  simp only [breakLoop, meets_bind, meets_method]
  cases found : innermostLoop w.method.frames with
  | none => rfl
  | some loop =>
    obtain ⟨kind, top⟩ := loop
    simp only [meets_bind, meets_method, meets_mark, meets_code, meets_top, meets_update, meets_close]
    refine (bears.jump .goto).imp fun site c jumped => ?_
    obtain ⟨-, bears, -⟩ := jumped
    have reaches := bears.reaches
    refine .of_bears rfl (congrArg (fun scopes => { w.begins _ with scopes }) (scopes_close (innermostLoop_ne_nil found _)
      rfl)) ?_ (bears.perm (loose_updateLoop found ?_)) (stacked.updateLoop ?_) slots
    · rw [levels_updateLoop fun _ _ _ _ => rfl]
      exact .jump (.inl rfl) (mem_levels_of_innermostLoop found) reaches
    · exact fun breaks left => perm_addBreak kind breaks
    · rintro (⟨(_ | _)⟩ | _ | _) _ _ _ ops keeps <;> exact keeps

theorem meets_continueLoop (h : Settled (lax i) ctx w) (tidy : w.method.Tidy) :
    Achieves ctx .continueLoop w continueLoop := by
  obtain ⟨⟨ops, bears, stacked⟩, slots⟩ := tidy
  simp only [continueLoop, meets_bind, meets_method]
  cases found : innermostLoop w.method.frames with
  | none => rfl
  | some loop =>
    obtain ⟨kind, top⟩ := loop
    have inLoop := mem_levels_of_innermostLoop found
    simp only [meets_bind, meets_method, meets_mark]
    cases kind with
    | test | items =>
      simp only [meets_bind, meets_code, meets_close]
      refine (bears.branchTo .goto).imp fun _ c jumped => ?_
      have reaches := jumped.1.reaches
      exact .of_bears rfl (h.begins_cons (.refl h.sound) rfl) (.jump (.inr rfl) inLoop reaches) jumped.1 stacked slots
    | array counter continues =>
      simp only [meets_bind, meets_code, meets_update, meets_close]
      refine (bears.jump .goto).imp fun site c jumped => ?_
      obtain ⟨-, bears, -⟩ := jumped
      have reaches := bears.reaches
      refine .of_bears rfl (congrArg (fun scopes => { w.begins _ with scopes }) (scopes_close (innermostLoop_ne_nil found _)
        rfl)) ?_ (bears.perm (loose_updateLoop found ?_)) (stacked.updateLoop ?_) slots
      · rw [levels_updateLoop (by rintro (_ | _) _ _ _ <;> rfl)]
        exact .jump (.inr rfl) inLoop reaches
      · exact fun breaks _ => perm_addContinue breaks
      · rintro (_ | _) _ _ _ ops keeps <;> exact keeps

/-! Protected ranges and their handlers. -/

theorem meets_tryOpen (tidy : w.method.Tidy) : Achieves ctx .tryOpen w tryOpen := by
  obtain ⟨⟨ops, bears, stacked⟩, slots⟩ := tidy
  exact .opens (.guarded w.method.code.pos none [] []) rfl rfl rfl bears stacked rfl slots

theorem meets_openHandler (sound : Sound (lax i) ctx w) (limit : ctx.options.maxLocals ≤ 65535)
    (slots : SlotsFit w.method.locals) (bears : w.method.code.Bears g loose ops)
    (next : ∀ v ref, v.method.code.Bears w.method.code.pos loose ops → v.pool.className? ref = some t.internalName →
      v.shape = { w.begins w.method.code.pos with
        scopes := .guarded start (some e) exits (caught ++ [t]) :: w.method.frames.tail.map Frame.scope
        handlers := w.method.handlers.push ⟨start, e, w.method.code.pos, ref⟩ } →
      SlotsFit v.method.locals → good v) :
    Meets ctx (openHandler f start e exits caught t name) w fun _ w' => good w' := by
  simp only [openHandler, meets_bind]
  refine (mild_pool _).meets fun ref w1 entry => ?_
  obtain ⟨made, named⟩ := sound.intern (Pool.interns_classRef _) entry
  have calm := made.calm
  have slots := calm.locals ▸ slots
  refine meets_allocate limit fun low => ?_
  have slots : SlotsFit (w1.method.addLocal (t.resolve ctx.name) name false false).locals := slots_push slots low
  simp only [meets_pos, meets_update, meets_method, meets_mark, meets_reserve, meets_localAt, meets_code, meets_assign,
    meets_pure]
  rw [← calm.code] at bears
  refine (bears.renew.keep (.store _ (slot_getD slots _))).imp fun _ c bears => ?_
  rw [calm.code] at bears
  refine next _ ref bears named ?_ (slots_modify slots)
  rw [← made.begins, ← calm.code, ← calm.frames, ← calm.handlers]
  rfl

theorem meets_endArm (sound : Sound (lax i) ctx w) (limit : ctx.options.maxLocals ≤ 65535)
    (slots : SlotsFit w.method.locals) (bears : w.method.code.Bears g (exits ++ loose) ops)
    (next : ∀ v ref target exits', target = w.method.code.pos + f.jumpSize → target ≤ v.method.code.pos →
      v.method.code.Bears g (exits' ++ loose) ops → v.pool.className? ref = some t.internalName →
      v.shape = { w.begins target with
        scopes := .guarded start (some (stop.getD w.method.code.pos)) exits' (caught ++ [t]) ::
          w.method.frames.tail.map Frame.scope
        handlers := w.method.handlers.push ⟨start, stop.getD w.method.code.pos, target, ref⟩ } →
      SlotsFit v.method.locals → good v) : Meets ctx (endArm f start stop exits caught t name) w fun _ w' => good w' := by
  have reached := bears.reaches
  simp only [endArm, meets_bind, meets_pos]
  rw [Frame.merge_closed]
  cases closed : f.closed with
  | true =>
    refine meets_openHandler sound limit slots bears fun v ref bears named shape low => ?_
    exact next v ref _ exits (by simp [Frame.jumpSize, closed]) bears.reaches
      { bears with reaches := Nat.le_trans reached bears.reaches } named shape low
  | false =>
    simp only [Bool.false_eq_true, if_false, meets_bind, meets_code, meets_pure]
    refine (bears.jump .goto).imp fun site c jumped => ?_
    obtain ⟨-, bears, grown⟩ := jumped
    have same : (site :: (exits ++ loose)).Perm ((exits ++ [site]) ++ loose) := by
      rw [List.append_assoc]
      exact List.perm_middle.symm
    have bears := bears.perm same
    refine meets_openHandler (w := w.withCode c) sound.reshape limit slots bears fun v ref bears named shape low => ?_
    have later : c.pos ≤ v.method.code.pos := bears.reaches
    exact next v ref c.pos (exits ++ [site]) (by simp [Frame.jumpSize, closed, grown]) later { bears with reaches := by omega }
      named shape low

theorem meets_catchOpen (h : Settled (lax i) ctx w) (limit : ctx.options.maxLocals ≤ 65535) (tidy : w.method.Tidy) :
    Achieves ctx (.catchOpen type name) w (catchOpen type name) := by
  obtain ⟨⟨ops, bears, stacked⟩, slots⟩ := tidy
  simp only [catchOpen, meets_bind, meets_top]
  split
  swap
  · rfl
  rename_i start stop exits caught top
  have scopes := h.scopes_of_top top
  obtain ⟨spots, protects⟩ := h.laid.protects top
  rw [scopes] at bears stacked
  simp only [meets_bind, meets_read]
  refine meets_ofExcept (checkName_mild name) fun _ _ => ?_
  refine (mild_isAssignable _ _).meets fun _ _ asked => ?_
  obtain ⟨rfl, rfl⟩ := gives_isAssignable.mp asked
  refine meets_else rfl fun _ => ?_
  split
  · rfl
  -- Both ways to the handler agree on where the range ends.
  have ends : ∀ v ref (e target : Nat) exits', stop.getD (if w.method.code.pos = start then w.method.code.pos + 1 else
        w.method.code.pos) = e → e ≤ target → target = w.method.code.pos + w.method.padSize + w.method.top.jumpSize →
      target ≤ v.method.code.pos →
      v.method.code.Bears w.method.code.pos (exits' ++ (w.method.frames.tail.map Frame.scope).flatMap Scope.loose) ops →
      v.pool.className? ref = some (type.resolve ctx.name).internalName →
      v.shape = { w.begins target with
        scopes := .guarded start (some e) exits' (caught ++ [type.resolve ctx.name]) :: w.method.frames.tail.map Frame.scope
        handlers := w.method.handlers.push ⟨start, e, target, ref⟩ } →
      SlotsFit v.method.locals → Outcome ctx (.catchOpen type name) w v := by
    rintro v ref e target exits' rfl inside rfl within bears named shape low
    exact .of_bears scopes shape (.handler named inside (by omega) within) bears stacked low
  rw [meets_bind, meets_pos]
  by_cases vacant : (stop.isNone && decide (w.method.code.pos = start)) = true
  · rw [if_pos vacant]
    simp only [Bool.and_eq_true, Option.isNone_iff_eq_none, decide_eq_true_eq] at vacant
    obtain ⟨rfl, rfl⟩ := vacant
    rw [meets_bind, meets_code]
    refine (bears.put [Opcode.nop.byte]).imp fun _ c emitted => ?_
    obtain ⟨bears, grown⟩ := emitted
    have step : c.pos = w.method.code.pos + 1 := grown
    have pads : w.method.padSize = 1 := by
      rw [Method.padSize, top]
      exact if_pos rfl
    refine meets_endArm (w := w.withCode c) h.sound.reshape limit slots bears
      fun v ref target exits' late within bears named shape low => ?_
    change target = c.pos + _ at late
    refine ends v ref _ target exits' ?_ (Nat.le.intro late.symm) (by rw [late, step, pads]) within bears named shape low
    rw [if_pos rfl]
    exact step.symm
  · rw [if_neg vacant]
    have pads : w.method.padSize = 0 := by
      rw [Method.padSize, top, if_neg]
      rintro ⟨⟩
      simp at vacant
    refine meets_endArm h.sound limit slots bears fun v ref target exits' late within bears named shape low => ?_
    refine ends v ref _ target exits' ?_ ?_ (by rw [late, pads, Nat.add_zero]) within bears named shape low
    · cases stop with
      | none =>
        simp only [Option.isNone_none, Bool.true_and, decide_eq_true_eq] at vacant
        rw [if_neg vacant]
      | some e => rfl
    · cases stop with
      | none => exact Nat.le.intro late.symm
      | some e => exact Nat.le_trans (protects.stops e rfl).2.1 (Nat.le.intro late.symm)

end Step

end

end ClassForge.Assembler

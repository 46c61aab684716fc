import ClassForge.Proofs.Finishing
import ClassForge.Proofs.Outcomes

/-! Every step keeps the locals of its method on consecutive slots, within the limit. -/

namespace ClassForge.Assembler.Step

open Step

variable {α β : Type} {t : JType}

theorem packed_bounds (h : Packed start ls stop) : start ≤ stop ∧ ∀ x ∈ ls, x.1 + x.2.slots ≤ stop := by
  induction ls generalizing start with
  | nil =>
    cases h
    simp
  | cons l ls ih =>
    obtain ⟨rfl, -, rest⟩ := h
    obtain ⟨behind, each⟩ := ih rest
    exact ⟨Nat.le_of_add_right_le behind, List.forall_mem_cons.mpr ⟨behind, each⟩⟩

theorem packed_append (h : Packed start ls stop)
    (width : t.slots = 1 ∨ t.slots = 2) : Packed start (ls ++ [(stop, t)]) (stop + t.slots) := by
  induction ls generalizing start with
  | nil =>
    cases h
    exact ⟨rfl, width, rfl⟩
  | cons l ls ih => exact ⟨h.1, h.2.1, ih h.2.2⟩

theorem inRow_addLocal {m : Method} (row : m.InRow limit) (value : t.isVoid = false) (fits : m.fits limit t = true)
    (name : String) (param hidden : Bool) : (m.addLocal t name param hidden).InRow limit := by
  have width : t.slots = 1 ∨ t.slots = 2 := by
    rw [JType.slots, value]
    by_cases wide : t.isWide <;> simp [wide]
  have packed := packed_append row.1 width
  exact ⟨by simpa [Method.row, Method.addLocal] using packed, by simpa [Method.fits, Method.addLocal] using fits⟩

theorem inRow_bounds {m : Method} (row : m.InRow limit) (hl : l ∈ m.locals) : l.slot + l.type.slots ≤ m.nextSlot :=
  (packed_bounds row.1).2 _ (List.mem_map_of_mem (Array.mem_toList_iff.mpr hl))

theorem isVoid_of_isReference (reference : t.isReference = true) : t.isVoid = false := by
  have kind : t.kind = .reference := by simpa [JType.isReference] using reference
  simp [JType.isVoid, kind]

/-- A local is added where there is room for it; else nothing changes. -/
theorem allocate_eq (name : String) (hidden : Bool) (ctx : Context) (w : Work) : allocate t name hidden ctx w =
    if w.method.fits ctx.options.maxLocals (t.resolve ctx.name) then (.ok w.method.locals.size,
      { w with method := w.method.addLocal (t.resolve ctx.name) name false hidden })
    else (.error (w.method.overLimit ctx.options.maxLocals (t.resolve ctx.name) name), w) := by
  change (ite _ _ _ : Step Nat) ctx w = _
  split <;> rfl

namespace Orderly

attribute [grind ←] bind

@[grind ←] theorem pure : Orderly (Pure.pure x : Step α) := (mild_pure x).2

@[grind ←] theorem own : Orderly (own e) := (mild_own e).2

@[grind ←] theorem node : Orderly (node e es) := (mild_node e es).2

@[grind ←] theorem mark : Orderly (mark kind n text) := (mild_mark kind n text).2

@[grind ←] theorem reserve : Orderly (reserve n) := (mild_reserve n).2

@[grind ←] theorem read : Orderly MonadReader.read := mild_read.2

@[grind ←] theorem method : Orderly method := mild_method.2

@[grind ←] theorem top : Orderly top := mild_top.2

@[grind ←] theorem pool {x : Pool.Action α} : Orderly (pool x) := (mild_pool x).2

@[grind ←] theorem localAt : Orderly (localAt n) := (mild_localAt n).2

@[grind ←] theorem localRead : Orderly (localRead n) := (mild_localRead n).2

@[grind ←] theorem isAssigned : Orderly (isAssigned n) := (mild_isAssigned n).2

@[grind ←] theorem assign : Orderly (assign n) := (mild_assign n).2

@[grind ←] theorem ownLocal : Orderly (ownLocal l) := (mild_ownLocal l).2

@[grind ←] theorem claim : Orderly (claim o) := (mild_claim o).2

@[grind ←] theorem claim2 : Orderly (claim2 o v) := (mild_claim2 o v).2

@[grind ←] theorem assignConv : Orderly (assignConv e t) := (mild_assignConv e t).2

@[grind ←] theorem castConv : Orderly (castConv e t) := (mild_castConv e t).2

@[grind ←] theorem field : Orderly (field t name s) := (mild_field t name s).2

@[grind ←] theorem checkFinal : Orderly (checkFinal f) := (mild_checkFinal f).2

@[grind ←] theorem isAssignable : Orderly (isAssignable s t) := (mild_isAssignable s t).2

@[grind ←] theorem test : Orderly (test c) := (mild_test c).2

@[grind ←] theorem chainExits : Orderly (chainExits what) := (mild_chainExits what).2

@[grind ←] theorem checkDangling : Orderly (checkDangling n) := (mild_checkDangling n).2

@[grind ←] theorem throw : Orderly (MonadExcept.throw e : Step α) := ⟨fun _ _ => id, fun _ _ _ => ⟨_, rfl⟩⟩

@[grind ←] theorem map {g : α → β} (h : Orderly a) : Orderly (g <$> a) := by
  exact h.bind fun _ => pure

@[grind ←] theorem ofExcept : Orderly (ofExcept x) := by
  cases x <;> exact ⟨fun _ _ => id, fun _ _ _ => ⟨_, rfl⟩⟩

@[grind ←] theorem code {x : Code.Action α} : Orderly (code x) := ⟨fun _ _ => id, fun _ _ _ => ⟨_, rfl⟩⟩

@[grind ←] theorem pos : Orderly pos := ⟨fun _ _ => id, fun _ _ _ => ⟨_, rfl⟩⟩

@[grind ←] theorem emitValue : Orderly (emitValue e) := ⟨fun _ _ => id, fun _ _ _ => ⟨_, rfl⟩⟩

@[grind ←] theorem emitTest : Orderly (emitTest e) := ⟨fun _ _ => id, fun _ _ _ => ⟨_, rfl⟩⟩

@[grind ←] theorem consume : Orderly (consume e) := ⟨fun _ _ => id, fun _ _ _ => ⟨_, rfl⟩⟩

@[grind ←] theorem setTop : Orderly (setTop f) := ⟨fun _ _ => id, fun _ _ _ => ⟨_, rfl⟩⟩

@[grind ←] theorem close : Orderly close := ⟨fun _ _ => id, fun _ _ _ => ⟨_, rfl⟩⟩

@[grind ←] theorem render : Orderly (render n text) := ⟨fun _ _ => id, fun _ _ _ => ⟨_, rfl⟩⟩

@[grind ←] theorem openScope : Orderly (openScope s) := ⟨fun _ _ => id, fun _ _ _ => ⟨_, rfl⟩⟩

@[grind ←] theorem closeScope : Orderly closeScope := by
  refine orderly_update fun m => ?_
  split <;> exact ⟨rfl, rfl⟩

theorem start : Orderly (update fun m =>
    { m with locals := m.locals.modify n fun l => { l with start := pc } }) := by
  refine orderly_update fun m => ⟨List.ext_getElem? fun i => ?_, rfl⟩
  simp only [Method.row, List.getElem?_map, Array.getElem?_toList, Array.getElem?_modify]
  split_ifs with same
  · subst same
    cases m.locals[n]? <;> rfl
  · rfl

theorem shift : Orderly (update (Method.shift · n)) := by
  have same : ∀ l : Local, ((if l.param then l else { l with start := l.start + n }).slot,
      (if l.param then l else { l with start := l.start + n }).type) = (l.slot, l.type) := by
    intro l
    split <;> rfl
  exact orderly_update fun m => ⟨by simp [Method.row, Method.shift, same], rfl⟩

@[grind ←] theorem allocate (value : t.isVoid = false) : Orderly (allocate t name b) := by
  refine ⟨fun ctx w row => ?_, fun ctx w t => ⟨t, ?_⟩⟩
  · rw [allocate_eq]
    split_ifs with fits
    · exact inRow_addLocal row (by rwa [JType.isVoid, JType.kind_resolve]) fits name false b
    · exact row
  · rw [allocate_eq, allocate_eq]
    dsimp only
    split_ifs <;> rfl

@[grind ←] theorem hiddenLocal (value : t.isVoid = false) : Orderly (hiddenLocal t name) := by
  grind [hiddenLocal]

@[grind ←] theorem openLoop : Orderly (openLoop kind n t item e) :=
  .bind own fun _ => .bind reserve fun _ => .bind emitValue fun _ => .bind localAt fun _ =>
    .bind code fun _ => .bind pos fun _ => .bind start fun _ => by grind

theorem forArray (value : t.isVoid = false) (array : s.isVoid = false) : Orderly (forArray t name s) :=
  .bind (hiddenLocal array) fun _ => .bind (hiddenLocal rfl) fun _ => .bind (allocate value) fun _ =>
    .bind localAt fun _ => .bind localAt fun _ => .bind code fun _ => .bind code fun _ =>
    .bind code fun _ => .bind pos fun _ => .bind code fun _ => .bind code fun _ => .bind code fun _ =>
    .bind code fun _ => .bind localRead fun _ => .bind node fun _ => by grind

theorem forIterable (value : t.isVoid = false) : Orderly (forIterable t name) :=
  .bind (hiddenLocal rfl) fun _ => .bind (allocate value) fun _ => .bind localAt fun _ =>
    .bind pool fun _ => .bind pool fun _ => .bind code fun _ => .bind code fun _ => .bind pos fun _ =>
    .bind code fun _ => .bind code fun _ => .bind code fun _ => .bind localRead fun _ =>
    .bind node fun _ => .bind (mild_target _ _ _ _ _ _).2 fun _ => by grind

theorem forEach : Orderly (forEach t name o) := by
  refine .bind ofExcept fun _ => .bind claim fun _ => .bind read fun ctx => ?_
  dsimp only
  split
  · exact throw
  · have value : (t.resolve ctx.name).isVoid = false := by simp_all
    split
    · exact throw
    · split
      · exact throw
      · refine .bind own fun _ => .bind method fun _ => .bind mark fun _ => .bind reserve fun _ =>
          .bind emitValue fun _ => ?_
        split
        · exact forArray value (isVoid_of_isReference (JType.isReference_of_isArray (by assumption)))
        · exact forIterable value

theorem openHandler (value : t.isVoid = false) : Orderly (openHandler f n stop exits caught t name) :=
  .bind pool fun _ => .bind setTop fun _ => .bind (allocate value) fun _ => .bind pos fun _ =>
    .bind (orderly_update fun _ => ⟨rfl, rfl⟩) fun _ => .bind method fun _ => .bind mark fun _ =>
    .bind reserve fun _ => .bind localAt fun _ => .bind code fun _ => .bind pos fun _ =>
    .bind Orderly.start fun _ => by grind

theorem catchOpen : Orderly (catchOpen t name) := by
  refine .bind top fun f => ?_
  split
  · refine .bind read fun ctx => .bind ofExcept fun _ => .bind isAssignable fun _ => ?_
    split
    · exact throw
    · have value : (t.resolve ctx.name).isVoid = false := isVoid_of_isReference (by simp_all)
      split
      · exact throw
      · refine .bind pos fun _ => ?_
        have handles n stop exits caught : Orderly (endArm f n stop exits caught (t.resolve ctx.name) name) := by
          grind [endArm, openHandler]
        split
        · exact .bind code fun _ => handles _ _ _ _
        · exact handles _ _ _ _
  · exact throw

theorem superCall : Orderly (superCall os) := by
  have called : Orderly (update fun m => { m with superCalled := true }) := orderly_update fun _ => ⟨rfl, rfl⟩
  refine .bind method fun _ => ?_
  split
  · exact throw
  · exact .bind read fun _ => .bind (mild_claimAll _).2 fun _ => .bind (mild_resolve _ _ _ _).2 fun _ =>
      .bind node fun _ => .bind (mild_invoke _ _ _ _).2 fun _ => .bind own fun _ => .bind method fun _ =>
      .bind mark fun _ => .bind reserve fun _ => by grind

theorem breakLoop : Orderly breakLoop := by
  refine .bind method fun _ => ?_
  split
  · exact throw
  · exact .bind method fun _ => .bind mark fun _ => .bind code fun _ => .bind top fun _ =>
      .bind (orderly_update fun _ => ⟨rfl, rfl⟩) fun _ => close

theorem continueLoop : Orderly continueLoop := by
  refine .bind method fun _ => ?_
  split
  · exact throw
  · refine .bind method fun _ => .bind mark fun _ => ?_
    split
    · exact .bind code fun _ => .bind (orderly_update fun _ => ⟨rfl, rfl⟩) fun _ => close
    · exact .bind code fun _ => close

theorem endLoop : Orderly (Step.endLoop kind n sites left) := by
  unfold Step.endLoop
  cases kind <;> grind

theorem sealCode : Orderly sealCode := by
  have ends : Orderly (update fun m => { m with finished := true, frames := [] }) := orderly_update fun _ => ⟨rfl, rfl⟩
  refine .bind pos fun size => ?_
  split
  · exact throw
  · exact .bind ends fun _ => ⟨fun _ _ => id, fun _ _ _ => ⟨_, rfl⟩⟩

theorem wrapUp : Orderly wrapUp := by
  refine .bind checkDangling fun _ => .bind method fun _ => ?_
  dsimp only
  split
  · exact throw
  · refine .bind mild_prologue.2 fun _ => ?_
    split
    split
    · exact .bind code fun _ => .bind shift fun _ => sealCode
    · exact sealCode

theorem closeInnermost : Orderly closeInnermost := by
  refine .bind top fun f => ?_
  cases f.scope with
  | body =>
    refine .bind method fun _ => .bind top fun _ => ?_
    split
    · split
      · exact throw
      · exact .bind code fun _ => wrapUp
    · exact wrapUp
  | branch arm n => exact .bind checkDangling fun _ => .bind (by grind [endBranch]) fun _ => by grind
  | loop kind n breaks left => exact .bind checkDangling fun _ => .bind endLoop fun _ => by grind
  | guarded _ stop exits _ => exact .bind checkDangling fun _ => .bind (by grind [endGuarded]) fun _ => by grind

end Orderly

theorem orderly_perform (s : Statement) : Orderly (perform s) := by
  cases s with
  | forEach t name e => exact Orderly.forEach.map
  | catchOpen t name => exact Orderly.catchOpen.map
  | superCall os => exact Orderly.superCall.bind fun _ => .pure
  | breakLoop => exact Orderly.breakLoop.bind fun _ => .pure
  | continueLoop => exact Orderly.continueLoop.bind fun _ => .pure
  | close => exact Orderly.closeInnermost.bind fun _ => .pure
  | declare t name => exact Orderly.map (.bind .ofExcept fun _ => by grind)
  | setIndex a i v =>
    exact .bind (.bind (mild_claim3 a i v).2 fun _ => .bind (mild_arrayIndex _ _).2 fun _ => .bind .assignConv fun _ =>
      .bind .own fun _ => .bind .own fun _ => .bind .own fun _ => .bind .method fun _ => by grind) fun _ => .pure
  | increment l d => exact .bind (by grind [increment]) fun _ => .pure
  | assign l v =>
    exact .bind (.bind .ownLocal fun _ => .bind .claim fun _ => .bind .localAt fun _ => .bind .assignConv fun _ =>
      by grind) fun _ => .pure
  | evaluate e => exact .bind (.bind .claim fun _ => .bind .consume fun _ => by grind) fun _ => .pure
  | setField o name v =>
    exact .bind (.bind .claim2 fun _ => .bind .field fun _ => .bind .checkFinal fun _ =>
      .bind .assignConv fun _ => .bind .own fun _ => .bind .own fun _ => by grind) fun _ => .pure
  | setStatic owner name v =>
    exact .bind (.bind .claim fun _ => .bind .read fun _ => .bind .field fun _ => .bind .checkFinal fun _ =>
      .bind .assignConv fun _ => .bind .own fun _ => by grind) fun _ => .pure
  | leave v =>
    refine .bind (.bind .method fun m => ?_) fun _ => .pure
    cases v with
    | missing => grind
    | node | foreign =>
      dsimp only
      split
      · exact .throw
      · exact .bind .claim fun _ => .bind .assignConv fun _ => by grind
  | raise e => exact .bind (.bind .claim fun _ => .bind .isAssignable fun _ => by grind) fun _ => .pure
  | ifOpen c => exact .bind (.bind .test fun _ => by grind) fun _ => .pure
  | elseIf c =>
    refine .bind (.bind .chainExits fun _ => .bind .test fun _ => .bind .top fun _ => ?_) fun _ => .pure
    dsimp only
    split
    · exact .throw
    · grind [skipArm]
  | elseOpen => exact .bind (by grind [elseOpen, skipArm]) fun _ => .pure
  | whileOpen c => exact .bind (.bind .test fun _ => by grind) fun _ => .pure
  | tryOpen => exact .bind (by grind [tryOpen]) fun _ => .pure

end ClassForge.Assembler.Step

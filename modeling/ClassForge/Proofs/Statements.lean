import ClassForge.Proofs.Standing

/-! Statements that do not open or close a scope keep a method settled. -/

namespace ClassForge.Assembler

open List Word

def Operand.Timely (m : Method) (o : Operand) : Prop :=
  ∀ (id : Nat) (n : Node), o = .node id → m.nodes[id]? = some n →
    ∀ l ∈ n.expr.reads, m.top.assigned.contains l.id = true

section

variable {P : Policy} {ctx : Context} {w w' : Work} {y : Unit}

theorem Claimed.timely (h : Claimed w o t) (timely : o.Timely w.method) :
    ∀ l ∈ t.expr.reads, w.method.top.assigned.contains l.id = true := by
  obtain ⟨rfl, n, found, same⟩ := h
  rw [← same]
  exact timely _ n rfl found

theorem Calm.known (h : Calm P ctx w w') : w'.known = w.known := by
  rw [Work.known, h.locals, h.top]
  rfl

theorem standing_of_opened (opened : w.method.top.closed = false) : w.method.standing = some ⟨[], w.known⟩ := by
  rw [Method.standing, opened]
  rfl

theorem Settled.opened (h : Settled P ctx w) (opened : w.method.top.closed = false) :
    Stands P ctx w [] [] (some ⟨[], w.known⟩) :=
  ⟨h.sound, standing_of_opened opened ▸ h.laid⟩

theorem Settled.standing (h : Settled P ctx w) (opened : w.method.top.closed = false) (calm : Calm P ctx w w') :
    Stands P ctx w' [] [] (some ⟨[], w'.known⟩) := by
  rw [calm.known]
  exact (h.opened opened).calm calm

theorem Stands.rest (h : Stands P ctx w marks [] (some ⟨[], w.known⟩))
    (opened : w.method.top.closed = false) : Settled P ctx w :=
  h.settled (standing_of_opened opened)

theorem Settled.calm (h : Settled P ctx w) (calm : Calm P ctx w w') : Settled P ctx w' :=
  (Stands.calm h calm).settled calm.standing

theorem Adapted.known (h : Adapted P w' e x) (claimed : Claimed w o e) (timely : P.strict → o.Timely w.method)
    (calm : Calm P ctx w w') : P.strict → ∀ l ∈ x.expr.reads, l.slot ∈ w'.known := by
  intro strict
  refine h.fine.slots fun l hl => ?_
  rw [calm.top]
  exact claimed.timely (timely strict) l (h.reads l hl)

namespace Step

variable {c : Code} {owner t : JType} {l : LocalArg} {depth id n need : Nat} {operand value : Operand}
  {known : Set Nat} {name : String}

theorem calm_marked (calm : Calm P ctx w w1) (mark : Gives ctx (mark kind depth text) w1 y1 w2)
    (reserve : Gives ctx (reserve need) w2 y2 w') : Calm P ctx w w' ∧ Calm P ctx w1 w' ∧ need ≤ w'.method.maxStack := by
  have marked := Calm.mark calm.sound mark
  obtain ⟨reserved, room⟩ := Calm.reserve marked.sound reserve
  exact ⟨calm.trans (marked.trans reserved), marked.trans reserved, room⟩

theorem calm_prepare {t : Term}
    (calm : Calm P ctx w w1) (own : Gives ctx (own t) w1 y w2) (mark : Gives ctx (mark kind depth text) w2 y1 w3)
    (reserve : Gives ctx (reserve need) w3 y2 w') : Calm P ctx w w' ∧ Calm P ctx w1 w' ∧ need ≤ w'.method.maxStack := by
  have owned := (calm.sound.own own).calm
  obtain ⟨all, after, room⟩ := calm_marked (calm.trans owned) mark reserve
  exact ⟨all, owned.trans after, room⟩

theorem depth_words_le {e : Expr} (room : e.need ≤ n) (words : e.type.words = t.words) : Word.depth t.words ≤ n := by
  rw [← words, JType.depth_words]
  exact Nat.le_trans (Expr.slots_le_need e) room

theorem settled_assign
    (h : Stands P ctx w marks [] (some ⟨[], insert x.slot w.known⟩)) (opened : w.method.top.closed = false)
    (found : w.method.locals[id]? = some x) (run : Gives ctx (assign id) w y w') : Settled P ctx w' := by
  obtain ⟨lt, -⟩ := Array.getElem?_eq_some_iff.mp found
  have stands := h.assign lt run
  refine stands.settled ?_
  rw [gives_assign] at run
  subst run
  change (if w.method.top.closed then none else some (atRest w.method.locals (w.method.top.assigned.insert id))) = _
  rw [opened, atRest, slotsOf_insert found]
  rfl

/-- The value of an expression lies on the stack, as one of a type with the same words. -/
theorem stands_value (h : Settled P ctx w) (opened : w.method.top.closed = false) (calm : Calm P ctx w w')
    (adapted : Adapted P w' e x) (claimed : Claimed w operand e) (timely : P.strict → operand.Timely w.method)
    (room : x.expr.need ≤ w'.method.maxStack) (words : x.type.words = t.words)
    (run : Yields (x.expr.emit .value) w'.method.code () c) : Stands P ctx (w'.withCode c) [] []
    (some ⟨t.words, w'.known⟩) ∧ Word.depth t.words ≤ w'.method.maxStack + Method.stackSlack := by
  have pushed := (h.standing opened calm).value adapted.fine (adapted.known claimed timely calm)
    (fun _ => by simp [Word.depth]; omega) run
  rw [append_nil, show x.expr.type.words = t.words from words] at pushed
  exact ⟨pushed, Nat.le_add_right_of_le (depth_words_le room words)⟩

theorem settled_assignLocal (h : Settled P ctx w) (opened : w.method.top.closed = false)
    (timely : P.strict → value.Timely w.method) (run : Gives ctx (assignLocal l value) w y w') : Settled P ctx w' := by
  simp only [assignLocal, gives_bind, gives_localAt, gives_method, looked, emitValue, coded] at run
  obtain ⟨id, _, owned, e, _, claim, v, w1, conv, _, w2, own, _, w3, mark,
    _, w4, reserve, _, c, ran, _, c', ran', assign⟩ := run
  obtain ⟨rfl, rfl, lt⟩ := of_ownLocal owned
  obtain ⟨rfl, claimed⟩ := of_claim claim
  obtain ⟨made, adapted, words⟩ := assignConv_spec h.sound (h.sound.claimed claimed) conv
  obtain ⟨calm, after, room⟩ := calm_prepare made.calm own mark reserve
  have adapted : Adapted P w4 e v := adapted.later after.le
  obtain ⟨pushed, deep⟩ := stands_value h opened calm adapted claimed timely room words ran
  have found : w4.method.locals[id]? = some (w.method.locals.getD id default) := by
    rw [calm.locals]
    simp [lt]
  have value : P.typed → (w.method.locals.getD id default).type.kind ≠ .void := fun typed =>
    ((calm.sound.typed typed).locals _ (Array.mem_of_getElem? found)).1
  have stored := (pushed.restack fun _ => (append_nil _).symm).store ⟨_, Array.mem_of_getElem? found, rfl, rfl⟩ value
    (fun _ => by rw [append_nil]; exact deep) ran'
  exact settled_assign (w := (w4.withCode c).withCode c') stored (calm.top ▸ opened) found assign

theorem settled_declare (h : Settled P ctx w) (proper : P.typed → (t.resolve ctx.name).NoVoidArray)
    (run : Gives ctx (declare t name) w id w') : Settled P ctx w' := by
  simp only [declare, gives_bind, gives_ofExcept, gives_unless, gives_localAt, gives_method, gives_pure, looked] at run
  obtain ⟨_, _, ⟨-, rfl⟩, unfit, _, w1, allocate, _, w2, render, rfl, rfl⟩ := run
  have value : (t.resolve ctx.name).kind ≠ .void := by
    intro void
    rw [JType.kind_resolve] at void
    simp [JType.isVoid, void] at unfit
  obtain ⟨stands, -, frames, known, -⟩ := h.allocate (fun typed => ⟨value, proper typed⟩) allocate
  have same : w1.method.standing = w.method.standing := by
    have top : w1.method.top = w.method.top := by rw [Method.top, frames]; rfl
    change (if w1.method.top.closed then none else some (State.mk [] w1.known)) = _
    rw [top, known]
    rfl
  exact (stands.settled same).calm (.render stands.sound render)

theorem settled_increment (h : Settled P ctx w) (opened : w.method.top.closed = false)
    (run : Gives ctx (increment l delta) w y w') : Settled P ctx w' := by
  simp only [increment, gives_bind, gives_localAt, gives_unless, gives_isAssigned, gives_method, looked] at run
  obtain ⟨id, _, owned, int, assigned, _, w1, mark, code⟩ := run
  obtain ⟨rfl, rfl, lt⟩ := of_ownLocal owned
  have found : w.method.locals[id]? = some (w.method.locals.getD id default) := by simp [lt]
  generalize w.method.locals.getD id default = x at code found int
  have calm := Calm.mark h.sound mark
  have stands := h.standing opened calm
  have known : x.slot ∈ w.known := ⟨id, x, found, by simpa using assigned, rfl⟩
  rw [← calm.known] at known
  have held : (w1.rules P).holds x.slot (.prim .int) := by
    refine ⟨x, calm.locals ▸ Array.mem_of_getElem? found, rfl, ?_⟩
    rw [not_not.mp int]
    rfl
  obtain ⟨c, ran, rfl⟩ := gives_code.mp code
  have stepped : Stands P ctx (w1.withCode c) [] [] (some ⟨[], w1.known⟩) :=
    stands.code (fun _ _ _ seg => seg.iinc ran held (fun _ => known) (fun _ => Nat.zero_le _) stands.above)
      fun d hd => by cases hd; exact stands.above
  exact stepped.rest (w := w1.withCode c) (calm.top ▸ opened)

theorem discard_segment (h : Segment g opens (some ⟨t.words ++ s, known⟩) c) (run : Yields (discard t) c y c')
    (fits : g.rules.typed → Word.depth (t.words ++ s) ≤ g.rules.limit) (above : g.floor ⊆ known) :
    Segment g opens (some ⟨s, known⟩) c' := by
  have plain : Opcode.pop.isPlain = true ∧ Opcode.pop2.isPlain = true := by decide
  unfold discard at run
  rcases t.words_cases with ⟨slots, void⟩ | ⟨word, slots, single, size⟩ | ⟨word, slots, single, size⟩ <;>
    simp only [slots] at run
  · rw [void] at h
    obtain ⟨-, rfl⟩ := Yields.pure_iff.mp run
    exact h
  · rw [single] at h fits
    exact h.emit run plain.1 fits (fun _ => .pop s rfl size) above
  · rw [single] at h fits
    exact h.emit run plain.2 fits (fun _ => .pop2 s rfl size) above

theorem settled_emit (h : Stands P ctx w [] [] (some ⟨s, w.known⟩)) (opened : w.method.top.closed = false)
    (run : Gives ctx (code a) w y w')
    (step : ∀ (base : View) (below extra : List Nat) (c : Code), Yields a w.method.code () c →
      Segment ⟨w.rules P, base, below, extra, w.method.floor⟩ [] (some ⟨s, w.known⟩) w.method.code →
      Segment ⟨w.rules P, base, below, extra, w.method.floor⟩ [] (some ⟨[], w.known⟩) c) : Settled P ctx w' := by
  obtain ⟨c, ran, rfl⟩ := gives_code.mp run
  have stepped : Stands P ctx (w.withCode c) [] [] (some ⟨[], w.known⟩) :=
    h.code (fun _ _ _ seg => step _ _ _ c ran seg) fun d hd => by cases hd; exact h.above
  exact stepped.rest (w := w.withCode c) opened

theorem arrayStore_forms (t : JType) : (arrayStore t).isPlain = true ∧
    (t.kind ≠ .void → (arrayStore t).effect? = some ⟨t.words ++ [.int, .reference], []⟩) := by
  unfold arrayStore arrayLoad JType.words
  cases k : t.kind with
  | void => exact ⟨by decide, fun value => absurd rfl value⟩
  | reference => decide
  | prim p => cases p <;> decide

theorem settled_leaving (h : Stands P ctx w [] [] (some ⟨s, w.known⟩)) (terminal : op.isTerminal = true)
    (length : op.length = 1) (fits : P.typed → Word.depth s ≤ w.method.maxStack + Method.stackSlack)
    (effect : P.typed → op.effect? = some ⟨s, []⟩) (ran : Yields (Code.emit op) w.method.code y c)
    (close : Gives ctx close (w.withCode c) y1 w') : Settled P ctx w' := by
  have left : Stands P ctx (w.withCode c) [] [] none :=
    h.code (fun _ _ _ seg => seg.leave ran terminal length fits
      (fun typed => moves_op (effect typed) [] (append_nil s).symm rfl) h.above) (by rintro _ ⟨⟩)
  exact left.close close

theorem returnOp_forms (t : JType) : (returnOp t).isTerminal = true ∧ (returnOp t).length = 1 ∧
    (returnOp t).effect? = some ⟨t.words, []⟩ := by
  unfold returnOp JType.words
  cases t.kind with
  | void | reference => decide
  | prim p => cases p <;> decide

section

variable (h : Settled P ctx w) (opened : w.method.top.closed = false)

include h opened

theorem settled_evaluate (timely : P.strict → operand.Timely w.method) (run : Gives ctx (evaluate operand) w y w') :
    Settled P ctx w' := by
  simp only [evaluate, gives_bind, gives_method, looked, emitValue, coded] at run
  obtain ⟨e, _, claim, _, w1, consume, _, w2, mark, _, w3, reserve, _, c, ran, discard⟩ := run
  obtain ⟨rfl, claimed⟩ := of_claim claim
  obtain ⟨calm, -, room⟩ := calm_marked (h.sound.consume consume).calm mark reserve
  have adapted : Adapted P w3 e e := .refl (calm.le.fine (h.sound.claimed claimed))
  obtain ⟨pushed, deep⟩ := stands_value h opened calm adapted claimed timely room rfl ran
  rw [← append_nil (JType.words _)] at pushed deep
  exact settled_emit (w := w3.withCode c) pushed (calm.top ▸ opened) discard fun _ _ _ _ ran seg =>
    discard_segment seg ran (fun _ => deep) pushed.above

theorem stands_values (calm : Calm P ctx w w')
    (adapted : List.Forall₂ (Adapted P w') es xs) (claimed : List.Forall₂ (Claimed w) os es)
    (timely : P.strict → ∀ o ∈ os, o.Timely w.method) (room : Expr.needSeq 0 (xs.map (·.expr)) ≤ w'.method.maxStack)
    (values : Yields (Expr.emitAll (xs.map (·.expr))) w'.method.code () c) : Stands P ctx (w'.withCode c) [] []
    (some ⟨Expr.argWords (xs.map (·.expr)), w'.known⟩) ∧
    Word.depth (Expr.argWords (xs.map (·.expr))) ≤ w'.method.maxStack + Method.stackSlack := by
  have each : ∀ x ∈ xs.map (·.expr), Fine P w' x ∧ (P.strict → ∀ l ∈ x.reads, l.slot ∈ w'.known) := by
    clear room values
    induction adapted generalizing os with
    | nil => simp
    | cons first rest ih =>
      cases claimed with
      | cons claim claimed =>
        refine forall_mem_cons.mpr ⟨⟨first.fine, first.known claim (fun s => timely s _ mem_cons_self) calm⟩, ?_⟩
        exact ih claimed fun s o ho => timely s o (mem_cons_of_mem _ ho)
  have pushed := (h.standing opened calm).values (fun x hx => (each x hx).1) (fun s x hx => (each x hx).2 s)
    (fun _ => by simp [Word.depth]; omega) values
  rw [append_nil] at pushed
  exact ⟨pushed, Nat.le_add_right_of_le (Nat.le_trans (Expr.depth_argWords_le _) room)⟩

theorem settled_setField (timely : P.strict → object.Timely w.method ∧ value.Timely w.method)
    (named : ∀ op r, (Statement.setField object name value).Names ctx w.method op r → P.named op r)
    (run : Gives ctx (setField object name value) w y w') : Settled P ctx w' := by
  simp only [setField, gives_bind, gives_method, looked, emitValue, coded] at run
  obtain ⟨⟨o, v⟩, _, claim, ⟨f, ref⟩, w1, entry, _, _, final, x, w2, conv, _, w3, own1, _, w4, own2, _, w5, mark, _, w6, reserve, _, c1, ran1, _, c2, ran2, put⟩ := run
  obtain ⟨rfl, first, second⟩ := of_claim2 claim
  obtain ⟨made1, isRef, declared, reference, words⟩ := field_spec h.sound entry
  cases of_checkFinal final
  obtain ⟨made2, adapted, type⟩ := assignConv_spec made1.sound (made1.fine (h.sound.claimed second)) conv
  have owned := made1.calm.trans (made2.calm.trans (made2.sound.own own1).calm)
  obtain ⟨calm, after, room⟩ := calm_prepare owned own2 mark reserve
  have adaptedO : Adapted P w6 o o := .refl (calm.le.fine (h.sound.claimed first))
  have adaptedX : Adapted P w6 v x := adapted.later ((made2.sound.own own1).le.trans after.le)
  have values : Yields (Expr.emitAll [o.expr, x.expr]) w6.method.code () c2 := by
    simp only [Expr.emitAll, Yields.bind_iff, Yields.pure_iff]
    exact ⟨(), c1, ran1, (), c2, ran2, trivial, rfl⟩
  obtain ⟨pushed, deep⟩ := stands_values h opened calm (.cons adaptedO (.cons adaptedX .nil))
    (.cons first (.cons second .nil)) (fun s => by simpa using timely s) room values
  have pops : Expr.argWords [o.expr, x.expr] = f.type.words ++ [.reference] ++ [] := by
    have receiver : o.expr.type.words = [.reference] := JType.words_of_isReference isRef
    have value : x.expr.type.words = f.type.words := type
    simp [Expr.argWords, receiver, value]
  have later : w1.Le w6 := made2.le.trans ((made2.sound.own own1).le.trans after.le)
  have names : (w6.rules P).Names .putfield ref :=
    ⟨_, later.pool.reference? reference, named _ _ (.setField first.typeOf? declared)⟩
  refine settled_emit (w := w6.withCode c2) pushed (calm.top ▸ opened) put fun _ _ _ _ ran seg =>
    seg.emitU2 ran (by decide) (fun _ => names) (fun _ => deep) (fun typed => ?_) pushed.above
  exact moves_ref (refEffect?_field (later.pool.fieldWords? (words typed).2)).2.2.2 [] pops rfl

theorem settled_setStatic (timely : P.strict → value.Timely w.method)
    (named : ∀ op r, (Statement.setStatic owner name value).Names ctx w.method op r → P.named op r)
    (run : Gives ctx (setStatic owner name value) w y w') : Settled P ctx w' := by
  simp only [setStatic, gives_bind, gives_method, gives_read, looked, emitValue, coded] at run
  obtain ⟨v, _, claim, ⟨f, ref⟩, w1, entry, _, _, final, x, w2, conv, _, w3, own, _, w5, mark, _, w6, reserve, _, c, ran, put⟩ := run
  obtain ⟨rfl, claimed⟩ := of_claim claim
  obtain ⟨made1, -, declared, reference, words⟩ := field_spec h.sound entry
  cases of_checkFinal final
  obtain ⟨made2, adapted, type⟩ := assignConv_spec made1.sound (made1.fine (h.sound.claimed claimed)) conv
  obtain ⟨calm, after, room⟩ := calm_prepare (made1.trans made2).calm own mark reserve
  have adapted : Adapted P w6 v x := adapted.later after.le
  obtain ⟨pushed, deep⟩ := stands_value h opened calm adapted claimed timely room type ran
  have later : w1.Le w6 := made2.le.trans after.le
  have names : (w6.rules P).Names .putstatic ref :=
    ⟨_, later.pool.reference? reference, named _ _ (.setStatic declared)⟩
  refine settled_emit (w := w6.withCode c) pushed (calm.top ▸ opened) put fun _ _ _ _ ran seg =>
    seg.emitU2 ran (by decide) (fun _ => names) (fun _ => deep) (fun typed => ?_) pushed.above
  exact moves_ref (refEffect?_field (later.pool.fieldWords? (words typed).2)).2.1 [] (by simp) rfl

theorem settled_setIndex (timely : P.strict → array.Timely w.method ∧ index.Timely w.method ∧ value.Timely w.method)
    (run : Gives ctx (setIndex array index value) w y w') : Settled P ctx w' := by
  simp only [setIndex, gives_bind, gives_method, looked, emitValue, coded] at run
  obtain ⟨⟨a, i, v⟩, _, claim, j, w1, indexed, x, w2, conv, _, w3, own1, _, w4, own2, _, w5, own3, _, w6, mark, _, w7, reserve, _, c1, ran1, _, c2, ran2, _, c3, ran3, put⟩ := run
  obtain ⟨rfl, first, second, third⟩ := of_claim3 claim
  obtain ⟨isArray, made1, adaptedJ, int⟩ := arrayIndex_spec h.sound (h.sound.claimed second) indexed
  obtain ⟨made2, adaptedX, type⟩ := assignConv_spec made1.sound (made1.fine (h.sound.claimed third)) conv
  have made3 := made2.sound.own own1
  have made4 := made3.trans (made3.sound.own own2)
  obtain ⟨calm, after, room⟩ := calm_prepare (made1.trans (made2.trans made4)).calm own3 mark reserve
  have later : w2.Le w7 := made4.le.trans after.le
  have adaptedA : Adapted P w7 a a := .refl (calm.le.fine (h.sound.claimed first))
  have adaptedJ : Adapted P w7 i j := adaptedJ.later (made2.le.trans later)
  have adaptedX : Adapted P w7 v x := adaptedX.later later
  have values : Yields (Expr.emitAll [a.expr, j.expr, x.expr]) w7.method.code () c3 := by
    simp only [Expr.emitAll, Yields.bind_iff, Yields.pure_iff]
    exact ⟨(), c1, ran1, (), c2, ran2, (), c3, ran3, trivial, rfl⟩
  obtain ⟨pushed, deep⟩ := stands_values h opened calm (.cons adaptedA (.cons adaptedJ (.cons adaptedX .nil)))
    (.cons first (.cons second (.cons third .nil))) (fun s => by simpa using timely s) room values
  obtain ⟨plain, effect⟩ := arrayStore_forms a.type.elem
  have pops : Expr.argWords [a.expr, j.expr, x.expr] = a.type.elem.words ++ [.int, .reference] ++ [] := by
    have receiver : a.expr.type.words = [.reference] :=
      JType.words_of_isReference (JType.isReference_of_isArray isArray)
    have value : x.expr.type.words = a.type.elem.words := type
    have index : j.expr.type.words = [.int] := by
      rw [← Term.type, int]
      rfl
    simp [Expr.argWords, receiver, value, index]
  refine settled_emit (w := w7.withCode c3) pushed (calm.top ▸ opened) put fun _ _ _ _ ran seg =>
    seg.emit ran plain (fun _ => deep) (fun typed => ?_) pushed.above
  have elem := JType.elem_of_isArray ((h.sound.claimed first).type typed) isArray
  exact moves_op (effect elem.1) [] pops rfl

/-! Statements that leave the scope. -/

theorem settled_leave (timely : P.strict → value.Timely w.method) (run : Gives ctx (leave value) w y w') :
    Settled P ctx w' := by
  simp only [leave, gives_bind, gives_method, looked] at run
  split at run
  · simp only [gives_unless, gives_bind, gives_method, looked, coded] at run
    obtain ⟨-, _, w1, mark, _, _, emit, close⟩ := run
    have calm := Calm.mark h.sound mark
    exact settled_leaving (h.standing opened calm) (by decide) (by decide) (fun _ => Nat.zero_le _) (fun _ => by decide) emit close
  · simp only [gives_unless, gives_bind, gives_method, looked, emitValue, coded] at run
    obtain ⟨-, e, _, claim, v, w1, conv, _, w2, own, _, w3, mark, _, w4, reserve, _, c, ran, _, w6,
      back, close⟩ := run
    obtain ⟨rfl, claimed⟩ := of_claim claim
    obtain ⟨made, adapted, words⟩ := assignConv_spec h.sound (h.sound.claimed claimed) conv
    obtain ⟨calm, after, room⟩ := calm_prepare made.calm own mark reserve
    have adapted : Adapted P w4 e v := adapted.later after.le
    obtain ⟨pushed, deep⟩ := stands_value h opened calm adapted claimed timely room words ran
    obtain ⟨terminal, length, effect⟩ := returnOp_forms w.method.info.ret
    exact settled_leaving (w := w4.withCode c) pushed terminal length (fun _ => deep) (fun _ => effect) back close

theorem settled_raise (timely : P.strict → operand.Timely w.method) (run : Gives ctx (raise operand) w y w') :
    Settled P ctx w' := by
  simp only [raise, isThrowable, gives_bind, gives_isAssignable, gives_unless, gives_method, looked, emitValue, coded] at run
  obtain ⟨e, _, claim, none, _, w1, own, _, w2, mark, _, w3, reserve, _, c, ran, _, _, back, close⟩ := run
  obtain ⟨rfl, claimed⟩ := of_claim claim
  have words : e.type.words = [.reference] := by
    simp only [Bool.or_eq_true, Bool.not_eq_true', not_or, Bool.not_eq_false] at none
    exact JType.words_of_isReference none.1.1
  obtain ⟨calm, -, room⟩ := calm_prepare (.refl h.sound) own mark reserve
  have adapted : Adapted P w3 e e := .refl (calm.le.fine (h.sound.claimed claimed))
  obtain ⟨pushed, deep⟩ := stands_value h opened calm adapted claimed timely room rfl ran
  refine settled_leaving (w := w3.withCode c) pushed (by decide) (by decide) (fun _ => deep) (fun _ => ?_) back close
  rw [words]
  decide

end

theorem leads_store {f : Field} (init : f.init = some v)
    (linked : f.Linked g.rules.pool) (named : ∀ op r, f.Stores op r → g.rules.named op r)
    (proper : g.rules.typed → f.Proper) (self : f.info.isStatic = false → 0 ∈ known ∧ g.rules.holds 0 .reference)
    (room : g.rules.typed → 1 + f.info.type.slots ≤ g.rules.limit) : Leads g known f.store [] [] [] := by
  have words : g.rules.typed → f.info.type.words = [v.word] := fun typed => (proper typed).init v init
  have loads : v.Named g.rules.named := fun r hr op ho => named op r (.value init hr ho)
  have put : g.rules.Names (if f.info.isStatic then .putstatic else .putfield) f.fieldref := ⟨_, linked.ref, named _ _ .put⟩
  have field : g.rules.typed → g.rules.pool.fieldWords? f.fieldref = some f.info.type.words := fun typed =>
    Pool.fieldWords?_of_descriptor? (proper typed).type (Pool.descriptor?_of_reference? linked.ref)
  have deep := f.info.type.depth_words
  have fits : ∀ {s : List Word}, depth s ≤ 1 + f.info.type.slots → g.rules.typed → depth s ≤ g.rules.limit :=
    fun less typed => Nat.le_trans less (room typed)
  unfold Field.store
  simp only [init, Option.getD_some]
  cases static : f.info.isStatic with
  | true =>
    simp only [static, Bool.not_true, Bool.false_eq_true, if_false, if_true] at put ⊢
    refine (Value.leads_emit (fun _ => Nat.zero_le _) words (linked.init v init) loads).bind
      (.emitU2 (by decide) (fun _ => put) (fits ?_) fun typed _ => moves_ref (refEffect?_field (field typed)).2.1 [] rfl rfl)
    simp only [depth_append, deep, depth_nil]
    omega
  | false =>
    simp only [static, Bool.not_false, Bool.false_eq_true, if_false, if_true] at put ⊢
    refine (Leads.receiver (self static).2 (fun _ => (self static).1) (fun _ => Nat.zero_le _)).bind
      ((Value.leads_emit (fits ?_) words (linked.init v init) loads).bind (.emitU2 (by decide) (fun _ => put) (fits ?_)
        fun typed _ => moves_ref (refEffect?_field (field typed)).2.2.2 [] (by simp) rfl))
    · simp only [depth_cons, size, depth_nil]
      omega
    · simp only [depth_append, deep, depth_cons, size, depth_nil]
      omega

theorem le_foldl_max (f : α → Nat) (xs : List α) (n : Nat) :
    n ≤ xs.foldl (fun n x => max n (f x)) n ∧ ∀ x ∈ xs, f x ≤ xs.foldl (fun n x => max n (f x)) n := by
  induction xs generalizing n with
  | nil => simp
  | cons x xs ih =>
    obtain ⟨start, each⟩ := ih (max n (f x))
    simp only [foldl_cons, mem_cons, forall_eq_or_imp]
    exact ⟨by omega, by omega, each⟩

theorem leads_fieldStores (linked : ∀ f ∈ fields, f.Linked g.rules.pool)
    (named : ∀ f ∈ fields, f.isStored isStatic = true → ∀ op r, f.Stores op r → g.rules.named op r)
    (proper : g.rules.typed → ∀ f ∈ fields, f.Proper) (self : isStatic = false → 0 ∈ known ∧ g.rules.holds 0 .reference)
    (room : g.rules.typed → fieldStoresNeed fields isStatic ≤ g.rules.limit) :
    Leads g known (fieldStores fields isStatic) [] [] [] := by
  have each := (le_foldl_max (fun f : Field => 1 + f.info.type.slots) (fields.toList.filter (·.isStored isStatic)) 0).2
  refine .forM fun f hf => ?_
  obtain ⟨mem, stored⟩ := mem_filter.mp hf
  have mem := Array.mem_toList_iff.mp mem
  have kept := stored
  simp only [Field.isStored, Bool.and_eq_true, beq_iff_eq] at stored
  obtain ⟨v, init⟩ := Option.isSome_iff_exists.mp stored.1.1
  exact leads_store init (linked f mem) (named f mem kept) (fun typed => proper typed f mem)
    (fun inst => self (stored.1.2 ▸ inst)) fun typed => Nat.le_trans (each f hf) (room typed)

theorem settled_superCall {operands : List Operand} (h : Settled P ctx w) (opened : w.method.top.closed = false)
    (timely : P.strict → ∀ o ∈ operands, o.Timely w.method)
    (named : ∀ op r, (Statement.superCall operands).Names ctx w.method op r → P.named op r)
    (calls : ∀ m, P.declared m → P.declared { m with superCalled := true })
    (run : Gives ctx (superCall operands) w y w') : Settled P ctx w' := by
  simp only [superCall, gives_bind, gives_method, gives_unless, gives_read, gives_update, looked, passed, emitValue,
    coded] at run
  obtain ⟨misplaced, args, _, claims, m, _, resolved, this, w1, node, e, w2, call, _, w3, own, _, w4, mark, _, w5,
    reserve, _, c1, ran1, _, c2, ran2, last⟩ := run
  have instance_ : w.method.info.isStatic = false := by
    simp only [Bool.or_eq_true, Bool.not_eq_true', not_or, Bool.not_eq_false] at misplaced
    exact h.sound.constructor misplaced.1.1
  obtain ⟨rfl, types, claimed, fine⟩ := claimAll_spec h.sound claims
  obtain ⟨rfl, chosen, wellFormed, arity, static⟩ := of_resolve resolved
  obtain ⟨made1, self⟩ := h.sound.node (fine_self h.sound instance_ false) node
  have selfFine : ∀ r ∈ some this, Fine P w1 r.expr := by
    rintro r ⟨⟩
    rw [self]
    exact made1.fine (fine_self h.sound instance_ false)
  have selfRef : ∀ r ∈ some this, r.type.isReference = true := by
    rintro r ⟨⟩
    rw [Term.type, self]
    simp [Expr.type, JType.isReference]
  have lookups : P.typed → m.WellFormed := fun typed => (wellFormed (h.sound.typed typed).classes).1
  obtain ⟨made2, fineE, type, reads⟩ := invoke_spec made1.sound (fun a ha => made1.fine (fine a ha)) selfFine static
    arity selfRef lookups (fun op r calls => named op r (.superCall types chosen calls)) call
  obtain ⟨calm, after, room⟩ := calm_prepare (made1.trans made2).calm own mark reserve
  have assigned : P.strict → ∀ l ∈ e.expr.reads, w5.method.top.assigned.contains l.id = true := by
    intro strict l hl
    obtain ⟨a, ha, read⟩ := reads l hl
    rw [calm.top]
    rcases mem_cons.mp ha with rfl | arg
    · simp [self, Expr.reads] at read
    · obtain ⟨o, ho, claim⟩ := claimed a arg
      exact claim.timely (timely strict o ho) l read
  have void : P.typed → e.expr.type.words ++ [] = [] := by
    intro typed
    obtain ⟨found, constructs⟩ := wellFormed (h.sound.typed typed).classes
    rw [append_nil, ← Term.type, type]
    exact (JType.isVoid_iff _).mp (found.constructor (by simp [MethodInfo.isConstructor, constructs]))
  -- the estimate is raised behind the stores; nothing before it would see an earlier raise
  have raised : Calm P ctx w5 { w5 with method := { w5.method with
      superCalled := true, maxStack := max w5.method.maxStack (fieldStoresNeed ctx.fields false) } } :=
    .of_update calm.sound rfl (Nat.le_max_left _ _) (calls _ calm.sound.declared) fun _ => .inl
  have all := calm.trans raised
  have stands := (h.opened opened).calm all
  rw [← all.known] at stands
  have fineE := (after.trans raised).le.fine fineE
  have called := stands.value fineE (fun strict => fineE.slots (assigned strict))
    (fun _ => by simp only [depth_nil, Nat.zero_add]; omega) ran1
  obtain ⟨given, held⟩ := all.sound.receiver (all.info ▸ instance_)
  have receiver : 0 ∈ w5.known := raised.known ▸ (called.laid.given.trans called.above) given
  have stored := (called.restack void).code (fun _ _ _ seg => leads_fieldStores all.sound.fields
      (fun f hf kept op r store => named op r (.superStore hf kept store))
      (fun typed => (all.sound.typed typed).fields) (fun _ => ⟨raised.known ▸ receiver, held⟩)
      (fun _ => Nat.le_add_right_of_le (Nat.le_max_right _ _)) called.above seg ran2) fun d hd => by
    cases hd
    exact called.above
  have rest := stored.rest (all.top ▸ opened)
  rw [gives_reserve] at last
  subst last
  exact rest

end Step

end

end ClassForge.Assembler

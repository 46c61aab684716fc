import ClassForge.Proofs.Statements

/-! Statements that open scopes and jump out of them keep a method settled. -/

namespace ClassForge.Assembler

section

variable {P : Policy} {ctx : Context} {w w' : Work} {y : Unit} {marks : List (Nat × State)} {opens : List State}

namespace Step

variable {source t type : JType} {id top : Nat} {condition : Operand} {here : Option State} {known : Set Nat}
  {name : String}

theorem test_spec (sound : Sound P ctx w) (run : Gives ctx (test condition) w x w') :
    ∃ e, Claimed w condition e ∧ Made P ctx w w' ∧ Adapted P w' e x ∧ x.expr.type.words = [.int] := by
  simp only [test, gives_bind, gives_pure] at run
  obtain ⟨e, _, claim, c, w1, condition, _, w2, own, rfl, rfl⟩ := run
  obtain ⟨rfl, claimed⟩ := of_claim claim
  obtain ⟨made, adapted, type⟩ := condition_spec sound (sound.claimed claimed) condition
  have owned := made.sound.own own
  refine ⟨e, claimed, made.trans owned, adapted.later owned.le, ?_⟩
  rw [← Term.type, type]
  rfl

theorem settled_openScope (h : Stands P ctx w marks opens (some ⟨[], w.known⟩))
    (run : Gives ctx (openScope scope) w y w') (opened : w.method.top.closed = false) (inner : scope ≠ .body)
    (loose : scope.loose = []) (left : scope.left = none)
    (holds : ∀ spots own below, Plan P w marks opens (some ⟨[], w.known⟩) spots own below →
      Frame.Holds (w.layout P spots (some ⟨[], w.known⟩))
        ⟨scope, w.method.top.assigned, w.method.top.assigned, none, false, w.method.nodes.size⟩ own) : Settled P ctx w' := by
  rw [gives_openScope] at run
  subst run
  have laid := h.laid.openScope scope w.method.nodes.size opened inner loose left (fun d hd => by cases hd; exact fun _ hs => hs) holds
  exact (h.withFrames laid).settled rfl

theorem brings_inherited {own below : List Nat} (plan : Plan P w marks [⟨[], w.known⟩] here spots own below) :
    ∃ t, own = [t] ∧ (w.layout P spots here).Brings t w.method.top.assigned := by
  have carries := plan.carries
  cases carries with
  | cons first rest =>
    cases rest
    exact ⟨_, rfl, first⟩

section

variable (h : Settled P ctx w) (opened : w.method.top.closed = false)

include h opened

theorem settled_ifOpen (timely : P.strict → condition.Timely w.method) (run : Gives ctx (ifOpen condition) w y w') :
    Settled P ctx w' := by
  simp only [ifOpen, gives_bind, gives_method, looked, emitTest, coded] at run
  obtain ⟨x, w1, tested, _, w2, mark, _, w3, reserve, _, c, ran, scope⟩ := run
  obtain ⟨e, claimed, made, adapted, truth⟩ := test_spec h.sound tested
  obtain ⟨calm, after, room⟩ := calm_marked made.calm mark reserve
  have adapted : Adapted P w3 e x := adapted.later after.le
  have branched := (h.standing opened calm).test adapted.fine (fun _ => truth) (adapted.known claimed timely calm)
    (fun _ => by simp only [Word.depth_nil, Nat.zero_add]; omega) ran
  refine settled_openScope (w := w3.withCode c) branched scope (calm.top ▸ opened) (by rintro ⟨⟩) rfl rfl
    fun spots own below plan => ?_
  obtain ⟨t, rfl, brings⟩ := brings_inherited (w := w3.withCode c) plan
  exact ⟨[t], [], rfl, rfl, ⟨t, rfl, brings⟩, by simp⟩

theorem settled_whileOpen (timely : P.strict → condition.Timely w.method) (run : Gives ctx (whileOpen condition) w y w') :
    Settled P ctx w' := by
  simp only [whileOpen, gives_bind, gives_method, gives_pos, looked] at run
  obtain ⟨x, w1, tested, _, w2, mark, run⟩ := run
  obtain ⟨e, claimed, made, adapted, truth⟩ := test_spec h.sound tested
  have marked := Calm.mark made.sound mark
  cases endless : isEndless x.expr with
  | true =>
    simp only [endless, Bool.not_true, Bool.false_eq_true, if_false] at run
    have calm := made.calm.trans marked
    have stands := h.standing opened calm
    refine settled_openScope stands run (calm.top ▸ opened) (by rintro ⟨⟩) rfl rfl fun spots own below plan => ?_
    have none : own = [] := List.forall₂_nil_right_iff.mp plan.carries
    exact ⟨none, ⟨_, .inr ⟨rfl, rfl⟩, .refl _⟩, by simp, by rintro _ _ ⟨⟩⟩
  | false =>
    simp only [endless, Bool.not_false, if_true, gives_bind, emitTest, coded] at run
    obtain ⟨_, w3, reserve, _, c, ran, scope⟩ := run
    obtain ⟨reserved, room⟩ := Calm.reserve marked.sound reserve
    have after := marked.trans reserved
    have calm := made.calm.trans after
    have adapted : Adapted P w3 e x := adapted.later after.le
    have stands := h.standing opened calm
    have noted : Stands P ctx w3 [(w3.method.code.pos, ⟨[], w3.known⟩)] [] (some ⟨[], w3.known⟩) :=
      ⟨stands.sound, stands.laid.mark⟩
    have branched := noted.test adapted.fine (fun _ => truth) (adapted.known claimed timely calm)
      (fun _ => by simp only [Word.depth_nil, Nat.zero_add]; omega) ran
    refine settled_openScope (w := w3.withCode c) branched scope (calm.top ▸ opened) (by rintro ⟨⟩) rfl rfl
      fun spots own below plan => ?_
    obtain ⟨t, rfl, brings⟩ := brings_inherited (w := w3.withCode c) plan
    have label := plan.marked _ List.mem_cons_self
    rw [reserved.code] at label
    exact ⟨⟨t, rfl, brings⟩, label, by simp, by rintro _ _ ⟨⟩⟩

theorem settled_tryOpen (run : Gives ctx tryOpen w y w') : Settled P ctx w' := by
  simp only [tryOpen, gives_bind, gives_method, gives_pos, gives_top, gives_openScope, gives_setTop, looked] at run
  obtain ⟨_, w1, mark, _, _, rfl, rfl⟩ := run
  have calm := Calm.mark h.sound mark
  have stands := h.standing opened calm
  have scope : Gives ctx (openScope (.guarded w1.method.code.pos none [] [])) w1 () _ := gives_openScope.mpr rfl
  refine settled_openScope stands scope (calm.top ▸ opened) (by rintro ⟨⟩) rfl rfl fun spots own below plan => ?_
  have none : own = [] := List.forall₂_nil_right_iff.mp plan.carries
  refine ⟨none, ⟨.inl rfl, Nat.le_refl _, fun _ => rfl, fun x hx behind => ?_, by rintro _ ⟨⟩⟩, by simp⟩
  have := plan.cert.pc_lt hx
  exact absurd behind (Nat.not_le.mpr this)

end

/-! Loops over arrays and iterables. -/

theorem stands_hiddenLocal (h : Stands P ctx w marks opens here)
    (proper : P.typed → (t.resolve ctx.name).kind ≠ .void ∧ (t.resolve ctx.name).NoVoidArray)
    (run : Gives ctx (hiddenLocal t name) w id w') :
    Stands P ctx w' marks opens here ∧ w.Le w' ∧ w'.method.top.closed = w.method.top.closed ∧
      ∃ l, w'.method.locals[id]? = some l ∧ l.type = t.resolve ctx.name ∧ w'.known = insert l.slot w.known := by
  simp only [hiddenLocal, gives_bind, gives_pure] at run
  obtain ⟨_, w1, allocate, _, w2, assign, rfl, rfl⟩ := run
  obtain ⟨stands, le, frames, known, l, found, -, type⟩ := h.allocate proper allocate
  obtain ⟨lt, -⟩ := Array.getElem?_eq_some_iff.mp found
  have stands := stands.assign lt assign
  have top : w1.method.top = w.method.top := by rw [Method.top, frames]; rfl
  rw [gives_assign] at assign
  subst assign
  refine ⟨stands, ⟨le.pool, le.stack, le.given, le.locals, le.next, le.fresh⟩, ?_, l, found, type, ?_⟩
  · rw [← top]
    rfl
  · rw [← known]
    exact slotsOf_insert found

theorem stands_restart (h : Stands P ctx w marks opens here) (there : w.method.locals[item]? = some l)
    (plain : l.param = false) (run : Gives ctx (update fun m => { m with
      locals := m.locals.modify item fun l => { l with start := w.method.code.pos } }) w y w') :
    Stands P ctx w' marks opens here ∧ w.Le w' ∧ w'.method.frames = w.method.frames := by
  rw [gives_update] at run
  subst run
  generalize pos : w.method.code.pos = start
  have found : ∀ (id : Nat) (x : Local), w.method.locals[id]? = some x →
      ∃ y, (w.method.locals.modify item fun l => { l with start })[id]? = some y ∧ y.slot = x.slot ∧
        y.type = x.type ∧ y.param = x.param := by
    intro id x hx
    rw [Array.getElem?_modify]
    split_ifs
    · exact ⟨{ x with start }, by rw [hx]; rfl, rfl, rfl, rfl⟩
    · exact ⟨x, hx, rfl, rfl, rfl⟩
  have back : ∀ y ∈ w.method.locals.modify item fun l => { l with start },
      (∃ x ∈ w.method.locals, x.slot = y.slot ∧ x.type = y.type ∧ x.param = y.param) ∧
        (y ∈ w.method.locals ∨ y.param = false ∧ y.start = start) := by
    intro y hy
    obtain ⟨id, hid⟩ := Array.mem_iff_getElem?.mp hy
    obtain ⟨same, x, hx, rfl⟩ | kept := of_modify hid
    · cases (same ▸ there).symm.trans hx
      exact ⟨⟨l, Array.mem_of_getElem? hx, rfl, rfl, rfl⟩, .inr ⟨plain, rfl⟩⟩
    · have old := Array.mem_of_getElem? kept
      exact ⟨⟨y, old, rfl, rfl, rfl⟩, .inl old⟩
  have le : w.Le { w with method := { w.method with
      locals := w.method.locals.modify item fun l => { l with start } } } := by
    refine ⟨.refl _, Nat.le_refl _, ?_, fun id x hx => ?_, Nat.le_refl _, fun y hy other => ?_⟩
    · ext slot
      constructor
      · rintro ⟨y, hy, param, rfl⟩
        obtain ⟨⟨x, hx, slot, -, same⟩, -⟩ := back y hy
        exact ⟨x, hx, same.trans param, slot⟩
      · rintro ⟨x, hx, param, rfl⟩
        obtain ⟨id, hid⟩ := Array.mem_iff_getElem?.mp hx
        obtain ⟨y, hy, slot, -, same⟩ := found id x hid
        exact ⟨y, Array.mem_of_getElem? hy, same.trans param, slot⟩
    · obtain ⟨y, hy, slot, type, -⟩ := found id x hx
      exact ⟨y, hy, slot, type⟩
    · obtain ⟨⟨x, hx, slot, -, same⟩, -⟩ := back y hy
      exact .inl ⟨x, hx, same.trans other, slot⟩
  refine ⟨⟨h.sound.later le rfl rfl rfl h.sound.declared rfl fun typed y hy => ?_, 
    h.laid.later le rfl rfl rfl (fun _ => .inl) fun y hy => pos ▸ (back y hy).2⟩, le, rfl⟩
  obtain ⟨⟨x, hx, -, type, -⟩, -⟩ := back y hy
  exact type ▸ (h.sound.typed typed).locals x hx

theorem settled_openLoop (h : Stands P ctx w [(top, ⟨[], w.known⟩)] [⟨[], w.known⟩] (some ⟨[], w.known⟩))
    (run : Gives ctx (openLoop kind top type item elem) w y w') (opened : w.method.top.closed = false)
    (fine : Fine P w elem.expr) (slots : P.strict → ∀ l ∈ elem.expr.reads, l.slot ∈ w.known)
    (words : elem.type.words = type.words) (value : P.typed → type.kind ≠ .void)
    (found : w.method.locals[item]? = some l) (plain : l.param = false) (same : l.type.kind = type.kind)
    (tested : kind ≠ .test true)
    (fresh : (Scope.loop kind top [] none).loose = [])
    (counted : ∀ counter continues, kind = .array counter continues →
      (counter ∈ w.known ∧ (w.rules P).holds counter (.prim .int)) ∧ continues = []) :
    Settled P ctx w' := by
  simp only [openLoop, gives_bind, gives_localAt, gives_pos, looked, emitValue, coded] at run
  obtain ⟨_, w1, own, _, w2, reserve, _, c1, ran1, _, c2, ran2, _, w5, restart, _, _,
    scope, assign⟩ := run
  have owned := (h.sound.own own).calm
  obtain ⟨reserved, room⟩ := Calm.reserve owned.sound reserve
  have calm := owned.trans reserved
  have stands := h.calm calm
  have here : w2.method.locals.getD item default = l := by
    rw [calm.locals]
    simp [found]
  have pushed := stands.value (calm.le.fine fine) slots (fun _ => by simp only [Word.depth_nil, Nat.zero_add]; omega) ran1
  have held : (w2.rules P).holds (w2.method.locals.getD item default).slot type.kind :=
    ⟨l, Array.mem_of_getElem? (calm.locals ▸ found), by rw [here], same⟩
  have stored := (pushed.restack fun _ => congrArg (· ++ []) words).store held value
    (fun _ => by rw [List.append_nil]; exact Nat.le_add_right_of_le (depth_words_le room words)) ran2
  obtain ⟨restarted, le, frames⟩ := stands_restart stored (calm.locals ▸ found) plain restart
  have known : w5.known = w.known := (stored.keeps_known le frames).trans calm.known
  have outer : w5.method.top = w.method.top := by
    rw [← calm.top, Method.top, frames]
    rfl
  obtain ⟨l', found', slot, -⟩ := le.locals item l (calm.locals ▸ found)
  rw [← known] at restarted
  rw [gives_openScope] at scope
  subst scope
  have laid := restarted.laid.openScope (.loop kind top [] none) w5.method.nodes.size (outer ▸ opened) (by rintro ⟨⟩) fresh rfl
    (fun d hd => by cases hd; exact Set.subset_insert _ _) fun spots own below plan => ?_
  · have inside := restarted.withFrames laid
    rw [here, ← slot] at inside
    exact settled_assign (w := w5.withFrames _) inside rfl found' assign
  · obtain ⟨t, rfl, brings⟩ := brings_inherited plan
    have label := plan.marked _ List.mem_cons_self
    refine ⟨?_, label, by simp, fun counter continues array => ?_⟩
    · rw [if_neg tested]
      exact ⟨t, rfl, brings⟩
    · obtain ⟨⟨mem, held⟩, rfl⟩ := counted counter continues array
      rw [← known] at mem
      exact ⟨⟨mem, le.holds _ _ (calm.le.holds _ _ held)⟩, by simp⟩

theorem proper_resolve (name : String) (proper : P.typed → t.kind ≠ .void ∧ t.NoVoidArray) :
    P.typed → (t.resolve name).kind ≠ .void ∧ (t.resolve name).NoVoidArray := fun typed =>
  ⟨JType.kind_resolve t name ▸ (proper typed).1, JType.noVoidArray_resolve (proper typed).2 name⟩

/-- Behind the stores of array and counter, the loop compares the counter with the length. -/
theorem stands_arrayHead (h : Stands P ctx w [] [] (some ⟨source.words ++ [], known⟩)) (array : source.isArray = true)
    (heldA : (w.rules P).holds a source.kind) (heldI : (w.rules P).holds i (.prim .int))
    (store1 : Yields (Code.store source a) w.method.code () c1) (zero : Yields (Code.emit .iconst0) c1 () c2)
    (store2 : Yields (Code.store .int i) c2 () c3) (load1 : Yields (Code.load .int i) c3 () c4)
    (load2 : Yields (Code.load source a) c4 () c5) (length : Yields (Code.emit .arraylength) c5 () c6)
    (test : Yields (Code.pushSite .ifIcmpge) c6 () c7) :
    Stands P ctx (w.withCode c7) [(c3.pos, ⟨[], insert i (insert a known)⟩)] [⟨[], insert i (insert a known)⟩]
      (some ⟨[], insert i (insert a known)⟩) := by
  have ref : source.words = [.reference] := JType.words_of_isReference (JType.isReference_of_isArray array)
  have value := JType.kind_ne_void_of_words ref
  have room : ∀ s : List Word, Word.depth s ≤ 2 → P.typed → Word.depth s ≤ w.method.maxStack + Method.stackSlack :=
    fun s few _ => by unfold Method.stackSlack; omega
  have pushes : Opcode.iconst0.effect? = some ⟨[], [.int]⟩ := by decide
  have counts : Opcode.arraylength.effect? = some ⟨[.reference], [.int]⟩ := by decide
  have compares : Opcode.ifIcmpge.effect? = some ⟨[.int, .int], []⟩ := by decide
  have h1 := h.store heldA (fun _ => value) (room _ (by rw [ref]; decide)) store1
  have h2 : Stands P ctx (w.withCode c2) [] [] (some ⟨[.int], insert a known⟩) :=
    h1.code (fun _ _ _ seg => seg.emit zero (by decide) (room _ (by decide)) (fun _ => moves_op pushes [] rfl rfl) h1.above)
      fun d hd => by cases hd; exact h1.above
  have h3 := h2.store (t := .int) heldI (fun _ => by decide) (room _ (by decide)) store2
  have noted : Stands P ctx (w.withCode c3) [(c3.pos, ⟨[], insert i (insert a known)⟩)] []
      (some ⟨[], insert i (insert a known)⟩) := ⟨h3.sound, h3.laid.mark⟩
  have above := noted.above
  refine noted.code (w := w.withCode c3) (fun _ _ _ seg => ?_) fun d hd => by cases hd; exact above
  have s1 := seg.load load1 heldI (fun _ => .inl rfl) (fun _ => by decide) (room _ (by decide)) above
  have s2 := s1.load load2 heldA (fun _ => .inr (.inl rfl)) (fun _ => value) (room _ (by decide)) above
  rw [ref] at s2
  have s3 := s2.emit length (by decide) (room _ (by decide)) (fun _ => moves_op counts [.int] rfl rfl) above
  exact s3.pushSite test (by decide) (room [.int, .int] (by decide)) (fun _ => moves_op compares [] rfl rfl) (fun _ hs => hs)
    (.inr rfl) above

theorem settled_forArray (h : Stands P ctx w [] [] (some ⟨source.words ++ [], w.known⟩))
    (opened : w.method.top.closed = false) (isArray : source.isArray = true) (proper : P.typed → source.NoVoidArray)
    (value : P.typed → type.kind ≠ .void ∧ type.NoVoidArray) (run : Gives ctx (forArray type name source) w id w') :
    Settled P ctx w' := by
  simp only [forArray, gives_bind, gives_localAt, gives_pos, gives_localRead, gives_pure, looked, coded] at run
  obtain ⟨array, w1, hidden1, counter, w2, hidden2, item, w3, allocate,
    _, c1, ran1, _, c2, ran2, _, c3, ran3, _, c4, ran4, _, c5, ran5, _, c6, ran6, _, c7, ran7,
    a, w4, node1, i, w5, node2, x, w6, node3, elem, w7, conv, _, _, loop, rfl, rfl⟩ := run
  have ref := JType.isReference_of_isArray isArray
  have sourceProper : P.typed → source.kind ≠ .void ∧ source.NoVoidArray := fun typed =>
    ⟨by simp [beq_iff_eq.mp ref], proper typed⟩
  obtain ⟨h1, le1, closed1, l1, found1, type1, known1⟩ := stands_hiddenLocal h (proper_resolve _ sourceProper) hidden1
  obtain ⟨h2, le2, closed2, l2, found2, type2, known2⟩ :=
    stands_hiddenLocal h1 (proper_resolve (t := .int) _ fun _ => ⟨by decide, fun _ => rfl⟩) hidden2
  obtain ⟨h3, le3, frames3, known3, l3, found3, plain3, type3⟩ := h2.allocate (proper_resolve _ value) allocate
  have opened3 : w3.method.top.closed = false := by
    rw [Method.top, frames3]
    exact closed2.trans (closed1.trans opened)
  obtain ⟨m1, at1, slot1, kept1⟩ := (le2.trans le3).locals array l1 found1
  obtain ⟨m2, at2, slot2, kept2⟩ := le3.locals counter l2 found2
  have get1 : w3.method.locals.getD array default = m1 := by simp [at1]
  have get2 : w3.method.locals.getD counter default = m2 := by simp [at2]
  have known : insert m2.slot (insert m1.slot w.known) = w3.known := by
    rw [known3, known2, known1, slot1, slot2]
  have heldA : (w3.rules P).holds m1.slot source.kind :=
    ⟨m1, Array.mem_of_getElem? at1, rfl, by rw [kept1, type1, JType.kind_resolve]⟩
  have heldI : (w3.rules P).holds m2.slot (.prim .int) :=
    ⟨m2, Array.mem_of_getElem? at2, rfl, congrArg JType.kind (kept2.trans type2)⟩
  have head := stands_arrayHead h3 isArray (get1 ▸ heldA) (get2 ▸ heldI) ran1 ran2 ran3 ran4 ran5 ran6 ran7
  rw [get1, get2, known] at head
  have lt1 : array < w3.method.locals.size := (Array.getElem?_eq_some_iff.mp at1).1
  obtain ⟨made1, exprA⟩ := head.sound.node (fine_local head.sound lt1) node1
  have same4 : w4.method.locals = w3.method.locals := by rw [made1.method]; rfl
  have lt2 : counter < w4.method.locals.size := same4 ▸ (Array.getElem?_eq_some_iff.mp at2).1
  obtain ⟨made2, exprI⟩ := made1.sound.node (fine_local made1.sound lt2) node2
  have made := made1.trans made2
  have readA : a.expr = .local ⟨array, m1.name, m1.slot, m1.type⟩ := by rw [exprA, ← get1]; rfl
  have readI : i.expr = .local ⟨counter, m2.name, m2.slot, m2.type⟩ := by rw [exprI, same4, ← get2]
  have isArrayA : a.expr.type.isArray = true := by
    rw [readA]
    exact (congrArg JType.isArray (kept1.trans type1)).trans ((JType.isArray_resolve _ _).trans isArray)
  have intI : i.expr.type = .int := by
    rw [readI]
    exact kept2.trans type2
  have fineA : Fine P w5 a.expr := made2.fine (exprA ▸ made1.fine (fine_local head.sound lt1))
  have fineI : Fine P w5 i.expr := exprI ▸ made2.fine (fine_local made1.sound lt2)
  have fineX := fine_arrayGet fineA fineI isArrayA intI fun typed => JType.elem_of_isArray (proper typed) isArray
  obtain ⟨made3, exprX⟩ := made.sound.node fineX node3
  obtain ⟨made4, adapted, words⟩ := assignConv_spec made3.sound (exprX ▸ made3.fine fineX) conv
  have calm := (made.trans (made3.trans made4)).calm
  have stands := head.calm calm
  have same : w7.known = w3.known := calm.known
  rw [← same] at stands
  have slots : P.strict → ∀ l ∈ elem.expr.reads, l.slot ∈ w7.known := by
    intro _ l hl
    have read := adapted.reads l hl
    rw [exprX, Expr.reads, readA, readI, Expr.reads, Expr.reads, List.mem_append, List.mem_singleton,
      List.mem_singleton] at read
    rw [same, ← known]
    rcases read with rfl | rfl
    · exact .inr (.inl rfl)
    · exact .inl rfl
  have found : w7.method.locals[item]? = some l3 := by
    rw [calm.locals]
    exact found3
  refine settled_openLoop stands loop (calm.top ▸ opened3) adapted.fine slots words (fun typed => (value typed).1)
    found plain3 (by rw [type3, JType.kind_resolve]) (by rintro ⟨⟩) rfl fun counter' continues array' => ?_
  cases array'
  rw [get2, same, ← known]
  exact ⟨⟨.inl rfl, calm.le.holds _ _ heldI⟩, rfl⟩

theorem stands_iteratorHead (h : Stands P ctx w [] [] (some ⟨[.reference], known⟩))
    (ref : iterator.words = [.reference]) (held : (w.rules P).holds i iterator.kind) (starts : P.typed → w.pool.callEffect? start = some ⟨[], [.reference]⟩)
    (asks : P.typed → w.pool.callEffect? hasNext = some ⟨[], [.int]⟩)
    (named1 : (w.rules P).Names .invokeinterface start) (named2 : (w.rules P).Names .invokeinterface hasNext)
    (call1 : Yields (Code.emitInterface start 0) w.method.code () c1) (store : Yields (Code.store iterator i) c1 () c2)
    (load : Yields (Code.load iterator i) c2 () c3) (call2 : Yields (Code.emitInterface hasNext 0) c3 () c4)
    (test : Yields (Code.pushSite .ifeq) c4 () c5) :
    Stands P ctx (w.withCode c5) [(c2.pos, ⟨[], insert i known⟩)] [⟨[], insert i known⟩] (some ⟨[], insert i known⟩) := by
  have value := JType.kind_ne_void_of_words ref
  have room : ∀ s : List Word, Word.depth s ≤ 2 → P.typed → Word.depth s ≤ w.method.maxStack + Method.stackSlack :=
    fun s few _ => by unfold Method.stackSlack; omega
  have branches : Opcode.ifeq.effect? = some ⟨[.int], []⟩ := by decide
  have calls : ∀ {ref : UInt16} {e : Effect}, w.pool.callEffect? ref = some e →
      refEffect? (w.rules P) .invokeinterface ref = some ⟨e.pops ++ [.reference], e.pushes⟩ := fun found =>
    (refEffect?_call (R := w.rules P) found).2 _ (by decide)
  have h1 : Stands P ctx (w.withCode c1) [] [] (some ⟨iterator.words ++ [], known⟩) :=
    h.code (fun _ _ _ seg => seg.emitInterface call1 named1 (room [.reference] (by decide)) (fun typed =>
      moves_ref (calls (starts typed)) [] rfl (by rw [ref])) h.above) fun d hd => by cases hd; exact h.above
  have h2 := h1.store held (fun _ => value) (room _ (by rw [ref]; decide)) store
  have noted : Stands P ctx (w.withCode c2) [(c2.pos, ⟨[], insert i known⟩)] [] (some ⟨[], insert i known⟩) :=
    ⟨h2.sound, h2.laid.mark⟩
  have above := noted.above
  refine noted.code (w := w.withCode c2) (fun _ _ _ seg => ?_) fun d hd => by cases hd; exact above
  have s1 := seg.load load held (fun _ => .inl rfl) (fun _ => value) (room _ (by decide)) above
  have s2 := s1.emitInterface (t := [.int]) call2 named2 (room _ (by rw [ref]; decide)) (fun typed =>
    moves_ref (calls (asks typed)) [] (by rw [ref]; rfl) rfl) above
  exact s2.pushSite test (by decide) (room [.int] (by decide)) (fun _ => moves_op branches [] rfl rfl) (fun _ hs => hs)
    (.inr rfl) above

theorem settled_forIterable (h : Stands P ctx w [] [] (some ⟨[.reference], w.known⟩))
    (opened : w.method.top.closed = false)
    (value : P.typed → type.kind ≠ .void ∧ type.NoVoidArray)
    (iterates : ∀ owner method descriptor, (owner, method, descriptor) ∈ Statement.iteratorCalls →
      P.named .invokeinterface (.member .interfaceMethod owner method descriptor))
    (casts : P.named .checkcast (.type (type.box.getD type).internalName))
    (run : Gives ctx (forIterable type name) w id w') : Settled P ctx w' := by
  simp only [forIterable, gives_bind, gives_localAt, gives_pos, gives_localRead, gives_pure, looked, coded] at run
  obtain ⟨it, w1, hidden, item, w2, allocate, start, w3, entry1, hasNext, w4, entry2,
    _, c1, ran1, _, c2, ran2, _, c3, ran3, _, c4, ran4, _, c5, ran5, r, w5, node1,
    c, w6, target, next, w7, node2, elem, w8, conv, _, _, loop, rfl, rfl⟩ := run
  have named : (JType.ofClass iteratorName).WellFormed :=
    JType.wellFormed_ofClass _ (by decide) (by decide) (by decide)
  have iterator : P.typed → (JType.ofClass iteratorName).kind ≠ .void ∧ (JType.ofClass iteratorName).NoVoidArray :=
    fun _ => ⟨by simp, named.noVoidArray⟩
  obtain ⟨h1, le1, closed1, l1, found1, type1, known1⟩ := stands_hiddenLocal h (proper_resolve _ iterator) hidden
  obtain ⟨h2, le2, frames2, known2, l2, found2, plain2, type2⟩ := h1.allocate (proper_resolve _ value) allocate
  obtain ⟨made1, descriptor1⟩ := h2.sound.intern (Pool.interns_member _ _ _ _) entry1
  obtain ⟨made2, descriptor2⟩ := made1.sound.intern (Pool.interns_member _ _ _ _) entry2
  have made := made1.trans made2
  have h4 := h2.calm made.calm
  have starts : P.typed → w4.pool.callEffect? start = some ⟨[], [.reference]⟩ := fun _ => by
    have spelled : JType.methodDescriptor (.ofClass iteratorName) [] = "()Ljava/util/Iterator;" := by decide
    have found := Pool.descriptor?_of_reference? (made2.pool.reference? descriptor1)
    rw [← spelled] at found
    simpa using Pool.callEffect?_of_descriptor? named (by simp) found
  have asks : P.typed → w4.pool.callEffect? hasNext = some ⟨[], [.int]⟩ := fun _ => by
    have spelled : JType.methodDescriptor .boolean [] = "()Z" := by decide
    have found := Pool.descriptor?_of_reference? descriptor2
    rw [← spelled] at found
    exact Pool.callEffect?_of_descriptor? (JType.wellFormed_ofPrim .boolean) (by simp) found
  obtain ⟨m1, at1, slot1, kept1⟩ := le2.locals it l1 found1
  have get1 : w2.method.locals.getD it default = m1 := by simp [at1]
  have held : (w2.rules P).holds m1.slot (JType.ofClass iteratorName).kind :=
    ⟨m1, Array.mem_of_getElem? at1, rfl, congrArg JType.kind (kept1.trans type1)⟩
  have head := stands_iteratorHead h4 (JType.words_ofClass _) (made.calm.le.holds _ _ (get1 ▸ held)) starts asks
    ⟨_, made2.pool.reference? descriptor1, iterates _ _ _ (by simp [Statement.iteratorCalls])⟩
    ⟨_, descriptor2, iterates _ _ _ (by simp [Statement.iteratorCalls])⟩ ran1 ran2 ran3 ran4 ran5
  have known : insert m1.slot w.known = w4.known := by
    rw [made.calm.known, known2, known1, slot1]
  rw [get1, known] at head
  have at4 : w4.method.locals[it]? = some m1 := by
    rw [made.calm.locals]
    exact at1
  have lt : it < w4.method.locals.size := (Array.getElem?_eq_some_iff.mp at4).1
  obtain ⟨made3, exprR⟩ := head.sound.node (fine_local head.sound lt) node1
  have readR : r.expr = .local ⟨it, m1.name, m1.slot, m1.type⟩ := by
    have get4 : w4.method.locals.getD it default = m1 := by simp [at4]
    rw [exprR, ← get4]
    rfl
  have wordsR : r.type.words = [.reference] := by
    rw [Term.type, readR]
    exact (congrArg JType.words (kept1.trans type1)).trans (JType.words_ofClass _)
  have object : JType.object.WellFormed := JType.wellFormed_ofClass _ (by decide) (by decide) (by decide)
  have next' : (iteratorName, "next", JType.methodDescriptor .object []) ∈ Statement.iteratorCalls := by decide
  obtain ⟨made4, adapted1, -⟩ := callOne_spec made3.sound (exprR ▸ made3.fine (fine_local head.sound lt))
    (fun _ => object.noVoidArray) (by decide) (iterates _ _ _ next') target (fun _ R found => by
      rw [wordsR]
      exact (refEffect?_call (Pool.callEffect?_of_descriptor? object (by simp) found)).2 _ (by decide)) node2
  obtain ⟨made5, adapted2, words⟩ := castConv_spec made4.sound adapted1.fine (fun typed => (value typed).2) casts conv
  have adapted := adapted1.trans adapted2
  have calm := (made3.trans (made4.trans made5)).calm
  have stands := head.calm calm
  have same : w8.known = w4.known := calm.known
  rw [← same] at stands
  have slots : P.strict → ∀ l ∈ elem.expr.reads, l.slot ∈ w8.known := by
    intro _ l hl
    have read := adapted.reads l hl
    rw [readR, Expr.reads, List.mem_singleton] at read
    rw [same, ← known, read]
    exact .inl rfl
  have opened2 : w4.method.top.closed = false := by
    rw [made.calm.top, Method.top, frames2]
    exact closed1.trans opened
  have found : w8.method.locals[item]? = some l2 := by
    rw [calm.locals]
    exact made.calm.locals ▸ found2
  exact settled_openLoop stands loop (calm.top ▸ opened2) adapted.fine slots words (fun typed => (value typed).1)
    found plain2 (by rw [type2, JType.kind_resolve]) (by rintro ⟨⟩) rfl (by rintro _ _ ⟨⟩)

theorem settled_forEach {source : Operand} (h : Settled P ctx w) (opened : w.method.top.closed = false)
    (timely : P.strict → source.Timely w.method) (proper : P.typed → (type.resolve ctx.name).NoVoidArray)
    (named : ∀ op r, (Statement.forEach type name source).Names ctx w.method op r → P.named op r)
    (run : Gives ctx (forEach type name source) w id w') : Settled P ctx w' := by
  simp only [forEach, gives_bind, gives_ofExcept, gives_read, gives_unless, gives_method, looked, emitValue, coded] at run
  obtain ⟨_, _, ⟨-, rfl⟩, e, _, claim, unfit, swept, -, _, w1, own, _, w2, mark, _, w3, reserve, _, c, ran, run⟩ := run
  obtain ⟨rfl, claimed⟩ := of_claim claim
  have value : P.typed → (type.resolve ctx.name).kind ≠ .void ∧ (type.resolve ctx.name).NoVoidArray := fun typed => by
    refine ⟨fun void => ?_, proper typed⟩
    simp [JType.isVoid, void] at unfit
  obtain ⟨calm, -, room⟩ := calm_prepare (.refl h.sound) own mark reserve
  have adapted : Adapted P w3 e e := .refl (calm.le.fine (h.sound.claimed claimed))
  have pushed := (h.standing opened calm).value adapted.fine (adapted.known claimed timely calm)
    (fun _ => by simp only [Word.depth_nil, Nat.zero_add]; omega) ran
  by_cases array : e.type.isArray = true
  · rw [if_pos array] at run
    exact settled_forArray (w := w3.withCode c) pushed (calm.top ▸ opened) array adapted.fine.type value run
  · rw [if_neg array] at run
    have iterable : ctx.lookup.isAssignable e.type (.ofClass iterableName) = true := by simpa [array] using swept
    have ref : e.type.isReference = true := by
      rw [Provider.isReference_of_isAssignable iterable]
      simp [JType.isReference]
    have words : e.expr.type.words ++ [] = [.reference] := by
      rw [List.append_nil]
      exact JType.words_of_isReference ref
    exact settled_forIterable (w := w3.withCode c) (pushed.restack fun _ => words) (calm.top ▸ opened) value
      (fun _ _ _ call => named _ _ (.iterate call)) (named _ _ .item) run

end Step

end

end ClassForge.Assembler

import ClassForge.Proofs.Conversions
import ClassForge.Proofs.Naming
import ClassForge.Proofs.Overloads

/-! Every request for an expression makes nodes that can be emitted. -/

namespace ClassForge

open JType hiding elem

open List

namespace Provider

variable {p : Provider} {name : String}

theorem WellFormed.findField (h : p.WellFormed) (found : p.findField owner name = .ok f) : f.type.WellFormed := by
  unfold Provider.findField at found
  dsimp only at found
  split at found
  · rename_i g declared
    cases found
    obtain ⟨c, hc, field⟩ := exists_of_findSome?_eq_some declared
    obtain ⟨_, class_, -⟩ := Hierarchy.above_of_mem_supertypes hc
    exact (h _ c class_).fields f (Array.mem_of_find?_eq_some field)
  · split at found <;> cases found

theorem WellFormed.findMethods (h : p.WellFormed)
    (found : p.findMethods owner name = .ok ms) (hm : m ∈ ms) : m.WellFormed ∧ m.name = name := by
  obtain ⟨_, c, class_, member, named⟩ := declared_of_findMethods found hm
  exact ⟨(h _ c class_).methods m member, named⟩

end Provider

namespace Assembler

theorem Overload.of_resolve (h : resolve c owner name isStatic args = .ok m) :
    (∃ all, c.lookup.findMethods owner name = .ok all ∧ m ∈ all) ∧ m.params.length = args.length ∧
      m.isStatic = isStatic := by
  obtain ⟨all, found, selected⟩ := select_of_resolve h
  obtain ⟨member, arity, kind, -⟩ := mem_candidates.mp (of_select selected).1
  exact ⟨⟨all, found, member⟩, arity, kind⟩

theorem Expr.mem_readsAll : l ∈ readsAll es ↔ ∃ e ∈ es, l ∈ e.reads := by
  induction es with
  | nil => simp [readsAll]
  | cons e es ih => simp [readsAll, ih]

section

variable {P : Policy} {ctx : Context} {w w' : Work} {x : Term} {t : JType}

theorem Made.node (made : Made P ctx w u) (new : Fine P u f)
    (run : Step.Gives ctx (Step.node f operands) u x w') : Made P ctx w w' :=
  made.trans (made.sound.node new run).1

namespace Step

variable {params : List JType} {args xs : List Term} {id : Nat} {name : String} {r : FieldInfo × UInt16}

theorem of_naming (run : Gives ctx (naming position signature a) w y w') : Gives ctx a w y w' := by
  change naming position signature a ctx w = _ at run
  change a ctx w = _
  unfold naming at run
  cases ran : a ctx w with
  | mk r v =>
    rw [ran] at run
    cases r with
    | ok z => exact run
    | error f => cases run

/-- The arguments of a call, converted: each reads no more than a given one. -/
structure Coerced (P : Policy) (w : Work) (args xs : List Term) (params : List JType) : Prop where
  fine : ∀ x ∈ xs, Fine P w x.expr
  reads : ∀ x ∈ xs, ∀ l ∈ x.expr.reads, ∃ a ∈ args, l ∈ a.expr.reads
  words : args.length = params.length → xs.map (·.type.words) = params.map JType.words

theorem coerceFrom_spec (sound : Sound P ctx w) (fine : ∀ a ∈ args, Fine P w a.expr)
    (run : Gives ctx (coerceFrom position signature args params) w xs w') :
    Made P ctx w w' ∧ Coerced P w' args xs params := by
  induction args generalizing position params xs w with
  | nil =>
    obtain ⟨rfl, rfl⟩ := run
    exact ⟨.refl sound, by simp, by simp, fun same => by simp [length_eq_zero_iff.mp same.symm]⟩
  | cons a args ih =>
    cases params with
    | nil =>
      obtain ⟨rfl, rfl⟩ := run
      exact ⟨.refl sound, by simp, by simp, fun same => by simp at same⟩
    | cons t params =>
      simp only [coerceFrom, gives_bind, gives_pure] at run
      obtain ⟨c, v, first, rest, _, run, rfl, rfl⟩ := run
      obtain ⟨made, adapted, words⟩ := assignConv_spec sound (fine a mem_cons_self) (of_naming first)
      obtain ⟨made', coerced⟩ := ih made.sound (fun b hb => made.fine (fine b (mem_cons_of_mem _ hb))) run
      refine ⟨made.trans made', ?_, ?_, fun same => ?_⟩
      · intro x hx
        rcases mem_cons.mp hx with rfl | later
        · exact made'.fine adapted.fine
        · exact coerced.fine x later
      · intro x hx l hl
        rcases mem_cons.mp hx with rfl | later
        · exact ⟨a, mem_cons_self, adapted.reads l hl⟩
        · obtain ⟨b, hb, found⟩ := coerced.reads x later l hl
          exact ⟨b, mem_cons_of_mem _ hb, found⟩
      · simp [words, coerced.words (by simpa using same)]

theorem Coerced.argWords (h : Coerced P w args xs params) (same : args.length = params.length) :
    Expr.argWords (xs.map (·.expr)) = params.reverse.flatMap JType.words := by
  have words := h.words same
  unfold Expr.argWords
  rw [flatMap_def, flatMap_def, map_reverse, map_reverse, ← words, map_map]
  rfl

theorem of_lookup (run : Gives ctx (lookup name) w c w') : w = w' ∧ ctx.lookup.lookup name = .ok c := by
  unfold lookup at run
  simp only [gives_bind, gives_read, looked] at run
  split at run
  · rename_i d found
    obtain ⟨rfl, rfl⟩ := gives_pure.mp run
    exact ⟨rfl, found⟩
  · simp at run

theorem of_resolve (run : Gives ctx (resolve owner name isStatic args) w m w') : w = w' ∧
    Overload.resolve ctx owner name isStatic (args.map (·.type)) = .ok m ∧
    (ctx.lookup.WellFormed → m.WellFormed ∧ m.name = name) ∧ args.length = m.params.length ∧ m.isStatic = isStatic := by
  simp only [resolve, gives_bind, gives_read, gives_ofExcept, looked] at run
  obtain ⟨chosen, rfl⟩ := run
  obtain ⟨⟨all, found, mem⟩, arity, kind⟩ := Overload.of_resolve chosen
  exact ⟨rfl, chosen, fun h => h.findMethods found mem, by simpa using arity.symm, kind⟩

theorem invoke_spec {receiver : Option Term} (sound : Sound P ctx w) (fine : ∀ a ∈ args, Fine P w a.expr)
    (self : ∀ r ∈ receiver, Fine P w r.expr) (instance_ : m.isStatic = !receiver.isSome)
    (arity : args.length = m.params.length) (ref : ∀ r ∈ receiver, r.type.isReference = true)
    (wellFormed : P.typed → m.WellFormed) (named : ∀ op r, Calls ctx m special op r → P.named op r)
    (run : Gives ctx (invoke m receiver special args) w x w') : Made P ctx w w' ∧ Fine P w' x.expr ∧ x.type = m.ret ∧
    ∀ l ∈ x.expr.reads, ∃ a ∈ receiver.toList ++ args, l ∈ a.expr.reads := by
  simp only [invoke, gives_bind, gives_read, looked] at run
  obtain ⟨owner, _, found, xs, w1, coerce, c, w2, entry, run⟩ := run
  obtain ⟨rfl, declares⟩ := of_lookup found
  obtain ⟨made1, coerced⟩ := coerceFrom_spec sound fine coerce
  obtain ⟨made2, op, reference⟩ := target_spec made1.sound entry
  have made := made1.trans made2
  have fineAll : ∀ a ∈ receiver.toList ++ xs, Fine P w2 a.expr := by
    intro a ha
    rcases mem_append.mp ha with r | x
    · exact made.fine (self a (Option.mem_toList.mp r))
    · exact made2.fine (coerced.fine a x)
  have reads : ∀ l ∈ Expr.readsAll ((receiver.toList ++ xs).map (·.expr)),
      ∃ a ∈ receiver.toList ++ args, l ∈ a.expr.reads := by
    intro l hl
    obtain ⟨f, hf, read⟩ := Expr.mem_readsAll.mp hl
    obtain ⟨a, ha, rfl⟩ := mem_map.mp hf
    rcases mem_append.mp ha with r | x
    · exact ⟨a, mem_append_left _ r, read⟩
    · obtain ⟨b, hb, read⟩ := coerced.reads a x l read
      exact ⟨b, mem_append_right _ hb, read⟩
  have effect : P.typed → refEffect? (w2.rules P) c.op c.ref =
      some ⟨Expr.argWords ((receiver.toList ++ xs).map (·.expr)), m.ret.words⟩ := by
    intro typed
    have call := refEffect?_call (R := w2.rules P) (Pool.callEffect?_of_descriptor? (wellFormed typed).ret
      (wellFormed typed).params (Pool.descriptor?_of_reference? reference))
    cases receiver with
    | none =>
      have isStatic : m.isStatic = true := instance_
      simp only [isStatic, if_true] at op
      rw [op, call.1]
      simp [coerced.argWords arity]
    | some r =>
      have isInstance : m.isStatic = false := instance_
      have words : r.expr.type.words = [.reference] := words_of_isReference (ref r rfl)
      have among : c.op ∈ [Opcode.invokevirtual, .invokespecial, .invokeinterface] := by
        rw [op, isInstance]
        split_ifs <;> simp_all
      rw [call.2 c.op among]
      have split := Expr.argWords_cons r.expr (xs.map (·.expr)) []
      simp only [append_nil, coerced.argWords arity, words] at split
      simp [split]
  have among : c.op ∈ [Opcode.invokestatic, .invokevirtual, .invokespecial, .invokeinterface] := by
    rw [op]
    split_ifs <;> simp
  have new : Fine P w2 (.invoke m.ret c false ((receiver.toList ++ xs).map (·.expr))) := by
    have names : (w2.rules P).Names c.op c.ref := ⟨_, reference, op ▸ named _ _ (.intro declares)⟩
    refine ⟨.invoke ?_ among names effect, ?_, fun typed => (wellFormed typed).ret.noVoidArray⟩
    · intro f hf
      obtain ⟨a, ha, rfl⟩ := mem_map.mp hf
      exact (fineAll a ha).good
    · intro l hl
      obtain ⟨f, hf, read⟩ := Expr.mem_readsAll.mp hl
      obtain ⟨a, ha, rfl⟩ := mem_map.mp hf
      exact (fineAll a ha).reads l read
  obtain ⟨made3, same⟩ := made2.sound.node new run
  rw [Term.type, same]
  exact ⟨made.trans made3, made3.fine new, rfl, reads⟩

theorem of_field (run : Gives ctx (field owner name isStatic) w r w') :
    owner.isReference = true ∧ ctx.lookup.findField owner.internalName name = .ok r.1 ∧
      Gives ctx (pool (Pool.fieldref r.1.owner r.1.name r.1.descriptor)) w r.2 w' := by
  simp only [field, gives_unless, gives_bind, gives_read, looked] at run
  obtain ⟨owned, run⟩ := run
  have ref : owner.isReference = true := by
    simp only [Bool.or_eq_true, Bool.not_eq_true', not_or, Bool.not_eq_false] at owned
    exact owned.1.1
  split at run
  · simp at run
  rename_i f found
  simp only [gives_unless, gives_bind, gives_read, looked] at run
  obtain ⟨-, run⟩ := run
  split at run
  · simp at run
  simp only [gives_bind, gives_pure] at run
  obtain ⟨i, v, entry, rfl, rfl⟩ := run
  exact ⟨ref, found, entry⟩

theorem field_spec (sound : Sound P ctx w) (run : Gives ctx (field owner name isStatic) w r w') :
    Made P ctx w w' ∧ owner.isReference = true ∧ ctx.lookup.findField owner.internalName name = .ok r.1 ∧
      w'.pool.reference? r.2 = some r.1.reference ∧
      (P.typed → r.1.type.WellFormed ∧ w'.pool.fieldWords? r.2 = some r.1.type.words) := by
  obtain ⟨ref, found, entry⟩ := of_field run
  obtain ⟨made, reference⟩ := sound.intern (Pool.interns_member _ _ _ _) entry
  refine ⟨made, ref, found, reference, fun typed => ?_⟩
  have wellFormed := (sound.typed typed).classes.findField found
  exact ⟨wellFormed, Pool.fieldWords?_of_descriptor? wellFormed (Pool.descriptor?_of_reference? reference)⟩

theorem of_checkFinal (run : Gives ctx (checkFinal f) w y w') : w = w' := by
  simp only [checkFinal, gives_bind, gives_read, gives_method, looked, gives_unless, gives_pure] at run
  exact run.2.2

theorem of_ownLocal (run : Gives ctx (ownLocal l) w id w') : w = w' ∧ l = .local id ∧ id < w.method.locals.size := by
  cases l with
  | missing | foreign => simp [ownLocal] at run
  | «local» i =>
    simp only [ownLocal, gives_bind, gives_method, looked, gives_where, gives_pure] at run
    obtain ⟨here, rfl, rfl⟩ := run
    exact ⟨rfl, rfl, here⟩

@[simp] theorem gives_localRead :
    Gives ctx (localRead id) w f w' ↔ .local ⟨id, (w.method.locals.getD id default).name,
      (w.method.locals.getD id default).slot, (w.method.locals.getD id default).type⟩ = f ∧ w = w' := by
  simp [localRead, and_comm]

theorem fine_local (sound : Sound P ctx w) (here : id < w.method.locals.size) :
    Fine P w (.local ⟨id, (w.method.locals.getD id default).name, (w.method.locals.getD id default).slot,
      (w.method.locals.getD id default).type⟩) := by
  have found : w.method.locals[id]? = some (w.method.locals.getD id default) := by simp [here]
  have typed := fun typed => (sound.typed typed).locals _ (Array.mem_of_getElem? found)
  have held : (w.rules P).holds _ _ := ⟨_, Array.mem_of_getElem? found, rfl, rfl⟩
  refine ⟨.local held fun yes => (typed yes).1, fun l hl => ?_, fun yes => (typed yes).2⟩
  rw [Expr.reads, mem_singleton] at hl
  subst hl
  exact ⟨_, found, rfl⟩

end Step

variable {v : Literal} {value : Value}

theorem Value.interns_entered (v : Value) : Pool.Interns v.intern fun p ref => v.Entered p ref := by
  have spared : ∀ (short : Prop) [Decidable short] (c : Constant) (r : Reference),
      (∀ (p : Pool) i, p.get? i = some c → p.reference? i = some r) →
      Pool.Interns (if short then pure 0 else Pool.intern c) fun p i =>
        short ∧ i = 0 ∨ ¬ short ∧ i ≠ 0 ∧ ∃ s, some r = some s ∧ p.reference? i = some s := by
    intro short _ c r h
    split_ifs with yes
    · exact (Pool.interns_pure 0).weaken fun _ _ zero => .inl ⟨yes, zero⟩
    · exact (Pool.interns_number h).ne_zero.weaken fun _ _ found => .inr ⟨yes, found.1, r, rfl, found.2⟩
  cases v with
  | null | bool => exact (Pool.interns_pure _).weaken fun _ _ zero => .inl ⟨trivial, zero⟩
  | int n => exact spared _ (.integer _) (.integer _) fun p i h => by rw [Pool.reference?, h]
  | long n => exact spared _ (.long _) (.long _) fun p i h => by rw [Pool.reference?, h]
  | float n => exact spared _ (.float _) (.float _) fun p i h => by rw [Pool.reference?, h]
  | double n => exact spared _ (.double _) (.double _) fun p i h => by rw [Pool.reference?, h]
  | text s => exact (Pool.interns_string s).ne_zero.weaken fun _ _ found => .inr ⟨id, found.1, _, rfl, found.2⟩
  | type c => exact (Pool.interns_type _).ne_zero.weaken fun _ _ found => .inr ⟨id, found.1, _, rfl, found.2⟩

theorem Value.interns (v : Value) : Pool.Interns v.intern fun p ref => v.Linked p ref :=
  v.interns_entered.weaken fun _ _ entered => entered.linked

theorem numberFor_words (h : numberFor t v whole fraction = .ok value) (values : t.kind ≠ .void)
    (numbers : t.kind ≠ .reference) : t.words = [value.word] := by
  unfold words
  unfold numberFor at h
  cases k : t.kind with
  | void => exact absurd k values
  | reference => exact absurd k numbers
  | prim p =>
    rw [k] at h
    cases p <;> cases whole <;> cases fraction <;> simp [reduceCtorEq] at h <;>
      first
        | cases h; rfl
        | split_ifs at h; cases h; rfl

theorem constantFor_words (h : constantFor t v = .ok value) (values : t.kind ≠ .void) : t.words = [value.word] := by
  unfold constantFor at h
  split at h
  · split_ifs at h with ref
    cases h
    exact words_of_isReference ref
  · by_cases ref : t.isReference = true
    · rw [if_pos ref] at h
      split at h
      · split_ifs at h
        cases h
        exact words_of_isReference ref
      · cases h
    · rw [if_neg ref] at h
      have numbers : t.kind ≠ .reference := by simpa [isReference] using ref
      split at h
      · split_ifs at h with boolean
        cases h
        rw [words, boolean]
        rfl
      · split_ifs at h
        exact numberFor_words h values numbers
      · exact numberFor_words h values numbers
      · exact numberFor_words h values numbers
      · cases h

theorem constantType_value (h : v.constantType = some t) : t.kind ≠ .void ∧ t.NoVoidArray := by
  have flat : ∀ u : JType, u.dims = 0 → u.NoVoidArray := fun _ zero _ => zero
  unfold Literal.constantType at h
  split at h <;> first | cases h; done | skip
  all_goals
    cases h
    first
      | exact ⟨by decide, flat _ rfl⟩
      | exact ⟨by simp, flat _ rfl⟩
      | (split_ifs <;> exact ⟨by decide, flat _ rfl⟩)

namespace Step

variable {op : BinaryOp} {a array b : Term}

/-- Whatever the step does to a sound method, it makes nodes and entries only. -/
def Keeps (P : Policy) (ctx : Context) (w : Work) (a : Step Term) : Prop :=
  ∀ {w' : Work} {x : Term}, Sound P ctx w → Gives ctx a w x w' → Made P ctx w w'

theorem constant_spec {v : Value} (sound : Sound P ctx w) (words : P.typed → t.words = [v.word])
    (proper : P.typed → t.NoVoidArray) (named : v.Named P.named) (entry : Gives ctx (pool v.intern) w ref u)
    (run : Gives ctx (node (.const t v ref) operands) u x w') : Made P ctx w w' := by
  obtain ⟨made, linked⟩ := sound.intern v.interns entry
  have new : Fine P u (.const t v ref) := ⟨.const words linked named, by simp [Expr.reads], proper⟩
  exact made.node new run

theorem keeps_const (v : Literal) (named : ∀ value, v.constant? ctx.name = some value → value.Named P.named)
    (primitive : ∀ c b, v = .type c → c.box = some b →
      P.named .getstatic (.member .field b.internalName "TYPE" "Ljava/lang/Class;")) :
    Keeps P ctx w (const v) := by
  intro w' x sound run
  unfold const at run
  split at run
  · simp at run
  rename_i t type
  obtain ⟨values, proper⟩ := constantType_value type
  split at run
  · rename_i c
    cases type
    split at run
    · simp at run
    split at run
    · rename_i b boxed
      simp only [gives_bind] at run
      obtain ⟨ref, u, entry, run⟩ := run
      obtain ⟨made, reference⟩ := sound.intern (Pool.interns_member _ _ _ _) entry
      have class_ : (ofClass "java/lang/Class").WellFormed :=
        wellFormed_ofClass _ (by decide) (by decide) (by decide)
      have spelled : (ofClass "java/lang/Class").descriptor = "Ljava/lang/Class;" := by decide
      have new : Fine P u (.primitiveClass c ref) := by
        refine ⟨.primitiveClass ⟨_, reference, primitive _ _ rfl boxed⟩ fun typed => ?_, by simp [Expr.reads],
          fun _ => noVoidArray_ofClass _⟩
        have words := Pool.fieldWords?_of_descriptor? class_ (spelled ▸ Pool.descriptor?_of_reference? reference)
        simpa using (refEffect?_field (R := u.rules P) words).1
      exact made.node new run
    · rename_i unboxed
      simp only [gives_bind, gives_read, looked] at run
      obtain ⟨ref, u, entry, run⟩ := run
      exact constant_spec sound (fun _ => words_ofClass _) (fun _ => proper)
        (named _ (by simp [Literal.constant?, unboxed])) entry run
  · simp only [gives_bind] at run
    obtain ⟨ref, u, entry, run⟩ := run
    cases type
    exact constant_spec sound (fun _ => rfl) (fun _ => proper) (fun _ nothing => by cases nothing) entry run
  · simp only [gives_bind] at run
    obtain ⟨ref, u, entry, run⟩ := run
    cases type
    exact constant_spec sound (fun _ => words_ofClass _) (fun _ => proper) (named _ rfl) entry run
  · simp only [gives_bind, gives_ofExcept] at run
    rename_i noType _ noText
    obtain ⟨value, _, ⟨found, rfl⟩, ref, u, entry, run⟩ := run
    refine constant_spec sound (fun _ => constantFor_words found values) (fun _ => proper) (named _ ?_) entry run
    unfold Literal.constant?
    split
    · exact absurd rfl (noType _)
    · exact absurd rfl (noText _)
    · simp [type, found, Except.toOption]

theorem fine_self (sound : Sound P ctx w) (isInstance : w.method.info.isStatic = false) (asSuper : Bool) :
    Fine P w (.self (.ofClass ctx.name) asSuper) :=
  ⟨.self (fun _ => words_ofClass _) (fun _ => (sound.receiver isInstance).1) (sound.receiver isInstance).2, by simp [Expr.reads],
    fun _ => noVoidArray_ofClass _⟩

theorem keeps_receiver : Keeps P ctx w receiver := by
  intro w' x sound run
  simp only [receiver, gives_bind, gives_method, looked, gives_unless, gives_read] at run
  obtain ⟨isInstance, run⟩ := run
  exact (sound.node (fine_self sound (by simpa using isInstance) false) run).1

theorem keeps_getLocal (l : LocalArg) : Keeps P ctx w (getLocal l) := by
  intro w' x sound run
  simp only [getLocal, gives_bind, gives_isAssigned, looked] at run
  obtain ⟨id, _, own, run⟩ := run
  obtain ⟨rfl, -, here⟩ := of_ownLocal own
  split at run
  · simp only [gives_bind, gives_localRead, looked] at run
    exact (sound.node (fine_local sound here) run).1
  · simp [gives_localAt] at run

theorem isPrimitive_of_isIndex (h : isIndex t = true) : t.isPrimitive = true := by
  unfold isIndex isPrimitive at *
  cases k : t.kind with
  | prim p => rfl
  | void | reference => simp [k, Kind.isIntLike] at h

theorem arrayIndex_spec (sound : Sound P ctx w) (fine : Fine P w index.expr)
    (run : Gives ctx (arrayIndex array index) w x w') :
    array.type.isArray = true ∧ Made P ctx w w' ∧ Adapted P w' index x ∧ x.type = .int := by
  simp only [arrayIndex, gives_unless, gives_bind, gives_where] at run
  obtain ⟨array, i, u, first, ok, run⟩ := run
  obtain ⟨made, adapted, -⟩ := unboxed_spec sound fine first
  obtain ⟨made', adapted', type⟩ :=
    convert_spec made.sound adapted.fine (fun _ => ⟨isPrimitive_of_isIndex ok, rfl⟩) run
  exact ⟨by simpa using array, made.trans made', adapted.trans adapted', type⟩

theorem effect?_arrayLoad (value : t.kind ≠ .void) : (arrayLoad t).effect? = some ⟨[.int, .reference], t.words⟩ := by
  unfold arrayLoad words
  cases k : t.kind with
  | void => exact absurd k value
  | reference => decide
  | prim p => cases p <;> decide

theorem fine_arrayGet {a i : Expr} (fineA : Fine P w a) (fineI : Fine P w i) (ref : a.type.isArray = true)
    (int : i.type = .int) (value : P.typed → t.kind ≠ .void ∧ t.NoVoidArray) : Fine P w (.arrayGet t a i) := by
  refine ⟨.arrayGet fineA.good fineI.good fun typed => ?_, fun l hl => ?_, fun typed => (value typed).2⟩
  · rw [effect?_arrayLoad (value typed).1, int, words_of_isReference (isReference_of_isArray ref)]
    rfl
  · rw [Expr.reads, mem_append] at hl
    exact hl.elim (fineA.reads l) (fineI.reads l)

theorem keeps_arrayGet (array index : Operand) : Keeps P ctx w (arrayGet array index) := by
  intro w' x sound run
  simp only [arrayGet, gives_bind] at run
  obtain ⟨⟨a, i⟩, _, claims, i', u, conv, run⟩ := run
  obtain ⟨rfl, claimA, claimI⟩ := of_claim2 claims
  obtain ⟨isArray, made, adapted, type⟩ := arrayIndex_spec sound (sound.claimed claimI) conv
  have fineA := made.fine (sound.claimed claimA)
  have fine := fine_arrayGet fineA adapted.fine isArray type fun typed =>
    elem_of_isArray (fineA.type typed) isArray
  exact made.node fine run

theorem keeps_arrayLength (array : Operand) : Keeps P ctx w (arrayLength array) := by
  intro w' x sound run
  simp only [arrayLength, gives_bind, gives_where] at run
  obtain ⟨a, _, claims, isArray, run⟩ := run
  obtain ⟨rfl, claimA⟩ := of_claim claims
  have fine := sound.claimed claimA
  have words := words_of_isReference (isReference_of_isArray isArray)
  exact (sound.node ⟨.arrayLength fine.good fun _ => words, fine.reads, fun _ => fun _ => rfl⟩ run).1

theorem size_owned (ids : List Nat) (owner : Nat) (nodes : Array Node) : (owned ids owner nodes).size = nodes.size := by
  induction ids generalizing nodes with
  | nil => rfl
  | cons i ids ih => exact (ih _).trans Array.size_modify

theorem modify_push_size (nodes : Array Node) (n : Node) (f : Node → Node) :
    (nodes.push n).modify nodes.size f = nodes.push (f n) := by
  apply Array.ext (by simp)
  intro i hi hj
  simp only [Array.getElem_modify, Array.getElem_push]
  simp only [Array.size_modify, Array.size_push] at hi
  split_ifs with h1 h2 h2 <;> first | rfl | omega

/-- A node that gets its entry after its operands is the same as one made with it. -/
theorem of_node_replace {a : Pool.Action UInt16} {e : UInt16 → Expr}
    (run : Gives ctx (do
      let t ← node e0 operands
      let ref ← pool a
      replace t (e ref)) w x w') : ∃ ref v, Gives ctx (pool a) w ref v ∧ Gives ctx (node (e ref) operands) v x w' := by
  simp only [gives_bind, gives_node, gives_pool, gives_replace, looked] at run
  obtain ⟨ref, _, ⟨p, ran, rfl⟩, rfl, rfl⟩ := run
  refine ⟨ref, { w with pool := p }, gives_pool.mpr ⟨p, ran, rfl⟩, gives_node.mpr ⟨rfl, ?_⟩⟩
  have last := modify_push_size (owned (operands.map (·.id)) w.method.nodes.size w.method.nodes)
    { expr := e0, operands := operands.map (·.id) } fun n => { n with expr := e ref }
  rw [size_owned] at last
  rw [last]

theorem keeps_newArray (elem : JType) (length : Operand)
    (proper : P.typed → (elem.resolve ctx.name).NoVoidArray ∧ (elem.resolve ctx.name).arrayOf.isReference = true)
    (named : P.named .anewarray (.type (elem.resolve ctx.name).internalName)) :
    Keeps P ctx w (newArray elem length) := by
  intro w' x sound run
  simp only [newArray, gives_bind, gives_read, looked, gives_unless] at run
  obtain ⟨n, _, claims, values, i, u, first, isInt, i', u', conv, run⟩ := run
  obtain ⟨rfl, claimN⟩ := of_claim claims
  have notVoid : (elem.resolve ctx.name).kind ≠ .void := by
    simp only [Bool.or_eq_true, not_or, isVoid, beq_iff_eq] at values
    exact values.1
  have arrays : P.typed → (elem.resolve ctx.name).arrayOf.NoVoidArray := by
    intro typed void
    have base : (elem.resolve ctx.name).base = .void := void
    have flat := (proper typed).1 base
    exact absurd (by simp [kind, flat, base]) notVoid
  obtain ⟨made, adapted, -⟩ := unboxed_spec sound (sound.claimed claimN) first
  obtain ⟨made', adapted', type⟩ :=
    convert_spec made.sound adapted.fine (fun _ => ⟨isPrimitive_of_isIndex (by simpa using isInt), rfl⟩) conv
  have made := made.trans made'
  have new : ∀ {v : Work} (ref : UInt16), Fine P v i'.expr →
      ((elem.resolve ctx.name).isPrimitive = false → (v.rules P).Names .anewarray ref) →
      Fine P v (.newArray (elem.resolve ctx.name) ref i'.expr) := fun ref fine names =>
    ⟨.newArray fine.good names fun typed =>
      ⟨by rw [← Term.type, type]; rfl, words_of_isReference (proper typed).2⟩, fine.reads, arrays⟩
  split at run
  · rename_i p k
    have primitive : (elem.resolve ctx.name).isPrimitive = true := by rw [isPrimitive, k]; rfl
    exact made.node (new _ adapted'.fine (by simp [primitive])) run
  · obtain ⟨ref, v, entry, run⟩ := of_node_replace run
    obtain ⟨made1, found⟩ := made'.sound.intern (Pool.interns_type _) entry
    have fine := new ref (made1.fine adapted'.fine) fun _ => ⟨_, found, named⟩
    exact (made.trans made1).node fine run

theorem keeps_cast (operand : Operand) (type : JType) (proper : P.typed → (type.resolve ctx.name).NoVoidArray)
    (named : P.named .checkcast (.type ((type.resolve ctx.name).box.getD (type.resolve ctx.name)).internalName)) :
    Keeps P ctx w (cast operand type) := by
  intro w' x sound run
  simp only [cast, gives_bind, gives_read, looked] at run
  obtain ⟨e, _, claims, c, u, conv, run⟩ := run
  obtain ⟨rfl, claimE⟩ := of_claim claims
  obtain ⟨made, adapted, words⟩ := castConv_spec sound (sound.claimed claimE) proper named conv
  have new : Fine P u (.convert (type.resolve ctx.name) [] false c.expr) :=
    ⟨.convert adapted.fine.good (by simp) fun _ => beq_iff_eq.mpr words, adapted.fine.reads, proper⟩
  exact made.node new run

theorem keeps_instanceOf (operand : Operand) (type : JType)
    (named : P.named .instanceof (.type (type.resolve ctx.name).internalName)) :
    Keeps P ctx w (instanceOf operand type) := by
  intro w' x sound run
  simp only [instanceOf, gives_bind, gives_read, looked, gives_unless] at run
  obtain ⟨e, _, claims, refs, ref, u, entry, run⟩ := run
  obtain ⟨rfl, claimE⟩ := of_claim claims
  obtain ⟨made, found⟩ := sound.intern (Pool.interns_type _) entry
  have isRef : e.type.isReference = true := by
    simp only [Bool.or_eq_true, Bool.not_eq_true', not_or, Bool.not_eq_false] at refs
    exact refs.1.1
  have fine := made.fine (sound.claimed claimE)
  have new : Fine P u (.instanceOf (type.resolve ctx.name) ref e.expr) :=
    ⟨.instanceOf fine.good ⟨_, found, named⟩ fun _ => words_of_isReference isRef, fine.reads, fun _ _ => rfl⟩
  exact made.node new run

theorem keeps_nullTest (cmp : Cmp) (operand : Operand) : Keeps P ctx w (nullTest cmp operand) := by
  intro w' x sound run
  simp only [nullTest, gives_bind, gives_where] at run
  obtain ⟨e, _, claims, isRef, run⟩ := run
  obtain ⟨rfl, claimE⟩ := of_claim claims
  have fine := sound.claimed claimE
  exact (sound.node ⟨.nullTest fine.good fun _ => words_of_isReference isRef, fine.reads, fun _ _ => rfl⟩ run).1

structure Promoted (P : Policy) (w : Work) (a b : Term) (r : JType × Term × Term) : Prop where
  left : Adapted P w a r.2.1
  right : Adapted P w b r.2.2
  leftType : r.2.1.type = r.1
  rightType : r.2.2.type = r.1
  number : ∃ p, r.1 = .ofPrim p ∧ p ∈ [Prim.int, .long, .float, .double]

theorem promoted_spec (sound : Sound P ctx w) (fineA : Fine P w a.expr) (fineB : Fine P w b.expr)
    (run : Gives ctx (promoted symbol a b) w r w') : Made P ctx w w' ∧ Promoted P w' a b r := by
  unfold promoted at run
  split at run
  · rename_i t promotes
    simp only [gives_unless, gives_bind, gives_pure] at run
    obtain ⟨boolean, x, u, first, y, v, second, rfl, rfl⟩ := run
    obtain ⟨p, q, r, isA, isB, rfl, among⟩ := of_promote promotes
    obtain ⟨made1, left, leftType⟩ := convert_spec sound fineA (fun _ => ⟨by rw [isA]; rfl, rfl⟩) first
    obtain ⟨made2, right, rightType⟩ :=
      convert_spec made1.sound (made1.fine fineB) (fun _ => ⟨by rw [isB]; rfl, rfl⟩) second
    refine ⟨made1.trans made2, left.later made2.le, right, leftType, rightType, r, rfl, ?_⟩
    have other : r ≠ .boolean := by
      rintro rfl
      exact boolean rfl
    simpa [other] using among
  · simp at run

def Suits (op : BinaryOp) (p q r : Prim) : Bool :=
  (op.opcode (.ofPrim r)).isPlain &&
    (op.opcode (.ofPrim r)).effect? == some ⟨(JType.ofPrim q).words ++ (JType.ofPrim p).words, (JType.ofPrim r).words⟩

theorem suits_arithmetic : ∀ op ∈ [BinaryOp.add, .sub, .mul, .div, .rem],
    ∀ p ∈ [Prim.int, .long, .float, .double], Suits op p p p = true := by decide

theorem suits_bitwise : ∀ op ∈ [BinaryOp.and, .or, .xor], ∀ p ∈ [Prim.boolean, .int, .long],
    Suits op p p p = true := by decide

theorem suits_shift : ∀ op ∈ [BinaryOp.shl, .shr, .ushr], ∀ p ∈ [Prim.int, .long],
    Suits op p .int p = true := by decide

theorem fine_binary (fineA : Fine P w a.expr) (fineB : Fine P w b.expr) (typeA : a.type = .ofPrim p)
    (typeB : b.type = .ofPrim q) (suits : Suits op p q r = true) : Fine P w (.binary (.ofPrim r) op a.expr b.expr) := by
  simp only [Suits, Bool.and_eq_true, beq_iff_eq] at suits
  refine ⟨.binary fineA.good fineB.good suits.1 fun _ => ?_, fun l hl => ?_, fun _ => noVoidArray_ofPrim r⟩
  · rw [← Term.type, ← Term.type, typeA, typeB]
    exact suits.2
  · rw [Expr.reads, mem_append] at hl
    exact hl.elim (fineA.reads l) (fineB.reads l)

theorem keeps_negate (operand : Operand) : Keeps P ctx w (negate operand) := by
  intro w' x sound run
  simp only [negate, gives_bind, gives_unless] at run
  obtain ⟨a, _, claims, u, v, first, numeric, c, v', conv, run⟩ := run
  obtain ⟨rfl, claimA⟩ := of_claim claims
  obtain ⟨made, adapted, -⟩ := unboxed_spec sound (sound.claimed claimA) first
  have number : ∃ p, u.type.promoteUnary = .ofPrim p ∧ p ∈ [Prim.int, .long, .float, .double] ∧
      u.type.isPrimitive = true := by
    unfold promoteUnary isPrimitive
    cases k : u.type.kind with
    | void | reference => simp [k, Kind.isNumeric] at numeric
    | prim p =>
      rw [k] at numeric
      cases p <;> simp [Kind.isNumeric] at numeric <;>
        first
          | exact ⟨.int, rfl, by decide, rfl⟩
          | exact ⟨_, eq_ofPrim k, by decide, rfl⟩
  obtain ⟨p, same, among, prim⟩ := number
  obtain ⟨made', adapted', type⟩ := convert_spec made.sound adapted.fine (fun _ => ⟨prim, by rw [same]; rfl⟩) conv
  have effect : ∀ p ∈ [Prim.int, .long, .float, .double],
      (Opcode.ineg.plus (Opcode.family (ofPrim p).kind)).effect? =
        some ⟨(ofPrim p).words, (ofPrim p).words⟩ := by decide
  have new : Fine P v' (.neg u.type.promoteUnary c.expr) := by
    refine ⟨.neg adapted'.fine.good fun _ => ?_, adapted'.fine.reads, fun _ => ?_⟩
    · rw [← Term.type, type, same]
      exact effect p among
    · show u.type.promoteUnary.NoVoidArray
      rw [same]
      exact noVoidArray_ofPrim p
  exact (made.trans made').node new run

theorem condition_spec (sound : Sound P ctx w) (fine : Fine P w e.expr) (run : Gives ctx (condition e) w x w') :
    Made P ctx w w' ∧ Adapted P w' e x ∧ x.type = .boolean := by
  simp only [condition, gives_bind, gives_where, gives_pure] at run
  obtain ⟨u, v, first, boolean, rfl, rfl⟩ := run
  obtain ⟨made, adapted, -⟩ := unboxed_spec sound fine first
  exact ⟨made, adapted, boolean⟩

theorem keeps_complement (operand : Operand) : Keeps P ctx w (complement operand) := by
  intro w' x sound run
  simp only [complement, gives_bind] at run
  obtain ⟨a, _, claims, c, v, first, run⟩ := run
  obtain ⟨rfl, claimA⟩ := of_claim claims
  obtain ⟨made, adapted, boolean⟩ := condition_spec sound (sound.claimed claimA) first
  have new : Fine P v (.not c.expr) :=
    ⟨.not adapted.fine.good fun _ => by rw [← Term.type, boolean]; rfl, adapted.fine.reads, fun _ _ => rfl⟩
  exact made.node new run

theorem keeps_logic (conj : Bool) (left right : Operand) : Keeps P ctx w (logic conj left right) := by
  intro w' x sound run
  simp only [logic, gives_bind] at run
  obtain ⟨⟨a, b⟩, _, claims, c, u, first, d, v, second, run⟩ := run
  obtain ⟨rfl, claimA, claimB⟩ := of_claim2 claims
  obtain ⟨made1, left, booleanL⟩ := condition_spec sound (sound.claimed claimA) first
  obtain ⟨made2, right, booleanR⟩ := condition_spec made1.sound (made1.fine (sound.claimed claimB)) second
  have left := left.later made2.le
  have new : Fine P v (.logic conj c.expr d.expr) := by
    refine ⟨.logic left.fine.good right.fine.good fun _ => ⟨?_, ?_⟩, fun l hl => ?_, fun _ _ => rfl⟩
    · rw [← Term.type, booleanL]
      rfl
    · rw [← Term.type, booleanR]
      rfl
    · rw [Expr.reads, mem_append] at hl
      exact hl.elim (left.fine.reads l) (right.fine.reads l)
  exact (made1.trans made2).node new run

theorem appendType_value (value : t.isVoid = false) :
    (appendType t).WellFormed ∧ (appendType t).isVoid = false ∧ (appendType t).words = t.words := by
  have object : JType.object.WellFormed := JType.wellFormed_ofClass _ (by decide) (by decide) (by decide)
  have string : JType.string.WellFormed := JType.wellFormed_ofClass _ (by decide) (by decide) (by decide)
  unfold appendType
  cases k : t.kind with
  | void => simp [JType.isVoid, k] at value
  | reference =>
    have words : t.words = [.reference] := by rw [JType.words, k]; rfl
    split_ifs with isString
    · subst isString
      exact ⟨string, value, rfl⟩
    · exact ⟨object, by simp [JType.object, JType.isVoid], by rw [words]; exact JType.words_ofClass _⟩
  | prim p =>
    obtain rfl := JType.eq_ofPrim k
    cases p <;> exact ⟨JType.wellFormed_ofPrim _, rfl, rfl⟩

theorem concat_spec (sound : Sound P ctx w) (fineA : Fine P w a.expr) (fineB : Fine P w b.expr)
    (named : ∀ op r, Concatenates a.type b.type op r → P.named op r)
    (run : Gives ctx (concat a b) w x w') : Made P ctx w w' := by
  simp only [concat, gives_unless, gives_bind] at run
  obtain ⟨values, builder, w1, e1, init, w2, e2, finish, w3, e3, first, w4, e4, second, w5, e5, run⟩ := run
  have valueA : a.type.isVoid = false := by simp_all
  have valueB : b.type.isVoid = false := by simp_all
  obtain ⟨made1, d1⟩ := sound.intern (Pool.interns_type _) e1
  obtain ⟨made2, d2⟩ := made1.sound.intern (Pool.interns_member _ _ _ _) e2
  obtain ⟨made3, d3⟩ := made2.sound.intern (Pool.interns_member _ _ _ _) e3
  obtain ⟨made4, d4⟩ := made3.sound.intern (Pool.interns_member _ _ _ _) e4
  obtain ⟨made5, d5⟩ := made4.sound.intern (Pool.interns_member _ _ _ _) e5
  have builderType : (ofClass builderName).WellFormed :=
    wellFormed_ofClass _ (by decide) (by decide) (by decide)
  have string : string.WellFormed := wellFormed_ofClass _ (by decide) (by decide) (by decide)
  have void : void.WellFormed := ⟨fun _ => rfl, by rintro _ ⟨⟩⟩
  have none : ∀ t ∈ ([] : List JType), t.WellFormed ∧ t.isVoid = false := by simp
  have spelledInit : methodDescriptor .void [] = "()V" := by decide
  have spelledFinish : methodDescriptor .string [] = "()Ljava/lang/String;" := by decide
  have append : ∀ t : JType, t.isVoid = false → ∀ ref, w5.pool.descriptor? ref =
      some (methodDescriptor (.ofClass builderName) [appendType t]) →
      refEffect? (w5.rules P) .invokevirtual ref = some ⟨t.words ++ [.reference], [.reference]⟩ := by
    intro t value ref found
    obtain ⟨wellFormed, notVoid, words⟩ := appendType_value value
    have call := Pool.callEffect?_of_descriptor? builderType
      (fun u hu => by rw [mem_singleton.mp hu]; exact ⟨wellFormed, notVoid⟩) found
    simpa [words] using (refEffect?_call (R := w5.rules P) call).2 .invokevirtual (by decide)
  have made := (((made1.trans made2).trans made3).trans made4).trans made5
  replace d1 := (((made2.trans made3).trans made4).trans made5).pool.reference? d1
  replace d2 := ((made3.trans made4).trans made5).pool.reference? d2
  replace d3 := (made4.trans made5).pool.reference? d3
  replace d4 := made5.pool.reference? d4
  have fineA := made.fine fineA
  have fineB := made.fine fineB
  have new : Fine P w5 (.concat ⟨builder, init, first, second, finish⟩ a.expr b.expr) := by
    refine ⟨.concat fineA.good fineB.good ⟨⟨_, d1, named _ _ .builder⟩, ⟨_, d2, named _ _ .init⟩,
      ⟨_, d4, named _ _ (.append _ (.inl rfl))⟩, ⟨_, d5, named _ _ (.append _ (.inr rfl))⟩, _, d3, named _ _ .finish⟩
      fun _ => ⟨?_, ?_, ?_, ?_⟩, fun l hl => ?_, fun _ _ => rfl⟩
    · have call := Pool.callEffect?_of_descriptor? void none (spelledInit ▸ Pool.descriptor?_of_reference? d2)
      exact (refEffect?_call (R := w5.rules P) call).2 .invokespecial (by decide)
    · exact append a.type valueA first (Pool.descriptor?_of_reference? d4)
    · exact append b.type valueB second (Pool.descriptor?_of_reference? d5)
    · have call := Pool.callEffect?_of_descriptor? string none (spelledFinish ▸ Pool.descriptor?_of_reference? d3)
      simpa [JType.string] using (refEffect?_call (R := w5.rules P) call).2 .invokevirtual (by decide)
    · rw [Expr.reads, mem_append] at hl
      exact hl.elim (fineA.reads l) (fineB.reads l)
  exact made.node new run

theorem keeps_arithmetic (among : op ∈ [BinaryOp.add, .sub, .mul, .div, .rem])
    (left right : Operand) (named : op = .add → ∀ s t, w.method.typeOf? left = some s → w.method.typeOf? right = some t →
      s = .string ∨ t = .string → ∀ i r, Concatenates s t i r → P.named i r) :
    Keeps P ctx w (arithmetic op left right) := by
  intro w' x sound run
  simp only [arithmetic, gives_bind] at run
  obtain ⟨⟨a, b⟩, _, claims, run⟩ := run
  obtain ⟨rfl, claimA, claimB⟩ := of_claim2 claims
  split at run
  · rename_i strings
    simp only [Bool.and_eq_true, Bool.or_eq_true, decide_eq_true_eq] at strings
    exact concat_spec sound (sound.claimed claimA) (sound.claimed claimB)
      (named strings.1 _ _ claimA.typeOf? claimB.typeOf? strings.2) run
  · simp only [gives_bind] at run
    obtain ⟨ua, w1, first, ub, w2, second, ⟨t, ca, cb⟩, w3, promotes, run⟩ := run
    obtain ⟨made1, adaptedA, -⟩ := unboxed_spec sound (sound.claimed claimA) first
    obtain ⟨made2, adaptedB, -⟩ := unboxed_spec made1.sound (made1.fine (sound.claimed claimB)) second
    obtain ⟨made3, both⟩ := promoted_spec made2.sound (made2.fine adaptedA.fine) adaptedB.fine promotes
    obtain ⟨p, rfl, number⟩ := both.number
    have new := fine_binary both.left.fine both.right.fine both.leftType both.rightType
      (suits_arithmetic op among p number)
    exact ((made1.trans made2).trans made3).node new run

theorem keeps_bitwise (among : op ∈ [BinaryOp.and, .or, .xor]) (left right : Operand) :
    Keeps P ctx w (bitwise op left right) := by
  intro w' x sound run
  simp only [bitwise, gives_bind] at run
  obtain ⟨⟨a, b⟩, _, claims, ua, w1, first, ub, w2, second, run⟩ := run
  obtain ⟨rfl, claimA, claimB⟩ := of_claim2 claims
  obtain ⟨made1, adaptedA, -⟩ := unboxed_spec sound (sound.claimed claimA) first
  obtain ⟨made2, adaptedB, -⟩ := unboxed_spec made1.sound (made1.fine (sound.claimed claimB)) second
  split at run
  · rename_i t promotes
    obtain ⟨p, q, r, isA, isB, rfl, wide⟩ := of_promote promotes
    simp only [gives_where, gives_bind] at run
    obtain ⟨integral, ca, w3, third, cb, w4, fourth, run⟩ := run
    obtain ⟨made3, adaptedA', typeA⟩ := convert_spec made2.sound (made2.fine adaptedA.fine)
      (fun _ => ⟨by rw [isA]; rfl, rfl⟩) third
    obtain ⟨made4, adaptedB', typeB⟩ := convert_spec made3.sound (made3.fine adaptedB.fine)
      (fun _ => ⟨by rw [isB]; rfl, rfl⟩) fourth
    have suitable : r ∈ [Prim.boolean, .int, .long] := by
      revert integral wide
      cases r <;> decide
    have new := fine_binary (made4.fine adaptedA'.fine) adaptedB'.fine typeA typeB (suits_bitwise op among r suitable)
    exact (((made1.trans made2).trans made3).trans made4).node new run
  · simp at run

theorem keeps_shift (among : op ∈ [BinaryOp.shl, .shr, .ushr]) (left right : Operand) :
    Keeps P ctx w (shift op left right) := by
  intro w' x sound run
  simp only [shift, gives_bind, gives_unless] at run
  obtain ⟨⟨a, b⟩, _, claims, ua, w1, first, ub, w2, second, shiftable, isInt, run⟩ := run
  obtain ⟨rfl, claimA, claimB⟩ := of_claim2 claims
  obtain ⟨made1, adaptedA, -⟩ := unboxed_spec sound (sound.claimed claimA) first
  obtain ⟨made2, adaptedB, -⟩ := unboxed_spec made1.sound (made1.fine (sound.claimed claimB)) second
  have number : ∃ p, (if ua.type.promoteUnary = .boolean then .int else ua.type.promoteUnary) = ofPrim p ∧
      p ∈ [Prim.int, .long] ∧ ua.type.isPrimitive = true := by
    cases k : ua.type.kind with
    | void | reference => simp [k, Kind.isIntegral] at shiftable
    | prim p =>
      rw [k] at shiftable
      have same := eq_ofPrim k
      rw [same]
      cases p <;> first
        | exact ⟨.int, rfl, by decide, rfl⟩
        | exact ⟨.long, rfl, by decide, rfl⟩
        | simp [Kind.isIntegral] at shiftable
  obtain ⟨p, isNumber, suitable, prim⟩ := number
  rw [isNumber] at run
  have rest : ∀ {ca : Term} {w3 : Work}, Made P ctx w2 w3 → Adapted P w3 ua ca → ca.type = .ofPrim p →
      Gives ctx (do
        let cb ← convert ub .int
        node (.binary (.ofPrim p) op ca.expr cb.expr) [ca, cb]) w3 x w' → Made P ctx w w' := by
    intro ca w3 made3 adapted typeA run
    simp only [gives_bind] at run
    obtain ⟨cb, w4, conv, run⟩ := run
    obtain ⟨made4, adapted', typeB⟩ := convert_spec made3.sound (made3.fine adaptedB.fine)
      (fun _ => ⟨isPrimitive_of_isIndex (by simpa using isInt), rfl⟩) conv
    have new := fine_binary (made4.fine adapted.fine) adapted'.fine typeA typeB (suits_shift op among p suitable)
    exact (((made1.trans made2).trans made3).trans made4).node new run
  split_ifs at run with boolean
  · rw [gives_bind] at run
    obtain ⟨ca, w3, first, run⟩ := run
    have words : ua.type.words = (ofPrim p).words := by
      rw [← isNumber, boolean]
      rfl
    obtain ⟨made3, adapted, type⟩ := retype_spec made2.sound (made2.fine adaptedA.fine) (fun _ => words)
      (fun _ => noVoidArray_ofPrim p) first
    exact rest made3 adapted type run
  · rw [gives_bind] at run
    obtain ⟨ca, w3, first, run⟩ := run
    obtain ⟨made3, adapted, type⟩ :=
      convert_spec made2.sound (made2.fine adaptedA.fine) (fun _ => ⟨prim, rfl⟩) first
    exact rest made3 adapted type run

theorem fine_compare {cmp : Cmp} (fineA : Fine P w a.expr) (fineB : Fine P w b.expr)
    (equality : a.type.isReference = true → cmp.isEquality = true) (value : a.type.kind ≠ .void)
    (words : b.type.words = a.type.words) : Fine P w (.compare cmp a.expr b.expr) := by
  refine ⟨.compare fineA.good fineB.good equality fun _ => ⟨value, words⟩, fun l hl => ?_, fun _ _ => rfl⟩
  rw [Expr.reads, mem_append] at hl
  exact hl.elim (fineA.reads l) (fineB.reads l)

theorem keeps_compare (cmp : Cmp) (left right : Operand) : Keeps P ctx w (compare cmp left right) := by
  intro w' x sound run
  simp only [compare, gives_bind] at run
  obtain ⟨⟨a, b⟩, _, claims, run⟩ := run
  obtain ⟨rfl, claimA, claimB⟩ := of_claim2 claims
  have fineA := sound.claimed claimA
  have fineB := sound.claimed claimB
  by_cases refs : (cmp.isEquality && a.type.isReference && b.type.isReference) = true
  · rw [if_pos refs] at run
    simp only [Bool.and_eq_true] at refs
    obtain ⟨⟨equality, refA⟩, refB⟩ := refs
    have value : a.type.kind ≠ .void := by simp [beq_iff_eq.mp refA]
    have words : b.type.words = a.type.words := by
      rw [words_of_isReference refA, words_of_isReference refB]
    exact (sound.node (fine_compare fineA fineB (fun _ => equality) value words) run).1
  simp only [if_neg refs, gives_unless, gives_bind] at run
  obtain ⟨-, ua, w1, first, ub, w2, second, run⟩ := run
  obtain ⟨made1, adaptedA, -⟩ := unboxed_spec sound fineA first
  obtain ⟨made2, adaptedB, -⟩ := unboxed_spec made1.sound (made1.fine fineB) second
  have fineUA := made2.fine adaptedA.fine
  split at run
  · rename_i booleans
    simp only [Bool.and_eq_true, decide_eq_true_eq] at booleans
    obtain ⟨⟨equality, booleanA⟩, booleanB⟩ := booleans
    have new := fine_compare fineUA adaptedB.fine (fun _ => equality) (by simp [booleanA, boolean, kind])
      (by rw [booleanA, booleanB])
    exact (made1.trans made2).node new run
  · simp only [gives_bind] at run
    obtain ⟨⟨t, ca, cb⟩, w3, promotes, run⟩ := run
    obtain ⟨made3, both⟩ := promoted_spec made2.sound fineUA adaptedB.fine promotes
    obtain ⟨p, rfl, -⟩ := both.number
    have typeA : ca.type = .ofPrim p := both.leftType
    have typeB : cb.type = .ofPrim p := both.rightType
    have new : Fine P w3 (.compare cmp ca.expr cb.expr) := fine_compare both.left.fine both.right.fine
      (fun ref => by rw [typeA] at ref; cases ref) (by rw [typeA]; exact (by rintro ⟨⟩)) (by rw [typeA, typeB])
    exact ((made1.trans made2).trans made3).node new run

theorem claimAll_spec (sound : Sound P ctx w) (run : Gives ctx (claimAll operands) w ts w') :
    w = w' ∧ w.method.HasTypes operands (ts.map (·.type)) ∧ (∀ t ∈ ts, ∃ o ∈ operands, Claimed w o t) ∧
      ∀ t ∈ ts, Fine P w t.expr := by
  obtain ⟨rfl, claims⟩ := of_claimAll run
  have claimed : ∀ t ∈ ts, ∃ o ∈ operands, Claimed w o t := by
    intro t ht
    obtain ⟨i, hi, rfl⟩ := mem_iff_getElem.mp ht
    have lt : i < operands.length := by rw [claims.length_eq]; exact hi
    exact ⟨_, getElem_mem lt, (forall₂_iff_get.mp claims).2 i lt hi⟩
  refine ⟨rfl, hasTypes_of_claimed claims, claimed, fun t ht => ?_⟩
  obtain ⟨o, -, claim⟩ := claimed t ht
  exact sound.claimed claim

theorem keeps_call (object : Operand) (name : String) (args : List Operand)
    (named : ∀ op r, (Build.call object name args).Names ctx w.method op r → P.named op r) :
    Keeps P ctx w (call object name args) := by
  intro w' x sound run
  simp only [call, gives_bind] at run
  obtain ⟨ts, _, claims, run⟩ := run
  obtain ⟨rfl, types, -, fine⟩ := claimAll_spec sound claims
  split at run
  · simp at run
  rename_i r args
  obtain ⟨typeR, types⟩ := forall₂_cons.mp types
  simp only [gives_unless, gives_bind] at run
  obtain ⟨refs, m, _, chosen, run⟩ := run
  obtain ⟨rfl, resolved, wellFormed, arity, isInstance⟩ := of_resolve chosen
  have isRef : r.type.isReference = true := by simp_all
  exact (invoke_spec sound (fun a ha => fine a (mem_cons_of_mem _ ha))
    (fun s hs => by cases hs; exact fine _ mem_cons_self) isInstance arity
    (fun s hs => by cases hs; exact isRef) (fun typed => (wellFormed (sound.typed typed).classes).1)
    (fun op r calls => named op r (.call typeR types resolved calls)) run).1

theorem keeps_callStatic (owner : JType) (name : String) (args : List Operand)
    (named : ∀ op r, (Build.callStatic owner name args).Names ctx w.method op r → P.named op r) :
    Keeps P ctx w (callStatic owner name args) := by
  intro w' x sound run
  simp only [callStatic, gives_bind, gives_read, looked] at run
  obtain ⟨ts, _, claims, m, _, chosen, run⟩ := run
  obtain ⟨rfl, types, -, fine⟩ := claimAll_spec sound claims
  obtain ⟨rfl, resolved, wellFormed, arity, isStatic⟩ := of_resolve chosen
  exact (invoke_spec sound fine (by simp) isStatic arity (by simp)
    (fun typed => (wellFormed (sound.typed typed).classes).1)
    (fun op r calls => named op r (.callStatic types resolved calls)) run).1

theorem keeps_callSuper (name : String) (args : List Operand)
    (named : ∀ op r, (Build.callSuper name args).Names ctx w.method op r → P.named op r) :
    Keeps P ctx w (callSuper name args) := by
  intro w' x sound run
  simp only [callSuper, gives_bind, gives_method, gives_read, looked, gives_unless] at run
  obtain ⟨isInstance, ts, _, claims, m, _, chosen, -, r, u, first, run⟩ := run
  obtain ⟨rfl, types, -, fine⟩ := claimAll_spec sound claims
  obtain ⟨rfl, resolved, wellFormed, arity, instance_⟩ := of_resolve chosen
  have self := fine_self sound (by simpa using isInstance) true
  obtain ⟨made, same⟩ := sound.node self first
  have selfType : r.type.isReference = true := by simp [Term.type, same, Expr.type, isReference]
  exact made.trans (invoke_spec made.sound (fun a ha => made.fine (fine a ha))
    (fun s hs => by cases hs; rw [same]; exact made.fine self) instance_ arity
    (fun s hs => by cases hs; exact selfType) (fun typed => (wellFormed (sound.typed typed).classes).1)
    (fun op r calls => named op r (.callSuper types resolved calls)) run).1

theorem keeps_create (type : JType) (args : List Operand)
    (named : ∀ op r, (Build.new type args).Names ctx w.method op r → P.named op r) :
    Keeps P ctx w (create type args) := by
  intro w' x sound run
  simp only [create, gives_bind, gives_read, looked, gives_unless] at run
  obtain ⟨ts, _, claims, instances, c, _, found, -, m, _, chosen, xs, w1, coerce, classRef, w2, e2, ctor, w3, e3, run⟩ :=
    run
  obtain ⟨rfl, types, -, fine⟩ := claimAll_spec sound claims
  have isRef : (type.resolve ctx.name).isReference = true := by simp_all
  have flat : (type.resolve ctx.name).dims = 0 := by simp_all [isArray]
  obtain ⟨rfl, declared⟩ := of_lookup found
  obtain ⟨rfl, resolved, wellFormed, arity, -⟩ := of_resolve chosen
  obtain ⟨made1, coerced⟩ := coerceFrom_spec sound fine coerce
  obtain ⟨made2, created⟩ := made1.sound.intern (Pool.interns_type _) e2
  obtain ⟨made3, called⟩ := made2.sound.intern (Pool.interns_member _ _ _ _) e3
  have fineAll : ∀ f ∈ xs.map (·.expr), Fine P w3 f := by
    intro f hf
    obtain ⟨a, ha, rfl⟩ := mem_map.mp hf
    exact made3.fine (made2.fine (coerced.fine a ha))
  have new : Fine P w3 (.new (type.resolve ctx.name) classRef ctor (xs.map (·.expr))) := by
    refine ⟨.new (fun f hf => (fineAll f hf).good) ⟨_, made3.pool.reference? created, named _ _ (.new declared)⟩
      ⟨_, called, named _ _ (.constructor declared types resolved)⟩ fun typed => ⟨words_of_isReference isRef, ?_⟩,
      fun l hl => ?_, fun _ _ => flat⟩
    · obtain ⟨shape, constructs⟩ := wellFormed (sound.typed typed).classes
      have void := (isVoid_iff _).mp (shape.constructor (by simp [MethodInfo.isConstructor, constructs]))
      have call := Pool.callEffect?_of_descriptor? shape.ret shape.params (Pool.descriptor?_of_reference? called)
      rw [void] at call
      rw [coerced.argWords arity]
      exact (refEffect?_call (R := w3.rules P) call).2 .invokespecial (by decide)
    · obtain ⟨f, hf, read⟩ := Expr.mem_readsAll.mp hl
      exact (fineAll f hf).reads l read
  exact ((made1.trans made2).trans made3).node new run

theorem keeps_staticGet (owner : JType) (name : String)
    (named : ∀ op r, (Build.static owner name).Names ctx w.method op r → P.named op r) :
    Keeps P ctx w (staticGet owner name) := by
  intro w' x sound run
  simp only [staticGet, gives_bind, gives_read, looked] at run
  obtain ⟨⟨f, ref⟩, u, found, run⟩ := run
  obtain ⟨made, -, declared, reference, typed⟩ := field_spec sound found
  have new : Fine P u (.staticGet f.type (owner.resolve ctx.name) name ref) :=
    ⟨.staticGet ⟨_, reference, named _ _ (.static declared)⟩ fun yes => (refEffect?_field (R := u.rules P) (typed yes).2).1, by simp [Expr.reads],
      fun yes => (typed yes).1.noVoidArray⟩
  exact made.node new run

theorem keeps_fieldGet (object : Operand) (name : String)
    (named : ∀ op r, (Build.field object name).Names ctx w.method op r → P.named op r) :
    Keeps P ctx w (fieldGet object name) := by
  intro w' x sound run
  simp only [fieldGet, gives_bind] at run
  obtain ⟨o, _, claims, ⟨f, ref⟩, u, found, run⟩ := run
  obtain ⟨rfl, claimO⟩ := of_claim claims
  obtain ⟨made, isRef, declared, reference, typed⟩ := field_spec sound found
  have fine := made.fine (sound.claimed claimO)
  have new : Fine P u (.fieldGet f.type name ref o.expr) := by
    refine ⟨.fieldGet fine.good ⟨_, reference, named _ _ (.field claimO.typeOf? declared)⟩ fun yes => ?_, fine.reads, fun yes => (typed yes).1.noVoidArray⟩
    rw [← Term.type, words_of_isReference isRef]
    exact (refEffect?_field (R := u.rules P) (typed yes).2).2.2.1
  exact made.node new run

end Step

/-- Types that a request may mention: no arrays of void, none whose dimensions wrap around. -/
def Build.Proper (name : String) : Build → Prop
  | .newArray elem _ => (elem.resolve name).NoVoidArray ∧ (elem.resolve name).arrayOf.isReference = true
  | .cast _ t => (t.resolve name).NoVoidArray
  | _ => True

theorem Step.keeps_build (b : Build) (proper : P.typed → b.Proper ctx.name)
    (named : ∀ op r, b.Names ctx w.method op r → P.named op r) : Keeps P ctx w (build b) := by
  cases b with
  | const v =>
    refine keeps_const v (fun value found r hr op ho => named op r (.const found hr ho)) ?_
    rintro c b rfl boxed
    exact named _ _ (.primitive boxed)
  | char n =>
    exact keeps_const (.integer .uint16 n) (fun value found r hr op ho => named op r (.char found hr ho)) (by rintro _ _ ⟨⟩)
  | self => exact keeps_receiver
  | get l => exact keeps_getLocal l
  | static owner name => exact keeps_staticGet owner name named
  | field object name => exact keeps_fieldGet object name named
  | index a i => exact keeps_arrayGet a i
  | length a => exact keeps_arrayLength a
  | newArray elem n => exact keeps_newArray elem n proper (named _ _ .newArray)
  | cast e t => exact keeps_cast e t proper (named _ _ .cast)
  | instanceOf e t => exact keeps_instanceOf e t (named _ _ .instanceOf)
  | nullTest c e => exact keeps_nullTest c e
  | binary op a b =>
    cases op with
    | add =>
      exact keeps_arithmetic (by decide) a b fun _ s t hs ht strings i r h => named i r (.concat hs ht strings h)
    | sub | mul | div | rem => exact keeps_arithmetic (by decide) a b (fun add => by cases add)
    | and | or | xor => exact keeps_bitwise (by decide) a b
    | shl | shr | ushr => exact keeps_shift (by decide) a b
  | negate a => exact keeps_negate a
  | not a => exact keeps_complement a
  | logic conj a b => exact keeps_logic conj a b
  | compare c a b => exact keeps_compare c a b
  | call r name args => exact keeps_call r name args named
  | callStatic owner name args => exact keeps_callStatic owner name args named
  | callSuper name args => exact keeps_callSuper name args named
  | new t args => exact keeps_create t args named

end

end Assembler

end ClassForge

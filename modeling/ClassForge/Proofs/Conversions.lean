import ClassForge.Proofs.Nodes

/-! Conversions give values of the type that was asked for and read no more locals. -/

namespace ClassForge

open JType

namespace JType

variable {t u : JType}

theorem words_of_isReference (h : t.isReference = true) : t.words = [.reference] := by
  rw [words, beq_iff_eq.mp h]
  rfl

theorem kind_ne_void_of_words (h : t.words = [.reference]) : t.kind ≠ .void := by
  intro void
  simp [words, void, Kind.words] at h

theorem isReference_of_isArray (h : t.isArray = true) : t.isReference = true := by
  have some : t.dims ≠ 0 := by simpa [isArray] using h
  simp [isReference, kind, some]

theorem isReference_of_not (notVoid : t.isVoid = false) (notPrim : t.isPrimitive = false) : t.isReference = true := by
  unfold isVoid isPrimitive isReference at *
  cases k : t.kind <;> simp_all [Kind.isPrimitive]

theorem eq_ofPrim (h : t.kind = .prim p) : t = ofPrim p := by
  obtain ⟨base, dims⟩ := t
  unfold kind at h
  split_ifs at h with flat
  cases base <;> simp_all [ofPrim]

theorem exists_eq_ofPrim (h : t.isPrimitive = true) : ∃ p, t = ofPrim p := by
  unfold isPrimitive Kind.isPrimitive at h
  split at h
  · rename_i p k
    exact ⟨p, eq_ofPrim k⟩
  · simp at h

theorem kind_resolve (t : JType) (name : String) : (t.resolve name).kind = t.kind := by
  obtain ⟨base, dims⟩ := t
  cases base with
  | self =>
    unfold resolve kind Base.ofName
    split_ifs <;> rfl
  | _ => rfl

theorem isArray_resolve (t : JType) (name : String) : (t.resolve name).isArray = t.isArray := by
  obtain ⟨base, dims⟩ := t
  cases base <;> rfl

theorem noVoidArray_resolve (h : t.NoVoidArray) (name : String) : (t.resolve name).NoVoidArray := by
  obtain ⟨base, dims⟩ := t
  cases base with
  | self =>
    unfold resolve Base.ofName NoVoidArray
    split_ifs <;> rintro ⟨⟩
  | _ => exact h

theorem wellFormed_ofClass (name : String) (plain : (ofClass name).base = .named name) (full : name ≠ "")
    (clean : ';' ∉ name.toList) : (ofClass name).WellFormed where
  noVoidArray _ := rfl
  className other same := by
    rw [plain] at same
    cases same
    exact ⟨full, clean⟩

theorem wellFormed_box (p : Prim) : (ofClass p.boxName).WellFormed :=
  wellFormed_ofClass _ (by cases p <;> decide) (by cases p <;> decide) (by cases p <;> decide)

theorem internalName_box (p : Prim) : (ofClass p.boxName).internalName = p.boxName := by
  cases p <;> decide

theorem noVoidArray_ofPrim (p : Prim) : (ofPrim p).NoVoidArray := fun _ => rfl

theorem noVoidArray_ofClass (name : String) : (ofClass name).NoVoidArray := fun _ => rfl

theorem noVoidArray_of_isPrimitive (h : t.isPrimitive = true) : t.NoVoidArray :=
  (wellFormed_of_isPrimitive h).noVoidArray

theorem elem_of_isArray (h : t.NoVoidArray) (array : t.isArray = true) : t.elem.kind ≠ .void ∧ t.elem.NoVoidArray := by
  have some : t.dims ≠ 0 := by simpa [isArray] using array
  have value : t.base ≠ .void := fun void => some (h void)
  have elem : t.elem.base = t.base := by simp [elem, some]
  refine ⟨?_, fun void => absurd (elem ▸ void) value⟩
  unfold kind
  split_ifs
  · cases base : t.base <;> simp_all
  · simp

theorem of_box (h : t.box = some u) : ∃ p, t = ofPrim p ∧ u = ofClass p.boxName := by
  unfold box at h
  split at h
  · rename_i p k
    exact ⟨p, eq_ofPrim k, (Option.some.inj h).symm⟩
  · cases h

theorem of_unbox (h : t.unbox = some u) : (∃ p, u = ofPrim p ∧ t.internalName = p.boxName) ∧ t.isReference = true := by
  obtain ⟨base, dims⟩ := t
  unfold unbox at h
  split at h
  · rename_i n named flat
    obtain ⟨p, wraps, rfl⟩ := Option.map_eq_some_iff.mp h
    subst named flat
    have same := List.find?_some wraps
    simp only [decide_eq_true_eq] at same
    exact ⟨⟨p, rfl, same.symm⟩, rfl⟩
  · cases h

theorem of_promote (h : t.promote u = some v) : ∃ p q r, t = ofPrim p ∧ u = ofPrim q ∧ v = ofPrim r ∧
    r ∈ [Prim.boolean, .int, .long, .float, .double] := by
  have wide : ∀ p q : Prim,
      (if (if q.level > p.level then q else p).level < Prim.int.level then Prim.int
        else if q.level > p.level then q else p) ∈ [Prim.boolean, .int, .long, .float, .double] := by
    intro p q
    cases p <;> cases q <;> decide
  unfold promote at h
  split at h
  · cases h
    exact ⟨_, _, _, eq_ofPrim ‹t.kind = _›, eq_ofPrim ‹u.kind = _›, rfl, by decide⟩
  · cases h
  · cases h
  · cases h
    exact ⟨_, _, _, eq_ofPrim ‹t.kind = _›, eq_ofPrim ‹u.kind = _›, rfl, wide _ _⟩
  · cases h

end JType

namespace Provider

theorem isReference_of_isAssignable {p : Provider} (h : p.isAssignable s t = true) : s.isReference = t.isReference := by
  unfold isAssignable assignableWithin at h
  split_ifs at h with same values
  · exact same ▸ rfl
  all_goals simp_all

end Provider

namespace Assembler

/-! The effect of an instruction that names a member. -/

section

variable {e : Effect}

theorem entry_ref (op : Opcode) (ref : UInt16) : ({ pc := 0, op, index := ref.toNat } : Instruction).entry = ref := by
  simp [Instruction.entry]

theorem refEffect?_field (h : R.pool.fieldWords? ref = some ws) : refEffect? R .getstatic ref = some ⟨[], ws⟩ ∧
    refEffect? R .putstatic ref = some ⟨ws, []⟩ ∧ refEffect? R .getfield ref = some ⟨[.reference], ws⟩ ∧
    refEffect? R .putfield ref = some ⟨ws ++ [.reference], []⟩ := by
  unfold refEffect? Instruction.effect?
  simp only [entry_ref, h]
  exact ⟨rfl, rfl, rfl, rfl⟩

theorem refEffect?_call (h : R.pool.callEffect? ref = some e) : refEffect? R .invokestatic ref = some e ∧
    ∀ op ∈ [Opcode.invokevirtual, .invokespecial, .invokeinterface],
    refEffect? R op ref = some ⟨e.pops ++ [.reference], e.pushes⟩ := by
  refine ⟨?_, fun op hop => ?_⟩
  · unfold refEffect? Instruction.effect?
    simp only [entry_ref, h]
    rfl
  · unfold refEffect? Instruction.effect?
    simp only [entry_ref, h]
    simp only [List.mem_cons, List.not_mem_nil, or_false] at hop
    rcases hop with rfl | rfl | rfl <;> rfl

end

structure Adapted (P : Policy) (w : Work) (e x : Term) : Prop where
  fine : Fine P w x.expr
  reads : ∀ l ∈ x.expr.reads, l ∈ e.expr.reads

section

variable {P : Policy} {ctx : Context} {v w w' : Work} {e x y : Term} {t : JType}

namespace Adapted

theorem refl (fine : Fine P w e.expr) : Adapted P w e e := ⟨fine, fun _ hl => hl⟩

theorem trans (h : Adapted P v e x) (k : Adapted P w x y) : Adapted P w e y :=
  ⟨k.fine, fun l hl => h.reads l (k.reads l hl)⟩

theorem later (h : Adapted P v e x) (le : v.Le w) : Adapted P w e x := ⟨le.fine h.fine, h.reads⟩

end Adapted

theorem Sound.wrap (sound : Sound P ctx w) (fine : Fine P w f) (less : ∀ l ∈ f.reads, l ∈ e.expr.reads)
    (run : Step.Gives ctx (Step.node f operands) w x w') : Made P ctx w w' ∧ Adapted P w' e x ∧ x.type = f.type := by
  obtain ⟨made, rfl⟩ := sound.node fine run
  exact ⟨made, ⟨made.fine fine, less⟩, rfl⟩

theorem isPlain_convertOps (s t : Kind) : ∀ op ∈ convertOps s t, op.isPlain = true := by
  cases s with
  | prim p =>
    cases t with
    | prim q => cases p <;> cases q <;> decide
    | void | reference => cases p <;> decide
  | void | reference =>
    cases t with
    | prim q => cases q <;> decide
    | void | reference => decide

theorem converts_convertOps (p q : Prim) :
    Expr.Converts (convertOps (.prim p) (.prim q)) (Kind.prim p).words (Kind.prim q).words = true := by
  cases p <;> cases q <;> decide

namespace Step

variable {b : Bool} {name : String}

section

variable (sound : Sound P ctx w)

include sound

theorem convert_spec (fine : Fine P w e.expr) (prims : P.typed → e.type.isPrimitive = true ∧ t.isPrimitive = true)
    (run : Gives ctx (convert e t) w x w') : Made P ctx w w' ∧ Adapted P w' e x ∧ x.type = t := by
  unfold convert at run
  split_ifs at run with same
  · obtain ⟨rfl, rfl⟩ := gives_pure.mp run
    exact ⟨.refl sound, .refl fine, same⟩
  · refine sound.wrap ⟨.convert fine.good (isPlain_convertOps _ _) fun typed => ?_, fine.reads, fun typed =>
      noVoidArray_of_isPrimitive (prims typed).2⟩ (fun _ hl => hl) run
    obtain ⟨p, hp⟩ := exists_eq_ofPrim (prims typed).1
    obtain ⟨q, rfl⟩ := exists_eq_ofPrim (prims typed).2
    rw [Term.type] at hp
    rw [Term.type, hp]
    exact converts_convertOps p q

theorem retype_spec (fine : Fine P w e.expr)
    (words : P.typed → e.type.words = t.words) (proper : P.typed → t.NoVoidArray)
    (run : Gives ctx (retype e t) w x w') : Made P ctx w w' ∧ Adapted P w' e x ∧ x.type = t := by
  unfold retype at run
  split_ifs at run with same
  · obtain ⟨rfl, rfl⟩ := gives_pure.mp run
    exact ⟨.refl sound, .refl fine, same⟩
  · have new : Fine P w (.convert t [] true e.expr) :=
      ⟨.convert fine.good (by simp) fun typed => beq_iff_eq.mpr (words typed), fine.reads, proper⟩
    exact sound.wrap new (fun _ hl => hl) run

theorem target_spec (run : Gives ctx (target op owner isInterface name ret params) w c w') :
    Made P ctx w w' ∧ c.op = op ∧ w'.pool.reference? c.ref =
        some (.member (methodKind isInterface) owner name (JType.methodDescriptor ret params)) := by
  simp only [target, gives_bind, gives_pure] at run
  obtain ⟨ref, v, entry, rfl, rfl⟩ := run
  have interns : Pool.Interns (if isInterface = true then
      Pool.interfaceMethodref owner name (methodDescriptor ret params)
      else Pool.methodref owner name (methodDescriptor ret params)) fun p i => p.reference? i =
        some (.member (methodKind isInterface) owner name (methodDescriptor ret params)) := by
    cases isInterface <;> exact Pool.interns_member _ _ _ _
  obtain ⟨made, found⟩ := sound.intern interns entry
  exact ⟨made, rfl, found⟩

theorem callOne_spec (fine : Fine P w e.expr) (proper : P.typed → ret.NoVoidArray)
    (calls : op ∈ [Opcode.invokestatic, .invokevirtual, .invokespecial, .invokeinterface])
    (named : P.named op (.member (methodKind isInterface) owner name (JType.methodDescriptor ret params)))
    (first : Gives ctx (target op owner isInterface name ret params) w c w1)
    (effect : P.typed → ∀ R : Rules, R.pool.descriptor? c.ref = some (JType.methodDescriptor ret params) →
      refEffect? R op c.ref = some ⟨e.type.words, ret.words⟩)
    (run : Gives ctx (node (.invoke ret c implicit [e.expr]) [e]) w1 x w') :
    Made P ctx w w' ∧ Adapted P w' e x ∧ x.type = ret := by
  obtain ⟨made1, rfl, found⟩ := target_spec sound first
  have fine1 := made1.fine fine
  have good : (Expr.invoke ret c implicit [e.expr]).Good (w1.rules P) := by
    refine .invoke (fun a ha => ?_) calls ⟨_, found, named⟩ fun typed => ?_
    · rw [List.mem_singleton.mp ha]
      exact fine1.good
    · simpa [Expr.argWords, Term.type] using effect typed (w1.rules P) (Pool.descriptor?_of_reference? found)
  have reads : ∀ l ∈ (Expr.invoke ret c implicit [e.expr]).reads, l ∈ e.expr.reads := by
    simp [Expr.reads, Expr.readsAll]
  obtain ⟨made2, adapted, type⟩ := made1.sound.wrap ⟨good, fun l hl => fine1.reads l (reads l hl), proper⟩ reads run
  exact ⟨made1.trans made2, adapted, type⟩

theorem box_spec (fine : Fine P w e.expr) (run : Gives ctx (box e) w x w') :
    Made P ctx w w' ∧ Adapted P w' e x ∧ e.type.box = some x.type := by
  unfold box at run
  split at run
  · simp at run
  · rename_i t boxed
    obtain ⟨p, prim, rfl⟩ := of_box boxed
    simp only [gives_bind] at run
    obtain ⟨c, w1, first, run⟩ := run
    have param : ∀ t ∈ [e.type], t.WellFormed ∧ t.isVoid = false := by
      intro t ht
      rw [List.mem_singleton.mp ht, prim]
      exact ⟨wellFormed_ofPrim p, by cases p <;> rfl⟩
    have named : P.named .invokestatic (.member (methodKind false) (ofClass p.boxName).internalName "valueOf"
        (methodDescriptor (.ofClass p.boxName) [e.type])) := by
      rw [internalName_box, prim]
      exact sound.boxing _ _ (.box p)
    obtain ⟨made, adapted, type⟩ := callOne_spec sound fine (fun _ => noVoidArray_ofClass _) (by decide)
      named first (fun _ R found => by
        simpa using (refEffect?_call (Pool.callEffect?_of_descriptor? (wellFormed_box p) param found)).1) run
    exact ⟨made, adapted, by rw [type, boxed]⟩

theorem unbox_spec (fine : Fine P w e.expr) (run : Gives ctx (unbox e) w x w') :
    Made P ctx w w' ∧ Adapted P w' e x ∧ e.type.unbox = some x.type := by
  unfold unbox at run
  split at run
  · simp at run
  · rename_i t unboxed
    obtain ⟨⟨p, rfl, wraps⟩, ref⟩ := of_unbox unboxed
    simp only [gives_bind] at run
    obtain ⟨c, w1, first, run⟩ := run
    have none : ∀ t ∈ ([] : List JType), t.WellFormed ∧ t.isVoid = false := by simp
    have named : P.named .invokevirtual (.member (methodKind false) e.type.internalName
        ((ofPrim p).kind.name ++ "Value") (methodDescriptor (.ofPrim p) [])) := by
      rw [wraps]
      exact sound.boxing _ _ (.unbox p)
    obtain ⟨made, adapted, type⟩ := callOne_spec sound fine (fun _ => noVoidArray_ofPrim _) (by decide)
      named first (fun _ R found => by
        have call := Pool.callEffect?_of_descriptor? (wellFormed_ofPrim p) none found
        simpa [words_of_isReference ref] using (refEffect?_call call).2 .invokevirtual (by decide)) run
    exact ⟨made, adapted, by rw [type, unboxed]⟩

theorem unboxed_spec (fine : Fine P w e.expr) (run : Gives ctx (unboxed e) w x w') :
    Made P ctx w w' ∧ Adapted P w' e x ∧ x.type = e.type.unbox.getD e.type := by
  unfold unboxed at run
  split_ifs at run with some
  · obtain ⟨made, adapted, type⟩ := unbox_spec sound fine run
    exact ⟨made, adapted, by rw [type]; rfl⟩
  · obtain ⟨rfl, rfl⟩ := gives_pure.mp run
    exact ⟨.refl sound, .refl fine, by simp_all⟩

end

@[simp] theorem gives_isAssignable :
    Gives ctx (isAssignable s t) w b w' ↔ ctx.lookup.isAssignable s t = b ∧ w = w' :=
  Yields.pure_iff

theorem fine_narrowed (fine : Fine P w f) (prim : t.isPrimitive = true)
    (h : narrowed f t = some g) : Fine P w g ∧ g.reads = [] ∧ g.type = t := by
  have const : ∃ s n ref, f = .const s (.int n) ref ∧ g = .const t (.int n) ref ∧ t.words = [.int] := by
    unfold narrowed at h
    split at h
    case h_4 => cases h
    all_goals
      rename_i s n ref k
      split_ifs at h
      cases h
      exact ⟨s, n, ref, rfl, rfl, by rw [words, k]; rfl⟩
  obtain ⟨s, n, ref, rfl, rfl, words⟩ := const
  cases fine.good with
  | const _ linked named =>
    exact ⟨⟨.const (fun _ => words) linked named, by simp [Expr.reads], fun _ => noVoidArray_of_isPrimitive prim⟩,
      by simp [Expr.reads], rfl⟩

section

variable (sound : Sound P ctx w) (fine : Fine P w e.expr)

include sound fine

theorem boxTo_spec {b : JType} (boxed : e.type.box = some b) (takes : ctx.lookup.isAssignable b t = true)
    (run : Gives ctx (box e) w x w') : Made P ctx w w' ∧ Adapted P w' e x ∧ x.type.words = t.words := by
  obtain ⟨made, adapted, type⟩ := box_spec sound fine run
  obtain ⟨p, -, rfl⟩ := of_box boxed
  have ref : t.isReference = true := by
    rw [← Provider.isReference_of_isAssignable takes]
    simp [isReference]
  rw [boxed] at type
  exact ⟨made, adapted, by rw [← Option.some.inj type, words_of_isReference ref]; simp⟩

theorem unboxTo_spec (prim : t.isPrimitive = true) (first : Gives ctx (unbox e) w y v)
    (run : Gives ctx (convert y t) v x w') : Made P ctx w w' ∧ Adapted P w' e x ∧ x.type.words = t.words := by
  obtain ⟨made, adapted, type⟩ := unbox_spec sound fine first
  obtain ⟨⟨p, hp, -⟩, -⟩ := of_unbox type
  obtain ⟨made', adapted', type'⟩ := convert_spec made.sound adapted.fine (fun _ => ⟨by rw [hp]; rfl, prim⟩) run
  exact ⟨made.trans made', adapted.trans adapted', by rw [type']⟩

theorem convertTo_spec (prims : (e.type.isPrimitive && t.isPrimitive) = true) (run : Gives ctx (convert e t) w x w') :
    Made P ctx w w' ∧ Adapted P w' e x ∧ x.type.words = t.words := by
  obtain ⟨made, adapted, type⟩ := convert_spec sound fine (fun _ => Bool.and_eq_true_iff.mp prims) run
  exact ⟨made, adapted, by rw [type]⟩

theorem assignConv_spec (run : Gives ctx (assignConv e t) w x w') :
    Made P ctx w w' ∧ Adapted P w' e x ∧ x.type.words = t.words := by
  simp only [assignConv, gives_ite, gives_throw, and_false, false_or, or_false, gives_pure, gives_bind,
    gives_isAssignable, looked] at run
  obtain ⟨same, rfl, rfl⟩ | ⟨-, void, ⟨prims, -, run⟩ | ⟨-, ⟨-, run⟩ | ⟨primS, ⟨primT, run⟩ | ⟨-, yes, rfl, rfl⟩⟩⟩⟩ := run
  · exact ⟨.refl sound, .refl fine, by rw [same]⟩
  · split at run
    · rename_i c narrow
      obtain ⟨fineC, reads, type⟩ := fine_narrowed fine (Bool.and_eq_true_iff.mp prims).2 narrow
      obtain ⟨made, rfl⟩ := sound.replace fineC run
      exact ⟨made, ⟨made.fine fineC, by simp [reads]⟩, by rw [Term.type, type]⟩
    · exact convertTo_spec sound fine prims (gives_where.mp run).2
  · split at run
    · rename_i b boxed
      simp only [gives_bind, gives_isAssignable, looked, gives_where] at run
      exact boxTo_spec sound fine boxed run.1 run.2
    · simp at run
  · split at run
    · simp only [gives_where, gives_bind] at run
      obtain ⟨-, y, v, first, run⟩ := run
      exact unboxTo_spec sound fine primT first run
    · simp at run
  · have ref := isReference_of_not (by simpa using void) (by simpa using primS)
    have refT := (Provider.isReference_of_isAssignable yes).symm.trans ref
    exact ⟨.refl sound, .refl fine, by rw [words_of_isReference ref, words_of_isReference refT]⟩

theorem checkCast_spec (refE : e.type.isReference = true)
    (refT : t.isReference = true) (proper : P.typed → t.NoVoidArray) (named : P.named .checkcast (.type t.internalName))
    (run : Gives ctx (checkCast e t) w x w') : Made P ctx w w' ∧ Adapted P w' e x ∧ x.type = t := by
  simp only [checkCast, gives_bind] at run
  obtain ⟨ref, v, entry, run⟩ := run
  obtain ⟨made, found⟩ := sound.intern (Pool.interns_type _) entry
  have fine1 := made.fine fine
  have new : Fine P v (.checkCast t ref e.expr) :=
    ⟨.checkCast fine1.good ⟨_, found, named⟩ fun _ => ⟨words_of_isReference refE, words_of_isReference refT⟩,
      fine1.reads, proper⟩
  obtain ⟨made', adapted, type⟩ := made.sound.wrap new (fun _ hl => hl) run
  exact ⟨made.trans made', adapted, type⟩

end

theorem of_isInterfaceType (run : Gives ctx (isInterfaceType s) w b w') : w = w' := by
  unfold isInterfaceType at run
  split_ifs at run
  · exact (gives_pure.mp run).2
  · simp only [gives_bind, gives_read, looked] at run
    split at run <;> exact (gives_pure.mp run).2

theorem castConv_spec (sound : Sound P ctx w) (fine : Fine P w e.expr) (proper : P.typed → t.NoVoidArray)
    (named : P.named .checkcast (.type (t.box.getD t).internalName)) (run : Gives ctx (castConv e t) w x w') :
    Made P ctx w w' ∧ Adapted P w' e x ∧ x.type.words = t.words := by
  simp only [castConv, gives_ite, gives_throw, and_false, false_or, or_false, gives_pure, gives_bind,
    gives_isAssignable, looked] at run
  obtain ⟨void, ⟨same, rfl, rfl⟩ | ⟨-, ⟨prims, -, run⟩ | ⟨-, ⟨-, run⟩ | ⟨primS, run⟩⟩⟩⟩ := run
  · exact ⟨.refl sound, .refl fine, by rw [same]⟩
  · exact convertTo_spec sound fine prims run
  · split at run
    · rename_i b boxed
      simp only [gives_bind, gives_isAssignable, looked, gives_where] at run
      exact boxTo_spec sound fine boxed run.1 run.2
    · simp at run
  have voids : e.type.isVoid = false ∧ t.isVoid = false := by simpa using void
  have refS := isReference_of_not voids.1 (by simpa using primS)
  obtain ⟨primT, run⟩ | ⟨primT, run⟩ := run
  · split at run
    · simp only [gives_where, gives_bind] at run
      obtain ⟨-, y, v, first, run⟩ := run
      exact unboxTo_spec sound fine primT first run
    · rename_i b _ boxed
      simp only [gives_bind, gives_isAssignable, looked, gives_where] at run
      obtain ⟨-, c, u, cast, y, v, first, run⟩ := run
      rw [boxed] at named
      obtain ⟨p, -, rfl⟩ := of_box boxed
      obtain ⟨made, adapted, -⟩ := checkCast_spec sound fine refS (by simp [isReference])
        (fun _ => noVoidArray_ofClass _) named cast
      obtain ⟨made', adapted', words⟩ := unboxTo_spec made.sound adapted.fine primT first run
      exact ⟨made.trans made', adapted.trans adapted', words⟩
    · simp at run
  have refT := isReference_of_not voids.2 (by simpa using primT)
  have words : e.type.words = t.words := by
    rw [words_of_isReference refS, words_of_isReference refT]
  have checked : ∀ {u v x}, w = u → Gives ctx (checkCast e t) u x v →
      Made P ctx w v ∧ Adapted P v e x ∧ x.type.words = t.words := by
    rintro u v x rfl cast
    have plain : t.box = none := by rw [JType.box, beq_iff_eq.mp refT]
    rw [plain] at named
    obtain ⟨made, adapted, type⟩ := checkCast_spec sound fine refS refT proper named cast
    exact ⟨made, adapted, by rw [type]⟩
  obtain ⟨-, run⟩ | ⟨-, ⟨-, run⟩ | ⟨-, _, w1, first, ⟨-, run⟩ | ⟨-, _, w2, second, -, run⟩⟩⟩ := run
  · obtain ⟨made, adapted, type⟩ := retype_spec sound fine (fun _ => words) proper run
    exact ⟨made, adapted, by rw [type]⟩
  · exact checked rfl run
  · exact checked (of_isInterfaceType first) run
  · exact checked ((of_isInterfaceType first).trans (of_isInterfaceType second)) run

end Step

end

end Assembler

end ClassForge

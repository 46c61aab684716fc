import ClassForge.Proofs.Conversions
import ClassForge.Proofs.Outcomes
import ClassForge.Proofs.Overloads

/-! What passes as an argument can be converted, and conversely, constants in a narrower range
apart. -/

namespace ClassForge

namespace Assembler

def Narrows (e : Expr) (t : JType) : Prop :=
  ∃ s n ref, e = .const s (.int n) ref ∧ s.kind.isIntLike = true ∧ t.kind ∈ [Kind.prim .byte, .prim .short, .prim .char] ∧
    (intRange t.kind).1 ≤ n.toInt ∧ n.toInt ≤ (intRange t.kind).2

/-- The term has the type, or is a reference that is assignable to it. -/
def Suits (p : Provider) (t : JType) (x : Term) : Prop :=
  x.type = t ∨ x.type.isReference = true ∧ p.isAssignable x.type t = true

theorem not_widens_boolean (boolean : k = .prim .boolean ∨ l = .prim .boolean) : widens k l = false := by
  obtain rfl | rfl := boolean <;> simp [widens, Kind.isNumeric]

theorem not_widens_void (k : Kind) : widens k .void = false := by
  simp [widens, Kind.isNumeric]

end Assembler

theorem Meets.weaken (h : Meets mild a s good) (more : ∀ e, mild e → mild' e) : Meets mild' a s good := by
  unfold Meets at h ⊢
  cases ran : a.run s with
  | mk r t =>
    rw [ran] at h
    cases r with
    | ok => exact h
    | error e => exact more e h

namespace Assembler

open Step hiding Meets

variable {α β : Type} {ctx : Context} {w : Work} {e : Term} {t : JType} {isStatic : Bool} {s : JType}
  {params : List JType} {args : List Term} {name owner signature : String} {f : β → Step α}

theorem meets_then : Meets mild ((a >>= f) ctx) w good ↔ Meets mild (a ctx) w fun x v => Meets mild (f x ctx) v good :=
  meets_bind

theorem meets_pool (pools : ∀ e, mild (.pool e))
    (rest : ∀ x q, Yields a w.pool x q → Meets mild (f x ctx) { w with pool := q } good) :
    Meets mild ((pool a >>= f) ctx) w good := by
  rw [meets_then]
  unfold pool Meets
  simp only [ExceptT.run]
  cases run : a w.pool with
  | mk r q =>
    cases r with
    | ok x => exact rest x q run
    | error f => exact pools f

theorem meets_target
    {f : CallTarget → Step α} (pools : ∀ e, mild (.pool e)) (rest : ∀ c v, Meets mild (f c ctx) v good) :
    Meets mild ((target op owner isInterface name ret params >>= f) ctx) w good := by
  unfold target
  rw [bind_assoc]
  exact meets_pool pools fun _ _ _ => rest _ _

theorem meets_box (pools : ∀ e, mild (.pool e)) (boxed : e.type.box = some u) :
    Meets mild (box e ctx) w fun x _ => x.type = u := by
  unfold box
  rw [boxed]
  exact meets_target pools fun _ _ => rfl

theorem meets_unbox (pools : ∀ e, mild (.pool e)) (unboxed : e.type.unbox = some u) :
    Meets mild (unbox e ctx) w fun x _ => x.type = u := by
  unfold unbox
  rw [unboxed]
  exact meets_target pools fun _ _ => rfl

theorem meets_convert : Meets mild (convert e t ctx) w fun x _ => x.type = t := by
  unfold convert
  split_ifs with same
  · exact same
  · rfl

theorem of_narrowed (h : narrowed e.expr t = some c) : Narrows e.expr t ∧ c.type = t := by
  unfold narrowed at h
  split at h
  case h_4 => cases h
  all_goals
    rename_i kind
    split_ifs at h with range
    cases h
    simp only [Bool.and_eq_true, decide_eq_true_eq] at range
    exact ⟨⟨_, _, _, ‹_›, range.1.1, by simp [kind], range.1.2, range.2⟩, rfl⟩

/-- The conversion fails only where the value does not pass, or the pool has no room. -/
theorem meets_assignConv (ctx : Context) (w : Work) (e : Term) (t : JType) :
    Meets (fun f => argConvertible ctx.lookup true e.type t = true → ∃ g, f = .pool g) (assignConv e t ctx) w fun x _ =>
      (argConvertible ctx.lookup true e.type t = true ∨ Narrows e.expr t) ∧ Suits ctx.lookup t x := by
  have pools : ∀ g, argConvertible ctx.lookup true e.type t = true → ∃ g', Fault.pool g = .pool g' := fun g _ => ⟨g, rfl⟩
  have refused {f : Fault} (no : argConvertible ctx.lookup true e.type t = false) :
      Meets (fun f => argConvertible ctx.lookup true e.type t = true → ∃ g, f = .pool g) ((throw f : Step Term) ctx) w
        fun x _ => (argConvertible ctx.lookup true e.type t = true ∨ Narrows e.expr t) ∧ Suits ctx.lookup t x :=
    fun passes => absurd (no.symm.trans passes) Bool.false_ne_true
  have decided : argConvertible ctx.lookup true e.type t = _ := argConvertible.eq_def ..
  rw [assignConv]
  by_cases same : e.type = t
  · rw [if_pos same] at decided ⊢
    exact ⟨.inl decided, .inl same⟩
  rw [if_neg same] at decided ⊢
  by_cases void : e.type.isVoid = true
  · rw [if_pos void] at decided ⊢
    exact refused decided
  rw [if_neg void] at decided ⊢
  by_cases prims : (e.type.isPrimitive && t.isPrimitive) = true
  · rw [if_pos prims] at decided ⊢
    by_cases boolean : (decide (e.type.kind = .prim .boolean) || decide (t.kind = .prim .boolean)) = true
    · rw [if_pos boolean]
      exact refused (decided.trans (not_widens_boolean (by simpa using boolean)))
    rw [if_neg boolean]
    cases narrow : narrowed e.expr t with
    | some c =>
      obtain ⟨narrows, type⟩ := of_narrowed narrow
      exact ⟨.inr narrows, .inl type⟩
    | none =>
      split_ifs with wider
      · exact meets_convert.imp fun x _ type => ⟨.inl (decided.trans wider), .inl type⟩
      · exact refused (decided.trans (Bool.eq_false_iff.mpr wider))
  rw [if_neg prims] at decided ⊢
  by_cases prim : e.type.isPrimitive = true
  · have value := JType.not_isReference prim
    simp only [value, prim, Bool.false_and, Bool.false_eq_true, if_false, if_true, Bool.not_true] at decided ⊢
    cases boxed : e.type.box with
    | some b =>
      rw [boxed] at decided
      change Meets _ ((if ctx.lookup.isAssignable b t = true then box e else throw _ : Step Term) ctx) w _
      split_ifs with takes
      · obtain ⟨q, -, rfl⟩ := JType.of_box boxed
        exact (meets_box pools boxed).imp fun x _ type =>
          ⟨.inl (decided.trans takes), .inr ⟨by rw [type]; cases q <;> decide, type ▸ takes⟩⟩
      · exact refused (decided.trans (Bool.eq_false_iff.mpr takes))
    | none =>
      rw [boxed] at decided
      exact refused decided
  have ref := JType.isReference_of_not (Bool.eq_false_iff.mpr void) (Bool.eq_false_iff.mpr prim)
  rw [if_neg prim]
  simp only [ref, Bool.true_and, Bool.not_true, Bool.false_eq_true, if_false, if_neg prim] at decided
  by_cases primT : t.isPrimitive = true
  · rw [if_pos primT]
    have value := JType.not_isReference primT
    simp only [value, Bool.false_eq_true, if_false] at decided
    cases unboxed : e.type.unbox with
    | some u =>
      rw [unboxed] at decided
      dsimp only at decided ⊢
      split_ifs with takes
      · refine meets_then.mpr ((meets_unbox pools unboxed).imp fun y v type => meets_convert.imp fun x _ type => ?_)
        exact ⟨.inl (decided.trans (by simpa using takes)), .inl type⟩
      · exact refused (decided.trans (by simpa using takes))
    | none =>
      rw [unboxed] at decided
      exact refused decided
  rw [if_neg primT]
  change Meets _ ((if ctx.lookup.isAssignable e.type t = true then pure e else throw _ : Step Term) ctx) w _
  split_ifs with takes
  · have refT := Provider.isReference_of_isAssignable takes
    rw [ref] at refT
    rw [← refT, if_pos rfl] at decided
    exact ⟨.inl (decided.trans takes), .inr ⟨ref, takes⟩⟩
  · cases refT : t.isReference with
    | true =>
      rw [refT, if_pos rfl] at decided
      exact refused (decided.trans (Bool.eq_false_iff.mpr takes))
    | false =>
      have void : t.kind = .void := by
        unfold JType.isPrimitive at primT
        unfold JType.isReference at refT
        cases k : t.kind <;> simp_all [Kind.isPrimitive]
      rw [refT, if_neg (by simp)] at decided
      refine refused (decided.trans ?_)
      cases unboxed : e.type.unbox with
      | some u =>
        obtain ⟨⟨q, rfl, -⟩, -⟩ := JType.of_unbox unboxed
        have differ : JType.ofPrim q ≠ t := by
          rintro rfl
          cases void
        simp [differ, not_widens_void, void]
      | none => rfl

end Assembler

end ClassForge

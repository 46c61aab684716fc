import ClassForge.Proofs.Handlers

/-! Finished methods: the prologue goes in front of the body, and nothing is left open. -/

namespace ClassForge

open Instruction List

def Spot.shift (n : Nat) (x : Spot) : Spot := { x with insn := x.insn.shift n }

theorem Spot.sameForm_shift (n : Nat) (x : Spot) : (x.shift n).insn.SameForm x.insn := ⟨rfl, rfl, rfl⟩

theorem Instruction.Splits.head_pc {pc : Nat} (h : Splits pc code (i :: is)) : i.pc = pc := by
  cases h with
  | cons one _ => exact read_pc one

theorem Falls.shift (h : Falls R spots here) (n : Nat) : Falls R (spots.map (Spot.shift n)) here := by
  induction spots with
  | nil => trivial
  | cons x rest ih =>
    refine ⟨fun straight => ?_, ih h.2⟩
    obtain ⟨e, next, passes⟩ := h.1 straight
    refine ⟨e, ?_, passes.sameForm (x.sameForm_shift n)⟩
    cases rest <;> exact next

namespace Certified

variable {R : Rules} {front bytes : Array UInt8} {spots : List Spot}

theorem empty (R : Rules) : Certified R #[] [] [] (some R.entry) where
  splits := .nil
  starts := ⟨R.entry, rfl, .refl _⟩
  admits := by simp
  narrow := by simp
  falls := trivial
  lands := by simp

theorem prepend (h : Certified R bytes [] spots none) (f : Certified R front [] first (some R.entry)) :
    Certified R (front ++ bytes) [] (first ++ spots.map (Spot.shift front.size)) none := by
  obtain ⟨d, start, weaker⟩ := h.starts
  have before : stateBefore (spots.map (Spot.shift front.size)) none = some d := by
    cases spots <;> exact start
  have enters : ∀ pos e, (View.mk first front.size (some R.entry)).At pos e →
      ∃ e', (View.mk (first ++ spots.map (Spot.shift front.size)) (front ++ bytes).size none).At pos e' ∧
        R.Weaker e' e := by
    rintro pos e (⟨x, hx, at_pos, state⟩ | ⟨rfl, same⟩)
    · exact ⟨e, .inl ⟨x, mem_append_left _ hx, at_pos, state⟩, .refl e⟩
    · cases same
      cases spots with
      | nil => cases start
      | cons x rest =>
        obtain rfl := Option.some.inj start
        refine ⟨_, .inl ⟨x.shift front.size, by simp, ?_, rfl⟩, weaker⟩
        change x.insn.pc + front.size = front.size
        rw [h.splits.head_pc, Nat.zero_add]
  refine { splits := ?_, starts := ?_, admits := ?_, narrow := ?_, falls := ?_, lands := ?_ }
  · have behind := h.splits.shift front.size
    have all := f.splits.append behind
    simpa [Function.comp_def, Spot.shift] using all
  · obtain ⟨e, found, less⟩ := f.starts
    rw [stateBefore_append, before]
    cases first with
    | nil => exact ⟨d, rfl, weaker⟩
    | cons x rest => exact ⟨e, found, less⟩
  · intro x hx
    rcases mem_append.mp hx with old | new
    · exact f.admits x old
    · obtain ⟨y, hy, rfl⟩ := mem_map.mp new
      exact (h.admits y hy).sameForm (y.sameForm_shift _)
  · intro x hx
    rcases mem_append.mp hx with old | new
    · exact f.narrow x old
    · obtain ⟨y, hy, rfl⟩ := mem_map.mp new
      exact h.narrow y hy
  · rw [falls_append, before]
    refine ⟨f.falls.weaken fun e he => ?_, h.falls.shift _⟩
    cases he
    exact ⟨d, rfl, weaker⟩
  · intro x hx branch shut
    rcases mem_append.mp hx with old | new
    · obtain ⟨pos, target, e, at_pos, passes⟩ := f.lands x old branch shut
      obtain ⟨e', at_pos', less⟩ := enters pos e at_pos
      exact ⟨pos, target, e', at_pos', passes.weaken less⟩
    · obtain ⟨y, hy, rfl⟩ := mem_map.mp new
      obtain ⟨pos, target, e, at_pos, passes⟩ := h.lands y hy branch (by simp)
      obtain ⟨z, hz, at_pos, state⟩ | ⟨-, missing⟩ := at_pos
      · refine ⟨pos + front.size, ?_, e, .inl ⟨z.shift front.size, ?_, ?_, state⟩, passes.sameForm (y.sameForm_shift _)⟩
        · have narrow := h.narrow y hy branch
          have branch : y.insn.op.isBranch = true := branch
          simp [Spot.shift, Instruction.shift, branch, narrow, target]
        · exact mem_append_right _ (mem_map_of_mem hz)
        · change z.insn.pc + front.size = pos + front.size
          rw [at_pos]
      · cases missing

end Certified

def Total {ε σ α : Type} (a : ExceptT ε (StateM σ) α) : Prop := ∀ s, ∃ x s', Yields a s x s'

namespace Total

variable {ε σ α β : Type}

theorem pure (x : α) : Total (Pure.pure x : ExceptT ε (StateM σ) α) := fun s => ⟨x, s, Yields.pure_iff.mpr ⟨rfl, rfl⟩⟩

theorem bind (h : Total a) (k : ∀ x, Total (f x)) : Total (a >>= f) := by
  intro s
  obtain ⟨x, s1, first⟩ := h s
  obtain ⟨y, s2, second⟩ := k x s1
  exact ⟨y, s2, Yields.bind_iff.mpr ⟨x, s1, first, second⟩⟩

theorem forM {xs : List α} (h : ∀ x ∈ xs, Total (f x)) : Total (xs.forM f) := by
  induction xs with
  | nil => exact pure _
  | cons x xs ih =>
    exact bind (h x mem_cons_self) fun _ => ih fun y hy => h y (mem_cons_of_mem _ hy)

end Total

namespace Code

theorem total_put (bs : List UInt8) : Total (put bs) := fun _ => ⟨(), _, yields_put.mpr rfl⟩

theorem total_emit (op : Opcode) : Total (emit op) := fun _ => ⟨(), _, yields_emit.mpr rfl⟩

theorem total_ldc (index : UInt16) (isWide : Bool) : Total (ldc index isWide) := by
  unfold ldc
  split_ifs <;> exact total_put _

end Code

namespace Assembler

theorem Value.total_emit (v : Value) (ref : UInt16) : Total (v.emit ref) := by
  cases v with
  | null | bool => exact Code.total_emit _
  | text | type => exact Code.total_ldc _ _
  | int n =>
    simp only [emit]
    split_ifs
    · exact Code.total_emit _
    · exact Code.total_put _
    · exact Code.total_put _
    · exact Code.total_ldc _ _
  | long | float | double =>
    simp only [emit]
    split
    · exact Code.total_emit _
    · exact Code.total_ldc _ _

theorem Field.total_store (f : Field) : Total f.store := by
  have stores : ∀ op, Total (do (f.init.getD .null).emit f.ref; Code.emitU2 op f.fieldref : Code.Action Unit) := fun op =>
    (Value.total_emit _ _).bind fun _ => Code.total_put _
  unfold Field.store
  cases f.info.isStatic with
  | true => exact stores _
  | false => exact (Code.total_emit _).bind fun _ => stores _

def atEntry (R : Rules) : Setting := ⟨R, ⟨[], 0, some R.entry⟩, [], [], R.given⟩

/-- What a prologue does: it cannot fail, and it leads from the entry back to rest. -/
structure Prepares (R : Rules) (a : Code.Action Unit) : Prop where
  total : Total a
  leads : Leads (atEntry R) R.given a [] [] []

section

variable {P : Policy} {ctx : Context} {w w' : Work} {y : Unit}

namespace Prepares

variable {R : Rules} {a : Code.Action Unit}

theorem bind (h : Prepares R a) (k : Prepares R b) : Prepares R (do a; b) where
  total := h.total.bind fun _ => k.total
  leads := h.leads.bind k.leads

theorem starts (h : Prepares R a) : ∃ front first, Yields a .empty () front ∧ front.sites = [] ∧
    Certified R front.bytes [] first (some R.entry) := by
  obtain ⟨_, front, ran⟩ := h.total .empty
  have start : Segment (atEntry R) [] (some R.entry) .empty := ⟨[], [], .empty _, .refl _ _ _, rfl, .nil⟩
  obtain ⟨first, sites, cert, -, split, carries⟩ := h.leads (fun _ hs => hs) start ran
  have none : front.sites = [] := by
    cases carries
    exact split
  rw [none] at cert
  exact ⟨front, first, ran, none, cert⟩

theorem nothing : Prepares R (pure ()) where
  total := Total.pure ()
  leads := .nothing

theorem fieldStores (sound : Sound P ctx w) (static : isStatic = false → w.method.info.isStatic = false)
    (named : ∀ f ∈ ctx.fields, f.isStored isStatic = true → ∀ op r, f.Stores op r → P.named op r)
    (room : Step.fieldStoresNeed ctx.fields isStatic ≤ w.method.maxStack) :
    Prepares (w.rules P) (Step.fieldStores ctx.fields isStatic) where
  total := Total.forM fun f _ => f.total_store
  leads := Step.leads_fieldStores sound.fields named (fun typed => (sound.typed typed).fields)
    (fun inst => sound.receiver (static inst)) fun _ => Nat.le_add_right_of_le room

end Prepares

namespace Step

variable {a : Code.Action Unit}

theorem implicitSuper_spec (sound : Sound P ctx w) (instance_ : w.method.info.isStatic = false)
    (named : P.named .invokespecial (.member .method ctx.info.super MethodInfo.constructorName "()V"))
    (run : Gives ctx implicitSuper w a w') : Calm P ctx w w' ∧ ∀ v, Calm P ctx w' v → Prepares (v.rules P) a := by
  simp only [implicitSuper, gives_bind, gives_read, looked] at run
  split at run
  · simp at run
  · simp only [gives_where, gives_bind, gives_pure] at run
    obtain ⟨-, ref, w1, intern, _, w2, reserve, rfl, rfl⟩ := run
    obtain ⟨made, found⟩ := sound.intern (Pool.interns_member _ _ _ _) intern
    obtain ⟨reserved, room⟩ := Calm.reserve made.sound reserve
    have all := made.calm.trans reserved
    refine ⟨all, fun v calm => ⟨(Code.total_emit _).bind fun _ => Code.total_put _, ?_⟩⟩
    obtain ⟨receiver, held⟩ := calm.sound.receiver (by rw [calm.info, all.info]; exact instance_)
    have reference := calm.le.pool.reference? (reserved.le.pool.reference? found)
    have small : Word.depth [.reference] ≤ (v.rules P).limit := Nat.le_add_left_of_le (by decide)
    refine (Leads.receiver held (fun _ => receiver) fun _ => Nat.zero_le _).bind (.emitU2 (by decide)
      (fun _ => ⟨_, reference, named⟩) (fun _ => small) fun typed _ => ?_)
    have spelled : JType.methodDescriptor .void [] = "()V" := by decide
    have void : JType.void.WellFormed := ⟨fun _ => rfl, by rintro _ ⟨⟩⟩
    have call := Pool.callEffect?_of_descriptor? void (by simp) (spelled ▸ Pool.descriptor?_of_reference? reference)
    exact moves_ref ((refEffect?_call (R := v.rules P) call).2 .invokespecial (by decide)) [] rfl rfl

theorem prologue_spec (sound : Sound P ctx w) (named : ∀ op r, Statement.close.Names ctx w.method op r → P.named op r)
    (run : Gives ctx prologue w a w') : Calm P ctx w w' ∧ Prepares (w'.rules P) a := by
  simp only [prologue, gives_bind, gives_read, gives_method, looked] at run
  split_ifs at run with constructs initializes
  · simp only [gives_bind, gives_pure] at run
    obtain ⟨call, w1, implicit, _, w2, reserve, rfl, rfl⟩ := run
    simp only [Bool.and_eq_true] at constructs
    have instance_ := sound.constructor constructs.1
    have initializes : w.method.initializes false = true := constructs.1
    obtain ⟨calm, leads⟩ := implicitSuper_spec sound instance_ (named _ _ (.implicitSuper constructs.1)) implicit
    obtain ⟨reserved, room⟩ := Calm.reserve calm.sound reserve
    refine ⟨calm.trans reserved, (leads w2 reserved).bind (.fieldStores reserved.sound (fun _ => ?_)
      (fun f hf stored op r stores => named op r (.closeStore initializes hf stored stores)) room)⟩
    rw [reserved.info, calm.info]
    exact instance_
  · simp only [gives_bind, gives_pure] at run
    obtain ⟨_, w1, reserve, rfl, rfl⟩ := run
    obtain ⟨reserved, room⟩ := Calm.reserve sound reserve
    have opens : w.method.initializes true = true := beq_iff_eq.mpr initializes
    exact ⟨reserved, .fieldStores reserved.sound (by rintro ⟨⟩)
      (fun f hf stored op r stores => named op r (.closeStore opens hf stored stores)) room⟩
  · obtain ⟨rfl, rfl⟩ := gives_pure.mp run
    exact ⟨.refl sound, .nothing⟩

end Step

variable {spots : List Spot} {m m' : Method}

/-- The code of the method is complete: it is certified, and nothing in it is open. -/
def Method.Complete (P : Policy) (m : Method) (p : Pool) : Prop :=
  ∃ spots, Certified (m.rules P p) m.code.bytes [] spots none ∧ m.Tables (m.rules P p) ⟨spots, m.code.bytes.size, none⟩

theorem Method.Complete.later (h : m.Complete P p)
    (le : (m.rules P p).Le (m'.rules P p')) (code : m'.code.bytes = m.code.bytes) (handlers : m'.handlers = m.handlers)
    (lines : ∀ r ∈ m'.lines, r ∈ m.lines ∨ r.pc = m.code.pos) (locals : m'.locals = m.locals) : m'.Complete P p' := by
  obtain ⟨spots, cert, tables⟩ := h
  have same : Layout.Le ∅ ⟨m.rules P p, ⟨spots, m.code.bytes.size, none⟩, #[]⟩
      ⟨m'.rules P p', ⟨spots, m.code.bytes.size, none⟩, #[]⟩ := ⟨le, .refl _ _ _, fun _ x hx => ⟨x, hx, rfl, rfl⟩⟩
  refine ⟨spots, ?_, ?_⟩
  · rw [code]
    exact cert.mono le
  · rw [code]
    exact tables.later same handlers lines fun _ hl => .inl (locals ▸ hl)

theorem isStart_shift (h : (View.mk spots size none).IsStart pos) :
    (View.mk (first ++ spots.map (Spot.shift n)) (n + size) none).IsStart (pos + n) := by
  obtain rfl | ⟨x, hx, rfl⟩ := h
  · exact .inl (Nat.add_comm _ _)
  · exact .inr ⟨x.shift n, mem_append_right _ (mem_map_of_mem hx), rfl⟩

theorem Handler.Guards.shift {h : Handler}
    (guards : h.Guards R ⟨spots, size, none⟩) (before : ∀ x ∈ first, x.insn.pc < n) :
    { h with start := h.start + n, stop := h.stop + n, target := h.target + n : Handler }.Guards R
      ⟨first ++ spots.map (Spot.shift n), n + size, none⟩ := by
  refine ⟨Nat.add_lt_add_right guards.range n, ?_, isStart_shift guards.starts, isStart_shift guards.stops, ?_, guards.catches⟩
  · have := guards.inside
    dsimp only at this ⊢
    omega
  · obtain ⟨d, ⟨x, hx, target, state⟩ | ⟨-, missing⟩, stack, covers⟩ := guards.entry
    · refine ⟨d, .inl ⟨x.shift n, mem_append_right _ (mem_map_of_mem hx), ?_, state⟩, stack, fun y hy start stop => ?_⟩
      · change x.insn.pc + n = h.target + n
        rw [target]
      · rcases mem_append.mp hy with front | body
        · have := before y front
          dsimp only at start
          omega
        · obtain ⟨z, hz, rfl⟩ := mem_map.mp body
          exact covers z hz (Nat.le_of_add_le_add_right start) (Nat.lt_of_add_lt_add_right stop)
    · cases missing

theorem Method.exists_shift (m : Method) (n : Nat) (Q : Bool → Nat → JType → Prop) :
    (∃ l ∈ (m.shift n).locals, Q l.param l.slot l.type) ↔ ∃ l ∈ m.locals, Q l.param l.slot l.type := by
  have same : ∀ l : Local, Q (if l.param then l else { l with start := l.start + n }).param
      (if l.param then l else { l with start := l.start + n }).slot
      (if l.param then l else { l with start := l.start + n }).type ↔ Q l.param l.slot l.type := by
    intro l
    split <;> exact .rfl
  simp only [Method.shift, Array.mem_map, exists_exists_and_eq_and, same]

theorem Method.rules_shift (m : Method) (n : Nat) (p : Pool) : (m.shift n).rules P p = m.rules P p := by
  have given : (m.shift n).given = m.given := Set.ext fun slot => m.exists_shift n fun param s _ => param = true ∧ s = slot
  have holds : ((m.shift n).rules P p).holds = (m.rules P p).holds := funext fun slot => funext fun k =>
    propext (m.exists_shift n fun _ s t => s = slot ∧ t.kind = k)
  change Rules.mk _ _ _ _ _ ((m.shift n).rules P p).holds _ _ = _
  rw [given, holds]
  rfl

theorem Method.Complete.prepend {p : Pool} (h : m.Complete P p)
    (cert : Certified (m.rules P p) front [] first (some (m.rules P p).entry)) :
    ({ m with code := ⟨front ++ m.code.bytes, []⟩ }.shift front.size).Complete P p := by
  obtain ⟨spots, body, tables⟩ := h
  have rules : ({ m with code := ⟨front ++ m.code.bytes, []⟩ }.shift front.size).rules P p = m.rules P p :=
    Method.rules_shift _ _ p
  have size : ({ m with code := ⟨front ++ m.code.bytes, []⟩ }.shift front.size).code.bytes.size =
    front.size + m.code.bytes.size := Array.size_append
  refine ⟨first ++ spots.map (Spot.shift front.size), ?_, ?_⟩
  · rw [rules]
    exact body.prepend cert
  · rw [rules, size]
    refine ⟨fun k hk => ?_, fun r hr => ?_, fun l hl => ?_⟩
    · obtain ⟨h, hh, rfl⟩ := Array.mem_map.mp hk
      exact (tables.guards h hh).shift fun x hx => cert.pc_lt hx
    · obtain ⟨r, old, rfl⟩ := Array.mem_map.mp hr
      exact isStart_shift (tables.lines r old)
    · obtain ⟨l, old, rfl⟩ := Array.mem_map.mp hl
      have starts := tables.locals l old
      by_cases param : l.param = true
      · simpa [param] using starts
      · simp only [param] at starts ⊢
        exact isStart_shift starts

def Step.sealCode : Step Unit := do
  let size ← pos
  if size > maxCodeLength then throw (.codeSize size)
  update fun m => { m with finished := true, frames := [] }
  modify fun w => { w with trail := w.trail.record (.methodFinished w.method.number size) }

def Step.wrapUp : Step Unit := do
  checkDangling 0
  let sites := (← method).code.sites.length
  if sites ≠ 0 then throw (.openSites sites)
  let (_, front) := (← prologue).run .empty
  if front.pos > 0 then
    code (Code.prepend front)
    update (Method.shift · front.pos)
  sealCode

structure Ended (P : Policy) (w : Work) : Prop where
  pool : w.pool.Sound
  kept : P.kept.Le w.pool
  declared : P.declared w.method.declaration
  bodied : w.method.bodiless = false
  finished : w.method.finished = true
  complete : w.method.Complete P w.pool

namespace Step

theorem ended_sealCode (run : Gives ctx sealCode w y w') (complete : w.method.Complete P w.pool)
    (pool : w.pool.Sound) (kept : P.kept.Le w.pool) (declared : P.declared w.method.declaration)
    (bodied : w.method.bodiless = false) : Ended P w' := by
  simp only [sealCode, gives_bind, gives_pos, looked] at run
  split_ifs at run
  · simp at run
  obtain ⟨_, _, rfl, rfl⟩ := run
  exact ⟨pool, kept, declared, bodied, rfl, complete.later (.refl _) rfl rfl (fun _ => .inl) rfl⟩

theorem of_checkDangling (run : Gives ctx (checkDangling first) w y w') : w = w' := by
  simp only [checkDangling, gives_bind, gives_method, looked] at run
  split at run
  · simp at run
  · exact (gives_pure.mp run).2

theorem ended_wrapUp (sound : Sound P ctx w) (complete : w.method.Complete P w.pool)
    (named : ∀ op r, Statement.close.Names ctx w.method op r → P.named op r)
    (run : Gives ctx wrapUp w y w') : Ended P w' := by
  simp only [wrapUp, gives_bind, gives_method, looked] at run
  obtain ⟨_, _, dangling, run⟩ := run
  obtain rfl := of_checkDangling dangling
  split_ifs at run with left
  · simp at run
  simp only [gives_bind] at run
  obtain ⟨a, w1, prologue, run⟩ := run
  obtain ⟨calm, leads⟩ := prologue_spec sound named prologue
  have complete : w1.method.Complete P w1.pool :=
    complete.later (calm.le.rules P) (by rw [calm.code]) calm.handlers calm.lines calm.locals
  obtain ⟨front, first, ran, -, cert⟩ := leads.starts
  rw [show a.run Code.empty = _ from ran] at run
  dsimp only at run
  by_cases leads : front.pos > 0
  · rw [if_pos leads] at run
    simp only [gives_bind, gives_update, passed, coded] at run
    obtain ⟨_, c, ran, run⟩ := run
    simp only [Code.prepend, Yields.bind_iff, Yields.get_iff, looked] at ran
    split_ifs at ran
    · simp only [Yields.set_iff] at ran
      subst ran
      exact ended_sealCode run (complete.prepend cert) calm.sound.pool calm.sound.kept calm.sound.declared calm.sound.live.1
    · simp at ran
  · rw [if_neg leads] at run
    exact ended_sealCode run complete calm.sound.pool calm.sound.kept calm.sound.declared calm.sound.live.1

theorem complete_of_body (laid : Laid P w [] [] none) (body : w.method.top.scope = .body) :
    w.method.Complete P w.pool := by
  obtain ⟨spots, own, below, plan⟩ := laid
  obtain ⟨tail, rfl⟩ := plan.nested'.of_body body
  have frames := plan.frames
  have cert := plan.cert
  have none : own = [] := forall₂_nil_right_iff.mp plan.carries
  rw [tail] at frames
  rw [plan.split, frames, none] at cert
  simp only [append_nil, flatMap_cons, flatMap_nil, Frame.loose, body, Scope.loose] at cert
  exact ⟨spots, cert, plan.tables⟩

theorem ended_finish (h : Settled P ctx w) (body : w.method.top.scope = .body)
    (named : ∀ op r, Statement.close.Names ctx w.method op r → P.named op r) (run : Gives ctx finish w y w') :
    Ended P w' := by
  simp only [finish, gives_bind, gives_method, gives_top, looked] at run
  cases closed : w.method.top.closed with
  | true =>
    simp only [closed, Bool.not_true, Bool.false_eq_true, if_false] at run
    have laid := h.laid
    rw [Method.standing, closed] at laid
    exact ended_wrapUp h.sound (complete_of_body laid body) named run
  | false =>
    simp only [closed, Bool.not_false, if_true] at run
    by_cases void : (!w.method.info.ret.isVoid) = true
    · rw [if_pos void] at run
      simp at run
    rw [if_neg void, gives_bind, coded] at run
    obtain ⟨_, c, ran, run⟩ := run
    have stands := h.opened closed
    have leaves : Opcode.voidReturn.effect? = some ⟨[], []⟩ := by decide
    have left : Stands P ctx (w.withCode c) [] [] none :=
      stands.code (fun _ _ _ seg => seg.leave ran (by decide) (by decide) (fun _ => Nat.zero_le _)
        (fun _ => moves_op leaves [] rfl rfl) stands.above) (by rintro _ ⟨⟩)
    exact ended_wrapUp (w := w.withCode c) left.sound (complete_of_body left.laid body)
      (fun op r names => named op r (names.of_info rfl)) run

end Step

end

end Assembler

end ClassForge

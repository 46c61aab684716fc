import ClassForge.Proofs.Calls
import ClassForge.Proofs.Sites

/-! The open scopes of a method between statements: what each keeps on the stack of branches, and
how statements turn them. -/

namespace ClassForge.Assembler

/-! Scopes and the branches they keep. -/

/-- The branches of a scope on the stack: its pending test, over the jumps out of the arms before. -/
def Scope.Keeps : Scope → List Opcode → Prop
  | .body, ops | .guarded .., ops | .loop (.test true) .., ops => ops = []
  | .branch .last exits, ops => ops = List.replicate exits .goto
  | .branch _ exits, ops => ∃ t : Opcode, t.isTest = true ∧ ops = t :: List.replicate exits .goto
  | .loop .., ops => ∃ t : Opcode, t.isTest = true ∧ ops = [t]

def Stacked : List Scope → List Opcode → Prop
  | [], ops => ops = []
  | s :: scopes, ops => ∃ own below, ops = own ++ below ∧ s.Keeps own ∧ Stacked scopes below

def Method.scopes (m : Method) : List Scope := m.frames.map Frame.scope

def SlotsFit (locals : Array Local) : Prop := ∀ l ∈ locals, l.slot < 65536

/-- A method between statements: scopes have their branches on the stack, none overlap, and slots
are in range. -/
structure Method.Tidy (m : Method) : Prop where
  sites : ∃ ops, m.code.Bears m.code.pos (m.scopes.flatMap Scope.loose) ops ∧ Stacked m.scopes ops
  slots : SlotsFit m.locals

/-! The outline of a method. -/

inductive Level
  | body
  | branch (last : Bool)
  | loop
  | guarded (start : Nat) (stop : Option Nat)
  deriving DecidableEq

def Scope.level : Scope → Level
  | .body => .body
  | .branch arm _ => .branch (arm = .last)
  | .loop .. => .loop
  | .guarded start stop _ _ => .guarded start stop

/-- The open scopes, innermost first, the handlers so far, and the end of the code. -/
structure Outline where
  levels : List Level
  handlers : Array Handler
  pos : Nat

def Method.outline (m : Method) : Outline := ⟨m.scopes.map Scope.level, m.handlers, m.code.pos⟩

def Handler.shift (n : Nat) (h : Handler) : Handler :=
  { h with start := h.start + n, stop := h.stop + n, target := h.target + n }

def LineRow.shift (n : Nat) (r : LineRow) : LineRow := { r with pc := r.pc + n }

def Statement.isFlat : Statement → Bool
  | .declare .. | .assign .. | .increment .. | .evaluate _ | .setField .. | .setStatic .. | .setIndex .. | .leave _
  | .raise _ | .superCall _ => true
  | _ => false

def Statement.opens? (pos : Nat) : Statement → Option Level
  | .ifOpen _ => some (.branch false)
  | .whileOpen _ | .forEach .. => some .loop
  | .tryOpen => some (.guarded pos none)
  | _ => none

/-- What a statement does to the outline, in a class of a name and with the pool as it is afterwards. -/
inductive Turns (name : String) (pool : Pool) : Statement → Outline → Outline → Prop
  | flat {s : Statement} {levels : List Level} {handlers : Array Handler} {pos pos' : Nat} : s.isFlat = true → pos ≤ pos' →
      Turns name pool s ⟨levels, handlers, pos⟩ ⟨levels, handlers, pos'⟩
  | jump {s : Statement} {levels : List Level} {handlers : Array Handler} {pos pos' : Nat} :
      s = .breakLoop ∨ s = .continueLoop → .loop ∈ levels → pos ≤ pos' →
      Turns name pool s ⟨levels, handlers, pos⟩ ⟨levels, handlers, pos'⟩
  | opens {s : Statement} {level : Level} {levels : List Level} {handlers : Array Handler} {pos pos' : Nat} :
      s.opens? pos = some level → pos ≤ pos' →
      Turns name pool s ⟨levels, handlers, pos⟩ ⟨level :: levels, handlers, pos'⟩
  | elseIf {c : Operand} {levels : List Level} {handlers : Array Handler} {pos pos' : Nat} : pos ≤ pos' →
      Turns name pool (.elseIf c) ⟨.branch false :: levels, handlers, pos⟩ ⟨.branch false :: levels, handlers, pos'⟩
  | elseOpen {levels : List Level} {handlers : Array Handler} {pos pos' : Nat} : pos ≤ pos' →
      Turns name pool .elseOpen ⟨.branch false :: levels, handlers, pos⟩ ⟨.branch true :: levels, handlers, pos'⟩
  /-- The range ends at the first handler, behind an instruction that stands for an empty body. -/
  | handler {t : JType} {n : String} {levels : List Level} {handlers : Array Handler} {start pos pos' target : Nat}
      {stop : Option Nat} {ref : UInt16} :
      pool.className? ref = some (t.resolve name).internalName →
      stop.getD (if pos = start then pos + 1 else pos) ≤ target → pos ≤ target → target ≤ pos' →
      Turns name pool (.catchOpen t n) ⟨.guarded start stop :: levels, handlers, pos⟩
        ⟨.guarded start (some (stop.getD (if pos = start then pos + 1 else pos))) :: levels,
          handlers.push ⟨start, stop.getD (if pos = start then pos + 1 else pos), target, ref⟩, pos'⟩
  | close {level : Level} {levels : List Level} {handlers : Array Handler} {pos pos' : Nat} :
      level ≠ .body → (∀ start, level ≠ .guarded start none) → pos ≤ pos' →
      Turns name pool .close ⟨level :: levels, handlers, pos⟩ ⟨levels, handlers, pos'⟩
  /-- The method ends, with `n` bytes put in front. -/
  | finish {handlers : Array Handler} {pos pos' : Nat} (n : Nat) : pos + n ≤ pos' →
      Turns name pool .close ⟨[.body], handlers, pos⟩ ⟨[], handlers.map (Handler.shift n), pos'⟩

def Frame.jumpSize (f : Frame) : Nat := if f.closed then 0 else 3

def Method.padSize (m : Method) : Nat := if m.top.scope.level = .guarded m.code.pos none then 1 else 0

/-- Where the code of a statement starts that gets a line of its own. -/
def Statement.start? (m : Method) : Statement → Option Nat
  | .declare .. | .elseOpen | .close => none
  | .elseIf _ => some (m.code.pos + m.top.jumpSize)
  | .catchOpen .. => some (m.code.pos + m.padSize + m.top.jumpSize)
  | _ => some m.code.pos

theorem Statement.le_start? {s : Statement} (h : s.start? m = some pc) : m.code.pos ≤ pc := by
  unfold start? at h
  split at h <;> cases h
  · exact Nat.le_add_right _ _
  · exact Nat.le_trans (Nat.le_add_right _ _) (Nat.le_add_right _ _)
  · exact Nat.le_refl _

/-- What statements do to a method besides its code and its locals. -/
structure Shape where
  scopes : List Scope
  handlers : Array Handler
  lines : Array LineRow
  line : Nat

def Shape.push (scope : Scope) (x : Shape) : Shape := { x with scopes := scope :: x.scopes }

namespace Work

def shape (w : Work) : Shape := ⟨w.method.scopes, w.method.handlers, w.method.lines, w.line⟩

def begins (w : Work) (pc : Nat) : Shape :=
  { w.shape with lines := Step.addLine w.method.lines pc (w.line + 1), line := w.line + 1 }

def started (w : Work) (s : Statement) : Shape := (s.start? w.method).elim w.shape w.begins

end Work

/-- After a statement the outline has turned, its line is noted, and an open method is tidy. -/
structure Outcome (ctx : Context) (s : Statement) (w w' : Work) : Prop where
  turns : Turns ctx.name w'.pool s w.method.outline w'.method.outline
  lines : w'.method.finished = false → w'.method.lines = (w.started s).lines
  tidy : w'.method.finished = false → w'.method.Tidy

abbrev Achieves (ctx : Context) (s : Statement) (w : Work) (a : Step α) : Prop :=
  Step.Meets ctx a w fun _ w' => Outcome ctx s w w'

section

variable {i n : Nat} {ctx : Context} {w w' : Work} {ops : List Opcode} {s : Statement} {f : Frame}

theorem Outcome.of_bears (old : w.method.scopes = scopes)
    (shape : w'.shape = { w.started s with scopes := k, handlers := h })
    (turns : Turns ctx.name w'.pool s ⟨scopes.map Scope.level, w.method.handlers, w.method.code.pos⟩
      ⟨k.map Scope.level, h, w'.method.code.pos⟩) (bears : w'.method.code.Bears n (k.flatMap Scope.loose) ops)
    (stacked : Stacked k ops) (slots : SlotsFit w'.method.locals) : Outcome ctx s w w' := by
  obtain ⟨rfl, rfl, lines, -⟩ := Shape.mk.inj shape
  subst old
  exact ⟨turns, fun _ => lines, fun _ => ⟨⟨ops, bears.renew, stacked⟩, slots⟩⟩

theorem Work.scopes_started : (w.started s).scopes = w.method.scopes ∧ (w.started s).handlers = w.method.handlers := by
  unfold started
  cases s.start? w.method <;> exact ⟨rfl, rfl⟩

theorem Outcome.flat (flat : s.isFlat = true)
    (bears : w'.method.code.Bears w.method.code.pos (w.method.scopes.flatMap Scope.loose) ops)
    (stacked : Stacked w.method.scopes ops) (shape : w'.shape = w.started s) (slots : SlotsFit w'.method.locals) :
    Outcome ctx s w w' := by
  refine .of_bears rfl ?_ (.flat flat bears.reaches) bears stacked slots
  rw [shape, ← w.scopes_started.1, ← w.scopes_started.2]

theorem Made.shape (made : Made P ctx w w') : w'.shape = w.shape := by
  rw [made.same]
  rfl

theorem Made.begins (made : Made P ctx w w') : w'.begins n = w.begins n := by
  rw [made.same]
  rfl

theorem Settled.scopes_cons (h : Settled P ctx w) (scope : f.scope = w.method.top.scope) :
    (f :: w.method.frames.tail).map Frame.scope = w.method.scopes := by
  rw [Method.scopes, h.laid.frames]
  simp [scope]

theorem Settled.begins_cons (h : Settled P ctx w) (made : Made P ctx w v) (scope : f.scope = v.method.top.scope) :
    { v.begins n with scopes := (f :: v.method.frames.tail).map Frame.scope } = w.begins n := by
  rw [(h.calm made.calm).scopes_cons scope]
  exact made.begins

theorem Fine.fits (fine : Fine P w e) (slots : SlotsFit w.method.locals) : Expr.Fits e.emit := by
  refine fine.good.fits fun l hl => ?_
  obtain ⟨x, found, slot⟩ := fine.reads l hl
  rw [← slot]
  exact slots x (Array.mem_of_getElem? found)

theorem slot_getD (slots : SlotsFit locals) (id : Nat) : (locals.getD id default).slot < 65536 := by
  by_cases lt : id < locals.size
  · rw [← Array.getElem_eq_getD (h := lt)]
    exact slots _ (Array.getElem_mem lt)
  · rw [Array.getD_eq_getD_getElem?, Array.getElem?_eq_none (by omega)]
    decide

open Draft (lax)

namespace Step

variable {hidden param : Bool} {t : JType} {l : LocalArg} {name : String}

theorem meets_ofExcept {r : Except Fault α} {good : α → Work → Prop}
    (mild : ∀ e, r = .error e → e.isInternal = false) (next : ∀ x, r = .ok x → good x w) : Meets ctx (ofExcept r) w good := by
  cases r with
  | ok x => exact next x rfl
  | error e => exact mild e rfl

theorem meets_allocate (limit : ctx.options.maxLocals ≤ 65535) (next : w.method.nextSlot < 65536 →
      good w.method.locals.size { w with method := w.method.addLocal (t.resolve ctx.name) name false hidden }) :
    Meets ctx (allocate t name hidden) w good := by
  simp only [allocate, meets_bind, meets_read, meets_method]
  rw [meets_ite]
  refine ⟨fun fits => ?_, fun _ => rfl⟩
  simp only [Method.fits, decide_eq_true_eq] at fits
  exact next (by omega)

theorem slots_push {m : Method} (slots : SlotsFit m.locals) (low : m.nextSlot < 65536) :
    SlotsFit (m.addLocal t name param hidden).locals :=
  forall_push slots low

theorem meets_declare (limit : ctx.options.maxLocals ≤ 65535) (tidy : w.method.Tidy) :
    Achieves ctx (.declare t name) w (declare t name) := by
  obtain ⟨⟨ops, bears, stacked⟩, slots⟩ := tidy
  simp only [declare, meets_bind]
  refine meets_ofExcept (checkName_mild name) fun _ _ => ?_
  refine meets_else rfl fun _ => ?_
  simp only [meets_bind]
  refine meets_allocate limit fun low => ?_
  exact .flat rfl bears stacked rfl (slots_push slots low)

theorem meets_claim (h : Settled (lax i) ctx w) (next : ∀ x, Fine (lax i) w x.expr → good x w) :
    Meets ctx (claim value) w good := by
  refine (mild_claim value).meets fun x _ claim => ?_
  obtain ⟨rfl, claimed⟩ := of_claim claim
  exact next x (h.sound.claimed claimed)

theorem meets_assignConv (made : Made (lax i) ctx w v) (fine : Fine (lax i) v e.expr) (slots : SlotsFit w.method.locals)
    (next : ∀ x u, Made (lax i) ctx w u → Made (lax i) ctx v u → SlotsFit u.method.locals → Expr.Fits x.expr.emit →
      good x u) : Meets ctx (assignConv e t) v good := by
  refine (mild_assignConv e t).meets fun x u conv => ?_
  obtain ⟨more, adapted, -⟩ := assignConv_spec made.sound fine conv
  have made := made.trans more
  have slots := made.calm.locals ▸ slots
  exact next x u made more slots (adapted.fine.fits slots)

theorem meets_assignLocal (h : Settled (lax i) ctx w) (tidy : w.method.Tidy) :
    Achieves ctx (.assign l value) w (assignLocal l value) := by
  obtain ⟨⟨ops, bears, stacked⟩, slots⟩ := tidy
  simp only [assignLocal, meets_bind]
  refine (mild_ownLocal l).meets fun id _ owned => ?_
  obtain ⟨rfl, rfl, lt⟩ := of_ownLocal owned
  refine meets_claim h fun e fine => ?_
  refine meets_assignConv (.refl h.sound) fine slots fun x v made _ slots fits => ?_
  simp only [meets_own, meets_method, meets_mark, meets_reserve, emitValue, meets_code]
  rw [made.calm.code]
  refine (bears.keep fits.value).imp fun _ c bears => ?_
  refine (bears.keep (.store _ (slot_getD (made.calm.locals ▸ slots) id))).imp fun _ c bears => ?_
  exact .flat rfl bears stacked (h.begins_cons made rfl) slots

theorem meets_increment (tidy : w.method.Tidy) :
    Achieves ctx (.increment l delta) w (increment l delta) := by
  obtain ⟨⟨ops, bears, stacked⟩, slots⟩ := tidy
  simp only [increment, meets_bind]
  refine (mild_ownLocal l).meets fun id _ owned => ?_
  obtain ⟨rfl, rfl, lt⟩ := of_ownLocal owned
  simp only [meets_localAt]
  refine meets_else rfl fun _ => ?_
  simp only [meets_bind, meets_isAssigned]
  refine meets_else rfl fun _ => ?_
  simp only [meets_bind, meets_method, meets_mark, meets_code]
  refine (bears.keep (.iinc _ (slot_getD slots id))).imp fun _ c bears => ?_
  exact .flat rfl bears stacked rfl slots

theorem shifts_discard (t : JType) : Code.Shifts (discard t) [] [] := by
  unfold discard
  split
  · exact .nothing
  · exact .emit _
  · exact .emit _

section

variable (h : Settled (lax i) ctx w) (tidy : w.method.Tidy)

include h tidy

theorem meets_evaluate : Achieves ctx (.evaluate e) w (evaluate e) := by
  obtain ⟨⟨ops, bears, stacked⟩, slots⟩ := tidy
  simp only [evaluate, meets_bind]
  refine meets_claim h fun x fine => ?_
  have fits := fine.fits slots
  simp only [meets_consume, meets_method, meets_mark, meets_reserve, emitValue, meets_code]
  refine (bears.keep fits.value).imp fun _ c bears => ?_
  refine (bears.keep (shifts_discard _)).imp fun _ c bears => ?_
  exact .flat rfl bears stacked rfl slots

theorem meets_setField :
    Achieves ctx (.setField object name value) w (setField object name value) := by
  obtain ⟨⟨ops, bears, stacked⟩, slots⟩ := tidy
  simp only [setField, meets_bind]
  refine (mild_claim2 object value).meets fun ov _ claim => ?_
  obtain ⟨rfl, first, second⟩ := of_claim2 claim
  refine (mild_field _ name false).meets fun fr v1 entry => ?_
  obtain ⟨made1, -⟩ := field_spec h.sound entry
  refine (mild_checkFinal fr.1).meets fun _ _ final => ?_
  obtain rfl := of_checkFinal final
  refine meets_assignConv made1 (made1.fine (h.sound.claimed second)) slots fun x v2 made _ slots fits => ?_
  simp only [meets_own, meets_method, meets_mark, meets_reserve, emitValue, meets_code]
  rw [made.calm.code]
  refine (bears.keep ((made.fine (h.sound.claimed first)).fits slots).value).imp fun _ c bears => ?_
  refine (bears.keep fits.value).imp fun _ c bears => ?_
  refine (bears.keep (.emitU2 _ _)).imp fun _ c bears => ?_
  exact .flat rfl bears stacked made.begins slots

theorem meets_setStatic :
    Achieves ctx (.setStatic owner name value) w (setStatic owner name value) := by
  obtain ⟨⟨ops, bears, stacked⟩, slots⟩ := tidy
  simp only [setStatic, meets_bind]
  refine meets_claim h fun e fine => ?_
  refine (mild_field _ name true).meets fun fr v1 entry => ?_
  obtain ⟨made1, -⟩ := field_spec h.sound entry
  refine (mild_checkFinal fr.1).meets fun _ _ final => ?_
  obtain rfl := of_checkFinal final
  refine meets_assignConv made1 (made1.fine fine) slots fun x v2 made _ slots fits => ?_
  simp only [meets_own, meets_method, meets_mark, meets_reserve, emitValue, meets_code]
  rw [made.calm.code]
  refine (bears.keep fits.value).imp fun _ c bears => ?_
  refine (bears.keep (.emitU2 _ _)).imp fun _ c bears => ?_
  exact .flat rfl bears stacked made.begins slots

theorem meets_setIndex :
    Achieves ctx (.setIndex array index value) w (setIndex array index value) := by
  obtain ⟨⟨ops, bears, stacked⟩, slots⟩ := tidy
  simp only [setIndex, meets_bind]
  refine (mild_claim3 array index value).meets fun aiv _ claim => ?_
  obtain ⟨rfl, first, second, third⟩ := of_claim3 claim
  refine (mild_arrayIndex aiv.1 aiv.2.1).meets fun j v1 indexed => ?_
  obtain ⟨-, made1, adaptedJ, -⟩ := arrayIndex_spec h.sound (h.sound.claimed second) indexed
  refine meets_assignConv made1 (made1.fine (h.sound.claimed third)) slots fun x v2 made made2 slots fits => ?_
  simp only [meets_own, meets_method, meets_mark, meets_reserve, emitValue, meets_code]
  rw [made.calm.code]
  refine (bears.keep ((made.fine (h.sound.claimed first)).fits slots).value).imp fun _ c bears => ?_
  refine (bears.keep ((made2.fine adaptedJ.fine).fits slots).value).imp fun _ c bears => ?_
  refine (bears.keep fits.value).imp fun _ c bears => ?_
  refine (bears.keep (.emit _)).imp fun _ c bears => ?_
  exact .flat rfl bears stacked made.begins slots

theorem meets_leave : Achieves ctx (.leave value) w (leave value) := by
  obtain ⟨⟨ops, bears, stacked⟩, slots⟩ := tidy
  simp only [leave, meets_bind, meets_method]
  cases value with
  | missing =>
    refine meets_else rfl fun _ => ?_
    simp only [meets_bind, meets_method, meets_mark, meets_code]
    refine (bears.keep (.emit _)).imp fun _ c bears => ?_
    exact .flat rfl bears stacked (h.begins_cons (.refl h.sound) rfl) slots
  | node | foreign =>
    refine meets_else rfl fun _ => ?_
    simp only [meets_bind]
    refine meets_claim h fun e fine => ?_
    refine meets_assignConv (.refl h.sound) fine slots fun x v made _ slots fits => ?_
    simp only [meets_own, meets_method, meets_mark, meets_reserve, emitValue, meets_code]
    rw [made.calm.code]
    refine (bears.keep fits.value).imp fun _ c bears => ?_
    refine (bears.keep (.emit _)).imp fun _ c bears => ?_
    exact .flat rfl bears stacked (h.begins_cons made rfl) slots

theorem meets_raise : Achieves ctx (.raise e) w (raise e) := by
  obtain ⟨⟨ops, bears, stacked⟩, slots⟩ := tidy
  simp only [raise, meets_bind]
  refine meets_claim h fun x fine => ?_
  have fits := fine.fits slots
  refine (mild_isAssignable _ _).meets fun throws _ asked => ?_
  obtain ⟨rfl, rfl⟩ := gives_isAssignable.mp asked
  refine meets_else rfl fun _ => ?_
  simp only [meets_bind, meets_own, meets_method, meets_mark, meets_reserve, emitValue, meets_code]
  refine (bears.keep fits.value).imp fun _ c bears => ?_
  refine (bears.keep (.emit _)).imp fun _ c bears => ?_
  exact .flat rfl bears stacked (h.begins_cons (.refl h.sound) rfl) slots

end

theorem shifts_store (f : Field) : Code.Shifts f.store [] [] := by
  unfold Field.store
  by_cases static : f.info.isStatic = true
  · simp only [static, Bool.not_true, Bool.false_eq_true, if_false]
    exact (Value.shifts_emit _ _).bind (.emitU2 _ _)
  · simp only [static, Bool.not_false, if_true]
    exact (Code.Shifts.emit _).bind ((Value.shifts_emit _ _).bind (.emitU2 _ _))

theorem shifts_fieldStores (fields : Array Field) (isStatic : Bool) : Code.Shifts (fieldStores fields isStatic) [] [] :=
  .forM fun f _ => shifts_store f

theorem meets_superCall (h : Settled (lax i) ctx w) (tidy : w.method.Tidy) :
    Achieves ctx (.superCall args) w (superCall args) := by
  obtain ⟨⟨ops, bears, stacked⟩, slots⟩ := tidy
  simp only [superCall, meets_bind, meets_method]
  by_cases misplaced : (!w.method.info.isConstructor || w.method.superCalled || decide (w.method.statements > 0)) = true
  · rw [if_pos misplaced]
    rfl
  rw [if_neg misplaced]
  simp only [Bool.or_eq_true, Bool.not_eq_true', not_or, Bool.not_eq_false] at misplaced
  have instance_ : w.method.info.isStatic = false := h.sound.constructor misplaced.1.1
  simp only [meets_bind, meets_read]
  refine (mild_claimAll args).meets fun xs _ claims => ?_
  obtain ⟨rfl, -, -, fine⟩ := claimAll_spec h.sound claims
  refine (mild_resolve _ _ _ xs).meets fun m _ resolved => ?_
  obtain ⟨rfl, -, -, arity, static⟩ := of_resolve resolved
  refine (mild_node _ _).meets fun this v1 node => ?_
  obtain ⟨made1, self⟩ := h.sound.node (fine_self h.sound instance_ false) node
  refine (mild_invoke m _ true xs).meets fun e v2 call => ?_
  obtain ⟨made2, fineE, -⟩ := invoke_spec made1.sound (fun a ha => made1.fine (fine a ha))
    (by
      rintro r ⟨⟩
      rw [self]
      exact made1.fine (fine_self h.sound instance_ false)) static arity
    (by
      rintro r ⟨⟩
      rw [Term.type, self]
      simp [Expr.type, JType.isReference]) (by rintro ⟨⟩) (fun _ _ _ => trivial) call
  have made := made1.trans made2
  have calm := made.calm
  have slots := calm.locals ▸ slots
  simp only [meets_own, meets_method, meets_mark, meets_reserve, meets_update, emitValue, meets_code]
  rw [calm.code]
  refine (bears.keep (fineE.fits slots).value).imp fun _ c bears => ?_
  refine (bears.keep (shifts_fieldStores _ _)).imp fun _ c bears => ?_
  exact .flat rfl bears stacked made.begins slots

end Step

end

end ClassForge.Assembler

import ClassForge.Assembler.Control
import ClassForge.Proofs.Steps

/-! Runs of steps with the faults they may end in. -/

namespace ClassForge

/-- The fault would be one of the assembler itself: no request explains it. -/
def Code.Fault.isInternal : Code.Fault → Bool
  | .negativeSlot _ | .slotRange _ | .swapUnderflow _ | .noOpenSite | .prependOpen _ => true
  | .interfaceSlots _ | .incrementRange _ | .branchTooFar _ _ => false

@[inherit_doc Code.Fault.isInternal, grind]
def Assembler.Fault.isInternal : Assembler.Fault → Bool
  | .code e => e.isInternal
  | .openSites _ | .noScope => true
  | _ => false

section

variable {ε σ α β : Type} {mild : ε → Prop} {s : σ} {good : α → σ → Prop} {a : ExceptT ε (StateM σ) α} {t : σ} {x : α}

def Meets (mild : ε → Prop) (a : ExceptT ε (StateM σ) α) (s : σ) (good : α → σ → Prop) : Prop :=
  match a.run s with
  | (.ok x, t) => good x t
  | (.error e, _) => mild e

theorem Meets.imp (h : Meets mild a s good) (more : ∀ x t, good x t → good' x t) : Meets mild a s good' := by
  unfold Meets at h ⊢
  split
  · rename_i x t ran
    rw [ran] at h
    exact more x t h
  · rename_i e t ran
    rw [ran] at h
    exact h

theorem Meets.of_yields (h : Meets mild a s fun _ _ => True)
    (ends : ∀ x t, Yields a s x t → good x t) : Meets mild a s good := by
  unfold Meets at h ⊢
  split
  · rename_i x t ran
    exact ends x t ran
  · rename_i e t ran
    rw [ran] at h
    exact h

theorem Meets.yields (h : Meets mild a s good) (run : Yields a s x t) : good x t := by
  unfold Meets at h
  rw [run] at h
  exact h

theorem Meets.fails (h : Meets mild a s good) {e : ε} (run : a.run s = (.error e, t)) : mild e := by
  unfold Meets at h
  rw [run] at h
  exact h

@[simp] theorem meets_pure : Meets mild (pure x) s good ↔ good x s := .rfl

@[simp] theorem meets_throw : Meets mild (throw e) s good ↔ mild e := .rfl

@[simp] theorem meets_get {good : σ → σ → Prop} : Meets mild get s good ↔ good s s := .rfl

@[simp] theorem meets_modify {good : PUnit → σ → Prop} :
    Meets mild (modify f) s good ↔ good PUnit.unit (f s) := .rfl

@[simp] theorem meets_set {good : PUnit → σ → Prop} : Meets mild (set t) s good ↔ good PUnit.unit t := .rfl

@[simp] theorem meets_bind {good : β → σ → Prop} :
    Meets mild (a >>= f) s good ↔ Meets mild a s fun x t => Meets mild (f x) t good := by
  unfold Meets
  rw [Yields.run_bind]
  cases a.run s with
  | mk r t => cases r <;> rfl

@[simp] theorem meets_map {good : β → σ → Prop} :
    Meets mild (f <$> a) s good ↔ Meets mild a s fun x t => good (f x) t := by
  rw [← bind_pure_comp, meets_bind]
  rfl

theorem meets_ite [Decidable c] :
    Meets mild (if c then a else b) s good ↔ (c → Meets mild a s good) ∧ (¬ c → Meets mild b s good) := by
  by_cases h : c <;> simp [h]

end

namespace Assembler

/-- Locals on consecutive slots, one or two each. -/
def Packed : Nat → List (Nat × JType) → Nat → Prop
  | start, [], stop => start = stop
  | start, (slot, t) :: rest, stop => slot = start ∧ (t.slots = 1 ∨ t.slots = 2) ∧ Packed (start + t.slots) rest stop

def Method.row (m : Method) : List (Nat × JType) := m.locals.toList.map fun l => (l.slot, l.type)

/-- The locals take consecutive slots from the first one on, within the limit. -/
def Method.InRow (limit : Int) (m : Method) : Prop := Packed 0 m.row m.nextSlot ∧ m.nextSlot ≤ limit

namespace Step

variable {α β : Type} {ctx : Context} {w : Work} {good : α → Work → Prop} {e : Fault} {a : Step α} {id : Nat}
  {c : Prop} {x : α}

/-- The step ends well or in a fault that a request explains. -/
def Meets (ctx : Context) (a : Step α) (w : Work) (good : α → Work → Prop) : Prop :=
  ClassForge.Meets (fun e : Fault => e.isInternal = false) (a ctx) w good

/-- The step keeps the locals in their row, also where it fails, and does not look at the trail:
from another it does the same, and leaves another. -/
structure Orderly (a : Step α) : Prop where
  row : ∀ ctx w, w.method.InRow ctx.options.maxLocals → (a ctx w).2.method.InRow ctx.options.maxLocals
  blind : ∀ ctx w t, ∃ t', a ctx { w with trail := t } = ((a ctx w).1, { (a ctx w).2 with trail := t' })

/-- The step keeps the locals in their row, and a request explains where it fails. -/
def Mild (a : Step α) : Prop := (∀ ctx w, Meets ctx a w fun _ _ => True) ∧ Orderly a

theorem Orderly.bind (first : Orderly a) (rest : ∀ x, Orderly (f x)) : Orderly (a >>= f) := by
  have run ctx w : (a >>= f) ctx w = _ := Yields.run_bind (a := a ctx) (f := fun x => f x ctx) (s := w)
  constructor
  · intro ctx w row
    have kept := first.row ctx w row
    rw [run, show (a ctx).run w = a ctx w from rfl]
    generalize a ctx w = result at kept ⊢
    obtain ⟨_ | x, v⟩ := result
    · exact kept
    · exact (rest x).row ctx v kept
  · intro ctx w t
    obtain ⟨t', same⟩ := first.blind ctx w t
    rw [run, run, show (a ctx).run w = a ctx w from rfl, show (a ctx).run { w with trail := t } = _ from same]
    rcases a ctx w with ⟨_ | x, v⟩
    · exact ⟨t', rfl⟩
    · exact (rest x).blind ctx v t'

theorem Meets.imp (h : Meets ctx a w good) (more : ∀ x v, good x v → good' x v) : Meets ctx a w good' :=
  ClassForge.Meets.imp h more

theorem Meets.gives (h : Meets ctx a w good) {v : Work} (run : Gives ctx a w x v) : good x v :=
  ClassForge.Meets.yields h run

theorem Mild.meets (h : Mild a) (ends : ∀ x v, Gives ctx a w x v → good x v) : Meets ctx a w good :=
  ClassForge.Meets.of_yields (h.1 ctx w) ends

@[simp] theorem meets_pure : Meets ctx (pure x) w good ↔ good x w := .rfl

@[simp] theorem meets_throw : Meets ctx (throw e) w good ↔ e.isInternal = false := .rfl

@[simp] theorem meets_bind {good : β → Work → Prop} :
    Meets ctx (a >>= f) w good ↔ Meets ctx a w fun x v => Meets ctx (f x) v good :=
  ClassForge.meets_bind

@[simp] theorem meets_map {good : β → Work → Prop} :
    Meets ctx (f <$> a) w good ↔ Meets ctx a w fun x v => good (f x) v := ClassForge.meets_map

theorem meets_ite [Decidable c] :
    Meets ctx (if c then a else b) w good ↔ (c → Meets ctx a w good) ∧ (¬ c → Meets ctx b w good) := by
  by_cases h : c <;> simp [h]

theorem meets_else [Decidable c] (refused : Meets ctx a w good) (next : ¬ c → Meets ctx b w good) :
    Meets ctx (if c then a else b) w good := meets_ite.mpr ⟨fun _ => refused, next⟩

theorem meets_refuse [Decidable c] : Meets ctx (if c then (throw e : Step PUnit) >>= fun _ => b else b) w good ↔
    (c → e.isInternal = false) ∧ (¬ c → Meets ctx b w good) := by
  by_cases h : c <;> simp [h]

@[simp] theorem meets_read {good : Context → Work → Prop} : Meets ctx read w good ↔ good ctx w := .rfl

@[simp] theorem meets_method {good : Method → Work → Prop} : Meets ctx method w good ↔ good w.method w := .rfl

@[simp] theorem meets_update {good : Unit → Work → Prop} :
    Meets ctx (update f) w good ↔ good () { w with method := f w.method } := .rfl

@[simp] theorem meets_code {a : Code.Action α} : Meets ctx (code a) w good ↔
    ClassForge.Meets (fun e : Code.Fault => e.isInternal = false) a w.method.code fun x c =>
      good x { w with method := { w.method with code := c } } := by
  unfold Meets ClassForge.Meets code
  simp only [ExceptT.run]
  cases a w.method.code with
  | mk r c => cases r <;> rfl

@[simp] theorem meets_top {good : Frame → Work → Prop} : Meets ctx top w good ↔ good w.method.top w := .rfl

@[simp] theorem meets_pos {good : Nat → Work → Prop} : Meets ctx pos w good ↔ good w.method.code.pos w := .rfl

@[simp] theorem meets_localAt {good : Local → Work → Prop} :
    Meets ctx (localAt id) w good ↔ good (w.method.locals.getD id default) w := .rfl

@[simp] theorem meets_isAssigned {good : Bool → Work → Prop} :
    Meets ctx (isAssigned id) w good ↔ good (w.method.top.assigned.contains id) w := .rfl

section

variable {good : Unit → Work → Prop} {id : Nat}

@[simp] theorem meets_setTop : Meets ctx (setTop f) w good ↔
    good () { w with method := { w.method with frames := f :: w.method.frames.tail } } := .rfl

@[simp] theorem meets_close : Meets ctx close w good ↔ good () { w with method := { w.method with
    frames := { w.method.top with closed := true } :: w.method.frames.tail } } := .rfl

@[simp] theorem meets_assign : Meets ctx (assign id) w good ↔ good () { w with method := { w.method with
    frames := { w.method.top with assigned := w.method.top.assigned.insert id } :: w.method.frames.tail } } := .rfl

@[simp] theorem meets_openScope : Meets ctx (openScope scope) w good ↔
    good () { w with method := { w.method with
      frames := Frame.mk scope w.method.top.assigned w.method.top.assigned none false w.method.nodes.size ::
        w.method.frames } } := .rfl

@[simp] theorem meets_mark : Meets ctx (mark kind depth text) w good ↔
    good () ⟨{ w.method with
        statements := w.method.statements + 1
        lines := addLine w.method.lines w.method.code.pos (w.line + 1)
        rendered := w.method.rendered.push ⟨depth, text⟩ },
      w.pool, w.line + 1, w.trail.record (.statement w.method.number kind text)⟩ := .rfl

@[simp] theorem meets_reserve : Meets ctx (reserve words) w good ↔
    good () { w with method := { w.method with maxStack := max w.method.maxStack words } } := .rfl

@[simp] theorem meets_own : Meets ctx (own t) w good ↔ good () { w with method := { w.method with
    nodes := w.method.nodes.modify t.id fun n => { n with subsumed := true } } } := .rfl

@[simp] theorem meets_consume : Meets ctx (consume t) w good ↔
    good () { w with method := { w.method with
      nodes := w.method.nodes.modify t.id fun n => { n with consumed := true } } } := .rfl

end

/-! Steps that write no code fail only where a request explains it. -/

@[grind ←] theorem mild_pure (x : α) : Mild (pure x) :=
  ⟨fun _ _ => trivial, fun _ _ => id, fun _ _ _ => ⟨_, rfl⟩⟩

@[grind ←] theorem mild_throw (h : e.isInternal = false) : Mild (throw e : Step α) :=
  ⟨fun _ _ => h, fun _ _ => id, fun _ _ _ => ⟨_, rfl⟩⟩

@[grind ←] theorem mild_bind (first : Mild a) (rest : ∀ x, Mild (f x)) :
    Mild (a >>= f) :=
  ⟨fun ctx w => meets_bind.mpr ((first.1 ctx w).imp fun x v _ => (rest x).1 ctx v), first.2.bind fun x => (rest x).2⟩

theorem orderly_update (same : ∀ m, (f m).row = m.row ∧ (f m).nextSlot = m.nextSlot) : Orderly (update f) := by
  refine ⟨?_, fun _ _ _ => ⟨_, rfl⟩⟩
  rintro ctx w ⟨packed, room⟩
  obtain ⟨row, next⟩ := same w.method
  exact ⟨row ▸ next ▸ packed, (congrArg Int.ofNat next).trans_le room⟩

@[grind ←] theorem mild_read : Mild read :=
  ⟨fun _ _ => trivial, fun _ _ => id, fun _ _ _ => ⟨_, rfl⟩⟩

@[grind ←] theorem mild_method : Mild method :=
  ⟨fun _ _ => trivial, fun _ _ => id, fun _ _ _ => ⟨_, rfl⟩⟩

@[grind ←] theorem mild_localAt (id : Nat) : Mild (localAt id) :=
  ⟨fun _ _ => trivial, fun _ _ row => row, fun _ _ _ => ⟨_, rfl⟩⟩

@[grind ←] theorem mild_isAssigned (id : Nat) : Mild (isAssigned id) :=
  ⟨fun _ _ => trivial, fun _ _ row => row, fun _ _ _ => ⟨_, rfl⟩⟩

@[grind ←] theorem mild_node (e : Expr) (operands : List Term) : Mild (node e operands) :=
  ⟨fun _ _ => trivial, fun _ _ => id, fun _ _ _ => ⟨_, rfl⟩⟩

@[grind ←] theorem mild_replace (t : Term) (e : Expr) : Mild (replace t e) :=
  ⟨fun _ _ => trivial, fun _ _ => id, fun _ _ _ => ⟨_, rfl⟩⟩

@[grind ←] theorem mild_own (t : Term) : Mild (own t) :=
  ⟨fun _ _ => trivial, fun _ _ => id, fun _ _ _ => ⟨_, rfl⟩⟩

@[grind ←] theorem mild_mark (kind : String) (depth : Nat) (text : String) : Mild (mark kind depth text) :=
  ⟨fun _ _ => trivial, fun _ _ => id, fun _ _ _ => ⟨_, rfl⟩⟩

@[grind ←] theorem mild_reserve (words : Nat) : Mild (reserve words) :=
  ⟨fun _ _ => trivial, fun _ _ => id, fun _ _ _ => ⟨_, rfl⟩⟩

theorem explained_allocate (t : JType) (name : String) (hidden : Bool) :
    Meets ctx (allocate t name hidden) w fun _ _ => True := by
  simp only [allocate, meets_bind, meets_method, meets_read]
  split <;> trivial

@[grind ←] theorem mild_pool (a : Pool.Action α) : Mild (pool a) := by
  refine ⟨fun ctx w => ?_, fun _ _ => id, fun _ _ _ => ⟨_, rfl⟩⟩
  unfold Meets ClassForge.Meets pool
  simp only [ExceptT.run]
  cases a w.pool with
  | mk r p => cases r <;> trivial

theorem mild_ofExcept {r : Except Fault α} (h : ∀ e, r = .error e → e.isInternal = false) : Mild (ofExcept r) := by
  cases r with
  | ok x => exact mild_pure x
  | error e => exact mild_throw (h e rfl)

theorem checkName_mild (name : String) : ∀ e, checkName name = .error e → e.isInternal = false := by
  unfold checkName
  grind

theorem numberFor_mild (t : JType) (v : Literal) (whole : Option Int) (fraction : Option UInt64) :
    ∀ e, numberFor t v whole fraction = .error e → e.isInternal = false := by
  intro e failed
  unfold numberFor at failed
  generalize t.kind = k at failed
  cases k with
  | void | reference =>
    cases whole with
    | none =>
      cases failed
      rfl
    | some n =>
      dsimp only at failed
      split_ifs at failed
      cases failed
      rfl
  | prim p =>
    cases p <;> cases whole <;> cases fraction <;> simp [reduceCtorEq] at failed <;>
      first
        | cases failed; rfl
        | split_ifs at failed; cases failed; rfl

theorem constantFor_mild (t : JType) (v : Literal) : ∀ e, constantFor t v = .error e → e.isInternal = false := by
  unfold constantFor
  grind [numberFor_mild]

theorem choose_mild (p : Provider) (owner name : String) (candidates : List MethodInfo) :
    ∀ e, Overload.choose p owner name candidates = some (.error e) → e.isInternal = false := by
  unfold Overload.choose
  grind

theorem resolve_mild (c : Context) (owner name : String) (isStatic : Bool) (args : List JType) :
    ∀ e, Overload.resolve c owner name isStatic args = .error e → e.isInternal = false := by
  unfold Overload.resolve Overload.select Overload.among Overload.chosen Option.orElse Option.getD
  grind [choose_mild]

@[grind ←] theorem mild_claimFrom (position : Nat) (seen : List Nat) (operands : List Operand) :
    Mild (claimFrom position seen operands) := by
  induction operands generalizing position seen with
  | nil => exact mild_pure _
  | cons o operands ih => cases o <;> unfold claimFrom <;> grind

@[grind ←] theorem mild_claimAll (operands : List Operand) : Mild (claimAll operands) := mild_claimFrom _ _ _

@[grind ←] theorem mild_claim (a : Operand) : Mild (claim a) := by
  unfold claim
  grind

@[grind ←] theorem mild_claim2 (a b : Operand) : Mild (claim2 a b) := by
  unfold claim2
  grind

@[grind ←] theorem mild_claim3 (a b c : Operand) : Mild (claim3 a b c) := by
  unfold claim3
  grind

@[grind ←] theorem mild_ownLocal (l : LocalArg) : Mild (ownLocal l) := by
  unfold ownLocal
  grind

@[grind ←] theorem mild_convert (e : Term) (t : JType) : Mild (convert e t) := by
  unfold convert
  grind

@[grind ←] theorem mild_retype (e : Term) (t : JType) : Mild (retype e t) := by
  unfold retype
  grind

@[grind ←] theorem mild_target (op : Opcode) (owner : String) (isInterface : Bool) (name : String) (ret : JType)
    (params : List JType) : Mild (target op owner isInterface name ret params) := by
  unfold target
  grind

@[grind ←] theorem mild_box (e : Term) : Mild (box e) := by
  unfold box
  grind

@[grind ←] theorem mild_unbox (e : Term) : Mild (unbox e) := by
  unfold unbox
  grind

@[grind ←] theorem mild_unboxed (e : Term) : Mild (unboxed e) := by
  unfold unboxed
  grind

@[grind ←] theorem mild_isAssignable (s t : JType) : Mild (isAssignable s t) :=
  ⟨fun _ _ => trivial, fun _ _ => id, fun _ _ _ => ⟨_, rfl⟩⟩

@[grind ←] theorem mild_assignConv (e : Term) (t : JType) : Mild (assignConv e t) := by
  unfold assignConv
  grind

@[grind ←] theorem mild_isInterfaceType (t : JType) : Mild (isInterfaceType t) := by
  unfold isInterfaceType
  grind

@[grind ←] theorem mild_checkCast (e : Term) (t : JType) : Mild (checkCast e t) := by
  unfold checkCast
  grind

@[grind ←] theorem mild_castConv (e : Term) (t : JType) : Mild (castConv e t) := by
  unfold castConv
  split_ifs <;> grind

@[grind ←] theorem mild_resolve (owner name : String) (isStatic : Bool) (args : List Term) :
    Mild (resolve owner name isStatic args) :=
  mild_bind mild_read fun ctx => mild_ofExcept (resolve_mild ctx _ _ _ _)

@[grind ←] theorem mild_naming (position : Nat) (signature : String) (h : Mild a) : Mild (naming position signature a) := by
  refine ⟨fun ctx w => ?_, fun ctx w row => ?_, fun ctx w t => ?_⟩
  · unfold Meets ClassForge.Meets naming
    simp only [ExceptT.run]
    cases a ctx w with
    | mk r v => cases r <;> trivial
  · have kept := h.2.row ctx w row
    unfold naming
    generalize a ctx w = result at kept ⊢
    obtain ⟨_ | x, v⟩ := result <;> exact kept
  · obtain ⟨t', same⟩ := h.2.blind ctx w t
    unfold naming
    rw [same]
    obtain ⟨_ | x, v⟩ := a ctx w <;> exact ⟨t', rfl⟩

@[grind ←] theorem mild_coerceFrom (position : Nat) (signature : String) (args : List Term) (params : List JType) :
    Mild (coerceFrom position signature args params) := by
  induction args generalizing position params with
  | nil => exact mild_pure _
  | cons a args ih => cases params <;> unfold coerceFrom <;> grind

@[grind ←] theorem mild_coerceArgs (m : MethodInfo) (args : List Term) : Mild (coerceArgs m args) :=
  mild_coerceFrom _ _ _ _

@[grind ←] theorem mild_lookup (name : String) : Mild (lookup name) := by
  unfold lookup
  grind

@[grind ←] theorem mild_invoke (m : MethodInfo) (receiver : Option Term) (special : Bool) (args : List Term) :
    Mild (invoke m receiver special args) := by
  unfold invoke
  grind

@[grind ←] theorem mild_field (owner : JType) (name : String) (isStatic : Bool) : Mild (field owner name isStatic) := by
  unfold field
  grind

@[grind ←] theorem mild_checkFinal (f : FieldInfo) : Mild (checkFinal f) := by
  unfold checkFinal
  grind

theorem mild_const (v : Literal) : Mild (const v) := by
  unfold const
  grind [mild_ofExcept, constantFor_mild]

theorem mild_receiver : Mild receiver := by
  unfold receiver
  grind

@[grind ←] theorem mild_localRead (id : Nat) : Mild (localRead id) :=
  ⟨fun _ _ => trivial, fun _ _ row => row, fun _ _ _ => ⟨_, rfl⟩⟩

theorem mild_getLocal (l : LocalArg) : Mild (getLocal l) := by
  unfold getLocal
  grind

@[grind ←] theorem mild_arrayIndex (array index : Term) : Mild (arrayIndex array index) := by
  unfold arrayIndex
  grind

@[grind ←] theorem mild_promoted (symbol : String) (a b : Term) : Mild (promoted symbol a b) := by
  unfold promoted
  grind

@[grind ←] theorem mild_concat (a b : Term) : Mild (concat a b) := by
  unfold concat
  grind

@[grind ←] theorem mild_condition (e : Term) : Mild (condition e) := by
  unfold condition
  grind

@[grind ←] theorem mild_arithmetic (op : BinaryOp) (left right : Operand) : Mild (arithmetic op left right) := by
  unfold arithmetic
  grind

@[grind ←] theorem mild_bitwise (op : BinaryOp) (left right : Operand) : Mild (bitwise op left right) := by
  unfold bitwise
  grind

@[grind ←] theorem mild_shift (op : BinaryOp) (left right : Operand) : Mild (shift op left right) := by
  unfold shift
  grind

theorem mild_binary (op : BinaryOp) (left right : Operand) : Mild (binary op left right) := by
  cases op <;> unfold binary <;> grind

theorem mild_compare (cmp : Cmp) (left right : Operand) : Mild (compare cmp left right) := by
  unfold compare
  grind

theorem mild_call (object : Operand) (name : String) (args : List Operand) : Mild (call object name args) := by
  unfold call
  grind

theorem mild_build (b : Build) : Mild (build b) := by
  cases b with
  | const v => exact mild_const v
  | char n => exact mild_const (.integer .uint16 n)
  | self => exact mild_receiver
  | get l => exact mild_getLocal l
  | binary op a b => exact mild_binary op a b
  | compare c a b => exact mild_compare c a b
  | call r name args => exact mild_call r name args
  | _ =>
    simp only [build, staticGet, fieldGet, arrayGet, arrayLength, newArray, cast, instanceOf, nullTest, negate, complement,
      logic, callStatic, callSuper, create]
    grind

@[grind ←] theorem mild_top : Mild top := ⟨fun _ _ => trivial, fun _ _ => id, fun _ _ _ => ⟨_, rfl⟩⟩

@[grind ←] theorem mild_assign (id : Nat) : Mild (assign id) :=
  ⟨fun _ _ => trivial, fun _ _ row => row, fun _ _ _ => ⟨_, rfl⟩⟩

@[grind ←] theorem mild_test (c : Operand) : Mild (test c) := by
  unfold test
  grind

@[grind ←] theorem mild_chainExits (what : String) : Mild (chainExits what) := by
  unfold chainExits
  grind

theorem explained_hiddenLocal (t : JType) (name : String) : Meets ctx (hiddenLocal t name) w fun _ _ => True :=
  meets_bind.mpr ((explained_allocate t name true).imp fun _ _ _ => trivial)

@[grind ←] theorem mild_checkDangling (first : Nat) : Mild (checkDangling first) := by
  unfold checkDangling
  grind

@[grind ←] theorem mild_implicitSuper : Mild implicitSuper := by
  unfold implicitSuper
  grind

theorem mild_prologue : Mild prologue := by
  unfold prologue
  grind

end Step

end Assembler

end ClassForge

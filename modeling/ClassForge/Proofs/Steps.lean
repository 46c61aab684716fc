import ClassForge.Assembler.Method
import ClassForge.Proofs.Yields
import Mathlib.Tactic.SplitIfs

/-! What the primitive steps in a method change. -/

namespace ClassForge.Assembler

namespace Step

variable {α β : Type} {ctx : Context} {w w' : Work} {a : Step α} {x y : α}

def Gives (ctx : Context) (a : Step α) (w : Work) (x : α) (w' : Work) : Prop := Yields (a ctx) w x w'

@[simp] theorem gives_pure : Gives ctx (pure x) w y w' ↔ x = y ∧ w = w' := Yields.pure_iff

@[simp] theorem gives_bind {y : β} :
    Gives ctx (a >>= f) w y w' ↔ ∃ x v, Gives ctx a w x v ∧ Gives ctx (f x) v y w' :=
  Yields.bind_iff

@[simp] theorem gives_map {y : β} : Gives ctx (f <$> a) w y w' ↔ ∃ x, Gives ctx a w x w' ∧ f x = y := by
  rw [← bind_pure_comp, gives_bind]
  simp

@[simp] theorem gives_throw : Gives ctx (throw e) w y w' ↔ False := Yields.throw_iff

@[simp] theorem gives_read {y : Context} : Gives ctx read w y w' ↔ ctx = y ∧ w = w' :=
  Yields.pure_iff

@[simp] theorem gives_modify {y : PUnit} : Gives ctx (modify f) w y w' ↔ f w = w' :=
  Yields.modify_iff

@[simp] theorem gives_ofExcept : Gives ctx (ofExcept r) w y w' ↔ r = .ok y ∧ w = w' := by
  cases r <;> simp [ofExcept]

@[simp] theorem gives_method {y : Method} : Gives ctx method w y w' ↔ w.method = y ∧ w = w' :=
  Yields.pure_iff

@[simp] theorem gives_update {y : Unit} :
    Gives ctx (update f) w y w' ↔ { w with method := f w.method } = w' :=
  Yields.modify_iff

@[simp] theorem gives_pool {a : Pool.Action α} :
    Gives ctx (pool a) w y w' ↔ ∃ p, Yields a w.pool y p ∧ { w with pool := p } = w' := by
  change (_, (⟨w.method, (a w.pool).2, w.line, w.trail⟩ : Work)) = _ ↔ ∃ p, a w.pool = _ ∧ _
  rcases a w.pool with ⟨_ | _, p⟩
  · exact ⟨by rintro ⟨⟩, by rintro ⟨_, ⟨⟩, _⟩⟩
  · exact ⟨by rintro ⟨⟩; exact ⟨p, rfl, rfl⟩, by rintro ⟨_, ⟨⟩, rfl⟩; rfl⟩

@[simp] theorem gives_code {a : Code.Action α} : Gives ctx (code a) w y w' ↔
      ∃ c, Yields a w.method.code y c ∧ { w with method := { w.method with code := c } } = w' := by
  change (_, ({ w with method := { w.method with code := (a w.method.code).2 } } : Work)) = _ ↔
    ∃ c, a w.method.code = _ ∧ _
  rcases a w.method.code with ⟨_ | _, c⟩
  · exact ⟨by rintro ⟨⟩, by rintro ⟨_, ⟨⟩, _⟩⟩
  · exact ⟨by rintro ⟨⟩; exact ⟨c, rfl, rfl⟩, by rintro ⟨_, ⟨⟩, rfl⟩; rfl⟩

theorem coded {a : Code.Action α} {p : α → Work → Prop} : (∃ x v, Gives ctx (code a) w x v ∧ p x v) ↔
    ∃ x c, Yields a w.method.code x c ∧ p x { w with method := { w.method with code := c } } := by
  simp only [gives_code]
  exact ⟨fun ⟨x, _, ⟨c, ran, same⟩, h⟩ => ⟨x, c, ran, same ▸ h⟩, fun ⟨x, c, ran, h⟩ => ⟨x, _, ⟨c, ran, rfl⟩, h⟩⟩

section

variable {c : Prop} [Decidable c]

theorem gives_ite : Gives ctx (if c then a else b) w y w' ↔ c ∧ Gives ctx a w y w' ∨ ¬ c ∧ Gives ctx b w y w' := by
  by_cases h : c <;> simp [h]

@[simp] theorem gives_unless : Gives ctx (if c then throw e else a) w y w' ↔ ¬ c ∧ Gives ctx a w y w' := by
  by_cases h : c <;> simp [h]

@[simp] theorem gives_where : Gives ctx (if c then a else throw e) w y w' ↔ c ∧ Gives ctx a w y w' := by
  by_cases h : c <;> simp [h]

end

end Step

def Method.top (m : Method) : Frame := m.frames.headD default

namespace Step

variable {α β : Type} {ctx : Context} {w w' : Work} {y : Unit} {id n : Nat} {name : String} {x : Term}

theorem gives_look {f : Method → α} {x : α} : Gives ctx (do return f (← method)) w x w' ↔ f w.method = x ∧ w = w' := by
  simp only [gives_bind, gives_method, gives_pure, looked]

@[simp] theorem gives_pos : Gives ctx pos w n w' ↔ w.method.code.pos = n ∧ w = w' := gives_look

@[simp] theorem gives_top : Gives ctx top w f w' ↔ w.method.top = f ∧ w = w' := gives_look

@[simp] theorem gives_localAt :
    Gives ctx (localAt id) w l w' ↔ w.method.locals.getD id default = l ∧ w = w' := gives_look

@[simp] theorem gives_isAssigned {b : Bool} :
    Gives ctx (isAssigned id) w b w' ↔ w.method.top.assigned.contains id = b ∧ w = w' := by
  simp [isAssigned, and_comm]

@[simp] theorem gives_setTop :
    Gives ctx (setTop f) w y w' ↔
      { w with method := { w.method with frames := f :: w.method.frames.tail } } = w' := gives_update

@[simp] theorem gives_close :
    Gives ctx close w y w' ↔ { w with method := { w.method with
      frames := { w.method.top with closed := true } :: w.method.frames.tail } } = w' := by
  simp [close, and_assoc]

@[simp] theorem gives_assign :
    Gives ctx (assign id) w y w' ↔ { w with method := { w.method with
      frames := { w.method.top with assigned := w.method.top.assigned.insert id } ::
        w.method.frames.tail } } = w' := by
  simp [assign, and_assoc]

@[simp] theorem gives_openScope {scope : Scope} :
    Gives ctx (openScope scope) w y w' ↔ { w with method := { w.method with
      frames := Frame.mk scope w.method.top.assigned w.method.top.assigned none false w.method.nodes.size ::
        w.method.frames } } = w' := by
  simp [openScope, and_assoc]

@[simp] theorem gives_render : Gives ctx (render depth text) w y w' ↔
      { w with method := { w.method with rendered := w.method.rendered.push ⟨depth, text⟩ } } = w' :=
  gives_update

@[simp] theorem gives_mark : Gives ctx (mark kind depth text) w y w' ↔
      ⟨{ w.method with
          statements := w.method.statements + 1
          lines := addLine w.method.lines w.method.code.pos (w.line + 1)
          rendered := w.method.rendered.push ⟨depth, text⟩ },
        w.pool, w.line + 1, w.trail.record (.statement w.method.number kind text)⟩ = w' :=
  gives_modify

@[simp] theorem gives_reserve : Gives ctx (reserve words) w y w' ↔
      { w with method := { w.method with maxStack := max w.method.maxStack words } } = w' :=
  gives_update

theorem gives_allocate {hidden : Bool} : Gives ctx (allocate type name hidden) w id w' ↔
      w.method.fits ctx.options.maxLocals (type.resolve ctx.name) = true ∧ w.method.locals.size = id ∧
        { w with method := w.method.addLocal (type.resolve ctx.name) name false hidden } = w' := by
  simp only [allocate, gives_bind, gives_read, gives_method, looked]
  split_ifs with fits
  · simp only [gives_bind, gives_method, gives_update, gives_pure, looked, passed, fits, true_and]
  · simp [fits]

def owned (ids : List Nat) (owner : Nat) (nodes : Array Node) : Array Node :=
  ids.foldl (fun ns i => ns.modify i fun n => { n with subsumed := true, parent := some owner }) nodes

@[simp] theorem gives_node {operands : List Term} :
    Gives ctx (node expr operands) w t w' ↔ ⟨w.method.nodes.size, expr⟩ = t ∧
      { w with method := { w.method with
        nodes := (owned (operands.map (·.id)) w.method.nodes.size w.method.nodes).push
          { expr, operands := operands.map (·.id) } } } = w' := by
  simp only [node, gives_bind, gives_method, gives_update, gives_pure, looked, passed]
  rfl

@[simp] theorem gives_own :
    Gives ctx (own t) w y w' ↔ { w with method := { w.method with
      nodes := w.method.nodes.modify t.id fun n => { n with subsumed := true } } } = w' :=
  gives_update

@[simp] theorem gives_consume :
    Gives ctx (consume t) w y w' ↔ { w with method := { w.method with
      nodes := w.method.nodes.modify t.id fun n => { n with consumed := true } } } = w' :=
  gives_update

@[simp] theorem gives_replace :
    Gives ctx (replace t expr) w x w' ↔ ⟨t.id, expr⟩ = x ∧ { w with method := { w.method with
      nodes := w.method.nodes.modify t.id fun n => { n with expr } } } = w' := by
  simp [replace, and_comm]

end Step

end ClassForge.Assembler

import ClassForge.Proofs.Promotion
import ClassForge.Proofs.RoundTrip

/-! Expressions that calls build: what they were asked to mean is what their code computes. -/

namespace ClassForge.Assembler

open Machine JType Prim

def Draft.Reached (d : Draft) : Prop :=
  ∃ (p : Provider) (access : Access) (name super : String) (interfaces : List String) (options : Options)
    (tracer : Tracer) (recorder : Trace.Recorder) (first : Draft) (calls : List (Provider × Call)),
    create p access name super interfaces options tracer = (.ok first, recorder) ∧ first.after calls = d

/-- On a request in a method `m` a call built `e`. The class had the entries of `q` then. -/
def Asked (q : Pool) (b : Build) (m : Method) (e : Expr) : Prop :=
  ∃ (d d' : Draft) (p : Provider) (i n : Nat) (m' : Method) (node : Node), d.Reached ∧ d.build p i b = (.ok n, d') ∧
    d.methods[i]? = some m ∧ d'.methods[i]? = some m' ∧ m'.nodes[n]? = some node ∧ node.expr = e ∧ d'.pool.Le q

/-- What an integer of a width means: `int` covers what fits it, `long` the rest. -/
def Literal.integerExpr? : IntWidth → Int → Option Java.Expr
  | .int8, n | .int16, n | .uint16, n | .int32, n => some (.int (Int32.ofInt n))
  | .int, n => some (if n < -2147483648 ∨ 2147483647 < n then .long (Int64.ofInt n) else .int (Int32.ofInt n))
  | .int64, n => some (.long (Int64.ofInt n))
  | .uint8, _ | .uint32, _ | .uint64, _ => none

/-- What a literal means, where it is a truth value, a number without a fraction or null. -/
def Literal.expr? : Literal → Option Java.Expr
  | .null => some .null
  | .bool b => some (.bool b)
  | .integer w n => integerExpr? w n
  | _ => none

/-- Operands that a comparison takes as they are: two numbers or truth values, or two references,
for equality only. -/
def Cmp.Takes (cmp : Cmp) (a b : JType) : Prop :=
  a.isPrimitive = true ∧ b.isPrimitive = true ∨ cmp.isEquality = true ∧ a.isReference = true ∧ b.isReference = true

/-- Calls built the expression, and it was asked to mean this. Operands of arithmetic are primitive. -/
inductive Built (q : Pool) : Expr → Java.Expr → Prop
  | const {v : Literal} {m : Method} {e : Expr} {s : Java.Expr} :
    Asked q (.const v) m e → v.expr? = some s → Built q e s
  | char {code : Int} {m : Method} {e : Expr} : Asked q (.char code) m e → Built q e (.int (Int32.ofInt code))
  | get {id : Nat} {m : Method} {e : Expr} {l : Local} :
    Asked q (.get (.local id)) m e → m.locals[id]? = some l → l.type.kind.isDiscrete = true → Built q e (.get l.slot)
  | neg {a : Nat} {m : Method} {e : Expr} {x : Node} {s : Java.Expr} :
    Asked q (.negate (.node a)) m e → m.nodes[a]? = some x → x.expr.type.isPrimitive = true → Built q x.expr s →
    Built q e (.neg s)
  | cast {a : Nat} {t : JType} {p : Prim} {m : Method} {e : Expr} {x : Node} {s : Java.Expr} :
    Asked q (.cast (.node a) t) m e → m.nodes[a]? = some x → x.expr.type.kind.isIntegral = true → t.kind = .prim p →
    (Kind.prim p).isIntegral = true → Built q x.expr s → Built q e (.cast p s)
  | binary {op : BinaryOp} {a b : Nat} {m : Method} {e : Expr} {x y : Node} {s t : Java.Expr} :
    Asked q (.binary op (.node a) (.node b)) m e → op ∉ [BinaryOp.div, .rem] → m.nodes[a]? = some x →
    m.nodes[b]? = some y → x.expr.type.isPrimitive = true → y.expr.type.isPrimitive = true → Built q x.expr s →
    Built q y.expr t → Built q e (.binary op s t)
  | compare {cmp : Cmp} {a b : Nat} {m : Method} {e : Expr} {x y : Node} {s t : Java.Expr} :
    Asked q (.compare cmp (.node a) (.node b)) m e → m.nodes[a]? = some x → m.nodes[b]? = some y →
    cmp.Takes x.expr.type y.expr.type → Built q x.expr s → Built q y.expr t → Built q e (.compare cmp s t)
  | isNull {expected : Bool} {a : Nat} {m : Method} {e : Expr} {x : Node} {s : Java.Expr} :
    Asked q (.nullTest (if expected then .eq else .ne) (.node a)) m e → m.nodes[a]? = some x → Built q x.expr s →
    Built q e (.isNull expected s)
  | not {a : Nat} {m : Method} {e : Expr} {x : Node} {s : Java.Expr} :
    Asked q (.not (.node a)) m e → m.nodes[a]? = some x → x.expr.type.isPrimitive = true → Built q x.expr s →
    Built q e (.not s)
  | logic {conj : Bool} {a b : Nat} {m : Method} {e : Expr} {x y : Node} {s t : Java.Expr} :
    Asked q (.logic conj (.node a) (.node b)) m e → m.nodes[a]? = some x → m.nodes[b]? = some y →
    x.expr.type.isPrimitive = true → y.expr.type.isPrimitive = true → Built q x.expr s → Built q y.expr t →
    Built q e (.logic conj s t)

namespace Step

variable {w : Work} {x e : Term} {t : JType} {i j : Nat} {n : Node}

def Noted (w : Work) (x : Term) : Prop := ∃ n, w.method.nodes[x.id]? = some n ∧ n.expr = x.expr

theorem of_node (run : Gives ctx (node expr operands) w x w') : x.expr = expr ∧ Noted w' x ∧ w'.pool = w.pool := by
  obtain ⟨rfl, rfl⟩ := gives_node.mp run
  refine ⟨rfl, ⟨{ expr, operands := operands.map (·.id) }, ?_, rfl⟩, rfl⟩
  dsimp only
  rw [Array.getElem?_push, if_pos (size_owned _ _ _).symm]

theorem of_convert (run : Gives ctx (convert e t) w x w') : x.expr = e.expr.widened t ∧ w'.pool = w.pool := by
  unfold convert at run
  unfold Expr.widened
  rw [← Term.type]
  split_ifs at run ⊢ with same
  · obtain ⟨rfl, rfl⟩ := gives_pure.mp run
    exact ⟨rfl, rfl⟩
  · obtain ⟨made, -, pool⟩ := of_node run
    exact ⟨made, pool⟩

theorem of_unboxed (run : Gives ctx (unboxed e) w x w') (primitive : e.type.isPrimitive = true) : e = x ∧ w = w' := by
  have plain : ¬ e.type.unbox.isSome = true := by
    intro wraps
    obtain ⟨u, opens⟩ := Option.isSome_iff_exists.mp wraps
    have reference := (of_unbox opens).2
    obtain ⟨p, same⟩ := exists_eq_ofPrim primitive
    rw [same] at reference
    cases reference
  rw [unboxed, if_neg plain] at run
  exact gives_pure.mp run

theorem of_condition (run : Gives ctx (condition e) w x w') (primitive : e.type.isPrimitive = true) :
    e = x ∧ w = w' ∧ e.type = .boolean := by
  simp only [condition, gives_bind, gives_where, gives_pure] at run
  obtain ⟨u, v, opens, boolean, rfl, rfl⟩ := run
  obtain ⟨rfl, rfl⟩ := of_unboxed opens primitive
  exact ⟨rfl, rfl, boolean⟩

theorem of_promoted (run : Gives ctx (promoted symbol a b) w r w') : a.type.promote b.type = some r.1 ∧ r.1 ≠ .boolean ∧
    r.2.1.expr = a.expr.widened r.1 ∧ r.2.2.expr = b.expr.widened r.1 ∧ w'.pool = w.pool := by
  unfold promoted at run
  split at run
  · rename_i t promotes
    simp only [gives_unless, gives_bind, gives_pure] at run
    obtain ⟨boolean, x, u, first, y, v, second, rfl, rfl⟩ := run
    obtain ⟨left, pool⟩ := of_convert first
    obtain ⟨right, pool'⟩ := of_convert second
    exact ⟨promotes, boolean, left, right, pool'.trans pool⟩
  · simp at run

theorem of_noted {expr e : Expr} (same : Noted w' x → x.expr = e)
    (run : Gives ctx (node expr operands) w x w') : e = expr := by
  obtain ⟨made, noted, -⟩ := of_node run
  exact (same noted).symm.trans made

theorem of_claim_node (run : Gives ctx (claim (.node i)) w x w') (found : w.method.nodes[i]? = some n) :
    x = ⟨i, n.expr⟩ ∧ w = w' := by
  obtain ⟨rfl, same, n', there, expr⟩ := of_claim run
  cases same
  cases found.symm.trans there
  exact ⟨by rw [expr], rfl⟩

theorem of_claim2_node (run : Gives ctx (claim2 (.node i) (.node j)) w r w') (left : w.method.nodes[i]? = some n)
    (right : w.method.nodes[j]? = some k) : r = (⟨i, n.expr⟩, ⟨j, k.expr⟩) ∧ w = w' := by
  obtain ⟨rfl, ⟨same, n', there, expr⟩, same', k', there', expr'⟩ := of_claim2 run
  cases same
  cases same'
  cases left.symm.trans there
  cases right.symm.trans there'
  exact ⟨by rw [expr, expr'], rfl⟩

end Step

namespace Asked

variable {q : Pool} {b : Build} {m : Method} {e : Expr} {x y : Node} {i j : Nat} {op : BinaryOp}

open Step

/-- The call ran the request on the method, and the expression is that of the node it gave. -/
theorem gives (h : Asked q b m e) : ∃ ctx w t w', w.method = m ∧ w.pool.Sound ∧ Gives ctx (Step.build b) w t w' ∧
    w'.pool.Le q ∧ (Noted w' t → t.expr = e) := by
  obtain ⟨d, d', p, i, n, m', node, ⟨_, _, _, _, _, _, _, _, first, calls, created, rfl⟩, run, found, found', there, rfl,
    le⟩ := h
  obtain ⟨before, ⟨⟨_, failed⟩, -⟩ | ⟨m1, t, w', -, here, -, same, gives, rfl⟩⟩ := Draft.of_build run Draft.fine_ok
  · cases failed
  have valid := (Draft.valid_create created).lax_after before
  cases same
  rw [found] at here
  cases here
  refine ⟨_, _, t, w', rfl, valid.pool, gives, le, ?_⟩
  rintro ⟨n, noted, same⟩
  have put : ((first.after calls).put i w').methods[i]? = some w'.method := by
    have lt := (Array.getElem?_eq_some_iff.mp found).1
    simp [Draft.put, lt]
  rw [put] at found'
  cases found'
  rw [noted] at there
  cases there
  exact same.symm

theorem negate (h : Asked q (.negate (.node i)) m e) (node : m.nodes[i]? = some x)
    (primitive : x.expr.type.isPrimitive = true) : x.expr.type.kind.isNumeric = true ∧
      e = .neg x.expr.type.promoteUnary (x.expr.widened x.expr.type.promoteUnary) := by
  obtain ⟨ctx, w, t, w', rfl, -, run, -, same⟩ := h.gives
  simp only [Step.build, Step.negate, gives_bind, gives_unless] at run
  obtain ⟨a, _, claims, u, _, opens, numeric, c, _, conv, run⟩ := run
  obtain ⟨rfl, rfl⟩ := of_claim_node claims node
  obtain ⟨rfl, rfl⟩ := of_unboxed opens primitive
  rw [of_noted same run, (of_convert conv).1]
  exact ⟨by simpa [Term.type] using numeric, rfl⟩

theorem cast (h : Asked q (.cast (.node i) t) m e) (node : m.nodes[i]? = some x)
    (source : x.expr.type.isPrimitive = true) (target : t.kind = .prim p) :
    e = .convert (.ofPrim p) [] false (x.expr.widened (.ofPrim p)) := by
  obtain ⟨ctx, w, c, w', rfl, -, run, -, same⟩ := h.gives
  simp only [Step.build, Step.cast, gives_bind, gives_read, looked] at run
  obtain ⟨a, _, claims, c, _, conv, run⟩ := run
  obtain ⟨rfl, rfl⟩ := of_claim_node claims node
  have resolved : t.resolve ctx.name = .ofPrim p := eq_ofPrim (by rw [kind_resolve, target])
  rw [of_noted same run, resolved]
  suffices c.expr = x.expr.widened (.ofPrim p) by rw [this]
  obtain ⟨r, type⟩ := exists_eq_ofPrim source
  rw [resolved, castConv, Term.type, type] at conv
  have both : ((ofPrim r).isPrimitive && (ofPrim p).isPrimitive) = true := rfl
  split_ifs at conv with void equal bools
  · simp at conv
  · obtain ⟨rfl, -⟩ := gives_pure.mp conv
    rw [Expr.widened, if_pos (type.trans equal)]
  · simp at conv
  · exact (of_convert conv).1

def shiftType (t : JType) : JType := if t.promoteUnary = .boolean then .int else t.promoteUnary

section

variable (left : m.nodes[i]? = some x) (right : m.nodes[j]? = some y) (primitiveX : x.expr.type.isPrimitive = true)
  (primitiveY : y.expr.type.isPrimitive = true)

include left right primitiveX primitiveY

theorem arithmetic (h : Asked q (.binary op (.node i) (.node j)) m e)
    (form : Step.build (.binary op (.node i) (.node j)) = Step.arithmetic op (.node i) (.node j)) :
    ∃ t, x.expr.type.promote y.expr.type = some t ∧ t ≠ .boolean ∧
      e = .binary t op (x.expr.widened t) (y.expr.widened t) := by
  obtain ⟨ctx, w, t, w', rfl, -, run, -, same⟩ := h.gives
  simp only [form, Step.arithmetic, gives_bind] at run
  obtain ⟨⟨a, b⟩, _, claims, run⟩ := run
  obtain ⟨⟨⟩, rfl⟩ := of_claim2_node claims left right
  split_ifs at run with text
  · simp only [Bool.and_eq_true, Bool.or_eq_true, decide_eq_true_eq] at text
    obtain ⟨-, (isText : x.expr.type = _) | (isText : y.expr.type = _)⟩ := text
    · rw [isText] at primitiveX
      cases primitiveX
    · rw [isText] at primitiveY
      cases primitiveY
  simp only [gives_bind] at run
  obtain ⟨ua, _, openA, ub, _, openB, ⟨r, ca, cb⟩, _, conv, run⟩ := run
  obtain ⟨rfl, rfl⟩ := of_unboxed openA primitiveX
  obtain ⟨rfl, rfl⟩ := of_unboxed openB primitiveY
  obtain ⟨promotes, number, convA, convB, -⟩ := of_promoted conv
  exact ⟨r, promotes, number, by rw [of_noted same run, convA, convB]⟩

theorem bitwise (h : Asked q (.binary op (.node i) (.node j)) m e)
    (form : Step.build (.binary op (.node i) (.node j)) = Step.bitwise op (.node i) (.node j)) :
    ∃ t, x.expr.type.promote y.expr.type = some t ∧ e = .binary t op (x.expr.widened t) (y.expr.widened t) := by
  obtain ⟨ctx, w, t, w', rfl, -, run, -, same⟩ := h.gives
  simp only [form, Step.bitwise, gives_bind] at run
  obtain ⟨⟨a, b⟩, _, claims, ua, _, openA, ub, _, openB, run⟩ := run
  obtain ⟨⟨⟩, rfl⟩ := of_claim2_node claims left right
  obtain ⟨rfl, rfl⟩ := of_unboxed openA primitiveX
  obtain ⟨rfl, rfl⟩ := of_unboxed openB primitiveY
  split at run
  · rename_i r promotes
    simp only [gives_where, gives_bind] at run
    obtain ⟨-, ca, _, convA, cb, _, convB, run⟩ := run
    exact ⟨r, promotes, by rw [of_noted same run, (of_convert convA).1, (of_convert convB).1]⟩
  · simp at run

theorem shift (h : Asked q (.binary op (.node i) (.node j)) m e)
    (form : Step.build (.binary op (.node i) (.node j)) = Step.shift op (.node i) (.node j)) :
    e = .binary (shiftType x.expr.type) op (x.expr.widened (shiftType x.expr.type)) (y.expr.widened .int) := by
  obtain ⟨ctx, w, t, w', rfl, -, run, -, same⟩ := h.gives
  simp only [form, Step.shift, gives_bind, gives_unless] at run
  obtain ⟨⟨a, b⟩, _, claims, ua, _, openA, ub, _, openB, -, -, run⟩ := run
  obtain ⟨⟨⟩, rfl⟩ := of_claim2_node claims left right
  obtain ⟨rfl, rfl⟩ := of_unboxed openA primitiveX
  obtain ⟨rfl, rfl⟩ := of_unboxed openB primitiveY
  rw [← shiftType] at run
  split at run
  · rename_i boolean
    change x.expr.type = _ at boolean
    -- a truth value is taken for the number that it is held as
    simp only [gives_bind, Term.type] at run
    obtain ⟨ca, _, convA, cb, _, convB, run⟩ := run
    have int : shiftType x.expr.type = .int := by rw [boolean]; decide
    have other : x.expr.type ≠ .int := by rw [boolean]; decide
    have nothing : convertOps x.expr.type.kind JType.int.kind = [] := by rw [boolean]; decide
    rw [int, retype, Term.type, if_neg other] at convA
    have widens : x.expr.widened .int = ca.expr := by
      rw [Expr.widened, if_neg other, nothing, (of_node convA).1]
    rw [of_noted same run, (of_convert convB).1, int, widens]
  · simp only [gives_bind, Term.type] at run
    obtain ⟨ca, _, convA, cb, _, convB, run⟩ := run
    rw [of_noted same run, (of_convert convA).1, (of_convert convB).1]

theorem compare {cmp : Cmp} (h : Asked q (.compare cmp (.node i) (.node j)) m e) :
    (x.expr.type = .boolean ∧ y.expr.type = .boolean ∧ e = .compare cmp x.expr y.expr) ∨
      ∃ t, x.expr.type.promote y.expr.type = some t ∧ t ≠ .boolean ∧
        e = .compare cmp (x.expr.widened t) (y.expr.widened t) := by
  obtain ⟨ctx, w, t, w', rfl, -, run, -, same⟩ := h.gives
  simp only [Step.build, Step.compare, gives_bind] at run
  obtain ⟨⟨a, b⟩, _, claims, run⟩ := run
  obtain ⟨⟨⟩, rfl⟩ := of_claim2_node claims left right
  have number : x.expr.type.isReference = false := by
    obtain ⟨p, prim⟩ := exists_eq_ofPrim primitiveX
    rw [prim]
    rfl
  split_ifs at run with references
  · simp [Term.type, number] at references
  · simp at run
  simp only [gives_bind] at run
  obtain ⟨ua, _, openA, ub, _, openB, run⟩ := run
  obtain ⟨rfl, rfl⟩ := of_unboxed openA primitiveX
  obtain ⟨rfl, rfl⟩ := of_unboxed openB primitiveY
  split_ifs at run with bools
  · simp only [Bool.and_eq_true, decide_eq_true_eq] at bools
    exact .inl ⟨bools.1.2, bools.2, of_noted same run⟩
  · simp only [gives_bind] at run
    obtain ⟨⟨r, ca, cb⟩, _, conv, run⟩ := run
    obtain ⟨promotes, number, convA, convB, -⟩ := of_promoted conv
    exact .inr ⟨r, promotes, number, by rw [of_noted same run, convA, convB]⟩

theorem logic (h : Asked q (.logic conj (.node i) (.node j)) m e) :
    x.expr.type = .boolean ∧ y.expr.type = .boolean ∧ e = .logic conj x.expr y.expr := by
  obtain ⟨ctx, w, t, w', rfl, -, run, -, same⟩ := h.gives
  simp only [Step.build, Step.logic, gives_bind] at run
  obtain ⟨⟨a, b⟩, _, claims, ca, _, checkA, cb, _, checkB, run⟩ := run
  obtain ⟨⟨⟩, rfl⟩ := of_claim2_node claims left right
  obtain ⟨rfl, rfl, boolA⟩ := of_condition checkA primitiveX
  obtain ⟨rfl, rfl, boolB⟩ := of_condition checkB primitiveY
  exact ⟨boolA, boolB, of_noted same run⟩

end

theorem compareRefs {cmp : Cmp} (h : Asked q (.compare cmp (.node i) (.node j)) m e) (left : m.nodes[i]? = some x)
    (right : m.nodes[j]? = some y) (equality : cmp.isEquality = true) (referenceX : x.expr.type.isReference = true)
    (referenceY : y.expr.type.isReference = true) : e = .compare cmp x.expr y.expr := by
  obtain ⟨ctx, w, t, w', rfl, -, run, -, same⟩ := h.gives
  simp only [Step.build, Step.compare, gives_bind] at run
  obtain ⟨⟨a, b⟩, _, claims, run⟩ := run
  obtain ⟨⟨⟩, rfl⟩ := of_claim2_node claims left right
  rw [if_pos (by simp [equality, Term.type, referenceX, referenceY])] at run
  exact of_noted same run

theorem nullTest {cmp : Cmp} (h : Asked q (.nullTest cmp (.node i)) m e) (node : m.nodes[i]? = some x) :
    x.expr.type.isReference = true ∧ e = .nullTest cmp x.expr := by
  obtain ⟨ctx, w, t, w', rfl, -, run, -, same⟩ := h.gives
  simp only [Step.build, Step.nullTest, gives_bind, gives_where] at run
  obtain ⟨a, _, claims, reference, run⟩ := run
  obtain ⟨rfl, rfl⟩ := of_claim_node claims node
  exact ⟨reference, of_noted same run⟩

theorem not (h : Asked q (.not (.node i)) m e) (node : m.nodes[i]? = some x)
    (primitive : x.expr.type.isPrimitive = true) : x.expr.type = .boolean ∧ e = .not x.expr := by
  obtain ⟨ctx, w, t, w', rfl, -, run, -, same⟩ := h.gives
  simp only [Step.build, complement, gives_bind] at run
  obtain ⟨a, _, claims, c, _, checks, run⟩ := run
  obtain ⟨rfl, rfl⟩ := of_claim_node claims node
  obtain ⟨rfl, rfl, boolean⟩ := of_condition checks primitive
  exact ⟨boolean, of_noted same run⟩

theorem get {id : Nat} {l : Local} (h : Asked q (.get (.local id)) m e) (found : m.locals[id]? = some l) :
    e = .local ⟨id, l.name, l.slot, l.type⟩ := by
  obtain ⟨ctx, w, t, w', rfl, -, run, -, same⟩ := h.gives
  simp only [Step.build, getLocal, gives_bind, gives_isAssigned, looked] at run
  obtain ⟨id', _, own, run⟩ := run
  obtain ⟨rfl, here, -⟩ := of_ownLocal own
  cases here
  split_ifs at run
  · simp only [gives_bind, gives_localRead, looked] at run
    rw [of_noted same run]
    simp [Array.getD_eq_getD_getElem?, found]
  · simp [gives_localAt] at run

theorem const (h : Asked q b m e) (request : Step.build b = Step.const v) (means : v.expr? = some s) : ∃ t value ref,
    e = .const t value ref ∧ v.constantType = some t ∧ constantFor t v = .ok value ∧ value.Entered q ref := by
  obtain ⟨ctx, w, x, w', rfl, sound, run, le, same⟩ := h.gives
  obtain ⟨t, value, ref, u, type, found, entry, run⟩ : ∃ t value ref u, v.constantType = some t ∧
      constantFor t v = .ok value ∧ Gives ctx (Step.pool value.intern) w ref u ∧
      Gives ctx (Step.node (.const t value ref) []) u x w' := by
    rw [request, Step.const] at run
    split at run
    · simp at run
    rename_i t type
    cases v with
    | null =>
      cases type
      simp only [gives_bind] at run
      obtain ⟨ref, u, entry, run⟩ := run
      exact ⟨_, .null, ref, u, rfl, rfl, entry, run⟩
    | bool | integer =>
      simp only [gives_bind, gives_ofExcept] at run
      obtain ⟨value, _, ⟨found, rfl⟩, ref, u, entry, run⟩ := run
      exact ⟨t, value, ref, u, type, found, entry, run⟩
    | _ => cases means
  obtain ⟨made, noted, pool⟩ := of_node run
  obtain ⟨p, ran, rfl⟩ := gives_pool.mp entry
  obtain ⟨-, entered⟩ := value.interns_entered.finds ran sound
  rw [pool] at le
  exact ⟨t, value, ref, by rw [← same noted, made], type, found, entered.mono le⟩

end Asked

variable {v : Literal} {value : Value} {n : Int}

structure Value.Stands (value : Value) (t : JType) (u : Java.Value) : Prop where
  has : u.Has t.kind
  discrete : t.kind.isDiscrete = true
  datum : Expr.constantDatum value = some u.datum
  null : t.isNull = true → u = .ref none

theorem numberFor_small (small : p ∈ [Prim.byte, .short, .char, .int])
    (found : numberFor (.ofPrim p) v (some n) none = .ok value) : value.Stands (.ofPrim p) (.int (Int32.ofInt n)) := by
  have bound : -2147483648 ≤ (intRange (.prim p)).1 ∧ (intRange (.prim p)).2 ≤ 2147483647 := by
    cases p <;> decide
  simp only [List.mem_cons, List.not_mem_nil, or_false] at small
  have checked : (if (intRange (.prim p)).1 ≤ n ∧ n ≤ (intRange (.prim p)).2 then .ok (.int (Int32.ofInt n))
      else .error (.constantRange v.numberText (.ofPrim p)) : Except Fault Value) = .ok value := by
    rcases small with rfl | rfl | rfl | rfl <;> exact found
  split_ifs at checked with range
  cases checked
  have same : (Int32.ofInt n).toInt = n := Int32.toInt_ofInt_of_le (by omega) (by omega)
  rw [← same] at range
  rcases small with rfl | rfl | rfl | rfl
  · exact ⟨range, rfl, rfl, by rintro ⟨⟩⟩
  · exact ⟨range, rfl, rfl, by rintro ⟨⟩⟩
  · exact ⟨range, rfl, rfl, by rintro ⟨⟩⟩
  · exact ⟨trivial, rfl, rfl, by rintro ⟨⟩⟩

theorem numberFor_long (found : numberFor .long v (some n) none = .ok value) :
    value.Stands .long (.long (Int64.ofInt n)) := by
  cases found
  exact ⟨trivial, rfl, rfl, by rintro ⟨⟩⟩

theorem Literal.constant_means (means : v.expr? = some s) (type : v.constantType = some t)
    (found : constantFor t v = .ok value) : ∃ u : Java.Value, (∀ env, s.eval env = u) ∧ value.Stands t u := by
  cases v with
  | null =>
    cases means
    cases type
    cases found
    exact ⟨.ref none, fun _ => rfl, trivial, rfl, rfl, fun _ => rfl⟩
  | bool b =>
    cases means
    cases type
    cases found
    exact ⟨.bool b, fun _ => rfl, trivial, rfl, rfl, by rintro ⟨⟩⟩
  | integer w n =>
    cases w with
    | int8 | int16 | uint16 | int32 =>
      cases means
      cases type
      exact ⟨_, fun _ => rfl, numberFor_small (by decide) found⟩
    | int64 =>
      cases means
      cases type
      exact ⟨_, fun _ => rfl, numberFor_long (v := .integer .int64 n) found⟩
    | int =>
      simp only [expr?, integerExpr?, constantType, Option.some.injEq] at means type
      split_ifs at means type with large
      · subst means type
        exact ⟨_, fun _ => rfl, numberFor_long (v := .integer .int n) found⟩
      · subst means type
        exact ⟨_, fun _ => rfl, numberFor_small (p := .int) (by decide) found⟩
    | uint8 | uint32 | uint64 => cases means
  | _ => cases means

namespace Expr

variable {t : JType}

theorem type_widened (e : Expr) (t : JType) : (e.widened t).type = t := by
  unfold widened
  split_ifs with same
  · exact same
  · rfl

@[simp] theorem reads_widened (e : Expr) (t : JType) : (e.widened t).reads = e.reads := by
  unfold widened
  split_ifs <;> simp [reads]

/-- The slots hold, as values of their types, what the environment says about the locals that are
read. -/
def Suits (e : Expr) (env : Nat → Java.Value) (slots : Nat → Datum) : Prop :=
  ∀ l ∈ e.reads, (env l.slot).Has l.type.kind ∧ slots l.slot = (env l.slot).datum

theorem suits_both {e a b : Expr} {env : ι → Nat → Java.Value} {view : ι → Nat → Datum}
    (left : (∀ x, a.Suits (env x) (view x)) → P) (right : (∀ x, b.Suits (env x) (view x)) → Q)
    (both : e.reads = a.reads ++ b.reads) (suits : ∀ x, e.Suits (env x) (view x)) : P ∧ Q :=
  ⟨left fun x l hl => suits x l (by simp [both, hl]), right fun x l hl => suits x l (by simp [both, hl])⟩

open Java

variable {ι : Type} {q : Pool} {view : ι → Nat → Datum} {u v : ι → Java.Value} {a b : Expr} {p r : Prim}
  {op : BinaryOp}

section

variable (ha : Means q view a u) (hb : Means q view b v) (typeA : a.type = .ofPrim p) (typeB : b.type = .ofPrim r)

include ha hb typeA typeB

theorem Means.promoted_arith (promotes : a.type.promote b.type = some t) (number : t ≠ .boolean)
 (known : arith? op = some o) : Means q view (.binary t op (a.widened t) (b.widened t)) fun x => (u x).binary op (v x) := by
  have kindA : a.type.kind = .prim p := congrArg JType.kind typeA
  have kindB : b.type.kind = .prim r := congrArg JType.kind typeB
  rw [typeA, typeB] at promotes
  rcases JType.promote_cases promotes (kindA ▸ ha.discrete) (kindB ▸ hb.discrete) with
    ⟨-, -, rfl⟩ | ⟨integralA, integralB, rfl⟩
  · exact absurd rfl number
  have integral := isIntegral_meet p r
  have same : (fun x => ((u x).castTo (p.meet r)).binary op ((v x).castTo (p.meet r))) =
      fun x => (u x).binary op (v x) :=
    funext fun x => Java.Value.binary_castTo (kindA ▸ ha.has x) (kindB ▸ hb.has x) integralA integralB
      (arith_on op known).1
  rw [← same]
  exact (ha.widened kindA integral).arith (hb.widened kindB integral) (congrArg JType.kind (type_widened a _))
    (congrArg JType.kind (type_widened b _)) (meet_forms p r) known

theorem Means.promoted_compare {cmp : Cmp} (promotes : a.type.promote b.type = some t) (number : t ≠ .boolean) :
    Means q view (.compare cmp (a.widened t) (b.widened t)) fun x => .bool ((u x).compare cmp (v x)) := by
  have kindA : a.type.kind = .prim p := congrArg JType.kind typeA
  have kindB : b.type.kind = .prim r := congrArg JType.kind typeB
  rw [typeA, typeB] at promotes
  rcases JType.promote_cases promotes (kindA ▸ ha.discrete) (kindB ▸ hb.discrete) with
    ⟨-, -, rfl⟩ | ⟨integralA, integralB, rfl⟩
  · exact absurd rfl number
  have same : (fun x => Java.Value.bool (((u x).castTo (p.meet r)).compare cmp ((v x).castTo (p.meet r)))) =
      fun x => .bool ((u x).compare cmp (v x)) :=
    funext fun x => congrArg Java.Value.bool
      (Java.Value.compare_castTo (kindA ▸ ha.has x) (kindB ▸ hb.has x) integralA integralB)
  rw [← same]
  have wideA := ha.widened kindA (isIntegral_meet p r)
  have wideB := hb.widened kindB (isIntegral_meet p r)
  have kindA' : (a.widened (.ofPrim (p.meet r))).type.kind = .prim (p.meet r) := congrArg JType.kind (type_widened a _)
  have kindB' : (b.widened (.ofPrim (p.meet r))).type.kind = .prim (p.meet r) := congrArg JType.kind (type_widened b _)
  rcases meet_forms p r with int | long
  · exact wideA.compareInts wideB kindA' kindB' (by rw [int]; rfl)
  · exact wideA.compareLongs wideB (long ▸ kindA') (long ▸ kindB')

theorem Means.promoted_shift (known : shift? op = some o) :
    Means q view (.binary (Asked.shiftType a.type) op (a.widened (Asked.shiftType a.type)) (b.widened .int))
      fun x => (u x).binary op (v x) := by
  have kindA : a.type.kind = .prim p := congrArg JType.kind typeA
  have kindB : b.type.kind = .prim r := congrArg JType.kind typeB
  have discrete : (Kind.prim p).isDiscrete = true := kindA ▸ ha.discrete
  have type : Asked.shiftType a.type = .ofPrim (p.meet .int) := by
    rw [typeA]
    revert discrete
    cases p <;> decide
  have same : (fun x => ((u x).castTo (p.meet .int)).binary op ((v x).castTo .int)) = fun x => (u x).binary op (v x) :=
    funext fun x => Java.Value.shift_castTo (kindA ▸ ha.has x) discrete (shift_on op known).1
  rw [type, ← same]
  exact (ha.widened kindA (isIntegral_meet p .int)).shift (hb.widened kindB rfl)
    (congrArg JType.kind (type_widened a _)) (congrArg JType.kind (type_widened b _)) (meet_forms p .int) known

end

theorem Means.promoted_neg (ha : Means q view a u) (typeA : a.type = .ofPrim p)
    (numeric : a.type.kind.isNumeric = true) :
    Means q view (.neg a.type.promoteUnary (a.widened a.type.promoteUnary)) fun x => (u x).neg := by
  have kindA : a.type.kind = .prim p := congrArg JType.kind typeA
  have integral : (Kind.prim p).isIntegral = true := by
    refine Kind.isIntegral_of_isDiscrete (kindA ▸ ha.discrete) ?_
    rintro rfl
    rw [kindA] at numeric
    cases numeric
  have same : (fun x => ((u x).castTo (p.meet .int)).neg) = fun x => (u x).neg :=
    funext fun x => Java.Value.neg_castTo (kindA ▸ ha.has x) integral
  rw [typeA, JType.promoteUnary_ofPrim integral, ← same]
  exact (ha.widened kindA (isIntegral_meet p .int)).neg (congrArg JType.kind (type_widened a _))
    (meet_forms p .int)

theorem Means.cast (ha : Means q view a u) (kind : a.type.kind = .prim p) (integral : (Kind.prim r).isIntegral = true) :
    Means q view (.convert (.ofPrim r) [] false (a.widened (.ofPrim r))) fun x => (u x).castTo r := by
  have nothing : convertOps (.prim r) (.prim r) = [] := by simp [convertOps]
  have twice : (fun x => ((u x).castTo r).castTo r) = fun x => (u x).castTo r :=
    funext fun x => Java.Value.castTo_self (Java.Value.has_castTo _ integral)
  rw [← nothing, ← twice]
  exact (ha.widened kind integral).convert (congrArg JType.kind (type_widened a _)) integral

theorem Means.promoted_bits (ha : Means q view a u) (hb : Means q view b v) (typeA : a.type = .ofPrim p)
    (typeB : b.type = .ofPrim r) (promotes : a.type.promote b.type = some t) (among : op ∈ [BinaryOp.and, .or, .xor]) :
    Means q view (.binary t op (a.widened t) (b.widened t)) fun x => (u x).binary op (v x) := by
  by_cases boolean : t = .boolean
  · subst boolean
    have kindA : a.type.kind = .prim p := congrArg JType.kind typeA
    have kindB : b.type.kind = .prim r := congrArg JType.kind typeB
    have promotes' := promotes
    rw [typeA, typeB] at promotes'
    rcases JType.promote_cases promotes' (kindA ▸ ha.discrete) (kindB ▸ hb.discrete) with
      ⟨rfl, rfl, -⟩ | ⟨-, -, meets⟩
    · have keepA : a.widened .boolean = a := if_pos typeA
      have keepB : b.widened .boolean = b := if_pos typeB
      rw [keepA, keepB]
      exact ha.bits hb kindA kindB among
    · rcases meet_forms p r with int | long
      · rw [int] at meets
        cases meets
      · rw [long] at meets
        cases meets
  · obtain ⟨o, known⟩ : ∃ o, arith? op = some o := by
      simp only [List.mem_cons, List.not_mem_nil, or_false] at among
      rcases among with rfl | rfl | rfl <;> exact ⟨_, rfl⟩
    exact ha.promoted_arith hb typeA typeB promotes boolean known

theorem exists_prim_of_isIntegral {k : Kind} (integral : k.isIntegral = true) : ∃ p, k = .prim p := by
  cases k with
  | prim p => exact ⟨p, rfl⟩
  | void | reference => cases integral

end Expr

variable {s : Java.Expr} {ι : Type} {e : Expr} {q : Pool} {view : ι → Nat → Datum} {env : ι → Nat → Java.Value}

theorem of_const (asked : Asked q b m e) (request : Step.build b = Step.const v)
    (means : v.expr? = some s) : Expr.Means q view e fun x => s.eval (env x) := by
  obtain ⟨t, value, ref, rfl, type, found, entered⟩ := asked.const request means
  obtain ⟨u, evals, stands⟩ := Literal.constant_means means type found
  simp only [evals]
  exact Expr.means_const stands.has stands.discrete stands.null stands.datum entered

open Assembler.Expr Java in
theorem Built.means (h : Built q e s) (suits : ∀ x, e.Suits (env x) (view x)) :
    Means q view e fun x => s.eval (env x) := by
  induction h with
  | const asked means => exact of_const asked rfl means
  | @char code m e asked => exact of_const (v := .integer .uint16 code) asked rfl rfl
  | get asked found discrete =>
    obtain rfl := asked.get found
    exact means_local discrete fun x => suits x _ (List.mem_singleton_self _)
  | neg asked node primitive _ ih =>
    obtain ⟨numeric, rfl⟩ := asked.negate node primitive
    obtain ⟨p, type⟩ := JType.exists_eq_ofPrim primitive
    have operand := ih fun x l hl => suits x l (by simpa [reads] using hl)
    exact operand.promoted_neg type numeric
  | cast asked node source target integral _ ih =>
    obtain ⟨p, kind⟩ := exists_prim_of_isIntegral source
    obtain rfl := asked.cast node (by rw [JType.isPrimitive, kind]; rfl) target
    have operand := ih fun x l hl => suits x l (by simpa [reads] using hl)
    exact operand.cast kind integral
  | @binary op a b m e x y s t asked allowed left right primitiveX primitiveY _ _ ihX ihY =>
    obtain ⟨p, typeX⟩ := JType.exists_eq_ofPrim primitiveX
    obtain ⟨r, typeY⟩ := JType.exists_eq_ofPrim primitiveY
    cases op with
    | add | sub | mul =>
      obtain ⟨t, promotes, number, rfl⟩ := asked.arithmetic left right primitiveX primitiveY rfl
      obtain ⟨first, second⟩ := suits_both ihX ihY (by simp [reads]) suits
      exact first.promoted_arith second typeX typeY promotes number rfl
    | and | or | xor =>
      obtain ⟨t, promotes, rfl⟩ := asked.bitwise left right primitiveX primitiveY rfl
      obtain ⟨first, second⟩ := suits_both ihX ihY (by simp [reads]) suits
      exact first.promoted_bits second typeX typeY promotes (by decide)
    | shl | shr | ushr =>
      obtain rfl := asked.shift left right primitiveX primitiveY rfl
      obtain ⟨first, second⟩ := suits_both ihX ihY (by simp [reads]) suits
      exact first.promoted_shift second typeX typeY rfl
    | div | rem => exact absurd allowed (by decide)
  | compare asked left right takes _ _ ihX ihY =>
    rcases takes with ⟨primitiveX, primitiveY⟩ | ⟨equality, referenceX, referenceY⟩
    · obtain ⟨boolX, boolY, rfl⟩ | ⟨t, promotes, number, rfl⟩ := asked.compare left right primitiveX primitiveY
      · obtain ⟨first, second⟩ := suits_both ihX ihY (by simp [reads]) suits
        exact first.compareInts second (congrArg JType.kind boolX) (congrArg JType.kind boolY) rfl
      · obtain ⟨p, typeX⟩ := JType.exists_eq_ofPrim primitiveX
        obtain ⟨r, typeY⟩ := JType.exists_eq_ofPrim primitiveY
        obtain ⟨first, second⟩ := suits_both ihX ihY (by simp [reads]) suits
        exact first.promoted_compare second typeX typeY promotes number
    · obtain rfl := asked.compareRefs left right equality referenceX referenceY
      obtain ⟨first, second⟩ := suits_both ihX ihY (by simp [reads]) suits
      exact first.compareRefs second (beq_iff_eq.mp referenceX) (beq_iff_eq.mp referenceY) equality
  | isNull asked node _ ih =>
    obtain ⟨reference, rfl⟩ := asked.nullTest node
    have operand := ih fun x l hl => suits x l (by simpa [reads] using hl)
    exact operand.nullTest (beq_iff_eq.mp reference)
  | not asked node primitive _ ih =>
    obtain ⟨boolean, rfl⟩ := asked.not node primitive
    have operand := ih fun x l hl => suits x l (by simpa [reads] using hl)
    exact operand.not (congrArg JType.kind boolean)
  | @logic conj a b m e x y s t asked left right primitiveX primitiveY _ _ ihX ihY =>
    obtain ⟨boolX, boolY, rfl⟩ := asked.logic left right primitiveX primitiveY
    obtain ⟨first, second⟩ := suits_both ihX ihY (by simp [reads]) suits
    cases conj with
    | true => exact first.conj second (congrArg JType.kind boolX) (congrArg JType.kind boolY)
    | false => exact first.disj second (congrArg JType.kind boolX) (congrArg JType.kind boolY)

open Code Assembler.Expr Java in
/-- Where the slots hold values of the types of their locals, the bytes that are written for an
expression push its value on any stack. Written as a jump they leave one more open branch, which is
taken where the value is the outcome, and the stack stays as it was. -/
theorem Built.code_evaluates {q : Pool} {e : Expr} {s : Java.Expr} (built : Built q e s) {env : Nat → Java.Value}
    {slots : Nat → Datum} (suits : e.Suits env slots) (c c' : Code) :
    (Yields (e.emit .value) c () c' →
      c'.sites = c.sites ∧ (∀ i < c.pos, c'.bytes[i]? = c.bytes[i]?) ∧
        ∀ final, Settles final c.pos [] c' → ∀ stack,
          Goes final q slots c.pos stack c'.pos ((s.eval env).datum :: stack)) ∧
    ∀ outcome, e.type = .boolean → Yields (e.emit (.jump outcome)) c () c' →
      ∃ site b, s.eval env = .bool b ∧ c'.sites = site :: c.sites ∧ c.pos ≤ site ∧ site + 3 ≤ c'.pos ∧
        (∀ i < c.pos, c'.bytes[i]? = c.bytes[i]?) ∧
        ∀ final, Settles final c.pos [site] c' → ∀ target, Directs final site target → ∀ stack,
          Goes final q slots c.pos stack (if b = outcome then target else c'.pos) stack := by
  have means : Means q (fun _ : Unit => slots) e fun _ => s.eval env := built.means fun _ => suits
  have sited : c.Sited c.pos [] := ⟨Nat.le_refl _, by simp, .nil⟩
  refine ⟨fun run => ?_, fun outcome boolean run => ?_⟩
  · obtain ⟨sites, leads⟩ := means.computes.value sited run
    refine ⟨sites, leads.kept, fun final settled stack => ?_⟩
    exact (leads.settles final settled).2 () stack
  · obtain ⟨b, value⟩ := means.bool (congrArg JType.kind boolean) ()
    obtain ⟨site, sites, leads⟩ := means.computes.jump sited run
    obtain ⟨low, high⟩ := leads.sited.inside site (List.mem_singleton_self site)
    refine ⟨site, b, value, sites, low, high, leads.kept, fun final settled target directs stack => ?_⟩
    exact (leads.settles final settled).2 target directs () b stack (congrArg Java.Value.datum value)

namespace Draft

def testCalls : List (Provider × Call) :=
  [.addMethod (.publicBit ||| .staticBit) .boolean "positive" [("x", .int)], .build 0 (.get (.local 0)),
    .build 0 (.const (.integer .int 1)), .build 0 (.compare .lt (.node 0) (.node 1)), .build 0 (.not (.node 2))].map
    (library, ·)

def testDraft (n : Nat) : Draft := counter.after (testCalls.take n)

def testMethod (n : Nat) : Method := (testDraft n).methods[0]?.getD default

def testNode (n i : Nat) : Node := (testMethod n).nodes[i]?.getD default

def testExpr : Expr := (testNode 5 3).expr

def testCode : Code := ((testExpr.emit .value).run .empty).2

def builds (n : Nat) (b : Build) (i : Nat) : Bool :=
  ((testDraft n).build library 0 b).1.toOption == some i && (testDraft n).methods[0]?.isSome &&
    (testDraft (n + 1)).methods[0]?.isSome && (testMethod (n + 1)).nodes[i]?.isSome &&
    (testDraft (n + 1)).pool.entries == (testDraft 5).pool.entries

theorem eq_of_isSome [Inhabited α] {o : Option α} (h : o.isSome = true) : o = some (o.getD default) := by
  cases o with
  | none => cases h
  | some x => rfl

theorem asked_of_builds {n i : Nat} (next : testCalls.take (n + 1) = testCalls.take n ++ [(library, .build 0 b)])
    (checked : builds n b i = true) : Asked (testDraft 5).pool b (testMethod n) (testNode (n + 1) i).expr := by
  simp only [builds, Bool.and_eq_true, beq_iff_eq] at checked
  obtain ⟨⟨⟨⟨made, here⟩, there⟩, node⟩, entries⟩ := checked
  refine ⟨testDraft n, testDraft (n + 1), library, 0, i, testMethod (n + 1), _,
    ⟨_, _, _, _, _, _, _, _, _, _, counter_created, rfl⟩, ?_, eq_of_isSome here, eq_of_isSome there, eq_of_isSome node, rfl, ?_⟩
  · have after : testDraft (n + 1) = ((testDraft n).build library 0 b).2 := by
      rw [testDraft, next, after_append]
      rfl
    rw [after]
    generalize (testDraft n).build library 0 b = result at made
    obtain ⟨e | k, d⟩ := result
    · cases made
    · cases made
      rfl
  · intro index c found
    rw [Pool.get?, ← entries]
    exact found

def isRead (l : LocalRead) : Expr → Bool
  | .local l' => l == l'
  | _ => false

theorem built_test : Built (testDraft 5).pool testExpr (.not (.compare .lt (.get 0) (.int 1))) := by
  have facts : (builds 1 (.get (.local 0)) 0 && builds 2 (.const (.integer .int 1)) 1 &&
      builds 3 (.compare .lt (.node 0) (.node 1)) 2 && builds 4 (.not (.node 2)) 3 &&
      (testMethod 1).locals[0]? == some ⟨0, .int, "x", 0, true, false⟩ && isRead ⟨0, "x", 0, .int⟩ (testNode 3 0).expr &&
      [(3, 0), (3, 1), (4, 2)].all fun x =>
        (testMethod x.1).nodes[x.2]?.isSome && (testNode x.1 x.2).expr.type.isPrimitive) = true := by
    decide +kernel
  simp only [Bool.and_eq_true, beq_iff_eq, List.all_cons, List.all_nil, Bool.and_true] at facts
  obtain ⟨⟨⟨⟨⟨⟨get, const⟩, compare⟩, not⟩, param⟩, reads⟩, ⟨first, left⟩, ⟨second, right⟩, third, operand⟩ := facts
  have get := asked_of_builds rfl get
  have same : (testNode 2 0).expr = (testNode 3 0).expr := by
    rw [get.get param]
    unfold isRead at reads
    split at reads
    · rename_i shown
      rw [shown, beq_iff_eq.mp reads]
    · cases reads
  have x : Built (testDraft 5).pool (testNode 3 0).expr (.get 0) := same ▸ .get get param rfl
  have one : Built (testDraft 5).pool (testNode 3 1).expr (.int 1) := .const (asked_of_builds rfl const) rfl
  have less : Built (testDraft 5).pool (testNode 4 2).expr (.compare .lt (.get 0) (.int 1)) :=
    .compare (asked_of_builds rfl compare) (eq_of_isSome first) (eq_of_isSome second) (.inl ⟨left, right⟩) x one
  exact .not (asked_of_builds rfl not) (eq_of_isSome third) operand less

open Code Assembler.Expr in
/-- Where `x` is 0, its test comes out false. -/
theorem code_evaluates_test : Yields (testExpr.emit .value) .empty () testCode ∧
    testExpr.Suits (fun _ => .int 0) (fun _ => .int 0) ∧ ∀ final, Settles final 0 [] testCode → ∀ stack,
      Goes final (testDraft 5).pool (fun _ => .int 0) 0 stack testCode.pos (.int 0 :: stack) := by
  have facts : (((testExpr.emit .value).run .empty).1.isOk && testExpr.reads.all fun l => l.type == .int) = true := by
    decide +kernel
  simp only [Bool.and_eq_true, List.all_eq_true, beq_iff_eq] at facts
  have run : Yields (testExpr.emit .value) .empty () testCode := eq_of_isOk facts.1
  have suits : testExpr.Suits (fun _ => .int 0) (fun _ => .int 0) := by
    intro l hl
    rw [facts.2 l hl]
    exact ⟨trivial, rfl⟩
  exact ⟨run, suits, (((built_test.code_evaluates suits .empty testCode).1 run).2.2)⟩

end Draft

end ClassForge.Assembler

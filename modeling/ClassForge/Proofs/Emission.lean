import ClassForge.Assembler.Emission
import ClassForge.Proofs.Segment

/-! The code of expressions keeps certificates: it leaves the value on the stack, or one open site. -/

namespace ClassForge.Assembler

open Word Code Opcode

open List hiding after

open Instruction

variable {e : Effect} {R : Rules}

def refEffect? (R : Rules) (op : Opcode) (ref : UInt16) : Option Effect :=
  { pc := 0, op, index := ref.toNat : Instruction }.effect? R.pool

theorem moves_ref {op : Opcode} {pc : Nat}
    (h : refEffect? R op ref = some e) (s : List Word) (pops : before = e.pops ++ s) (pushes : after = e.pushes ++ s) :
    { pc, op, index := ref.toNat : Instruction }.Moves R.pool before after := by
  have form : SameForm { pc, op, index := ref.toNat } { pc := 0, op, index := ref.toNat } := ⟨rfl, rfl, rfl⟩
  subst pops pushes
  exact form.moves (.effect s h)

theorem moves_op {i : Instruction} (h : i.op.effect? = some e) (s : List Word) (pops : before = e.pops ++ s)
    (pushes : after = e.pushes ++ s) : i.Moves R.pool before after :=
  .of_effect s (effect?_of_opcode h) pops pushes

section

variable {g : Setting} {known : Set Nat} {a b : Action Unit} {s t u : List Word} {new : List State}

/-- Code that takes the stack from `s` to `t` and leaves `new` open, wherever it is written. -/
def Leads (g : Setting) (known : Set Nat) (a : Action Unit) (s : List Word) (new : List State) (t : List Word) :
    Prop :=
  g.floor ⊆ known → ∀ {opens : List State} {c c' : Code} {y : Unit}, Segment g opens (some ⟨s, known⟩) c →
    Yields a c y c' → Segment g (new ++ opens) (some ⟨t, known⟩) c'

namespace Leads

variable {op : Opcode}

theorem nothing : Leads g known (pure ()) s [] s := by
  intro above opens c c' y seg run
  obtain ⟨-, rfl⟩ := Yields.pure_iff.mp run
  exact seg

theorem bind (first : Leads g known a s [] t) (rest : Leads g known b t new u) :
    Leads g known (a >>= fun _ => b) s new u := by
  intro above opens c c' y seg run
  obtain ⟨_, c1, one, two⟩ := Yields.bind_iff.mp run
  exact rest above (first above seg one) two

theorem forM {f : α → Action Unit} {xs : List α} (each : ∀ x ∈ xs, Leads g known (f x) s [] s) :
    Leads g known (xs.forM f) s [] s := by
  induction xs with
  | nil => exact nothing
  | cons x xs ih => exact (each x mem_cons_self).bind (ih fun x' h' => each x' (mem_cons_of_mem _ h'))

theorem restack (h : Leads g known a s new t) (same : g.rules.typed → t = u) : Leads g known a s new u :=
  fun above _ _ _ _ seg run => (h above seg run).restack same

theorem emit (plain : op.isPlain = true) (fits : g.rules.typed → Word.depth s ≤ g.rules.limit)
    (moves : g.rules.typed → ∀ pc, { pc, op : Instruction }.Moves g.rules.pool s t) :
    Leads g known (emit op) s [] t :=
  fun above _ _ _ _ seg run => seg.emit run plain fits (fun typed => moves typed _) above

theorem emitU2 (forms : op.length = 3 ∧ op.isBranch = false ∧ op.isQuiet = true)
    (names : op.takesEntry = true → g.rules.Names op n) (fits : g.rules.typed → Word.depth s ≤ g.rules.limit)
    (moves : g.rules.typed → ∀ pc, { pc, op, index := n.toNat : Instruction }.Moves g.rules.pool s t) :
    Leads g known (emitU2 op n) s [] t :=
  fun above _ _ _ _ seg run => seg.emitU2 run forms names fits (fun typed => moves typed _) above

theorem emitU1 (forms : op.length = 2 ∧ op.isBranch = false ∧ op.isQuiet = true)
    (names : op.takesEntry = true → g.rules.Names op n.toUInt16) (fits : g.rules.typed → Word.depth s ≤ g.rules.limit)
    (moves : g.rules.typed → ∀ pc, { pc, op, index := n.toNat : Instruction }.Moves g.rules.pool s t) :
    Leads g known (emitU1 op n) s [] t :=
  fun above _ _ _ _ seg run => seg.emitU1 run forms names fits (fun typed => moves typed _) above

theorem branch (forms : op.isBranch = true ∧ op.effect? = some ⟨pops, []⟩)
    (fits : g.rules.typed → Word.depth s ≤ g.rules.limit) (same : g.rules.typed → s = pops ++ t) :
    Leads g known (pushSite op) s [⟨t, known⟩] t :=
  fun above _ _ _ _ seg run => seg.pushSite run forms.1 fits (fun typed => moves_op forms.2 t (same typed) rfl)
    (fun _ hs => hs) (.inr rfl) above

theorem receiver (held : g.rules.holds 0 .reference) (read : g.rules.strict → 0 ∈ known) (fits : g.rules.typed → Word.depth s ≤ g.rules.limit) :
    Leads g known (Code.emit .aload0) s [] (.reference :: s) := by
  intro above opens c c' y seg run
  have run : Yields (Code.load .object (0 : Nat)) c y c' := run
  exact seg.load run held read (fun _ => by decide) fits above

end Leads

end

namespace Value

variable {v : Value}

def word : Value → Word
  | .bool _ | .int _ => .int
  | .long _ => .long
  | .float _ => .float
  | .double _ => .double
  | .null | .text _ | .type _ => .reference

def reference? : Value → Option Reference
  | .null | .bool _ => none
  | .int n => some (.integer n.toUInt32)
  | .long n => some (.long n.toUInt64)
  | .float b => some (.float b)
  | .double b => some (.double b)
  | .text s => some (.text s)
  | .type t => some (.type t.internalName)

def Loads (ref : UInt16) : Value → Prop
  | .null | .bool _ => False
  | .int n => ¬(-32768 ≤ n.toInt ∧ n.toInt ≤ 32767)
  | .long _ | .float _ | .double _ => ref ≠ 0
  | .text _ | .type _ => True

def loadOps (v : Value) : List Opcode := if v.word.size = 2 then [.ldc2W] else [.ldc, .ldcW]

def Linked (p : Pool) (ref : UInt16) (v : Value) : Prop :=
  v.Loads ref → ∃ r, v.reference? = some r ∧ p.reference? ref = some r

def Short : Value → Prop
  | .null | .bool _ => True
  | .int n => -32768 ≤ n.toInt ∧ n.toInt ≤ 32767
  | .long n => n = 0 ∨ n = 1
  | .float b => b = 0 ∨ b = 0x3f800000 ∨ b = 0x40000000
  | .double b => b = 0 ∨ b = 0x3ff0000000000000
  | .text _ | .type _ => False

def Entered (p : Pool) (ref : UInt16) (v : Value) : Prop :=
  v.Short ∧ ref = 0 ∨ ¬ v.Short ∧ ref ≠ 0 ∧ ∃ r, v.reference? = some r ∧ p.reference? ref = some r

theorem Entered.linked (h : v.Entered p ref) : v.Linked p ref := by
  intro loads
  rcases h with ⟨short, rfl⟩ | ⟨-, -, entry⟩
  · cases v <;> simp_all [Short, Loads]
  · exact entry

def Named (named : Opcode → Reference → Prop) (v : Value) : Prop :=
  ∀ r, v.reference? = some r → ∀ op ∈ v.loadOps, named op r

theorem word?_of_reference? (h : v.reference? = some r) : r.word? = some v.word := by
  cases v with
  | null | bool => cases h
  | int | long | float | double | text | type =>
    cases h
    rfl

section

variable {g : Setting} {s : List Word} {known : Set Nat} {ref : UInt16} {v : Value}

theorem leads_short {op : Opcode} (plain : op.isPlain = true) (effect : op.effect? = some ⟨[], [w]⟩)
    (fits : g.rules.typed → Word.depth s ≤ g.rules.limit) : Leads g known (Code.emit op) s [] (w :: s) :=
  .emit plain fits fun _ _ => moves_op effect s rfl rfl

theorem leads_entry (linked : v.Linked g.rules.pool ref) (named : v.Named g.rules.named)
    (loads : v.Loads ref) (width : v.word.size = 2 ↔ isWide = true)
    (fits : g.rules.typed → Word.depth s ≤ g.rules.limit) : Leads g known (ldc ref isWide) s [] (v.word :: s) := by
  intro above opens c c' y seg run
  obtain ⟨r, reference, found⟩ := linked loads
  have loaded : g.rules.pool.loaded? ref = some v.word :=
    Option.bind_eq_some_iff.mpr ⟨r, found, word?_of_reference? reference⟩
  refine seg.ldc run ⟨⟨r, found, named r reference _ ?_⟩, r, found, named r reference _ ?_⟩ fits
    (fun _ => ⟨loaded, width⟩) above
  · rw [loadOps, if_congr width rfl rfl]
    split_ifs <;> simp
  · rw [loadOps, if_congr width rfl rfl]
    split_ifs <;> simp

theorem leads_word (fits : g.rules.typed → Word.depth s ≤ g.rules.limit) (linked : v.Linked g.rules.pool ref)
    (named : v.Named g.rules.named) : Leads g known (v.emit ref) s [] (v.word :: s) := by
  have wide : ∀ {isWide : Bool}, v.Loads ref → (v.word.size = 2 ↔ isWide = true) →
      Leads g known (Code.ldc ref isWide) s [] (v.word :: s) := fun loads width =>
    leads_entry linked named loads width fits
  cases v with
  | null => exact leads_short (by decide) (by decide) fits
  | bool b => cases b <;> exact leads_short (by decide) (by decide) fits
  | int n =>
    have pushes : bipush.effect? = some ⟨[], [.int]⟩ ∧ sipush.effect? = some ⟨[], [.int]⟩ := by
      decide
    simp only [emit, word]
    split_ifs with tiny small short
    · have few : (n.toInt + 1).toNat ≤ 6 := by omega
      generalize (n.toInt + 1).toNat = k at few
      refine leads_short ?_ ?_ fits
      · interval_cases k <;> decide
      · interval_cases k <;> decide
    · exact .emitU1 (by decide) (by rintro ⟨⟩) fits fun _ _ => moves_op pushes.1 s rfl rfl
    · exact .emitU2 (by decide) (by rintro ⟨⟩) fits fun _ _ => moves_op pushes.2 s rfl rfl
    · exact wide short (by simp [word, size])
  | long n | float b | double b =>
    simp only [emit, word]
    by_cases none : ref = 0
    · rw [if_pos none]
      split_ifs <;> exact leads_short (by decide) (by decide) fits
    · rw [if_neg none]
      exact wide none (by simp [word, size])
  | text _ | type _ => exact wide trivial (by simp [word, size])

theorem leads_emit {type : JType} (fits : g.rules.typed → Word.depth s ≤ g.rules.limit)
    (words : g.rules.typed → type.words = [v.word]) (linked : v.Linked g.rules.pool ref)
    (named : v.Named g.rules.named) : Leads g known (v.emit ref) s [] (type.words ++ s) :=
  (leads_word fits linked named).restack fun typed => by
    rw [words typed]
    rfl

end

end Value

theorem Cmp.isEquality_branch (cmp : Cmp) (outcome : Bool) :
    cmp.isEquality = true → (if outcome then cmp else cmp.negate).isEquality = true := by
  cases outcome <;> cases cmp <;> decide

namespace Expr

def argWords (args : List Expr) : List Word := args.reverse.flatMap fun e => e.type.words

/-- A chain of conversions from one value to another; what lies between takes one word. -/
def Converts : List Opcode → List Word → List Word → Bool
  | [], u, v => u == v
  | op :: ops, u, v =>
    match op.effect? with
    | some e => e.pops == u && (ops.isEmpty || Word.depth e.pushes ≤ 1) && Converts ops e.pushes v
    | none => false

theorem converts_cons {op : Opcode} (h : Converts (op :: ops) u v = true) :
    ∃ w, op.effect? = some ⟨u, w⟩ ∧ (ops ≠ [] → Word.depth w ≤ 1) ∧ Converts ops w v = true := by
  unfold Converts at h
  split at h
  · rename_i e effect
    simp only [Bool.and_eq_true, beq_iff_eq, Bool.or_eq_true, List.isEmpty_iff, decide_eq_true_eq] at h
    obtain ⟨⟨rfl, small⟩, rest⟩ := h
    exact ⟨e.pushes, effect, fun more => small.resolve_left more, rest⟩
  · simp at h

/-- An expression whose instructions exist and, where types are followed, find their operands. -/
inductive Good (R : Rules) : Expr → Prop
  | const {t : JType} {v : Value} {ref : UInt16} : (R.typed → t.words = [v.word]) → v.Linked R.pool ref →
      v.Named R.named → Good R (.const t v ref)
  | self {t : JType} {asSuper : Bool} : (R.typed → t.words = [.reference]) → (R.strict → 0 ∈ R.given) →
      R.holds 0 .reference → Good R (.self t asSuper)
  | local {l : LocalRead} : R.holds l.slot l.type.kind → (R.typed → l.type.kind ≠ .void) → Good R (.local l)
  | staticGet {t owner : JType} {name : String} {ref : UInt16} : R.Names .getstatic ref →
      (R.typed → refEffect? R .getstatic ref = some ⟨[], t.words⟩) → Good R (.staticGet t owner name ref)
  | primitiveClass {of : JType} {ref : UInt16} : R.Names .getstatic ref →
      (R.typed → refEffect? R .getstatic ref = some ⟨[], [.reference]⟩) → Good R (.primitiveClass of ref)
  | fieldGet {t : JType} {name : String} {ref : UInt16} {a : Expr} : Good R a → R.Names .getfield ref →
      (R.typed → refEffect? R .getfield ref = some ⟨a.type.words, t.words⟩) → Good R (.fieldGet t name ref a)
  | arrayGet {t : JType} {a i : Expr} : Good R a → Good R i →
      (R.typed → (arrayLoad t).effect? = some ⟨i.type.words ++ a.type.words, t.words⟩) → Good R (.arrayGet t a i)
  | arrayLength {a : Expr} : Good R a → (R.typed → a.type.words = [.reference]) → Good R (.arrayLength a)
  | invoke {t : JType} {target : CallTarget} {implicit : Bool} {args : List Expr} :
      (∀ a ∈ args, Good R a) →
      target.op ∈ [invokestatic, .invokevirtual, .invokespecial, .invokeinterface] →
      R.Names target.op target.ref →
      (R.typed → refEffect? R target.op target.ref = some ⟨argWords args, t.words⟩) →
        Good R (.invoke t target implicit args)
  | new {t : JType} {classRef constructor : UInt16} {args : List Expr} : (∀ a ∈ args, Good R a) →
      R.Names .new classRef → R.Names .invokespecial constructor →
      (R.typed → t.words = [.reference] ∧
        refEffect? R .invokespecial constructor = some ⟨argWords args ++ [.reference], []⟩) →
        Good R (.new t classRef constructor args)
  | newArray {elem : JType} {ref : UInt16} {n : Expr} : Good R n →
      (elem.isPrimitive = false → R.Names .anewarray ref) →
      (R.typed → n.type.words = [.int] ∧ elem.arrayOf.words = [.reference]) → Good R (.newArray elem ref n)
  | convert {t : JType} {ops : List Opcode} {implicit : Bool} {a : Expr} : Good R a →
      (∀ op ∈ ops, op.isPlain = true) → (R.typed → Converts ops a.type.words t.words = true) →
        Good R (.convert t ops implicit a)
  | checkCast {t : JType} {ref : UInt16} {a : Expr} : Good R a → R.Names .checkcast ref →
      (R.typed → a.type.words = [.reference] ∧ t.words = [.reference]) → Good R (.checkCast t ref a)
  | neg {t : JType} {a : Expr} : Good R a →
      (R.typed → (ineg.plus (family t.kind)).effect? = some ⟨a.type.words, t.words⟩) →
        Good R (.neg t a)
  | not {a : Expr} : Good R a → (R.typed → a.type.words = [.int]) → Good R (.not a)
  | binary {t : JType} {op : BinaryOp} {a b : Expr} : Good R a → Good R b → (op.opcode t).isPlain = true →
      (R.typed → (op.opcode t).effect? = some ⟨b.type.words ++ a.type.words, t.words⟩) →
        Good R (.binary t op a b)
  | compare {cmp : Cmp} {a b : Expr} : Good R a → Good R b →
      (a.type.isReference = true → cmp.isEquality = true) →
      (R.typed → a.type.kind ≠ .void ∧ b.type.words = a.type.words) → Good R (.compare cmp a b)
  | nullTest {cmp : Cmp} {a : Expr} : Good R a → (R.typed → a.type.words = [.reference]) →
      Good R (.nullTest cmp a)
  | instanceOf {t : JType} {ref : UInt16} {a : Expr} : Good R a → R.Names .instanceof ref →
      (R.typed → a.type.words = [.reference]) → Good R (.instanceOf t ref a)
  | logic {conj : Bool} {a b : Expr} : Good R a → Good R b →
      (R.typed → a.type.words = [.int] ∧ b.type.words = [.int]) → Good R (.logic conj a b)
  | concat {refs : ConcatRefs} {a b : Expr} : Good R a → Good R b →
      R.Names .new refs.builder ∧ R.Names .invokespecial refs.init ∧ R.Names .invokevirtual refs.first ∧
        R.Names .invokevirtual refs.second ∧ R.Names .invokevirtual refs.finish →
      (R.typed → refEffect? R .invokespecial refs.init = some ⟨[.reference], []⟩ ∧
        refEffect? R .invokevirtual refs.first = some ⟨a.type.words ++ [.reference], [.reference]⟩ ∧
        refEffect? R .invokevirtual refs.second = some ⟨b.type.words ++ [.reference], [.reference]⟩ ∧
        refEffect? R .invokevirtual refs.finish = some ⟨[.reference], [.reference]⟩) →
        Good R (.concat refs a b)

theorem slots_le_need (e : Expr) : e.type.slots ≤ e.need := by
  have one : JType.int.slots = 1 ∧ JType.boolean.slots = 1 ∧ JType.string.slots = 1 :=
    ⟨rfl, rfl, JType.slots_ofClass _⟩
  cases e <;> simp only [need, type, JType.slots_ofClass, one] <;> omega

/-- The state allows an evaluation that takes `need` words and reads the locals. -/
structure Ready (R : Rules) (d : State) (need : Nat) (reads : List LocalRead) : Prop where
  fits : R.typed → Word.depth d.stack + need ≤ R.limit
  reads : R.strict → ∀ l ∈ reads, l.slot ∈ d.known
  given : R.given ⊆ d.known

namespace Ready

variable {R : Rules} {d : State} {need : Nat} {reads : List LocalRead} {s : List Word} {known : Set Nat}

theorem depth (h : Ready R d need reads) (typed : R.typed) : Word.depth d.stack ≤ R.limit :=
  Nat.le_of_add_right_le (h.fits typed)

theorem below (h : Ready R d need reads) (less : Word.depth s ≤ Word.depth d.stack + need)
    (typed : R.typed) : Word.depth s ≤ R.limit :=
  Nat.le_trans less (h.fits typed)

theorem part (h : Ready R d need reads)
    (less : Word.depth s + need' ≤ Word.depth d.stack + need) (sub : ∀ l ∈ reads', l ∈ reads) :
    Ready R ⟨s, d.known⟩ need' reads' :=
  ⟨fun typed => Nat.le_trans less (h.fits typed), fun strict l hl => h.reads strict l (sub l hl), h.given⟩

theorem value {e : Expr} (h : Ready R ⟨s, known⟩ e.need reads) (typed : R.typed) :
    Word.depth (e.type.words ++ s) ≤ R.limit :=
  h.below (by
    have := e.slots_le_need
    simp only [depth_append, JType.depth_words]
    omega) typed

theorem pair {a b : Expr} (h : Ready R ⟨s, known⟩ need (a.reads ++ b.reads))
    (less : max a.need (a.type.slots + b.need) ≤ need) :
    Ready R ⟨s, known⟩ a.need a.reads ∧ Ready R ⟨a.type.words ++ s, known⟩ b.need b.reads :=
  ⟨h.part (by dsimp only; omega) fun _ hl => mem_append_left _ hl,
    h.part (by simp only [depth_append, JType.depth_words]; omega) fun _ hl => mem_append_right _ hl⟩

end Ready

def Want.opens (w : Want) (s : List Word) (known : Set Nat) : List State :=
  match w with
  | .value => []
  | .jump _ => [⟨s, known⟩]

def Want.leaves (w : Want) (t : JType) (s : List Word) : List Word :=
  match w with
  | .value => t.words ++ s
  | .jump _ => s

section

variable {g : Setting} {opens : List State} {c c' : Code} {y : Unit} {s : List Word} {known : Set Nat}
  {a : Action Unit} {b e : Expr} {t u v : List Word} {w : Want}

theorem leads_ofValue {t : JType} (fits : g.rules.typed → Word.depth (t.words ++ s) ≤ g.rules.limit)
    (truth : ∀ b, w = .jump b → g.rules.typed → t.words = [.int]) :
    Leads g known w.ofValue (t.words ++ s) (w.opens s known) (w.leaves t s) := by
  cases w with
  | value => exact .nothing
  | jump b =>
    have same : g.rules.typed → t.words ++ s = [.int] ++ s := fun typed => by rw [truth b rfl typed]
    cases b <;> exact .branch (by decide) fits same

theorem shallow (fits : g.rules.typed → Word.depth (Word.int :: s) ≤ g.rules.limit) (typed : g.rules.typed) :
    Word.depth s ≤ g.rules.limit :=
  Nat.le_of_add_left_le (fits typed)

theorem exchange_segment (h : Segment g (⟨s, known⟩ :: opens) (some ⟨t, known⟩) c)
    (past : Yields (pushSite .goto) c y1 c1) (swap : Yields swapSites c1 y2 c2)
    (pop : Yields popSite c2 y c') (fits : g.rules.typed → Word.depth t ≤ g.rules.limit)
    (above : g.floor ⊆ known) : Segment g (⟨t, known⟩ :: opens) (some ⟨s, known⟩) c' := by
  have jumps : goto.effect? = some ⟨[], []⟩ := by decide
  have h1 : Segment g (⟨t, known⟩ :: ⟨s, known⟩ :: opens) none c1 :=
    h.pushSite past (by decide) fits (fun _ => moves_op jumps t rfl rfl) (fun _ hs => hs) (.inl (by decide)) above
  exact (h1.swapSites swap).popSite pop (.refl _) (by rintro _ ⟨⟩)

theorem falseTail_segment (h : Segment g (⟨s, known⟩ :: opens) (some ⟨.int :: s, known⟩) c)
    (run : Yields falseTail c y c') (fits : g.rules.typed → Word.depth (Word.int :: s) ≤ g.rules.limit)
    (above : g.floor ⊆ known) : Segment g opens (some ⟨.int :: s, known⟩) c' := by
  simp only [falseTail, Yields.bind_iff] at run
  obtain ⟨_, c1, past, _, c2, swap, _, c3, false, _, c4, zero, true⟩ := run
  have h3 := exchange_segment h past swap false fits above
  have h4 := Value.leads_short (w := .int) (by decide) (by decide) (shallow fits) above h3 zero
  exact h4.joinSite true

theorem leads_testValue (fits : g.rules.typed → Word.depth (Word.int :: s) ≤ g.rules.limit)
    (tests : ∀ outcome, Leads g known (test outcome) s [⟨s, known⟩] s) :
    Leads g known (testValue test w) s (w.opens s known) (w.leaves .boolean s) := by
  cases w with
  | jump outcome => exact tests outcome
  | value =>
    intro above opens c c' y seg run
    simp only [testValue, Yields.bind_iff] at run
    obtain ⟨_, c1, first, _, c2, one, rest⟩ := run
    have h2 := Value.leads_short (w := .int) (by decide) (by decide) (shallow fits) above (tests false above seg first) one
    exact falseTail_segment h2 rest fits above

/-- What the code of an expression does, for every way in which it is wanted. -/
def Emits (g : Setting) (known : Set Nat) (e : Expr) : Prop :=
  ∀ (w : Want) (s : List Word), Ready g.rules ⟨s, known⟩ e.need e.reads →
    (∀ b, w = .jump b → g.rules.typed → e.type.words = [.int]) →
      Leads g known (e.emit w) s (w.opens s known) (w.leaves e.type s)

theorem Emits.value (h : Emits g known e) (ready : Ready g.rules ⟨s, known⟩ e.need e.reads) :
    Leads g known (e.emit .value) s [] (e.type.words ++ s) :=
  h .value s ready (by rintro _ ⟨⟩)

theorem Emits.jump {b : Bool} (h : Emits g known e) (ready : Ready g.rules ⟨s, known⟩ e.need e.reads)
    (truth : g.rules.typed → e.type.words = [.int]) : Leads g known (e.emit (.jump b)) s [⟨s, known⟩] s :=
  h (.jump b) s ready fun _ _ => truth

theorem needSeq_add (acc : Nat) (es : List Expr) : needSeq acc es = acc + needSeq 0 es := by
  induction es generalizing acc with
  | nil => rfl
  | cons e es ih =>
    simp only [needSeq]
    rw [ih (acc + e.type.slots), ih (0 + e.type.slots)]
    omega

theorem argWords_cons (e : Expr) (es : List Expr) (s : List Word) :
    argWords (e :: es) ++ s = argWords es ++ (e.type.words ++ s) := by
  simp [argWords]

theorem depth_argWords_le (es : List Expr) : Word.depth (argWords es) ≤ needSeq 0 es := by
  induction es with
  | nil => exact Nat.le_refl _
  | cons e es ih =>
    have split := argWords_cons e es []
    simp only [append_nil] at split
    rw [split, depth_append, JType.depth_words, needSeq, needSeq_add (0 + e.type.slots)]
    omega

theorem leads_emitAll (each : ∀ a ∈ args, Emits g known a)
    (ready : Ready g.rules ⟨s, known⟩ (needSeq 0 args) (readsAll args)) :
    Leads g known (emitAll args) s [] (argWords args ++ s) := by
  induction args generalizing s with
  | nil => exact .nothing
  | cons e es ih =>
    have total : needSeq 0 (e :: es) = max (need e) (e.type.slots + needSeq 0 es) := by
      rw [needSeq, needSeq_add (0 + e.type.slots)]
      omega
    rw [argWords_cons]
    refine .bind ((each e mem_cons_self).value ?_) (ih (fun a ha => each a (mem_cons_of_mem _ ha)) ?_)
    · exact ready.part (by simp only [total]; omega) fun l hl => mem_append_left _ hl
    · refine ready.part ?_ fun l hl => mem_append_right _ hl
      simp only [total, depth_append, JType.depth_words]
      omega

theorem leads_finish (ready : Ready g.rules ⟨s, known⟩ e.need e.reads)
    (truth : ∀ b, w = .jump b → g.rules.typed → e.type.words = [.int])
    (leaves : Leads g known a t [] (e.type.words ++ s)) :
    Leads g known (a >>= fun _ => w.ofValue) t (w.opens s known) (w.leaves e.type s) :=
  leaves.bind (leads_ofValue ready.value truth)

theorem Emits.unary {a : Expr} (operand : Emits g known a)
    (same : e.emit = fun w => a.emit .value >>= fun _ => step >>= fun _ => w.ofValue) (less : a.need ≤ e.need)
    (sub : ∀ l ∈ a.reads, l ∈ e.reads) (steps : ∀ s, (g.rules.typed → Word.depth (a.type.words ++ s) ≤ g.rules.limit) →
      Leads g known step (a.type.words ++ s) [] (e.type.words ++ s)) : Emits g known e := by
  intro w s ready truth
  have first : Ready g.rules ⟨s, known⟩ a.need a.reads := ready.part (by dsimp only; omega) sub
  rw [same]
  exact (operand.value first).bind (leads_finish ready truth (steps s first.value))

theorem isPlain_arrayLoad (t : JType) : (arrayLoad t).isPlain = true := by
  unfold arrayLoad
  cases t.kind with
  | prim p => cases p <;> decide
  | void | reference => decide

theorem isPlain_neg (t : JType) : (ineg.plus (family t.kind)).isPlain = true := by
  cases t.kind with
  | prim p => cases p <;> decide
  | void | reference => decide

theorem nullBranch_forms (cmp : Cmp) :
    cmp.nullBranch.isBranch = true ∧ cmp.nullBranch.effect? = some ⟨[.reference], []⟩ := by
  cases cmp <;> decide

theorem branch_forms (cmp : Cmp) :
    ((ifeq.plus cmp.offset).isBranch = true ∧ (ifeq.plus cmp.offset).effect? = some ⟨[.int], []⟩) ∧
    ((ifIcmpeq.plus cmp.offset).isBranch = true ∧
      (ifIcmpeq.plus cmp.offset).effect? = some ⟨[.int, .int], []⟩) ∧
    (cmp.isEquality = true → (ifAcmpeq.plus cmp.offset).isBranch = true ∧
      (ifAcmpeq.plus cmp.offset).effect? = some ⟨[.reference, .reference], []⟩) := by
  cases cmp <;> decide

theorem nanCompare_forms (cmp : Cmp) :
    ((cmp.nanCompare .fcmpl .fcmpg).isPlain = true ∧ (cmp.nanCompare .dcmpl .dcmpg).isPlain = true) ∧
    ((cmp.nanCompare .fcmpl .fcmpg).effect? = some ⟨[.float, .float], [.int]⟩ ∧
      (cmp.nanCompare .dcmpl .dcmpg).effect? = some ⟨[.double, .double], [.int]⟩) := by
  cases cmp <;> decide

theorem leads_converts (plain : ∀ op ∈ ops, op.isPlain = true) (chain : g.rules.typed → Converts ops u v = true)
    (fits : g.rules.typed → Word.depth s + room ≤ g.rules.limit) (first : Word.depth u ≤ room) (one : 1 ≤ room) :
    Leads g known (ops.forM Code.emit) (u ++ s) [] (v ++ s) := by
  induction ops generalizing u with
  | nil => exact Leads.nothing.restack fun typed => by rw [beq_iff_eq.mp (chain typed)]
  | cons op ops ih =>
    have deep : g.rules.typed → depth (u ++ s) ≤ g.rules.limit := by
      intro typed
      have := fits typed
      rw [depth_append]
      omega
    have plainOp := plain op mem_cons_self
    have plainRest : ∀ op' ∈ ops, op'.isPlain = true := fun op' h' => plain op' (mem_cons_of_mem _ h')
    by_cases typed : g.rules.typed
    · obtain ⟨w, effect, small, chain'⟩ := converts_cons (chain typed)
      have step : Leads g known (Code.emit op) (u ++ s) [] (w ++ s) :=
        .emit plainOp deep fun _ _ => moves_op effect s rfl rfl
      cases ops with
      | nil => exact step.bind (Leads.nothing.restack fun _ => by rw [beq_iff_eq.mp chain'])
      | cons op' ops' => exact step.bind (ih plainRest (fun _ => chain') (Nat.le_trans (small (by simp)) one))
    · have step : Leads g known (Code.emit op) (u ++ s) [] ([] ++ s) :=
        .emit plainOp deep fun yes => absurd yes typed
      exact step.bind (ih plainRest (fun yes => absurd yes typed) (Nat.zero_le _))

theorem Emits.leads_logic {a : Expr} (left : Emits g known a) (right : Emits g known b)
    (fits : g.rules.typed → a.type.words = [.int] ∧ b.type.words = [.int]) : Emits g known (.logic conj a b) := by
  intro w s ready truth above opens c c' y seg run
  have deep : g.rules.typed → depth (int :: s) ≤ g.rules.limit :=
    ready.below (by simp only [need, depth_cons, size]; omega)
  have first : ∀ outcome, Leads g known (a.emit (.jump outcome)) s [⟨s, known⟩] s := fun _ =>
    left.jump (ready.part (by simp only [need]; omega) fun l hl => mem_append_left _ hl) fun typed => (fits typed).1
  have second : Leads g known (b.emit (.jump false)) s [⟨s, known⟩] s :=
    right.jump (ready.part (by simp only [need]; omega) fun l hl => mem_append_right _ hl) fun typed => (fits typed).2
  have one : Leads g known (Code.emit .iconst1) s [] (.int :: s) :=
    Value.leads_short (by decide) (by decide) (shallow deep)
  have zero : Leads g known (Code.emit .iconst0) s [] (.int :: s) :=
    Value.leads_short (by decide) (by decide) (shallow deep)
  have turned : Leads g known w.ofValue (.int :: s) (w.opens s known) (w.leaves .boolean s) :=
    leads_ofValue (t := .boolean) deep truth
  cases conj with
  | true =>
    simp only [emit, Yields.bind_iff] at run
    obtain ⟨_, c1, one', _, c2, two, _, c3, push, _, c4, past, _, c5, swap, _, c6, pop, _, c7, swap', _, c8, pop',
      _, c9, push', _, c10, join, rest⟩ := run
    have h3 := one above (second above (first false above seg one') two) push
    have h6 := exchange_segment h3 past swap pop deep above
    have h9 := zero above ((h6.swapSites swap').joinSite pop') push'
    exact turned above (h9.joinSite join) rest
  | false =>
    simp only [emit, Yields.bind_iff] at run
    obtain ⟨_, c1, one', _, c2, two, _, c3, swap, _, c4, pop, _, c5, push, _, c6, tail, rest⟩ := run
    have h2 := second above (first true above seg one') two
    have h5 := one above ((h2.swapSites swap).joinSite pop) push
    exact turned above (falseTail_segment h5 tail deep above) rest

/-- The operands of a comparison are tested by one branch, wide and fractional ones through their
comparison. -/
theorem Emits.leads_compare {cmp : Cmp} {a : Expr} (left : Emits g known a) (right : Emits g known b)
    (equality : a.type.isReference = true → cmp.isEquality = true)
    (fits : g.rules.typed → a.type.kind ≠ .void ∧ b.type.words = a.type.words) : Emits g known (.compare cmp a b) := by
  intro w s ready truth
  obtain ⟨readyA, readyB⟩ := ready.pair (by simp only [need]; omega)
  have deep : g.rules.typed → depth (int :: s) ≤ g.rules.limit :=
    ready.below (by simp only [need, depth_cons, size]; omega)
  refine leads_testValue deep fun outcome => ?_
  have equal := cmp.isEquality_branch outcome
  generalize (if outcome then cmp else cmp.negate) = branch at equal
  obtain ⟨order, icmp, acmp⟩ := branch_forms branch
  have null := nullBranch_forms branch
  have first := left.value readyA
  have second := right.value readyB
  by_cases reference : a.type.isReference = true
  · have wordsA : a.type.words = [.reference] := by
      have : a.type.kind = .reference := by simpa [JType.isReference] using reference
      rw [JType.words, this]
      rfl
    split_ifs
    · have alone : Ready g.rules ⟨s, known⟩ b.need b.reads :=
        ready.part (by simp only [need]; omega) fun l hl => mem_append_right _ hl
      exact (right.value alone).bind (.branch null alone.value fun typed => by rw [(fits typed).2, wordsA])
    · exact first.bind (.branch null readyA.value fun _ => by rw [wordsA])
    · exact first.bind (second.bind (.branch (acmp (equal (equality reference))) readyB.value fun typed => by
        rw [(fits typed).2, wordsA]
        rfl))
  · rw [if_neg reference]
    have both : g.rules.typed → b.type.words ++ (a.type.words ++ s) = a.type.words ++ a.type.words ++ s := by
      intro typed
      rw [(fits typed).2, append_assoc]
    have viaInt : ∀ {op : Opcode} {pair : List Word}, op.isPlain = true → op.effect? = some ⟨pair, [.int]⟩ →
        a.type.words ++ a.type.words = pair → Leads g known
          (do Code.emit op; Code.pushSite (ifeq.plus branch.offset)) (b.type.words ++ (a.type.words ++ s))
          [⟨s, known⟩] s := fun plain effect same =>
      .bind (.emit plain readyB.value fun typed _ => moves_op effect s (by rw [both typed, same]) rfl)
        (.branch order deep fun _ => rfl)
    obtain ⟨plain, effect⟩ := nanCompare_forms cmp
    refine first.bind (second.bind ?_)
    split
    · rename_i kind
      have wide : lcmp.effect? = some ⟨[.long, .long], [.int]⟩ := by decide
      exact viaInt (by decide) wide (by rw [JType.words, kind]; rfl)
    · rename_i kind
      exact viaInt plain.1 effect.1 (by rw [JType.words, kind]; rfl)
    · rename_i kind
      exact viaInt plain.2 effect.2 (by rw [JType.words, kind]; rfl)
    · rename_i notLong notFloat notDouble
      refine .branch icmp readyB.value fun typed => ?_
      have notReference : a.type.kind ≠ .reference := by simpa [JType.isReference] using reference
      have words : a.type.words = [.int] := by
        unfold JType.words
        cases kind : a.type.kind with
        | void => exact absurd kind (fits typed).1
        | reference => exact absurd kind notReference
        | prim p => cases p <;> simp_all [Kind.words]
      rw [both typed, words]
      rfl

theorem Good.emits (good : e.Good g.rules) : Emits g known e := by
  have allocates : Opcode.new.effect? = some ⟨[], [.reference]⟩ := by decide
  induction good with
  | @const t v ref words linked named =>
    intro w s ready truth
    exact leads_finish ready truth (Value.leads_emit ready.depth words linked named)
  | @self t asSuper fits receiver held =>
    intro w s ready truth
    exact leads_finish ready truth ((Leads.receiver held (fun strict => ready.given (receiver strict)) ready.depth).restack
      fun typed => by rw [type, fits typed]; rfl)
  | @«local» l held value =>
    intro w s ready truth
    exact leads_finish ready truth fun above _ _ _ _ seg run =>
      seg.load run held (fun strict => ready.reads strict l (by simp [reads])) value ready.depth above
  | @staticGet t owner name ref names effect =>
    intro w s ready truth
    exact leads_finish ready truth (.emitU2 (by decide) (fun _ => names) ready.depth fun typed _ =>
      moves_ref (effect typed) s rfl rfl)
  | @primitiveClass of ref names effect =>
    intro w s ready truth
    exact leads_finish ready truth (.emitU2 (by decide) (fun _ => names) ready.depth fun typed _ =>
      moves_ref (effect typed) s rfl (by rw [type, JType.words_ofClass]))
  | @fieldGet t name ref a goodA names effect ihA =>
    exact ihA.unary rfl (by simp only [need]; omega) (fun _ hl => hl) fun s deep =>
      .emitU2 (by decide) (fun _ => names) deep fun typed _ => moves_ref (effect typed) s rfl rfl
  | @arrayLength a goodA fits ihA =>
    have effect : Opcode.arraylength.effect? = some ⟨[.reference], [.int]⟩ := by decide
    exact ihA.unary rfl (by simp only [need]; omega) (fun _ hl => hl) fun s deep =>
      .emit (by decide) deep fun typed _ => moves_op effect s (by rw [fits typed]) rfl
  | @convert t ops implicit a goodA plain chain ihA =>
    intro w s ready truth
    have first : Ready g.rules ⟨s, known⟩ a.need a.reads := ready.part (by simp only [need]; omega) fun l hl => hl
    exact (ihA.value first).bind (leads_finish ready truth (leads_converts plain chain ready.fits
      (by simp only [need, JType.depth_words]; omega) (by simp only [need]; omega)))
  | @checkCast t ref a goodA names fits ihA =>
    have effect : Opcode.checkcast.effect? = some ⟨[.reference], [.reference]⟩ := by decide
    exact ihA.unary rfl (by simp only [need]; omega) (fun _ hl => hl) fun s deep =>
      .emitU2 (by decide) (fun _ => names) deep fun typed _ =>
        moves_op effect s (by rw [(fits typed).1]) (by rw [type, (fits typed).2])
  | @instanceOf t ref a goodA names fits ihA =>
    have effect : Opcode.instanceof.effect? = some ⟨[.reference], [.int]⟩ := by decide
    exact ihA.unary rfl (by simp only [need]; omega) (fun _ hl => hl) fun s deep =>
      .emitU2 (by decide) (fun _ => names) deep fun typed _ => moves_op effect s (by rw [fits typed]) rfl
  | @neg t a goodA effect ihA =>
    exact ihA.unary rfl (by simp only [need]; omega) (fun _ hl => hl) fun s deep =>
      .emit (isPlain_neg t) deep fun typed _ => moves_op (effect typed) s rfl rfl
  | @newArray elem ref n goodN names fits ihN =>
    have effects : Opcode.newarray.effect? = some ⟨[.int], [.reference]⟩ ∧
        Opcode.anewarray.effect? = some ⟨[.int], [.reference]⟩ := by decide
    intro w s ready truth
    have first : Ready g.rules ⟨s, known⟩ n.need n.reads := ready.part (by simp only [need]; omega) fun l hl => hl
    refine (ihN.value first).bind ?_
    split_ifs with primitive
    · exact leads_finish ready truth (.emitU1 (by decide) (by rintro ⟨⟩) first.value fun typed _ =>
        moves_op effects.1 s (by rw [(fits typed).1]) (by rw [type, (fits typed).2]))
    · exact leads_finish ready truth (.emitU2 (by decide) (fun _ => names (by simpa using primitive)) first.value
        fun typed _ => moves_op effects.2 s (by rw [(fits typed).1]) (by rw [type, (fits typed).2]))
  | @arrayGet t a i goodA goodI effect ihA ihI =>
    intro w s ready truth
    obtain ⟨readyA, readyI⟩ := ready.pair (by simp only [need]; omega)
    exact (ihA.value readyA).bind ((ihI.value readyI).bind (leads_finish ready truth
      (.emit (isPlain_arrayLoad t) readyI.value fun typed _ => moves_op (effect typed) s (by simp) rfl)))
  | @binary t op a b goodA goodB plain effect ihA ihB =>
    intro w s ready truth
    obtain ⟨readyA, readyB⟩ := ready.pair (by simp only [need]; omega)
    exact (ihA.value readyA).bind ((ihB.value readyB).bind (leads_finish ready truth
      (.emit plain readyB.value fun typed _ => moves_op (effect typed) s (by simp) rfl)))
  | @invoke t target implicit args goodArgs op names effect ihArgs =>
    intro w s ready truth
    have fits : g.rules.typed → depth (argWords args ++ s) ≤ g.rules.limit :=
      ready.below (by
        have := depth_argWords_le args
        simp only [need, depth_append]
        omega)
    refine (leads_emitAll ihArgs (ready.part (by simp only [need]; omega) fun l hl => hl)).bind ?_
    split_ifs with interface
    · exact leads_finish ready truth fun above _ _ _ _ seg run => seg.emitInterface run (interface ▸ names) fits
        (fun typed => moves_ref (interface ▸ effect typed) s rfl rfl) above
    · have forms : target.op.length = 3 ∧ target.op.isBranch = false ∧ target.op.isQuiet = true := by
        simp only [mem_cons, not_mem_nil, or_false] at op
        rcases op with same | same | same | same
        · rw [same]; decide
        · rw [same]; decide
        · rw [same]; decide
        · exact absurd same interface
      exact leads_finish ready truth (.emitU2 forms (fun _ => names) fits fun typed _ =>
        moves_ref (effect typed) s rfl rfl)
  | @new t classRef constructor args goodArgs created called effect ihArgs =>
    intro w s ready truth
    have two : Expr.need (.new t classRef constructor args) ≥ 2 + needSeq 0 args := by
      simp only [need, needSeq_add 2]
      omega
    have object : Leads g known (Code.emitU2 .new classRef) s [] (.reference :: s) :=
      .emitU2 (by decide) (fun _ => created) ready.depth fun _ _ => moves_op allocates s rfl rfl
    have copy : Leads g known (Code.emit .dup) (.reference :: s) [] (.reference :: .reference :: s) :=
      .emit (by decide) (ready.below (by simp only [depth_cons, size]; omega)) fun _ _ => .dup s rfl rfl
    refine object.bind (copy.bind ((leads_emitAll ihArgs ?_).bind (leads_finish ready truth (.emitU2 (by decide)
      (fun _ => called) ?_ fun typed _ => moves_ref (effect typed).2 (.reference :: s) (by simp) ?_))))
    · exact ready.part (by simp only [depth_cons, size]; omega) fun l hl => hl
    · have := depth_argWords_le args
      exact ready.below (by simp only [depth_append, depth_cons, size]; omega)
    · rw [type, (effect typed).1]
      rfl
  | @concat refs a b goodA goodB names effects ihA ihB =>
    intro w s ready truth
    obtain ⟨namesBuilder, namesInit, namesFirst, namesSecond, namesFinish⟩ := names
    have two : ∀ {t : List Word}, depth t ≤ depth s + 2 → g.rules.typed → depth t ≤ g.rules.limit :=
      fun less => ready.below (by simp only [need]; omega)
    have readyA : Ready g.rules ⟨.reference :: s, known⟩ a.need a.reads :=
      ready.part (by simp only [need, depth_cons, size]; omega) fun l hl => mem_append_left _ hl
    have readyB : Ready g.rules ⟨.reference :: s, known⟩ b.need b.reads :=
      ready.part (by simp only [need, depth_cons, size]; omega) fun l hl => mem_append_right _ hl
    have object : Leads g known (Code.emitU2 .new refs.builder) s [] (.reference :: s) :=
      .emitU2 (by decide) (fun _ => namesBuilder) ready.depth fun _ _ => moves_op allocates s rfl rfl
    have copy : Leads g known (Code.emit .dup) (.reference :: s) [] (.reference :: .reference :: s) :=
      .emit (by decide) (two (by simp only [depth_cons, size]; omega)) fun _ _ => .dup s rfl rfl
    have init : Leads g known (Code.emitU2 .invokespecial refs.init) (.reference :: .reference :: s) [] (.reference :: s) :=
      .emitU2 (by decide) (fun _ => namesInit) (two (by simp only [depth_cons, size]; omega)) fun typed _ =>
        moves_ref (effects typed).1 (.reference :: s) rfl rfl
    have appendA : Leads g known (Code.emitU2 .invokevirtual refs.first) (a.type.words ++ .reference :: s) [] (.reference :: s) :=
      .emitU2 (by decide) (fun _ => namesFirst) readyA.value fun typed _ => moves_ref (effects typed).2.1 s (by simp) rfl
    have appendB : Leads g known (Code.emitU2 .invokevirtual refs.second) (b.type.words ++ .reference :: s) [] (.reference :: s) :=
      .emitU2 (by decide) (fun _ => namesSecond) readyB.value fun typed _ => moves_ref (effects typed).2.2.1 s (by simp) rfl
    have finish : Leads g known (Code.emitU2 .invokevirtual refs.finish) (.reference :: s) [] (JType.string.words ++ s) :=
      .emitU2 (by decide) (fun _ => namesFinish) (two (by simp only [depth_cons, size]; omega)) fun typed _ =>
        moves_ref (effects typed).2.2.2 s rfl (by rw [JType.string, JType.words_ofClass])
    exact object.bind (copy.bind (init.bind ((ihA.value readyA).bind (appendA.bind ((ihB.value readyB).bind
      (appendB.bind (leads_finish ready truth finish)))))))
  | @not a goodA fits ihA =>
    intro w s ready truth
    exact leads_testValue (ready.below (by simp only [need, depth_cons, size]; omega)) fun outcome =>
      ihA.jump (ready.part (by simp only [need]; omega) fun l hl => hl) fits
  | @nullTest cmp a goodA fits ihA =>
    intro w s ready truth
    have first : Ready g.rules ⟨s, known⟩ a.need a.reads := ready.part (by simp only [need]; omega) fun l hl => hl
    exact leads_testValue (ready.below (by simp only [need, depth_cons, size]; omega)) fun outcome =>
      (ihA.value first).bind (.branch (nullBranch_forms _) first.value fun typed => by rw [fits typed])
  | compare _ _ equality fits ihA ihB => exact ihA.leads_compare ihB equality fits
  | logic _ _ fits ihA ihB => exact ihA.leads_logic ihB fits

end

end Expr

end ClassForge.Assembler

import ClassForge.Proofs.Emission
import ClassForge.Proofs.Layout

/-! The code of an expression computes its value, on the stack or as a jump on one of its outcomes. -/

namespace ClassForge

open Yields Opcode

namespace Machine

open Insn

/-- The code leads from one position and stack to another. Slots and log stay. -/
def Goes (final : Array UInt8) (q : Pool) (slots : Nat → Datum) (pc : Nat) (s : List Datum) (pc' : Nat)
    (s' : List Datum) : Prop :=
  ∀ w : World, w.code = final → w.pool = q → ∀ log, Reaches w ⟨pc, s, slots, log⟩ ⟨pc', s', slots, log⟩

section

variable {final : Array UInt8} {q : Pool} {slots : Nat → Datum} {pc pc' : Nat} {s s' s'' : List Datum}

namespace Goes

variable {target : Nat}

theorem refl (final : Array UInt8) (q : Pool) (slots : Nat → Datum) (pc : Nat) (s : List Datum) :
    Goes final q slots pc s pc s :=
  fun w _ _ _ => .refl w _

theorem trans (h : Goes final q slots pc s pc' s') (k : Goes final q slots pc' s' pc'' s'') :
    Goes final q slots pc s pc'' s'' :=
  fun w code pool log => (h w code pool log).trans (k w code pool log)

theorem of_run (found : Found final pc i next)
    (run : ∀ w : World, w.pool = q → ∀ log, i.run w next ⟨pc, s, slots, log⟩ = .runs ⟨pc', s', slots, log⟩) :
    Goes final q slots pc s pc' s' := by
  rintro w rfl pool log
  exact .one (found.step.trans (run w pool log))

theorem push (found : Found final pc (.push d) pc') : Goes final q slots pc s pc' (d :: s) :=
  of_run found fun _ _ _ => rfl

theorem load (found : Found final pc (.load word slot) pc')
    (holds : (slots slot).word = word) : Goes final q slots pc s pc' (slots slot :: s) :=
  of_run found fun _ _ _ => by simp [Insn.run, holds, State.goOn]

theorem operate (found : Found final pc (.operate op) pc') (applies : op.apply s = some s') :
    Goes final q slots pc s pc' s' :=
  of_run found fun _ _ _ => by simp [Insn.run, applies, State.goOn]

theorem branch (found : Found final pc (.branch test target) pc')
    (decides : test.decide s = some (taken, s')) : Goes final q slots pc s (if taken then target else pc') s' :=
  of_run found fun _ _ _ => by simp [Insn.run, decides, State.goOn]

theorem goto (found : Found final pc (.branch .always target) pc') : Goes final q slots pc s target s := by
  have taken : Test.always.decide s = some (true, s) := rfl
  exact branch found taken

end Goes

end

end Machine

namespace Assembler

open Machine Insn Code

def Cmp.condition : Cmp → Condition
  | .eq => .eq
  | .ne => .ne
  | .lt => .lt
  | .ge => .ge
  | .gt => .gt
  | .le => .le

theorem Cmp.holds_negate (c : Cmp) (x y : Int32) : c.negate.condition.holds x y = !c.condition.holds x y := by
  cases c <;> simp [negate, condition, Condition.holds, bne, ← decide_not, Int32.not_le, Int32.not_lt]

theorem Cmp.holds_branch (c : Cmp) (outcome : Bool) (x y : Int32) :
    (if outcome then c else c.negate).condition.holds x y = (c.condition.holds x y == outcome) := by
  cases outcome with
  | true => simp
  | false => simp [holds_negate]

set_option maxRecDepth 1000 in
theorem Cmp.tests (c : Cmp) :
    inRuns Insn.tests (ifeq.plus c.offset).byte = some (.zero c.condition) ∧
    inRuns Insn.tests (ifIcmpeq.plus c.offset).byte = some (.ints c.condition) ∧
    (c.isEquality = true → inRuns Insn.tests (ifAcmpeq.plus c.offset).byte = some (.refs (c == .eq)) ∧
      inRuns Insn.tests c.nullBranch.byte = some (.null (c == .eq))) := by
  cases c <;> decide

namespace Expr

variable {ι : Type} (q : Pool) (view : ι → Nat → Datum) {cmp : Cmp} {d : Datum} {op : Opcode} {ref : UInt16}
  {v : Value} {word : Word} {holds m n : ι → Bool}

def Pushes (final : Array UInt8) (pc pc' : Nat) (f : ι → Datum) : Prop :=
  ∀ x s, Goes final q (view x) pc s pc' (f x :: s)

/-- The code takes the branch at `site` where the value is the outcome, and goes on to its end
otherwise. -/
def Jumps (final : Array UInt8) (pc pc' site : Nat) (outcome : Bool) (f : ι → Datum) : Prop :=
  ∀ target, Directs final site target → ∀ x b s, f x = .ofBool b →
    Goes final q (view x) pc s (if b = outcome then target else pc') s

/-- The code that is written for the expression computes the value. A situation `x` has the slots `view x`. -/
structure Computes (e : Expr) (f : ι → Datum) : Prop where
  value : ∀ {base : Nat} {opened : List Nat} {c c' : Code} {y : Unit}, c.Sited base opened →
    Yields (e.emit .value) c y c' →
      c'.sites = c.sites ∧ Code.Leads base opened c opened c' (Pushes q view · c.pos c'.pos f)
  jump : ∀ {outcome : Bool} {base : Nat} {opened : List Nat} {c c' : Code} {y : Unit}, c.Sited base opened →
    Yields (e.emit (.jump outcome)) c y c' → ∃ site, c'.sites = site :: c.sites ∧
      Code.Leads base opened c (site :: opened) c' (Jumps q view · c.pos c'.pos site outcome f)

variable {q : Pool} {view : ι → Nat → Datum} {e a b : Expr} {f : ι → Datum} {base : Nat} {opened : List Nat}
  {c c' : Code} {y : Unit}

theorem ofBool_inj {b c : Bool} (h : Datum.ofBool b = .ofBool c) : b = c := by
  cases b <;> cases c <;> first | rfl | exact absurd h (by decide)

theorem Computes.of_value (body : ∀ {w : Want} {base : Nat} {opened : List Nat} {c c' : Code} {y : Unit},
    c.Sited base opened → Yields (e.emit w) c y c' → ∃ c1, Yields w.ofValue c1 y c' ∧ c1.sites = c.sites ∧
      Code.Leads base opened c opened c1 (Pushes q view · c.pos c1.pos f)) : Computes q view e f where
  value sited run := by
    obtain ⟨c1, rest, sites, leads⟩ := body sited run
    obtain ⟨-, rfl⟩ := pure_iff.mp rest
    exact ⟨sites, leads⟩
  jump {outcome _ _ _ c' _} sited run := by
    obtain ⟨c1, rest, sites, leads⟩ := body sited run
    have form : inRuns tests (if outcome then ifne else .ifeq).byte =
        some (.zero (if outcome then .ne else .eq)) := by
      cases outcome with
      | true => exact (Cmp.tests .ne).1
      | false => exact (Cmp.tests .eq).1
    obtain ⟨sites', leads'⟩ := leads_test form leads.sited rest
    refine ⟨c1.pos, by rw [sites', sites], (leads.trans leads').imp ?_⟩
    rintro final ⟨pushes, branches⟩ target directs x b s holds
    have first := pushes x s
    rw [holds] at first
    refine first.trans ?_
    have decides : (Test.zero (if outcome then .ne else .eq)).decide (.ofBool b :: s) = some (b == outcome, s) := by
      cases outcome <;> cases b <;> rfl
    have second : Goes final q (view x) c1.pos (.ofBool b :: s) _ s := .branch (branches target directs) decides
    simpa using second

theorem isZero : inRuns plain iconst0.byte = some (.push (.int 0)) := by decide

theorem isOne : inRuns plain iconst1.byte = some (.push (.int 1)) := by decide

theorem isGoto : inRuns tests goto.byte = some .always := by decide

theorem leads_falseTail (sited : c.Sited base (site :: opened)) (top : c.sites = site :: rest)
    (run : Yields falseTail c y c') : c'.sites = rest ∧
    Code.Leads base (site :: opened) c opened c' fun final => ∃ target, Directs final site target ∧ ∀ slots s,
    Goes final q slots c.pos s c'.pos s ∧ Goes final q slots target s c'.pos (.int 0 :: s) := by
  simp only [falseTail, bind_iff] at run
  obtain ⟨_, c1, past, _, c2, swap, _, c3, first, _, c4, zero, join⟩ := run
  obtain ⟨sites1, leads1⟩ := leads_test isGoto sited past
  obtain ⟨sites2, pos2, leads2⟩ := leads_swapSites leads1.sited (by rw [sites1, top]) swap
  obtain ⟨sites3, pos3, leads3⟩ := leads_popSite leads2.sited sites2 first
  obtain ⟨sites4, leads4⟩ := leads_plain isZero leads3.sited zero
  obtain ⟨sites5, pos5, leads5⟩ := leads_popSite leads4.sited (sites4.trans sites3) join
  refine ⟨sites5, ((((leads1.trans leads2).trans leads3).trans leads4).trans leads5).imp ?_⟩
  rintro final ⟨⟨⟨⟨branches, -⟩, directs⟩, zero⟩, joins⟩
  refine ⟨c2.pos, directs, fun slots s => ⟨?_, ?_⟩⟩
  · rw [pos5]
    exact .goto (branches _ joins)
  · rw [pos5, ← pos3]
    exact .push zero

theorem Computes.of_test {test : Bool → Code.Action Unit} (same : ∀ w, e.emit w = testValue test w)
    (jumps : ∀ {outcome : Bool} {base : Nat} {opened : List Nat} {c c' : Code} {y : Unit}, c.Sited base opened →
      Yields (test outcome) c y c' → ∃ site, c'.sites = site :: c.sites ∧
        Code.Leads base opened c (site :: opened) c' fun final => ∀ target, Directs final site target →
          ∀ x s, Goes final q (view x) c.pos s (if holds x = outcome then target else c'.pos) s) :
    Computes q view e fun x => .ofBool (holds x) where
  value {_ _ c c' _} sited run := by
    rw [same] at run
    simp only [testValue, bind_iff] at run
    obtain ⟨_, c1, jump, _, c2, one, tail⟩ := run
    obtain ⟨site, sites1, leads1⟩ := jumps sited jump
    obtain ⟨sites2, leads2⟩ := leads_plain isOne leads1.sited one
    obtain ⟨sites3, leads3⟩ := leads_falseTail (q := q) leads2.sited (sites2.trans sites1) tail
    refine ⟨sites3, ((leads1.trans leads2).trans leads3).imp ?_⟩
    rintro final ⟨⟨jump, one⟩, target, directs, tail⟩ x s
    have first := jump target directs x s
    dsimp only
    cases value : holds x with
    | true =>
      rw [value] at first
      exact (first.trans (.push one)).trans (tail (view x) _).1
    | false =>
      rw [value] at first
      exact first.trans (tail (view x) s).2
  jump sited run := by
    rw [same] at run
    obtain ⟨site, sites, leads⟩ := jumps sited run
    refine ⟨site, sites, leads.imp fun final jump target directs x b s value => ?_⟩
    rw [← ofBool_inj value]
    exact jump target directs x s

def constantDatum : Value → Option Datum
  | .null => some (.ref none)
  | .bool b => some (.ofBool b)
  | .int n => some (.int n)
  | .long n => some (.long n)
  | _ => none

theorem integer_of_reference? {p : Pool} {v : UInt32} (h : p.reference? ref = some (.integer v)) :
    p.get? ref = some (.integer v) := by
  unfold Pool.reference? at h
  split at h <;> simp_all [Option.bind_eq_some_iff]

theorem long_of_reference? {p : Pool} {v : UInt64} (h : p.reference? ref = some (.long v)) :
    p.get? ref = some (.long v) := by
  unfold Pool.reference? at h
  split at h <;> simp_all [Option.bind_eq_some_iff]

theorem toInt32_low16 {n : Int32} (low : -128 ≤ n.toInt) (high : n.toInt ≤ 127) :
    (low16 n.toInt).toUInt8.toInt8.toInt32 = n := by
  apply Int32.toInt_inj.mp
  have byte : (low16 n.toInt).toUInt8.toInt8.toInt = ((low16 n.toInt).toUInt8.toNat : Int).bmod 256 := by
    rw [Int8.toInt, UInt8.toBitVec_toInt8, BitVec.toInt_eq_toNat_bmod]
    rfl
  rw [Int8.toInt_toInt32, byte]
  simp only [low16, UInt16.toNat_toUInt8, UInt16.toNat_ofNat']
  simp only [Int.bmod]
  omega

theorem inRuns_iconst {n : Int32} (low : -1 ≤ n.toInt) (high : n.toInt ≤ 5) :
    inRuns plain (iconstM1.plus (n.toInt + 1).toNat.toUInt8).byte = some (.push (.int n)) := by
  obtain ⟨k, hk⟩ : ∃ k : Fin 7, n.toInt + 1 = (k.val : Int) :=
    ⟨⟨(n.toInt + 1).toNat, by omega⟩, by simp; omega⟩
  have same : n = Int32.ofNat k - 1 := by
    apply Int32.toInt_inj.mp
    simp [Int.bmod]
    omega
  have all : ∀ k : Fin 7, inRuns plain (iconstM1.plus k.val.toUInt8).byte =
      some (.push (.int (Int32.ofNat k - 1))) := by
    decide
  rw [hk, same, Int.toNat_natCast]
  exact all k

theorem writes_short (datum : constantDatum v = some d) (short : v.Short) : Code.Writes (v.emit 0) (.push d) := by
  cases v with
  | null =>
    cases datum
    exact Code.writes_plain (by decide)
  | bool b =>
    cases datum
    cases b <;> exact Code.writes_plain (by decide)
  | int n =>
    cases datum
    simp only [Value.emit]
    split_ifs with tiny small far
    · exact Code.writes_plain (inRuns_iconst tiny.1 tiny.2)
    · exact Code.writes_byte (by decide)
        (congrArg (fun n => some (Insn.push (.int n))) (toInt32_low16 small.1 small.2))
    · have shown : Int32.ofInt (Instruction.offset (low16 n.toInt >>> 8).toUInt8 (low16 n.toInt).toUInt8) = n := by
        rw [Instruction.offset_low16 short.1 short.2, Int32.ofInt_toInt]
      exact Code.writes_two (by decide) (fun _ => rfl) fun _ => congrArg (fun n => some (Insn.push (.int n))) shown
    · contradiction
  | long n =>
    cases datum
    rcases short with rfl | rfl <;> exact Code.writes_plain (by decide)
  | float | double | text | type => cases datum

theorem writes_entry (long : ¬ v.Short) (entry : ref ≠ 0) :
    Code.Writes (v.emit ref) (.constant ref (v.word.size == 2)) := by
  have loads : v.emit ref = Code.ldc ref (v.word.size == 2) := by
    cases v with
    | null | bool => exact absurd trivial long
    | int n =>
      simp only [Value.Short] at long
      simp only [Value.emit]
      rw [if_neg (by omega), if_neg (by omega), if_neg long]
      rfl
    | long | float | double => exact if_neg entry
    | text | type => rfl
  rw [loads]
  exact Code.writes_ldc _ _

theorem computes_const {t : JType} (datum : constantDatum v = some d)
    (entered : v.Entered q ref) : Computes q view (.const t v ref) fun _ => d := by
  refine .of_value fun {w base opened c c' y} sited run => ?_
  simp only [emit, bind_iff] at run
  obtain ⟨_, c1, constant, rest⟩ := run
  refine ⟨c1, rest, ?_⟩
  rcases entered with ⟨short, rfl⟩ | ⟨long, entry, r, same, found⟩
  · obtain ⟨sites, leads⟩ := (writes_short datum short).leads sited constant
    exact ⟨sites, leads.imp fun final found x s => .push found⟩
  · obtain ⟨sites, leads⟩ := (writes_entry long entry).leads sited constant
    refine ⟨sites, leads.imp fun final here x s => .of_run here fun w pool log => ?_⟩
    cases v with
    | null | bool => exact absurd trivial long
    | int n =>
      cases datum
      cases same
      simp [Insn.run, pool, integer_of_reference? found, State.goOn, Value.word, Word.size]
    | long n =>
      cases datum
      cases same
      simp [Insn.run, pool, long_of_reference? found, State.goOn, Value.word, Word.size]
    | float | double | text | type => cases datum

theorem load_forms (words : k.words = [word]) (known : word ∈ [Word.int, .long, .reference]) :
    (∀ n < 4, inRuns plain ((Opcode.load k).2.plus n.toUInt8).byte = some (.load word n)) ∧
      ∀ n, onSlot (Opcode.load k).1.byte n = some (.load word n) := by
  cases k with
  | void => cases words
  | reference =>
    cases words
    exact ⟨by decide, fun _ => rfl⟩
  | prim p =>
    cases p with
    | float | double =>
      cases words
      exact absurd known (by decide)
    | _ =>
      cases words
      exact ⟨by decide, fun _ => rfl⟩

theorem computes_local (words : l.type.words = [word]) (known : word ∈ [Word.int, .long, .reference])
    (holds : ∀ x, (view x l.slot).word = word) : Computes q view (.local l) fun x => view x l.slot := by
  refine .of_value fun {w base opened c c' y} sited run => ?_
  simp only [emit, bind_iff] at run
  obtain ⟨_, c1, load, rest⟩ := run
  obtain ⟨tiny, long⟩ := load_forms words known
  obtain ⟨sites, leads⟩ := leads_local tiny long sited load
  exact ⟨c1, rest, sites, leads.imp fun final found x s => .load found (holds x)⟩

/-- The instruction takes the operands from the stack and puts the result there. -/
def Operates (op : Opcode) (s s' : List Datum) : Prop :=
  ∃ o, inRuns plain op.byte = some (.operate o) ∧ o.apply s = some s'

def OperatesAll : List Opcode → List Datum → List Datum → Prop
  | [], s, s' => s = s'
  | op :: ops, s, s'' => ∃ s', Operates op s s' ∧ OperatesAll ops s' s''

theorem leads_operates (form : inRuns plain op.byte = some (.operate o))
    (sited : c.Sited base opened) (run : Yields (Code.emit op) c y c') :
    c'.sites = c.sites ∧ Code.Leads base opened c opened c' fun final =>
      ∀ slots s s', Operates op s s' → Goes final q slots c.pos s c'.pos s' := by
  obtain ⟨sites, leads⟩ := leads_plain form sited run
  refine ⟨sites, leads.imp fun final found slots s s' operates => ?_⟩
  obtain ⟨o', form', applies⟩ := operates
  rw [form] at form'
  cases form'
  exact .operate found applies

theorem leads_operatesAll
    (forms : ∀ op ∈ ops, ∃ o, inRuns plain op.byte = some (.operate o)) (sited : c.Sited base opened)
    (run : Yields (ops.forM Code.emit) c y c') : c'.sites = c.sites ∧ Code.Leads base opened c opened c' fun final =>
      ∀ slots s s', OperatesAll ops s s' → Goes final q slots c.pos s c'.pos s' := by
  induction ops generalizing c y with
  | nil =>
    obtain ⟨-, rfl⟩ := pure_iff.mp run
    refine ⟨rfl, (Leads.refl sited).imp fun final _ slots s s' same => ?_⟩
    cases same
    exact .refl _ _ _ _ _
  | cons op ops ih =>
    obtain ⟨_, c1, first, rest⟩ := bind_iff.mp run
    obtain ⟨o, form⟩ := forms op List.mem_cons_self
    obtain ⟨sites1, leads1⟩ := leads_operates (q := q) form sited first
    obtain ⟨sites2, leads2⟩ := ih (fun op hop => forms op (List.mem_cons_of_mem _ hop)) leads1.sited rest
    refine ⟨sites2.trans sites1, (leads1.trans leads2).imp ?_⟩
    rintro final ⟨one, others⟩ slots s s'' ⟨s', operates, more⟩
    exact (one slots s s' operates).trans (others slots s' s'' more)

theorem Computes.convert (ha : Computes q view a f) (forms : ∀ op ∈ ops, ∃ o, inRuns plain op.byte = some (.operate o))
    (operates : ∀ x s, OperatesAll ops (f x :: s) (g x :: s)) : Computes q view (.convert t ops implicit a) g := by
  refine .of_value fun {w base opened c c' y} sited run => ?_
  simp only [emit, bind_iff] at run
  obtain ⟨_, c1, operand, _, c2, steps, rest⟩ := run
  obtain ⟨sites1, leads1⟩ := ha.value sited operand
  obtain ⟨sites2, leads2⟩ := leads_operatesAll (q := q) forms leads1.sited steps
  refine ⟨c2, rest, sites2.trans sites1, (leads1.trans leads2).imp ?_⟩
  rintro final ⟨pushes, converts⟩ x s
  exact (pushes x s).trans (converts _ _ _ (operates x s))

theorem Computes.neg (ha : Computes q view a f)
    (form : inRuns plain (ineg.plus (family t.kind)).byte = some (.operate o))
    (applies : ∀ x s, o.apply (f x :: s) = some (g x :: s)) : Computes q view (.neg t a) g := by
  refine .of_value fun {w base opened c c' y} sited run => ?_
  simp only [emit, bind_iff] at run
  obtain ⟨_, c1, operand, _, c2, negate, rest⟩ := run
  obtain ⟨sites1, leads1⟩ := ha.value sited operand
  obtain ⟨sites2, leads2⟩ := leads_plain form leads1.sited negate
  refine ⟨c2, rest, sites2.trans sites1, (leads1.trans leads2).imp ?_⟩
  rintro final ⟨pushes, found⟩ x s
  exact (pushes x s).trans (.operate found (applies x s))

theorem leads_both (ha : Computes q view a f) (hb : Computes q view b g) (sited : c.Sited base opened)
    (left : Yields (a.emit .value) c y c1) (right : Yields (b.emit .value) c1 y1 c') : c'.sites = c.sites ∧
    Code.Leads base opened c opened c' fun final => ∀ x s, Goes final q (view x) c.pos s c'.pos (g x :: f x :: s) := by
  obtain ⟨sites1, leads1⟩ := ha.value sited left
  obtain ⟨sites2, leads2⟩ := hb.value leads1.sited right
  exact ⟨sites2.trans sites1, (leads1.trans leads2).imp fun final both x s => (both.1 x s).trans (both.2 x _)⟩

theorem Computes.binary {op : BinaryOp} (ha : Computes q view a f)
    (hb : Computes q view b g) (form : inRuns plain (op.opcode t).byte = some (.operate o))
    (applies : ∀ x s, o.apply (g x :: f x :: s) = some (h x :: s)) : Computes q view (.binary t op a b) h := by
  refine .of_value fun {w base opened c c' y} sited run => ?_
  simp only [emit, bind_iff] at run
  obtain ⟨_, c1, left, _, c2, right, _, c3, operate, rest⟩ := run
  obtain ⟨sites1, leads1⟩ := leads_both ha hb sited left right
  obtain ⟨sites2, leads2⟩ := leads_plain form leads1.sited operate
  refine ⟨c3, rest, sites2.trans sites1, (leads1.trans leads2).imp ?_⟩
  rintro final ⟨pushes, found⟩ x s
  exact (pushes x s).trans (.operate found (applies x s))

theorem Computes.not (ha : Computes q view a fun x => .ofBool (holds x)) :
    Computes q view (.not a) fun x => .ofBool (!holds x) := by
  refine .of_test (fun w => by rw [emit]) fun {outcome base opened c c' y} sited run => ?_
  obtain ⟨site, sites, leads⟩ := ha.jump sited run
  refine ⟨site, sites, leads.imp fun final jumps target directs x s => ?_⟩
  have flip : (holds x = !outcome) ↔ (!holds x) = outcome := by
    cases holds x <;> cases outcome <;> decide
  simpa only [flip] using jumps target directs x (holds x) s rfl

theorem leads_tested {operands : ι → List Datum → List Datum} (form : inRuns tests op.byte = some test)
    (sites : c1.sites = c.sites)
    (leads : Code.Leads base opened c opened c1 fun final => ∀ x s, Goes final q (view x) c.pos s c1.pos (operands x s))
    (decides : ∀ x s, test.decide (operands x s) = some (holds x == outcome, s))
    (run : Yields (Code.pushSite op) c1 y c') : ∃ site, c'.sites = site :: c.sites ∧
    Code.Leads base opened c (site :: opened) c' fun final => ∀ target, Directs final site target → ∀ x s,
    Goes final q (view x) c.pos s (if holds x = outcome then target else c'.pos) s := by
  obtain ⟨sites', leads'⟩ := leads_test form leads.sited run
  refine ⟨c1.pos, by rw [sites', sites], (leads.trans leads').imp ?_⟩
  rintro final ⟨pushes, branches⟩ target directs x s
  have second : Goes final q (view x) c1.pos (operands x s) _ s := .branch (branches target directs) (decides x s)
  refine (pushes x s).trans ?_
  simpa using second

theorem Computes.nullTest {r : ι → Option Nat} (ha : Computes q view a fun x => .ref (r x)) :
    Computes q view (.nullTest (if expected then .eq else .ne) a) fun x => .ofBool ((r x).isNone == expected) := by
  refine .of_test (fun w => by rw [emit]) fun {outcome base opened c c' y} sited run => ?_
  simp only [bind_iff] at run
  obtain ⟨_, c1, operand, branch⟩ := run
  obtain ⟨sites, leads⟩ := ha.value sited operand
  have form : inRuns tests (if outcome = true then (if expected = true then Cmp.eq else .ne)
      else (if expected = true then Cmp.eq else .ne).negate).nullBranch.byte = some (.null (expected == outcome)) := by
    cases outcome <;> cases expected <;> decide
  refine leads_tested form sites leads (fun x s => ?_) branch
  dsimp only
  cases outcome <;> cases expected <;> cases r x <;> rfl

theorem Computes.compareInts {m n : ι → Int32} (ha : Computes q view a fun x => .int (m x))
    (hb : Computes q view b fun x => .int (n x)) (kind : a.type.kind.isIntLike = true) :
    Computes q view (.compare cmp a b) fun x => .ofBool (cmp.condition.holds (m x) (n x)) := by
  refine .of_test (fun w => by rw [emit]) fun {outcome base opened c c' y} sited run => ?_
  have value : a.type.isReference ≠ true := by
    intro reference
    rw [JType.isReference, beq_iff_eq] at reference
    rw [reference] at kind
    cases kind
  rw [if_neg value] at run
  simp only [bind_iff] at run
  obtain ⟨_, c1, left, _, c2, right, branch⟩ := run
  obtain ⟨sites, pushed⟩ := leads_both ha hb sited left right
  have direct : Yields (Code.pushSite (ifIcmpeq.plus (if outcome then cmp else cmp.negate).offset)) c2 y c' := by
    split at branch <;> simp_all [Kind.isIntLike]
  refine leads_tested (Cmp.tests _).2.1 sites pushed (fun x s => ?_) direct
  simp [Test.decide, Cmp.holds_branch]

def order (x y : Int64) : Int32 := if x < y then -1 else if x = y then 0 else 1

theorem Computes.compareLongs {m n : ι → Int64} (ha : Computes q view a fun x => .long (m x))
    (hb : Computes q view b fun x => .long (n x)) (kind : a.type.kind = .prim .long) :
    Computes q view (.compare cmp a b) fun x => .ofBool (cmp.condition.holds (order (m x) (n x)) 0) := by
  refine .of_test (fun w => by rw [emit]) fun {outcome base opened c c' y} sited run => ?_
  have value : a.type.isReference ≠ true := by
    rw [JType.isReference, kind]
    decide
  rw [if_neg value, kind] at run
  simp only [bind_iff] at run
  obtain ⟨_, c1, left, _, c2, right, _, c3, compares, branch⟩ := run
  have form : inRuns plain lcmp.byte = some (.operate .lcmp) := by decide
  obtain ⟨sites1, leads1⟩ := leads_both ha hb sited left right
  obtain ⟨sites2, leads2⟩ := leads_plain form leads1.sited compares
  have pushed : Code.Leads base opened c opened c3 fun final =>
      ∀ x s, Goes final q (view x) c.pos s c3.pos (.int (order (m x) (n x)) :: s) :=
    (leads1.trans leads2).imp fun final both x s => (both.1 x s).trans (.operate both.2 rfl)
  refine leads_tested (Cmp.tests _).1 (sites2.trans sites1) pushed (fun x s => ?_) branch
  simp [Test.decide, Cmp.holds_branch]

/-- References are compared with each other, or with null where one of them is the constant. -/
theorem Computes.compareRefs {m n : ι → Option Nat} (ha : Computes q view a fun x => .ref (m x))
    (hb : Computes q view b fun x => .ref (n x)) (reference : a.type.isReference = true)
    (equality : cmp.isEquality = true) (nullA : a.isNull = true → ∀ x, m x = none)
    (nullB : b.isNull = true → ∀ x, n x = none) :
    Computes q view (.compare cmp a b) fun x => .ofBool ((m x == n x) == (cmp == .eq)) := by
  refine .of_test (fun w => by rw [emit]) fun {outcome base opened c c' y} sited run => ?_
  have equality' := cmp.isEquality_branch outcome equality
  obtain ⟨acmp, null⟩ := (Cmp.tests _).2.2 equality'
  have same : ((if outcome then cmp else cmp.negate) == .eq) = ((cmp == .eq) == outcome) := by
    cases outcome <;> cases cmp <;> first | rfl | simp [Cmp.isEquality] at equality
  rw [same] at acmp null
  have regroup : ∀ r : Bool, (r == ((cmp == .eq) == outcome)) = ((r == (cmp == .eq)) == outcome) := by
    intro r
    cases r <;> cases (cmp == .eq) <;> cases outcome <;> rfl
  generalize (if outcome then cmp else cmp.negate) = branching at run acmp null
  split_ifs at run with isNullA isNullB
  · simp only [bind_iff] at run
    obtain ⟨_, c1, right, branch⟩ := run
    obtain ⟨sites1, leads1⟩ := hb.value sited right
    refine leads_tested null sites1 leads1 (fun x s => ?_) branch
    dsimp only
    rw [nullA isNullA x, ← regroup]
    cases n x <;> rfl
  · simp only [bind_iff] at run
    obtain ⟨_, c1, left, branch⟩ := run
    obtain ⟨sites1, leads1⟩ := ha.value sited left
    refine leads_tested null sites1 leads1 (fun x s => ?_) branch
    dsimp only
    rw [nullB isNullB x, ← regroup]
    cases m x <;> rfl
  · simp only [bind_iff] at run
    obtain ⟨_, c1, left, _, c2, right, branch⟩ := run
    obtain ⟨sites1, pushed⟩ := leads_both ha hb sited left right
    refine leads_tested acmp sites1 pushed (fun x s => ?_) branch
    rw [← regroup]
    rfl

theorem Computes.conj (ha : Computes q view a fun x => .ofBool (m x)) (hb : Computes q view b fun x => .ofBool (n x)) :
    Computes q view (.logic true a b) fun x => .ofBool (m x && n x) := by
  refine .of_value fun {w base opened c c' y} sited run => ?_
  simp only [emit, bind_iff] at run
  obtain ⟨_, c1, left, _, c2, right, _, c3, one, _, c4, past, _, c5, swap, _, c6, first, _, c7, swap', _, c8, second,
    _, c9, zero, _, c10, join, rest⟩ := run
  obtain ⟨siteA, sites1, leads1⟩ := ha.jump sited left
  obtain ⟨siteB, sites2, leads2⟩ := hb.jump leads1.sited right
  obtain ⟨sites3, leads3⟩ := leads_plain isOne leads2.sited one
  obtain ⟨sites4, leads4⟩ := leads_test isGoto leads3.sited past
  rw [sites3, sites2, sites1] at sites4
  obtain ⟨sites5, pos5, leads5⟩ := leads_swapSites leads4.sited sites4 swap
  obtain ⟨sites6, pos6, leads6⟩ := leads_popSite leads5.sited sites5 first
  obtain ⟨sites7, pos7, leads7⟩ := leads_swapSites leads6.sited sites6 swap'
  obtain ⟨sites8, pos8, leads8⟩ := leads_popSite leads7.sited sites7 second
  obtain ⟨sites9, leads9⟩ := leads_plain isZero leads8.sited zero
  obtain ⟨sites10, pos10, leads10⟩ := leads_popSite leads9.sited (sites9.trans sites8) join
  refine ⟨c10, rest, sites10, ((leads1.trans leads2).trans ((leads3.trans leads4).trans ((leads5.trans leads6).trans
    ((leads7.trans leads8).trans (leads9.trans leads10))))).imp ?_⟩
  rintro final ⟨⟨jumpA, jumpB⟩, ⟨one, past⟩, ⟨-, directsB⟩, ⟨-, directsA⟩, zero, joins⟩ x s
  -- the 0 starts where both branches go
  rw [← pos6, ← pos7, ← pos8] at directsB
  rw [← pos8] at directsA
  have falls : Goes final q (view x) c8.pos s c10.pos (.int 0 :: s) := by
    rw [pos10]
    exact .push zero
  have firstA := jumpA _ directsA x (m x) s rfl
  have secondB := jumpB _ directsB x (n x) s rfl
  dsimp only
  cases valueA : m x with
  | false =>
    rw [valueA] at firstA
    exact firstA.trans falls
  | true =>
    rw [valueA] at firstA
    cases valueB : n x with
    | false =>
      rw [valueB] at secondB
      exact (firstA.trans secondB).trans falls
    | true =>
      rw [valueB] at secondB
      have leaves : Goes final q (view x) c3.pos (.int 1 :: s) c10.pos (.int 1 :: s) := by
        rw [pos10]
        exact .goto (past _ joins)
      exact ((firstA.trans secondB).trans (.push one)).trans leaves

/-- The left operand jumps to the 1 when true, and the right one jumps over it when false. -/
theorem Computes.disj (ha : Computes q view a fun x => .ofBool (m x)) (hb : Computes q view b fun x => .ofBool (n x)) :
    Computes q view (.logic false a b) fun x => .ofBool (m x || n x) := by
  refine .of_value fun {w base opened c c' y} sited run => ?_
  simp only [emit, bind_iff] at run
  obtain ⟨_, c1, left, _, c2, right, _, c3, swap, _, c4, first, _, c5, one, _, c6, tail, rest⟩ := run
  obtain ⟨siteA, sites1, leads1⟩ := ha.jump sited left
  obtain ⟨siteB, sites2, leads2⟩ := hb.jump leads1.sited right
  rw [sites1] at sites2
  obtain ⟨sites3, pos3, leads3⟩ := leads_swapSites leads2.sited sites2 swap
  obtain ⟨sites4, pos4, leads4⟩ := leads_popSite leads3.sited sites3 first
  obtain ⟨sites5, leads5⟩ := leads_plain isOne leads4.sited one
  obtain ⟨sites6, leads6⟩ := leads_falseTail (q := q) leads5.sited (sites5.trans sites4) tail
  refine ⟨c6, rest, sites6, ((leads1.trans leads2).trans ((leads3.trans leads4).trans (leads5.trans leads6))).imp ?_⟩
  rintro final ⟨⟨jumpA, jumpB⟩, ⟨-, directsA⟩, one, target, directsB, tail⟩ x s
  rw [← pos4] at directsA
  have pushes : Goes final q (view x) c4.pos s c6.pos (.int 1 :: s) := (Goes.push one).trans (tail (view x) _).1
  have firstA := jumpA _ directsA x (m x) s rfl
  have secondB := jumpB _ directsB x (n x) s rfl
  rw [← pos3, ← pos4] at secondB
  dsimp only
  cases valueA : m x with
  | true =>
    rw [valueA] at firstA
    exact firstA.trans pushes
  | false =>
    rw [valueA] at firstA
    cases valueB : n x with
    | false =>
      rw [valueB] at secondB
      exact (firstA.trans secondB).trans (tail (view x) s).2
    | true =>
      rw [valueB] at secondB
      exact (firstA.trans secondB).trans pushes

end Expr

end Assembler

end ClassForge

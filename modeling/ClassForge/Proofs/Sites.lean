import ClassForge.Proofs.Building
import ClassForge.Proofs.Layout
import ClassForge.Proofs.Outcomes
import Mathlib.Data.List.Forall2
import Mathlib.Data.List.Pairwise

/-! The stack of open branches while code is written: what lies on it, and that it never runs short. -/

namespace ClassForge

open List

def Opcode.isTest (op : Opcode) : Bool := op.isBranch && op != goto

namespace Code

abbrev Does {α : Type} (a : Action α) (c : Code) (good : α → Code → Prop) : Prop :=
  Meets (fun e : Fault => e.isInternal = false) a c good

/-- The open branches on the stack are `ops`, those kept elsewhere stand at `loose`, no two overlap, and the code has
reached `g`. -/
structure Bears (g : Nat) (loose : List Nat) (ops : List Opcode) (c : Code) : Prop where
  sited : c.Sited 0 (c.sites ++ loose)
  shown : List.Forall₂ (fun s (op : Opcode) => c.bytes[s]? = some op.byte) c.sites ops
  reaches : g ≤ c.pos

def Shifts (a : Action Unit) (before after : List Opcode) : Prop :=
  ∀ (g : Nat) (loose : List Nat) (ops : List Opcode) (c : Code), c.Bears g loose (before ++ ops) →
    Does a c fun _ c' => c'.Bears g loose (after ++ ops)

instance : Std.Symm Apart := ⟨fun _ _ => Apart.symm⟩

section

variable {g : Nat} {sites : List Nat} {c c' : Code} {has : Array UInt8 → Prop} {loose : List Nat}
  {ops x : List Opcode} {a : Action Unit}

theorem Leads.first_byte (h : Leads base opened c opened' c' has) (sited : c.Sited base opened)
    (hs : s ∈ opened) : c'.bytes[s]? = c.bytes[s]? := by
  obtain ⟨low, high⟩ := sited.inside s hs
  refine (h.settles c'.bytes fun _ _ _ _ => rfl).1 s low (by omega) fun t ht => ?_
  by_cases same : s = t
  · omega
  · have apart : Apart s t := sited.apart.forall hs ht same
    unfold Apart at apart
    omega

theorem Leads.from_perm (h : Leads base opened c opened' c' has) (same : opened.Perm sites) :
    Leads base sites c opened' c' has :=
  ⟨h.sited, h.grows, h.kept, fun final settled =>
    ⟨(h.settles final settled).1.of_mem fun _ hs => same.mem_iff.mp hs, (h.settles final settled).2⟩⟩

namespace Bears

variable {s target : Nat} {op : Opcode}

theorem perm (h : c.Bears g loose ops) (same : loose.Perm loose') : c.Bears g loose' ops :=
  { h with sited := h.sited.perm (same.append_left _) }

/-- Code that was led on from here, with some of the branches from before on the stack. -/
theorem led (h : c.Bears g loose ops) (leads : Leads 0 (c.sites ++ loose) c (c'.sites ++ loose') c' has)
    (shown : List.Forall₂ (fun s (op : Opcode) => c.bytes[s]? = some op.byte) c'.sites x)
    (old : ∀ s ∈ c'.sites, s ∈ c.sites) : c'.Bears g loose' x where
  sited := leads.sited
  shown := by
    refine ((forall₂_and_left _ _).mpr ⟨old, shown⟩).imp fun s op both => ?_
    rw [leads.first_byte h.sited (mem_append_left _ both.1)]
    exact both.2
  reaches := Nat.le_trans h.reaches leads.grows

theorem put (h : c.Bears g loose ops) (bs : List UInt8) :
    Does (put bs) c fun _ c' => c'.Bears g loose ops ∧ c'.pos = c.pos + bs.length := by
  refine Meets.of_yields (meets_modify.mpr trivial) fun y c' run => ?_
  obtain ⟨sites, pos, leads⟩ := leads_put h.sited run
  have leads : Leads 0 (c.sites ++ loose) c (c'.sites ++ loose) c' _ := leads.perm (by rw [sites])
  exact ⟨h.led leads (sites ▸ h.shown) (sites ▸ fun _ hs => hs), pos⟩

theorem jump (h : c.Bears g loose ops) (op : Opcode) :
    Does (jump op) c fun s c' => s = c.pos ∧ c'.Bears g (s :: loose) ops ∧ c'.pos = c.pos + 3 := by
  have mild : Does (Code.jump op) c fun _ _ => True := by
    unfold Code.jump Code.put
    simp
  refine Meets.of_yields mild fun s c' run => ?_
  obtain ⟨rfl, sites, pos, leads⟩ := leads_jump h.sited run
  have leads : Leads 0 (c.sites ++ loose) c (c'.sites ++ c.pos :: loose) c' _ :=
    leads.perm (by rw [sites]; exact perm_middle.symm)
  exact ⟨rfl, h.led leads (sites ▸ h.shown) (sites ▸ fun _ hs => hs), pos⟩

theorem resolve (h : c.Bears g (s :: loose) ops) :
    Does (resolve s target) c fun _ c' => c'.Bears g loose ops ∧ c'.pos = c.pos := by
  have mild : Does (Code.resolve s target) c fun _ _ => True := by
    unfold Code.resolve
    dsimp only
    split_ifs
    · exact meets_throw.mpr rfl
    · exact meets_modify.mpr trivial
  refine Meets.of_yields mild fun y c' run => ?_
  have sited : c.Sited 0 (s :: (c.sites ++ loose)) := h.sited.perm perm_middle
  obtain ⟨sites, pos, leads⟩ := leads_resolve sited run
  have leads : Leads 0 (c.sites ++ s :: loose) c (c'.sites ++ loose) c' _ :=
    (leads.perm (by rw [sites])).from_perm perm_middle.symm
  exact ⟨h.led leads (sites ▸ h.shown) (sites ▸ fun _ hs => hs), pos⟩

theorem resolveAll (h : c.Bears g (sites ++ loose) ops) :
    Does (resolveAll sites target) c fun _ c' => c'.Bears g loose ops ∧ c'.pos = c.pos := by
  induction sites generalizing c with
  | nil => exact ⟨h, rfl⟩
  | cons s sites ih =>
    refine meets_bind.mpr ((resolve h).imp fun _ c' next => ?_)
    exact (ih next.1).imp fun _ c'' last => ⟨last.1, last.2.trans next.2⟩

theorem popSite (h : c.Bears g loose (op :: ops)) :
    Does popSite c fun _ c' => c'.Bears g loose ops ∧ c'.pos = c.pos := by
  obtain ⟨bytes, sites⟩ := c
  cases h.shown with
  | @cons s _ rest _ first shown =>
    have sited : (⟨bytes, rest⟩ : Code).Sited 0 (rest ++ s :: loose) :=
      have same : Code.Sited 0 (rest ++ s :: loose) ⟨bytes, s :: rest⟩ := h.sited.perm perm_middle.symm
      ⟨same.start, same.inside, same.apart⟩
    exact resolve ⟨sited, shown, h.reaches⟩

theorem pushSite (h : c.Bears g loose ops) (op : Opcode) :
    Does (pushSite op) c fun _ c' => c'.Bears g loose (op :: ops) ∧ c'.pos = c.pos + 3 := by
  have mild : Does (Code.pushSite op) c fun _ _ => True := by
    unfold Code.pushSite Code.jump Code.put
    simp
  refine Meets.of_yields mild fun y c' run => ?_
  obtain ⟨sites, pos, leads⟩ := leads_pushSite h.sited run
  have byte : c'.bytes[c.pos]? = some op.byte := (leads.settles c'.bytes fun _ _ _ _ => rfl).2
  refine ⟨⟨sites ▸ leads.sited, sites ▸ .cons byte ?_, Nat.le_trans h.reaches leads.grows⟩, pos⟩
  refine ((forall₂_and_left _ _).mpr ⟨fun s hs => hs, h.shown⟩).imp fun s op both => ?_
  rw [leads.first_byte h.sited (mem_append_left _ both.1)]
  exact both.2

theorem swapSites (h : c.Bears g loose (op :: op' :: ops)) :
    Does swapSites c fun _ c' => c'.Bears g loose (op' :: op :: ops) ∧ c'.pos = c.pos := by
  obtain ⟨bytes, sites⟩ := c
  cases h.shown with
  | @cons s _ rest _ first shown =>
    cases shown with
    | @cons t _ rest _ second shown =>
      have sited : Code.Sited 0 (t :: s :: rest ++ loose) _ := h.sited.perm (.swap t s (rest ++ loose))
      exact ⟨⟨⟨sited.start, sited.inside, sited.apart⟩, .cons second (.cons first shown), h.reaches⟩, rfl⟩

theorem branchTo (h : c.Bears g loose ops) (op : Opcode) :
    Does (branchTo op target) c fun _ c' => c'.Bears g loose ops ∧ c'.pos = c.pos + 3 := by
  refine meets_bind.mpr ((h.jump op).imp fun s c' jumped => ?_)
  exact (resolve jumped.2.1).imp fun _ c'' last => ⟨last.1, last.2.trans jumped.2.2⟩

theorem renew (h : c.Bears g loose ops) : c.Bears c.pos loose ops :=
  { h with reaches := Nat.le_refl _ }

theorem keep (h : c.Bears g loose ops) (keeps : Shifts a [] []) : Does a c fun _ c' => c'.Bears g loose ops :=
  keeps g loose ops c h

theorem push (h : c.Bears g loose ops) (opens : Shifts a [] [op]) : Does a c fun _ c' => c'.Bears g loose (op :: ops) :=
  opens g loose ops c h

end Bears

namespace Shifts

variable {slot : Nat}

theorem nothing : Shifts (Pure.pure ()) x x := fun _ _ _ _ h => h

theorem bind (first : Shifts a x y) (rest : Shifts b y z) : Shifts (a >>= fun _ => b) x z := by
  intro g loose ops c h
  exact meets_bind.mpr ((first g loose ops c h).imp fun _ c' next => rest g loose ops c' next)

theorem put (bs : List UInt8) : Shifts (Code.put bs) x x := fun _ _ _ _ h => (h.put bs).imp fun _ _ next => next.1

theorem emit (op : Opcode) : Shifts (Code.emit op) x x := by
  intro g loose ops c h
  exact (h.put [op.byte]).imp fun _ _ next => next.1

theorem emitU1 (op : Opcode) (n : UInt8) : Shifts (Code.emitU1 op n) x x := put _

theorem emitU2 (op : Opcode) (n : UInt16) : Shifts (Code.emitU2 op n) x x := put _

theorem emitInterface (index : UInt16) (argSlots : Int) : Shifts (Code.emitInterface index argSlots) x x := by
  unfold Code.emitInterface
  split_ifs
  · exact put _
  · exact fun _ _ _ _ _ => meets_throw.mpr rfl

theorem ldc (index : UInt16) (isWide : Bool) : Shifts (Code.ldc index isWide) x x := by
  unfold Code.ldc
  split_ifs
  · exact emitU2 _ _
  · exact emitU1 _ _
  · exact emitU2 _ _

theorem emitLocal (op short : Opcode) (fits : slot < 65536) : Shifts (Code.emitLocal op short slot) x x := by
  have low : ¬ (slot : Int) < 0 := by omega
  have high : (slot : Int) < 65536 := by omega
  simp only [Code.emitLocal, low, high, if_true, if_false]
  split_ifs
  · exact emit _
  · exact emitU1 _ _
  · exact put _

theorem load (t : JType) (fits : slot < 65536) : Shifts (Code.load t slot) x x := emitLocal _ _ fits

theorem store (t : JType) (fits : slot < 65536) : Shifts (Code.store t slot) x x := emitLocal _ _ fits

theorem iinc (delta : Int) (fits : slot < 65536) : Shifts (Code.iinc slot delta) x x := by
  unfold Code.iinc
  split_ifs with small wide far
  · exact put _
  · omega
  · exact fun _ _ _ _ _ => meets_throw.mpr rfl
  · exact put _

theorem pushSite (op : Opcode) : Shifts (Code.pushSite op) x (op :: x) :=
  fun _ _ _ _ h => (h.pushSite op).imp fun _ _ next => next.1

theorem popSite (op : Opcode) : Shifts Code.popSite (op :: x) x :=
  fun _ _ _ _ h => h.popSite.imp fun _ _ next => next.1

theorem swapSites (p q : Opcode) : Shifts Code.swapSites (p :: q :: x) (q :: p :: x) :=
  fun _ _ _ _ h => h.swapSites.imp fun _ _ next => next.1

theorem forM {f : α → Action Unit} {xs : List α} (each : ∀ v ∈ xs, Shifts (f v) x x) : Shifts (xs.forM f) x x := by
  induction xs with
  | nil => exact nothing
  | cons v xs ih => exact (each v mem_cons_self).bind (ih fun u hu => each u (mem_cons_of_mem _ hu))

end Shifts

end

end Code

namespace Assembler

open Code

variable {x : List Opcode}

theorem Value.shifts_emit (v : Value) (ref : UInt16) : Shifts (v.emit ref) x x := by
  cases v with
  | null | bool b => exact .emit _
  | int n =>
    unfold Value.emit
    dsimp only
    split_ifs
    · exact .emit _
    · exact .emitU1 _ _
    · exact .emitU2 _ _
    · exact .ldc _ _
  | text s | type t => exact .ldc _ _
  | long n | float b | double b =>
    unfold Value.emit
    dsimp only
    by_cases short : ref = 0
    · rw [if_pos short]
      exact .emit _
    · rw [if_neg short]
      exact .ldc _ _

namespace Expr

variable {a : Action Unit} {code : Want → Action Unit}

def Want.Leaves : Want → List Opcode → Prop
  | .value, ops => ops = []
  | .jump _, ops => ∃ t : Opcode, t.isTest = true ∧ ops = [t]

/-- Code that leaves open what is wanted, for every way in which its value is. -/
def Fits (code : Want → Action Unit) : Prop := ∀ w : Want, ∃ ops, w.Leaves ops ∧ ∀ x, Shifts (code w) x (ops ++ x)

theorem Fits.value (h : Fits code) : Shifts (code .value) x x := by
  obtain ⟨ops, rfl, shifts⟩ := h .value
  exact shifts x

theorem Fits.jump (h : Fits code) (b : Bool) :
    ∃ t : Opcode, t.isTest = true ∧ ∀ x, Shifts (code (.jump b)) x (t :: x) := by
  obtain ⟨ops, ⟨t, test, rfl⟩, shifts⟩ := h (.jump b)
  exact ⟨t, test, shifts⟩

theorem fits_ofValue : Fits Want.ofValue := by
  intro w
  cases w with
  | value => exact ⟨[], rfl, fun x => .nothing⟩
  | jump outcome =>
    refine ⟨_, ⟨if outcome then .ifne else .ifeq, ?_, rfl⟩, fun x => .pushSite _⟩
    cases outcome <;> decide

theorem Fits.after (keeps : ∀ x, Shifts a x x) (h : Fits code) :
    Fits fun w => a >>= fun _ => code w := by
  intro w
  obtain ⟨ops, leaves, last⟩ := h w
  exact ⟨ops, leaves, fun x => (keeps x).bind (last x)⟩

theorem Fits.of_value (keeps : ∀ x, Shifts a x x) : Fits fun w => a >>= fun _ => w.ofValue :=
  .after keeps fits_ofValue

theorem shifts_falseTail (t : Opcode) : Shifts falseTail (t :: x) x :=
  (Shifts.pushSite _).bind ((Shifts.swapSites _ t).bind ((Shifts.popSite t).bind ((Shifts.emit _).bind (.popSite _))))

theorem Fits.of_test
    (tests : ∀ b, ∃ t : Opcode, t.isTest = true ∧ ∀ x, Shifts (test b) x (t :: x)) : Fits (testValue test) := by
  intro w
  cases w with
  | value =>
    obtain ⟨t, -, first⟩ := tests false
    exact ⟨[], rfl, fun x => (first x).bind ((Shifts.emit _).bind (shifts_falseTail t))⟩
  | jump outcome =>
    obtain ⟨t, isTest, only⟩ := tests outcome
    exact ⟨[t], ⟨t, isTest, rfl⟩, only⟩

theorem shifts_emitAll (each : ∀ e ∈ es, Fits e.emit) : Shifts (emitAll es) x x := by
  induction es with
  | nil => exact .nothing
  | cons e es ih =>
    exact (each e mem_cons_self).value.bind (ih fun e he => each e (mem_cons_of_mem _ he))

theorem isTest_forms (cmp : Cmp) : cmp.nullBranch.isTest = true ∧ (Opcode.ifeq.plus cmp.offset).isTest = true ∧
    (Opcode.ifIcmpeq.plus cmp.offset).isTest = true ∧
    (cmp.isEquality = true → (Opcode.ifAcmpeq.plus cmp.offset).isTest = true) := by
  cases cmp <;> decide

/-- Any expression leaves open what is wanted of it, and takes no branches from below. -/
theorem Good.fits {R : Rules} {e : Expr} (good : e.Good R) (slots : ∀ l ∈ e.reads, l.slot < 65536) : Fits e.emit := by
  induction good with
  | const => exact .of_value fun x => Value.shifts_emit _ _
  | self => exact .of_value fun x => .emit _
  | «local» => exact .of_value fun x => .load _ (slots _ mem_cons_self)
  | staticGet | primitiveClass => exact .of_value fun x => .emitU2 _ _
  | fieldGet _ _ _ ih | checkCast _ _ _ ih | instanceOf _ _ _ ih =>
    exact .after (fun x => (ih slots).value) (.of_value fun x => .emitU2 _ _)
  | arrayLength _ _ ih | neg _ _ ih =>
    exact .after (fun x => (ih slots).value) (.of_value fun x => .emit _)
  | convert _ _ _ ih =>
    exact .after (fun x => (ih slots).value) (.of_value fun x => .forM fun _ _ => .emit _)
  | arrayGet _ _ _ iha ihb | binary _ _ _ _ iha ihb =>
    have left := iha fun l hl => slots l (mem_append_left _ hl)
    have right := ihb fun l hl => slots l (mem_append_right _ hl)
    exact .after (fun x => left.value) (.after (fun x => right.value) (.of_value fun x => .emit _))
  | concat _ _ _ _ iha ihb =>
    have left := iha fun l hl => slots l (mem_append_left _ hl)
    have right := ihb fun l hl => slots l (mem_append_right _ hl)
    exact .after (fun x => .emitU2 _ _) (.after (fun x => .emit _) (.after (fun x => .emitU2 _ _)
      (.after (fun x => left.value) (.after (fun x => .emitU2 _ _) (.after (fun x => right.value)
        (.after (fun x => .emitU2 _ _) (.of_value fun x => .emitU2 _ _)))))))
  | @invoke t target implicit args _ _ _ _ ih =>
    have each : ∀ a ∈ args, Fits a.emit := fun a ha => ih a ha fun l hl => slots l (mem_readsAll.mpr ⟨a, ha, hl⟩)
    refine .after (fun x => shifts_emitAll each) ?_
    by_cases interface : target.op = .invokeinterface
    · simp only [interface, if_true]
      exact .of_value fun x => .emitInterface _ _
    · simp only [interface, if_false]
      exact .of_value fun x => .emitU2 _ _
  | @new t classRef constructor args _ _ _ _ ih =>
    have each : ∀ a ∈ args, Fits a.emit := fun a ha => ih a ha fun l hl => slots l (mem_readsAll.mpr ⟨a, ha, hl⟩)
    exact .after (fun x => .emitU2 _ _) (.after (fun x => .emit _) (.after (fun x => shifts_emitAll each)
      (.of_value fun x => .emitU2 _ _)))
  | @newArray elem ref n _ _ _ ih =>
    refine .after (fun x => (ih slots).value) ?_
    by_cases primitive : elem.isPrimitive = true
    · simp only [primitive, if_true]
      exact .of_value fun x => .emitU1 _ _
    · simp only [primitive]
      exact .of_value fun x => .emitU2 _ _
  | not _ _ ih => exact .of_test fun b => (ih slots).jump !b
  | @nullTest cmp a _ _ ih =>
    exact .of_test fun b => ⟨_, (isTest_forms _).1, fun x => (ih slots).value.bind (.pushSite _)⟩
  | @compare cmp a b _ _ equality _ iha ihb =>
    have left := iha fun l hl => slots l (mem_append_left _ hl)
    have right := ihb fun l hl => slots l (mem_append_right _ hl)
    refine .of_test fun outcome => ?_
    have equal := cmp.isEquality_branch outcome
    generalize (if outcome then cmp else cmp.negate) = branch at equal
    obtain ⟨null, one, two, refs⟩ := isTest_forms branch
    by_cases reference : a.type.isReference = true
    · have both := refs (equal (equality reference))
      split_ifs
      · exact ⟨_, null, fun x => right.value.bind (.pushSite _)⟩
      · exact ⟨_, null, fun x => left.value.bind (.pushSite _)⟩
      · exact ⟨_, both, fun x => left.value.bind (right.value.bind (.pushSite _))⟩
    · rw [if_neg reference]
      split
      · exact ⟨_, one, fun x => left.value.bind (right.value.bind ((Shifts.emit _).bind (.pushSite _)))⟩
      · exact ⟨_, one, fun x => left.value.bind (right.value.bind ((Shifts.emit _).bind (.pushSite _)))⟩
      · exact ⟨_, one, fun x => left.value.bind (right.value.bind ((Shifts.emit _).bind (.pushSite _)))⟩
      · exact ⟨_, two, fun x => left.value.bind (right.value.bind (.pushSite _))⟩
  | @logic conj a b _ _ _ iha ihb =>
    have left := iha fun l hl => slots l (mem_append_left _ hl)
    have right := ihb fun l hl => slots l (mem_append_right _ hl)
    obtain ⟨t, -, second⟩ := right.jump false
    intro w
    obtain ⟨ops, leaves, last⟩ := fits_ofValue w
    cases conj with
    | true =>
      obtain ⟨s, -, first⟩ := left.jump false
      exact ⟨ops, leaves, fun x => (first x).bind ((second _).bind ((Shifts.emit _).bind ((Shifts.pushSite _).bind
        ((Shifts.swapSites _ t).bind ((Shifts.popSite t).bind ((Shifts.swapSites _ s).bind ((Shifts.popSite s).bind
          ((Shifts.emit _).bind ((Shifts.popSite _).bind (last x))))))))))⟩
    | false =>
      obtain ⟨s, -, first⟩ := left.jump true
      exact ⟨ops, leaves, fun x => (first x).bind ((second _).bind ((Shifts.swapSites t s).bind ((Shifts.popSite s).bind
        ((Shifts.emit _).bind ((shifts_falseTail t).bind (last x))))))⟩

end Expr

end Assembler

end ClassForge

import ClassForge.Proofs.Building

/-! Open scopes over certified code: what their branches establish and what holds all through them. -/

namespace ClassForge.Assembler

namespace LocalSet

variable {s t : LocalSet} {n : Nat} {u : LocalSet} {o : Option LocalSet}

@[simp] theorem contains_insert : (s.insert i).contains j = (s.contains j || i == j) := by
  rw [contains, insert, Nat.one_shiftLeft]
  simp [contains, Nat.testBit_two_pow, beq_eq_decide]

@[simp] theorem contains_inter : (s.inter t).contains j = (s.contains j && t.contains j) := by
  simp [contains, inter]

@[simp] theorem contains_below : (below n).contains j = decide (j < n) := by
  rw [contains, below, Nat.one_shiftLeft]
  simp

theorem contains_meet : (s.meet o).contains j = true ↔ s.contains j = true ∧ ∀ t, o = some t → t.contains j = true := by
  cases o with
  | none => simp [meet]
  | some t => simp [meet, and_comm]

def Sub (s t : LocalSet) : Prop := ∀ id, s.contains id = true → t.contains id = true

def Below (s : LocalSet) (n : Nat) : Prop := ∀ id, s.contains id = true → id < n

theorem Sub.refl (s : LocalSet) : s.Sub s := fun _ h => h

theorem Sub.trans (h : s.Sub t) (k : t.Sub u) : s.Sub u := fun id hi => k id (h id hi)

theorem Sub.below (h : s.Sub t) (k : t.Below n) : s.Below n := fun id hi => k id (h id hi)

theorem sub_insert (s : LocalSet) (i : Nat) : s.Sub (s.insert i) := fun id h => by simp [h]

theorem Below.insert (h : s.Below n) (lt : i < n) : (s.insert i).Below n := by
  intro id hi
  simp only [contains_insert, Bool.or_eq_true, beq_iff_eq] at hi
  rcases hi with old | rfl
  · exact h id old
  · exact lt

theorem meet_sub (s : LocalSet) (o : Option LocalSet) : (s.meet o).Sub s := fun _ h => (contains_meet.mp h).1

theorem meet_sub_some (s t : LocalSet) : (s.meet (some t)).Sub t := fun _ h => (contains_meet.mp h).2 t rfl

theorem Sub.meet (h : u.Sub s) (k : ∀ t, o = some t → u.Sub t) : u.Sub (s.meet o) :=
  fun id hi => contains_meet.mpr ⟨h id hi, fun t ht => k t ht id hi⟩

end LocalSet

variable {a locals : Array Local} {s t : LocalSet}

def slotsOf (locals : Array Local) (s : LocalSet) : Set Nat :=
  {slot | ∃ (id : Nat) (l : Local), locals[id]? = some l ∧ s.contains id = true ∧ l.slot = slot}

def atRest (locals : Array Local) (s : LocalSet) : State := ⟨[], slotsOf locals s⟩

theorem slotsOf_mono (h : s.Sub t) : slotsOf locals s ⊆ slotsOf locals t := by
  rintro slot ⟨id, l, found, mem, rfl⟩
  exact ⟨id, l, found, h id mem, rfl⟩

theorem slotsOf_insert {id : Nat} (found : locals[id]? = some l) :
    slotsOf locals (s.insert id) = insert l.slot (slotsOf locals s) := by
  ext slot
  constructor
  · rintro ⟨i, x, here, mem, rfl⟩
    simp only [LocalSet.contains_insert, Bool.or_eq_true, beq_iff_eq] at mem
    rcases mem with old | rfl
    · exact .inr ⟨i, x, here, old, rfl⟩
    · rw [found] at here
      cases here
      exact .inl rfl
  · rintro (rfl | ⟨i, x, here, mem, rfl⟩)
    · exact ⟨id, l, found, by simp, rfl⟩
    · exact ⟨i, x, here, by simp [mem], rfl⟩

theorem weaker_atRest {R : Rules} (h : s.Sub t) :
    R.Weaker (atRest locals s) (atRest locals t) := ⟨fun _ => rfl, slotsOf_mono h⟩

theorem LocalsLe.size (h : LocalsLe a b) : a.size ≤ b.size := by
  by_contra more
  obtain ⟨y, found, -⟩ := h b.size _ (Array.getElem?_eq_getElem (by omega))
  simp at found

theorem LocalsLe.slotsOf (h : LocalsLe a b) (below : s.Below a.size) : slotsOf b s = slotsOf a s := by
  ext slot
  constructor
  · rintro ⟨id, y, found, mem, rfl⟩
    obtain ⟨z, here, same, -⟩ := h id _ (Array.getElem?_eq_getElem (below id mem))
    rw [found] at here
    cases here
    exact ⟨id, _, Array.getElem?_eq_getElem (below id mem), mem, same.symm⟩
  · rintro ⟨id, x, found, mem, rfl⟩
    obtain ⟨y, here, same, -⟩ := h id x found
    exact ⟨id, y, here, mem, same⟩

theorem LocalsLe.atRest (h : LocalsLe a b) (below : s.Below a.size) : atRest b s = atRest a s := by
  rw [Assembler.atRest, Assembler.atRest, h.slotsOf below]

structure Layout where
  rules : Rules
  view : View
  locals : Array Local

/-- The branch at a site, taken, finds the locals of a set assigned. -/
def Layout.Brings (L : Layout) (site : Nat) (s : LocalSet) : Prop :=
  Carries L.rules L.view.spots site (atRest L.locals s)

theorem Layout.Brings.weaken {L : Layout} (h : L.Brings site t) (sub : s.Sub t) : L.Brings site s :=
  Carries.weaken h (weaker_atRest sub)

/-- Sites that wait for the end of the scope, but not on the stack of sites. -/
def Scope.loose : Scope → List Nat
  | .loop (.array _ continues) _ breaks _ => breaks ++ continues
  | .loop _ _ breaks _ => breaks
  | .guarded _ _ exits _ => exits
  | .body | .branch _ _ => []

def Scope.left : Scope → Option LocalSet
  | .loop _ _ _ left => left
  | _ => none

namespace Frame

def loose (f : Frame) : List Nat := f.scope.loose

def sets (f : Frame) : List LocalSet := f.assigned :: (f.merged.toList ++ f.scope.left.toList)

structure Fits (L : Layout) (f : Frame) : Prop where
  sets : ∀ s ∈ f.sets, f.inherited.Sub s ∧ s.Below L.locals.size
  given : L.rules.given ⊆ slotsOf L.locals f.inherited

/-- A protected range that is open: all of it knows what the scope inherited. -/
structure Protects (L : Layout) (inherited : LocalSet) (start : Nat) (stop : Option Nat) : Prop where
  starts : L.view.IsStart start
  le : start ≤ L.view.size
  /-- An empty range can still be reached. -/
  fresh : start = L.view.size → L.view.here.isSome = true
  knows : ∀ x ∈ L.view.spots, start ≤ x.insn.pc → slotsOf L.locals inherited ⊆ x.state.known
  stops : ∀ e, stop = some e → start < e ∧ e ≤ L.view.size ∧ L.view.IsStart e

/-- The open branches of a scope establish what its end relies on. The sites `own` lie on the stack. -/
def Holds (L : Layout) (f : Frame) (own : List Nat) : Prop :=
  match f.scope with
  | .body => own = []
  | .branch arm exits => ∃ tests outs, own = tests ++ outs ∧ outs.length = exits ∧
      (if arm = .last then tests = [] else ∃ t, tests = [t] ∧ L.Brings t f.inherited) ∧
      ∀ s ∈ outs, ∃ m, f.merged = some m ∧ L.Brings s m
  | .loop kind top breaks left =>
      (if kind = .test true then own = [] else ∃ t, own = [t] ∧ L.Brings t f.inherited) ∧
      (∃ d, L.view.At top d ∧ L.rules.Weaker d (atRest L.locals f.inherited)) ∧
      (∀ s ∈ breaks, ∃ m, left = some m ∧ L.Brings s m) ∧
      ∀ counter continues, kind = .array counter continues →
        (counter ∈ slotsOf L.locals f.inherited ∧ L.rules.holds counter (.prim .int)) ∧ ∀ s ∈ continues, L.Brings s f.inherited
  | .guarded start stop exits _ => own = [] ∧ Protects L f.inherited start stop ∧
      ∀ s ∈ exits, ∃ m, f.merged = some m ∧ L.Brings s m

end Frame

/-- The open scopes of a method, innermost first, and the sites they keep on the stack. -/
def Nested (L : Layout) : List Frame → List Nat → Prop
  | [], _ => False
  | [f], sites => f.scope = .body ∧ sites = [] ∧ f.Fits L
  | f :: g :: rest, sites => f.scope ≠ .body ∧ f.Fits L ∧ f.inherited = g.assigned ∧ g.closed = false ∧
      ∃ own below, sites = own ++ below ∧ f.Holds L own ∧ Nested L (g :: rest) below

/-! Scopes as the code grows. -/

structure Layout.Le (floor : Set Nat) (L M : Layout) : Prop where
  rules : L.rules.Le M.rules
  grows : L.view.Grows M.rules floor M.view
  locals : LocalsLe L.locals M.locals

section

variable {L M : Layout} {floor : Set Nat} {f g : Frame} {rest : List Frame} {own sites : List Nat}

theorem Layout.Brings.later (h : L.Brings site s) (le : L.Le floor M)
    (below : s.Below L.locals.size) : M.Brings site s := by
  unfold Layout.Brings
  rw [le.locals.atRest below]
  exact le.grows.carries (Carries.mono h le.rules)

namespace Frame

variable {inherited m : LocalSet}

theorem Fits.below (h : f.Fits L) : f.inherited.Below L.locals.size :=
  (h.sets f.assigned List.mem_cons_self).1.below (h.sets f.assigned List.mem_cons_self).2

theorem Fits.later (h : f.Fits L) (le : L.Le floor M) : f.Fits M where
  sets s hs := ⟨(h.sets s hs).1, fun id hi => Nat.lt_of_lt_of_le ((h.sets s hs).2 id hi) le.locals.size⟩
  given := by
    rw [le.rules.given, le.locals.slotsOf h.below]
    exact h.given

theorem mem_sets_merged (h : f.merged = some m) : m ∈ f.sets := by simp [sets, h]

theorem mem_sets_left (h : f.scope.left = some m) : m ∈ f.sets := by simp [sets, h]

theorem Protects.later {start : Nat} {stop : Option Nat}
    (h : Protects L inherited start stop) (le : L.Le floor M) (below : inherited.Below L.locals.size)
    (sub : slotsOf L.locals inherited ⊆ floor) : Protects M inherited start stop where
  starts := le.grows.isStart h.starts
  le := Nat.le_trans h.le le.grows.size
  fresh same := by
    have grown := le.grows.size
    have before := h.le
    exact le.grows.lasts (by omega) (h.fresh (by omega))
  knows x hx behind := by
    rw [le.locals.slotsOf below]
    rcases le.grows.new x hx with ⟨y, hy, like⟩ | ⟨-, above⟩
    · rw [like.state]
      exact h.knows y hy (like.pc ▸ behind)
    · exact sub.trans above
  stops e he :=
    let ⟨lt, inside, starts⟩ := h.stops e he
    ⟨lt, Nat.le_trans inside le.grows.size, le.grows.isStart starts⟩

theorem Holds.later (h : f.Holds L own) (fits : f.Fits L) (le : L.Le floor M)
    (sub : slotsOf L.locals f.inherited ⊆ floor) : f.Holds M own := by
  have merged : ∀ m, f.merged = some m → m.Below L.locals.size := fun m hm =>
    (fits.sets m (mem_sets_merged hm)).2
  unfold Holds at h ⊢
  split at h
  · exact h
  · obtain ⟨tests, outs, split, count, tested, leave⟩ := h
    refine ⟨tests, outs, split, count, ?_, fun s hs => ?_⟩
    · split_ifs at tested ⊢
      · exact tested
      · obtain ⟨t, one, brings⟩ := tested
        exact ⟨t, one, brings.later le fits.below⟩
    · obtain ⟨m, hm, brings⟩ := leave s hs
      exact ⟨m, hm, brings.later le (merged m hm)⟩
  · rename_i kind top breaks left scope
    obtain ⟨tested, ⟨d, label, weaker⟩, broken, continued⟩ := h
    refine ⟨?_, ?_, fun s hs => ?_, fun counter continues array => ?_⟩
    · split_ifs at tested ⊢
      · exact tested
      · obtain ⟨t, one, brings⟩ := tested
        exact ⟨t, one, brings.later le fits.below⟩
    · obtain ⟨e, arrives, less⟩ := le.grows.states top d label
      refine ⟨e, arrives, ?_⟩
      rw [le.locals.atRest fits.below]
      exact less.trans (le.rules.weaker weaker)
    · obtain ⟨m, hm, brings⟩ := broken s hs
      have known : f.scope.left = some m := by rw [scope]; exact hm
      exact ⟨m, hm, brings.later le (fits.sets m (mem_sets_left known)).2⟩
    · obtain ⟨⟨inside, held⟩, brings⟩ := continued counter continues array
      rw [le.locals.slotsOf fits.below]
      exact ⟨⟨inside, le.rules.holds _ _ held⟩, fun s hs => (brings s hs).later le fits.below⟩
  · obtain ⟨none, protects, leave⟩ := h
    refine ⟨none, protects.later le fits.below sub, fun s hs => ?_⟩
    obtain ⟨m, hm, brings⟩ := leave s hs
    exact ⟨m, hm, brings.later le (merged m hm)⟩

end Frame

namespace Nested

section

variable (h : Nested L (f :: rest) sites)

include h

theorem fits : f.Fits L := by
  cases rest with
  | nil => exact h.2.2
  | cons g rest => exact h.2.1

theorem inherited_sub : ∀ g ∈ f :: rest, g.inherited.Sub f.inherited := by
  induction rest generalizing f sites with
  | nil =>
    intro g hg
    rw [List.mem_singleton.mp hg]
    exact .refl _
  | cons g rest ih =>
    intro k hk
    obtain ⟨-, -, inherited, -, own, below, -, -, outer⟩ := h
    rcases List.mem_cons.mp hk with rfl | later
    · exact .refl _
    · rw [inherited]
      exact (ih outer k later).trans (outer.fits.sets g.assigned List.mem_cons_self).1

theorem later (le : L.Le floor M) (sub : slotsOf L.locals f.inherited ⊆ floor) : Nested M (f :: rest) sites := by
  have all : ∀ k ∈ f :: rest, slotsOf L.locals k.inherited ⊆ floor := fun k hk =>
    (slotsOf_mono (h.inherited_sub k hk)).trans sub
  clear sub
  induction rest generalizing f sites with
  | nil => exact ⟨h.1, h.2.1, h.2.2.later le⟩
  | cons g rest ih =>
    obtain ⟨scope, fits, inherited, opened, own, below, split, holds, outer⟩ := h
    exact ⟨scope, fits.later le, inherited, opened, own, below, split,
      holds.later fits le (all f List.mem_cons_self), ih outer fun k hk => all k (List.mem_cons_of_mem _ hk)⟩

theorem retop (fits : f'.Fits L) (scope : f'.scope = f.scope)
    (inherited : f'.inherited = f.inherited) (merged : f'.merged = f.merged) : Nested L (f' :: rest) sites := by
  cases rest with
  | nil => exact ⟨scope.trans h.1, h.2.1, fits⟩
  | cons g rest =>
    obtain ⟨inner, -, same, opened, own, below, split, holds, outer⟩ := h
    refine ⟨scope ▸ inner, fits, inherited.trans same, opened, own, below, split, ?_, outer⟩
    unfold Frame.Holds at holds ⊢
    rw [scope, inherited, merged]
    exact holds

theorem of_body (body : f.scope = .body) : rest = [] ∧ sites = [] := by
  cases rest with
  | nil => exact ⟨rfl, h.2.1⟩
  | cons g rest => exact absurd body h.1

end

end Nested

/-- A row of the exception table: its range lies between instructions, and its handler asks for no
more than is known all through it. -/
structure Handler.Guards (R : Rules) (v : View) (h : Handler) : Prop where
  range : h.start < h.stop
  inside : h.stop ≤ v.size
  starts : v.IsStart h.start
  stops : v.IsStart h.stop
  entry : ∃ d, v.At h.target d ∧ (R.typed → d.stack = [.reference]) ∧
    ∀ x ∈ v.spots, h.start ≤ x.insn.pc → x.insn.pc < h.stop → d.known ⊆ x.state.known
  catches : ∃ name, R.pool.reference? h.catchType = some (.type name) ∧ R.caught name

theorem Handler.Guards.later {h : Handler} (guards : h.Guards L.rules L.view) (le : L.Le floor M) :
    h.Guards M.rules M.view where
  range := guards.range
  inside := Nat.le_trans guards.inside le.grows.size
  starts := le.grows.isStart guards.starts
  stops := le.grows.isStart guards.stops
  entry := by
    obtain ⟨d, target, stack, covers⟩ := guards.entry
    obtain ⟨e, entry, weaker⟩ := le.grows.states _ d target
    refine ⟨e, entry, fun typed => ?_, fun x hx start stop => ?_⟩
    · rw [weaker.stack typed]
      exact stack (le.rules.typed typed)
    · rcases le.grows.new x hx with ⟨y, hy, same⟩ | ⟨behind, -⟩
      · rw [same.state]
        exact weaker.known.trans (covers y hy (same.pc ▸ start) (same.pc ▸ stop))
      · have := guards.inside
        omega
  catches := by
    obtain ⟨name, found, caught⟩ := guards.catches
    exact ⟨name, le.rules.pool.reference? found, le.rules.caught name caught⟩

/-- The tables of a method fit its code: lines begin at instructions, locals there or at the start. -/
structure Method.Tables (R : Rules) (v : View) (m : Method) : Prop where
  guards : ∀ h ∈ m.handlers, h.Guards R v
  lines : ∀ r ∈ m.lines, v.IsStart r.pc
  locals : ∀ l ∈ m.locals, if l.param then l.start = 0 else v.IsStart l.start

theorem Method.Tables.later {m m' : Method} (h : m.Tables L.rules L.view) (le : L.Le floor M)
    (handlers : m'.handlers = m.handlers) (lines : ∀ r ∈ m'.lines, r ∈ m.lines ∨ r.pc = L.view.size)
    (locals : ∀ l ∈ m'.locals, l ∈ m.locals ∨ l.param = false ∧ l.start = L.view.size) : m'.Tables M.rules M.view where
  guards k hk := (h.guards k (handlers ▸ hk)).later le
  lines r hr := le.grows.isStart ((lines r hr).elim (h.lines r) .inl)
  locals l hl := by
    obtain old | ⟨plain, start⟩ := locals l hl
    · have starts := h.locals l old
      split_ifs at starts ⊢
      · exact starts
      · exact le.grows.isStart starts
    · rw [if_neg (by simp [plain])]
      exact le.grows.isStart (.inl start)

theorem Method.Tables.grown {m m' : Method} (h : m.Tables L.rules L.view) (le : L.Le floor M)
    (same : m' = { m with code := m'.code, frames := m'.frames }) : m'.Tables M.rules M.view := by
  rw [same]
  exact h.later le rfl (fun _ => .inl) fun _ => .inl

end

end ClassForge.Assembler

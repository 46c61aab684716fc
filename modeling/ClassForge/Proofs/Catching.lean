import ClassForge.Proofs.Faults
import ClassForge.Proofs.Histories

/-! Which handler an exception reaches. The nesting of guarded blocks is read off the statements
alone; the table gives, at every position and for every class, the handler that the nesting gives. -/

namespace ClassForge

open List Nat ClassFile

/-- The handler that the table gives for what is thrown at a position: the first row that guards the
position and names one of the classes that catch it. -/
def ClassFile.Body.dispatch (t : Table) (b : Body) (catches : String → Bool) (pc : Nat) : Option Nat :=
  b.handlers.findIdx? fun r => r.start ≤ pc && pc < r.stop && (t.className r.catchType.toUInt16).toOption.any catches

namespace Assembler

/-! The nesting of guarded blocks. -/

/-- An open block: of a branch or loop, or the body, from a position, or a handler of the numbered
guarded block. -/
inductive Block
  | plain
  | body (number start : Nat)
  | handler (number : Nat)

namespace Block

def number? : Block → Option Nat
  | .plain => none
  | .body i _ | .handler i => some i

def body? : Block → Option Nat
  | .body i _ => some i
  | _ => none

def handler? : Block → Option Nat
  | .handler i => some i
  | _ => none

end Block

/-- A statement with the code before it and the end of the code after it. -/
structure Emission where
  statement : Statement
  code : List UInt8
  stop : Nat

def Emission.start (e : Emission) : Nat := e.code.length

/-- How many guarded blocks there are; the open blocks, innermost first; the handlers as they were
asked for; the guarded blocks around each position, by body and by handler, innermost first; and the
code before the last statement. -/
structure Nest where
  count : Nat := 0
  blocks : List Block := []
  handlers : List (Nat × JType) := []
  within : Nat → List Nat := fun _ => []
  handling : Nat → List Nat := fun _ => []
  code : List UInt8 := []

namespace Nest

variable {b : Body} {t : Table} {rows : List Handler} {i pc pos shift : Nat} {n : Nest}
  {pool : Pool} {name : String}

def numbers (n : Nest) : List Nat := n.blocks.filterMap Block.number?

def bodies (n : Nest) : List Nat := n.blocks.filterMap Block.body?

def emit (n : Nest) (start stop : Nat) : Nest :=
  { n with
    within := fun pc => if start ≤ pc ∧ pc < stop then n.bodies else n.within pc
    handling := fun pc => if start ≤ pc ∧ pc < stop then n.blocks.filterMap Block.handler? else n.handling pc }

def turn (n : Nest) (e : Emission) : Nest :=
  match e.statement, n.blocks with
  | .ifOpen _, blocks | .whileOpen _, blocks | .forEach .., blocks => { n with blocks := .plain :: blocks }
  | .tryOpen, blocks => { n with count := n.count + 1, blocks := .body n.count e.start :: blocks }
  | .catchOpen t _, .body i _ :: outer | .catchOpen t _, .handler i :: outer =>
    { n with blocks := .handler i :: outer, handlers := n.handlers ++ [(i, t)] }
  | .close, _ :: outer => { n with blocks := outer }
  | _, _ => n

/-- Where the instructions of a statement begin: before its first handler, an empty body is given
one. -/
def begins (n : Nest) (e : Emission) : Nat :=
  match e.statement, n.blocks with
  | .catchOpen .., .body _ start :: _ => if e.start = start then e.start + 1 else e.start
  | _, _ => e.start

def enter (n : Nest) (e : Emission) : Nest :=
  { ((n.emit e.start (n.begins e)).turn e).emit (n.begins e) e.stop with code := e.code }

/-- The handler for what is thrown at a position: the first of the innermost body around it that has
one. -/
def handlerAt (n : Nest) (catches : JType → Bool) (pc : Nat) : Option Nat :=
  (n.within pc).findSome? fun i => n.handlers.findIdx? fun h => h.1 = i && catches h.2

def Before (handlers : List (Nat × JType)) (a b : Nat) : Prop :=
  ∀ (r s : Nat) (t u : JType), handlers[r]? = some (a, t) → handlers[s]? = some (b, u) → r < s

/-- A row for each handler: it names its class, and guards the body of its block, moved by `shift`. -/
structure Tabled (name : String) (pool : Pool) (n : Nest) (shift : Nat) (rows : List Handler) : Prop where
  rows : List.Forall₂ (fun x (h : Handler) => pool.className? h.catchType = some (x.2.resolve name).internalName ∧
    shift ≤ h.start ∧ ∀ pc, h.start ≤ pc + shift ∧ pc + shift < h.stop ↔ x.1 ∈ n.within pc) n.handlers rows
  before : ∀ pc, (n.within pc).Pairwise (Before n.handlers)
  handled : ∀ pc, ∀ i ∈ n.handling pc, i ∉ n.within pc

theorem findIdx?_forall₂ (same : List.Forall₂ (fun a b => p a = q b) as bs) : as.findIdx? p = bs.findIdx? q := by
  induction same with
  | nil => rfl
  | cons same _ ih => rw [findIdx?_cons, findIdx?_cons, same, ih]

/-- Where each guarded block has its rows in front of those of the next, the first row of all is the
first of the first block with one. -/
theorem findIdx?_within {handlers : List (Nat × JType)} (catches : JType → Bool) {is : List Nat}
    (before : is.Pairwise (Before handlers)) :
    handlers.findIdx? (fun h => is.contains h.1 && catches h.2) =
      is.findSome? fun i => handlers.findIdx? fun h => h.1 = i && catches h.2 := by
  induction is with
  | nil => simp
  | cons i is ih =>
    obtain ⟨first, others⟩ := pairwise_cons.mp before
    rw [findSome?_cons, ← ih others]
    cases own : handlers.findIdx? fun h => h.1 = i && catches h.2 with
    | some r =>
      obtain ⟨inside, here, none⟩ := findIdx?_eq_some_iff_getElem.mp own
      refine findIdx?_eq_some_iff_getElem.mpr ⟨inside, ?_, fun s less => ?_⟩
      · simp only [Bool.and_eq_true, decide_eq_true_eq] at here
        simp [here]
      · have small : s < handlers.length := lt_trans less inside
        have mine := none s less
        simp only [Bool.and_eq_true, decide_eq_true_eq, not_and, Bool.not_eq_true] at here mine ⊢
        intro member
        by_cases same : handlers[s].1 = i
        · exact mine same
        · have other : handlers[s].1 ∈ is := by simpa [same] using member
          have late := first _ other r s handlers[r].2 handlers[s].2 (by simp [← here.1]) (by simp)
          omega
    | none =>
      have none := findIdx?_eq_none_iff.mp own
      refine findIdx?_forall₂ (forall₂_same.mpr fun h member => ?_)
      have mine := none h member
      by_cases same : h.1 = i
      · simp_all
      · simp [same]

theorem Tabled.dispatch (h : n.Tabled name pool shift rows) (holds : t.Holds pool) (same : b.handlers = rows.map Handler.row)
    (catches : String → Bool) (pc : Nat) :
    b.dispatch t catches (pc + shift) = n.handlerAt (fun t => catches (t.resolve name).internalName) pc := by
  rw [Nest.handlerAt, ← findIdx?_within (fun t => catches (t.resolve name).internalName) (h.before pc),
    Body.dispatch, same]
  refine (findIdx?_forall₂ (forall₂_map_right_iff.mpr (h.rows.imp fun x r row => ?_))).symm
  obtain ⟨named, -, guards⟩ := row
  have text : t.className (r.row.catchType).toUInt16 = .ok (x.2.resolve name).internalName := by
    simpa [Handler.row] using holds.className named
  rw [text]
  congr 1
  rw [Bool.eq_iff_iff, contains_iff_mem, ← guards pc, Bool.and_eq_true, decide_eq_true_iff, decide_eq_true_iff]
  exact Iff.rfl

theorem Tabled.dispatch_front (h : n.Tabled name pool shift rows) (same : b.handlers = rows.map Handler.row)
    (catches : String → Bool) (front : pc < shift) : b.dispatch t catches pc = none := by
  rw [Body.dispatch, same, findIdx?_eq_none_iff]
  intro row member
  obtain ⟨r, inside, rfl⟩ := mem_map.mp member
  obtain ⟨k, small, rfl⟩ := getElem_of_mem inside
  obtain ⟨-, low, -⟩ := h.rows.get (h.rows.length_eq ▸ small) small
  have late : ¬ rows[k].start ≤ pc := fun early => absurd (lt_of_le_of_lt early front) (not_lt.mpr low)
  simp [Handler.row, late]

/-! Nesting and code grow together. -/

/-- What an open block is in the method: the body of a guarded block ends where the code ends. -/
def Stands (handlers : List (Nat × JType)) (within : Nat → List Nat) (pos : Nat) : Block → Level → Prop
  | .plain, .branch _ | .plain, .loop => True
  | .body i start, .guarded start' none => start' = start ∧ start ≤ pos ∧ ∀ pc, i ∈ within pc ↔ start ≤ pc ∧ pc < pos
  | .handler i, .guarded start (some stop) =>
    i ∈ handlers.map Prod.fst ∧ stop ≤ pos ∧ ∀ pc, i ∈ within pc ↔ start ≤ pc ∧ pc < stop
  | _, _ => False

/-- Of two guarded blocks around one position, the outer has its rows behind those of the inner. -/
def Apart (n : Nest) (a b : Nat) : Prop :=
  b < a ∧ Before n.handlers a b ∧ (b ∈ n.handlers.map Prod.fst → a ∉ n.numbers)

structure Fits (name : String) (pool : Pool) (n : Nest) (o : Outline) : Prop where
  stands : ∃ inner, o.levels = inner ++ [.body] ∧ List.Forall₂ (Stands n.handlers n.within o.pos) n.blocks inner
  rows : List.Forall₂ (fun x (h : Handler) => pool.className? h.catchType = some (x.2.resolve name).internalName ∧
    ∀ pc, h.start ≤ pc ∧ pc < h.stop ↔ x.1 ∈ n.within pc) n.handlers o.handlers.toList
  apart : ∀ pc, (n.within pc).Pairwise n.Apart
  numbers : n.numbers.Pairwise (· > ·)
  known : ∀ i, i ∈ n.numbers ∨ i ∈ n.handlers.map Prod.fst ∨ (∃ pc, i ∈ n.within pc) → i < n.count
  bodies : ∀ i ∈ n.bodies, i ∉ n.handlers.map Prod.fst
  beyond : ∀ pc, o.pos ≤ pc → n.within pc = []
  handled : ∀ pc, ∀ i ∈ n.handling pc, i ∉ n.within pc

theorem bodies_sublist (n : Nest) : n.bodies.Sublist n.numbers := by
  unfold bodies numbers
  induction n.blocks with
  | nil => exact .slnil
  | cons b blocks ih =>
    cases b with
    | plain => exact ih
    | body i start => exact ih.cons_cons i
    | handler i => exact ih.cons i

theorem not_mem_bodies {blocks : List Block} (sorted : (blocks.filterMap Block.number?).Pairwise (· > ·))
    (handled : i ∈ blocks.filterMap Block.handler?) : i ∉ blocks.filterMap Block.body? := by
  induction blocks with
  | nil => simp at handled
  | cons b blocks ih =>
    have numbers {f : Block → Option Nat} (le : ∀ b i, f b = some i → b.number? = some i) {i : Nat}
        (member : i ∈ blocks.filterMap f) : i ∈ blocks.filterMap Block.number? := by
      obtain ⟨b, inside, own⟩ := mem_filterMap.mp member
      exact mem_filterMap.mpr ⟨b, inside, le b i own⟩
    cases b with
    | plain => exact ih sorted handled
    | body k start =>
      obtain ⟨below, sorted⟩ := pairwise_cons.mp sorted
      refine fun opened => ?_
      rcases mem_cons.mp opened with rfl | old
      · exact lt_irrefl i (below i (numbers (fun b i own => by cases b <;> first | exact own | cases own) handled))
      · exact ih sorted handled old
    | handler k =>
      obtain ⟨below, sorted⟩ := pairwise_cons.mp sorted
      rcases mem_cons.mp handled with rfl | old
      · exact fun opened =>
          lt_irrefl i (below i (numbers (fun b i own => by cases b <;> first | exact own | cases own) opened))
      · exact ih sorted old

theorem mem_emit (h : n.Fits name pool o) :
    i ∈ (n.emit o.pos pos).within pc ↔ i ∈ n.within pc ∨ i ∈ n.bodies ∧ o.pos ≤ pc ∧ pc < pos := by
  unfold emit
  dsimp only
  split
  next new => simp [h.beyond pc new.1, new]
  next old => simp [old]

section

variable {name : String} {pool : Pool} {n : Nest} {levels : List Level} {handlers : Array Handler} {pos : Nat}
  {b : Block} {outer : List Block}

theorem Fits.emit (h : n.Fits name pool ⟨levels, handlers, pos⟩) (le : pos ≤ pos') :
    (n.emit pos pos').Fits name pool ⟨levels, handlers, pos'⟩ := by
  have member {pc i : Nat} : i ∈ (n.emit pos pos').within pc ↔ i ∈ n.within pc ∨ i ∈ n.bodies ∧ pos ≤ pc ∧ pc < pos' :=
    mem_emit h
  obtain ⟨inner, form, stands⟩ := h.stands
  refine ⟨⟨inner, form, ?_⟩, ?_, fun pc => ?_, h.numbers, fun i some => ?_, h.bodies, fun pc late => ?_,
    fun pc i handled => ?_⟩
  · refine ((forall₂_and_left _ _).mpr ⟨fun _ => id, stands⟩).imp fun b l both => ?_
    obtain ⟨inside, stands⟩ := both
    cases b with
    | plain => obtain _ | _ | _ | ⟨start', _ | stop⟩ := l <;> exact stands
    | body i start =>
      obtain _ | _ | _ | ⟨start', _ | stop⟩ := l <;> try exact stands.elim
      obtain ⟨same, small, guards⟩ := stands
      have opened : i ∈ n.bodies := mem_filterMap.mpr ⟨_, inside, rfl⟩
      refine ⟨same, le_trans small le, fun pc => ?_⟩
      rw [member, guards pc]
      change start ≤ pos at small
      simp only [opened, true_and]
      omega
    | handler i =>
      obtain _ | _ | _ | ⟨start', _ | stop⟩ := l <;> try exact stands.elim
      obtain ⟨told, small, guards⟩ := stands
      have closed : i ∉ n.bodies := fun opened => h.bodies i opened told
      exact ⟨told, le_trans small le, fun pc => by rw [member, guards]; simp [closed]⟩
  · refine ((forall₂_and_left _ _).mpr ⟨fun _ => id, h.rows⟩).imp fun x r both => ?_
    obtain ⟨inside, named, guards⟩ := both
    have closed : x.1 ∉ n.bodies := fun opened => h.bodies x.1 opened (mem_map_of_mem inside)
    exact ⟨named, fun pc => by rw [member, guards]; simp [closed]⟩
  · unfold Nest.emit
    dsimp only
    split
    · refine (h.numbers.sublist n.bodies_sublist).imp_of_mem fun {a b} _ opened less => ⟨less, fun r s t u _ told => ?_, fun told => ?_⟩
      · exact absurd (mem_map_of_mem (mem_of_getElem? told)) (h.bodies b opened)
      · exact absurd told (h.bodies b opened)
    · exact h.apart pc
  · rcases some with opened | told | ⟨pc, inside⟩
    · exact h.known i (.inl opened)
    · exact h.known i (.inr (.inl told))
    · rcases member.mp inside with old | new
      · exact h.known i (.inr (.inr ⟨pc, old⟩))
      · exact h.known i (.inl (n.bodies_sublist.subset new.1))
  · unfold Nest.emit
    dsimp only at late ⊢
    rw [if_neg (by omega)]
    exact h.beyond pc (le_trans le late)
  · unfold Nest.emit at handled ⊢
    dsimp only at handled ⊢
    split at handled
    next new =>
      rw [if_pos new]
      exact not_mem_bodies h.numbers handled
    next old =>
      rw [if_neg old]
      exact h.handled pc i handled

theorem Fits.top (h : n.Fits name pool ⟨level :: levels, handlers, pos⟩) (inside : level ≠ .body) :
    ∃ b outer inner, n.blocks = b :: outer ∧ levels = inner ++ [.body] ∧ Stands n.handlers n.within pos b level ∧
      List.Forall₂ (Stands n.handlers n.within pos) outer inner := by
  obtain ⟨inner, form, stands⟩ := h.stands
  generalize n.blocks = blocks at stands
  cases stands with
  | nil => simp [inside] at form
  | @cons b l outer inner top others =>
    obtain ⟨rfl, rfl⟩ : level = l ∧ levels = inner ++ [.body] := by simpa using form
    exact ⟨b, outer, inner, rfl, rfl, top, others⟩

theorem Fits.plain (h : n.Fits name pool ⟨levels, handlers, pos⟩) (plain : level = .loop ∨ level = .branch false) :
    { n with blocks := .plain :: n.blocks }.Fits name pool ⟨level :: levels, handlers, pos⟩ := by
  obtain ⟨inner, rfl, stands⟩ := h.stands
  refine { h with stands := ⟨level :: inner, rfl, .cons ?_ stands⟩ }
  obtain rfl | rfl := plain <;> trivial

theorem Fits.lastArm (h : n.Fits name pool ⟨.branch false :: levels, handlers, pos⟩) :
    n.Fits name pool ⟨.branch true :: levels, handlers, pos⟩ := by
  obtain ⟨b, outer, inner, blocks, rfl, top, others⟩ := h.top (by simp)
  refine { h with stands := ⟨_ :: inner, rfl, blocks ▸ .cons ?_ others⟩ }
  cases b <;> exact top

theorem Fits.guard (h : n.Fits name pool ⟨levels, handlers, pos⟩) :
    { n with count := n.count + 1, blocks := .body n.count pos :: n.blocks }.Fits name pool
      ⟨.guarded pos none :: levels, handlers, pos⟩ := by
  obtain ⟨inner, rfl, stands⟩ := h.stands
  have fresh {i : Nat} (some : i ∈ n.numbers ∨ i ∈ n.handlers.map Prod.fst ∨ ∃ pc, i ∈ n.within pc) : i ≠ n.count :=
    Nat.ne_of_lt (h.known i some)
  refine ⟨⟨_ :: inner, rfl, .cons ⟨rfl, le_refl pos, fun pc => ?_⟩ stands⟩, h.rows, fun pc => ?_, ?_, fun i some => ?_,
    fun i opened => ?_, h.beyond, h.handled⟩
  · exact ⟨fun inside => absurd rfl (fresh (.inr (.inr ⟨pc, inside⟩))), fun empty => absurd empty.2 (not_lt.mpr empty.1)⟩
  · refine (h.apart pc).imp_of_mem fun {a b} inside _ apart => ⟨apart.1, apart.2.1, fun told again => ?_⟩
    rcases mem_cons.mp again with same | old
    · exact fresh (.inr (.inr ⟨pc, inside⟩)) same
    · exact apart.2.2 told old
  · exact pairwise_cons.mpr ⟨fun i old => h.known i (.inl old), h.numbers⟩
  · rcases some with opened | others
    · rcases mem_cons.mp opened with rfl | old
      · exact lt_succ_self _
      · exact lt_succ_of_lt (h.known i (.inl old))
    · exact lt_succ_of_lt (h.known i (.inr others))
  · rcases mem_cons.mp opened with rfl | old
    · exact fun told => fresh (.inr (.inl told)) rfl
    · exact h.bodies i old

/-- A guarded block is given a handler: it guards the body, which ends before its first handler. -/
theorem Fits.handle {t : JType}
    (h : n.Fits name pool ⟨.guarded start stop :: levels, handlers, pos⟩) (blocks : n.blocks = b :: outer)
    (number : b.number? = some i) (ends : e = stop.getD pos)
    (named : pool.className? ref = some (t.resolve name).internalName) :
    { n with blocks := .handler i :: outer, handlers := n.handlers ++ [(i, t)] }.Fits name pool
      ⟨.guarded start (some e) :: levels, handlers.push ⟨start, e, target, ref⟩, pos⟩ := by
  obtain ⟨b', outer', inner, blocks', rfl, top, others⟩ := h.top (by simp)
  obtain ⟨rfl, rfl⟩ := cons.inj (blocks.symm.trans blocks')
  have guards : e ≤ pos ∧ ∀ pc, i ∈ n.within pc ↔ start ≤ pc ∧ pc < e := by
    subst ends
    obtain _ | ⟨j, from_⟩ | j := b <;> cases number
    · cases stop with
      | none => exact ⟨le_refl pos, by simpa [top.1] using top.2.2⟩
      | some => exact top.elim
    · cases stop with
      | none => exact top.elim
      | some => exact top.2
  have numbers : n.numbers = i :: outer.filterMap Block.number? := by
    rw [Nest.numbers, blocks, filterMap_cons, number]
  have highest : ∀ a ∈ outer.filterMap Block.number?, a < i := by
    have sorted := h.numbers
    rw [numbers] at sorted
    exact (pairwise_cons.mp sorted).1
  have bodies : ∀ a ∈ outer.filterMap Block.body?, a ∈ n.bodies := by
    intro a inside
    rw [Nest.bodies, blocks]
    exact (List.Sublist.filterMap _ (sublist_cons_self b outer)).subset inside
  have sorted : ({ n with blocks := .handler i :: outer, handlers := n.handlers ++ [(i, t)] } : Nest).numbers = n.numbers :=
    numbers.symm
  refine ⟨⟨_ :: inner, rfl, .cons ⟨by simp, guards⟩ (others.imp fun b l stands => ?_)⟩, ?_, fun pc => ?_, sorted ▸ h.numbers,
    fun a some => ?_, fun a opened => ?_, h.beyond, h.handled⟩
  · cases b with
    | plain | body => obtain _ | _ | _ | ⟨start', _ | stop⟩ := l <;> exact stands
    | handler =>
      obtain _ | _ | _ | ⟨start', _ | stop⟩ := l <;> try exact stands
      exact ⟨by simp [stands.1], stands.2⟩
  · rw [Array.toList_push]
    exact rel_append h.rows (.cons ⟨named, fun pc => (guards.2 pc).symm⟩ .nil)
  · refine (h.apart pc).imp fun {a b} apart => ⟨apart.1, fun r s u v mine other => ?_, fun told => ?_⟩
    · rw [getElem?_append] at mine other
      split at mine <;> split at other
      · exact apart.2.1 r s u v mine other
      · omega
      · -- an outer block has rows only once the inner is closed
        obtain ⟨rfl, -⟩ : a = i ∧ u = t := by simpa using mem_of_getElem? mine
        have told := mem_map_of_mem (f := Prod.fst) (mem_of_getElem? other)
        exact absurd (by simp [numbers]) (apart.2.2 told)
      · obtain ⟨rfl, -⟩ : a = i ∧ u = t := by simpa using mem_of_getElem? mine
        obtain ⟨rfl, -⟩ : b = a ∧ v = t := by simpa using mem_of_getElem? other
        exact absurd apart.1 (lt_irrefl b)
    · rw [sorted]
      rcases mem_append.mp (map_append ▸ told) with old | new
      · exact apart.2.2 old
      · obtain rfl : b = i := by simpa using new
        rw [numbers, mem_cons, not_or]
        exact ⟨ne_of_gt apart.1, fun inside => lt_asymm apart.1 (highest a inside)⟩
  · rw [sorted] at some
    rcases some with opened | told | inside
    · exact h.known a (.inl opened)
    · rcases mem_append.mp (map_append ▸ told) with old | new
      · exact h.known a (.inr (.inl old))
      · obtain rfl : a = i := by simpa using new
        exact h.known a (.inl (by simp [numbers]))
    · exact h.known a (.inr (.inr inside))
  · rw [map_append, mem_append, not_or]
    refine ⟨h.bodies a (bodies a opened), fun same => ?_⟩
    obtain rfl : a = i := by simpa using same
    exact lt_irrefl a (highest a ((bodies_sublist { n with blocks := outer }).subset opened))

theorem Fits.pop (h : n.Fits name pool ⟨level :: levels, handlers, pos⟩) (blocks : n.blocks = b :: outer)
    (body : level ≠ .body) : { n with blocks := outer }.Fits name pool ⟨levels, handlers, pos⟩ := by
  obtain ⟨b', outer', inner, blocks', rfl, -, others⟩ := h.top body
  obtain ⟨rfl, rfl⟩ := cons.inj (blocks.symm.trans blocks')
  have inside : ({ n with blocks := outer } : Nest).numbers.Sublist n.numbers := by
    rw [Nest.numbers, Nest.numbers, blocks]
    exact (sublist_cons_self b outer).filterMap _
  have bodies : ({ n with blocks := outer } : Nest).bodies.Sublist n.bodies := by
    rw [Nest.bodies, Nest.bodies, blocks]
    exact (sublist_cons_self b outer).filterMap _
  exact ⟨⟨inner, rfl, others⟩, h.rows,
    fun pc => (h.apart pc).imp fun apart => ⟨apart.1, apart.2.1, fun told again => apart.2.2 told (inside.subset again)⟩,
    h.numbers.sublist inside, fun i some => h.known i (some.imp_left fun again => inside.subset again),
    fun i opened => h.bodies i (bodies.subset opened), h.beyond, h.handled⟩

end

variable {code : List UInt8} {s : Statement} {n : Nest} {o : Outline} {pool : Pool} {name : String}

theorem Fits.coded (h : n.Fits name pool o) (code : List UInt8) : { n with code }.Fits name pool o :=
  { h with }

theorem Fits.turns (h : n.Fits name pool o) (size : code.length = o.pos) (turns : Turns name pool s o o') (open_ : o'.levels ≠ []) :
    (n.enter ⟨s, code, o'.pos⟩).Fits name pool o' := by
  obtain ⟨levels, handlers, pos⟩ := o
  obtain rfl : code.length = pos := size
  have start := h.emit (le_refl _)
  refine Fits.coded ?_ code
  cases turns with
  | flat flat le => cases s <;> first | exact start.emit le | cases flat
  | jump loop inside le => obtain rfl | rfl := loop <;> exact start.emit le
  | opens opens le =>
    cases s <;> cases opens
    · exact (start.plain (.inr rfl)).emit le
    · exact (start.plain (.inl rfl)).emit le
    · exact (start.plain (.inl rfl)).emit le
    · exact start.guard.emit le
  | elseIf le => exact start.emit le
  | elseOpen le => exact start.lastArm.emit le
  | @handler t v levels handlers from_ _ pos' target stop ref named small before after =>
    obtain ⟨b, outer, -, blocks, -, top, -⟩ := h.top (by simp)
    obtain ⟨count, bs, hs, within⟩ := n
    obtain rfl : bs = b :: outer := blocks
    cases b with
    | plain => cases stop <;> exact top.elim
    | body i start' =>
      cases stop with
      | none =>
        obtain ⟨rfl, -⟩ := top
        have grows : code.length ≤ if code.length = from_ then code.length + 1 else code.length := by split <;> omega
        exact ((h.emit grows).handle rfl rfl rfl named).emit (le_trans small after)
      | some => exact top.elim
    | handler i =>
      cases stop with
      | none => exact top.elim
      | some stop => exact (start.handle rfl rfl rfl named).emit (le_trans before after)
  | close body guarded le =>
    obtain ⟨b, outer, -, blocks, -⟩ := h.top body
    obtain ⟨count, bs, hs, within⟩ := n
    obtain rfl : bs = b :: outer := blocks
    exact (start.pop rfl body).emit le
  | finish => exact absurd rfl open_

theorem pos_le_of_turns (turns : Turns name pool s o o') : o.pos ≤ o'.pos := by
  cases turns with
  | flat _ le | jump _ _ le | opens _ le | elseIf le | elseOpen le | close _ _ le => exact le
  | handler _ _ before after => exact le_trans before after
  | finish n le => exact le_trans (le_add_right _ n) le

theorem Fits.tabled (h : n.Fits name pool o) (shift : Nat) :
    n.Tabled name pool shift (o.handlers.map (Handler.shift shift)).toList where
  rows := by
    rw [Array.toList_map, forall₂_map_right_iff]
    refine h.rows.imp fun x r row => ⟨row.1, le_add_left _ _, fun pc => ?_⟩
    rw [← row.2 pc]
    simp [Handler.shift]
  before pc := (h.apart pc).imp fun apart => apart.2.1
  handled := h.handled

theorem Fits.finish {handlers : Array Handler} (h : n.Fits name pool ⟨[.body], handlers, code.length⟩)
    (le : code.length ≤ stop) : (n.enter ⟨.close, code, stop⟩).Fits name pool ⟨[.body], handlers, stop⟩ := by
  obtain ⟨inner, form, stands⟩ := h.stands
  obtain rfl : inner = [] := by simpa using form.symm
  obtain ⟨count, bs, hs, within, before⟩ := n
  obtain rfl : bs = [] := forall₂_nil_right_iff.mp stands
  exact ((h.emit (le_refl _)).emit le).coded code

theorem Fits.later (h : n.Fits name pool o) (le : pool.Le pool') : n.Fits name pool' o :=
  { h with rows := h.rows.imp fun _ _ row => ⟨le.className? row.1, row.2⟩ }

theorem Tabled.later (h : n.Tabled name pool shift rows) (le : pool.Le pool') : n.Tabled name pool' shift rows :=
  { h with rows := h.rows.imp fun _ _ row => ⟨le.className? row.1, row.2⟩ }

theorem fits_body (name : String) (pool : Pool) : ({} : Nest).Fits name pool ⟨[.body], #[], 0⟩ where
  stands := ⟨[], rfl, .nil⟩
  rows := .nil
  apart _ := .nil
  numbers := .nil
  known i some := by simp [numbers] at some
  bodies i opened := by simp [Nest.bodies] at opened
  beyond _ _ := rfl
  handled _ i none := by simp at none

end Nest

/-- The rows are those of the starts, moved with the code. Of the starts at a position the latest counts. -/
def Lined (shift : Nat) (lines : Array LineRow) (starts : List (Nat × Nat)) : Prop :=
  lines.toList.Pairwise (·.pc < ·.pc) ∧ ∀ r, r ∈ lines ↔ shift ≤ r.pc ∧ starts.lookup (r.pc - shift) = some r.line

namespace Lined

variable {lines : Array LineRow} {starts : List (Nat × Nat)} {pc line : Nat}

theorem toList_addLine (sorted : lines.toList.Pairwise (·.pc < ·.pc)) (le : ∀ r ∈ lines, r.pc ≤ pc) (line : Nat) :
    (Step.addLine lines pc line).toList = lines.toList.filter (·.pc < pc) ++ [⟨pc, line⟩] := by
  obtain ⟨rows⟩ := lines
  obtain rfl | ⟨rows, last, rfl⟩ := rows.eq_nil_or_concat
  · rfl
  rw [concat_eq_append] at sorted le ⊢
  have before := (pairwise_append.mp sorted).2.2
  have small := le last (by simp)
  have all : ∀ r ∈ rows, r.pc < pc := fun r hr => lt_of_lt_of_le (before r hr last (by simp)) small
  simp only [Step.addLine, back?_toArray, getLast?_append, getLast?_singleton, Option.some_or,
    filter_append, filter_eq_self.mpr (fun r hr => decide_eq_true (all r hr))]
  split_ifs with same
  · simp [same]
  · simp [lt_of_le_of_ne small same]

theorem addLine (h : Lined 0 lines starts) (le : ∀ r ∈ lines, r.pc ≤ pc) :
    Lined 0 (Step.addLine lines pc line) ((pc, line) :: starts) := by
  have rows := toList_addLine h.1 le line
  refine ⟨?_, fun r => ?_⟩
  · rw [rows]
    refine pairwise_append.mpr ⟨h.1.filter _, pairwise_singleton _ _, ?_⟩
    simp +contextual
  · have old := h.2 r
    rw [Nat.sub_zero, ← Array.mem_toList_iff] at old ⊢
    rw [rows, mem_append, mem_filter, old, mem_singleton, lookup_cons]
    obtain ⟨at_, row⟩ := r
    by_cases same : at_ = pc
    · simp [same, eq_comm]
    · have small := le ⟨at_, row⟩
      rw [← Array.mem_toList_iff, old] at small
      simpa [same, beq_eq_false_iff_ne.mpr same] using fun found => lt_of_le_of_ne (small ⟨zero_le _, found⟩) same

theorem moved (h : Lined 0 lines starts) (n : Nat) : Lined n (lines.map (LineRow.shift n)) starts := by
  refine ⟨?_, fun r => ?_⟩
  · rw [Array.toList_map, pairwise_map]
    exact h.1.imp fun lt => Nat.add_lt_add_right lt n
  · rw [Array.mem_map]
    constructor
    · rintro ⟨q, hq, rfl⟩
      have found := ((h.2 q).mp hq).2
      exact ⟨Nat.le_add_left _ _, by simpa [LineRow.shift] using found⟩
    · rintro ⟨le, found⟩
      refine ⟨⟨r.pc - n, r.line⟩, (h.2 _).mpr ⟨Nat.zero_le _, found⟩, ?_⟩
      rw [LineRow.shift, Nat.sub_add_cancel le]

end Lined

namespace Draft

variable {p : Provider} {c : Call} {d d' : Draft} {j : Nat} {n : Nest}

def codeOf (d : Draft) (j : Nat) : List UInt8 := (d.methods[j]?.map (·.code.bytes.toList)).getD []

def startOf (d : Draft) (j : Nat) (s : Statement) : List (Nat × Nat) :=
  ((d.methods[j]?.bind s.start?).map (·, d.line + 1)).toList

def tell (j : Nat) (s : Draft × Nest) (c : Provider × Call) : Draft × Nest :=
  let r := s.1.call c.1 c.2
  (r.2, match c.2 with
    | .perform i a => if i = j ∧ r.1.isOk = true then s.2.enter ⟨a, s.1.codeOf j, (r.2.codeOf j).length⟩ else s.2
    | _ => s.2)

def nest (d : Draft) (j : Nat) (calls : List (Provider × Call)) : Nest := (calls.foldl (tell j) (d, {})).2

/-- The start and the line of the statement that a call adds to a method. -/
def begun (d : Draft) (j : Nat) (c : Provider × Call) : List (Nat × Nat) :=
  match c.2 with
  | .perform i a => if i = j ∧ (d.call c.1 c.2).1.isOk = true then d.startOf j a else []
  | _ => []

/-- The starts and lines of the statements of a method, the latest first. -/
def starts (d : Draft) (j : Nat) : List (Provider × Call) → List (Nat × Nat)
  | [] => []
  | c :: calls => starts (d.call c.1 c.2).2 j calls ++ d.begun j c

theorem nest_append (d : Draft) (j : Nat) (calls : List (Provider × Call)) (c : Provider × Call) :
    d.nest j (calls ++ [c]) = (tell j (d.after calls, d.nest j calls) c).2 := by
  have after : ∀ s : Draft × Nest, (calls.foldl (tell j) s).1 = s.1.after calls := by
    induction calls with
    | nil => exact fun _ => rfl
    | cons c calls ih => exact fun s => ih _
  rw [nest, foldl_append, ← after (d, {})]
  rfl

theorem starts_append (d : Draft) (j : Nat) (calls : List (Provider × Call)) (c : Provider × Call) :
    d.starts j (calls ++ [c]) = (d.after calls).begun j c ++ d.starts j calls := by
  induction calls generalizing d with
  | nil => exact (append_nil _).symm
  | cons b calls ih => rw [cons_append, starts, ih, starts, append_assoc]; rfl

section

variable {m : Method} {s : Statement} {x : Option Nat} {w : Work} {l : List (Nat × Nat)}

theorem Valid.ends (h : d.Valid lax) (found : d.methods[j]? = some m) (opened : m.finished = false)
    (body : m.top.scope = .body)
    (sites : ∃ ops, m.code.Bears m.code.pos (m.scopes.flatMap Scope.loose) ops ∧ Stacked m.scopes ops)
    (gives : Step.Gives (d.context p) (Step.requested .close) (d.workOn m) x w) :
    m.scopes = [.body] ∧ w.method.finished = true ∧ ∃ first last : Array UInt8,
      w.method.handlers = m.handlers.map (Handler.shift first.size) ∧
        w.method.lines = m.lines.map (LineRow.shift first.size) ∧ w.method.code.bytes = first ++ (m.code.bytes ++ last) := by
  obtain ⟨-, -, -, run⟩ := Step.of_requested gives
  have settled := h.settledLax (p := p) found opened
  obtain ⟨run, -⟩ := Step.gives_plainly.mp run
  simp only [Step.closeInnermost, Step.gives_bind, Step.gives_top, looked] at run
  change (d.workOn m).method.top.scope = .body at body
  rw [body] at run
  have ends : Step.Meets (d.context p) Step.finish (d.workOn m) fun _ v => v.method.finished = true ∧
      ∃ first last : Array UInt8, v.method.handlers = m.handlers.map (Handler.shift first.size) ∧
        v.method.lines = m.lines.map (LineRow.shift first.size) ∧ v.method.code.bytes = first ++ (m.code.bytes ++ last) :=
    Step.meets_ending settled body sites fun v first last _ finished handlers lines bytes =>
      ⟨finished, first, last, handlers, lines, bytes⟩
  exact ⟨Step.scopes_of_body settled body, ends.yields run⟩

theorem Valid.lined (h : d.Valid lax) (found : d.methods[j]? = some m) (opened : m.finished = false)
    (same : w.method.lines = ((d.workOn m).started s).lines) (lined : Lined 0 m.lines l) :
    Lined 0 w.method.lines (d.startOf j s ++ l) := by
  obtain ⟨ctx, line, trail, -, spots, own, below, plan⟩ := (h.methods j m found).opened opened
  rw [same, startOf, found]
  change Lined 0 ((s.start? m).elim (d.workOn m).shape (d.workOn m).begins).lines
    (((s.start? m).map (·, d.line + 1)).toList ++ l)
  cases start : s.start? m with
  | none => exact lined
  | some pc =>
    have late := Statement.le_start? start
    refine lined.addLine fun r hr => ?_
    obtain last | ⟨x, hx, at_⟩ := plan.tables.lines r hr
    · exact last ▸ late
    · exact at_ ▸ le_trans (le_of_lt (plan.cert.pc_lt hx)) late

/-- What a statement makes of the nesting and the lines. -/
theorem Valid.nests (h : d.Valid lax) (sane : d.Sane o) (whole : d.broken = none) (found : d.methods[j]? = some m)
    (gives : Step.Gives (d.context p) (Step.requested s) (d.workOn m) x w) (fits : n.Fits d.name d.pool m.outline)
    (lined : Lined 0 m.lines l) : (w.method.finished = false → w.method.frames ≠ [] →
      (n.enter ⟨s, m.code.bytes.toList, w.method.code.pos⟩).Fits d.name w.pool w.method.outline ∧
        m.code.bytes.toList.length ≤ w.method.code.pos ∧ Lined 0 w.method.lines (d.startOf j s ++ l)) ∧
    (w.method.finished = true → ∃ shift,
      (n.enter ⟨s, m.code.bytes.toList, w.method.code.pos⟩).Tabled d.name w.pool shift w.method.handlers.toList ∧
        m.code.bytes.toList <+: w.method.code.bytes.toList.drop shift ∧
        Lined shift w.method.lines (d.startOf j s ++ l)) := by
  obtain ⟨-, opened, -⟩ := Step.of_requested gives
  have own := sane.whole whole m (Array.mem_of_getElem? found)
  have fits := fits.later ((h.requested found gives).1)
  refine ⟨fun open_ frames => ?_, fun done => ?_⟩
  · have outcome := (Step.meets_requested s (fun o => h.settledLax found o) sane.rows.low own).yields gives
    refine ⟨fits.turns Array.length_toList outcome.turns fun none => frames ?_, Nest.pos_le_of_turns outcome.turns,
      h.lined found opened (outcome.lines open_) lined⟩
    simpa [Method.outline, Method.scopes] using none
  · obtain ⟨rfl, body⟩ := (h.requested found gives).2.2 done
    obtain ⟨scopes, -, first, last, handlers, lines, bytes⟩ := h.ends found opened body (own opened).sites gives
    rw [Method.outline, scopes, Code.pos, ← Array.length_toList] at fits
    have grows : m.code.bytes.toList.length ≤ w.method.code.pos := by
      simp only [Code.pos, bytes, Array.size_append, Array.length_toList]
      omega
    refine ⟨first.size, ?_, ?_, ?_⟩
    · rw [handlers]
      exact (fits.finish grows).tabled first.size
    · rw [bytes, Array.toList_append, Array.toList_append, ← Array.length_toList, drop_left]
      exact prefix_append _ _
    · rw [lines, startOf, found]
      exact lined.moved first.size

end

theorem Move.later (move : Move p c d d') (h : d.Valid lax) :
    d.pool.Le d'.pool ∧ d.methods.size ≤ d'.methods.size ∧ d'.name = d.name := by
  cases move with
  | line => exact ⟨.refl _, le_refl _, rfl⟩
  | field _ run =>
    obtain ⟨q, ref, entry, -, rfl⟩ := Change.of_addField run
    exact ⟨(Pool.interns_member _ _ _ _).grows entry, le_refl _, rfl⟩
  | value _ run =>
    obtain rfl | ⟨q, f, value, ref, -, -, entry, rfl⟩ := Change.of_initField run
    · exact ⟨.refl _, le_refl _, rfl⟩
    · exact ⟨value.interns.grows entry, le_refl _, rfl⟩
  | markClass _ _ encodes | markField _ _ encodes => exact ⟨encodes.grows, le_refl _, rfl⟩
  | markMethod _ _ encodes => exact ⟨encodes.grows, by simp, rfl⟩
  | declare => exact ⟨.refl _, by simp, rfl⟩
  | throws _ _ gives => exact ⟨(Step.of_throws gives).1, by simp [put], rfl⟩
  | build _ found open_ gives =>
    have settled := h.settled (p := p) (by rintro ⟨⟩) found open_
    exact ⟨(Step.keeps_build _ (by rintro ⟨⟩) (fun _ _ _ => trivial) settled.sound gives).calm.le.pool, by simp [put], rfl⟩
  | perform _ found gives | close _ found _ gives => exact ⟨(h.requested found gives).1, by simp [put], rfl⟩
  | write _ _ written => exact ⟨(((writes_body d).grows _).yields written).1, le_refl _, rfl⟩

/-- The nesting and the lines are those of the method. Of one that has ended, rows and code moved
together. -/
structure Follows (d : Draft) (j : Nat) (n : Nest) (l : List (Nat × Nat)) : Prop where
  absent : d.methods.size ≤ j → n = {} ∧ l = []
  opened : ∀ m, d.methods[j]? = some m → m.finished = false →
    n.Fits d.name d.pool m.outline ∧ n.code.length ≤ m.code.pos ∧ Lined 0 m.lines l
  ended : ∀ m, d.methods[j]? = some m → m.finished = true → ∃ shift,
    n.Tabled d.name d.pool shift m.handlers.toList ∧ n.code <+: m.code.bytes.toList.drop shift ∧ Lined shift m.lines l

variable {l : List (Nat × Nat)}

theorem fits_fresh {m : Method} (fresh : m.Fresh types) (open_ : m.finished = false) (name : String)
    (pool : Pool) : ({} : Nest).Fits name pool m.outline := by
  obtain ⟨code, -, handlers, -⟩ := fresh.nothing
  rw [Method.outline, Method.scopes, fresh.frames (fresh.finished.symm.trans open_), code, handlers]
  exact Nest.fits_body name pool

theorem lined_fresh {m : Method} (fresh : m.Fresh types) : Lined 0 m.lines [] := by
  rw [fresh.nothing.2.2.2.2]
  exact ⟨.nil, by simp⟩

theorem Move.follows (move : Move p c d d') (h : d.Valid lax) (other : ∀ i s, c ≠ .perform i s)
    (follows : d.Follows j n l) : d'.Follows j n l := by
  obtain ⟨le, size, name⟩ := move.later h
  have ended {m : Method} (old : d.methods[j]? = some m) (done : m.finished = true) :=
    (follows.ended m old done).imp fun _ both => both.imp_left (·.later le)
  -- only a static initializer without statements ends without one that asks for it
  have closed {m : Method} {s : Statement} {x : Option Nat} {w : Work} (asked : c = .perform j s ∨ c = .bytes ∧
      s = .close ∧ m.Fresh (.ofClass d.name :: m.info.params)) (old : d.methods[j]? = some m)
      (gives : Step.Gives (d.context p) (Step.requested s) (d.workOn m) x w) : w.method.finished = true ∧ ∃ shift,
      n.Tabled d.name d'.pool shift w.method.handlers.toList ∧ n.code <+: w.method.code.bytes.toList.drop shift ∧
        Lined shift w.method.lines l := by
    obtain same | ⟨-, rfl, fresh⟩ := asked
    · exact absurd same (other j s)
    obtain ⟨-, opened, -⟩ := Step.of_requested gives
    have body : m.top.scope = .body := by
      rw [Method.top, fresh.frames (fresh.finished.symm.trans opened)]
      rfl
    obtain ⟨-, done, first, last, handlers, lines, -⟩ := h.ends old opened body (fresh.sites opened) gives
    obtain ⟨fits, short, lined⟩ := follows.opened m old opened
    refine ⟨done, first.size, ?_, ?_, lines ▸ lined.moved first.size⟩
    · rw [handlers]
      exact (fits.later le).tabled first.size
    · rw [fresh.nothing.1] at short
      rw [eq_nil_of_length_eq_zero (le_zero.mp short)]
      exact nil_prefix
  refine ⟨fun small => follows.absent (le_trans size small), fun m found open_ => ?_, fun m found done => ?_⟩
  · rw [name]
    cases move.turned h found with
    | declared last fresh =>
      obtain ⟨rfl, rfl⟩ := follows.absent (le_of_eq last.symm)
      exact ⟨fits_fresh fresh open_ _ _, zero_le _, lined_fresh fresh⟩
    | kept old | marked old | threw old | built old => exact (follows.opened _ old open_).imp_left (·.later le)
    | performed asked old gives => exact absurd (closed asked old gives).1 (by simp [open_])
  · rw [name]
    cases move.turned h found with
    | kept old => exact ended old done
    | declared last fresh =>
      obtain ⟨rfl, rfl⟩ := follows.absent (le_of_eq last.symm)
      rw [fresh.nothing.2.2.1]
      exact ⟨0, ⟨.nil, fun _ => .nil, fun _ _ none => absurd none not_mem_nil⟩, nil_prefix, lined_fresh fresh⟩
    | @marked m _ _ _ old | @threw m _ old | @built m _ old => exact ended (m := m) old done
    | performed asked old gives => exact (closed asked old gives).2

theorem tell_perform (run : d.perform p i s = (r, d')) : tell j (d, n) (p, .perform i s) =
      (d', if i = j ∧ r.isOk = true then n.enter ⟨s, d.codeOf j, (d'.codeOf j).length⟩ else n) := by
  simp only [tell, call, replying, run]
  cases r <;> rfl

theorem begun_perform (run : d.perform p i s = (r, d')) :
    d.begun j (p, .perform i s) = if i = j ∧ r.isOk = true then d.startOf j s else [] := by
  simp only [begun, call, replying, run]
  cases r <;> rfl

theorem Valid.follows (h : d.Valid lax) (sane : d.Sane o) (whole : (d.call p c).2.broken = none)
    (follows : d.Follows j n l) :
    (d.call p c).2.Follows j (tell j (d, n) (p, c)).2 (d.begun j (p, c) ++ l) := by
  have moves := h.moves whole
  by_cases asks : ∃ i s, c = .perform i s
  · obtain ⟨i, s, rfl⟩ := asks
    have valid := Moves.valid moves h
    have unbroken := whole_of_call whole
    obtain ⟨r, d', run⟩ : ∃ r d', d.perform p i s = (r, d') := ⟨_, _, rfl⟩
    have after : (d.call p (.perform i s)).2 = d' := congrArg Prod.snd run
    rw [after] at whole valid ⊢
    rw [tell_perform run, begun_perform run]
    obtain ⟨-, ⟨⟨f, rfl⟩, -, rfl⟩ | ⟨m, x, w, -, found, rfl, gives, rfl⟩⟩ := of_perform run (.inr whole)
    · rw [if_neg (fun both => Bool.noConfusion both.2), if_neg (fun both => Bool.noConfusion both.2)]
      exact follows
    have le := (h.requested found gives).1
    by_cases mine : i = j
    · subst mine
      have inside : i < d.methods.size := (Array.getElem?_eq_some_iff.mp found).1
      have put : (d.put i w).methods[i]? = some w.method := by
        rw [Draft.put, Array.getElem?_setIfInBounds_self_of_lt inside]
      have before : d.codeOf i = m.code.bytes.toList := by rw [codeOf, found]; rfl
      have length : ((d.put i w).codeOf i).length = w.method.code.pos := by
        rw [codeOf, put]
        exact Array.length_toList
      rw [if_pos ⟨rfl, rfl⟩, if_pos ⟨rfl, rfl⟩, before, length]
      obtain ⟨-, opened, -⟩ := Step.of_requested gives
      obtain ⟨fits, -, lined⟩ := follows.opened m found opened
      obtain ⟨goes, ends⟩ := h.nests sane unbroken found gives fits lined
      refine ⟨fun small => ?_, fun m' found' open_ => ?_, fun m' found' done => ?_⟩
      · exact absurd inside (not_lt.mpr (by simpa [Draft.put] using small))
      · obtain rfl := Option.some.inj (put.symm.trans found')
        refine goes open_ fun none => ?_
        have frames := (valid.settledLax (p := p) put open_).laid.frames
        exact cons_ne_nil _ _ (frames.symm.trans none)
      · obtain rfl := Option.some.inj (put.symm.trans found')
        exact ends done
    · have other : (d.put i w).methods[j]? = d.methods[j]? := by
        rw [Draft.put, Array.getElem?_setIfInBounds_ne mine]
      rw [if_neg (fun both => mine both.1), if_neg (fun both => mine both.1)]
      refine ⟨fun small => ?_, fun m' found' open_ => ?_, fun m' found' done => ?_⟩
      · exact follows.absent (by simpa [Draft.put] using small)
      · exact (follows.opened m' (other ▸ found') open_).imp_left (·.later le)
      · exact (follows.ended m' (other ▸ found') done).imp fun _ both => both.imp_left (·.later le)
  · have quiet : (tell j (d, n) (p, c)).2 = n ∧ d.begun j (p, c) = [] := by
      cases c <;> first | exact ⟨rfl, rfl⟩ | exact absurd ⟨_, _, rfl⟩ asks
    rw [quiet.1, quiet.2]
    generalize (d.call p c).2 = d' at moves
    induction moves with
    | refl => exact follows
    | tail moves move ih => exact move.follows (Moves.valid moves h) (fun i s same => asks ⟨i, s, same⟩) ih

variable {access : Access} {name super : String} {interfaces : List String} {options : Options}

theorem follows_after (made : create p access name super interfaces options tracer = (.ok d, recorder))
    (calls : List (Provider × Call)) (whole : (d.after calls).broken = none) :
    (d.after calls).Follows j (d.nest j calls) (d.starts j calls) := by
  induction calls using reverseRecOn with
  | nil =>
    have none : d.methods = #[] := (of_create made).2.2.2.1
    exact ⟨fun _ => ⟨rfl, rfl⟩, fun m found => by simp [after, none] at found, fun m found => by simp [after, none] at found⟩
  | append_singleton calls c ih =>
    have before := whole_before whole
    rw [after_append] at whole ⊢
    rw [nest_append, starts_append]
    exact (valid_after made calls before).follows (sane_after made calls) whole (ih before)

/-- An exception reaches the handler that the nesting gives, wherever the code was moved to: of the
innermost guarded block around the position with a handler for its class, the first. No row guards
the handlers of its own block, nor what runs in front of the statements. -/
theorem dispatch_written (made : create p access name super interfaces options tracer = (.ok d, recorder))
    (written : (d.after calls).bytes q = (.ok out, d')) : ∃ c, decode out.toList = .ok c ∧
      ∀ j x, c.methods[j]? = some x → "Code" ∈ x.attrs.map Attr.name →
        ∃ b shift, body? c.pool x = .ok b ∧ (d.nest j calls).code <+: b.code.drop shift ∧
          (∀ catches pc, b.dispatch c.pool catches (pc + shift) =
            (d.nest j calls).handlerAt (fun t => catches (t.resolve d.name).internalName) pc) ∧
          (∀ catches pc, pc < shift → b.dispatch c.pool catches pc = none) ∧
          List.Forall₂ (fun h r => c.pool.className r.catchType.toUInt16 = .ok (h.2.resolve d.name).internalName ∧
            ∀ pc, h.1 ∈ (d.nest j calls).handling pc → ¬ (r.start ≤ pc + shift ∧ pc + shift < r.stop))
            (d.nest j calls).handlers b.handlers := by
  obtain ⟨last, whole⟩ := after_written written
  rw [← last] at whole
  have name := name_after (valid_create made) whole
  obtain ⟨valid, wrote, -, c, read, pool, shows⟩ := lax_written made written
  have holds : c.pool.Holds d'.pool := by
    rw [pool]
    exact Table.holds_ofPool valid.pool
  refine ⟨c, read, fun j x hx has => ?_⟩
  have follows := follows_after (j := j) made (calls ++ [(q, .bytes)]) whole
  rw [nest_append] at follows
  rw [last] at follows name
  obtain ⟨m, b, found, body, same, -⟩ := valid.body wrote shows hx has
  obtain ⟨shift, tabled, code, -⟩ := follows.ended m found (wrote.finished m (Array.mem_of_getElem? found))
  rw [name] at tabled
  refine ⟨b, shift, body, ?_, tabled.dispatch holds same.handlers, fun catches pc => tabled.dispatch_front same.handlers catches, ?_⟩
  · rw [same.code]
    exact code
  · rw [same.handlers]
    refine forall₂_map_right_iff.mpr (tabled.rows.imp fun h r row => ?_)
    obtain ⟨named, -, guards⟩ := row
    refine ⟨by simpa [Handler.row] using holds.className named, fun pc handled => ?_⟩
    rw [show r.row.start = r.start from rfl, show r.row.stop = r.stop from rfl, guards pc]
    exact tabled.handled pc h.1 handled

/-- In the counter the first instruction is guarded, and the first of its handler is not. -/
theorem dispatch_written_counter : ∃ out d', (counter.after counterCalls).bytes library = (.ok out, d') ∧
    ∃ c, decode out.toList = .ok c ∧ ∀ x, c.methods[0]? = some x → "Code" ∈ x.attrs.map Attr.name →
      ∃ b shift, body? c.pool x = .ok b ∧ b.dispatch c.pool (· = "java/lang/Throwable") shift = some 0 ∧
        b.dispatch c.pool (· = "java/lang/Throwable") (15 + shift) = none := by
  obtain ⟨c, read, each⟩ := dispatch_written counter_created counter_written
  refine ⟨_, _, counter_written, c, read, fun x hx has => ?_⟩
  obtain ⟨b, shift, body, -, same, -⟩ := each 0 x hx has
  refine ⟨b, shift, body, ?_, (same _ 15).trans ?_⟩
  · rw [← zero_add shift, same]
    decide +kernel
  · decide +kernel

end Draft

end Assembler

end ClassForge

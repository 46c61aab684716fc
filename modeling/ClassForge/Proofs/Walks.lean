import ClassForge.Hierarchy.Walk
import Mathlib.Logic.Relation
import Mathlib.Order.WellFoundedSet
import Mathlib.Data.List.Find
import Mathlib.Tactic.SplitIfs

/-! The way up from a class meets the class, its superclasses in order and every interface that one
of them lists, directly or through others, each once. It ends where no class is above itself,
whatever cycles the interfaces form. -/

namespace ClassForge

open Relation List Hierarchy

namespace Provider

variable {p : Provider} {name owner : String} {c : ClassInfo}

def Super (p : Provider) (a b : String) : Prop := ∃ c, p.find? a = some c ∧ c.super = b

def Lists (p : Provider) (a b : String) : Prop := ∃ c, p.find? a = some c ∧ b ∈ c.interfaces

/-- Every class has the name under which it is found, every name it lists is there, and no class is
above itself. -/
structure Climbable (p : Provider) : Prop where
  named : ∀ name c, p.find? name = some c → c.name = name
  supers : ∀ a b, p.Super a b → b ≠ "" → ∃ c, p.find? b = some c
  interfaces : ∀ a b, p.Lists a b → ∃ c, p.find? b = some c
  acyclic : ∀ a, ¬ TransGen p.Super a a

theorem mem_classes (found : p.find? name = some c) : c ∈ p.classes := by
  fun_induction find? p name with
  | case1 r name => exact mem_map.mpr ⟨(name, c), Std.TreeMap.mem_toList_iff_getElem?_eq_some.mpr found, rfl⟩
  | case2 r base name d here =>
    have first : c ∈ r.classes :=
      mem_map.mpr ⟨(name, c), Std.TreeMap.mem_toList_iff_getElem?_eq_some.mpr (here.trans found), rfl⟩
    cases base <;> exact mem_append_left _ first
  | case3 r name _ b ih => exact mem_append_right _ (ih found)
  | case5 base d =>
    cases found
    cases base <;> exact mem_append_left _ mem_cons_self
  | case6 name d _ b ih | case8 name b ih => exact mem_append_right _ (ih found)
  | case4 | case7 | case9 => cases found

namespace Climbable

theorem induction (h : p.Climbable) {P : String → Prop} (found : p.find? name = some c)
    (step : ∀ name c, p.find? name = some c → (∀ d, p.find? c.super = some d → P c.super) → P name) : P name := by
  have order : IsStrictOrder String fun b a => TransGen p.Super a b :=
    { irrefl := h.acyclic, trans := fun _ _ _ up up' => up'.trans up }
  have finite : {a | ∃ c, p.find? a = some c}.Finite := by
    refine (p.classes.map (·.name)).finite_toSet.subset ?_
    rintro a ⟨d, here⟩
    exact mem_map.mpr ⟨d, mem_classes here, h.named a d here⟩
  refine (finite.wellFoundedOn (r := fun b a => TransGen p.Super a b)).induction (x := name) ⟨c, found⟩ ?_
  rintro a ⟨d, here⟩ ih
  exact step a d here fun e above => ih _ ⟨e, above⟩ (.single ⟨d, here, rfl⟩)

theorem find?_empty (h : p.Climbable) : p.find? "" = none := by
  by_contra some
  obtain ⟨c, found⟩ := Option.ne_none_iff_exists'.mp some
  refine h.induction (P := fun _ => False) found fun a d here ih => ?_
  by_cases last : d.super = ""
  · exact ih c (last ▸ found)
  · obtain ⟨e, above⟩ := h.supers a d.super ⟨d, here, rfl⟩ last
    exact ih e above

theorem ne_empty (h : p.Climbable) (found : p.find? name = some c) : name ≠ "" := by
  rintro rfl
  cases found.symm.trans h.find?_empty

end Climbable

end Provider

namespace Hierarchy

variable {p : Provider} {name owner : String} {c d : ClassInfo} {up found : List ClassInfo} {seen queue : List String}

inductive Ascends (p : Provider) : String → List ClassInfo → Prop
  | top : Ascends p "" []
  | step {name : String} {c : ClassInfo} {up : List ClassInfo} : name ≠ "" → p.find? name = some c →
      Ascends p c.super up → Ascends p name (c :: up)

/-- The interface loop, run from what it has seen and the names in its queue to its end. -/
inductive Spreads (p : Provider) : List String → List String → List ClassInfo → Prop
  | done {seen : List String} : Spreads p seen [] []
  | skip {seen queue : List String} {name : String} {found : List ClassInfo} : name ∈ seen → Spreads p seen queue found →
      Spreads p seen (name :: queue) found
  | visit {seen queue : List String} {name : String} {c : ClassInfo} {found : List ClassInfo} : name ∉ seen →
      p.find? name = some c → Spreads p (name :: seen) (queue ++ c.interfaces) found →
      Spreads p seen (name :: queue) (c :: found)

namespace Ascends

theorem chain_eq (h : Ascends p name up) (enough : up.length ≤ n) : chain p n name = ⟨up, none⟩ := by
  induction h generalizing n with
  | top => cases n <;> simp [chain]
  | step some here _ ih =>
    cases n with
    | zero => simp at enough
    | succ n => simp [chain, some, here, ih (Nat.le_of_succ_le_succ enough)]

theorem mem_iff (h : Ascends p name up) (climbable : p.Climbable) :
    d ∈ up ↔ p.find? d.name = some d ∧ ReflTransGen p.Super name d.name := by
  induction h with
  | top =>
    refine ⟨fun none => absurd none not_mem_nil, ?_⟩
    rintro ⟨here, reach⟩
    obtain same | ⟨_, ⟨e, none, -⟩, -⟩ := ReflTransGen.cases_head_iff.mp reach
    · exact absurd same.symm (climbable.ne_empty here)
    · cases none.symm.trans climbable.find?_empty
  | @step name c up some here _ ih =>
    rw [mem_cons, ih]
    constructor
    · rintro (rfl | ⟨above, reach⟩)
      · obtain rfl := climbable.named _ _ here
        exact ⟨here, .refl⟩
      · exact ⟨above, .head ⟨c, here, rfl⟩ reach⟩
    · rintro ⟨above, reach⟩
      obtain rfl | ⟨next, ⟨e, same, rfl⟩, reach⟩ := ReflTransGen.cases_head_iff.mp reach
      · exact .inl (Option.some.inj (above.symm.trans here))
      · cases here.symm.trans same
        exact .inr ⟨above, reach⟩

theorem nodup (h : Ascends p name up) (climbable : p.Climbable) : (up.map (·.name)).Nodup := by
  induction h with
  | top => exact .nil
  | @step name c up some here rest ih =>
    refine nodup_cons.mpr ⟨fun again => ?_, ih⟩
    obtain ⟨d, above, same⟩ := mem_map.mp again
    have same : d.name = name := same.trans (climbable.named _ _ here)
    exact climbable.acyclic name (.head' ⟨c, here, rfl⟩ (same ▸ ((rest.mem_iff climbable).mp above).2))

end Ascends

theorem exists_ascends (climbable : p.Climbable) (here : p.find? name = some c) : ∃ up, Ascends p name up := by
  refine climbable.induction (P := fun name => ∃ up, Ascends p name up) here fun name c here ih => ?_
  have some := climbable.ne_empty here
  by_cases last : c.super = ""
  · exact ⟨[c], .step some here (last ▸ .top)⟩
  · obtain ⟨d, above⟩ := climbable.supers name c.super ⟨c, here, rfl⟩ last
    obtain ⟨up, rest⟩ := ih d above
    exact ⟨c :: up, .step some here rest⟩

/-- The names that classes not seen yet can still put in the queue. -/
def pending (p : Provider) (seen : List String) : List String :=
  (p.classes.filter fun c => c.name ∉ seen).flatMap (·.interfaces)

theorem pending_cons (here : c ∈ p.classes) (new : c.name ∉ seen) :
    (pending p (c.name :: seen)).length + c.interfaces.length ≤ (pending p seen).length := by
  have split (seen : List String) : (pending p seen).length =
      (((c :: p.classes.erase c).filter fun d => d.name ∉ seen).flatMap (·.interfaces)).length :=
    (((perm_cons_erase here).filter _).flatMap_right _).length_eq
  have fewer := ((monotone_filter_right (p.classes.erase c) (p := fun d => decide (d.name ∉ c.name :: seen))
    (q := fun d => decide (d.name ∉ seen)) (fun d apart => by simp_all)).flatMap (·.interfaces)).length_le
  rw [split, split, filter_cons_of_neg (by simp), filter_cons_of_pos (by simpa using new), flatMap_cons,
    length_append]
  omega

theorem pending_all (inside : ∀ c ∈ up, c ∈ p.classes) (once : (up.map (·.name)).Nodup) :
    (pending p (up.map (·.name))).length + (up.flatMap (·.interfaces)).length ≤ (pending p []).length := by
  induction up with
  | nil => simp
  | cons c up ih =>
    obtain ⟨new, once⟩ := nodup_cons.mp once
    have rest := ih (fun d hd => inside d (mem_cons_of_mem _ hd)) once
    have first := pending_cons (inside c mem_cons_self) new
    rw [map_cons, flatMap_cons, length_append]
    omega

theorem queueBound_eq (p : Provider) : queueBound p = (pending p []).length + 1 := by
  have sum (l : List ClassInfo) (n : Nat) :
      l.foldl (fun n c => n + c.interfaces.length) n = n + (l.flatMap (·.interfaces)).length := by
    induction l generalizing n with
    | nil => rfl
    | cons c l ih => rw [foldl_cons, ih, flatMap_cons, length_append, Nat.add_assoc]
  rw [queueBound, sum, Nat.add_comm, pending, filter_eq_self.mpr (by simp)]

theorem exists_spreads (climbable : p.Climbable) (n : Nat) (seen queue : List String) (known : ∀ name ∈ queue, ∃ c, p.find? name = some c)
    (enough : queue.length + (pending p seen).length ≤ n) :
    ∃ found, Spreads p seen queue found ∧ reach p n seen queue = ⟨found, none⟩ := by
  induction n generalizing seen queue with
  | zero =>
    obtain rfl := eq_nil_of_length_eq_zero (by omega : queue.length = 0)
    exact ⟨[], .done, rfl⟩
  | succ n ih =>
    cases queue with
    | nil => exact ⟨[], .done, rfl⟩
    | cons name queue =>
      rw [length_cons] at enough
      have later : ∀ name ∈ queue, ∃ c, p.find? name = some c := fun other hn => known other (mem_cons_of_mem _ hn)
      by_cases old : name ∈ seen
      · obtain ⟨found, spreads, same⟩ := ih seen queue later (by omega)
        exact ⟨found, .skip old spreads, by simp [reach, old, same]⟩
      · obtain ⟨c, here⟩ := known name mem_cons_self
        obtain rfl := climbable.named name c here
        have less := pending_cons (Provider.mem_classes here) old
        obtain ⟨found, spreads, same⟩ := ih (c.name :: seen) (queue ++ c.interfaces)
          (fun other hn => (mem_append.mp hn).elim (later other) fun listed => climbable.interfaces _ _ ⟨c, here, listed⟩)
          (by rw [length_append]; omega)
        exact ⟨c :: found, .visit old here spreads, by simp [reach, old, here, same]⟩

namespace Spreads

variable (h : Spreads p seen queue found) (climbable : p.Climbable)

include h climbable

theorem nodup : (found.map (·.name)).Nodup ∧ ∀ d ∈ found, d.name ∉ seen := by
  induction h with
  | done => exact ⟨.nil, by simp⟩
  | skip _ _ ih => exact ih
  | visit new here _ ih =>
    obtain rfl := climbable.named _ _ here
    obtain ⟨once, fresh⟩ := ih
    refine ⟨nodup_cons.mpr ⟨fun again => ?_, once⟩, fun d hd => ?_⟩
    · obtain ⟨d, later, same⟩ := mem_map.mp again
      exact fresh d later (same ▸ mem_cons_self)
    · obtain rfl | later := mem_cons.mp hd
      · exact new
      · exact fun old => fresh d later (mem_cons_of_mem _ old)

theorem sound (member : d ∈ found) :
    p.find? d.name = some d ∧ ∃ start ∈ queue, ReflTransGen p.Lists start d.name := by
  induction h with
  | done => cases member
  | skip _ _ ih =>
    obtain ⟨here, start, waits, reach⟩ := ih member
    exact ⟨here, start, mem_cons_of_mem _ waits, reach⟩
  | @visit _ _ _ c _ _ here _ ih =>
    obtain rfl := climbable.named _ _ here
    obtain rfl | later := mem_cons.mp member
    · exact ⟨here, _, mem_cons_self, .refl⟩
    · obtain ⟨there, start, waits, reach⟩ := ih later
      obtain waits | listed := mem_append.mp waits
      · exact ⟨there, start, mem_cons_of_mem _ waits, reach⟩
      · exact ⟨there, c.name, mem_cons_self, .head ⟨c, here, listed⟩ reach⟩

/-- What is seen in the end holds the queue and is closed under lists of interfaces, if what was
seen before led there through the queue. -/
theorem complete
    (frontier : ∀ a ∈ seen, ∀ b, p.Lists a b → b ∈ seen ∨ b ∈ queue) (from_ : start ∈ seen ∨ start ∈ queue)
    (reach : ReflTransGen p.Lists start above) : above ∈ seen ∨ ∃ d ∈ found, d.name = above := by
  induction h generalizing start with
  | done =>
    refine .inl ?_
    induction reach with
    | refl => simpa using from_
    | tail _ listed ih => simpa using frontier _ ih _ listed
  | @skip seen queue name found old _ ih =>
    have kept {b : String} (h : b ∈ seen ∨ b ∈ name :: queue) : b ∈ seen ∨ b ∈ queue := by
      obtain here | waits := h
      · exact .inl here
      · obtain rfl | later := mem_cons.mp waits
        · exact .inl old
        · exact .inr later
    exact ih (fun a ha b listed => kept (frontier a ha b listed)) (kept from_) reach
  | @visit seen queue name c found new here _ ih =>
    obtain rfl := climbable.named _ _ here
    have moved {b : String} (h : b ∈ seen ∨ b ∈ c.name :: queue) : b ∈ c.name :: seen ∨ b ∈ queue ++ c.interfaces := by
      simp only [mem_cons, mem_append] at h ⊢
      tauto
    have rest := ih (fun a ha b listed => ?_) (moved from_) reach
    · obtain old | ⟨d, later, same⟩ := rest
      · obtain rfl | old := mem_cons.mp old
        · exact .inr ⟨c, mem_cons_self, rfl⟩
        · exact .inl old
      · exact .inr ⟨d, mem_cons_of_mem _ later, same⟩
    · obtain rfl | old := mem_cons.mp ha
      · obtain ⟨d, there, listed⟩ := listed
        cases here.symm.trans there
        exact .inr (mem_append_right _ listed)
      · exact moved (frontier a old b listed)

end Spreads

/-- What the walk visits: the classes above the owner in order, then every interface that one of
them lists, directly or through others, each once. -/
structure Visits (p : Provider) (owner : String) (up across : List ClassInfo) : Prop where
  ascends : Ascends p owner up
  spreads : Spreads p (up.map (·.name)) (up.flatMap (·.interfaces)) across
  once : ((up ++ across).map (·.name)).Nodup
  interface : ∀ d, d ∈ across ↔ p.find? d.name = some d ∧ d ∉ up ∧ ∃ b ∈ up, TransGen p.Lists b.name d.name

theorem visits_supertypes (climbable : p.Climbable) (here : p.find? owner = some c) :
    ∃ up across, Visits p owner up across ∧ supertypes p owner = ⟨up ++ across, none⟩ := by
  obtain ⟨up, ascends⟩ := exists_ascends climbable here
  have there : ∀ d ∈ up, p.find? d.name = some d := fun d hd => ((ascends.mem_iff climbable).mp hd).1
  have inside : ∀ d ∈ up, d ∈ p.classes := fun d hd => Provider.mem_classes (there d hd)
  have once := ascends.nodup climbable
  have short : up.length ≤ p.classes.length := (once.of_map _).length_le_of_subset inside
  obtain ⟨across, spreads, same⟩ := exists_spreads climbable (queueBound p) (up.map (·.name))
    (up.flatMap (·.interfaces)) (fun name listed => by
      obtain ⟨d, hd, listed⟩ := mem_flatMap.mp listed
      exact climbable.interfaces _ _ ⟨d, there d hd, listed⟩)
    (by rw [queueBound_eq]; have := pending_all inside once; omega)
  obtain ⟨onceMore, fresh⟩ := spreads.nodup climbable
  refine ⟨up, across, ⟨ascends, spreads, ?_, fun d => ⟨fun member => ?_, ?_⟩⟩, ?_⟩
  · rw [map_append]
    refine once.append onceMore fun name old new => ?_
    obtain ⟨d, hd, rfl⟩ := mem_map.mp new
    exact fresh d hd old
  · obtain ⟨found, start, listed, reach⟩ := spreads.sound climbable member
    obtain ⟨b, hb, listed⟩ := mem_flatMap.mp listed
    exact ⟨found, fun old => fresh d member (mem_map.mpr ⟨d, old, rfl⟩), b, hb, .head' ⟨b, there b hb, listed⟩ reach⟩
  · rintro ⟨found, new, b, hb, reach⟩
    have frontier : ∀ a ∈ up.map (·.name), ∀ i, p.Lists a i → i ∈ up.map (·.name) ∨ i ∈ up.flatMap (·.interfaces) := by
      rintro a old i ⟨e, same, listed⟩
      obtain ⟨d, hd, rfl⟩ := mem_map.mp old
      rw [Option.some.inj (same.symm.trans (there d hd))] at listed
      exact .inr (mem_flatMap.mpr ⟨d, hd, listed⟩)
    obtain old | ⟨e, he, same⟩ := spreads.complete climbable frontier (.inl (mem_map.mpr ⟨b, hb, rfl⟩)) reach.to_reflTransGen
    · obtain ⟨e, he, same⟩ := mem_map.mp old
      have found' := there e he
      rw [same] at found'
      cases found.symm.trans found'
      exact absurd he new
    · have found' := (spreads.sound climbable he).1
      rw [same] at found'
      cases found.symm.trans found'
      exact he
  · rw [supertypes, ascends.chain_eq (Nat.le_succ_of_le short)]
    simp [same]

end Hierarchy

namespace Provider

variable {p : Provider} {owner name sup : String} {c d : ClassInfo} {m : MethodInfo} {all ms : List MethodInfo}
  {across l up : List ClassInfo}

/-- A class above another on its superclass chain, or an interface that leads there through lists. -/
def Inherits (p : Provider) (sub sup : String) : Prop := ∃ b, ReflTransGen p.Super sub b ∧ ReflTransGen p.Lists b sup

theorem mem_visited (h : Visits p owner up across) (climbable : p.Climbable) :
    d ∈ up ++ across ↔ p.find? d.name = some d ∧ p.Inherits owner d.name := by
  rw [mem_append, h.interface, h.ascends.mem_iff climbable]
  constructor
  · rintro (⟨found, reach⟩ | ⟨found, -, b, member, reach⟩)
    · exact ⟨found, _, reach, .refl⟩
    · exact ⟨found, _, ((h.ascends.mem_iff climbable).mp member).2, reach.to_reflTransGen⟩
  · rintro ⟨found, b, up, across⟩
    obtain rfl | across := reflTransGen_iff_eq_or_transGen.mp across
    · exact .inl ⟨found, up⟩
    · refine or_iff_not_imp_left.mpr fun new => ⟨found, new, ?_⟩
      obtain ⟨-, ⟨e, there, -⟩, -⟩ := TransGen.head'_iff.mp across
      obtain rfl := climbable.named _ _ there
      exact ⟨e, (h.ascends.mem_iff climbable).mpr ⟨there, up⟩, across⟩

/-- The methods of a list that no other of the same descriptor comes before, in order. -/
structure Firsts (all ms : List MethodInfo) : Prop where
  order : ms.Sublist all
  once : (ms.map (·.descriptor)).Nodup
  first : ∀ m, m ∈ ms ↔ all.find? (·.descriptor = m.descriptor) = some m

theorem mem_firstOfEach : m ∈ firstOfEach seen all ↔
    m.descriptor ∉ seen ∧ all.find? (·.descriptor = m.descriptor) = some m := by
  fun_induction firstOfEach seen all with
  | case1 => simp
  | case2 seen n ms old ih =>
    rw [ih, find?_cons]
    by_cases same : n.descriptor = m.descriptor
    · simp_all
    · simp [same]
  | case3 seen n ms new ih =>
    rw [mem_cons, ih, find?_cons]
    by_cases same : n.descriptor = m.descriptor
    · simp_all [eq_comm]
    · have apart : m ≠ n := fun equal => same (equal ▸ rfl)
      simp [same, apart, Ne.symm same]

theorem firsts_firstOfEach (all : List MethodInfo) : Firsts all (firstOfEach [] all) := by
  have kept (seen : List String) : (firstOfEach seen all).Sublist all ∧ ((firstOfEach seen all).map (·.descriptor)).Nodup := by
    fun_induction firstOfEach seen all with
    | case1 => exact ⟨.slnil, .nil⟩
    | case2 seen n ms old ih => exact ⟨ih.1.cons n, ih.2⟩
    | case3 seen n ms new ih =>
      refine ⟨ih.1.cons_cons n, nodup_cons.mpr ⟨fun again => ?_, ih.2⟩⟩
      obtain ⟨m, member, same⟩ := mem_map.mp again
      exact (mem_firstOfEach.mp member).1 (same ▸ mem_cons_self)
  exact ⟨(kept []).1, (kept []).2, fun m => by simp [mem_firstOfEach]⟩

/-- Where every name leads to a class and no class is above itself, the walk from a class ends. It visits the class, its
superclasses in order and then the interfaces, each once; and subclasses, fields and methods are found in that order. -/
theorem supertypes_exact (climbable : p.Climbable) (here : p.find? owner = some c) :
    ∃ up across, Visits p owner up across ∧ supertypes p owner = ⟨up ++ across, none⟩ ∧
      (∀ sup, p.isSubclass owner sup = true ↔
        owner = sup ∨ sup = "java/lang/Object" ∨ sup ∈ (up ++ across).map (·.name)) ∧
      (∀ name f, p.findField owner name = .ok f ↔ ∃ before d after, up ++ across = before ++ d :: after ∧
        d.field? name = some f ∧ ∀ b ∈ before, b.field? name = none) ∧
      ∀ name, ∃ ms, Firsts ((if name = MethodInfo.constructorName then [c] else up ++ across).flatMap (·.methodsNamed name)) ms ∧
        p.findMethods owner name = if ms = [] then .error (.noMethod owner name) else .ok ms := by
  obtain ⟨up, across, visits, walk⟩ := visits_supertypes climbable here
  refine ⟨up, across, visits, walk, fun sup => ?_, fun name f => ?_, fun name => ⟨_, firsts_firstOfEach _, ?_⟩⟩
  · simp [isSubclass, walk, or_assoc]
  · rw [← findSome?_eq_some_iff, findField, walk]
    split
    · rename_i g first
      simp [first]
    · rename_i none
      simp [none]
  · obtain ⟨rest, rfl⟩ : ∃ rest, up = c :: rest := by
      cases visits.ascends with
      | top => exact absurd rfl (climbable.ne_empty here)
      | step _ there _ =>
        cases here.symm.trans there
        exact ⟨_, rfl⟩
    rw [findMethods, walk]
    split_ifs with constructor
    all_goals
      dsimp only [cons_append]
      split
      · rename_i none
        simp_all
      · rename_i some
        simp_all

def stack (l : List ClassInfo) : Provider := l.foldr (fun c p => .overlay (some c) (some p)) (.registry {})

theorem find?_stack (l : List ClassInfo) (name : String) : (stack l).find? name = l.find? (·.name = name) := by
  induction l with
  | nil => simp [stack, find?]
  | cons c l ih =>
    change (overlay (some c) (some (stack l))).find? name = _
    rw [find?, find?_cons, ih]
    by_cases same : c.name = name <;> simp [same]

theorem mem_of_find?_stack (found : (stack l).find? name = some c) : c ∈ l ∧ c.name = name := by
  rw [find?_stack] at found
  exact ⟨mem_of_find?_eq_some found, by simpa using find?_some found⟩

/-- Classes of different names can be climbed if each stands before its superclass and all names are
among them. -/
theorem climbable_stack (fits : ∀ c ∈ l, l.findIdx (·.name = c.name) < l.findIdx (·.name = c.super) ∧
    (c.super = "" ∨ ∃ d ∈ l, d.name = c.super) ∧ ∀ i ∈ c.interfaces, ∃ d ∈ l, d.name = i) : (stack l).Climbable := by
  have known {name : String} (there : ∃ d ∈ l, d.name = name) : ∃ c, (stack l).find? name = some c := by
    rw [← Option.isSome_iff_exists, find?_stack, find?_isSome]
    simpa using there
  refine ⟨fun _ _ found => (mem_of_find?_stack found).2, ?_, ?_, fun a cycle => ?_⟩
  · rintro a b ⟨c, found, rfl⟩ some
    exact known ((fits c (mem_of_find?_stack found).1).2.1.resolve_left some)
  · rintro a b ⟨c, found, listed⟩
    exact known ((fits c (mem_of_find?_stack found).1).2.2 b listed)
  · have rise : (stack l).Super ≤ Function.onFun (· < ·) fun name : String => l.findIdx (·.name = name) := by
      rintro a b ⟨c, found, rfl⟩
      obtain ⟨inside, rfl⟩ := mem_of_find?_stack found
      exact (fits c inside).1
    have rises := cycle.lift _ rise
    rw [transGen_eq_self] at rises
    exact lt_irrefl _ rises

def ring : List ClassInfo :=
  [⟨"demo/B", "demo/A", ["demo/J", "demo/I"], ⟨1⟩, #[], #[⟨"demo/B", "f", [], .int, ⟨1⟩⟩]⟩,
    ⟨"demo/A", "java/lang/Object", ["demo/I"], ⟨1⟩, #[⟨"demo/A", "x", .int, ⟨1⟩⟩],
      #[⟨"demo/A", "f", [], .int, ⟨1⟩⟩, ⟨"demo/A", "f", [.int], .int, ⟨1⟩⟩]⟩,
    ⟨"demo/I", "", ["demo/J"], ⟨0x601⟩, #[⟨"demo/I", "x", .long, ⟨9⟩⟩], #[]⟩,
    ⟨"demo/J", "java/lang/Object", ["demo/I"], ⟨0x601⟩, #[], #[]⟩,
    ⟨"java/lang/Object", "", [], ⟨1⟩, #[], #[]⟩]

theorem supertypes_exact_ring : ∃ up across, Visits (stack ring) "demo/B" up across ∧
    (up ++ across).map (·.name) = ["demo/B", "demo/A", "java/lang/Object", "demo/J", "demo/I"] := by
  obtain ⟨up, across, visits, walk, -⟩ := supertypes_exact (p := stack ring) (c := ring[0])
    (climbable_stack (by decide)) (show (stack ring).find? "demo/B" = some ring[0] by decide +kernel)
  exact ⟨up, across, visits, by rw [← show _ = up ++ across from congrArg Walk.visited walk]; decide +kernel⟩

end Provider

end ClassForge

import ClassForge.Assembler.Overload
import ClassForge.Proofs.Walks
import Mathlib.Data.List.Forall2

/-! A call takes the most specific of the methods it can mean, in whatever order: in a hierarchy
with one root and no cycle, types that pass for each other are one. -/

namespace ClassForge

open Relation List JType Base

def Provider.Extends (p : Provider) (a b : String) : Prop :=
  ∃ c, p.find? a = some c ∧ (b = c.super ∧ b ≠ "" ∨ b ∈ c.interfaces)

/-! What is met on the way up from a class is a supertype. -/

namespace Hierarchy

variable {p : Provider} {c : ClassInfo} {n : Nat} {name owner : String}

theorem chain_empty (n : Nat) : chain p n "" = ⟨[], none⟩ := by
  cases n <;> simp [chain]

theorem above_of_mem_chain (h : c ∈ (chain p n name).visited) :
    ∃ above, p.find? above = some c ∧ ReflTransGen p.Extends name above := by
  fun_induction chain p n name with
  | case1 | case2 | case3 => simp at h
  | case4 n name _ d found up ih =>
    rcases mem_cons.mp h with rfl | inner
    · exact ⟨name, found, .refl⟩
    · have super : d.super ≠ "" := by
        intro empty
        simp [up, empty, chain_empty] at inner
      obtain ⟨above, same, reach⟩ := ih inner
      exact ⟨above, same, .head ⟨d, found, .inl ⟨rfl, super⟩⟩ reach⟩

theorem above_of_mem_reach (h : c ∈ (reach p n seen queue).visited) :
    ∃ above, p.find? above = some c ∧ ∃ start ∈ queue, ReflTransGen p.Extends start above := by
  fun_induction reach p n seen queue with
  | case1 | case2 | case4 => simp at h
  | case3 n seen name queue _ ih =>
    obtain ⟨above, same, start, member, reach⟩ := ih h
    exact ⟨above, same, start, mem_cons_of_mem _ member, reach⟩
  | case5 n seen name queue _ d found more ih =>
    rcases mem_cons.mp h with rfl | inner
    · exact ⟨name, found, name, mem_cons_self, .refl⟩
    · obtain ⟨above, same, start, member, reach⟩ := ih inner
      rcases mem_append.mp member with later | direct
      · exact ⟨above, same, start, mem_cons_of_mem _ later, reach⟩
      · exact ⟨above, same, name, mem_cons_self, .head ⟨d, found, .inr direct⟩ reach⟩

theorem above_of_mem_supertypes (h : c ∈ (supertypes p owner).visited) :
    ∃ above, p.find? above = some c ∧ ReflTransGen p.Extends owner above := by
  unfold supertypes at h
  dsimp only at h
  split at h
  · exact above_of_mem_chain h
  · rcases mem_append.mp h with up | across
    · exact above_of_mem_chain up
    · obtain ⟨above, same, start, member, reach⟩ := above_of_mem_reach across
      obtain ⟨d, onWay, direct⟩ := mem_flatMap.mp member
      obtain ⟨name, found, up⟩ := above_of_mem_chain onWay
      exact ⟨above, same, (up.tail ⟨d, found, .inr direct⟩).trans reach⟩

end Hierarchy

/-- The class name is not reserved for types that have none. -/
def JType.Plain (t : JType) : Prop := t.base ≠ .named nullName ∧ t.base ≠ .named selfName

theorem JType.not_isReference {t : JType} (h : t.isPrimitive = true) : t.isReference = false := by
  unfold isPrimitive at h
  unfold isReference
  cases k : t.kind <;> simp_all [Kind.isPrimitive]

namespace Provider

/-- Every class but the root has supertypes that are there, and none is its own supertype. -/
structure Rooted (p : Provider) : Prop where
  named : ∀ name c, p.find? name = some c → c.name = name
  root : ∃ c, p.find? "java/lang/Object" = some c ∧ c.super = "" ∧ c.interfaces = []
  closed : ∀ a b, p.Extends a b → ∃ c, p.find? b = some c
  acyclic : ∀ a, ¬ TransGen p.Extends a a

/-- Every class has the name under which it is found, and nothing is above the root. -/
structure Based (p : Provider) : Prop where
  named : ∀ name c, p.find? name = some c → c.name = name
  root : ∀ c, p.find? "java/lang/Object" = some c → c.super = "" ∧ c.interfaces = []

variable {p : Provider} {a b : JType}

theorem Rooted.based (h : p.Rooted) : p.Based where
  named := h.named
  root c found := by
    obtain ⟨root, here, alone⟩ := h.root
    cases here.symm.trans found
    exact alone

theorem Based.top (h : p.Based) (name : String) : ¬ TransGen p.Extends "java/lang/Object" name := by
  intro up
  obtain ⟨next, ⟨c, found, super⟩, -⟩ := TransGen.head'_iff.mp up
  obtain ⟨noSuper, noInterfaces⟩ := h.root c found
  rcases super with ⟨rfl, some⟩ | some
  · exact some noSuper
  · rw [noInterfaces] at some
    exact absurd some not_mem_nil

theorem Based.above (h : p.Based) (is : p.isSubclass sub sup = true) (differ : sub ≠ sup) :
    sup = "java/lang/Object" ∨ TransGen p.Extends sub sup ∧ ∃ c, p.find? sup = some c := by
  simp only [isSubclass, Bool.or_eq_true, decide_eq_true_eq, any_eq_true] at is
  obtain (same | top) | ⟨c, member, rfl⟩ := is
  · exact absurd same differ
  · exact .inl top
  · obtain ⟨above, found, reach⟩ := Hierarchy.above_of_mem_supertypes member
    obtain rfl := h.named above c found
    exact .inr ⟨(reflTransGen_iff_eq_or_transGen.mp reach).resolve_left differ.symm, c, found⟩

theorem Rooted.isSubclass_antisymm (h : p.Rooted) (up : p.isSubclass sub sup = true)
    (down : p.isSubclass sup sub = true) : sub = sup := by
  by_contra differ
  obtain rfl | ⟨above, -⟩ := h.based.above up differ
  · obtain rfl | ⟨below, -⟩ := h.based.above down (Ne.symm differ)
    · exact differ rfl
    · exact h.based.top _ below
  · obtain rfl | ⟨below, -⟩ := h.based.above down (Ne.symm differ)
    · exact h.based.top _ above
    · exact h.acyclic _ (above.trans below)

theorem dims_elem (array : a.isArray = true) : a.dims.toNat = a.elem.dims.toNat + 1 := by
  have some : a.dims ≠ 0 := by simpa [JType.isArray] using array
  have pos : 1 ≤ a.dims.toNat := Nat.one_le_iff_ne_zero.mpr fun zero => some (UInt8.toNat_inj.mp zero)
  rw [JType.elem, if_neg some, UInt8.toNat_sub_of_le _ _ (UInt8.le_iff_toNat_le.mpr (by simpa using pos))]
  exact (Nat.sub_add_cancel pos).symm

theorem isAssignable_primitive (prim : a.isPrimitive = true ∨ b.isPrimitive = true) : p.isAssignable a b = decide (a = b) := by
  unfold isAssignable assignableWithin
  by_cases same : a = b
  · simp [same]
  · obtain h | h := prim <;> simp [same, not_isReference h]

theorem isAssignable_iff : p.isAssignable a b = true ↔ a = b ∨ a.isReference = true ∧ b.isReference = true ∧
    (a.isNull = true ∨ b = .object ∨ a.isArray = true ∧ b.isArray = true ∧ p.isAssignable a.elem b.elem = true ∨
      a.isArray = true ∧ b.isArray = false ∧ b.internalName ∈ ["java/lang/Cloneable", "java/io/Serializable"] ∨
      a.isArray = false ∧ b.isArray = false ∧ p.isSubclass a.internalName b.internalName = true) := by
  rw [isAssignable, assignableWithin.eq_def]
  dsimp only
  by_cases arrayA : a.isArray = true
  · rw [dims_elem arrayA]
    have elements : (if (a.elem.isPrimitive || b.elem.isPrimitive) = true then decide (a.elem = b.elem)
        else p.assignableWithin a.elem.dims.toNat a.elem b.elem) = p.isAssignable a.elem b.elem := by
      split_ifs with prim
      · exact (isAssignable_primitive ((Bool.or_eq_true ..).mp prim)).symm
      · rfl
    rw [elements]
    by_cases arrayB : b.isArray = true <;> simp [arrayA, arrayB, or_assoc, and_assoc]
  · by_cases arrayB : b.isArray = true <;> simp [arrayA, arrayB, or_assoc, and_assoc]

theorem eq_of_internalName (plainA : a.Plain) (plainB : b.Plain) (refA : a.isReference = true) (refB : b.isReference = true)
    (noneA : a.isArray = false) (noneB : b.isArray = false) (same : a.internalName = b.internalName) : a = b := by
  obtain ⟨baseA, dimsA⟩ := a
  obtain ⟨baseB, dimsB⟩ := b
  simp only [isArray, bne_eq_false_iff_eq] at noneA noneB
  subst noneA noneB
  simp only [internalName, isArray, bne_self_eq_false, Bool.false_eq_true, if_false] at same
  simp only [isReference, kind, if_true] at refA refB
  cases baseA <;> cases baseB <;> simp_all [Plain, className, nullName, selfName]

theorem Based.eq_of_null (h : p.Based) (free : p.find? nullName = none) (plain : a.Plain) (null : b.isNull = true)
    (passes : p.isAssignable a b = true) : a = b := by
  by_contra differ
  obtain rfl : b = .null := by
    obtain ⟨base, dims⟩ := b
    simpa [JType.isNull, JType.null] using null
  obtain ⟨refA, -, nullA | object | ⟨-, array, -⟩ | ⟨-, -, name⟩ | ⟨noArray, -, sub⟩⟩ :=
    (isAssignable_iff.mp passes).resolve_left differ
  · obtain ⟨base, dims⟩ := a
    exact differ (by simpa [JType.isNull, JType.null] using nullA)
  · revert object; decide
  · revert array; decide
  · revert name; decide
  · obtain top | ⟨-, c, found⟩ := h.above sub fun same => differ (eq_of_internalName plain ⟨by decide, by decide⟩ refA rfl noArray rfl same)
    · revert top; decide
    · rw [show JType.null.internalName = nullName from rfl, free] at found
      cases found

theorem Based.eq_of_object (h : p.Based) (plain : b.Plain) (passes : p.isAssignable .object b = true) :
    b = .object := by
  by_contra differ
  obtain ⟨-, refB, null | object | ⟨array, -⟩ | ⟨array, -⟩ | ⟨-, noArray, sub⟩⟩ :=
    (isAssignable_iff.mp passes).resolve_left (Ne.symm differ)
  · revert null; decide
  · exact differ object
  · revert array; decide
  · revert array; decide
  · have named : b.internalName ≠ object.internalName := fun same =>
      differ (eq_of_internalName plain ⟨by decide, by decide⟩ refB rfl noArray rfl same)
    obtain top | ⟨up, -⟩ := h.above sub named.symm
    · exact named top
    · exact h.top _ up

theorem eq_of_elem (arrayA : a.isArray = true) (arrayB : b.isArray = true) (same : a.elem = b.elem) : a = b := by
  simp only [JType.isArray, bne_iff_ne] at arrayA arrayB
  simp only [JType.elem, arrayA, arrayB, if_false, JType.mk.injEq, UInt8.sub_left_inj] at same
  exact congrArg₂ JType.mk same.1 same.2

theorem elem_plain (plain : a.Plain) : a.elem.Plain := by
  unfold JType.elem
  split
  · exact plain
  · exact plain

theorem Rooted.assignable_antisymm (h : p.Rooted) (free : p.find? nullName = none) (plainA : a.Plain)
    (plainB : b.Plain) (up : p.isAssignable a b = true) (down : p.isAssignable b a = true) : a = b := by
  induction n : a.dims.toNat using Nat.strongRecOn generalizing a b with
  | ind n ih =>
    by_contra differ
    have noNullA : a.isNull ≠ true := fun null => differ (h.based.eq_of_null free plainB null down).symm
    have noNullB : b.isNull ≠ true := fun null => differ (h.based.eq_of_null free plainA null up)
    have noObjectA : a ≠ .object := by
      rintro rfl
      exact differ (h.based.eq_of_object plainB up).symm
    have noObjectB : b ≠ .object := by
      rintro rfl
      exact differ (h.based.eq_of_object plainA down)
    obtain ⟨refA, refB, above⟩ := (isAssignable_iff.mp up).resolve_left differ
    obtain ⟨-, -, below⟩ := (isAssignable_iff.mp down).resolve_left (Ne.symm differ)
    simp only [noNullA, noNullB, noObjectA, noObjectB, Bool.false_eq_true, false_or] at above below
    obtain ⟨arrayA, arrayB, inner⟩ | ⟨arrayA, noneB, -⟩ | ⟨noneA, noneB, sub⟩ := above
    · simp only [arrayA, arrayB, true_and, Bool.true_eq_false, false_and, or_false] at below
      have less := dims_elem arrayA
      exact differ (eq_of_elem arrayA arrayB (ih _ (by omega) (elem_plain plainA) (elem_plain plainB) inner below rfl))
    · simp [arrayA, noneB] at below
    · simp only [noneA, noneB, true_and, Bool.false_eq_true, false_and, false_or] at below
      exact differ (eq_of_internalName plainA plainB refA refB noneA noneB (h.isSubclass_antisymm sub below))

end Provider

namespace Provider

theorem find?_overlay (c : ClassInfo) (base : Option Provider) (name : String) :
    (overlay (some c) base).find? name = if c.name = name then some c else base.bind (·.find? name) := by
  cases base <;> rw [find?] <;> rfl

theorem declared_of_findMethods {p : Provider} (found : p.findMethods owner name = .ok ms) (member : m ∈ ms) :
    ∃ above c, p.find? above = some c ∧ m ∈ c.methods ∧ m.name = name := by
  have declared : ∀ visited : List ClassInfo, (∀ c ∈ visited, c ∈ (Hierarchy.supertypes p owner).visited) →
      m ∈ firstOfEach [] (visited.flatMap (·.methodsNamed name)) → ∃ above c, p.find? above = some c ∧ m ∈ c.methods ∧ m.name = name := by
    intro visited sub hm
    obtain ⟨c, hc, named⟩ := mem_flatMap.mp ((firsts_firstOfEach _).order.subset hm)
    obtain ⟨above, class_, -⟩ := Hierarchy.above_of_mem_supertypes (sub c hc)
    obtain ⟨inside, same⟩ := mem_filter.mp named
    exact ⟨above, c, class_, Array.mem_toList_iff.mp inside, beq_iff_eq.mp same⟩
  unfold findMethods at found
  dsimp only at found
  split at found
  · cases found
  · split at found
    · cases found
    · cases found
      refine declared _ (fun c hc => ?_) member
      split_ifs at hc
      · split at hc
        · rename_i visited
          rw [visited]
          exact mem_cons.mpr (.inl (mem_singleton.mp hc))
        · simp at hc
      · exact hc

end Provider

namespace Assembler

variable {p : Provider} {s t : JType}

theorem of_argConvertible (passes : argConvertible p false s t = true) (differ : s ≠ t) :
    (s.isPrimitive && t.isPrimitive) = true ∧ widens s.kind t.kind = true ∨
    (s.isPrimitive && t.isPrimitive) = false ∧ p.isAssignable s t = true := by
  rw [argConvertible, if_neg differ, Bool.not_false, if_pos rfl] at passes
  split_ifs at passes with void primitives references
  · exact .inl ⟨primitives, passes⟩
  · exact .inr ⟨Bool.eq_false_iff.mpr primitives, passes⟩

theorem argConvertible_antisymm (h : p.Rooted) (free : p.find? nullName = none) (plainS : s.Plain) (plainT : t.Plain)
    (up : argConvertible p false s t = true) (down : argConvertible p false t s = true) : s = t := by
  by_contra differ
  obtain ⟨both, wider⟩ | ⟨notBoth, above⟩ := of_argConvertible up differ <;>
    obtain ⟨both', narrower⟩ | ⟨notBoth', below⟩ := of_argConvertible down (Ne.symm differ)
  · simp only [widens, Bool.and_eq_true, decide_eq_true_eq] at wider narrower
    exact absurd wider.2 (Nat.lt_asymm narrower.2)
  · rw [Bool.and_comm, both] at notBoth'
    cases notBoth'
  · rw [Bool.and_comm, both'] at notBoth
    cases notBoth
  · exact differ (h.assignable_antisymm free plainS plainT above below)

namespace Overload

variable {c : Context} {owner name : String} {isStatic : Bool} {args : List JType} {ms : List MethodInfo}
  {m n : MethodInfo} {boxing : Bool} {e : Fault} {all all' : List MethodInfo} {middle : String}

/-- The parameters of the first convert to those of the second, one by one and without boxing. -/
def Below (p : Provider) (m n : MethodInfo) : Prop :=
  List.Forall₂ (fun s t => argConvertible p false s t = true) m.params n.params

theorem moreSpecific_iff (same : m.params.length = n.params.length) : moreSpecific p m n = true ↔ Below p m n := by
  simp [moreSpecific, Below, forall₂_iff_zip, same]

theorem moreSpecific_self (p : Provider) (m : MethodInfo) : moreSpecific p m m = true := by
  rw [moreSpecific_iff rfl, Below, forall₂_same]
  simp [argConvertible]

theorem params_eq_of_below (h : p.Rooted) (free : p.find? nullName = none) (plainM : ∀ t ∈ m.params, t.Plain)
    (plainN : ∀ t ∈ n.params, t.Plain) (up : Below p m n) (down : Below p n m) : m.params = n.params := by
  unfold Below at up down
  generalize m.params = l at *
  generalize n.params = l' at *
  induction up with
  | nil => rfl
  | cons first _ ih =>
    simp only [forall_mem_cons, forall₂_cons] at plainM plainN down
    rw [argConvertible_antisymm h free plainM.1 plainN.1 first down.1, ih plainM.2 plainN.2 down.2]

theorem mostSpecific_eq (p : Provider) (ms : List MethodInfo) :
    mostSpecific p ms = ms.find? fun a => ms.all (moreSpecific p a) := by
  have alone : ∀ x ∈ ms.zipIdx, (ms.zipIdx.all fun y => x.2 == y.2 || moreSpecific p x.1 y.1) = ms.all (moreSpecific p x.1) := by
    intro x here
    rw [Bool.eq_iff_iff, all_eq_true, all_eq_true]
    refine ⟨fun each n member => ?_, fun each y there => ?_⟩
    · obtain ⟨i, inside, rfl⟩ := mem_iff_getElem.mp member
      have there := each (ms[i], i) (mk_mem_zipIdx_iff_getElem?.mpr (getElem?_eq_getElem inside))
      obtain same | below := (Bool.or_eq_true ..).mp there
      · have here := mem_zipIdx_iff_getElem?.mp here
        rw [beq_iff_eq.mp same, getElem?_eq_getElem inside, Option.some.injEq] at here
        rw [here]
        exact moreSpecific_self p x.1
      · exact below
    · rw [each y.1 (fst_mem_of_mem_zipIdx there), Bool.or_true]
  calc mostSpecific p ms
    _ = (ms.zipIdx.find? ((fun a => ms.all (moreSpecific p a)) ∘ Prod.fst)).map Prod.fst := congrArg (Option.map Prod.fst) (find?_congr alone)
    _ = (ms.zipIdx.map Prod.fst).find? fun a => ms.all (moreSpecific p a) := find?_map.symm
    _ = _ := by rw [zipIdx_map_fst]

/-- What can come of a choice: nothing applies, or one candidate is below all, or none is. -/
theorem choose_cases (p : Provider) (owner name : String) (ms : List MethodInfo) :
    ms = [] ∧ choose p owner name ms = none ∨
    (∃ m ∈ ms, (∀ n ∈ ms, moreSpecific p m n = true) ∧ choose p owner name ms = some (.ok m)) ∨
    (ms ≠ [] ∧ (∀ m ∈ ms, ∃ n ∈ ms, moreSpecific p m n ≠ true) ∧
      ∃ e, e.code? = some .ambiguousCall ∧ choose p owner name ms = some (.error e)) := by
  match ms with
  | [] => exact .inl ⟨rfl, rfl⟩
  | [m] => exact .inr (.inl ⟨m, mem_singleton_self m, by simp [moreSpecific_self], rfl⟩)
  | a :: b :: rest =>
    cases best : mostSpecific p (a :: b :: rest) with
    | some m =>
      have found := best
      rw [mostSpecific_eq] at found
      have below := find?_some found
      exact .inr (.inl ⟨m, mem_of_find?_eq_some found, all_eq_true.mp below, by simp [choose, best]⟩)
    | none =>
      refine .inr (.inr ⟨cons_ne_nil _ _, fun m member => ?_, .ambiguous owner name a.signature b.signature, rfl, by simp [choose, best]⟩)
      rw [mostSpecific_eq] at best
      simpa only [all_eq_true, not_forall, exists_prop] using find?_eq_none.mp best m member

/-- Both pick a method of the same parameters, or fail with the same code. -/
def Alike : Except Fault MethodInfo → Except Fault MethodInfo → Prop
  | .ok m, .ok n => m.params = n.params
  | .error e, .error f => e.code? = f.code?
  | _, _ => False

theorem choose_perm (h : p.Rooted) (free : p.find? nullName = none)
    (arity : ∀ m ∈ ms, m.params.length = k) (plain : ∀ m ∈ ms, ∀ t ∈ m.params, t.Plain) (perm : ms.Perm ms') :
    Option.Rel Alike (choose p owner name ms) (choose p owner name ms') := by
  obtain ⟨rfl, none⟩ | ⟨m, member, best, some⟩ | ⟨nonempty, unbeaten, e, code, some⟩ := choose_cases p owner name ms
  · obtain rfl := perm.nil_eq
    exact .none
  · obtain ⟨rfl, -⟩ | ⟨n, member', best', some'⟩ | ⟨-, unbeaten, -⟩ := choose_cases p owner name ms'
    · exact absurd (perm.mem_iff.mp member) not_mem_nil
    · rw [some, some']
      have inside := perm.mem_iff.mpr member'
      have same : m.params.length = n.params.length := (arity m member).trans (arity n inside).symm
      exact .some (params_eq_of_below h free (plain m member) (plain n inside)
        ((moreSpecific_iff same).mp (best n inside))
        ((moreSpecific_iff same.symm).mp (best' m (perm.mem_iff.mp member))))
    · obtain ⟨n, inside, beaten⟩ := unbeaten m (perm.mem_iff.mp member)
      exact absurd (best n (perm.mem_iff.mpr inside)) beaten
  · obtain ⟨rfl, -⟩ | ⟨n, member', best', -⟩ | ⟨-, -, f, code', some'⟩ := choose_cases p owner name ms'
    · exact absurd perm.eq_nil nonempty
    · obtain ⟨m, inside, beaten⟩ := unbeaten n (perm.mem_iff.mpr member')
      exact absurd (best' m (perm.mem_iff.mp inside)) beaten
    · rw [some, some']
      exact .some (code.trans code'.symm)

theorem of_among (h : among ms e go = .ok m) : go ms = .ok m := by
  unfold among at h
  split at h
  · cases h
  · exact h

theorem among_perm (perm : ms.Perm ms') (inner : Alike (go ms) (go ms')) :
    Alike (among ms e go) (among ms' e go) := by
  unfold among
  rw [perm.isEmpty_eq]
  split
  · rfl
  · exact inner

/-- The methods that a call can mean: of its arity, static or not as asked, and seen. -/
def candidates (c : Context) (isStatic : Bool) (args : List JType) (all : List MethodInfo) : List MethodInfo :=
  ((all.filter (·.params.length == args.length)).filter (·.isStatic == isStatic)).filter fun m => c.sees m.owner m.access

theorem mem_candidates : m ∈ candidates c isStatic args all ↔
    m ∈ all ∧ m.params.length = args.length ∧ m.isStatic = isStatic ∧ c.sees m.owner m.access = true := by
  simp only [candidates, mem_filter, beq_iff_eq, and_assoc]

theorem of_chosen (arity : ∀ m ∈ ms, m.params.length = k) (won : chosen p owner name boxing args ms = some (.ok m)) :
    m ∈ ms ∧ applicable p boxing args m = true ∧ ∀ n ∈ ms, applicable p boxing args n = true → Below p m n := by
  obtain ⟨-, none⟩ | ⟨k, member, below, some⟩ | ⟨-, -, e, -, some⟩ := choose_cases p owner name
    (ms.filter (applicable p boxing args))
  · cases won.symm.trans none
  · cases won.symm.trans some
    obtain ⟨inside, applies⟩ := mem_filter.mp member
    refine ⟨inside, applies, fun n there also => ?_⟩
    exact (moreSpecific_iff ((arity m inside).trans (arity n there).symm)).mp (below n (mem_filter.mpr ⟨there, also⟩))
  · cases won.symm.trans some

theorem of_chosen_none (none : chosen p owner name boxing args ms = none) :
    ∀ n ∈ ms, applicable p boxing args n = false := by
  obtain ⟨empty, -⟩ | ⟨_, -, -, some⟩ | ⟨-, -, _, -, some⟩ := choose_cases p owner name (ms.filter (applicable p boxing args))
  · simpa using empty
  · cases none.symm.trans some
  · cases none.symm.trans some

/-- One of the methods that applies, without boxing if any of them does, and is below all that apply so. -/
def Best (p : Provider) (args : List JType) (ms : List MethodInfo) (m : MethodInfo) : Prop :=
  m ∈ ms ∧ ∃ boxing, (boxing = true ↔ ∀ n ∈ ms, applicable p false args n = false) ∧ applicable p boxing args m = true ∧
    ∀ n ∈ ms, applicable p boxing args n = true → Below p m n

theorem of_select (h : select c owner name isStatic args all = .ok m) :
    Best c.lookup args (candidates c isStatic args all) m := by
  have last := of_among (of_among (of_among h))
  have arity : ∀ n ∈ candidates c isStatic args all, n.params.length = args.length := fun n inside =>
    (mem_candidates.mp inside).2.1
  change ((chosen c.lookup owner name false args (candidates c isStatic args all)).orElse fun _ =>
    chosen c.lookup owner name true args (candidates c isStatic args all)).getD _ = _ at last
  cases strict : chosen c.lookup owner name false args (candidates c isStatic args all) with
  | some r =>
    obtain rfl : r = .ok m := by simpa [strict] using last
    obtain ⟨inside, applies, below⟩ := of_chosen arity strict
    exact ⟨inside, false, by simpa using ⟨m, inside, applies⟩, applies, below⟩
  | none =>
    rw [strict, Option.orElse_none] at last
    cases loose : chosen c.lookup owner name true args (candidates c isStatic args all) with
    | some r =>
      obtain rfl : r = .ok m := by simpa [loose] using last
      obtain ⟨inside, applies, below⟩ := of_chosen arity loose
      exact ⟨inside, true, by simpa using of_chosen_none strict, applies, below⟩
    | none => simp [loose] at last

theorem alike_orElse (first : Option.Rel Alike a a') (second : Option.Rel Alike b b') :
    Alike ((a.orElse fun _ => b).getD (.error e)) ((a'.orElse fun _ => b').getD (.error e)) := by
  cases first with
  | some same => exact same
  | none =>
    cases second with
    | some same => exact same
    | none => rfl

theorem select_perm (h : c.lookup.Rooted) (free : c.lookup.find? nullName = none)
    (plain : ∀ m ∈ all, ∀ t ∈ m.params, t.Plain) (perm : all.Perm all') :
    Alike (select c owner name isStatic args all) (select c owner name isStatic args all') := by
  have phase (boxing : Bool) : Option.Rel Alike (chosen c.lookup owner name boxing args (candidates c isStatic args all))
      (chosen c.lookup owner name boxing args (candidates c isStatic args all')) := by
    refine choose_perm (k := args.length) h free (fun m inside => ?_) (fun m inside => ?_)
      ((((perm.filter _).filter _).filter _).filter _)
    · exact (mem_candidates.mp (mem_of_mem_filter inside)).2.1
    · exact plain m (mem_candidates.mp (mem_of_mem_filter inside)).1
  exact among_perm (perm.filter _) (among_perm ((perm.filter _).filter _) (among_perm (((perm.filter _).filter _).filter _)
    (alike_orElse (phase false) (phase true))))

theorem among_of_mem (inside : m ∈ ms) : among ms e go = go ms := by
  rw [among, if_neg (by simpa using ne_nil_of_mem inside)]

theorem chosen_of_below (inside : m ∈ ms) (applies : applicable p boxing args m = true)
    (below : ∀ n ∈ ms, applicable p boxing args n = true → moreSpecific p m n = true) :
    ∃ k, chosen p owner name boxing args ms = some (.ok k) := by
  have member := mem_filter.mpr ⟨inside, applies⟩
  obtain ⟨empty, -⟩ | ⟨k, -, -, some⟩ | ⟨-, beaten, -⟩ := choose_cases p owner name (ms.filter (applicable p boxing args))
  · exact absurd empty (ne_nil_of_mem member)
  · exact ⟨k, some⟩
  · obtain ⟨n, there, not⟩ := beaten m member
    obtain ⟨there, also⟩ := mem_filter.mp there
    exact absurd (below n there also) not

theorem select_of_best (h : c.lookup.Rooted) (free : c.lookup.find? nullName = none)
    (plain : ∀ m ∈ all, ∀ t ∈ m.params, t.Plain) (best : Best c.lookup args (candidates c isStatic args all) m) :
    ∃ n, select c owner name isStatic args all = .ok n ∧ n.params = m.params := by
  obtain ⟨inside, boxing, phase, applies, below⟩ := best
  have arity : ∀ n ∈ candidates c isStatic args all, m.params.length = n.params.length := fun n there =>
    (mem_candidates.mp inside).2.1.trans (mem_candidates.mp there).2.1.symm
  obtain ⟨k, won⟩ : ∃ k, chosen c.lookup owner name boxing args (candidates c isStatic args all) = some (.ok k) :=
    chosen_of_below inside applies fun n there also => (moreSpecific_iff (arity n there)).mpr (below n there also)
  have selected : select c owner name isStatic args all = .ok k := by
    have kind := mem_of_mem_filter inside
    rw [select, among_of_mem (mem_of_mem_filter kind), among_of_mem kind]
    refine (among_of_mem inside).trans ?_
    cases boxing with
    | false => rw [won, Option.orElse_some, Option.getD_some]
    | true =>
      have none : (candidates c isStatic args all).filter (applicable c.lookup false args) = [] :=
        filter_eq_nil_iff.mpr fun n there => by simp [phase.mp rfl n there]
      rw [won, chosen, none]
      rfl
  obtain ⟨there, boxing', phase', applies', below'⟩ := of_select selected
  obtain rfl : boxing = boxing' := Bool.eq_iff_iff.mpr (phase.trans phase'.symm)
  exact ⟨k, selected, params_eq_of_below h free (plain k (mem_candidates.mp there).1) (plain m (mem_candidates.mp inside).1)
    (below' m inside applies) (below k there applies')⟩

theorem select_of_resolve (h : resolve c owner name isStatic args = .ok m) :
    ∃ all, c.lookup.findMethods owner name = .ok all ∧ select c owner name isStatic args all = .ok m := by
  unfold resolve at h
  split at h
  · cases h
  · exact ⟨_, ‹_›, h⟩

/-- In a rooted hierarchy, a call resolves to the best of the methods it can mean, if there is one,
in whatever order. A class of the reserved name is left out: it would pass for its own subclasses. -/
theorem resolve_most_specific (h : c.lookup.Rooted) (free : c.lookup.find? nullName = none)
    (plain : ∀ above d, c.lookup.find? above = some d → ∀ m ∈ d.methods, ∀ t ∈ m.params, t.Plain)
    (owner name : String) (isStatic : Bool) (args : List JType) :
    (∀ m, resolve c owner name isStatic args = .ok m → ∃ all, c.lookup.findMethods owner name = .ok all ∧
      Best c.lookup args (candidates c isStatic args all) m) ∧
    (∀ all m, c.lookup.findMethods owner name = .ok all → Best c.lookup args (candidates c isStatic args all) m →
      ∃ n, resolve c owner name isStatic args = .ok n ∧ n.params = m.params) ∧
    ∀ all all', c.lookup.findMethods owner name = .ok all → all.Perm all' →
      resolve c owner name isStatic args = select c owner name isStatic args all ∧
      Alike (select c owner name isStatic args all) (select c owner name isStatic args all') := by
  have plain {all : List MethodInfo} (found : c.lookup.findMethods owner name = .ok all) :
      ∀ m ∈ all, ∀ t ∈ m.params, t.Plain := by
    intro m member
    obtain ⟨above, d, declared, inside, -⟩ := Provider.declared_of_findMethods found member
    exact plain above d declared m inside
  refine ⟨fun m chosen => ?_, fun all m found best => ?_, fun all all' found perm => ?_⟩
  · obtain ⟨all, found, selected⟩ := select_of_resolve chosen
    exact ⟨all, found, of_select selected⟩
  · rw [resolve, found]
    exact select_of_best h free (plain found) best
  · exact ⟨by rw [resolve, found], select_perm h free (plain found) perm⟩

def taking (type : String) : MethodInfo := ⟨"demo/T", "f", [.ofClass type], .void, ⟨9⟩⟩

/-- A class with an overload for `demo/B` and one for the class between that and the root. -/
def family (middle : String) : Context where
  info := ⟨"demo/T", "java/lang/Object", [], ⟨1⟩, #[], #[taking middle, taking "demo/B"]⟩
  provider := .overlay (some ⟨"demo/B", middle, [], ⟨1⟩, #[], #[]⟩) <| some <|
    .overlay (some ⟨middle, "java/lang/Object", [], ⟨1⟩, #[], #[]⟩) <| some <|
    .overlay (some ⟨"java/lang/Object", "", [], ⟨1⟩, #[], #[]⟩) none
  options := {}
  fields := #[]

theorem family_find? (found : (family middle).lookup.find? name = some d) :
    d.name = name ∧ d.interfaces = [] ∧ (name = "demo/T" ∧ d = (family middle).info ∨
      d.methods = #[] ∧ (name = "demo/B" ∧ d.super = middle ∨ name = middle ∧ d.super = "java/lang/Object" ∨ d.super = "")) := by
  simp only [family, Context.lookup, Provider.find?_overlay, Option.bind_some, Option.bind_none] at found
  split_ifs at found with t b m o
  all_goals cases found
  · exact ⟨t, rfl, .inl ⟨t.symm, rfl⟩⟩
  · exact ⟨b, rfl, .inr ⟨rfl, .inl ⟨b.symm, rfl⟩⟩⟩
  · exact ⟨m, rfl, .inr ⟨rfl, .inr (.inl ⟨m.symm, rfl⟩)⟩⟩
  · exact ⟨o, rfl, .inr ⟨rfl, .inr (.inr rfl)⟩⟩

theorem family_extends (up : (family middle).lookup.Extends a b) :
    a = "demo/T" ∧ b = "java/lang/Object" ∨ a = "demo/B" ∧ b = middle ∨ a = middle ∧ b = "java/lang/Object" := by
  obtain ⟨d, found, direct⟩ := up
  obtain ⟨-, alone, kind⟩ := family_find? found
  rw [alone] at direct
  obtain ⟨rfl, some⟩ := direct.resolve_right not_mem_nil
  obtain ⟨t, rfl⟩ | ⟨-, b | m | root⟩ := kind
  · exact .inl ⟨t, rfl⟩
  · exact .inr (.inl b)
  · exact .inr (.inr m)
  · exact absurd root some

theorem family_rooted (apart : middle ∉ ["java/lang/Object", "demo/B", "demo/T"]) : (family middle).lookup.Rooted := by
  simp only [mem_cons, not_mem_nil, or_false, not_or] at apart
  obtain ⟨object, b, t⟩ := apart
  have root : (family middle).lookup.find? "java/lang/Object" = some ⟨"java/lang/Object", "", [], ⟨1⟩, #[], #[]⟩ := by
    simp [family, Context.lookup, Provider.find?_overlay, object]
  refine ⟨fun name d found => (family_find? found).1, ⟨_, root, rfl, rfl⟩, fun _ above up => ?_, fun a cycle => ?_⟩
  · obtain ⟨-, rfl⟩ | ⟨-, rfl⟩ | ⟨-, rfl⟩ := family_extends up
    · exact ⟨_, root⟩
    · simp [family, Context.lookup, Provider.find?_overlay, Ne.symm b, Ne.symm t]
    · exact ⟨_, root⟩
  · let depth (name : String) : Nat := if name = "java/lang/Object" then 0 else if name = middle then 1 else 2
    have lower : (family middle).lookup.Extends ≤ Function.onFun (fun x y : Nat => y < x) depth := fun _ _ up => by
      obtain ⟨rfl, rfl⟩ | ⟨rfl, rfl⟩ | ⟨rfl, rfl⟩ := family_extends up <;>
        simp [Function.onFun, depth, object, Ne.symm b, Ne.symm t]
    have falls := cycle.lift depth lower
    rw [transGen_eq_self] at falls
    exact lt_irrefl (depth a) falls

theorem resolve_most_specific_of_family :
    (resolve (family "demo/A") "demo/T" "f" true [.ofClass "demo/B"]).toOption = some (taking "demo/B") ∧
    Alike (select (family "demo/A") "demo/T" "f" true [.ofClass "demo/B"] [taking "demo/A", taking "demo/B"])
      (select (family "demo/A") "demo/T" "f" true [.ofClass "demo/B"] [taking "demo/B", taking "demo/A"]) := by
  have plain : ∀ above d, (family "demo/A").lookup.find? above = some d → ∀ m ∈ d.methods, ∀ t ∈ m.params, t.Plain := by
    intro above d found
    obtain ⟨-, -, ⟨-, rfl⟩ | ⟨none, -⟩⟩ := family_find? found
    · simp only [family, mem_toArray, forall_mem_cons, taking, Plain]
      decide
    · simp [none]
  have found : (family "demo/A").lookup.findMethods "demo/T" "f" = .ok [taking "demo/A", taking "demo/B"] := by rfl
  exact ⟨by decide +kernel, ((resolve_most_specific (family_rooted (by decide)) (by decide +kernel) plain "demo/T" "f" true
    [.ofClass "demo/B"]).2.2 _ _ found (.swap ..)).2⟩

/-- Below a class of the reserved name the order decides: it passes for its subclass as well. -/
theorem select_of_null_name :
    (family nullName).lookup.Rooted ∧
    ((family nullName).lookup.findMethods "demo/T" "f").toOption = some [taking nullName, taking "demo/B"] ∧
    (select (family nullName) "demo/T" "f" true [.ofClass "demo/B"] [taking nullName, taking "demo/B"]).toOption =
      some (taking nullName) ∧
    (select (family nullName) "demo/T" "f" true [.ofClass "demo/B"] [taking "demo/B", taking nullName]).toOption =
      some (taking "demo/B") :=
  ⟨family_rooted (by decide), by decide +kernel⟩

end Overload

end Assembler

end ClassForge

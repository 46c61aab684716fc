import ClassForge.Proofs.Overloads

/-! Assignability orders the types: each passes for itself, and for all that what it passes for
does. -/

namespace ClassForge

open Relation

namespace Provider

/-- A hierarchy that can be climbed, with a root; interfaces have no superclass but the root, and
those of arrays extend nothing. -/
structure Orderly (p : Provider) : Prop extends p.Climbable, p.Based where
  flat : ∀ a b c, p.Lists a b → p.find? b = some c → c.super = "" ∨ c.super = "java/lang/Object"
  arrays : ∀ name ∈ ["java/lang/Cloneable", "java/io/Serializable"], ∀ c, p.find? name = some c →
    c.interfaces = [] ∧ (c.super = "" ∨ c.super = "java/lang/Object")

variable {p : Provider} {a b c : JType}

theorem Climbable.isSubclass_iff (h : p.Climbable) : p.isSubclass sub sup = true ↔
    sub = sup ∨ sup = "java/lang/Object" ∨ p.Inherits sub sup ∧ ∃ d, p.find? sup = some d := by
  cases here : p.find? sub with
  | some e =>
    obtain ⟨up, across, visits, walk⟩ := Hierarchy.visits_supertypes h here
    simp only [isSubclass, walk, Bool.or_eq_true, decide_eq_true_eq, List.any_eq_true, or_assoc, mem_visited visits h]
    refine or_congr_right (or_congr_right ⟨?_, ?_⟩)
    · rintro ⟨d, ⟨found, above⟩, rfl⟩
      exact ⟨above, d, found⟩
    · rintro ⟨above, d, found⟩
      obtain rfl := h.named _ _ found
      exact ⟨d, ⟨found, above⟩, rfl⟩
  | none =>
    have noSuper : ∀ x, ¬ p.Super sub x := by simp [Super, here]
    have noList : ∀ x, ¬ p.Lists sub x := by simp [Lists, here]
    have noneAbove : ∀ x, ¬ p.Extends sub x := by simp [Extends, here]
    simp only [isSubclass, Bool.or_eq_true, decide_eq_true_eq, List.any_eq_true, or_assoc]
    refine or_congr_right (or_congr_right ⟨?_, ?_⟩)
    · rintro ⟨d, member, -⟩
      obtain ⟨above, found, reach⟩ := Hierarchy.above_of_mem_supertypes member
      obtain rfl := (reflTransGen_iff_eq noneAbove).mp reach
      cases here.symm.trans found
    · rintro ⟨⟨x, up, across⟩, d, found⟩
      obtain rfl := (reflTransGen_iff_eq noSuper).mp up
      obtain rfl := (reflTransGen_iff_eq noList).mp across
      cases here.symm.trans found

namespace Orderly

/-- Above a class whose superclass is the root or none stand its interfaces and the root. -/
theorem lists_of_inherits (h : p.Orderly) (here : p.find? sub = some d)
    (high : d.super = "" ∨ d.super = "java/lang/Object") (above : p.Inherits sub sup) (found : p.find? sup = some e) :
    ReflTransGen p.Lists sub sup ∨ sup = "java/lang/Object" := by
  have last : ∀ x, ¬ p.Super "" x := by simp [Super, h.find?_empty]
  have lastList : ∀ x, ¬ p.Lists "" x := by simp [Lists, h.find?_empty]
  have beyond {y : String} (up : ReflTransGen p.Super "" y) (across : ReflTransGen p.Lists y sup) : False := by
    obtain rfl := (reflTransGen_iff_eq last).mp up
    exact h.ne_empty found ((reflTransGen_iff_eq lastList).mp across)
  obtain ⟨y, up, across⟩ := above
  obtain rfl | ⟨next, ⟨d', same, rfl⟩, up⟩ := ReflTransGen.cases_head_iff.mp up
  · exact .inl across
  cases here.symm.trans same
  obtain empty | root := high
  · exact (beyond (empty ▸ up) across).elim
  rw [root] at up
  obtain rfl | ⟨next, ⟨r, found, rfl⟩, up⟩ := ReflTransGen.cases_head_iff.mp up
  · have noList : ∀ x, ¬ p.Lists "java/lang/Object" x := by
      rintro x ⟨r, found, listed⟩
      simp [(h.root r found).2] at listed
    exact .inr ((reflTransGen_iff_eq noList).mp across)
  · exact (beyond ((h.root r found).1 ▸ up) across).elim

theorem inherits_trans (h : p.Orderly) (here : p.find? mid = some d) (there : p.find? sup = some e)
    (first : p.Inherits sub mid) (second : p.Inherits mid sup) : p.Inherits sub sup ∨ sup = "java/lang/Object" := by
  obtain ⟨x, up, across⟩ := first
  obtain rfl | ⟨y, across', listed⟩ := ReflTransGen.cases_tail_iff _ _ _ |>.mp across
  · obtain ⟨y, up', across⟩ := second
    exact .inl ⟨y, up.trans up', across⟩
  · obtain across' | root := h.lists_of_inherits here (h.flat y mid d listed here) second there
    · exact .inl ⟨x, up, across.trans across'⟩
    · exact .inr root

theorem isSubclass_object (h : p.Orderly) (up : p.isSubclass "java/lang/Object" sup = true) : sup = "java/lang/Object" := by
  by_contra differ
  obtain same | ⟨above, -⟩ := h.toBased.above up (Ne.symm differ)
  · exact differ same
  · exact h.toBased.top _ above

theorem isSubclass_trans (h : p.Orderly) (first : p.isSubclass sub mid = true) (second : p.isSubclass mid sup = true) :
    p.isSubclass sub sup = true := by
  rw [h.isSubclass_iff] at first
  obtain rfl | rfl | ⟨first, d, here⟩ := first
  · exact second
  · simp [isSubclass, h.isSubclass_object second]
  · rw [h.isSubclass_iff] at second ⊢
    obtain rfl | root | ⟨second, e, there⟩ := second
    · exact .inr (.inr ⟨first, d, here⟩)
    · exact .inr (.inl root)
    · obtain above | root := h.inherits_trans here there first second
      · exact .inr (.inr ⟨above, e, there⟩)
      · exact .inr (.inl root)

theorem isSubclass_marker (h : p.Orderly) (marker : sub ∈ ["java/lang/Cloneable", "java/io/Serializable"])
    (up : p.isSubclass sub sup = true) : sup = sub ∨ sup = "java/lang/Object" := by
  obtain rfl | root | ⟨above, e, there⟩ := h.isSubclass_iff.mp up
  · exact .inl rfl
  · exact .inr root
  · by_cases differ : sub = sup
    · exact .inl differ.symm
    obtain root | ⟨way, -⟩ := h.toBased.above up differ
    · exact .inr root
    obtain ⟨-, ⟨d, here, -⟩, -⟩ := TransGen.head'_iff.mp way
    obtain ⟨alone, high⟩ := h.arrays sub marker d here
    have noList : ∀ x, ¬ p.Lists sub x := by simp [Lists, here, alone]
    exact (h.lists_of_inherits here high above there).imp_left (reflTransGen_iff_eq noList).mp

end Orderly

/-- Assignability is reflexive and transitive. A class of the reserved name is left out: it would pass for everything, as the
type of null does. -/
theorem isAssignable_preorder (h : p.Orderly) (free : p.find? Base.nullName = none) :
    (∀ t, p.isAssignable t t = true) ∧ ∀ a b c : JType, a.Plain → b.Plain → c.Plain →
      p.isAssignable a b = true → p.isAssignable b c = true → p.isAssignable a c = true := by
  refine ⟨fun t => isAssignable_iff.mpr (.inl rfl), fun a b c plainA plainB plainC first second => ?_⟩
  induction n : a.dims.toNat using Nat.strongRecOn generalizing a b c with
  | ind n ih =>
    by_cases same : a = b
    · exact same ▸ second
    by_cases same' : b = c
    · exact same' ▸ first
    obtain ⟨refA, -, above⟩ := (isAssignable_iff.mp first).resolve_left same
    obtain ⟨-, refC, above'⟩ := (isAssignable_iff.mp second).resolve_left same'
    have noNull : b.isNull ≠ true := fun null => same (h.toBased.eq_of_null free plainA null first)
    have noObject : b ≠ .object := by
      rintro rfl
      exact same' (h.toBased.eq_of_object plainC second).symm
    refine isAssignable_iff.mpr (.inr ⟨refA, refC, ?_⟩)
    by_cases nullA : a.isNull = true
    · exact .inl nullA
    by_cases objectC : c = .object
    · exact .inr (.inl objectC)
    simp only [noNull, noObject, nullA, objectC, Bool.false_eq_true, false_or] at above above' ⊢
    obtain ⟨arrayA, arrayB, inner⟩ | ⟨arrayA, flatB, marker⟩ | ⟨flatA, flatB, sub⟩ := above
    · obtain ⟨-, arrayC, inner'⟩ | ⟨-, flatC, marker⟩ | ⟨flatB, -⟩ := above'
      · have less := dims_elem arrayA
        exact .inl ⟨arrayA, arrayC, ih _ (by omega) _ _ _ (elem_plain plainA) (elem_plain plainB) (elem_plain plainC) inner inner' rfl⟩
      · exact .inr (.inl ⟨arrayA, flatC, marker⟩)
      · simp [arrayB] at flatB
    · obtain ⟨arrayB, -⟩ | ⟨arrayB, -⟩ | ⟨-, flatC, sub⟩ := above'
      · simp [arrayB] at flatB
      · simp [arrayB] at flatB
      · obtain same | root := h.isSubclass_marker marker sub
        · exact .inr (.inl ⟨arrayA, flatC, same ▸ marker⟩)
        · exact absurd (eq_of_internalName (b := .object) plainC ⟨by decide, by decide⟩ refC rfl flatC rfl root) objectC
    · obtain ⟨arrayB, -⟩ | ⟨arrayB, -⟩ | ⟨-, flatC, sub'⟩ := above'
      · simp [arrayB] at flatB
      · simp [arrayB] at flatB
      · exact .inr (.inr ⟨flatA, flatC, h.isSubclass_trans sub sub'⟩)

theorem orderly_stack (climbable : (stack l).Climbable) (fits : ∀ c ∈ l,
    (c.name = "java/lang/Object" → c.super = "" ∧ c.interfaces = []) ∧
    (c.name ∈ ["java/lang/Cloneable", "java/io/Serializable"] → c.interfaces = [] ∧ (c.super = "" ∨ c.super = "java/lang/Object")) ∧
    ∀ d ∈ l, c.name ∈ d.interfaces → c.super = "" ∨ c.super = "java/lang/Object") : (stack l).Orderly where
  toClimbable := climbable
  root c found := (fits c (mem_of_find?_stack found).1).1 (mem_of_find?_stack found).2
  flat a b c lists found := by
    obtain ⟨d, there, listed⟩ := lists
    obtain ⟨inside, rfl⟩ := mem_of_find?_stack found
    exact (fits c inside).2.2 d (mem_of_find?_stack there).1 listed
  arrays name marker c found := by
    obtain ⟨inside, rfl⟩ := mem_of_find?_stack found
    exact (fits c inside).2.1 marker

def tower (middle : String) : List ClassInfo :=
  [⟨"demo/B", middle, [], ⟨1⟩, #[], #[]⟩, ⟨middle, "java/lang/Object", ["java/lang/Cloneable"], ⟨1⟩, #[], #[]⟩,
    ⟨"java/lang/Cloneable", "", [], ⟨0x601⟩, #[], #[]⟩, ⟨"java/lang/Object", "", [], ⟨1⟩, #[], #[]⟩]

/-- Arrays of arrays of a class pass for arrays of an interface of its superclass. -/
theorem isAssignable_preorder_tower :
    (stack (tower "demo/A")).isAssignable ⟨.named "demo/B", 2⟩ ⟨.named "java/lang/Cloneable", 1⟩ = true :=
  (isAssignable_preorder (p := stack (tower "demo/A")) (orderly_stack (climbable_stack (by decide)) (by decide))
    (by decide +kernel)).2 ⟨.named "demo/B", 2⟩ ⟨.named "demo/A", 2⟩ ⟨.named "java/lang/Cloneable", 1⟩ ⟨by decide, by decide⟩
    ⟨by decide, by decide⟩ ⟨by decide, by decide⟩ (by decide +kernel) (by decide +kernel)

/-- A class of the reserved name passes for what its subclass does not. -/
theorem not_isAssignable_trans : (stack (tower Base.nullName)).Orderly ∧
    (stack (tower Base.nullName)).isAssignable (.ofClass "demo/B") (.ofClass Base.nullName) = true ∧
    (stack (tower Base.nullName)).isAssignable (.ofClass Base.nullName) .string = true ∧
    (stack (tower Base.nullName)).isAssignable (.ofClass "demo/B") .string = false :=
  ⟨orderly_stack (climbable_stack (by decide)) (by decide), by decide +kernel⟩

end Provider

end ClassForge

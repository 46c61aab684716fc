import ClassForge.Proofs.Spellings
import ClassForge.Recipe.Compile
import Mathlib.Data.List.Nodup
import Mathlib.Data.List.Perm.Subperm
import Mathlib.Logic.Relation

/-! The order of the classes of a recipe: there is one unless a class is its own ancestor. -/

namespace ClassForge.Recipe

open List

open Relation (TransGen)

def Extends (r : Recipe) (c s : ClassDecl) : Prop := s ∈ r.classes ∧ s.name = c.super

def Cyclic (r : Recipe) : Prop := ∃ c ∈ r.classes, TransGen r.Extends c c

def Sorted (r : Recipe) (cs : List ClassDecl) : Prop :=
  ∀ before c after, cs = before ++ c :: after → ∀ s, r.Extends c s → s ∈ before

structure Arranged (r : Recipe) (cs : List ClassDecl) : Prop where
  known : cs ⊆ r.classes
  nodup : cs.Nodup
  sorted : r.Sorted cs

/-- The search is at `c`; the classes below it led there, and there are steps left for all others. -/
structure Trail (r : Recipe) (fuel : Nat) (below : List String) (c : ClassDecl) : Prop where
  known : c ∈ r.classes
  nodup : below.Nodup
  names : below ⊆ r.classes.map (·.name)
  enough : r.classes.length < fuel + below.length
  leads : ∀ b ∈ r.classes, b.name ∈ below → TransGen r.Extends b c

/-- A failure is that of a cycle; otherwise `good` holds of what is given. -/
def Judged (r : Recipe) (good : List ClassDecl → Prop) : Except Problem (List ClassDecl) → Prop
  | .error p => r.Cyclic ∧ ∃ name, p = .fault (.cycle name) ""
  | .ok cs => good cs

variable {r : Recipe} {c s : ClassDecl} {cs placed : List ClassDecl} {below : List String} {fuel : Nat}

section

variable {P Q : List ClassDecl → Prop} {e : Except Problem (List ClassDecl)}

theorem Judged.map (h : r.Judged P e) (next : ∀ cs, P cs → Q (f cs)) : r.Judged Q (e.map f) := by
  cases e with
  | error p => exact h
  | ok cs => exact next cs h

theorem Judged.bind (h : r.Judged P e) (next : ∀ cs, P cs → r.Judged Q (f cs)) : r.Judged Q (e >>= f) := by
  cases e with
  | error p => exact h
  | ok cs => exact next cs h

end

theorem Sorted.snoc (h : r.Sorted cs) (before : ∀ s, r.Extends c s → s ∈ cs) : r.Sorted (cs ++ [c]) := by
  intro front d back split s extended
  rcases eq_nil_or_concat back with rfl | ⟨back, last, rfl⟩
  · obtain ⟨rfl, same⟩ := append_inj' split rfl
    cases same
    exact before s extended
  · have split : cs ++ [c] = (front ++ d :: back) ++ [last] := by simpa using split
    exact h front d back (append_inj' split rfl).1 s extended

theorem Arranged.snoc (h : r.Arranged cs) (known : c ∈ r.classes) (absent : c ∉ cs)
    (before : ∀ s, r.Extends c s → s ∈ cs) : r.Arranged (cs ++ [c]) where
  known := append_subset.mpr ⟨h.known, by simpa using known⟩
  nodup := nodup_append_comm.mp (nodup_cons.mpr ⟨absent, h.nodup⟩)
  sorted := h.sorted.snoc before

theorem Sorted.ancestor (h : r.Sorted (front ++ c :: back)) (above : TransGen r.Extends c s) : s ∈ front := by
  induction above with
  | single extended => exact h front c back rfl _ extended
  | tail _ extended ih =>
    obtain ⟨left, right, rfl⟩ := append_of_mem ih
    exact mem_append_left _ (h left _ (right ++ c :: back) (by simp) _ extended)

theorem Arranged.not_cyclic (h : r.Arranged cs) (all : r.classes ⊆ cs) : ¬ r.Cyclic := by
  rintro ⟨c, known, cycle⟩
  obtain ⟨front, back, rfl⟩ := append_of_mem (all known)
  have twice := (nodup_append.mp h.nodup).2.2 c (h.sorted.ancestor cycle) c mem_cons_self
  exact twice rfl

section

variable (distinct : (r.classes.map (·.name)).Nodup)

include distinct

theorem class?_eq_some (c : ClassDecl) : r.class? c.super = some s ↔ r.Extends c s := by
  constructor
  · intro found
    exact ⟨mem_of_find?_eq_some found, by simpa using find?_some found⟩
  · rintro ⟨known, name⟩
    cases found : r.class? c.super with
    | none =>
      have other := find?_eq_none.mp found s known
      simp [name] at other
    | some t =>
      have known' := mem_of_find?_eq_some found
      have name' : t.name = c.super := by simpa using find?_some found
      rw [inj_on_of_nodup_map distinct known' known (name'.trans name.symm)]

theorem Trail.up (h : r.Trail (fuel + 1) below c) (new : c.name ∉ below) (extended : r.Extends c s) :
    r.Trail fuel (c.name :: below) s where
  known := extended.1
  nodup := nodup_cons.mpr ⟨new, h.nodup⟩
  names := cons_subset.mpr ⟨mem_map_of_mem h.known, h.names⟩
  enough := by
    have := h.enough
    simp only [length_cons]
    omega
  leads b hb named := by
    rcases mem_cons.mp named with same | lower
    · rw [inj_on_of_nodup_map distinct hb h.known same]
      exact .single extended
    · exact (h.leads b hb lower).tail extended

theorem judged_chain (arranged : r.Arranged placed) (trail : r.Trail fuel below c) :
    r.Judged (fun new => r.Arranged (placed ++ new) ∧ c ∈ placed ++ new ∧ ∀ d ∈ new, d.name ∉ below)
      (r.chain placed fuel below c) := by
  induction fuel generalizing below c with
  | zero =>
    have few := (subperm_of_subset trail.nodup trail.names).length_le
    have many := trail.enough
    simp only [length_map] at few
    omega
  | succ fuel ih =>
    rw [chain]
    split_ifs with there again
    · obtain ⟨d, hd, same⟩ := any_eq_true.mp there
      have here : d = c := inj_on_of_nodup_map distinct (arranged.known hd) trail.known (by simpa using same)
      simpa [Judged, here ▸ hd] using arranged
    · have cycle := trail.leads c trail.known (by simpa using again)
      exact ⟨⟨c, trail.known, cycle⟩, c.name, rfl⟩
    · have new : c.name ∉ below := by simpa using again
      have absent : c ∉ placed := fun hc => there (any_eq_true.mpr ⟨c, hc, by simp⟩)
      cases found : r.class? c.super with
      | none =>
        have top : ∀ s, ¬ r.Extends c s := fun s extended => by
          rw [(class?_eq_some distinct c).mpr extended] at found
          cases found
        exact ⟨arranged.snoc trail.known absent fun s extended => absurd extended (top s), by simp, by simpa using new⟩
      | some s =>
        have extended := (class?_eq_some distinct c).mp found
        refine (ih (trail.up distinct new extended)).map ?_
        rintro front ⟨fine, super, others⟩
        have apart : c ∉ placed ++ front := by
          simpa [absent] using fun hc => others c hc mem_cons_self
        refine ⟨?_, by simp, fun d hd lower => ?_⟩
        · rw [← append_assoc]
          refine fine.snoc trail.known apart fun t other => ?_
          rwa [inj_on_of_nodup_map distinct other.1 extended.1 (other.2.trans extended.2.symm)]
        · rcases mem_append.mp hd with hd | hd
          · exact others d hd (mem_cons_of_mem _ lower)
          · exact new (mem_singleton.mp hd ▸ lower)

theorem judged_order (all : r.classes = visited ++ todo) (arranged : r.Arranged placed)
    (before : visited ⊆ placed) : r.Judged (fun cs => r.Arranged cs ∧ r.classes ⊆ cs)
      (todo.foldlM (fun placed c => (r.chain placed (r.classes.length + 1) [] c).map (placed ++ ·)) placed) := by
  induction todo generalizing visited placed with
  | nil => exact ⟨arranged, by simpa [all] using before⟩
  | cons c todo ih =>
    have start : r.Trail (r.classes.length + 1) [] c :=
      ⟨by simp [all], nodup_nil, nil_subset _, by simp, fun _ _ lower => by cases lower⟩
    refine ((judged_chain distinct arranged start).map fun new h => ?_).bind fun _ h => h
    obtain ⟨fine, there, -⟩ := h
    have all' : r.classes = (visited ++ [c]) ++ todo := by simp [all]
    have before' : visited ⊆ placed ++ new := List.Subset.trans before (subset_append_left _ _)
    exact ih all' fine (append_subset.mpr ⟨before', by simpa using there⟩)

end

/-- The classes of a recipe are refused exactly where one is its own ancestor, and otherwise given
in an order that puts none before the class it extends. -/
theorem order_sorted (r : Recipe) (distinct : (r.classes.map (·.name)).Nodup) :
    ((∃ name, r.order = .error (.fault (.cycle name) "") ∧ (Fault.cycle name).code = .invalidRecipe) ↔ r.Cyclic) ∧
      (¬ r.Cyclic → ∃ cs, r.order = .ok cs ∧ cs.Perm r.classes ∧ r.Sorted cs) := by
  have nothing : r.Arranged [] := ⟨nil_subset _, nodup_nil, by simp [Sorted]⟩
  have judged : r.Judged _ r.order := judged_order distinct (nil_append _).symm nothing (nil_subset _)
  cases result : r.order with
  | error p =>
    rw [result] at judged
    obtain ⟨cyclic, name, rfl⟩ := judged
    exact ⟨⟨fun _ => cyclic, fun _ => ⟨name, rfl, rfl⟩⟩, fun free => absurd cyclic free⟩
  | ok cs =>
    rw [result] at judged
    obtain ⟨good, all⟩ := judged
    have free := good.not_cyclic all
    have same : cs.Perm r.classes :=
      (perm_ext_iff_of_nodup good.nodup distinct.of_map).mpr fun c => ⟨@good.known c, @all c⟩
    exact ⟨⟨by simp, fun cyclic => absurd cyclic free⟩, fun _ => ⟨cs, rfl, same, good.sorted⟩⟩

theorem order_sorted_family :
    let r : Recipe := ⟨"", [{ name := "Leaf", super := "Twig" }, { name := "Root" }, { name := "Twig", super := "Root" }], ""⟩
    ¬ r.Cyclic ∧ ∃ cs, r.order = .ok cs ∧ cs.Perm r.classes ∧ r.Sorted cs := by
  intro r
  obtain ⟨refused, placed⟩ := order_sorted r (by decide)
  have free : ¬ r.Cyclic := fun cyclic => by
    obtain ⟨name, failed, -⟩ := refused.mpr cyclic
    have done : r.order.isOk = true := rfl
    rw [failed] at done
    cases done
  exact ⟨free, placed free⟩

/-! Names as they are resolved. -/

/-- A class extends a class of the recipe by what the name of its superclass means. -/
def Inherits (r : Recipe) (c s : ClassDecl) : Prop :=
  c ∈ r.classes ∧ s ∈ r.classes ∧ r.internalName s.name = r.className c.super

def Simple (name : String) : Prop := '.' ∉ name.toList ∧ '/' ∉ name.toList

theorem internalName_inj (ha : Simple a) (hb : Simple b) (same : r.internalName a = r.internalName b) : a = b := by
  have plain {x : String} (h : Simple x) : r.internalName x = if r.package = "" then x else r.package ++ "/" ++ x := by
    simp [internalName, Text.slashed_eq_self h.1, h.2]
  rw [plain ha, plain hb] at same
  split_ifs at same
  · exact same
  · simpa using same

theorem names_of_checkClasses (h : checkClasses r seen i cs = .ok ()) :
    (cs.map (·.name)).Nodup ∧ ∀ c ∈ cs, c.name ∉ seen := by
  induction cs generalizing seen i with
  | nil => simp
  | cons c cs ih =>
    have refused : c.name ∉ seen ∧ ∃ j, checkClasses r (c.name :: seen) j cs = .ok () := by
      simp only [checkClasses, bind, Except.bind] at h
      grind
    grind

/-- Where names are simple, and classes of the recipe are extended under their own, the order is
that of the names as resolved. -/
theorem order_resolved (r : Recipe) (accepted : r.check = .ok ()) (simple : ∀ c ∈ r.classes, Simple c.name)
    (spelled : ∀ c s, r.Inherits c s → s.name = c.super) (cs : List ClassDecl) (ordered : r.order = .ok cs) :
    (r.classes.map (r.internalName ·.name)).Nodup ∧ (∀ c, ¬ TransGen r.Inherits c c) ∧
      ∀ before c after, cs = before ++ c :: after → ∀ s, r.Inherits c s → s ∈ before := by
  have checked : checkClasses r [] 1 r.classes = .ok () := by
    rw [check] at accepted
    split_ifs at accepted
    exact accepted
  have distinct := (names_of_checkClasses checked).1
  have nothing : r.Arranged [] := ⟨nil_subset _, nodup_nil, by simp [Sorted]⟩
  have judged : r.Judged _ r.order := judged_order distinct (nil_append _).symm nothing (nil_subset _)
  rw [ordered] at judged
  obtain ⟨good, all⟩ := judged
  have extended : ∀ c s, r.Inherits c s → r.Extends c s := fun c s h => ⟨h.2.1, spelled c s h⟩
  refine ⟨?_, fun c cycle => ?_, fun before c after split s h => good.sorted before c after split s (extended c s h)⟩
  · refine distinct.of_map.map_on fun c hc d hd same => ?_
    exact inj_on_of_nodup_map distinct hc hd (internalName_inj (simple c hc) (simple d hd) same)
  · obtain ⟨s, first, -⟩ := TransGen.head'_iff.mp cycle
    exact good.not_cyclic all ⟨c, first.1, TransGen.mono extended c c cycle⟩

theorem order_resolved_family :
    let twig : ClassDecl := { name := "Twig", super := "Root" }
    let root : ClassDecl := { name := "Root", super := "java.lang.Object" }
    let r : Recipe := ⟨"demo", [twig, root], ""⟩
    r.order = .ok [root, twig] ∧ r.Inherits twig root ∧ ∀ c, ¬ TransGen r.Inherits c c := by
  intro twig root r
  have simple : ∀ c ∈ r.classes, Simple c.name := by simp [r, twig, root, Simple]
  have names : (∀ c ∈ r.classes, ∀ s ∈ r.classes, r.internalName s.name = r.className c.super → s.name = c.super) ∧
      r.internalName root.name = r.className twig.super := by
    decide +kernel
  have spelled : ∀ c s, r.Inherits c s → s.name = c.super := fun c s h => names.1 c h.1 s h.2.1 h.2.2
  exact ⟨rfl, ⟨by simp [r], by simp [r], names.2⟩, (order_resolved r rfl simple spelled [root, twig] rfl).2.1⟩

/-- A superclass with its package in front is not found among the classes of the recipe. -/
theorem order_misplaces_qualified :
    let leaf : ClassDecl := { name := "Leaf", super := "demo.Root" }
    let root : ClassDecl := { name := "Root" }
    let r : Recipe := ⟨"demo", [leaf, root], ""⟩
    r.check = .ok () ∧ r.order = .ok [leaf, root] ∧ r.Inherits leaf root := by
  intro leaf root r
  exact ⟨rfl, rfl, by simp [r], by simp [r], by decide +kernel⟩

end ClassForge.Recipe

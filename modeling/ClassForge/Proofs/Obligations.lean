import ClassForge.Proofs.Calls

/-! What a class has to implement: the check for methods without a body passes where every instance
method that is abstract, or stands in an interface, has a body in some class above. -/

namespace ClassForge.Provider

open Assembler Hierarchy

variable {p : Provider} {owner : String} {c : ClassInfo} {m : MethodInfo} {ms : List MethodInfo}

/-- An instance method of a class or interface above the owner, or of the owner. -/
structure Member (p : Provider) (owner : String) (d : ClassInfo) (m : MethodInfo) : Prop where
  found : p.find? d.name = some d
  above : p.Inherits owner d.name
  declared : m ∈ d.methods
  instance_ : isInstanceMethod m = true

/-- Every instance method that is abstract or stands in an interface has a body, under the same name and descriptor, in some
class above the owner. -/
def Implemented (p : Provider) (owner : String) : Prop :=
  ∀ d m, p.Member owner d m → m.isAbstract = true ∨ d.isInterface = true →
    ∃ e n, p.Member owner e n ∧ n.isAbstract = false ∧ e.isInterface = false ∧ n.name = m.name ∧ n.descriptor = m.descriptor

/-- Every abstract instance method meets, on the way up the superclasses, first a declaration with a body. -/
def Selected (p : Provider) (owner : String) : Prop :=
  ∀ d m, p.Member owner d m → m.isAbstract = true → ∀ up, Ascends p owner up →
    ∃ n, (up.flatMap (·.methods.toList)).find? (fun n => n.name = m.name ∧ n.descriptor = m.descriptor) = some n ∧
      n.isAbstract = false

theorem keyOf_inj {n : MethodInfo} (plain : '(' ∉ m.name.toList) (plain' : '(' ∉ n.name.toList) (same : keyOf m = keyOf n) :
    m.name = n.name ∧ m.descriptor = n.descriptor := by
  have opens (k : MethodInfo) : ∃ rest, k.descriptor.toList = '(' :: rest := by
    simp [MethodInfo.descriptor, JType.methodDescriptor]
  have cut {k : MethodInfo} (plain : '(' ∉ k.name.toList) : (keyOf k).toList.takeWhile (· ≠ '(') = k.name.toList := by
    obtain ⟨rest, starts⟩ := opens k
    rw [keyOf, String.toList_append, List.takeWhile_append_of_pos (by simpa using fun (c : Char) hc (h : c = '(') => plain (h ▸ hc)), starts]
    simp
  have names : m.name = n.name := String.toList_injective (by rw [← cut plain, same, cut plain'])
  refine ⟨names, String.toList_injective ?_⟩
  have texts := congrArg String.toList same
  rwa [keyOf, keyOf, String.toList_append, String.toList_append, names, List.append_right_inj] at texts

theorem forall_firstOfKey {P : String → Prop} (known : ∀ k ∈ seen, P k) :
    (∀ m ∈ firstOfKey seen ms, P (keyOf m)) ↔ ∀ m ∈ ms, P (keyOf m) := by
  fun_induction firstOfKey seen ms with
  | case1 => simp
  | case2 seen n ms old ih => simp [ih known, known _ (List.contains_iff_mem.mp old)]
  | case3 seen n ms new ih =>
    rw [List.forall_mem_cons, List.forall_mem_cons]
    refine and_congr_right fun here => ih ?_
    simpa using ⟨here, known⟩

theorem unimplemented_of_walk (walk : supertypes p owner = ⟨all, none⟩) :
    ∃ ms, p.unimplemented owner = .ok ms ∧ (ms = [] ↔
      ∀ m, ∀ d ∈ all, m ∈ d.methods → isInstanceMethod m = true → (m.isAbstract = false → d.isInterface = true) →
        ∃ n, ∃ e ∈ all, n ∈ e.methods ∧ isInstanceMethod n = true ∧ n.isAbstract = false ∧ e.isInterface = false ∧
          keyOf n = keyOf m) := by
  simp only [unimplemented, walk]
  refine ⟨_, rfl, ?_⟩
  rw [List.filter_eq_nil_iff, forall_firstOfKey (P := fun k => ¬ (!List.contains _ k) = true) (by simp)]
  simp

theorem implemented_iff (climbable : p.Climbable) (here : p.find? owner = some c)
    (plain : ∀ d m, p.Member owner d m → '(' ∉ m.name.toList) :
    ∃ ms, p.unimplemented owner = .ok ms ∧ (ms = [] ↔ p.Implemented owner) := by
  obtain ⟨up, across, visits, walk⟩ := visits_supertypes climbable here
  obtain ⟨ms, given, none⟩ := unimplemented_of_walk walk
  refine ⟨ms, given, none.trans ?_⟩
  simp only [mem_visited visits climbable]
  constructor
  · intro all d m member open_
    obtain ⟨n, e, ⟨found, above⟩, declared, free, body, ground, same⟩ := all m d ⟨member.found, member.above⟩ member.declared
      member.instance_ (by simpa [← Bool.not_eq_true, ← or_iff_not_imp_left] using open_)
    exact ⟨e, n, ⟨found, above, declared, free⟩, body, ground, keyOf_inj (plain e n ⟨found, above, declared, free⟩)
      (plain d m member) same⟩
  · rintro all m d ⟨found, above⟩ declared free open_
    obtain ⟨e, n, member, body, ground, name, descriptor⟩ := all d m ⟨found, above, declared, free⟩
      (by simpa [← Bool.not_eq_true, ← or_iff_not_imp_left] using open_)
    exact ⟨n, e, ⟨member.found, member.above⟩, member.declared, member.instance_, body, ground, by rw [keyOf, keyOf, name, descriptor]⟩

/-- The check of a class passes exactly if every method it inherits without a body has one in some
class above it, and one that is neither abstract nor an interface is written only then. -/
theorem unimplemented_eq_nil_iff (climbable : p.Climbable) (here : p.find? owner = some c)
    (plain : ∀ d m, p.Member owner d m → '(' ∉ m.name.toList) :
    (∃ ms, p.unimplemented owner = .ok ms ∧ (ms = [] ↔ p.Implemented owner)) ∧
      ∀ (q : Provider) (d d' : Draft) (out : Array UInt8), d.lookup q = p → d.name = owner → d.output = none →
        d.info.isInterface = false → d.info.access.isAbstract = false → d.bytes q = (.ok out, d') → p.Implemented owner := by
  obtain ⟨ms, given, none⟩ := implemented_iff climbable here plain
  refine ⟨⟨ms, given, none⟩, ?_⟩
  rintro q d d' out rfl rfl first ground concrete run
  obtain ⟨-, _, -, -, ⟨written, -⟩ | ⟨-, complete, -⟩⟩ := Draft.of_bytes run Draft.fine_ok
  · exact absurd first written
  · obtain ⟨-, -, empty⟩ := Draft.of_checkComplete complete
    exact none.mp (Except.ok.inj (given.symm.trans (empty ground concrete)))

/-- A class whose interface has a body, and a class whose superclass takes one back. -/
def redeclared : List ClassInfo :=
  [⟨"demo/D", "java/lang/Object", ["demo/I"], ⟨1⟩, #[], #[]⟩,
    ⟨"demo/I", "", [], ⟨0x601⟩, #[], #[⟨"demo/I", "g", [], .void, ⟨1⟩⟩]⟩,
    ⟨"demo/C", "demo/B", [], ⟨1⟩, #[], #[]⟩,
    ⟨"demo/B", "demo/A", [], ⟨0x401⟩, #[], #[⟨"demo/B", "f", [], .void, ⟨0x401⟩⟩]⟩,
    ⟨"demo/A", "java/lang/Object", [], ⟨1⟩, #[], #[⟨"demo/A", "f", [], .void, ⟨1⟩⟩]⟩,
    ⟨"java/lang/Object", "", [], ⟨1⟩, #[], #[]⟩]

theorem climbable_redeclared : (stack redeclared).Climbable := climbable_stack (by decide)

theorem find?_redeclared : (stack redeclared).find? "demo/C" = some redeclared[2] ∧
    (stack redeclared).find? "demo/D" = some redeclared[0] := by decide +kernel

/-- The class below the abstract one passes, and the class of the interface does not. -/
theorem unimplemented_eq_nil_iff_redeclared :
    (stack redeclared).Implemented "demo/C" ∧ ¬ (stack redeclared).Implemented "demo/D" := by
  have plain (owner : String) (d : ClassInfo) (m : MethodInfo) (member : (stack redeclared).Member owner d m) :
      '(' ∉ m.name.toList :=
    (show ∀ d ∈ redeclared, ∀ m ∈ d.methods, '(' ∉ m.name.toList by decide) d (mem_of_find?_stack member.found).1 m
      member.declared
  obtain ⟨⟨ms, given, none⟩, -⟩ := unimplemented_eq_nil_iff climbable_redeclared find?_redeclared.1 (plain _)
  obtain ⟨⟨ms', given', some⟩, -⟩ := unimplemented_eq_nil_iff climbable_redeclared find?_redeclared.2 (plain _)
  refine ⟨none.mp (Except.ok.inj (given.symm.trans (by decide +kernel))), fun all => ?_⟩
  obtain rfl := some.mpr all
  exact absurd given' (by decide +kernel)

/-- The check is not about the declaration that is met first: it takes a body above an abstract one,
and none in an interface. -/
theorem unimplemented_ne_selected : (stack redeclared).Climbable ∧
    (stack redeclared).unimplemented "demo/C" = .ok [] ∧ ¬ (stack redeclared).Selected "demo/C" ∧
    (stack redeclared).unimplemented "demo/D" ≠ .ok [] ∧ (stack redeclared).Selected "demo/D" := by
  refine ⟨climbable_redeclared, by decide +kernel, fun selected => ?_, by decide +kernel, fun d m member abstract => ?_⟩
  · have member : (stack redeclared).Member "demo/C" redeclared[3] ⟨"demo/B", "f", [], .void, ⟨0x401⟩⟩ :=
      ⟨by decide +kernel, ⟨_, .single ⟨redeclared[2], by decide +kernel, rfl⟩, .refl⟩, by decide +kernel, by decide⟩
    obtain ⟨n, nearest, body⟩ := selected _ _ member (by decide) (redeclared.drop 2)
      (.step (by decide) (by decide +kernel) (.step (by decide) (by decide +kernel) (.step (by decide) (by decide +kernel)
        (.step (by decide) (by decide +kernel) .top))))
    cases nearest
    cases body
  · obtain ⟨up, across, visits, walk⟩ := visits_supertypes climbable_redeclared find?_redeclared.2
    have inside := (mem_visited visits climbable_redeclared).mpr ⟨member.found, member.above⟩
    rw [← show _ = up ++ across from congrArg Walk.visited walk] at inside
    have body := (show ∀ d ∈ (supertypes (stack redeclared) "demo/D").visited, ∀ m ∈ d.methods,
      m.isAbstract = false by decide +kernel) d inside m member.declared
    simp [body] at abstract

end ClassForge.Provider

import ClassForge.Proofs.Spellings
import ClassForge.Recipe.Compile

/-! Bracket pairs behind a spelling are array dimensions, as long as there are fewer than 256. -/

namespace ClassForge

open List

namespace JType

variable {t : JType} {s : String}

theorem stripPairs_pair (v : List Char) :
    stripPairs (']' :: '[' :: v) = ((stripPairs v).1 + 1, (stripPairs v).2) := rfl

theorem stripPairs_brackets (n : Nat) (v : List Char) :
    stripPairs ((brackets n).toList.reverse ++ v) = ((stripPairs v).1 + n, (stripPairs v).2) := by
  induction n with
  | zero => simp [brackets]
  | succ n ih =>
    have pair : (brackets (n + 1)).toList.reverse = ']' :: '[' :: (brackets n).toList.reverse := by
      rw [brackets, replicate_succ', String.join_append, ← brackets]
      simp
    rw [pair, cons_append, cons_append, stripPairs_pair, ih, Nat.add_assoc]

theorem trimStart_brackets (s : String) (n : Nat) :
    Text.trimStart (s ++ brackets n).toList = Text.trimStart s.toList ++ (brackets n).toList := by
  have own : (brackets n).toList.dropWhile Text.isBlank = (brackets n).toList := by
    cases n with
    | zero => rfl
    | succ n =>
      rw [brackets, replicate_succ, String.join_cons, String.toList_append]
      exact dropWhile_cons_of_neg (by decide)
  simp only [Text.trimStart, String.toList_append, dropWhile_append, own, List.isEmpty_iff]
  split_ifs with blank
  · simp [blank]
  · rfl

theorem pairsAndBase_brackets (s : String) (n : Nat) :
    pairsAndBase (s ++ brackets n) = ((pairsAndBase s).1 + n, (pairsAndBase s).2) := by
  rw [pairsAndBase, trimStart_brackets, reverse_append, stripPairs_brackets]
  rfl

theorem not_blank_brackets (start : ¬ (Text.trimStart s.toList).isEmpty = true) (n : Nat) :
    ¬ (Text.trimStart (s ++ brackets n).toList).isEmpty = true := by
  rw [trimStart_brackets]
  simp only [List.isEmpty_iff, append_eq_nil_iff] at start ⊢
  exact fun none => start none.1

theorem parseName_brackets (h : parseName s = .ok t) (value : t.isVoid = false)
    (few : (pairsAndBase s).1 + n < 256) : parseName (s ++ brackets n) =
      if t.dims.toNat + n ≤ 255 then .ok ⟨t.base, t.dims + n.toUInt8⟩ else .error .nameTooManyDimensions := by
  have count : ∀ k < 256, k.toUInt8.toNat = k := fun k small => by
    simp
    omega
  simp only [parseName, pairsAndBase_brackets] at h ⊢
  generalize pairsAndBase s = spelling at h few ⊢
  split_ifs at h with start void none
  · cases h
    cases value
  · obtain ⟨u, found, h⟩ := of_bind h
    split_ifs at h with many
    cases h
    rw [if_neg (not_blank_brackets start n), if_neg void, found]
    have dims : (u.dims + spelling.1.toUInt8).toNat = u.dims.toNat + spelling.1 := by
      rw [UInt8.toNat_add]
      rw [count _ (by omega)] at many ⊢
      omega
    have same : u.dims + (spelling.1 + n).toUInt8 = u.dims + spelling.1.toUInt8 + n.toUInt8 := by
      simp [UInt8.add_assoc]
    simp only [bind, Except.bind, dims, count _ few, same]
    split_ifs <;> first | rfl | omega

theorem parseName_period (h : parseName s = .ok t) : parseName (s ++ brackets 256) = .ok t := by
  have same : ((pairsAndBase s).1 + 256).toUInt8 = (pairsAndBase s).1.toUInt8 := by simp
  simp only [parseName, pairsAndBase_brackets, same] at h ⊢
  by_cases start : (Text.trimStart s.toList).isEmpty = true
  · rw [if_pos start] at h
    cases h
  · rw [if_neg start] at h
    rw [if_neg (not_blank_brackets start 256)]
    exact h

theorem elem_arrayOf (t : JType) :
    if t.dims = 255 then t.arrayOf.isArray = false else t.arrayOf.isArray = true ∧ t.arrayOf.elem = t := by
  split_ifs with full
  · simp [arrayOf, isArray, full]
  · have more : t.dims + 1 ≠ 0 := by
      rintro none
      have := congrArg (· - 1) none
      simp at this
      exact full this
    simp [arrayOf, elem, isArray, more]

theorem repeat_arrayOf (t : JType) (n : Nat) : n.repeat arrayOf t = ⟨t.base, t.dims + n.toUInt8⟩ := by
  induction n with
  | zero => simp [Nat.repeat]
  | succ n ih => simp [Nat.repeat, ih, arrayOf, UInt8.add_assoc]

end JType

namespace Recipe

open JType (brackets pairsAndBase)

theorem typeOf_brackets {r : Recipe} {name : String} (known : (r.class? name).isSome = true)
    (bare : pairsAndBase name = (0, name.toList)) (n : Nat) :
    r.typeOf (name ++ brackets n) = .ok ⟨(JType.ofClass (r.internalName name)).base, n.toUInt8⟩ := by
  simp [typeOf, JType.pairsAndBase_brackets, bare, known, JType.repeat_arrayOf, JType.ofClass]

end Recipe

open JType (brackets pairsAndBase parseName)

/-- The dimensions of an array type are counted in a byte. Of fewer than 256 bracket pairs, each is
one more dimension or there are too many, but 256 count as none; behind a class of the recipe they
are never too many; and the array type of a type has it as its element unless that has 255
dimensions, when it is no array. -/
theorem dimensions_in_byte (n : Nat) :
    (∀ s t, parseName s = .ok t →
      (t.isVoid = false → (pairsAndBase s).1 + n < 256 → parseName (s ++ brackets n) =
        if t.dims.toNat + n ≤ 255 then .ok ⟨t.base, t.dims + n.toUInt8⟩ else .error .nameTooManyDimensions) ∧
      parseName (s ++ brackets 256) = .ok t) ∧
    (∀ (r : Recipe) (name : String), (r.class? name).isSome = true → pairsAndBase name = (0, name.toList) →
      r.typeOf (name ++ brackets n) = .ok ⟨(JType.ofClass (r.internalName name)).base, n.toUInt8⟩) ∧
    ∀ t : JType, if t.dims = 255 then t.arrayOf.isArray = false else t.arrayOf.isArray = true ∧ t.arrayOf.elem = t :=
  ⟨fun _ _ h => ⟨fun value few => JType.parseName_brackets h value few, JType.parseName_period h⟩,
    fun _ _ known bare => Recipe.typeOf_brackets known bare n, JType.elem_arrayOf⟩

theorem dimensions_in_byte_two :
    parseName ("[I []" ++ brackets 2) = .ok ⟨.prim .int, 4⟩ ∧
    ({ classes := [{ name := "Node" }] } : Recipe).typeOf ("Node" ++ brackets 2) = .ok ⟨.named "Node", 2⟩ ∧
    JType.int.arrayOf.isArray = true ∧ JType.int.arrayOf.elem = .int :=
  ⟨((dimensions_in_byte 2).1 "[I []" ⟨.prim .int, 2⟩ rfl).1 rfl (by decide),
    (dimensions_in_byte 2).2.1 _ "Node" rfl rfl, (dimensions_in_byte 2).2.2 .int⟩

/-- With 256 pairs the count is back at 0. -/
theorem parseName_wraps : parseName ("int" ++ brackets 256) = .ok .int := JType.parseName_period rfl

end ClassForge

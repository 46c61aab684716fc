import ClassForge.Proofs.Descriptors

/-! Which texts are descriptors: those printed for some type, up to dots for slashes in class names. -/

namespace ClassForge

open List

theorem of_bind {ε α β : Type} {a : Except ε α} {f : α → Except ε β} {y : β} (h : a >>= f = .ok y) :
    ∃ x, a = .ok x ∧ f x = .ok y := by
  cases a with
  | error e => cases h
  | ok x => exact ⟨x, rfl, h⟩

namespace JType

def slash (c : Char) : Char := if c == '.' then '/' else c

theorem slash_eq_iff (dot : d ≠ '.') (plain : d ≠ '/') : slash c = d ↔ c = d := by
  unfold slash
  split_ifs with h
  · rw [beq_iff_eq.mp h]
    exact ⟨fun same => absurd same.symm plain, fun same => absurd same.symm dot⟩
  · rfl

theorem slash_ne_dot (c : Char) : slash c ≠ '.' := by
  unfold slash
  split_ifs with h
  · decide
  · simpa using h

theorem toList_slashed (s : String) : (Text.slashed s).toList = s.toList.map slash := String.toList_ofList

theorem spelled_ofName (full : name ≠ "") (clean : ';' ∉ name.toList) (noDot : '.' ∉ name.toList)
    (dims : UInt8) : (JType.mk (.ofName name) dims).Spelled := by
  unfold Base.ofName
  split_ifs with self null
  · exact ⟨⟨by rintro ⟨⟩, by rintro _ ⟨⟩⟩, by rintro _ ⟨⟩⟩
  · exact ⟨⟨by rintro ⟨⟩, by rintro _ ⟨⟩⟩, by rintro _ ⟨⟩⟩
  · refine ⟨⟨by rintro ⟨⟩, ?_⟩, ?_⟩
    · rintro _ ⟨⟩
      exact ⟨full, clean⟩
    · rintro _ ⟨⟩
      exact ⟨noDot, by simp [Base.ofName, self, null]⟩

theorem descriptorChars_ofName (name : String) (dims : UInt8) : (JType.mk (.ofName name) dims).descriptorChars =
    List.replicate dims.toNat '[' ++ 'L' :: name.toList ++ [';'] := by
  unfold descriptorChars Base.ofName
  split_ifs with self null <;> simp [Base.className, *]

theorem classPart_eq_some (h : classPart s = some (name, rest)) : s = name ++ ';' :: rest ∧ ';' ∉ name := by
  fun_induction classPart s generalizing name with
  | case1 => cases h
  | case2 r =>
    cases h
    exact ⟨rfl, not_mem_nil⟩
  | case3 c r other ih =>
    obtain ⟨⟨n, rest'⟩, found, same⟩ := Option.map_eq_some_iff.mp h
    cases same
    obtain ⟨rfl, clean⟩ := ih found
    exact ⟨rfl, by simpa [clean] using fun same => other same.symm⟩

/-- The descriptor of `t` stands at the head of `s`, and `rest` is left. -/
structure Read (s : List Char) (t : JType) (rest : List Char) : Prop where
  spelled : t.Spelled
  chars : s.map slash = t.descriptorChars ++ rest.map slash

section

variable {dims : UInt8} {s rest : List Char} {t : JType}

theorem read_prim (dims : UInt8) (p : Prim) (rest : List Char) :
    Read (List.replicate dims.toNat '[' ++ p.letter :: rest) ⟨.prim p, dims⟩ rest where
  spelled := ⟨⟨by rintro ⟨⟩, by rintro _ ⟨⟩⟩, by rintro _ ⟨⟩⟩
  chars := by cases p <;> simp [descriptorChars, slash, Prim.letter]

theorem read_ofClass (full : name ≠ []) (clean : ';' ∉ name) :
    Read (List.replicate dims.toNat '[' ++ 'L' :: (name ++ ';' :: rest)) ⟨(ofClass (String.ofList name)).base, dims⟩ rest := by
  have chars := toList_slashed (String.ofList name)
  rw [String.toList_ofList] at chars
  unfold ofClass
  generalize Text.slashed (String.ofList name) = internal at chars
  refine ⟨spelled_ofName ?_ ?_ ?_ dims, by simp [descriptorChars_ofName, chars, slash]⟩
  · rintro rfl
    exact full (map_eq_nil_iff.mp chars.symm)
  · simpa [chars, slash_eq_iff] using clean
  · simp [chars, slash_ne_dot]

theorem parseBase_read (h : parseBase dims s = .ok (t, rest)) : Read (List.replicate dims.toNat '[' ++ s) t rest := by
  unfold parseBase at h
  split at h
  · cases h
  · cases h; exact read_prim dims .boolean _
  · cases h; exact read_prim dims .byte _
  · cases h; exact read_prim dims .short _
  · cases h; exact read_prim dims .char _
  · cases h; exact read_prim dims .int _
  · cases h; exact read_prim dims .long _
  · cases h; exact read_prim dims .float _
  · cases h; exact read_prim dims .double _
  · split_ifs at h with flat
    cases h
    rw [flat]
    exact ⟨⟨⟨fun _ => rfl, by rintro _ ⟨⟩⟩, by rintro _ ⟨⟩⟩, rfl⟩
  · split at h
    · rename_i part
      cases h
      obtain ⟨rfl, clean⟩ := classPart_eq_some part
      exact read_ofClass (cons_ne_nil _ _) clean
    · cases h
  · cases h

theorem parseFrom_read (h : parseFrom dims s = .ok (t, rest)) : Read (List.replicate dims.toNat '[' ++ s) t rest := by
  fun_induction parseFrom dims s with
  | case1 => cases h
  | case2 dims r notFull ih =>
    have next : (dims + 1).toNat = dims.toNat + 1 := by
      have small := dims.toNat_lt
      have other : dims.toNat ≠ 255 := fun full => notFull (UInt8.toNat_inj.mp full)
      simp
      omega
    have read := ih h
    rwa [next, replicate_succ', append_assoc] at read
  | case3 => exact parseBase_read h

theorem parseOne_read (h : parseOne s = .ok (t, rest)) : Read s t rest := parseFrom_read h

theorem parseChars_read (h : parseChars s = .ok t) : Read s t [] := by
  obtain ⟨⟨t', rest⟩, one, h⟩ := of_bind h
  simp only [List.isEmpty_iff] at h
  split_ifs at h with whole
  cases h
  exact whole ▸ parseOne_read one

theorem parseParams_read {whole : String} {n : Nat} {ps : List JType} (h : parseParams whole n s = .ok (ps, rest)) :
    (∀ p ∈ ps, p.Spelled ∧ p.isVoid = false) ∧ s.map slash = ps.flatMap descriptorChars ++ ')' :: rest.map slash := by
  fun_induction parseParams whole n s generalizing ps with
  | case1 => cases h
  | case2 =>
    cases h
    exact ⟨by rintro _ ⟨⟩, rfl⟩
  | case3 => cases h
  | case4 n s _ _ ih =>
    obtain ⟨⟨p, after⟩, one, h⟩ := of_bind h
    simp only at h
    split_ifs at h with void
    · cases h
    obtain ⟨⟨others, rest'⟩, more, h⟩ := of_bind h
    cases h
    obtain ⟨spelled, chars⟩ := parseOne_read one
    obtain ⟨all, behind⟩ := ih _ more
    refine ⟨forall_mem_cons.mpr ⟨⟨spelled, by simpa using void⟩, all⟩, ?_⟩
    rw [chars, behind, flatMap_cons, append_assoc]

theorem parseMethodDescriptor_read {s : String} {ret : JType} {params : List JType}
    (h : parseMethodDescriptor s = .ok (ret, params)) : ret.Spelled ∧ (∀ p ∈ params, p.Spelled ∧ p.isVoid = false) ∧
      methodDescriptor ret params = Text.slashed s := by
  unfold parseMethodDescriptor at h
  split at h
  · rename_i r opened
    obtain ⟨⟨ps, rest⟩, list, h⟩ := of_bind h
    obtain ⟨t, last, h⟩ := of_bind h
    cases h
    obtain ⟨all, chars⟩ := parseParams_read list
    obtain ⟨spelled, behind⟩ := parseChars_read last
    refine ⟨spelled, all, String.toList_inj.mp ?_⟩
    rw [toList_slashed, opened, map_cons, chars, behind]
    simp [methodDescriptor, slash]
  · cases h

end

/-- A descriptor is read as the type it was printed for, and what is read as a type is its
descriptor up to dots for slashes; the same for methods. -/
theorem descriptor_exact :
    (∀ t : JType, t.Spelled → parseDescriptor t.descriptor = .ok t) ∧
    (∀ (ret : JType) (params : List JType), ret.Spelled → (∀ p ∈ params, p.Spelled ∧ p.isVoid = false) →
      parseMethodDescriptor (methodDescriptor ret params) = .ok (ret, params)) ∧
    (∀ s t, parseDescriptor s = .ok t → t.Spelled ∧ t.descriptor = Text.slashed s) ∧
    ∀ s ret params, parseMethodDescriptor s = .ok (ret, params) → ret.Spelled ∧
      (∀ p ∈ params, p.Spelled ∧ p.isVoid = false) ∧ methodDescriptor ret params = Text.slashed s := by
  refine ⟨fun t h => h.parseDescriptor_eq, fun _ _ h all => h.parseMethodDescriptor_eq all, fun s t h => ?_, ?_⟩
  · obtain ⟨spelled, chars⟩ := parseChars_read h
    exact ⟨spelled, String.toList_inj.mp (by simp [toList_slashed, chars, descriptor])⟩
  · exact fun _ _ _ h => parseMethodDescriptor_read h

theorem descriptor_exact_string :
    let t : JType := ⟨.ofName "java/lang/String", 2⟩
    t.Spelled ∧ parseDescriptor t.descriptor = .ok t ∧
      parseMethodDescriptor (methodDescriptor t [t]) = .ok (t, [t]) ∧ t.descriptor = Text.slashed "[[Ljava.lang.String;" ∧
      methodDescriptor t [t] = Text.slashed "([[Ljava.lang.String;)[[Ljava.lang.String;" := by
  have spelled : (JType.mk (.ofName "java/lang/String") 2).Spelled := spelled_ofName (by decide) (by decide) (by decide) 2
  obtain ⟨one, many, read, readAll⟩ := descriptor_exact
  exact ⟨spelled, one _ spelled, many _ _ spelled (by simpa using ⟨spelled, rfl⟩), (read _ _ rfl).2, (readAll _ _ _ rfl).2.2⟩

end JType

end ClassForge

import ClassForge.Proofs.Effect
import Mathlib.Tactic.SplitIfs

/-! Descriptors of well-formed types are read back, up to the spelling of class names. -/

namespace ClassForge

open List JType

def JType.NoVoidArray (t : JType) : Prop := t.base = .void → t.dims = 0

structure JType.WellFormed (t : JType) : Prop where
  noVoidArray : t.NoVoidArray
  className : ∀ name, t.base = .named name → name ≠ "" ∧ ';' ∉ name.toList

namespace JType

variable {ret t : JType} {params : List JType}

theorem wellFormed_ofPrim (p : Prim) : (ofPrim p).WellFormed := ⟨by rintro ⟨⟩, by rintro _ ⟨⟩⟩

theorem wellFormed_of_isPrimitive (h : t.isPrimitive = true) : t.WellFormed := by
  have prim : ∃ p, t.base = .prim p := by
    unfold isPrimitive kind at h
    split_ifs at h
    · cases base : t.base with
      | prim p => exact ⟨p, rfl⟩
      | void | named | self | null => simp [base, Kind.isPrimitive] at h
    · simp [Kind.isPrimitive] at h
  obtain ⟨p, base⟩ := prim
  exact ⟨by simp [NoVoidArray, base], by simp [base]⟩

theorem classPart_append (rest : List Char) (clean : ';' ∉ name) : classPart (name ++ ';' :: rest) = some (name, rest) := by
  induction name with
  | nil => rfl
  | cons c name ih =>
    simp only [mem_cons, not_or] at clean
    rw [cons_append, classPart.eq_3 _ _ (fun h => clean.1 h.symm), ih clean.2]
    rfl

/-- What the descriptor of a type is read back as: class names come back in internal form. -/
def reread (t : JType) : JType :=
  match t.base with
  | .named name => ⟨(ofClass name).base, t.dims⟩
  | _ => t

theorem words_reread (t : JType) : t.reread.words = t.words := by
  have named : ∀ name dims, (mk (ofClass name).base dims).words = (mk (.named name) dims).words := by
    intro name dims
    unfold words kind
    split
    · have base : (ofClass name).base = .self ∨ (ofClass name).base = .null ∨ ∃ n, (ofClass name).base = .named n := by
        unfold ofClass Base.ofName
        split_ifs <;> simp
      obtain form | form | ⟨n, form⟩ := base <;> simp [form]
    · rfl
  obtain ⟨base, dims⟩ := t
  cases base with
  | named name => exact named name dims
  | void | prim | self | null => rfl

theorem parseBase_descriptor (h : t.WellFormed) (rest : List Char) :
    parseBase t.dims (({ t with dims := 0 } : JType).descriptorChars ++ rest) = .ok (t.reread, rest) := by
  have named : ∀ (dims : UInt8) (name : String), name ≠ "" → ';' ∉ name.toList →
      parseBase dims ('L' :: name.toList ++ [';'] ++ rest) =
        .ok (⟨(ofClass name).base, dims⟩, rest) := by
    intro dims name full clean
    have part := classPart_append rest clean
    cases chars : name.toList with
    | nil => exact absurd (String.toList_eq_nil_iff.mp chars) full
    | cons c cs =>
      rw [chars] at part
      have whole : String.ofList (c :: cs) = name := by rw [← chars, String.ofList_toList]
      simp only [cons_append, append_assoc, nil_append] at part ⊢
      simp [parseBase, part, whole]
  obtain ⟨base, dims⟩ := t
  cases base with
  | void =>
    have flat : dims = 0 := h.noVoidArray rfl
    subst flat
    rfl
  | prim p => cases p <;> rfl
  | named name =>
    obtain ⟨full, clean⟩ := h.className name rfl
    exact named dims name full clean
  | self => exact named dims Base.selfName (by decide) (by decide)
  | null => exact named dims Base.nullName (by decide) (by decide)

theorem parseFrom_brackets (dims : UInt8) (n : Nat) (fits : dims.toNat + n ≤ 255) (rest : List Char) :
    parseFrom dims (List.replicate n '[' ++ rest) = parseFrom (dims + n.toUInt8) rest := by
  induction n generalizing dims with
  | zero => simp
  | succ n ih =>
    have notFull : dims ≠ 255 := by
      rintro rfl
      have full : (255 : UInt8).toNat = 255 := rfl
      omega
    have next : (dims + 1).toNat = dims.toNat + 1 := by
      simp
      omega
    rw [replicate_succ, cons_append, parseFrom.eq_1, if_neg notFull, ih (dims + 1) (by omega)]
    congr 1
    apply UInt8.toNat_inj.mp
    simp
    omega

theorem isVoid_iff (t : JType) : t.isVoid = true ↔ t.words = [] := by
  unfold isVoid words
  cases t.kind with
  | void | reference => decide
  | prim p => cases p <;> decide

theorem parseOne_descriptor (h : t.WellFormed) (rest : List Char) :
    parseOne (t.descriptorChars ++ rest) = .ok (t.reread, rest) := by
  have parsed := parseBase_descriptor h rest
  have split : t.descriptorChars =
      replicate t.dims.toNat '[' ++ ({ t with dims := 0 } : JType).descriptorChars := by
    simp [descriptorChars]
  have noBracket : parseFrom t.dims (({ t with dims := 0 } : JType).descriptorChars ++ rest) =
      parseBase t.dims (({ t with dims := 0 } : JType).descriptorChars ++ rest) := by
    obtain ⟨base, dims⟩ := t
    cases base with
    | prim p => cases p <;> rfl
    | void | named | self | null => rfl
  have few : (0 : UInt8).toNat + t.dims.toNat ≤ 255 := by
    have := t.dims.toNat_lt
    have : (0 : UInt8).toNat = 0 := rfl
    omega
  rw [parseOne, split, append_assoc, parseFrom_brackets 0 _ few]
  simpa [noBracket] using parsed

theorem parseChars_descriptor (h : t.WellFormed) : parseChars t.descriptorChars = .ok t.reread := by
  have parsed := parseOne_descriptor h []
  rw [append_nil] at parsed
  rw [parseChars, parsed]
  rfl

theorem descriptorChars_head (t : JType) : ∃ c cs, t.descriptorChars = c :: cs ∧ c ≠ ')' := by
  obtain ⟨base, dims⟩ := t
  unfold descriptorChars
  cases dims.toNat with
  | succ n => exact ⟨_, _, rfl, by decide⟩
  | zero =>
    cases base with
    | prim p => exact ⟨p.letter, [], rfl, by cases p <;> decide⟩
    | void | named | self | null => exact ⟨_, _, rfl, by decide⟩

theorem parseParams_descriptors (whole : String) (rest : List Char)
    (h : ∀ t ∈ params, t.WellFormed ∧ t.isVoid = false) (enough : params.length ≤ n) :
    parseParams whole n (params.flatMap descriptorChars ++ ')' :: rest) = .ok (params.map reread, rest) := by
  induction params generalizing n with
  | nil => cases n <;> rfl
  | cons t params ih =>
    obtain ⟨wellFormed, notVoid⟩ := h t mem_cons_self
    obtain ⟨n, rfl⟩ : ∃ m, n = m + 1 := ⟨n - 1, by simp at enough; omega⟩
    have parsed := ih (fun u hu => h u (mem_cons_of_mem _ hu)) (Nat.le_of_succ_le_succ (by simpa using enough))
    have one := parseOne_descriptor wellFormed (params.flatMap descriptorChars ++ ')' :: rest)
    obtain ⟨c, cs, chars, noClose⟩ := t.descriptorChars_head
    have value : t.reread.isVoid = false := by
      rw [Bool.eq_false_iff, ne_eq, isVoid_iff, words_reread, ← isVoid_iff]
      simp [notVoid]
    rw [flatMap_cons, append_assoc]
    rw [chars] at one ⊢
    rw [cons_append, parseParams, ← cons_append, one]
    · simp [bind, Except.bind, parsed, value, pure, Except.pure]
    · rintro ⟨⟩
    · exact fun r h => noClose (cons.inj h).1

theorem parseMethodDescriptor_spelled (wellFormed : ret.WellFormed)
    (h : ∀ t ∈ params, t.WellFormed ∧ t.isVoid = false) :
    parseMethodDescriptor (methodDescriptor ret params) = .ok (ret.reread, params.map reread) := by
  have long : ∀ ts : List JType, ts.length ≤ (ts.flatMap descriptorChars).length := by
    intro ts
    induction ts with
    | nil => simp
    | cons t ts ih =>
      obtain ⟨c, cs, chars, _⟩ := t.descriptorChars_head
      rw [flatMap_cons, length_append, chars, length_cons, length_cons]
      omega
  have enough : params.length ≤ (params.flatMap descriptorChars ++ ')' :: ret.descriptorChars).length := by
    rw [length_append]
    exact Nat.le_trans (long params) (Nat.le_add_right _ _)
  have parsed := parseChars_descriptor wellFormed
  have parsedAll := parseParams_descriptors (methodDescriptor ret params) ret.descriptorChars h enough
  unfold parseMethodDescriptor
  have chars : (methodDescriptor ret params).toList =
      '(' :: (params.flatMap descriptorChars ++ ')' :: ret.descriptorChars) := by
    simp [methodDescriptor]
  rw [chars]
  simp only [parsedAll, parsed, bind, Except.bind, pure, Except.pure]

end JType

variable {ret t : JType}

/-- A type whose descriptor is read back as it is: class names are internal, and stand for nothing
else. -/
structure JType.Spelled (t : JType) : Prop where
  wellFormed : t.WellFormed
  internal : ∀ name, t.base = .named name → '.' ∉ name.toList ∧ Base.ofName name = .named name

theorem Text.slashed_eq_self (noDot : '.' ∉ s.toList) : slashed s = s := by
  have same : s.toList.map (fun c => if c == '.' then '/' else c) = s.toList := by
    have each : ∀ c ∈ s.toList, (if c == '.' then '/' else c) = c := by
      intro c member
      have other : c ≠ '.' := fun dot => noDot (dot ▸ member)
      simp [other]
    rw [map_congr_left each, map_id']
  rw [slashed, substitute, same, String.ofList_toList]

theorem JType.Spelled.reread_eq (h : t.Spelled) : t.reread = t := by
  obtain ⟨base, dims⟩ := t
  cases base with
  | named name =>
    obtain ⟨noDot, plain⟩ := h.internal name rfl
    rw [reread]
    simp [ofClass, Text.slashed_eq_self noDot, plain]
  | void | prim | self | null => rfl

theorem JType.Spelled.parseDescriptor_eq (h : t.Spelled) : parseDescriptor t.descriptor = .ok t := by
  rw [parseDescriptor, descriptor, String.toList_ofList, parseChars_descriptor h.wellFormed, h.reread_eq]

theorem JType.Spelled.parseMethodDescriptor_eq (h : ret.Spelled) (all : ∀ p ∈ params, p.Spelled ∧ p.isVoid = false) :
    parseMethodDescriptor (methodDescriptor ret params) = .ok (ret, params) := by
  have same : params.map reread = params := by
    rw [map_congr_left fun p hp => (all p hp).1.reread_eq, map_id']
  rw [parseMethodDescriptor_spelled h.wellFormed fun p hp => ⟨(all p hp).1.wellFormed, (all p hp).2⟩, h.reread_eq, same]

namespace Pool

variable {p : Pool} {ref : UInt16}

/-- An entry that was made with the descriptor of a well-formed type stands for its words. -/
theorem fieldWords?_of_descriptor? (h : t.WellFormed)
    (found : p.descriptor? ref = some t.descriptor) : p.fieldWords? ref = some t.words := by
  have whole : parseDescriptor t.descriptor = .ok t.reread := by
    simp [parseDescriptor, descriptor, parseChars_descriptor h]
  rw [fieldWords?, found, Option.map_some, whole]
  exact congrArg some t.words_reread

theorem callEffect?_of_descriptor? (wellFormed : ret.WellFormed) (h : ∀ t ∈ params, t.WellFormed ∧ t.isVoid = false)
    (found : p.descriptor? ref = some (methodDescriptor ret params)) :
    p.callEffect? ref = some ⟨params.reverse.flatMap words, ret.words⟩ := by
  have reversed : (params.map reread).reverse.flatMap words = params.reverse.flatMap words := by
    rw [← map_reverse, flatMap_map]
    exact congrArg (flatMap · _) (funext words_reread)
  rw [callEffect?, found, Option.map_some, parseMethodDescriptor_spelled wellFormed h]
  simp [reversed, words_reread]

end Pool

end ClassForge

import ClassForge.Proofs.Reading

/-! Texts in the class file: what is written is read back, without a zero byte and without a byte of
a four-byte form. Bytes that are no text are written with each of the invalid ones replaced. -/

namespace ClassForge

namespace Text

/-- The text that bytes stand for, with a replacement character for each at which no character
begins. -/
inductive Mended : List UInt8 → List Char → Prop
  | nil : Mended [] []
  | char : Mended rest cs → Mended (encodeChar c ++ rest) (c :: cs)
  | invalid : (∀ c, ¬ encodeChar c <+: b :: rest) → Mended rest cs → Mended (b :: rest) (replacement :: cs)

theorem decodeHead_invalid (h : ∀ c, ¬ encodeChar c <+: a :: rest) : decodeHead a rest = (replacement, 1) := by
  have size := a.toNat_lt
  -- a branch that gives a character would find its spelling in front
  have spelled : ∀ n more, Nat.isValidChar n → encodeChar (Char.ofNat n) ++ more ≠ a :: rest :=
    fun n more _ same => h _ ⟨more, same⟩
  have value : ∀ n, Nat.isValidChar n → (Char.ofNat n).toNat = n := fun n valid => by
    rw [Char.ofNat, dif_pos valid]
    rfl
  unfold decodeHead
  simp only [isContinuation, Bool.and_eq_true, Bool.not_eq_true', Bool.and_eq_false_iff, decide_eq_true_eq,
    decide_eq_false_iff_not, UInt8.lt_iff_toNat_lt, UInt8.le_iff_toNat_le, UInt8.reduceToNat]
  split
  next one =>
    have valid : a.toNat.isValidChar := .inl (by omega)
    exact absurd (by simp [encodeChar, value _ valid, one]) (spelled a.toNat rest valid)
  split
  · rfl
  next b more =>
    split
    next two =>
      have valid : (a.toNat % 32 * 64 + b.toNat % 64).isValidChar := .inl (by omega)
      refine absurd ?_ (spelled _ more valid)
      rw [encodeChar, value _ valid, if_neg (by omega), if_pos (by omega)]
      simp [← UInt8.toNat_inj]
      omega
    split
    · rfl
    next c more =>
      split
      next three =>
        have valid : (a.toNat % 16 * 4096 + b.toNat % 64 * 64 + c.toNat % 64).isValidChar := by
          unfold Nat.isValidChar
          omega
        refine absurd ?_ (spelled _ more valid)
        rw [encodeChar, value _ valid, if_neg (by omega), if_neg (by omega), if_pos (by omega)]
        simp [← UInt8.toNat_inj]
        omega
      split
      · rfl
      next d more =>
        split
        next four =>
          have valid : (a.toNat % 8 * 262144 + b.toNat % 64 * 4096 + c.toNat % 64 * 64 + d.toNat % 64).isValidChar := by
            unfold Nat.isValidChar
            omega
          refine absurd ?_ (spelled _ more valid)
          rw [encodeChar, value _ valid, if_neg (by omega), if_neg (by omega), if_neg (by omega)]
          simp [← UInt8.toNat_inj]
          omega
        · rfl

theorem Mended.unique (h : Mended bytes cs) : decodeUtf8 bytes = cs := by
  induction h with
  | nil => rfl
  | char _ ih => rw [decodeUtf8_char, ih]
  | invalid none _ ih =>
    rw [decodeUtf8, decodeFrom, decodeHead_invalid none]
    exact congrArg (replacement :: ·) ih

theorem mended (bytes : List UInt8) : Mended bytes (decodeUtf8 bytes) := by
  suffices ∃ cs, Mended bytes cs from this.elim fun cs h => h.unique ▸ h
  induction size : bytes.length using Nat.strong_induction_on generalizing bytes with
  | _ n ih =>
    cases bytes with
    | nil => exact ⟨[], .nil⟩
    | cons b rest =>
      by_cases begins : ∃ c, encodeChar c <+: b :: rest
      · obtain ⟨c, more, parts⟩ := begins
        obtain ⟨a, tail, spelled, -⟩ := decodeHead_encodeChar c more
        have shorter := congrArg List.length parts
        simp only [spelled, List.length_append, List.length_cons] at shorter size
        obtain ⟨cs, h⟩ := ih more.length (by omega) more rfl
        exact ⟨c :: cs, parts ▸ h.char⟩
      · obtain ⟨cs, h⟩ := ih rest.length (by simp [← size]) rest rfl
        exact ⟨_, .invalid (not_exists.mp begins) h⟩

end Text

theorem ModifiedUtf8.encodeChar_range (c : Char) : ∀ b ∈ encodeChar c, b ≠ 0 ∧ b < 0xf0 := by
  have valid := Text.scalar c
  unfold encodeChar three
  dsimp only
  split_ifs <;> simp [← UInt8.toNat_inj, UInt8.lt_iff_toNat_lt] <;> omega

theorem ModifiedUtf8.encode_round_trip :
    (∀ s : String, decode (encode s) = s ∧ ∀ b ∈ encode s, b ≠ 0 ∧ b < 0xf0) ∧
    (∀ s t : String, encode s = encode t → s = t) ∧
    ∀ bytes : List UInt8, ∃ s : String, Text.Mended bytes s.toList ∧ (∀ cs, Text.Mended bytes cs → cs = s.toList) ∧
      encodeChars (Text.decodeUtf8 bytes) = encode s := by
  refine ⟨fun s => ⟨decode_encode s, ?_⟩, fun s t same => ?_, fun bytes => ?_⟩
  · intro b hb
    obtain ⟨c, -, hc⟩ := List.mem_flatMap.mp hb
    exact encodeChar_range c b hc
  · rw [← decode_encode s, same, decode_encode]
  · refine ⟨.ofList (Text.decodeUtf8 bytes), ?_⟩
    rw [encode, String.toList_ofList]
    exact ⟨Text.mended bytes, fun cs h => h.unique.symm, rfl⟩

end ClassForge

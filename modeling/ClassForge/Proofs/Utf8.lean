import ClassForge.Text.Utf8
import Mathlib.Tactic.SplitIfs

/-! Texts are read back from their UTF-8 bytes. -/

namespace ClassForge.Text

theorem toNat_toUInt8 (small : n < 256) : n.toUInt8.toNat = n := by
  simp [Nat.mod_eq_of_lt small]

theorem scalar (c : Char) : c.toNat < 0xd800 ∨ 0xdfff < c.toNat ∧ c.toNat < 0x110000 := c.valid

theorem decodeHead_encodeChar (c : Char) (rest : List UInt8) :
    ∃ a tail, encodeChar c = a :: tail ∧ decodeHead a (tail ++ rest) = (c, tail.length + 1) := by
  have valid := scalar c
  have spelled : ∀ n, n = c.toNat → Char.ofNat n = c := fun n same => same ▸ c.ofNat_toNat
  unfold encodeChar
  dsimp only
  -- each length is read in the branch of its lead byte, where the value is put together again
  split_ifs with one two three
  all_goals
    refine ⟨_, _, rfl, ?_⟩
    unfold decodeHead
    simp (disch := omega) only [List.cons_append, List.nil_append, isContinuation, Bool.and_eq_true, Bool.not_eq_true',
      Bool.and_eq_false_iff, decide_eq_true_eq, decide_eq_false_iff_not, UInt8.lt_iff_toNat_lt, UInt8.le_iff_toNat_le,
      UInt8.reduceToNat, toNat_toUInt8, if_pos, if_neg]
    exact congrArg (·, _) (spelled _ (by omega))

theorem decodeFrom_skip (tail rest : List UInt8) : decodeFrom tail.length (tail ++ rest) = decodeFrom 0 rest := by
  induction tail with
  | nil => rfl
  | cons b tail ih => exact ih

theorem decodeUtf8_char (c : Char) (rest : List UInt8) : decodeUtf8 (encodeChar c ++ rest) = c :: decodeUtf8 rest := by
  obtain ⟨a, tail, bytes, head⟩ := decodeHead_encodeChar c rest
  rw [decodeUtf8, bytes, List.cons_append, decodeFrom, head]
  exact congrArg (c :: ·) (decodeFrom_skip tail rest)

theorem decodeUtf8_encodeUtf8 (s : String) : decodeUtf8 (encodeUtf8 s) = s.toList := by
  unfold encodeUtf8
  induction s.toList with
  | nil => rfl
  | cons c cs ih => rw [List.flatMap_cons, decodeUtf8_char, ih]

end ClassForge.Text

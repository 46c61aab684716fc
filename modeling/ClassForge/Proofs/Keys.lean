import ClassForge.Build.Request
import ClassForge.Proofs.Duplicates
import ClassForge.Proofs.Utf8
import Std.Data.String.ToInt

/-! Builds with one cache key are the same: what is digested tells the recipe and every setting
apart. -/

namespace ClassForge

open Digest List Text

theorem Text.equals_not_mem_repr (n : Int) : '=' ∉ n.repr.toList := by
  have clean := fun n => not_mem_toString (c := '=') n rfl
  rw [Int.repr_eq_if]
  split
  · exact clean _
  · rw [String.toList_append, mem_append, not_or]
    exact ⟨by decide, clean _⟩

theorem Text.encodeUtf8_inj (same : encodeUtf8 s = encodeUtf8 t) : s = t := by
  rw [← String.toList_inj, ← decodeUtf8_encodeUtf8, same, decodeUtf8_encodeUtf8]

namespace Digest

theorem framed_append (hp : p.length < 0x10000000000000000) (hq : q.length < 0x10000000000000000)
    (same : framed p ++ s = framed q ++ t) : p = q ∧ s = t := by
  unfold framed at same
  rw [append_assoc, append_assoc] at same
  obtain ⟨sizes, same⟩ := append_inj same (by simp)
  refine append_inj same ?_
  simp [range_succ, Nat.shiftRight_eq_div_pow, ← UInt8.toNat_inj] at sizes
  omega

theorem message_inj (hp : ∀ p ∈ ps, p.length < 0x10000000000000000) (hq : ∀ q ∈ qs, q.length < 0x10000000000000000)
    (same : message ps = message qs) : ps = qs := by
  induction ps generalizing qs with
  | nil =>
    cases qs with
    | nil => rfl
    | cons q qs => cases same
  | cons p ps ih =>
    cases qs with
    | nil => cases same
    | cons q qs =>
      obtain ⟨rfl, others⟩ := framed_append (hp p (by simp)) (hq q (by simp)) same
      rw [ih (fun p h => hp p (by simp [h])) (fun q h => hq q (by simp [h])) others]

end Digest

namespace Build

theorem Request.not_mem_truth (b : Bool) (other : c = ' ' ∨ c = '=') : c ∉ (truth b).toList := by
  cases b <;> obtain rfl | rfl := other <;> decide

theorem Request.truth_inj (same : truth a = truth b) : a = b := by
  revert a b
  decide

theorem Request.settings_inj {q r : Request} (same : q.settings = r.settings) :
    q.options = r.options ∧ q.render = r.render ∧ q.salt = r.salt := by
  obtain ⟨line, salt⟩ := cons.inj same
  have parts := congrArg String.toList line
  simp only [String.toList_append, append_assoc] at parts
  obtain ⟨major, parts⟩ := cut_at rfl (not_mem_toString _ rfl) (not_mem_toString _ rfl)
    (append_cancel_left parts)
  obtain ⟨minor, parts⟩ := cut_at rfl (not_mem_toString _ rfl) (not_mem_toString _ rfl) parts
  obtain ⟨debug, parts⟩ := cut_at rfl (not_mem_truth _ (.inl rfl)) (not_mem_truth _ (.inl rfl)) parts
  -- the name of the source may hold anything, so what stands behind it is cut off from the end
  have parts := congrArg reverse parts
  simp only [reverse_append, append_assoc] at parts
  obtain ⟨render, parts⟩ := cut_at (c := '=') rfl (by simp [not_mem_truth]) (by simp [not_mem_truth]) parts
  obtain ⟨locals, source⟩ := cut_at (c := '=') rfl (by simp [equals_not_mem_repr])
    (by simp [equals_not_mem_repr]) parts
  simp only [reverse_inj, String.toList_inj] at major minor debug render locals source
  have majors := UInt16.toNat_inj.mp (Nat.repr_inj.mp major)
  have minors := UInt16.toNat_inj.mp (Nat.repr_inj.mp minor)
  have locals := Int.repr_inj.mp locals
  refine ⟨?_, truth_inj render, (cons.inj salt).1⟩
  have debug := truth_inj debug
  cases left : q.options
  cases right : r.options
  simp_all

/-- The messages behind two keys. Builds that share a key are the same, or the two messages collide. -/
theorem keys_separate :
    (∀ ps qs : List (List UInt8), (∀ p ∈ ps ++ qs, p.length < 0x10000000000000000) →
      message ps = message qs → ps = qs) ∧
    (∀ q r : Request, q.settings = r.settings → q.options = r.options ∧ q.render = r.render ∧ q.salt = r.salt) ∧
    ∀ (data other : List UInt8) (q r : Request),
      let m := data :: q.settings.map encodeUtf8
      let n := other :: r.settings.map encodeUtf8
      (∀ p ∈ m ++ n, p.length < 0x10000000000000000) →
      (sha256 (message m) = sha256 (message n) → message m = message n) →
      Cache.key data q.settings = Cache.key other r.settings →
      data = other ∧ q.options = r.options ∧ q.render = r.render ∧ q.salt = r.salt := by
  have parts : ∀ ps qs : List (List UInt8), (∀ p ∈ ps ++ qs, p.length < 0x10000000000000000) →
      message ps = message qs → ps = qs := fun ps qs small =>
    message_inj (fun p h => small p (by simp [h])) (fun q h => small q (by simp [h]))
  refine ⟨parts, fun q r => Request.settings_inj, fun data other q r small apart same => ?_⟩
  obtain ⟨same, settings⟩ := cons.inj (parts _ _ small (apart same))
  exact ⟨same, Request.settings_inj ((map_inj_right fun _ _ => encodeUtf8_inj).mp settings)⟩

theorem keys_separate_salts : message [[1, 2], [3]] ≠ message [[1], [2, 3]] ∧
    ({ recipes := [], salt := "a" } : Request).settings ≠ ({ recipes := [], salt := "b" } : Request).settings :=
  ⟨fun same => absurd (keys_separate.1 _ _ (by decide) same) (by decide),
    fun same => absurd (keys_separate.2.1 _ _ same).2.2 (by decide)⟩

end Build

end ClassForge

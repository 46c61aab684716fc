import ClassForge.Diagnostic.Bag
import Mathlib.Data.List.Nodup

/-! Reports are told apart by a line of text: the first of each is kept. Where no part before the
message holds a colon, the same line means the same report. -/

namespace ClassForge

theorem Text.cut_at {sep : List Char} (first : sep.head? = some c) (hx : c ∉ xs) (hy : c ∉ ys)
    (same : xs ++ (sep ++ s) = ys ++ (sep ++ t)) : xs = ys ∧ s = t := by
  obtain ⟨rest, rfl⟩ := List.head?_eq_some_iff.mp first
  have cut {zs : List Char} (u : List Char) (clean : c ∉ zs) : (zs ++ (c :: rest ++ u)).takeWhile (· ≠ c) = zs := by
    rw [List.takeWhile_append_of_pos (by simpa using fun (d : Char) hd (h : d = c) => clean (h ▸ hd))]
    simp
  obtain rfl : xs = ys := (cut s hx).symm.trans ((congrArg _ same).trans (cut t hy))
  exact ⟨rfl, List.append_cancel_left (List.append_cancel_left same)⟩

theorem Text.not_mem_toString (n : Nat) (other : c.isDigit = false) : c ∉ (toString n).toList := by
  rw [Nat.toString_eq_ofList_toDigits, String.toList_ofList]
  intro member
  rw [Nat.isDigit_of_mem_toDigits (by decide : 0 < 10) (by decide) member] at other
  cases other

namespace Diagnostic

namespace Report

variable {a b c : Report}

/-- The source and the place do not hold the character that ends them. -/
def Plain (d : Report) : Prop := ':' ∉ d.source.toList ∧ ':' ∉ d.place.toList

theorem key_inj (plain : a.Plain) (plain' : b.Plain) (same : a.key = b.key) : a = b := by
  have parts := congrArg String.toList same
  simp only [key, String.toList_append, List.append_assoc] at parts
  obtain ⟨number, parts⟩ := Text.cut_at rfl (Text.not_mem_toString _ rfl) (Text.not_mem_toString _ rfl) parts
  obtain ⟨source, parts⟩ := Text.cut_at rfl plain.1 plain'.1 parts
  obtain ⟨place, message⟩ := Text.cut_at rfl plain.2 plain'.2 parts
  have number := congrArg (Nat.ofDigitChars 10 · 0) number
  simp only [Nat.toString_eq_ofList_toDigits, String.toList_ofList, Nat.ofDigitChars_ten_toDigits, UInt16.toNat_inj] at number
  rw [String.toList_inj] at source place message
  obtain ⟨⟨_⟩, _, _, _⟩ := a
  simp_all

theorem le_total (a b : Report) : (a.le b || b.le a) = true := by
  unfold le
  grind

theorem le_trans (first : a.le b = true) (second : b.le c = true) : a.le c = true := by
  unfold le at *
  grind

end Report

namespace Bag

variable {seen : List String} {ds : List Report}

theorem unseen_sublist (seen : List String) (ds : List Report) : (unseen seen ds).Sublist ds := by
  fun_induction unseen seen ds with
  | case1 => exact .slnil
  | case2 _ d _ _ ih => exact ih.cons d
  | case3 _ d _ _ ih => exact ih.cons_cons d

theorem unseen_eq (plain : ∀ d ∈ ds, d.Plain) : unseen seen ds = (ds.filter fun d => !seen.contains d.key).eraseDups := by
  fun_induction unseen seen ds with
  | case1 => rfl
  | case2 seen d ds old ih =>
    rw [ih fun e member => plain e (List.mem_cons_of_mem _ member), List.filter_cons_of_neg (by simpa using old)]
  | case3 seen d ds new ih =>
    have others : ∀ e ∈ ds, e.Plain := fun e member => plain e (List.mem_cons_of_mem _ member)
    rw [ih others, List.filter_cons_of_pos (by simpa using new), List.eraseDups_cons, List.filter_filter]
    congr 2
    refine List.filter_congr fun e member => ?_
    have same : e.key = d.key ↔ e = d := ⟨Report.key_inj (others e member) (plain d List.mem_cons_self), congrArg Report.key⟩
    simp [same, beq_eq_decide]

theorem unseen_nodup (seen : List String) (ds : List Report) : (unseen seen ds).Nodup ∧ ∀ d ∈ unseen seen ds, d.key ∉ seen := by
  fun_induction unseen seen ds with
  | case1 => simp
  | case2 _ _ _ _ ih => exact ih
  | case3 seen d ds new ih =>
    exact ⟨List.nodup_cons.mpr ⟨fun again => ih.2 d again List.mem_cons_self, ih.1⟩, by grind⟩

/-- Where sources and places have no colon, the first of each report stays, and sorting before
leaves each once, in order. -/
theorem dedup_eq_eraseDups (b : Bag) (plain : ∀ d ∈ b.items, d.Plain) :
    b.dedup.items = b.items.eraseDups ∧ b.sort.dedup.items.Nodup ∧
      b.sort.dedup.items.Pairwise (fun x y => x.le y) ∧ ∀ d, d ∈ b.sort.dedup.items ↔ d ∈ b.items := by
  have first {c : Bag} (plain : ∀ d ∈ c.items, d.Plain) : c.dedup.items = c.items.eraseDups :=
    (@unseen_eq [] c.items plain).trans (by simp)
  have sorted : b.sort.items.Pairwise (fun x y => x.le y) :=
    List.pairwise_mergeSort (fun a b c => @Report.le_trans a b c) Report.le_total b.items
  have same : ∀ d, d ∈ b.sort.items ↔ d ∈ b.items := fun d => List.mem_mergeSort
  refine ⟨first plain, (unseen_nodup [] _).1, sorted.sublist (unseen_sublist [] _), fun d => ?_⟩
  rw [first fun d member => plain d ((same d).mp member), List.mem_eraseDups, same]

theorem dedup_eq_eraseDups_thrice :
    let d : Report := ⟨.invalidRecipe, "class A declared twice", "b.toml", "demo/A"⟩
    let e : Report := ⟨.unknown, "at 12:30: no space", "a.toml", ""⟩
    (Bag.mk 10 [d, e, d]).dedup.items = [d, e] ∧ (Bag.mk 10 [d, e, d]).sort.dedup.items.Nodup := by
  intro d e
  have plain : ∀ x ∈ [d, e, d], x.Plain := by simp [Report.Plain, d, e]
  obtain ⟨first, nodup, -⟩ := dedup_eq_eraseDups (Bag.mk 10 [d, e, d]) plain
  exact ⟨first.trans rfl, nodup⟩

/-- With a colon in a source or place, one of two reports that differ is dropped. -/
theorem dedup_drops_other :
    let d : Report := ⟨.invalidRecipe, "no value", "a.toml", "demo/A:run"⟩
    let e : Report := ⟨.invalidRecipe, "no value", "a.toml:demo/A", "run"⟩
    d ≠ e ∧ (Bag.mk 10 [d, e]).dedup.items = [d] := by
  intro d e
  exact ⟨by simp [d, e], by decide_cbv⟩

end Bag

end Diagnostic

end ClassForge

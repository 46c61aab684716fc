import ClassForge.Proofs.Packing

namespace ClassForge

open List

/-! Records: keys that are there, and parts that are left out where they are empty. -/

section Lookup

variable {κ α : Type} [BEq κ] [LawfulBEq κ] [DecidableEq κ]

theorem lookup_present (key name : κ) (x : α) (rest : List (κ × α)) :
    ((name, x) :: rest).lookup key = if key = name then some x else rest.lookup key := by
  by_cases same : key = name
  · simp [same]
  · have differs : (key == name) = false := by simp [same]
    simp [same, lookup_cons, differs]

theorem lookup_optional (key name : κ) (x : α) (absent : Prop) [Decidable absent] (rest : List (κ × α)) :
    ((if absent then [] else [(name, x)]) ++ rest).lookup key =
      if key = name ∧ ¬ absent then some x else rest.lookup key := by
  by_cases gone : absent
  · simp [gone]
  · simp [gone, lookup_present]

theorem lookup_last (key name : κ) (x : α) (absent : Prop) [Decidable absent] :
    (if absent then [] else [(name, x)]).lookup key = if key = name ∧ ¬ absent then some x else none := by
  have alone := lookup_optional key name x absent []
  rwa [append_nil] at alone

theorem reverse_optional (x : α) (absent : Prop) [Decidable absent] :
    (if absent then [] else [x]).reverse = if absent then [] else [x] := by
  split <;> rfl

theorem mem_optional [Decidable absent] (member : y ∈ if absent then [] else [x]) : y = x := by
  split at member
  · exact absurd member not_mem_nil
  · exact mem_singleton.mp member

theorem getD_optional (x other : α) (absent : Prop) [Decidable absent] :
    (if absent then none else some x).getD other = if absent then other else x := by
  split <;> rfl

theorem mapM_eq_pure [Monad m] [LawfulMonad m] {f : α → β} {g : β → m α} {xs : List α}
    (h : ∀ x ∈ xs, g (f x) = pure x) : (xs.map f).mapM g = pure xs := by
  induction xs with
  | nil => rfl
  | cons x xs ih =>
    rw [map_cons, mapM_cons, h x mem_cons_self, ih fun y hy => h y (mem_cons_of_mem _ hy)]
    simp

end Lookup

namespace MessagePack.Item

theorem toText_text (s : String) : toText (text s) = some s := by
  simp [toText, text, Text.decodeUtf8_encodeUtf8]

theorem record_named (fields : List String) (kvs : List (String × Item)) :
    record fields (.map (kvs.map fun p => (text p.1, p.2))) =
      some (fields.map fun f => (kvs.reverse.lookup f).getD .nil) := by
  have read : (kvs.map fun p => (text p.1, p.2)).mapM (fun (p : Item × Item) => do pure (← toText p.1, p.2)) = some kvs := by
    induction kvs with
    | nil => rfl
    | cons p kvs ih =>
      rw [map_cons, mapM_cons, ih]
      simp [toText_text]
  rw [record]
  simp only [read]
  rfl

theorem toText_optional (s : String) : (if s = "" then nil else text s).toText = some s := by
  split
  next none =>
    rw [none]
    rfl
  next => exact toText_text s

theorem toList_optional (f : α → Item) (xs : List α) :
    (if xs.isEmpty then nil else array (xs.map f)).toList = some (xs.map f) := by
  cases xs <;> rfl

theorem fits_named {kvs : List (String × Item)} (few : kvs.length < 4294967296)
    (h : ∀ p ∈ kvs, (Text.encodeUtf8 p.1).length < 4294967296 ∧ p.2.Fits) :
    (map (kvs.map fun p => (text p.1, p.2))).Fits := by
  refine ⟨by rwa [length_map], pairsFit_iff.mpr ?_⟩
  intro q member
  obtain ⟨p, inside, rfl⟩ := mem_map.mp member
  exact h p inside

theorem fits_array {f : α → Item} {xs : List α} (few : xs.length < 4294967296)
    (h : ∀ x ∈ xs, (f x).Fits) : (array (xs.map f)).Fits := by
  refine ⟨by rwa [length_map], allFit_iff.mpr ?_⟩
  intro y member
  obtain ⟨x, inside, rfl⟩ := mem_map.mp member
  exact h x inside

end MessagePack.Item

end ClassForge

import ClassForge.Files.Disk
import ClassForge.Proofs.Records
import Mathlib.Data.List.Infix

/-! What files a disk holds, and what writing to it changes. -/

namespace ClassForge.Files

open Tree

namespace Tree

variable {t new : Tree} {ns m : List String}

/-- The bytes of the file at a place, if there is one. -/
def file? (t : Tree) (ns : List String) : Option (List UInt8) :=
  match t.find ns with
  | .ok (.file data) => some data
  | _ => none

theorem find_append (t : Tree) (ns m : List String) : t.find (ns ++ m) = t.find ns >>= fun t => t.find m := by
  induction ns generalizing t with
  | nil => cases t <;> rfl
  | cons n ns ih =>
    cases t with
    | file => rfl
    | directory es =>
      rw [List.cons_append, find, find]
      cases es.lookup n with
      | none => rfl
      | some u => exact ih u

/-- Below a place where no directory is, there is no file. -/
theorem file?_below (vacant : ∀ es, t.find ns ≠ .ok (.directory es)) (below : ns <+: m) (other : m ≠ ns) :
    t.file? m = none := by
  obtain ⟨k, rfl⟩ := below
  obtain ⟨n, k, rfl⟩ := List.exists_cons_of_ne_nil (show k ≠ [] by simpa using other)
  rw [file?, find_append]
  rcases found : t.find ns with e | data | es
  · rfl
  · rfl
  · exact absurd found (vacant es)

theorem lookup_setEntry (name n : String) (t : Tree) (es : List (String × Tree)) :
    (setEntry name t es).lookup n = if n = name then some t else es.lookup n := by
  induction es with
  | nil => exact lookup_present n name t []
  | cons e es ih =>
    obtain ⟨m, u⟩ := e
    rw [setEntry, apply_ite (List.lookup n), apply_ite (List.lookup n)]
    simp only [lookup_present, ih]
    by_cases same : name = m
    · subst same
      by_cases here : n = name <;> simp [here]
    · by_cases here : n = m
      · simp [here, same, Ne.symm same]
      · simp [same, here]

theorem file?_cons (es : List (String × Tree)) (n : String) (m : List String) :
    file? (.directory es) (n :: m) = ((es.lookup n).getD (.directory [])).file? m := by
  rw [file?, find]
  cases es.lookup n with
  | none => cases m <;> rfl
  | some u => rfl

/-- What is put where no file stands in the way hides what was there, and all else stays. -/
theorem file?_put (clear : t.find ns ≠ .error .notDirectory) (m : List String) :
    (put new ns t).file? m = if ns <+: m then new.file? (m.drop ns.length) else t.file? m := by
  induction ns generalizing t m with
  | nil => simp [put]
  | cons n ns ih =>
    cases t with
    | file => exact absurd rfl clear
    | directory es =>
      have inner : ((es.lookup n).getD (.directory [])).find ns ≠ .error .notDirectory := by
        rw [find] at clear
        cases found : es.lookup n with
        | none => cases ns <;> simp [find]
        | some u => rwa [found] at clear
      cases m with
      | nil => simp [put, file?, find]
      | cons x m =>
        rw [put, file?_cons, lookup_setEntry, file?_cons]
        by_cases same : x = n
        · subst same
          simpa using ih inner m
        · simp [same, Ne.symm same]

end Tree

namespace Disk

variable {d d' e : Disk} {p : Path} {ns here ps : List String} {data : List UInt8}

/-- The place that a path names. -/
def spot (d : Disk) (p : Path) : List String :=
  Path.reduce true [] (Path.parts (if p.isAbsolute then p else d.working ++ "/" ++ p))

/-- Files are written one after the other: at each place is the last that was written there, or what
was there before. -/
structure Written (ws : List (Path × List UInt8)) (d d' : Disk) : Prop where
  working : d'.working = d.working
  files : ∀ ns, d'.root.file? ns =
    ((ws.reverse.find? fun w => d.spot w.1 = ns).map (·.2)).or (d.root.file? ns)

theorem Written.refl (d : Disk) : Written [] d d := ⟨rfl, fun _ => rfl⟩

theorem Written.trans (first : Written ws d d') (next : Written ws' d' e) : Written (ws ++ ws') d e := by
  refine ⟨next.working.trans first.working, fun ns => ?_⟩
  have same (p : Path) : d'.spot p = d.spot p := by rw [spot, spot, first.working]
  rw [next.files, first.files, List.reverse_append, List.find?_append]
  simp only [same]
  cases ws'.reverse.find? fun w => decide (d.spot w.1 = ns) <;> rfl

/-- A walk ends where the parts of the path lead, and no file stands in its way. -/
theorem of_walk (run : walk t here ps = .ok out) (up : ".." ∉ here) (clear : t.find here.reverse ≠ .error .notDirectory) :
    Path.reduce true here ps = out.reverse ∧ t.find out.reverse ≠ .error .notDirectory := by
  induction ps generalizing here with
  | nil =>
    cases run
    exact ⟨by simp [Path.reduce], clear⟩
  | cons p ps ih =>
    rw [walk] at run
    split at run
    · cases run
    · cases run
    rename_i es found
    split_ifs at run with stay back
    · obtain rfl | rfl := stay
      · simpa [Path.reduce] using ih run up clear
      · simpa [Path.reduce] using ih run up clear
    · subst back
      cases here with
      | nil => simpa [Path.reduce] using ih run up clear
      | cons n here =>
        rw [List.mem_cons, not_or] at up
        have above : t.find here.reverse ≠ .error .notDirectory := by
          intro blocked
          rw [List.reverse_cons, find_append, blocked] at found
          cases found
        simpa [Path.reduce, Ne.symm up.1] using ih run up.2 above
    · have below : t.find (p :: here).reverse ≠ .error .notDirectory := by
        rw [List.reverse_cons, find_append, found]
        simp only [bind, Except.bind, find]
        cases es.lookup p <;> simp
      have next := ih run (by simp [up, Ne.symm back]) below
      rw [not_or] at stay
      cases here <;> simpa [Path.reduce, stay, back] using next

theorem of_place (h : d.place p = .ok ns) : ns = d.spot p ∧ d.root.find ns ≠ .error .notDirectory := by
  by_cases none : p = ""
  · simp [place, none] at h
  rw [place, if_neg none] at h
  rcases run : walk d.root [] (Path.parts (if p.isAbsolute then p else d.working ++ "/" ++ p)) with _ | out
  · rw [run] at h
    cases h
  · rw [run] at h
    cases h
    obtain ⟨same, clear⟩ := of_walk run List.not_mem_nil (by simp [find])
    exact ⟨same.symm, clear⟩

theorem of_write (h : d.write p data = .ok d') : Written [(p, data)] d d' := by
  unfold write at h
  split at h
  · cases h
  rename_i ns placed
  obtain ⟨rfl, clear⟩ := of_place placed
  split at h
  · cases h
  rename_i vacant
  cases h
  refine ⟨rfl, fun m => ?_⟩
  rw [file?_put clear]
  by_cases here : d.spot p = m
  · subst here
    simp [file?, find]
  · by_cases below : d.spot p <+: m
    · have gone := file?_below (fun es found => vacant es found) below (Ne.symm here)
      have inside : (file data).file? (m.drop (d.spot p).length) = none := by
        obtain ⟨k, rfl⟩ := below
        obtain ⟨n, k, rfl⟩ := List.exists_cons_of_ne_nil (show k ≠ [] by simpa using here)
        simp [file?, find]
      simp [here, below, gone, inside]
    · simp [here, below]

theorem of_makeDirectory (h : d.makeDirectory p = .ok d') : Written [] d d' := by
  unfold makeDirectory at h
  split at h
  · cases h
  rename_i ns placed
  obtain ⟨-, clear⟩ := of_place placed
  split at h
  · split_ifs at h
    cases h
    exact .refl d
  rename_i e missing
  cases h
  refine ⟨rfl, fun m => ?_⟩
  rw [file?_put clear]
  split_ifs with below
  · obtain ⟨k, rfl⟩ := below
    rw [List.drop_left]
    have before : d.root.file? (ns ++ k) = none := by
      rw [file?, find_append, missing]
      rfl
    rw [before]
    cases k <;> rfl
  · rfl

theorem of_makeWithin (h : makeWithin depth p d = .ok d') : Written [] d d' := by
  induction depth generalizing p d d' with
  | zero => exact of_makeDirectory h
  | succ depth ih =>
    rw [makeWithin] at h
    split at h
    · cases h
      exact .refl d
    · cases h
    obtain ⟨e, above, made⟩ : ∃ e, (if p.above = "" then pure d else makeWithin depth p.above d) = Except.ok e ∧
        e.makeDirectory p = .ok d' := by
      revert h
      split_ifs
      · exact fun h => ⟨d, rfl, h⟩
      · cases makeWithin depth p.above d with
        | error => exact fun h => by cases h
        | ok e => exact fun h => ⟨e, rfl, h⟩
    split_ifs at above
    · cases above
      exact of_makeDirectory made
    · exact (ih above).trans (of_makeDirectory made)

end Disk

end ClassForge.Files

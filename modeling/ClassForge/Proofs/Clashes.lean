import ClassForge.Proofs.Disks
import ClassForge.Proofs.Schedules
import Mathlib.Data.List.Basic

namespace ClassForge.Build

open List

open Files (Path Disk)
open Diagnostic (Problem Report Bag)

/-! Outputs with the same class name. -/

variable {os : List Output} {a b o : Output}

def Shared (os : List Output) (name : String) : Prop := 1 < (os.map (·.className)).count name

instance (os : List Output) (name : String) : Decidable (Shared os name) := inferInstanceAs (Decidable (_ < _))

def Sole (os : List Output) (recipe : Path) : Prop := ∀ o ∈ os, o.recipe = recipe → ¬ Shared os o.className

instance (os : List Output) (recipe : Path) : Decidable (Sole os recipe) := inferInstanceAs (Decidable (∀ _ ∈ _, _))

theorem shared_cons (other : a.className ≠ name) : Shared (a :: os) name ↔ Shared os name := by
  rw [Shared, Shared, map_cons, count_cons_of_ne other]

theorem shared_cons_of_mem (member : o ∈ os) (same : a.className = o.className) : Shared (a :: os) o.className := by
  have one : 0 < (os.map (·.className)).count o.className := count_pos_iff.mpr (mem_map_of_mem member)
  rw [Shared, map_cons, same, count_cons_self]
  omega

theorem shared_of_mem_clashes (member : p ∈ clashes os) :
    p.1 ∈ os ∧ p.2 ∈ os ∧ p.1.className = p.2.className ∧ Shared os p.1.className := by
  fun_induction clashes os with
  | case1 a b rest same ih =>
    obtain rfl | inner := mem_cons.mp member
    · exact ⟨by simp, by simp, same, same ▸ shared_cons_of_mem mem_cons_self same⟩
    · obtain ⟨first, second, alike, shared⟩ := ih inner
      refine ⟨mem_cons_of_mem _ first, mem_cons_of_mem _ second, alike, ?_⟩
      exact Nat.lt_of_lt_of_le shared (count_le_count_cons)
  | case2 a b rest differ ih =>
    obtain ⟨first, second, alike, shared⟩ := ih member
    refine ⟨mem_cons_of_mem _ first, mem_cons_of_mem _ second, alike, ?_⟩
    exact Nat.lt_of_lt_of_le shared (count_le_count_cons)
  | case3 => exact absurd member not_mem_nil

theorem className_ne_of_sorted (differ : a.className ≠ b.className)
    (sorted : (a :: b :: os).Pairwise fun a b => a.className ≤ b.className) : ∀ o ∈ b :: os, a.className ≠ o.className := by
  rw [pairwise_cons, pairwise_cons] at sorted
  intro o member
  obtain rfl | inner := mem_cons.mp member
  · exact differ
  · intro same
    exact differ (String.le_antisymm (sorted.1 b mem_cons_self) (same ▸ sorted.2.1 o inner))

/-- Outputs ordered by their names: each that shares its name has a neighbour that does. -/
theorem exists_mem_clashes (sorted : os.Pairwise fun a b => a.className ≤ b.className)
    (member : o ∈ os) (shared : Shared os o.className) : ∃ p ∈ clashes os, o = p.1 ∨ o = p.2 := by
  fun_induction clashes os with
  | case1 a b rest same ih =>
    obtain rfl | behind := mem_cons.mp member
    · exact ⟨(o, b), mem_cons_self, .inl rfl⟩
    obtain rfl | inner := mem_cons.mp behind
    · exact ⟨(a, o), mem_cons_self, .inr rfl⟩
    have again : Shared (b :: rest) o.className := by
      by_cases third : b.className = o.className
      · exact shared_cons_of_mem inner third
      · exact (shared_cons (same ▸ third)).mp shared
    obtain ⟨p, neighbours, which⟩ := ih sorted.of_cons behind again
    exact ⟨p, mem_cons_of_mem _ neighbours, which⟩
  | case2 a b rest differ ih =>
    have others := className_ne_of_sorted differ sorted
    obtain rfl | behind := mem_cons.mp member
    · have one : 0 < ((b :: rest).map (·.className)).count o.className := by
        rw [Shared, map_cons, count_cons_self] at shared
        omega
      obtain ⟨x, inside, same⟩ := mem_map.mp (count_pos_iff.mp one)
      exact absurd same.symm (others x inside)
    · exact ih sorted.of_cons behind ((shared_cons (others o behind)).mp shared)
  | case3 os short =>
    have few : os.length ≤ 1 := by
      obtain _ | ⟨a, _ | ⟨b, rest⟩⟩ := os
      · exact Nat.zero_le 1
      · exact Nat.le_refl 1
      · exact (short a b rest rfl).elim
    have count : (os.map (·.className)).count o.className ≤ 1 :=
      Nat.le_trans count_le_length (by rwa [length_map])
    exact absurd shared (Nat.not_lt.mpr count)

def clashing (os : List Output) : List Path := (clashes os).flatMap fun p => [p.1.recipe, p.2.recipe]

theorem contains_clashing (sorted : os.Pairwise fun a b => a.className ≤ b.className) (recipe : Path) :
    (clashing os).contains recipe = !decide (Sole os recipe) := by
  rw [Bool.eq_iff_iff, contains_iff_mem, Bool.not_eq_true', decide_eq_false_iff_not, clashing, mem_flatMap]
  constructor
  · rintro ⟨p, member, which⟩ sole
    obtain ⟨first, second, same, shared⟩ := shared_of_mem_clashes member
    rw [mem_cons, mem_singleton] at which
    obtain rfl | rfl := which
    · exact sole p.1 first rfl shared
    · exact sole p.2 second rfl (same ▸ shared)
  · intro some
    simp only [Sole, not_forall, not_not] at some
    obtain ⟨o, member, rfl, shared⟩ := some
    obtain ⟨p, neighbours, rfl | rfl⟩ := exists_mem_clashes sorted member shared
    · exact ⟨p, neighbours, by simp⟩
    · exact ⟨p, neighbours, by simp⟩

theorem gather_sorted (fs : List Finished) : (gather fs).Pairwise fun a b => a.className ≤ b.className := by
  have sorted := @pairwise_mergeSort Output (fun a b => decide (a.className ≤ b.className))
    (fun a b c first second => by simp only [decide_eq_true_eq] at *; exact String.le_trans first second)
    (fun a b => by simpa using String.le_total a.className b.className)
    ((fs.mergeSort fun a b => a.place ≤ b.place).flatMap (·.outputs))
  exact sorted.imp fun h => by simpa using h

theorem gather_perm (fs : List Finished) : (gather fs).Perm (fs.flatMap (·.outputs)) :=
  (mergeSort_perm _ _).trans ((mergeSort_perm fs _).flatMap_right _)

def writeAll (dir : Path) : List Output → Disk → Option Disk
  | [], d => some d
  | o :: os, d => if (writeOutput dir o d).1.isSome then none else writeAll dir os (writeOutput dir o d).2

def placed (dir : Path) (o : Output) : Output := { o with path := classPath dir o.className ".class" }

/-- The files of an output: its class file, and its text where it has one. -/
def Output.files (dir : Path) (o : Output) : List (Path × List UInt8) :=
  (classPath dir o.className ".class", o.data) ::
    if o.rendered = "" then [] else [(classPath dir o.className ".jrender", Text.encodeUtf8 o.rendered)]

theorem of_writeOutput {d d' : Disk} (h : writeOutput dir o d = (none, d')) : d.Written (o.files dir) d' := by
  unfold writeOutput at h
  dsimp only at h
  split at h
  · cases h
  rename_i d1 made
  split at h
  · cases h
  rename_i d2 wrote
  have classFile := (Disk.of_makeWithin made).trans (Disk.of_write wrote)
  split_ifs at h with plain
  · cases h
    rw [Output.files, if_pos plain]
    exact classFile
  · split at h
    · cases h
    rename_i d3 text
    cases h
    rw [Output.files, if_neg plain]
    exact classFile.trans (Disk.of_write text)

theorem of_writeAll {d d' : Disk} (h : writeAll dir os d = some d') : d.Written (os.flatMap (·.files dir)) d' := by
  induction os generalizing d with
  | nil =>
    cases h
    exact .refl _
  | cons o os ih =>
    rw [writeAll] at h
    rcases once : writeOutput dir o d with ⟨_ | p, d1⟩
    · rw [once] at h
      exact (of_writeOutput once).trans (ih h)
    · rw [once] at h
      cases h

section

variable {q : Request} {o : Output} {os : List Output} {held : List Path} {s : Site} {d : Disk}

theorem writeEach_back (back : held.contains o.recipe = true) (rest : writeEach q os held s = ((done, held', ps), s')) :
    writeEach q (o :: os) held s = ((o :: done, held', ps), s') := by
  simp only [writeEach, back, if_true]
  exact bind_of_eq rest

theorem writeEach_written (free : held.contains o.recipe = false) (once : writeOutput q.output o s.disk = (none, d))
    (rest : writeEach q os held { s with disk := d } = ((done, held', ps), s')) :
    writeEach q (o :: os) held s = ((placed q.output o :: done, held', ps), s') := by
  simp only [writeEach, free, Bool.false_eq_true, if_false]
  refine (bind_apply _ _ s).trans ?_
  simp only [modifyGet, MonadStateOf.modifyGet, StateT.modifyGet, pure, once]
  exact bind_of_eq rest

end

/-- Where nothing fails, exactly the outputs of recipes that are not held back are written. -/
theorem writeEach_eq {q : Request} {held : List Path} (os : List Output) {s : Site} {d : Disk}
    (written : writeAll q.output (os.filter fun o => !held.contains o.recipe) s.disk = some d) :
    writeEach q os held s =
      ((os.map fun o => if held.contains o.recipe then o else placed q.output o, held, []), { s with disk := d }) := by
  induction os generalizing s with
  | nil =>
    obtain rfl : s.disk = d := Option.some.inj written
    rfl
  | cons o os ih =>
    cases back : held.contains o.recipe with
    | true =>
      rw [filter_cons_of_neg (by simp only [back, Bool.not_true, Bool.false_eq_true, not_false_eq_true])] at written
      rw [map_cons, if_pos back]
      exact writeEach_back back (ih written)
    | false =>
      rw [filter_cons_of_pos (by simp only [back, Bool.not_false]), writeAll] at written
      generalize once : writeOutput q.output o s.disk = out at written
      obtain ⟨p | p, d1⟩ := out
      · rw [map_cons, if_neg (by simp only [back, Bool.false_eq_true, not_false_eq_true])]
        exact writeEach_written back once (@ih { s with disk := d1 } written)
      · simp at written

theorem emptyBag_max (q : Request) : 0 < (emptyBag q).max := by
  rw [emptyBag]
  dsimp only
  split
  · decide
  · omega

theorem collect_items {b : Bag} (positive : 0 < b.max) (rs : List Report) (room : b.items.length ≤ b.max.toNat) :
    (collect b rs).items = (b.items ++ rs).take b.max.toNat := by
  induction rs generalizing b with
  | nil => rw [append_nil, take_of_length_le room]; rfl
  | cons r rs ih =>
    rw [collect, foldl_cons]
    by_cases full : b.isFull
    · have same : (b.add r).2 = b := by rw [Bag.add, if_pos full]
      have all : b.items.length = b.max.toNat := by
        simp only [Bag.isFull, Bool.and_eq_true, decide_eq_true_eq] at full
        omega
      rw [same, ← collect, ih positive room, ← all, take_left, take_left]
    · have more : (b.add r).2 = { b with items := b.items ++ [r] } := by rw [Bag.add, if_neg full]
      have space : (b.items ++ [r]).length ≤ b.max.toNat := by
        simp only [Bag.isFull, Bool.and_eq_true, decide_eq_true_eq] at full
        rw [length_append, length_singleton]
        omega
      rw [more, ← collect, @ih { b with items := b.items ++ [r] } positive space, append_assoc, singleton_append]

theorem collect_emptyBag (q : Request) (rs : List Report) :
    (collect (emptyBag q) rs).items = rs.take (emptyBag q).max.toNat :=
  collect_items (emptyBag_max q) rs (Nat.zero_le _)

theorem reports_left (q : Request) {rs : List Report} (some : rs ≠ []) :
    (collect (emptyBag q) rs).sort.dedup.items ≠ [] := by
  have positive := emptyBag_max q
  have first : (collect (emptyBag q) rs).items ≠ [] := by
    rw [collect_emptyBag, Ne, take_eq_nil_iff]
    simp only [some, or_false]
    omega
  have sorted : (collect (emptyBag q) rs).items.mergeSort Report.le ≠ [] := by
    intro none
    have same := mergeSort_perm (collect (emptyBag q) rs).items Report.le
    rw [none] at same
    exact first same.nil_eq.symm
  obtain ⟨r, rest, form⟩ := exists_cons_of_ne_nil sorted
  rw [Bag.dedup, Bag.sort]
  rw [form, Bag.unseen]
  simp

/-- The reports of a build: failed recipes, clashes, and outputs that cannot be written. -/
def reportsOf (fs : List Finished) (problems : List (Path × Problem)) : List Report :=
  (fs.filterMap fun f => f.problem?.map (Report.ofProblem f.path)) ++ (clashes (gather fs)).map (fun p => clash p.1 p.2) ++
    problems.map fun p => Report.ofProblem p.1 p.2

def writing (q : Request) (os : List Output) (held : List Path) :
    StateM Site (List Output × List Path × List (Path × Problem)) :=
  if q.dryRun then pure (os, held, []) else writeEach q os held

theorem finish_eq {fs : List Finished} {s s' : Site} {os : List Output} {held : List Path}
    {problems : List (Path × Problem)}
    (written : writing q (gather fs) (clashing (gather fs)) s = ((os, held, problems), s')) :
    finish q fs s = ({ outputs := os, bag := (collect (emptyBag q) (reportsOf fs problems)).sort.dedup },
      (conclude held fs).foldl Site.report (if q.dryRun then s' else s'.passed .write)) := by
  rw [writing] at written
  cases dry : q.dryRun with
  | true =>
    simp only [dry, if_true] at written
    simp only [finish, dry, if_true]
    refine (bind_of_eq written).trans ?_
    rfl
  | false =>
    simp only [dry] at written
    simp only [finish, dry]
    refine (bind_of_eq written).trans ?_
    rfl

theorem disk_foldl_report (es : List Event) (s : Site) : (es.foldl Site.report s).disk = s.disk := by
  induction es generalizing s with
  | nil => rfl
  | cons e es ih => exact ih (s.report e)

/-! Without a cache, building leaves the disk as it is. -/

def Task.Keyless : Task → Prop
  | .compile _ _ _ key | .serialize _ _ key _ _ | .keep _ _ key _ => key = none
  | _ => True

theorem fresh_keyless (closed : q.cache.isOpen = false) (h : load q path d = .ok (.fresh r key)) : key = none := by
  unfold load at h
  rw [closed] at h
  split at h
  · cases h
  · dsimp only [Bool.false_eq_true, if_false] at h
    split at h
    · cases h
    · split at h <;> cases h
      rfl

theorem during_eq {act : StateM Site (Except Problem α)}
    (ran : act (s.report ⟨path, stage, .working, none⟩) = (r, s')) :
    during stage path act s = (r.mapError (stage, ·), s'.passed stage) := by
  have lifted : (liftM act : Work _) (s.report ⟨path, stage, .working, none⟩) = (.ok r, s') := by
    change (Except.ok (act _).1, (act _).2) = _
    rw [ran]
  refine (Work.bind_of_ok rfl).trans ((Work.bind_of_ok lifted).trans ((Work.bind_of_ok rfl).trans ?_))
  cases r <;> rfl

theorem next_disk (closed : q.cache.isOpen = false) (t : Task) (keyless : t.Keyless) (s : Site) (parent path) :
    (t.next q parent path s).2.disk = s.disk ∧ (t.next q parent path s).1.Keyless := by
  cases t with
  | begin =>
    refine ⟨?_, trivial⟩
    change (openRecipe q parent path s).2.disk = _
    unfold openRecipe
    split <;> rfl
  | load span phase =>
    rcases loaded : load q path s.disk with e | cs | ⟨r, key⟩ <;>
      rw [show (Task.load span phase).next q parent path s = _ from
        bind_of_eq (during_eq (congrArg (·, s.report ⟨path, .load, .working, none⟩) loaded))]
    · exact ⟨rfl, trivial⟩
    · exact ⟨rfl, trivial⟩
    · exact ⟨rfl, fresh_keyless closed loaded⟩
  | compile span phase r key =>
    rcases ran : assemble q r span.id (s.report ⟨path, .compile, .working, none⟩) with ⟨made, s'⟩
    have same : s.disk = s'.disk := congrArg (·.2.disk) ran
    rw [show (Task.compile span phase r key).next q parent path s = _ from bind_of_eq (during_eq ran)]
    obtain _ | ⟨numbers, w⟩ := made
    · exact ⟨same.symm, trivial⟩
    · exact ⟨same.symm, keyless⟩
  | serialize span phase key numbers w =>
    rcases ran : serialize q path numbers w (s.report ⟨path, .serialize, .working, none⟩) with ⟨made, s'⟩
    have same : s.disk = s'.disk := congrArg (·.2.disk) ran
    rw [show (Task.serialize span phase key numbers w).next q parent path s = _ from bind_of_eq (during_eq ran)]
    obtain _ | os := made
    · exact ⟨same.symm, trivial⟩
    · exact ⟨same.symm, keyless⟩
  | keep span phase key os =>
    cases keyless
    exact ⟨rfl, trivial⟩
  | close span phase made =>
    refine ⟨?_, trivial⟩
    change (closeRecipe q span phase made s).2.disk = _
    unfold closeRecipe
    split <;> cases made <;> rfl
  | report made => exact ⟨rfl, trivial⟩

theorem steps_disk (closed : q.cache.isOpen = false) (steps : Steps q parent c c')
    (keyless : ∀ w ∈ c.workers, w.task.Keyless) :
    c'.site.disk = c.site.disk ∧ ∀ w ∈ c'.workers, w.task.Keyless := by
  induction steps with
  | refl => exact ⟨rfl, keyless⟩
  | tail _ step ih =>
    obtain ⟨disk, keyless⟩ := ih
    cases step with
    | work before after w s fs =>
      obtain ⟨same, next⟩ := next_disk closed w.task (keyless w (by simp)) s parent w.path
      refine ⟨same.trans disk, fun v member => ?_⟩
      obtain first | rfl | last := by simpa using member
      · exact keyless v (by simp [first])
      · exact next
      · exact keyless v (by simp [last])
    | report before after place path made s fs =>
      refine ⟨Eq.trans ?_ disk, fun v member => keyless v ?_⟩
      · cases made <;> rfl
      · obtain first | last := by simpa using member
        · simp [first]
        · simp [last]

/-- Where they can be written, exactly the files of the recipes none of whose classes has the name
of another output are, and a shared name fails the build. -/
theorem unshared_written {q : Request} {s mid t : Site} {fs : List Finished} {r : Outcome}
    (build : Builds q s fs mid r t) (wet : q.dryRun = false)
    (writable : (writeAll q.output ((gather fs).filter fun o => Sole (gather fs) o.recipe) mid.disk).isSome) :
    (gather fs).Perm (fs.flatMap (·.outputs)) ∧ (q.cache.isOpen = false → mid.disk = s.disk) ∧
      mid.disk.Written (((gather fs).filter fun o => Sole (gather fs) o.recipe).flatMap (·.files q.output)) t.disk ∧
      r.outputs = ((gather fs).map fun o => if Sole (gather fs) o.recipe then placed q.output o else o) ∧
      ((∃ o ∈ gather fs, Shared (gather fs) o.className) → r.failed = true) := by
  obtain ⟨d, written⟩ := Option.isSome_iff_exists.mp writable
  refine ⟨gather_perm fs, ?_⟩
  have nothing : gather [] = [] := by simp [gather]
  have held := contains_clashing (gather_sorted fs)
  cases build with
  | nothing =>
    rw [nothing]
    exact ⟨fun _ => rfl, .refl _, rfl, by simp⟩
  | cancelled =>
    rw [nothing]
    exact ⟨fun _ => disk_foldl_report _ _, .refl _, rfl, by simp⟩
  | done fs mid asked live built =>
    have free : ((gather fs).filter fun o => !(clashing (gather fs)).contains o.recipe) =
        (gather fs).filter fun o => Sole (gather fs) o.recipe := by simp only [held, Bool.not_not]
    have wrote := writeEach_eq (gather fs) (free ▸ written)
    have result := @finish_eq q fs mid _ _ _ _ (by rw [writing, if_neg (by rw [wet]; decide)]; exact wrote)
    rw [result]
    refine ⟨fun closed => ?_, ?_, ?_, ?_⟩
    · have waits : ∀ w ∈ waiting q.recipes.zipIdx, w.task.Keyless := by
        rintro w member
        obtain ⟨x, -, rfl⟩ := mem_map.mp member
        trivial
      exact (steps_disk closed built waits).1.trans (disk_foldl_report _ _)
    · have last := disk_foldl_report (conclude (clashing (gather fs)) fs) ({ mid with disk := d }.passed .write)
      rw [wet]
      exact last.symm ▸ of_writeAll written
    · refine map_congr_left fun o _ => ?_
      by_cases sole : Sole (gather fs) o.recipe <;> simp only [held, sole, decide_true, decide_false, Bool.not_true,
        Bool.not_false, Bool.false_eq_true, if_true, if_false]
    · rintro ⟨o, member, shared⟩
      obtain ⟨p, neighbours, -⟩ := exists_mem_clashes (gather_sorted fs) member shared
      have some : reportsOf fs [] ≠ [] := by
        simp [reportsOf, ne_nil_of_mem neighbours]
      have left := reports_left q some
      simpa [Outcome.failed] using left

theorem gather_eq_self {fs : List Finished} (places : fs.Pairwise fun a b => a.place ≤ b.place)
    (names : (fs.flatMap (·.outputs)).Pairwise fun a b => a.className ≤ b.className) : gather fs = fs.flatMap (·.outputs) := by
  rw [gather, mergeSort_of_pairwise (places.imp fun h => by simpa using h),
    mergeSort_of_pairwise (names.imp fun h => by simpa using h)]

def trio : Request :=
  { recipes := ["/a.toml", "/b.toml", "/c.toml"], output := "/out", render := true
    registry := Registry.empty.add
      { name := "java/lang/Object", super := "", interfaces := [], access := ⟨1⟩
        methods := #[⟨"java/lang/Object", "<init>", [], .void, ⟨1⟩⟩] } }

def trioSite : Site :=
  let text (names : List String) : List UInt8 :=
    Text.encodeUtf8 ("package = \"demo\"\n" ++ String.join (names.map fun n => "[[class]]\nname = \"" ++ n ++ "\"\n"))
  { disk := ((Disk.lay {} "/a.toml" (text ["A", "B"])).lay "/b.toml" (text ["B"])).lay "/c.toml" (text ["C"]) }

def trioPlaces : List (List String) :=
  ["A.class", "B.class", "C.class", "C.jrender"].map fun name => ["out", "demo", name]

theorem trio_built :
    let fs := (builtIn trio.recipes.zipIdx trio trioSite).1
    let disk := (builtIn trio.recipes.zipIdx trio trioSite).2.disk
    let os := fs.flatMap (·.outputs)
    let sole := os.filter fun o => Sole os o.recipe
    fs.map (·.place) = [0, 1, 2] ∧ os.map (fun o => (o.className, o.path, decide (Sole os o.recipe))) =
        [("demo/A", "", false), ("demo/B", "", false), ("demo/B", "", false), ("demo/C", "", true)] ∧
      (writeAll trio.output sole disk).isSome ∧
      trioPlaces.map (fun ns => ((((sole.flatMap (·.files trio.output)).reverse.find? fun w => disk.spot w.1 = ns).map
        (·.2)).or (disk.root.file? ns)).isSome) = [false, false, true, true] := by
  decide +kernel

/-- Only the class of the third recipe is written, with its text, and the build fails. -/
theorem unshared_written_trio : (runIn trio.recipes.zipIdx trio trioSite).1.failed = true ∧
    trioPlaces.map (fun ns => ((runIn trio.recipes.zipIdx trio trioSite).2.disk.root.file? ns).isSome) =
      [false, false, true, true] ∧
    (runIn trio.recipes.zipIdx trio trioSite).1.outputs.map (fun o => (o.className, o.path)) =
      [("demo/A", ""), ("demo/B", ""), ("demo/B", ""), ("demo/C", "/out/demo/C.class")] := by
  have build := builds_runIn trio trioSite (List.Perm.refl _) (by decide) rfl
  obtain ⟨places, names, writable, held⟩ := trio_built
  generalize builtIn trio.recipes.zipIdx trio trioSite = b at build places names writable held
  obtain ⟨fs, mid⟩ := b
  dsimp only at places names writable held
  generalize every : fs.flatMap (·.outputs) = os at names writable held
  have ordered : gather fs = os := by
    rw [← every]
    refine gather_eq_self ?_ ?_
    · rw [← pairwise_map, places]
      decide
    · have alone := congrArg (map Prod.fst) names
      rw [map_map] at alone
      rw [every, ← pairwise_map]
      exact alone ▸ (by decide : ["demo/A", "demo/B", "demo/B", "demo/C"].Pairwise (· ≤ ·))
  obtain ⟨-, -, written, outputs, failed⟩ := unshared_written build rfl (ordered ▸ writable)
  rw [ordered] at written outputs failed
  refine ⟨?_, ?_, ?_⟩
  · have back : ("demo/B", "", false) ∈ os.map fun o => (o.className, o.path, decide (Sole os o.recipe)) := by
      rw [names]
      decide
    obtain ⟨o, -, form⟩ := mem_map.mp back
    have shared : ¬ Sole os o.recipe := by simpa using congrArg (fun t => t.2.2) form
    simp only [Sole, not_forall, not_not] at shared
    obtain ⟨o', member, -, shared⟩ := shared
    exact failed ⟨o', member, shared⟩
  · simp only [written.files]
    exact held
  · have paths := congrArg (map fun t => (t.1, if t.2.2 then classPath trio.output t.1 ".class" else t.2.1)) names
    rw [outputs, map_map]
    rw [map_map] at paths
    refine Eq.trans (map_congr_left fun o _ => ?_) (paths.trans (by decide +kernel))
    by_cases sole : Sole os o.recipe <;> simp [sole, placed]

end ClassForge.Build

import ClassForge.Build.Run
import Mathlib.Logic.Relation

/-! Recipes are built at the same time: every interleaving of their stages is a build. Building one
after the other is one of them. -/

namespace ClassForge.Build

open Files (Path)
open Diagnostic (Problem)
open Assembler (Workspace)
open Trace (Span)

inductive Task
  | begin
  | load (span : Span) (phase : Nat)
  | compile (span : Span) (phase : Nat) (recipe : Recipe) (key : Option Digest)
  | serialize (span : Span) (phase : Nat) (key : Option Digest) (numbers : List Nat) (w : Workspace)
  | keep (span : Span) (phase : Nat) (key : Option Digest) (os : List Output)
  | close (span : Span) (phase : Nat) (made : Except (Stage × Problem) (List Output × String × String))
  | report (made : Except (Stage × Problem) (List Output))

def Task.next (q : Request) (parent : Nat) (path : Path) : Task → StateM Site Task
  | .begin => do
    let (span, phase) ← openRecipe q parent path
    return .load span phase
  | .load span phase => do
    match ← (during .load path (fun s => (Build.load q path s.disk, s))).run with
    | .ok (.stored cs) => return .close span phase (.ok (recalled path cs, "cache", "hit"))
    | .ok (.fresh r key) => return .compile span phase r key
    | .error e => return .close span phase (.error e)
  | .compile span phase r key => do
    match ← (during .compile path (assemble q r span.id)).run with
    | .ok (numbers, w) => return .serialize span phase key numbers w
    | .error e => return .close span phase (.error e)
  | .serialize span phase key numbers w => do
    match ← (during .serialize path (Build.serialize q path numbers w)).run with
    | .ok os => return .keep span phase key os
    | .error e => return .close span phase (.error e)
  | .keep span phase key os => do
    Build.keep q path key span.id os
    return .close span phase (.ok (os, "classes", toString os.length))
  | .close span phase made => do
    return .report (← closeRecipe q span phase made)
  | .report made => return .report made

structure Worker where
  place : Nat
  path : Path
  task : Task

/-- The recipes that are being built, and those that are finished, as they were reported. -/
structure Crew where
  site : Site
  workers : List Worker
  finished : List Finished

def reported (path : Path) (made : Except (Stage × Problem) (List Output)) (s : Site) : Site :=
  match made with
  | .ok _ => s
  | .error (stage, p) => s.report ⟨path, stage, .failed, some p⟩

section

variable (q : Request) (parent : Nat)

inductive Step : Crew → Crew → Prop
  | work (before after : List Worker) (w : Worker) (s : Site) (fs : List Finished) :
    Step ⟨s, before ++ w :: after, fs⟩
      ⟨(w.task.next q parent w.path s).2, before ++ { w with task := (w.task.next q parent w.path s).1 } :: after, fs⟩
  | report (before after : List Worker) (place : Nat) (path : Path) (made : Except (Stage × Problem) (List Output))
    (s : Site) (fs : List Finished) :
    Step ⟨s, before ++ ⟨place, path, .report made⟩ :: after, fs⟩
      ⟨reported path made s, before ++ after, fs ++ [⟨place, path, made⟩]⟩

abbrev Steps : Crew → Crew → Prop := Relation.ReflTransGen (Step q parent)

end

def opened (q : Request) (s : Site) : Span × Site :=
  let (span, s) := Site.openSpan "build" 0 s
  (span, (q.recipes.map fun p => ⟨p, .load, .queued, none⟩).foldl Site.report s)

def waiting (order : List (Path × Nat)) : List Worker := order.map fun p => ⟨p.2, p.1, .begin⟩

def Built (q : Request) (s : Site) (fs : List Finished) (t : Site) : Prop :=
  Steps q (opened q s).1.id ⟨(opened q s).2, waiting q.recipes.zipIdx, []⟩ ⟨t, [], fs⟩

/-- A build of a request: what its recipes gave as they were reported, and what came of it. -/
inductive Builds (q : Request) (s : Site) : List Finished → Site → Outcome → Site → Prop
  | nothing : q.recipes = [] → Builds q s [] s { bag := emptyBag q } s
  | cancelled : q.recipes ≠ [] → q.cancelled = true →
    Builds q s [] (opened q s).2 { bag := emptyBag q, failure := some "context canceled" }
      (Site.closeSpan (opened q s).1 (opened q s).2).2
  | done (fs : List Finished) (mid : Site) : q.recipes ≠ [] → q.cancelled = false → Built q s fs mid →
    Builds q s fs mid (finish q fs mid).1 (Site.closeSpan (opened q s).1 (finish q fs mid).2).2

/-! Recipes one after the other. -/

section

variable {α β : Type} {s s' : Site} {m : Work α} {f : α → Work β}

theorem bind_apply (m : StateM Site α) (f : α → StateM Site β) (s : Site) : (m >>= f) s = f (m s).1 (m s).2 := rfl

theorem bind_of_eq {m : StateM Site α} {f : α → StateM Site β} (h : m s = (a, s')) : (m >>= f) s = f a s' := by
  simp [bind, StateT.bind, h]

theorem Work.bind_of_ok (h : m s = (.ok a, s')) : (m >>= f) s = f a s' :=
  (bind_of_eq h : (m.run >>= ExceptT.bindCont f) s = f a s')

theorem Work.bind_of_error (h : m s = (.error e, s')) : (m >>= f) s = (.error e, s') :=
  (bind_of_eq h : (m.run >>= ExceptT.bindCont f) s = (.error e, s'))

end

section

variable {q : Request} {parent : Nat} {before after : List Worker} {place : Nat} {path : Path} {fs : List Finished}
  {s s' : Site}

theorem steps_next (one : t.next q parent path s = (t', s')) :
    Steps q parent ⟨s, before ++ ⟨place, path, t⟩ :: after, fs⟩ ⟨s', before ++ ⟨place, path, t'⟩ :: after, fs⟩ := by
  have step := @Step.work q parent before after ⟨place, path, t⟩ s fs
  simp only [one] at step
  exact .single step

theorem steps_makeRecipe (span : Span) (phase : Nat) (s : Site) :
    Steps q parent ⟨s, before ++ ⟨place, path, .load span phase⟩ :: after, fs⟩
      ⟨(makeRecipe q path span.id s).2, before ++ ⟨place, path, .close span phase (makeRecipe q path span.id s).1⟩ :: after, fs⟩ := by
  rcases loaded : (during .load path fun s => (load q path s.disk, s)) s with ⟨l, s1⟩
  obtain e | cs | ⟨r, key⟩ := l
  · have made : makeRecipe q path span.id s = (.error e, s1) := Work.bind_of_error loaded
    rw [made]
    exact steps_next (bind_of_eq loaded)
  · have made : makeRecipe q path span.id s = (.ok (recalled path cs, "cache", "hit"), s1) := Work.bind_of_ok loaded
    rw [made]
    exact steps_next (bind_of_eq loaded)
  refine (steps_next (bind_of_eq loaded)).trans ?_
  rcases compiled : (during .compile path (assemble q r span.id)) s1 with ⟨c, s2⟩
  obtain e | ⟨numbers, w⟩ := c
  · have made : makeRecipe q path span.id s = (.error e, s2) := (Work.bind_of_ok loaded).trans (Work.bind_of_error compiled)
    rw [made]
    exact steps_next (bind_of_eq compiled)
  refine (steps_next (bind_of_eq compiled)).trans ?_
  rcases written : (during .serialize path (serialize q path numbers w)) s2 with ⟨o, s3⟩
  obtain e | os := o
  · have made : makeRecipe q path span.id s = (.error e, s3) :=
      (Work.bind_of_ok loaded).trans ((Work.bind_of_ok compiled).trans (Work.bind_of_error written))
    rw [made]
    exact steps_next (bind_of_eq written)
  have made : makeRecipe q path span.id s =
      (.ok (os, "classes", toString os.length), (keep q path key span.id os s3).2) :=
    (Work.bind_of_ok loaded).trans ((Work.bind_of_ok compiled).trans (Work.bind_of_ok written))
  rw [made]
  have kept : (Task.keep span phase key os).next q parent path s3 =
      (.close span phase (.ok (os, "classes", toString os.length)), (keep q path key span.id os s3).2) :=
    bind_apply _ _ s3
  exact (steps_next (bind_of_eq written)).trans (steps_next kept)

theorem steps_buildRecipe (s : Site) :
    Steps q parent ⟨s, before ++ ⟨place, path, .begin⟩ :: after, fs⟩
      ⟨(buildRecipe q parent path s).2, before ++ ⟨place, path, .report (buildRecipe q parent path s).1⟩ :: after, fs⟩ := by
  rcases entered : openRecipe q parent path s with ⟨⟨span, phase⟩, s1⟩
  have built : buildRecipe q parent path s = closeRecipe q span phase (makeRecipe q path span.id s1).1
      (makeRecipe q path span.id s1).2 := (bind_of_eq entered).trans (bind_apply _ _ s1)
  rw [built]
  exact (steps_next (bind_of_eq entered)).trans ((steps_makeRecipe span phase s1).trans (steps_next (bind_apply _ _ _)))

theorem buildEach_cons
    (made : buildRecipe q parent path s = (r, s')) : buildEach q parent ((path, place) :: order) s =
      (⟨place, path, r⟩ :: (buildEach q parent order (reported path r s')).1,
        (buildEach q parent order (reported path r s')).2) := by
  refine (bind_of_eq made).trans ?_
  obtain ⟨stage, p⟩ | os := r <;> rfl

theorem steps_buildEach (order : List (Path × Nat)) (workers : List Worker) (h : workers.Perm (waiting order)) (s : Site)
    (fs : List Finished) :
    Steps q parent ⟨s, workers, fs⟩ ⟨(buildEach q parent order s).2, [], fs ++ (buildEach q parent order s).1⟩ := by
  induction order generalizing workers s fs with
  | nil => rw [show buildEach q parent [] s = ([], s) from rfl, List.append_nil, h.eq_nil]
  | cons p order ih =>
    obtain ⟨path, place⟩ := p
    obtain ⟨before, after, rfl⟩ := List.append_of_mem (h.mem_iff.mpr List.mem_cons_self)
    have others : (before ++ after).Perm (waiting order) := (List.perm_middle.symm.trans h).cons_inv
    rcases made : buildRecipe q parent path s with ⟨r, s1⟩
    have one := @steps_buildRecipe q parent before after place path fs s
    rw [made] at one
    have told := Relation.ReflTransGen.single (@Step.report q parent before after place path r s1 fs)
    have rest := ih _ others (reported path r s1) (fs ++ [⟨place, path, r⟩])
    rw [List.append_assoc] at rest
    rw [buildEach_cons made]
    exact one.trans (told.trans rest)

end

variable {order : List (Path × Nat)}

def builtIn (order : List (Path × Nat)) (q : Request) (s : Site) : List Finished × Site :=
  buildEach q (opened q s).1.id order (opened q s).2

theorem built_builtIn (q : Request) (s : Site) (h : order.Perm q.recipes.zipIdx) :
    Built q s (builtIn order q s).1 (builtIn order q s).2 :=
  @steps_buildEach q (opened q s).1.id order _ (h.symm.map _) (opened q s).2 []

theorem builds_runIn (q : Request) (s : Site) (h : order.Perm q.recipes.zipIdx)
    (asked : q.recipes ≠ []) (live : q.cancelled = false) :
    Builds q s (builtIn order q s).1 (builtIn order q s).2 (runIn order q s).1 (runIn order q s).2 := by
  have result : runIn order q s = ((finish q (builtIn order q s).1 (builtIn order q s).2).1,
      (Site.closeSpan (opened q s).1 (finish q (builtIn order q s).1 (builtIn order q s).2).2).2) := by
    simp only [runIn, List.isEmpty_iff, asked, if_false, live]
    rfl
  rw [result]
  exact .done _ _ asked live (built_builtIn q s h)

end ClassForge.Build

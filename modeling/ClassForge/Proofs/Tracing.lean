import ClassForge.Proofs.Faults

/-!
Calls on classes are recorded at any level, or not at all: what they give and what becomes of the classes stays the
same. Every call does the same from two states of a class that differ in the trail only, and leaves two such states. -/

namespace ClassForge.Assembler

open Draft

namespace Draft

variable {α β : Type} {p : Provider} {i : Nat} {x y : Except Failure α × Draft}

def on (d : Draft) (t : Trail) : Draft := { d with trail := t }

/-- The same result, and classes that differ in the trail only. -/
def Like (x y : α × Draft) : Prop := ∃ t, y = (x.1, x.2.on t)

@[elab_as_elim]
theorem Like.elim {motive : Except Failure α × Draft → Except Failure α × Draft → Prop} (h : Like x y)
    (error : ∀ e d t, motive (.error e, d) (.error e, d.on t)) (ok : ∀ a d t, motive (.ok a, d) (.ok a, d.on t)) :
    motive x y := by
  obtain ⟨t, rfl⟩ := h
  obtain ⟨e | a, d⟩ := x
  · exact error e d t
  · exact ok a d t

theorem Like.replying (h : Like x y) (reply : α → Reply) : Like (replying reply x) (replying reply y) := by
  obtain ⟨t, rfl⟩ := h
  exact ⟨t, rfl⟩

variable (d : Draft) (t : Trail)

theorem like_fail (f : Failure) : Like (d.fail (α := α) f) ((d.on t).fail f) := by
  unfold fail
  rw [show (d.on t).broken = d.broken from rfl]
  dsimp only
  split_ifs <;> exact ⟨_, rfl⟩

theorem like_attempt {a : Change α} (sober : a.Sober) : Like (d.attempt a) ((d.on t).attempt a) := by
  unfold attempt
  rw [show a.run (d.on t) = _ from sober.blind d t, show a.run d = a d from rfl]
  obtain ⟨e | x, d'⟩ := a d
  · exact like_fail d' t _
  · exact ⟨t, rfl⟩

theorem like_change {a : Change α} (sober : a.Sober) : Like (d.change a) ((d.on t).change a) := by
  unfold change
  rw [show (d.on t).unusable = d.unusable from rfl]
  split
  · exact ⟨t, rfl⟩
  · exact like_attempt d t sober

theorem like_openMethod (m : MethodInfo) (names : List String) :
    Like (d.openMethod m names) ((d.on t).openMethod m names) := by
  unfold openMethod
  dsimp only
  rw [show Method.create (d.on t).methods.size (d.on t).name (d.on t).options.maxLocals m names =
    Method.create d.methods.size d.name d.options.maxLocals m names from rfl]
  obtain ⟨e, place⟩ | method := Method.create d.methods.size d.name d.options.maxLocals m names
  · exact like_fail d t _
  · dsimp only
    split_ifs <;> exact ⟨_, rfl⟩

theorem like_declare (access : Access) (ret : JType) (name : String) (params : List (String × JType)) :
    Like (d.declare access ret name params) ((d.on t).declare access ret name params) := by
  unfold declare
  refine (like_change d t (Change.sober_declareMethod access ret name params)).elim (fun _ _ t => ⟨t, rfl⟩) ?_
  exact fun m d t => like_openMethod d t m _

theorem like_tryStep {a : Step α} (orderly : a.Orderly) : Like (d.tryStep p i a) ((d.on t).tryStep p i a) := by
  unfold tryStep
  by_cases lt : i < d.methods.size
  · obtain ⟨t', same⟩ := orderly.blind (d.context p) (d.workOn d.methods[i]) t
    have here : i < (d.on t).methods.size := lt
    have other : (a ((d.on t).context p)).run ((d.on t).workOn (d.on t).methods[i]) = _ := same
    rw [runStep_eq lt, runStep_eq here, other,
      show (a (d.context p)).run (d.workOn d.methods[i]) = a (d.context p) (d.workOn d.methods[i]) from rfl]
    obtain ⟨e | x, w⟩ := a (d.context p) (d.workOn d.methods[i])
    · exact like_fail (d.put i w) t' _
    · exact ⟨t', rfl⟩
  · have missing (d : Draft) (lt : ¬ i < d.methods.size) : d.runStep p i a = (.error (.missingLocal, ""), d) := by
      unfold runStep
      simp [lt]
    rw [missing d lt, missing (d.on t) lt]
    exact like_fail d t _

theorem like_build (b : Build) : Like (d.build p i b) ((d.on t).build p i b) := by
  unfold build
  dsimp only
  split
  · exact like_tryStep d t .throw
  · rw [show (d.on t).unusable = d.unusable from rfl, show (d.on t).broken = d.broken from rfl]
    split
    · split_ifs
      · exact like_fail d t _
      · exact ⟨t, rfl⟩
    · exact like_tryStep d t (.bind Step.mild_entered.2 fun _ => .bind (Step.mild_build b).2 fun _ => .pure)

theorem like_perform (s : Statement) : Like (d.perform p i s) ((d.on t).perform p i s) := by
  unfold perform
  rw [show (d.on t).unusable = d.unusable from rfl]
  split
  · exact ⟨t, rfl⟩
  · exact like_tryStep d t (Step.orderly_requested s)

theorem like_annotate {attach : Draft → AnnotationBytes → Draft} (same : ∀ d b t, attach (on d t) b = (attach d b).on t)
    (as : List Annotation) : Like (d.annotate attach as) ((d.on t).annotate attach as) := by
  induction as generalizing d t with
  | nil => exact ⟨t, rfl⟩
  | cons a as ih =>
    unfold annotate
    refine (like_change d t (Change.sober_encoded a)).elim (fun _ _ t => ⟨t, rfl⟩) fun b d t => ?_
    dsimp only
    rw [same]
    exact ih (attach d b) t

theorem like_addMissingStaticInit : Like (d.addMissingStaticInit p) ((d.on t).addMissingStaticInit p) := by
  unfold addMissingStaticInit
  rw [show (d.on t).needsStaticInit = d.needsStaticInit from rfl]
  split_ifs
  · have declared : Like d.addStaticInit (d.on t).addStaticInit := like_declare d t _ _ _ _
    refine declared.elim (fun _ _ t => ⟨t, rfl⟩) fun j d t => ?_
    dsimp only
    exact (like_perform (p := p) (i := j) d t .close).elim (fun _ _ t => ⟨t, rfl⟩) fun _ _ t => ⟨t, rfl⟩
  · exact ⟨t, rfl⟩

theorem like_bytes : Like (d.bytes p) ((d.on t).bytes p) := by
  unfold bytes
  rw [show (d.on t).output = d.output from rfl, show (d.on t).broken = d.broken from rfl]
  split
  · exact ⟨t, rfl⟩
  refine (like_change d t (Change.sober_checkComplete p)).elim (fun _ _ t => ⟨t, rfl⟩) fun _ d t => ?_
  dsimp only
  refine (like_addMissingStaticInit (p := p) d t).elim (fun _ _ t => ⟨t, rfl⟩) fun _ d t => ?_
  dsimp only
  have same := Change.sober_serialize.blind (d.note .writing) ((d.on t).note .writing).trail
  rw [show serialize ((d.on t).note .writing) = _ from same]
  obtain ⟨e | out, d'⟩ := serialize (d.note .writing)
  · exact like_fail (d'.note .notWritten) _ _
  · exact ⟨_, rfl⟩

theorem like_call (c : Call) : Like (d.call p c) ((d.on t).call p c) := by
  cases c with
  | addField => exact (like_change d t (Change.sober_addField _ _ _)).replying _
  | initField => exact (like_change d t (Change.sober_initField _ _)).replying _
  | addMethod access ret name params =>
    refine Like.replying ?_ _
    unfold addMethod
    split_ifs
    · exact like_change d t (Change.sober_throw rfl)
    · exact like_declare d t _ _ _ _
  | addConstructor | addStaticInit => exact (like_declare d t _ _ _ _).replying _
  | throws i types =>
    refine Like.replying ?_ _
    unfold throws
    rw [show (d.on t).unusable = d.unusable from rfl]
    split
    · exact ⟨t, rfl⟩
    · exact like_tryStep d t (Step.mild_throws types).2
  | annotateClass as | annotateField i as | annotateMethod i as => exact (like_annotate d t (fun _ _ _ => rfl) as).replying _
  | setLine n =>
    change Like (_, d.setLine n) (_, (d.on t).setLine n)
    unfold setLine
    split_ifs <;> exact ⟨t, rfl⟩
  | build i b => exact (like_build d t b).replying _
  | perform i s => exact (like_perform d t s).replying _
  | bytes => exact (like_bytes d t).replying _

/-- A class without what is recorded of it. -/
def bare : Draft := d.on {}

theorem bare_call {d e : Draft} (alike : d.bare = e.bare) (c : Call) :
    (d.call p c).1 = (e.call p c).1 ∧ (d.call p c).2.bare = (e.call p c).2.bare := by
  have moved : e = d.on e.trail := (congrArg (·.on e.trail) alike).symm
  obtain ⟨t, same⟩ := like_call (p := p) d e.trail c
  rw [moved, same]
  exact ⟨rfl, rfl⟩

/-- The tracer has no part in what is created. -/
theorem on_create (access : Access) (name super : String) (interfaces : List String) (options : Options)
    (tracer tracer' : Tracer) : ∃ t, (create p access name super interfaces options tracer').1 =
      (create p access name super interfaces options tracer).1.map (·.on t) := by
  let t := Trail.record { recorder := tracer'.recorder } (.classOpened (Text.slashed name) tracer'.parent)
  have started : start access name super interfaces options tracer' =
      (start access name super interfaces options tracer).map (·.on t) := by
    simp only [start, bind, Except.bind]
    repeat' split
    all_goals rfl
  unfold create
  rw [started]
  obtain e | d := start access name super interfaces options tracer
  · exact ⟨t, rfl⟩
  dsimp only [Except.map]
  exact (like_attempt d t (Change.sober_connect p)).elim (fun _ _ t => ⟨t, rfl⟩) fun _ _ t => ⟨t, rfl⟩

end Draft

inductive Order
  | create (access : Access) (name super : String) (interfaces : List String) (options : Options)
  | call (draft : Nat) (c : Call)
  | writeTo (draft : Nat) (device : Array UInt8 → Nat × Option String)

inductive Answer
  | created (r : Except Failure Nat)
  | replied (r : Option (Except Failure Reply))
  | wrote (r : Nat × Option Failure)

namespace Workspace

def under (w : Workspace) (t : Tracer) : Workspace := { w with recorder := t.recorder, parentSpan := t.parent }

def obey (w : Workspace) : Order → Answer × Workspace
  | .create access name super interfaces options =>
    let (r, w) := w.create access name super interfaces options
    (.created r, w)
  | .call i c =>
    let (r, w) := w.call i c
    (.replied r, w)
  | .writeTo i device =>
    let (r, w) := w.writeTo i device
    (.wrote r, w)

/-- Calls one after the other. The tracer of each is whatever it has become by then. -/
def follow (w : Workspace) : List (Order × Tracer) → List Answer × Workspace
  | [] => ([], w)
  | (o, t) :: rest =>
    let (a, w) := (w.under t).obey o
    let (as, w) := follow w rest
    (a :: as, w)

structure Alike (w v : Workspace) : Prop where
  base : w.base = v.base
  published : w.published = v.published
  drafts : w.drafts.map bare = v.drafts.map bare

namespace Alike

variable {w v : Workspace}

theorem size (h : w.Alike v) : w.drafts.size = v.drafts.size := by simpa using congrArg Array.size h.drafts

theorem draft (h : w.Alike v) (i : Nat) : (w.drafts[i]?).map bare = (v.drafts[i]?).map bare := by
  simpa using congrArg (·[i]?) h.drafts

theorem under (h : w.Alike v) (t u : Tracer) : (w.under t).Alike (v.under u) := ⟨h.base, h.published, h.drafts⟩

theorem create (h : w.Alike v) (access : Access) (name super : String) (interfaces : List String) (options : Options) :
    (w.create access name super interfaces options).1 = (v.create access name super interfaces options).1 ∧
      (w.create access name super interfaces options).2.Alike (v.create access name super interfaces options).2 := by
  have sees : w.provider = v.provider := by rw [provider, provider, h.base, h.published]
  obtain ⟨t, same⟩ := Draft.on_create (p := v.provider) access name super interfaces options
    ⟨w.recorder, w.parentSpan⟩ ⟨v.recorder, v.parentSpan⟩
  unfold Workspace.create
  rw [sees]
  generalize Draft.create v.provider access name super interfaces options ⟨w.recorder, w.parentSpan⟩ = x at same ⊢
  generalize Draft.create v.provider access name super interfaces options ⟨v.recorder, v.parentSpan⟩ = y at same ⊢
  obtain ⟨f | d, r⟩ := x
  · obtain ⟨_, s⟩ := y
    cases same
    exact ⟨rfl, h.base, h.published, h.drafts⟩
  · obtain ⟨_, s⟩ := y
    cases same
    refine ⟨congrArg Except.ok h.size, h.base, ?_, ?_⟩
    · simp only [publish, h.published]
      rfl
    · simp only [publish, Array.map_push, h.drafts]
      rfl

theorem call (h : w.Alike v) (i : Nat) (c : Call) :
    (w.call i c).1 = (v.call i c).1 ∧ (w.call i c).2.Alike (v.call i c).2 := by
  have sees : w.provider = v.provider := by rw [provider, provider, h.base, h.published]
  have drafts := h.draft i
  cases there : w.drafts[i]? with
  | none =>
    rw [there] at drafts
    rw [call_none (by simp [there]), call_none (by simp [Option.map_eq_none_iff.mp drafts.symm])]
    exact ⟨rfl, h⟩
  | some d =>
    rw [there] at drafts
    obtain ⟨e, there', bare⟩ := Option.map_eq_some_iff.mp drafts.symm
    have same : c.isFor e = c.isFor d := (congrArg (Call.isFor · c) bare : c.isFor e.bare = c.isFor d.bare)
    cases isFor : c.isFor d with
    | false =>
      rw [call_none (by simp [there, isFor]), call_none (by simp [there', same, isFor])]
      exact ⟨rfl, h⟩
    | true =>
      obtain ⟨told, left⟩ := bare_call (p := v.provider) (d := d.recording w.recorder)
        (e := e.recording v.recorder) bare.symm c
      rw [call_eq there isFor, call_eq there' (same.trans isFor), sees]
      generalize (d.recording w.recorder).call v.provider c = x at told left ⊢
      generalize (e.recording v.recorder).call v.provider c = y at told left ⊢
      have info : x.2.info = y.2.info := (congrArg info left : x.2.bare.info = y.2.bare.info)
      have before : memberCount e = memberCount d := (congrArg memberCount bare : memberCount e.bare = memberCount d.bare)
      refine ⟨congrArg some told, h.base, ?_, ?_⟩
      · have after : memberCount x.2 = memberCount y.2 := congrArg (fun c : ClassInfo => c.fields.size + c.methods.size) info
        dsimp only
        rw [after, before, info, h.published]
      · rw [Array.map_setIfInBounds, Array.map_setIfInBounds, h.drafts]
        exact congrArg _ left

theorem writeTo (h : w.Alike v) (i : Nat) (device : Array UInt8 → Nat × Option String) :
    (w.writeTo i device).1 = (v.writeTo i device).1 ∧ (w.writeTo i device).2.Alike (v.writeTo i device).2 := by
  obtain ⟨same, alike⟩ := h.call i .bytes
  have name : (w.drafts[i]?).map (·.name) = (v.drafts[i]?).map (·.name) := by
    have names := congrArg (Option.map name) (h.draft i)
    rwa [Option.map_map, Option.map_map] at names
  unfold Workspace.writeTo
  rw [name]
  generalize w.call i .bytes = x at same alike
  generalize v.call i .bytes = y at same alike
  obtain ⟨r, w'⟩ := x
  obtain ⟨_, v'⟩ := y
  obtain rfl : r = _ := same
  rcases r with - | f | r
  · exact ⟨rfl, alike⟩
  · exact ⟨rfl, alike⟩
  · cases r with
    | bytes data | done | field | method | node | «local» => exact ⟨rfl, alike⟩

theorem obey (h : w.Alike v) (o : Order) : (w.obey o).1 = (v.obey o).1 ∧ (w.obey o).2.Alike (v.obey o).2 := by
  cases o with
  | create access name super interfaces options =>
    obtain ⟨same, alike⟩ := h.create access name super interfaces options
    exact ⟨congrArg Answer.created same, alike⟩
  | call i c =>
    obtain ⟨same, alike⟩ := h.call i c
    exact ⟨congrArg Answer.replied same, alike⟩
  | writeTo i device =>
    obtain ⟨same, alike⟩ := h.writeTo i device
    exact ⟨congrArg Answer.wrote same, alike⟩

theorem follow (h : w.Alike v) (calls : List (Order × Tracer × Tracer)) :
    (w.follow (calls.map fun x => (x.1, x.2.1))).1 = (v.follow (calls.map fun x => (x.1, x.2.2))).1 ∧
      (w.follow (calls.map fun x => (x.1, x.2.1))).2.Alike (v.follow (calls.map fun x => (x.1, x.2.2))).2 := by
  induction calls generalizing w v with
  | nil => exact ⟨rfl, h⟩
  | cons x calls ih =>
    obtain ⟨o, t, u⟩ := x
    obtain ⟨same, next⟩ := (h.under t u).obey o
    obtain ⟨rest, last⟩ := ih next
    simp only [List.map_cons, Workspace.follow]
    exact ⟨by rw [same, rest], last⟩

end Alike

/-- The same calls give the same answers and leave the same classes, published and under
construction, whatever the tracer and the parent span of each are. Only what the classes record on
differs. -/
theorem follow_untraced (w : Workspace) (calls : List (Order × Tracer × Tracer)) :
    let plain := w.follow (calls.map fun x => (x.1, x.2.1))
    let traced := w.follow (calls.map fun x => (x.1, x.2.2))
    plain.1 = traced.1 ∧ plain.2.published = traced.2.published ∧
      plain.2.drafts.map bare = traced.2.drafts.map bare := by
  obtain ⟨answers, alike⟩ := (Alike.mk rfl rfl rfl : w.Alike w).follow calls
  exact ⟨answers, alike.published, alike.drafts⟩

end Workspace

end ClassForge.Assembler

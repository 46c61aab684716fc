import ClassForge.Proofs.Ending
import ClassForge.Proofs.RoundTrip
import ClassForge.Proofs.Rows

/-! Calls on a class never end in a fault of the assembler itself. -/

namespace ClassForge.Assembler

open Draft Change

namespace Change

variable {α β : Type} {b : Change α} {e : Fault} {xs : List α}

/-- A change that touches neither options, methods nor the first failure, and neither changes the
trail nor looks at it; where it fails, a request explains it. -/
structure Sober (a : Change α) : Prop where
  runs : ∀ d r d', a.run d = (r, d') →
    (d'.broken = d.broken ∧ d'.options = d.options ∧ d'.methods = d.methods) ∧ ∀ e, r = .error e → e.isInternal = false
  blind : ∀ d t, a { d with trail := t } = ((a d).1, { (a d).2 with trail := t })

theorem sober_pure (x : α) : Sober (pure x) := by
  refine ⟨?_, fun _ _ => rfl⟩
  rintro d r d' ⟨⟩
  exact ⟨⟨rfl, rfl, rfl⟩, by rintro _ ⟨⟩⟩

theorem sober_throw (h : e.isInternal = false) : Sober (throw e : Change α) := by
  refine ⟨?_, fun _ _ => rfl⟩
  rintro d r d' ⟨⟩
  exact ⟨⟨rfl, rfl, rfl⟩, by rintro _ ⟨⟩; exact h⟩

/-- What is read may be anything of the class but its trail. -/
theorem sober_get (rest : ∀ d, Sober (f d)) (blind : ∀ (d : Draft) t, f { d with trail := t } = f d) :
    Sober (get >>= f : Change α) := by
  refine ⟨fun d => (rest d).runs d, fun d t => ?_⟩
  change f { d with trail := t } _ = _
  rw [blind]
  exact (rest d).blind d t

theorem sober_modify
    (keeps : ∀ d, (f d).broken = d.broken ∧ (f d).options = d.options ∧ (f d).methods = d.methods)
    (blind : ∀ d t, f { d with trail := t } = { f d with trail := t }) : Sober (modify f) := by
  refine ⟨?_, fun d t => congrArg (Prod.mk _) (blind d t)⟩
  rintro d r d' ⟨⟩
  exact ⟨keeps d, by rintro _ ⟨⟩⟩

theorem sober_bind {a : Change α} (first : Sober a) (rest : ∀ x, Sober (f x)) : Sober (a >>= f) := by
  have next d : (a >>= f).run d = ExceptT.bindCont f (a d).1 (a d).2 := rfl
  constructor
  · intro d r d' run
    rw [next] at run
    cases ran : a d with
    | mk r1 d1 =>
      rw [ran] at run
      obtain ⟨⟨broken, options, methods⟩, mild⟩ := first.runs d r1 d1 ran
      cases r1 with
      | ok x =>
        obtain ⟨⟨broken', options', methods'⟩, mild'⟩ := (rest x).runs d1 r d' run
        exact ⟨⟨broken'.trans broken, options'.trans options, methods'.trans methods⟩, mild'⟩
      | error e =>
        cases run
        exact ⟨⟨broken, options, methods⟩, by rintro _ ⟨⟩; exact mild e rfl⟩
  · intro d t
    change (a >>= f).run _ = (((a >>= f).run d).1, { ((a >>= f).run d).2 with trail := t })
    rw [next, next, first.blind]
    obtain ⟨_ | x, d1⟩ := a d
    · rfl
    · exact (rest x).blind d1 t

theorem sober_guard [Decidable c] (first : Sober a) (rest : Sober b) : Sober (if c then a >>= fun _ => b else b) := by
  split
  · exact sober_bind first fun _ => rest
  · exact rest

theorem sober_refuse [Decidable c] (mild : e.isInternal = false) (rest : Sober b) :
    Sober (if c then (throw e : Change PUnit) >>= fun _ => b else b) := sober_guard (sober_throw mild) rest

theorem sober_pool (a : Pool.Action α) : Sober (pool a) := by
  refine ⟨fun d r d' run => ?_, fun _ _ => rfl⟩
  obtain ⟨rfl, rfl⟩ := Prod.mk.inj run
  refine ⟨⟨rfl, rfl, rfl⟩, fun e failed => ?_⟩
  split at failed <;> cases failed
  rfl

theorem sober_ofExcept {x : Except Fault α} (mild : ∀ e, x = .error e → e.isInternal = false) : Sober (ofExcept x) := by
  cases x with
  | ok y => exact sober_pure y
  | error e => exact sober_throw (mild e rfl)

theorem sober_ofHierarchy (x : Except Hierarchy.Fault α) : Sober (ofHierarchy x) := by
  cases x with
  | ok y => exact sober_pure y
  | error e => exact sober_throw rfl

theorem sober_forIn (each : ∀ x y, Sober (f x y)) : Sober (forIn xs PUnit.unit f) := by
  induction xs with
  | nil => exact sober_pure _
  | cons x xs ih =>
    rw [List.forIn_cons]
    refine sober_bind (each x _) fun r => ?_
    cases r with
    | done => exact sober_pure _
    | yield => exact ih

theorem sober_addField (access : Access) (t : JType) (name : String) : Sober (addField access t name) := by
  refine sober_get (fun d => sober_bind (sober_ofExcept (Step.checkName_mild name)) fun _ => ?_) fun _ _ => rfl
  refine sober_refuse rfl (sober_refuse rfl (sober_refuse rfl (sober_bind (sober_pool _) fun _ => ?_)))
  refine sober_get (fun _ => sober_bind (sober_modify (fun _ => ?_) fun _ _ => rfl) fun _ => sober_pure _) fun _ _ => rfl
  exact ⟨rfl, rfl, rfl⟩

theorem sober_initField (number : Nat) (v : Literal) : Sober (initField number v) := by
  refine sober_get (fun d => ?_) fun _ _ => rfl
  split
  · exact sober_pure _
  split
  · exact sober_throw rfl
  · refine sober_bind (sober_ofExcept (Step.constantFor_mild _ v)) fun _ =>
      sober_bind (sober_modify (fun _ => ?_) fun _ _ => rfl) fun _ =>
      sober_bind (sober_pool _) fun _ => sober_modify (fun _ => ?_) fun _ _ => rfl
    · exact ⟨rfl, rfl, rfl⟩
    · exact ⟨rfl, rfl, rfl⟩

theorem sober_declareMethod (access : Access) (ret : JType) (name : String) (params : List (String × JType)) :
    Sober (declareMethod access ret name params) := by
  refine sober_get (fun d => sober_guard (sober_ofExcept (Step.checkName_mild name)) ?_) fun _ _ => rfl
  refine sober_bind (sober_forIn fun x _ => ?_) fun _ => sober_refuse rfl (sober_refuse rfl (sober_refuse rfl ?_))
  · exact sober_refuse rfl (sober_bind (sober_ofExcept (Step.checkName_mild _)) fun _ => sober_pure _)
  · have last : ∀ m : MethodInfo, Sober (do
        modify fun d => { d with info := { d.info with methods := d.info.methods.push m } }
        pure m) := fun m =>
      sober_bind (sober_modify (fun _ => ⟨rfl, rfl, rfl⟩) fun _ _ => rfl) fun _ => sober_pure m
    generalize (if (d.info.isInterface && decide (name ≠ MethodInfo.initializerName)) = true then
      (_ : MethodInfo) else _) = m
    by_cases bodiless : m.isAbstract = true
    · rw [if_pos bodiless]
      exact sober_refuse rfl (sober_refuse rfl (last m))
    · rw [if_neg bodiless]
      exact last m

theorem sober_encoded (a : Annotation) : Sober (encoded a) := by
  constructor
  · intro d r d' run
    unfold ExceptT.run encoded at run
    dsimp only at run
    split at run
    rename_i r1 out ran
    cases r1 with
    | error e =>
      cases run
      exact ⟨⟨rfl, rfl, rfl⟩, by rintro _ ⟨⟩; exact (( Annotation.writes_encode d.name a).grows _).fails ran⟩
    | ok y =>
      dsimp only at run
      split at run
      · cases run
        exact ⟨⟨rfl, rfl, rfl⟩, by rintro _ ⟨⟩; rfl⟩
      · cases run
        exact ⟨⟨rfl, rfl, rfl⟩, by rintro _ ⟨⟩⟩
  · intro d t
    simp only [encoded, name]
    obtain ⟨_ | _, out⟩ := (a.encode d.info.name).run ⟨d.pool, .empty⟩
    · rfl
    · dsimp only
      split <;> rfl

theorem sober_checkComplete (p : Provider) : Sober (checkComplete p) := by
  refine sober_get (fun d => ?_) fun _ _ => rfl
  split
  · exact sober_throw rfl
  · split
    · refine sober_bind (sober_ofHierarchy _) fun missing => ?_
      cases missing with
      | nil => exact sober_pure _
      | cons => exact sober_throw rfl
    · exact sober_pure _

theorem sober_serialize : Sober serialize := by
  constructor
  · intro d r d' run
    unfold ExceptT.run serialize at run
    dsimp only at run
    split at run
    rename_i r1 out ran
    cases r1 with
    | error e =>
      cases run
      exact ⟨⟨rfl, rfl, rfl⟩, by rintro _ ⟨⟩; exact (d.writes_body.grows _).fails ran⟩
    | ok y =>
      dsimp only at run
      split at run
      · cases run
        exact ⟨⟨rfl, rfl, rfl⟩, by rintro _ ⟨⟩; rfl⟩
      · split at run
        · cases run
          exact ⟨⟨rfl, rfl, rfl⟩, by rintro _ ⟨⟩; rfl⟩
        · cases run
          exact ⟨⟨rfl, rfl, rfl⟩, by rintro _ ⟨⟩⟩
  · intro d t
    have same t : { d with pool := .empty, trail := t }.writeBody = d.writeBody := rfl
    simp only [serialize, same]
    obtain ⟨_ | _, out⟩ := d.writeBody.run ⟨d.pool, .empty⟩
    · rfl
    · dsimp only
      split
      · rfl
      · split <;> rfl

theorem sober_mapM (each : ∀ x, Sober (f x)) : Sober (xs.mapM f) := by
  induction xs with
  | nil => exact sober_pure _
  | cons x xs ih =>
    rw [List.mapM_cons]
    exact sober_bind (each x) fun _ => sober_bind ih fun _ => sober_pure _

theorem sober_connect (p : Provider) : Sober (connect p) := by
  refine sober_get (fun d => sober_bind (sober_ofHierarchy _) fun super => sober_refuse rfl ?_) fun _ _ => rfl
  refine sober_bind (sober_forIn fun name _ => ?_) fun _ => ?_
  · exact sober_bind (sober_ofHierarchy _) fun c => sober_refuse rfl (sober_pure _)
  · exact sober_bind (sober_pool _) fun _ => sober_bind (sober_pool _) fun _ =>
      sober_bind (sober_mapM fun _ => sober_pool _) fun _ => sober_modify (fun _ => ⟨rfl, rfl, rfl⟩) fun _ _ => rfl

end Change

/-! Failures and what caused them. -/

def Failure.cause : Failure → Fault
  | .fault e _ => e
  | .unusable _ first => first.cause

@[simp] theorem Failure.cause_located (f : Failure) (place : String) : (f.located place).cause = f.cause := by
  unfold located
  split <;> rfl

theorem Failure.root_eq (f : Failure) : f.root = f.cause.code?.getD .unknown := by
  induction f with
  | fault => rfl
  | unusable _ _ ih => exact ih

/-- The failure is not one of a missing branch or scope, of a scope that keeps branches, or of a
slot that no instruction can name. -/
structure Failure.Explained (f : Failure) : Prop where
  branches : f.root ≠ .patchUnderflow
  scopes : f.root ≠ .unbalancedEnd
  slots : ∀ n, f.cause ≠ .code (.negativeSlot n) ∧ f.cause ≠ .code (.slotRange n)

theorem Fault.code_of_isInternal {e : Fault} (mild : e.isInternal = false) :
    e.code?.getD .unknown ≠ .patchUnderflow ∧ e.code?.getD .unknown ≠ .unbalancedEnd := by
  cases e with
  | code e =>
    cases e with
    | negativeSlot | slotRange | swapUnderflow | noOpenSite | prependOpen => cases mild
    | interfaceSlots | incrementRange | branchTooFar => exact ⟨by rintro ⟨⟩, by rintro ⟨⟩⟩
  | pool e | hierarchy e => cases e <;> exact ⟨by rintro ⟨⟩, by rintro ⟨⟩⟩
  | openSites | noScope => cases mild
  | _ => exact ⟨by rintro ⟨⟩, by rintro ⟨⟩⟩

theorem Failure.explained {f : Failure} (mild : f.cause.isInternal = false) : f.Explained := by
  obtain ⟨branches, scopes⟩ := Fault.code_of_isInternal mild
  rw [← root_eq] at branches scopes
  refine ⟨branches, scopes, fun n => ⟨fun same => ?_, fun same => ?_⟩⟩
  · rw [same] at mild
    cases mild
  · rw [same] at mild
    cases mild

namespace Draft

variable {α β : Type} {p : Provider} {d : Draft} {i : Nat} {f : Failure}

/-- The class has these options, and in every method the locals are in a row. -/
structure Rows (o : Options) (d : Draft) : Prop where
  options : d.options = o
  limit : 0 ≤ o.maxLocals ∧ o.maxLocals ≤ 65535
  methods : ∀ m ∈ d.methods, m.InRow o.maxLocals

/-- A class that is tidy, or whose failure a request explains. -/
structure Sane (o : Options) (d : Draft) : Prop where
  failed : ∀ f, d.broken = some f → f.cause.isInternal = false
  rows : d.Rows o
  whole : d.broken = none → ∀ m ∈ d.methods, m.finished = false → m.Tidy

/-- A request explains why the call fails, if it does, and the class stays sane. -/
structure Fares (o : Options) (r : Except Failure α × Draft) : Prop where
  refused : ∀ f, r.1 = .error f → f.cause.isInternal = false
  sane : r.2.Sane o

theorem Rows.keeps {d' : Draft} (h : d.Rows o) (options : d'.options = d.options) (methods : d'.methods = d.methods) :
    d'.Rows o := ⟨options.trans h.options, h.limit, methods ▸ h.methods⟩

theorem Rows.low (h : d.Rows o) : d.options.maxLocals ≤ 65535 := h.options ▸ h.limit.2

theorem Sane.keeps {d' : Draft} (h : d.Sane o) (same : d'.broken = d.broken ∧ d'.options = d.options ∧ d'.methods = d.methods) :
    d'.Sane o :=
  ⟨same.1 ▸ h.failed, h.rows.keeps same.2.1 same.2.2, by rw [same.1, same.2.2]; exact h.whole⟩

theorem Sane.unusable (h : d.Sane o) (refused : d.unusable = some f) : f.cause.isInternal = false := by
  unfold Draft.unusable at refused
  split at refused
  · rename_i first broken
    cases refused
    exact h.failed first broken
  · split_ifs at refused
    cases refused
    rfl

theorem fares_fail (mild : f.cause.isInternal = false)
    (failed : ∀ f, d.broken = some f → f.cause.isInternal = false) (rows : d.Rows o) : Fares o (d.fail (α := α) f) := by
  refine ⟨fun g refused => ?_, fun g broken => ?_, ?_, fun whole => absurd whole (broken_fail f)⟩
  · cases refused
    rwa [Failure.cause_located]
  · unfold fail at broken
    split_ifs at broken
    · cases broken
      rwa [Failure.cause_located]
    · exact failed g broken
  · unfold fail
    split_ifs
    · exact rows.keeps rfl rfl
    · exact rows

theorem Fares.again (h : Fares o r) (failed : r = (.error f, d)) : Fares o ((.error f, d) : Except Failure β × Draft) := by
  subst failed
  refine ⟨fun g refused => h.refused g ?_, h.sane⟩
  cases refused
  rfl

theorem Fares.replying (h : Fares o r) (f : α → Reply) : Fares o (replying f r) := by
  refine ⟨fun g refused => h.refused g ?_, h.sane⟩
  obtain ⟨x, d⟩ := r
  cases x with
  | ok => cases refused
  | error e =>
    cases refused
    rfl

theorem fares_change (sober : a.Sober) (h : d.Sane o) : Fares o (d.change a) := by
  unfold change
  split
  · rename_i f refused
    exact ⟨fun g same => by cases same; exact h.unusable refused, h⟩
  · unfold attempt
    split
    · rename_i x d' ran
      exact ⟨by rintro _ ⟨⟩, h.keeps (sober.runs d _ d' ran).1⟩
    · rename_i e d' ran
      obtain ⟨same, mild⟩ := sober.runs d _ d' ran
      exact fares_fail (mild e rfl) (h.keeps same).failed (h.keeps same).rows

end Draft

namespace Method

theorem Tidy.like {m m' : Method} (h : m.Tidy) (code : m'.code = m.code)
    (frames : m'.frames = m.frames) (locals : m'.locals = m.locals) : m'.Tidy := by
  obtain ⟨sites, slots⟩ := h
  refine ⟨?_, locals ▸ slots⟩
  rw [scopes, code, frames]
  exact sites

section

variable {limit : Int} {place : String} {params : List (String × JType)} {m m' : Method}

theorem addParams_mild (failed : params.foldlM (fun m x =>
      if fits m limit x.2 then Except.ok (m.addLocal x.2 x.1 true false)
      else .error (overLimit m limit x.2 x.1, place)) m = .error e) : e.1.isInternal = false := by
  induction params generalizing m with
  | nil => cases failed
  | cons x params ih =>
    rw [List.foldlM_cons] at failed
    split at failed
    · exact ih failed
    · cases failed
      rfl

theorem addParams_inRow (run : params.foldlM (fun m x =>
      if fits m limit x.2 then Except.ok (m.addLocal x.2 x.1 true false)
      else .error (overLimit m limit x.2 x.1, place)) m = .ok m') (row : m.InRow limit)
    (values : ∀ x ∈ params, x.2.isVoid = false) : m'.InRow limit := by
  induction params generalizing m with
  | nil =>
    cases run
    exact row
  | cons x params ih =>
    obtain ⟨value, values⟩ := List.forall_mem_cons.mp values
    rw [List.foldlM_cons] at run
    by_cases room : fits m limit x.2 = true
    · rw [if_pos room] at run
      exact ih run (Step.inRow_addLocal row value room x.1 true false) values
    · rw [if_neg room] at run
      cases run

end

section

variable {number : Nat} {className : String} {limit : Int} {info : MethodInfo} {names : List String} {m : Method}

theorem create_mild (failed : create number className limit info names = .error e) : e.1.isInternal = false := by
  simp only [create, bind, Except.bind] at failed
  split at failed
  · rename_i ran
    cases failed
    exact addParams_mild ran
  · split_ifs at failed <;> cases failed

theorem Fresh.sites (fresh : m.Fresh types) (opened : m.finished = false) :
    ∃ ops, m.code.Bears m.code.pos (m.scopes.flatMap Scope.loose) ops ∧ Stacked m.scopes ops := by
  obtain ⟨code, -⟩ := fresh.nothing
  have scopes : m.scopes = [.body] := by
    rw [scopes, fresh.frames (fresh.finished.symm.trans opened)]
    rfl
  refine ⟨[], ?_, ?_⟩
  · rw [scopes, code]
    refine ⟨⟨Nat.zero_le _, ?_, .nil⟩, .nil, Nat.le_refl _⟩
    rintro _ ⟨⟩
  · rw [scopes]
    exact ⟨[], [], rfl, rfl, rfl⟩

theorem inRow_create (low : 0 ≤ limit) (values : ∀ t ∈ info.params, t.isVoid = false)
    (made : create number className limit info names = .ok m) : m.InRow limit := by
  simp only [create, bind, Except.bind] at made
  split at made
  · cases made
  · rename_i m' ran
    have row : m'.InRow limit := by
      refine addParams_inRow ran ⟨rfl, low⟩ fun x hx => ?_
      rcases List.mem_append.mp hx with receiver | given
      · split at receiver
        · cases receiver
        · simp [List.mem_singleton.mp receiver, JType.isVoid]
      · exact values _ (List.of_mem_zip given).2
    split_ifs at made <;> cases made <;> exact row

theorem tidy_create (low : limit ≤ 65535) (row : m.InRow limit) (made : create number className limit info names = .ok m)
    (opened : m.finished = false) : m.Tidy := by
  refine ⟨(fresh_create made).2.2.sites opened, fun l hl => ?_⟩
  have bound := Step.inRow_bounds row hl
  have room := row.2
  omega

end

end Method

namespace Draft

variable {α β : Type} {p : Provider} {d : Draft} {i : Nat} {access : Access} {ret : JType}
  {params : List (String × JType)} {name : String}

theorem fares_openMethod (h : d.Sane o) (whole : d.broken = none) (values : ∀ t ∈ m.params, t.isVoid = false) :
    Fares o (d.openMethod m names) := by
  unfold openMethod
  dsimp only
  split
  · rename_i e place failed
    exact fares_fail (f := .fault e place) (Method.create_mild failed) h.failed h.rows
  · rename_i method made
    rw [h.rows.options] at made
    have row := Method.inRow_create h.rows.limit.1 values made
    have grown : { d with methods := d.methods.push method }.Sane o := by
      refine ⟨h.failed, ⟨h.rows.options, h.rows.limit, forall_push h.rows.methods row⟩, fun _ => ?_⟩
      exact forall_push (h.whole whole) (Method.tidy_create h.rows.limit.2 row made)
    refine ⟨by rintro _ ⟨⟩, ?_⟩
    split_ifs
    · exact grown
    · exact grown.keeps ⟨rfl, rfl, rfl⟩

theorem fares_declare (h : d.Sane o) : Fares o (d.declare access ret name params) := by
  have changed := fares_change (sober_declareMethod access ret name params) h
  unfold declare
  split
  · rename_i ran
    exact changed.again ran
  · rename_i m d' ran
    rw [ran] at changed
    obtain ⟨whole, ⟨_, ⟨⟩, -, declared⟩ | ⟨⟨_, ⟨⟩⟩, -⟩⟩ := of_change ran fine_ok
    obtain ⟨declares, rfl⟩ := of_declareMethod declared
    exact fares_openMethod changed.sane whole declares.value

theorem fares_addMethod (h : d.Sane o) : Fares o (d.addMethod access ret name params) := by
  unfold addMethod
  split_ifs
  · exact fares_change (sober_throw rfl) h
  · exact fares_declare h

theorem fares_tryStep (h : d.Sane o) (orderly : a.Orderly) (meets : ∀ m, d.methods[i]? = some m → Step.Meets (d.context p) a (d.workOn m)
      fun _ w => d.broken = none → w.method.finished = false → w.method.Tidy) : Fares o (d.tryStep p i a) := by
  unfold tryStep
  by_cases lt : i < d.methods.size
  · have meets := meets d.methods[i] (Array.getElem?_eq_getElem lt)
    have row := orderly.row (d.context p) (d.workOn d.methods[i])
    rw [runStep_eq lt]
    cases ran : (a (d.context p)).run (d.workOn d.methods[i]) with
    | mk r w =>
      have rows : (d.put i w).Rows o := by
        rw [show a (d.context p) (d.workOn d.methods[i]) = _ from ran, context, h.rows.options] at row
        refine ⟨h.rows.options, h.rows.limit, fun m hm => ?_⟩
        rcases Array.mem_or_eq_of_mem_setIfInBounds hm with old | rfl
        · exact h.rows.methods m old
        · exact row (h.rows.methods _ (Array.getElem_mem lt))
      cases r with
      | ok x =>
        have tidy := meets.gives ran
        refine ⟨by rintro _ ⟨⟩, h.failed, rows, fun whole m hm opened => ?_⟩
        obtain ⟨j, hj⟩ := Array.mem_iff_getElem?.mp hm
        simp only [put, Array.getElem?_setIfInBounds] at hj
        split_ifs at hj
        · cases hj
          exact tidy whole opened
        · exact h.whole whole m (Array.mem_of_getElem? hj) opened
      | error e =>
        refine fares_fail ?_ h.failed rows
        exact ClassForge.Meets.fails meets ran
  · have failed : d.runStep p i a = (.error (.missingLocal, ""), d) := by
      unfold runStep
      simp [lt]
    rw [failed]
    refine fares_fail ?_ h.failed h.rows
    rfl

theorem Valid.settledLax (h : d.Valid lax) (found : d.methods[i]? = some m) (opened : m.finished = false) :
    Settled (lax i) (d.context p) (d.workOn m) := by
  obtain ⟨ctx, line, trail, settled⟩ := (h.methods i m found).opened opened
  exact settled.elsewhere (.refl _) h.pool (h.suits False.elim) trivial

end Draft

namespace Step

variable {ctx : Context} {w : Work}

theorem mild_entered : Mild entered := by
  refine ⟨fun ctx w => ?_, by grind [entered]⟩
  simp only [entered, meets_bind, meets_method]
  rw [meets_refuse]
  refine ⟨fun _ => rfl, fun _ => ?_⟩
  rw [meets_ite]
  exact ⟨fun _ => rfl, fun _ => trivial⟩

theorem mild_reachable : Mild reachable := by
  refine ⟨fun ctx w => ?_, by grind [reachable]⟩
  simp only [reachable, meets_bind, meets_top]
  rw [meets_ite]
  exact ⟨fun _ => rfl, fun _ => trivial⟩

theorem mild_forIn {xs : List α} {f : α → PUnit → Step (ForInStep PUnit)} (each : ∀ x y, Mild (f x y)) :
    Mild (forIn xs PUnit.unit f) := by
  induction xs with
  | nil => exact mild_pure _
  | cons x xs ih =>
    rw [List.forIn_cons]
    refine mild_bind (each x _) fun r => ?_
    cases r with
    | done => exact mild_pure _
    | yield => exact ih

theorem mild_throws (types : List JType) : Mild (throws types) := by
  have noted (ref : UInt16) (t : JType) : Mild (update fun m => { m with throws := m.throws.push (ref, t) }) :=
    ⟨fun _ _ => trivial, fun _ _ => id, fun _ _ _ => ⟨_, rfl⟩⟩
  refine mild_bind mild_read fun ctx => mild_bind (mild_forIn fun t _ => ?_) fun _ => mild_pure _
  dsimp only
  split
  · exact mild_bind (mild_throw rfl) fun _ => mild_bind (mild_pool _) fun _ => mild_bind (noted _ _) fun _ => mild_pure _
  · exact mild_bind (mild_pool _) fun _ => mild_bind (noted _ _) fun _ => mild_pure _

theorem orderly_requested (s : Statement) : Orderly (requested s) := by
  refine .bind mild_entered.2 fun _ => ?_
  split
  · exact .bind mild_reachable.2 fun _ => orderly_perform s
  · exact orderly_perform s

/-- A statement turns the method on, or fails where a request explains it. -/
theorem meets_requested (s : Statement) (settled : w.method.finished = false → Settled (lax i) ctx w)
    (limit : ctx.options.maxLocals ≤ 65535) (tidy : w.method.finished = false → w.method.Tidy) :
    Achieves ctx s w (requested s) := by
  unfold Achieves requested
  rw [meets_bind]
  refine mild_entered.meets fun _ _ enter => ?_
  obtain ⟨rfl, -, opened⟩ := of_entered enter
  have performs := meets_perform s (settled opened) limit (tidy opened)
  split
  · rw [meets_bind]
    refine mild_reachable.meets fun _ _ reach => ?_
    obtain ⟨rfl, -⟩ := of_reachable reach
    exact performs
  · exact performs

end Step

namespace Draft

variable {α β : Type} {p : Provider} {d : Draft} {i : Nat}

theorem fares_perform (h : d.Sane o) (valid : d.broken = none → d.Valid lax) : Fares o (d.perform p i s) := by
  unfold perform
  split
  · rename_i f refused
    exact ⟨by rintro _ ⟨⟩; exact h.unusable refused, h⟩
  · rename_i usable
    have whole := (unusable_none usable).1
    refine fares_tryStep h (Step.orderly_requested s) fun m found => ?_
    refine (Step.meets_requested s (fun opened => (valid whole).settledLax found opened) h.rows.low
      (h.whole whole m (Array.mem_of_getElem? found))).imp fun _ w outcome _ opened => outcome.tidy opened

theorem fares_build {b : Build} (h : d.Sane o) (valid : d.broken = none → d.Valid lax) : Fares o (d.build p i b) := by
  unfold build
  dsimp only
  split
  · rename_i e early
    refine fares_tryStep h .throw fun m found => ?_
    cases b <;> simp at early
    rw [← early.2]
    rfl
  · split
    · rename_i f refused
      split_ifs
      · exact fares_fail (h.unusable refused) h.failed h.rows
      · exact ⟨by rintro _ ⟨⟩; exact h.unusable refused, h⟩
    · rename_i usable
      have whole := (unusable_none usable).1
      refine fares_tryStep h (.bind Step.mild_entered.2 fun _ => .bind (Step.mild_build b).2 fun _ => .pure)
        fun m found => ?_
      rw [Step.meets_bind]
      refine Step.mild_entered.meets fun _ _ enter => ?_
      obtain ⟨rfl, -, opened⟩ := Step.of_entered enter
      rw [Step.meets_bind]
      refine (Step.mild_build b).meets fun x w run _ _ => ?_
      have settled := (valid whole).settledLax (p := p) found opened
      have calm := (Step.keeps_build b (P := lax i) False.elim (fun _ _ _ => trivial) settled.sound run).calm
      have tidy := h.whole whole m (Array.mem_of_getElem? found) opened
      exact tidy.like calm.code calm.frames calm.locals

theorem fares_throws {types : List JType} (h : d.Sane o) : Fares o (d.throws p i types) := by
  unfold throws
  split
  · rename_i f refused
    exact ⟨by rintro _ ⟨⟩; exact h.unusable refused, h⟩
  · refine fares_tryStep h (Step.mild_throws types).2 fun m found => (Step.mild_throws types).meets fun _ w run whole opened => ?_
    obtain ⟨-, -, throws, same⟩ := Step.of_throws run
    rw [same] at opened ⊢
    exact (h.whole whole m (Array.mem_of_getElem? found) opened).like rfl rfl rfl

theorem fares_annotate (keeps : ∀ d b, d.Sane o → (attach d b).Sane o)
    (as : List Annotation) (h : d.Sane o) : Fares o (d.annotate attach as) := by
  induction as generalizing d with
  | nil => exact ⟨by rintro _ ⟨⟩, h⟩
  | cons a as ih =>
    have changed := fares_change (sober_encoded a) h
    unfold annotate
    split
    · rename_i ran
      exact changed.again ran
    · rename_i b d' ran
      rw [ran] at changed
      exact ih (keeps d' b changed.sane)

theorem fares_annotateMethod {as : List Annotation} (h : d.Sane o) : Fares o (d.annotateMethod i as) := by
  refine fares_annotate (fun d b h => ?_) as h
  have each {Q : Method → Prop} (same : ∀ m annotations, Q m → Q { m with annotations }) (all : ∀ m ∈ d.methods, Q m) :
      ∀ m ∈ d.methods.modify i fun m => { m with annotations := m.annotations.push b }, Q m :=
    forall_modify all fun m hm => same m _ (all m hm)
  exact ⟨h.failed, ⟨h.rows.options, h.rows.limit, each (fun _ _ => id) h.rows.methods⟩, fun whole =>
    each (fun _ _ tidy opened => (tidy opened).like rfl rfl rfl) (h.whole whole)⟩

theorem fares_addMissingStaticInit (h : d.Sane o) (valid : d.broken = none → d.Valid lax) :
    Fares o (d.addMissingStaticInit p) := by
  unfold addMissingStaticInit
  split_ifs
  · have declared : Fares o d.addStaticInit := fares_declare h
    split
    · rename_i ran
      exact declared.again ran
    · rename_i j d' ran
      rw [ran] at declared
      have later : d'.broken = none → d'.Valid lax := fun whole =>
        ((valid (of_declare ran (.inr whole)).1).declared_served (p := p) (c := .addStaticInit)
          (by decide) (by rintro _ ⟨⟩) ran (.inr whole)).valid
      have closed := fares_perform (p := p) (i := j) (s := .close) declared.sane later
      split
      · rename_i performed
        exact closed.again performed
      · rename_i x d2 performed
        rw [performed] at closed
        exact ⟨by rintro _ ⟨⟩, closed.sane⟩
  · exact ⟨by rintro _ ⟨⟩, h⟩

theorem fares_bytes (h : d.Sane o) (valid : d.broken = none → d.Valid lax) : Fares o (d.bytes p) := by
  unfold bytes
  split
  · exact ⟨by rintro _ ⟨⟩, h⟩
  have checked := fares_change (sober_checkComplete p) h
  split
  · rename_i ran
    exact checked.again ran
  rename_i y d1 ran
  obtain ⟨whole, ⟨_, -, -, complete⟩ | ⟨⟨_, ⟨⟩⟩, -⟩⟩ := of_change ran fine_ok
  obtain ⟨rfl, -⟩ := of_checkComplete complete
  have added := fares_addMissingStaticInit (p := p) h valid
  split
  · rename_i ran
    exact added.again ran
  rename_i y d2 ran
  rw [ran] at added
  have noted : (d2.note .writing).Sane o := added.sane.keeps ⟨rfl, rfl, rfl⟩
  split
  · rename_i e d3 ran
    obtain ⟨same, mild⟩ := sober_serialize.runs _ _ _ ran
    have kept : (d3.note .notWritten).Sane o := (noted.keeps same).keeps ⟨rfl, rfl, rfl⟩
    exact fares_fail (mild e rfl) kept.failed kept.rows
  · rename_i out d3 ran
    exact ⟨by rintro _ ⟨⟩, (noted.keeps (sober_serialize.runs _ _ _ ran).1).keeps ⟨rfl, rfl, rfl⟩⟩

theorem fares_call (c : Call) (h : d.Sane o) (valid : d.broken = none → d.Valid lax) : Fares o (d.call p c) := by
  cases c with
  | addField => exact (fares_change (sober_addField _ _ _) h).replying _
  | initField => exact (fares_change (sober_initField _ _) h).replying _
  | addMethod => exact (fares_addMethod h).replying _
  | addConstructor | addStaticInit => exact (fares_declare h).replying _
  | throws => exact (fares_throws h).replying _
  | annotateClass as | annotateField j as =>
    refine (fares_annotate (fun d b h => ?_) as h).replying _
    exact h.keeps ⟨rfl, rfl, rfl⟩
  | annotateMethod => exact (fares_annotateMethod h).replying _
  | setLine n =>
    refine ⟨by rintro _ ⟨⟩, ?_⟩
    obtain ⟨line, same⟩ := d.setLine_eq n
    change (d.setLine n).Sane o
    rw [same]
    exact h.keeps ⟨rfl, rfl, rfl⟩
  | build => exact (fares_build h valid).replying _
  | perform => exact (fares_perform h valid).replying _
  | bytes => exact (fares_bytes h valid).replying _

section

variable {name : String} {options : Options}
  {f : Failure}

theorem attempt_mild (sober : a.Sober) (run : d.attempt a = (.error f, d')) : f.cause.isInternal = false := by
  unfold attempt at run
  split at run
  · cases run
  · rename_i e d1 ran
    have mild := (sober.runs d _ d1 ran).2 e rfl
    cases run
    rwa [Failure.cause_located]

theorem start_mild (failed : start access name super interfaces options tracer = .error e) : e.isInternal = false := by
  unfold start checkClassName at failed
  dsimp only at failed
  generalize (if access.isInterface = true then _ else _) = access at failed
  generalize (if super = "" then rootName else _) = super at failed
  split_ifs at failed <;> cases failed <;> rfl

theorem create_mild (failed : create p access name super interfaces options tracer = (.error f, recorder)) :
    f.cause.isInternal = false := by
  unfold create at failed
  split at failed
  · rename_i e refused
    cases failed
    exact start_mild refused
  · split at failed
    · cases failed
    · rename_i d started g d' attempted
      cases failed
      exact attempt_mild (sober_connect p) attempted

section

variable (made : create p access name super interfaces options tracer = (.ok d, recorder))

include made

theorem sane_create : d.Sane d.options := by
  obtain ⟨-, complete, -, methods, -, broken, -⟩ := of_create made
  refine ⟨fun f failed => ?_, ⟨rfl, ?_, by simp [methods]⟩, by simp [methods]⟩
  · rw [broken] at failed
    cases failed
  · rw [complete, Options.complete]
    dsimp only
    split_ifs <;> omega

theorem valid_after (calls : List (Provider × Call)) (whole : (d.after calls).broken = none) :
    (d.after calls).Valid lax :=
  (valid_create made).lax_after whole

theorem sane_after (calls : List (Provider × Call)) : (d.after calls).Sane d.options := by
  induction calls using List.reverseRecOn with
  | nil => exact sane_create made
  | append_singleton calls c ih =>
    rw [after_append]
    exact (fares_call c.2 ih (valid_after made calls)).sane

end

/-- A node can be emitted, as a value or as a test that leaves one branch on the stack. -/
theorem Valid.emits (h : d.Valid lax) (found : d.methods[i]? = some m) (opened : m.finished = false) (tidy : m.Tidy)
    (bears : m.code.Bears m.code.pos (m.scopes.flatMap Scope.loose) ops) (hn : n ∈ m.nodes) (want : Expr.Want) :
    Code.Does (n.expr.emit want) m.code fun _ c => ∃ mine, want.Leaves mine ∧
      List.Forall₂ (fun s (op : Opcode) => c.bytes[s]? = some op.byte) c.sites (mine ++ ops) := by
  have fine := (h.settledLax (p := library) found opened).sound.nodes n hn
  obtain ⟨mine, leaves, shifts⟩ := fine.fits tidy.slots want
  refine (shifts [] _ _ ops _ bears).imp fun _ c after => ⟨mine, leaves, ?_⟩
  simpa using after.shown

/-- Whatever is asked of a class, no call fails for a branch, scope or slot that the assembler
itself got wrong. While it has not failed, the open branches of every open method lie on its stack
scope by scope, and every node can be emitted. -/
theorem faults_explained {r : Except Failure Draft} (made : create p access name super interfaces options tracer = (r, recorder)) :
    (∀ f, r = .error f → f.Explained) ∧ ∀ d calls, r = .ok d →
      (∀ q c f, ((d.after calls).call q c).1 = .error f → f.Explained) ∧
      ((d.after calls).broken = none → ∀ m ∈ (d.after calls).methods, m.finished = false →
        ∃ ops, List.Forall₂ (fun s (op : Opcode) => m.code.bytes[s]? = some op.byte) m.code.sites ops ∧
          Stacked m.scopes ops ∧ ∀ n ∈ m.nodes, ∀ want, Code.Does (n.expr.emit want) m.code fun _ c =>
            ∃ mine, want.Leaves mine ∧
              List.Forall₂ (fun s (op : Opcode) => c.bytes[s]? = some op.byte) c.sites (mine ++ ops)) := by
  refine ⟨?_, ?_⟩
  · rintro f rfl
    exact Failure.explained (create_mild made)
  · rintro d calls rfl
    have sane := sane_after made calls
    refine ⟨fun q c f failed => ?_, fun whole m hm opened => ?_⟩
    · exact Failure.explained ((fares_call c sane (valid_after made calls)).refused f failed)
    · have tidy := sane.whole whole m hm opened
      obtain ⟨ops, bears, stacked⟩ := tidy.sites
      obtain ⟨i, found⟩ := Array.mem_iff_getElem?.mp hm
      refine ⟨ops, bears.shown, stacked, fun n hn want => ?_⟩
      exact (valid_after made calls whole).emits found opened tidy bears hn want

/-- In the loop of the counter, inside a guarded block, the test of the loop is the one open branch. -/
theorem faults_explained_counter : ∃ m ∈ (counter.after (counterCalls.take 10)).methods, m.finished = false ∧
    m.scopes.map Scope.level = [.loop, .guarded 0 none, .body] ∧ ∃ ops, Stacked m.scopes ops ∧
      List.Forall₂ (fun s (op : Opcode) => m.code.bytes[s]? = some op.byte) m.code.sites ops := by
  have facts : ((counter.after (counterCalls.take 10)).broken.isNone &&
      (counter.after (counterCalls.take 10)).methods[0]?.any fun m =>
        !m.finished && m.scopes.map Scope.level = [.loop, .guarded 0 none, .body]) = true := by decide +kernel
  rw [Bool.and_eq_true, Option.any_eq_true] at facts
  obtain ⟨whole, m, found, opened⟩ := facts
  rw [Bool.and_eq_true, Bool.not_eq_true', decide_eq_true_eq] at opened
  have hm := Array.mem_of_getElem? found
  obtain ⟨ops, shown, stacked, -⟩ :=
    ((faults_explained counter_created).2 _ _ rfl).2 (Option.isNone_iff_eq_none.mp whole) m hm opened.1
  exact ⟨m, hm, opened.1, opened.2, ops, stacked, shown⟩

end

end Draft

end ClassForge.Assembler

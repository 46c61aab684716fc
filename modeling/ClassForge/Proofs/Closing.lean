import ClassForge.Proofs.Jumps
import ClassForge.Proofs.Scopes

/-! The ends of arms and scopes: open branches land where they find what they established. -/

namespace ClassForge

open List Yields

namespace Segment

variable {g : Setting} {here : Option State}

theorem settle (h : Segment g opens here c) (arrives : ∀ f, here = some f → g.rules.Weaker e f) :
    Segment g opens (some e) c := by
  obtain ⟨spots, sites, cert, grows, split, carries⟩ := h
  obtain ⟨cert', more⟩ := cert.rehere g.floor fun f hf => ⟨e, rfl, arrives f hf⟩
  exact ⟨spots, sites, cert', grows.trans more, split, carries⟩

theorem reopen (h : Segment g opens here c) (extra : List Nat) (sub : ∀ s ∈ g.extra, s ∈ extra) :
    Segment { g with extra } opens here c := by
  obtain ⟨spots, sites, cert, grows, split, carries⟩ := h
  refine ⟨spots, sites, cert.mono_opened fun s hs => ?_, grows, split, carries⟩
  rcases mem_append.mp hs with stack | loose
  · exact mem_append_left _ stack
  · exact mem_append_right _ (sub s loose)

theorem popSites (h : Segment g opens (some e) c) (run : Yields (Assembler.Step.popSites n) c y c')
    (count : opens.length = n) (weaker : ∀ d ∈ opens, g.rules.Weaker e d) : Segment g [] (some e) c' := by
  induction opens generalizing n c with
  | nil =>
    subst count
    obtain ⟨-, rfl⟩ := pure_iff.mp run
    exact h
  | cons d opens ih =>
    subst count
    simp only [length_cons, Assembler.Step.popSites, bind_iff] at run
    obtain ⟨_, c1, first, rest⟩ := run
    have popped := h.popSite first (weaker d mem_cons_self) fun f hf => by
      cases hf
      exact .refl e
    exact ih popped rest rfl fun d hd => weaker d (mem_cons_of_mem _ hd)

end Segment

namespace Assembler

section

variable {P : Policy} {w : Work} {here : Option State} {spots : List Spot} {f g : Frame} {rest : List Frame}
  {below own : List Nat}

def Frame.after (g : Frame) : Option LocalSet → Frame
  | none => { g with closed := true }
  | some s => { g with assigned := s }

theorem Frame.outcome_eq (f g : Frame) : f.outcome g = g.after f.merged := by
  unfold outcome after
  cases f.merged <;> rfl

theorem Nested.leave (h : Nested L (g :: rest) sites)
    (fits : ∀ s, m = some s → g.assigned.Sub s ∧ s.Below L.locals.size) : Nested L (g.after m :: rest) sites := by
  have old := h.fits
  cases m with
  | none => exact h.retop ⟨old.sets, old.given⟩ rfl rfl rfl
  | some s =>
    obtain ⟨sub, below⟩ := fits s rfl
    refine h.retop ⟨fun t ht => ?_, old.given⟩ rfl rfl rfl
    rcases mem_cons.mp ht with rfl | other
    · exact ⟨(old.sets _ mem_cons_self).1.trans sub, below⟩
    · exact old.sets t (mem_cons_of_mem _ other)

theorem Laid.leaveScope (m : Option LocalSet) (plan : Plan P w [] [] here spots [] (own ++ below))
    (frames : w.method.frames = f :: g :: rest) (outer : Nested (w.layout P spots here) (g :: rest) below)
    (inherited : f.inherited = g.assigned) (opened : g.closed = false)
    (seg : Segment ⟨w.rules P, w.view spots here, below, (g :: rest).flatMap Frame.loose, w.method.floor⟩ [] here' c)
    (fits : ∀ s, m = some s → f.inherited.Sub s ∧ s.Below w.method.locals.size)
    (same : here' = m.map (atRest w.method.locals)) : Laid P ((w.withCode c).withFrames (g.after m :: rest)) []
    [] here' ∧ ((w.withCode c).withFrames (g.after m :: rest)).method.standing = here' := by
  obtain ⟨spots', sites, cert, grows, split, carries⟩ := seg
  cases carries
  have top : w.method.top = f := by rw [Method.top, frames]; rfl
  have floor : w.method.floor = slotsOf w.method.locals f.inherited := by rw [Method.floor, top]
  have grown : (w.layout P spots here).Le w.method.floor
      (((w.withCode c).withFrames (g.after m :: rest)).layout P spots' here') :=
    ⟨.refl _, grows, (Work.Le.refl w).locals⟩
  have lower : slotsOf w.method.locals g.inherited ⊆ slotsOf w.method.locals f.inherited := by
    rw [inherited]
    exact slotsOf_mono (outer.fits.sets _ mem_cons_self).1
  have after : (g.after m).inherited = g.inherited ∧ (g.after m).loose = g.loose := by
    cases m <;> exact ⟨rfl, rfl⟩
  refine ⟨⟨spots', [], below, ?_, split, .nil, ?_, plan.tables.grown (m := w.method) grown rfl,
    by simp, ?_⟩, ?_⟩
  · have loose : (g.after m :: rest).flatMap Frame.loose = (g :: rest).flatMap Frame.loose := by
      simp [after.2]
    simp only [Work.withFrames, loose]
    exact cert
  · refine (outer.later grown ?_).leave fun s hs => ?_
    · rw [floor]
      exact lower
    · rw [← inherited]
      exact fits s hs
  · intro d hd
    rw [same] at hd
    obtain ⟨s, rfl, rfl⟩ := Option.map_eq_some_iff.mp hd
    exact (lower.trans (slotsOf_mono (fits s rfl).1))
  · rw [same]
    cases m with
    | none => rfl
    | some s =>
      change (if g.closed then none else some (atRest w.method.locals s)) = _
      rw [opened]
      rfl

structure Inside (P : Policy) (w : Work) (here : Option State) (spots : List Spot) (g : Frame) (rest : List Frame)
    (own below : List Nat) : Prop where
  frames : w.method.frames = w.method.top :: g :: rest
  plan : Plan P w [] [] here spots [] (own ++ below)
  holds : w.method.top.Holds (w.layout P spots here) own
  outer : Nested (w.layout P spots here) (g :: rest) below
  inherited : w.method.top.inherited = g.assigned
  opened : g.closed = false

theorem Laid.inside (h : Laid P w [] [] here) (scope : w.method.top.scope = s) (inner : s ≠ .body) :
    ∃ spots g rest own below, Inside P w here spots g rest own below ∧ { w.method.top with scope := s }.Holds (w.layout P spots here) own := by
  subst scope
  obtain ⟨spots, none, sites, plan⟩ := h
  obtain rfl : none = [] := forall₂_nil_right_iff.mp plan.carries
  have frames := plan.frames
  have nested := plan.nested'
  cases tail : w.method.frames.tail with
  | nil =>
    rw [tail] at nested
    exact absurd nested.1 inner
  | cons g rest =>
    rw [tail] at nested frames
    obtain ⟨-, -, inherited, opened, own, below, rfl, holds, outer⟩ := nested
    exact ⟨spots, g, rest, own, below, ⟨frames, plan, holds, outer, inherited, opened⟩, holds⟩

namespace Inside

variable {own below : List Nat}

section

variable (h : Inside P w here spots g rest own below)

include h

theorem fits : w.method.top.Fits (w.layout P spots here) := h.plan.fits

theorem segment (deeper : List Nat) (split : own = tests ++ deeper)
    (carries : List.Forall₂ (Carries (w.rules P) spots) tests opens) :
    Segment ⟨w.rules P, w.view spots here, deeper ++ below, w.method.frames.flatMap Frame.loose, w.method.floor⟩
      opens here w.method.code := by
  refine Segment.start w.method.floor h.plan.cert ?_ carries
  rw [h.plan.split, split]
  simp

theorem loose : w.method.frames.flatMap Frame.loose = w.method.top.loose ++ (g :: rest).flatMap Frame.loose := by
  rw [h.frames]
  rfl

theorem popAll (m : Option LocalSet)
    (fits : ∀ s, m = some s → w.method.top.inherited.Sub s ∧ s.Below w.method.locals.size)
    (brings : ∀ s ∈ own, ∃ a, m = some a ∧ (w.layout P spots here).Brings s a)
    (arrives : ∀ d, here = some d → ∃ a, m = some a ∧ (w.rules P).Weaker (atRest w.method.locals a) d)
    (settled : w.method.top.loose = []) (run : Yields (Step.popSites own.length) w.method.code () c) :
    Laid P ((w.withCode c).withFrames (g.after m :: rest)) [] []
      ((w.withCode c).withFrames (g.after m :: rest)).method.standing := by
  have finish : ∀ here', here' = m.map (atRest w.method.locals) →
      Segment ⟨w.rules P, w.view spots here, below, w.method.frames.flatMap Frame.loose, w.method.floor⟩ [] here' c →
      Laid P ((w.withCode c).withFrames (g.after m :: rest)) [] []
        ((w.withCode c).withFrames (g.after m :: rest)).method.standing := by
    intro here' same seg
    have seg := seg.reopen ((g :: rest).flatMap Frame.loose) fun s hs => by
      simpa [h.loose, settled] using hs
    obtain ⟨laid, standing⟩ := Laid.leaveScope m h.plan h.frames h.outer h.inherited h.opened seg fits same
    rw [standing]
    exact laid
  cases m with
  | none =>
    have nothing : own = [] := by
      cases own with
      | nil => rfl
      | cons s own =>
        obtain ⟨a, missing, -⟩ := brings s mem_cons_self
        cases missing
    subst nothing
    have left : here = none := by
      cases here with
      | none => rfl
      | some d =>
        obtain ⟨a, missing, -⟩ := arrives d rfl
        cases missing
    obtain ⟨-, rfl⟩ := pure_iff.mp run
    exact finish here left (h.segment [] rfl .nil)
  | some a =>
    have carries : List.Forall₂ (Carries (w.rules P) spots) own (own.map fun _ => atRest w.method.locals a) := by
      rw [forall₂_map_right_iff, forall₂_same]
      intro s hs
      obtain ⟨b, same, carried⟩ := brings s hs
      cases same
      exact carried
    have seg := h.segment [] (append_nil own).symm carries
    have landed := (seg.settle (e := atRest w.method.locals a) fun d hd => ?_).popSites run (length_map _) fun d hd => ?_
    · exact finish _ rfl landed
    · obtain ⟨b, same, weaker⟩ := arrives d hd
      cases same
      exact weaker
    · obtain ⟨-, -, rfl⟩ := mem_map.mp hd
      exact .refl _

end

theorem rearm (inside : Inside P w here spots g rest own below)
    (seg : Segment ⟨w.rules P, w.view spots here, deeper ++ below, w.method.frames.flatMap Frame.loose, w.method.floor⟩
      opens here' c) (inner : f.scope ≠ .body) (loose : ∀ s ∈ w.method.top.loose, s ∈ f.loose)
    (inherited : f.inherited = w.method.top.inherited)
    (fits : ∀ s ∈ f.sets, f.inherited.Sub s ∧ s.Below w.method.locals.size)
    (holds : ∀ spots' top, (w.layout P spots here).Le w.method.floor ((w.withCode c).layout P spots' here') →
      List.Forall₂ (Carries (w.rules P) spots') top opens →
        f.Holds ((w.withCode c).layout P spots' here') (top ++ deeper))
    (above : ∀ d, here' = some d → w.method.floor ⊆ d.known) :
    Laid P ((w.withCode c).withFrames (f :: g :: rest)) [] [] here' := by
  obtain ⟨spots', top, cert, grows, split, carries⟩ := seg
  have grown : (w.layout P spots here).Le w.method.floor ((w.withCode c).layout P spots' here') :=
    ⟨.refl _, grows, (Work.Le.refl w).locals⟩
  have lower : slotsOf w.method.locals g.inherited ⊆ w.method.floor := by
    rw [Method.floor, inside.inherited]
    exact slotsOf_mono (inside.outer.fits.sets _ mem_cons_self).1
  refine ⟨spots', [], top ++ deeper ++ below, ?_, by rw [append_assoc]; exact split, .nil, ?_,
    inside.plan.tables.grown (m := w.method) grown rfl, by simp, ?_⟩
  · refine cert.mono_opened fun s hs => ?_
    simp only [inside.loose, Work.withFrames, flatMap_cons, mem_append] at hs ⊢
    tauto
  · refine ⟨inner, ⟨fits, ?_⟩, inherited.trans inside.inherited, inside.opened, top ++ deeper, below, rfl,
      holds spots' top grown carries, inside.outer.later grown lower⟩
    rw [inherited]
    exact inside.fits.given
  · intro d hd
    have := above d hd
    rw [Method.floor, ← inherited] at this
    exact this

end Inside

namespace Frame

variable {L : Layout}

theorem merge_merged (f : Frame) : f.merge.merged = if f.closed then f.merged else some (f.assigned.meet f.merged) := by
  unfold merge
  split <;> rfl

theorem merge_inherited (f : Frame) : f.merge.inherited = f.inherited := by
  unfold merge
  split <;> rfl

theorem Fits.merge (fits : f.Fits L) (h : f.merge.merged = some s) : f.inherited.Sub s ∧ s.Below L.locals.size := by
  rw [merge_merged] at h
  split at h
  · exact fits.sets s (mem_sets_merged h)
  · cases h
    obtain ⟨sub, below⟩ := fits.sets _ mem_cons_self
    exact ⟨sub.meet fun t ht => (fits.sets t (mem_sets_merged ht)).1, (LocalSet.meet_sub _ _).below below⟩

theorem Fits.rearm {scope : Scope} (fits : f.Fits L) (left : scope.left = none) : (f.merge.rearm scope).Fits L := by
  refine ⟨fun s hs => ?_, ?_⟩
  · simp only [Frame.sets, Frame.rearm, left, Option.toList_none, append_nil, mem_cons, Option.mem_toList,
      merge_inherited] at hs ⊢
    rcases hs with rfl | merged
    · exact ⟨.refl _, fits.below⟩
    · exact fits.merge merged
  · simp only [Frame.rearm, merge_inherited]
    exact fits.given

theorem brings_merge {outs : List Nat} (h : ∀ s ∈ outs, ∃ m, f.merged = some m ∧ L.Brings s m) :
    ∀ s ∈ outs, ∃ m, f.merge.merged = some m ∧ L.Brings s m := by
  intro s hs
  obtain ⟨m, merged, brings⟩ := h s hs
  rw [merge_merged]
  split
  · exact ⟨m, merged, brings⟩
  · rw [merged]
    exact ⟨_, rfl, brings.weaken (LocalSet.meet_sub_some _ _)⟩

end Frame

theorem standing_merge (h : w.method.standing = some d) :
    ∃ m, w.method.top.merge.merged = some m ∧ (w.rules P).Weaker (atRest w.method.locals m) d := by
  rw [Frame.merge_merged]
  unfold Method.standing at h
  split at h
  · cases h
  · rename_i opened
    cases h
    rw [if_neg opened]
    exact ⟨_, rfl, weaker_atRest (LocalSet.meet_sub _ _)⟩

namespace Step

theorem of_closeScope (frames : w.method.frames = f :: g :: rest) (run : Gives ctx closeScope w y w') :
    w' = w.withFrames (g.after f.merged :: rest) := by
  rw [closeScope, gives_update] at run
  rw [← run, ← Frame.outcome_eq]
  simp only [frames]
  rfl

theorem settled_endBranch {exits : Nat} (h : Settled P ctx w) (scope : w.method.top.scope = .branch arm exits)
    (run : Gives ctx (endBranch arm exits) w y w') : Settled P ctx w' := by
  obtain ⟨spots, g, rest, own, below, inside, tests, outs, rfl, rfl, tested, leave⟩ := h.laid.inside scope (by rintro ⟨⟩)
  dsimp only at tested leave
  have leave := Frame.brings_merge leave
  have loose : w.method.top.loose = [] := by rw [Frame.loose, scope]; rfl
  have fits : ∀ s, w.method.top.merge.merged = some s →
      w.method.top.inherited.Sub s ∧ s.Below w.method.locals.size := fun s hs => inside.fits.merge hs
  simp only [endBranch, gives_bind, gives_top, gives_setTop, looked, passed] at run
  by_cases last : arm = .last
  · rw [if_pos last] at tested
    subst last tested
    simp only [ne_eq, not_true_eq_false, if_false, gives_bind, coded] at run
    obtain ⟨_, c, ran, close⟩ := run
    obtain rfl := of_closeScope (f := w.method.top.merge) (by rw [inside.frames]; rfl) close
    have laid := inside.popAll _ fits leave (fun d hd => standing_merge hd) loose ran
    have settled : Settled P ctx ((w.withCode c).withFrames _) := stands_relaid h.sound laid
    exact settled
  · rw [if_neg last] at tested
    obtain ⟨t, rfl, brings⟩ := tested
    simp only [ne_eq, last, not_false_eq_true, if_true, gives_bind, gives_top, gives_setTop, looked, passed, coded] at run
    obtain ⟨_, c1, ran1, _, c2, ran2, close⟩ := run
    have ran : Yields (popSites ([t] ++ outs).length) w.method.code () c2 := by
      simp only [singleton_append, length_cons, popSites, bind_iff]
      exact ⟨(), c1, ran1, ran2⟩
    obtain rfl := of_closeScope (g := g) (by rw [inside.frames]; rfl) close
    -- behind the arms the failed test arrives as well, with no more than what was inherited
    have laid := inside.popAll (some (w.method.top.inherited.meet w.method.top.merge.merged)) ?_ ?_ ?_ loose ran
    · have settled : Settled P ctx ((w.withCode c2).withFrames _) := stands_relaid h.sound laid
      rw [← Frame.merge_inherited] at settled
      exact settled
    · rintro s ⟨⟩
      exact ⟨(LocalSet.Sub.refl _).meet fun a ha => (fits a ha).1, (LocalSet.meet_sub _ _).below inside.fits.below⟩
    · intro s hs
      refine ⟨_, rfl, ?_⟩
      rcases mem_append.mp hs with first | out
      · rw [mem_singleton.mp first]
        exact brings.weaken (LocalSet.meet_sub _ _)
      · obtain ⟨a, merged, brought⟩ := leave s out
        rw [merged]
        exact brought.weaken (LocalSet.meet_sub_some _ _)
    · intro d hd
      obtain ⟨a, merged, weaker⟩ := standing_merge (P := P) hd
      refine ⟨_, rfl, Rules.Weaker.trans (weaker_atRest ?_) weaker⟩
      rw [merged]
      exact LocalSet.meet_sub_some _ _

/-! The end of a loop: the jump back, then the failed test, then the breaks. -/

section Loop

variable {kind : LoopKind} {breaks own below : List Nat} {left : Option LocalSet}

def loopSetting (P : Policy) (w : Work) (here : Option State) (spots : List Spot) (g : Frame) (rest : List Frame)
    (breaks below : List Nat) : Setting :=
  ⟨w.rules P, w.view spots here, below, breaks ++ (g :: rest).flatMap Frame.loose, w.method.floor⟩

theorem branchBack_segment (inside : Inside P w here spots g rest own below)
    (scope : w.method.top.scope = .loop kind start breaks left)
    (seg : Segment (loopSetting P w here spots g rest breaks below) opens (some e) c)
    (run : Yields (Code.branchTo .goto start) c y c') (stack : e.stack = [])
    (known : slotsOf w.method.locals w.method.top.inherited ⊆ e.known) :
    Segment (loopSetting P w here spots g rest breaks below) opens none c' := by
  have holds := inside.holds
  simp only [Frame.Holds, scope] at holds
  obtain ⟨-, ⟨d, label, weaker⟩, -⟩ := holds
  have jumps : Opcode.goto.effect? = some ⟨[], []⟩ := by decide
  exact seg.branchTo run (by decide) (by decide) (fun _ => by rw [stack]; exact Nat.zero_le _)
    (fun _ => moves_op jumps e.stack rfl rfl) label (weaker.trans ⟨fun _ => stack.symm, known⟩) known

def loopTail (kind : LoopKind) (breaks : List Nat) (left : Option LocalSet) (f : Frame) : Step Unit := do
  if kind ≠ .test true then code Code.popSite
  code (do Code.resolveAll breaks (← get).pos)
  setTop { f with closed := false, merged := afterLoop kind f.inherited left }
  closeScope

theorem settled_breaks (sound : Sound P ctx w) (inside : Inside P w here spots g rest own below)
    (fits : ∀ s, m = some s → w.method.top.inherited.Sub s ∧ s.Below w.method.locals.size)
    (brings : ∀ s ∈ breaks, ∃ a, m = some a ∧ (w.layout P spots here).Brings s a)
    (seg : Segment (loopSetting P w here spots g rest breaks below) [] here' c)
    (arrives : ∀ d, here' = some d → ∃ a, m = some a ∧ (w.rules P).Weaker (atRest w.method.locals a) d)
    (run : Yields (Code.resolveAll breaks c.pos) c () c') :
    Settled P ctx ((w.withCode c').withFrames (g.after m :: rest)) := by
  have finish : ∀ here'', here'' = m.map (atRest w.method.locals) →
      Segment ⟨w.rules P, w.view spots here, below, (g :: rest).flatMap Frame.loose, w.method.floor⟩ [] here'' c' →
      Settled P ctx ((w.withCode c').withFrames (g.after m :: rest)) := by
    intro here'' same seg
    obtain ⟨laid, standing⟩ :=
      Laid.leaveScope m inside.plan inside.frames inside.outer inside.inherited inside.opened seg fits same
    exact (stands_relaid sound laid).settled standing
  cases m with
  | none =>
    have nothing : breaks = [] := by
      cases breaks with
      | nil => rfl
      | cons s breaks =>
        obtain ⟨a, missing, -⟩ := brings s List.mem_cons_self
        cases missing
    subst nothing
    have out : here' = none := by
      cases here' with
      | none => rfl
      | some d =>
        obtain ⟨a, missing, -⟩ := arrives d rfl
        cases missing
    simp only [Code.resolveAll, List.forM, pure_iff] at run
    obtain ⟨-, rfl⟩ := run
    exact finish here' out seg
  | some a =>
    refine finish (some (atRest w.method.locals a)) rfl (seg.resolveAll _ run (fun s hs => ?_) (fun d hd => ?_) fun s hs => ?_)
    · obtain ⟨b, same, carried⟩ := brings s hs
      cases same
      exact ⟨_, carried, .refl _⟩
    · obtain ⟨b, same, weaker⟩ := arrives d hd
      cases same
      exact weaker
    · exact List.mem_append.mp hs

theorem settled_loopTail (sound : Sound P ctx w) (inside : Inside P w here spots g rest own below)
    (scope : w.method.top.scope = .loop kind start breaks left)
    (seg : Segment (loopSetting P w here spots g rest breaks below)
      (own.map fun _ => atRest w.method.locals w.method.top.inherited) none c)
    (run : Gives ctx (loopTail kind breaks left w.method.top) (w.withCode c) y w') : Settled P ctx w' := by
  have holds := inside.holds
  simp only [Frame.Holds, scope] at holds
  obtain ⟨tested, -, broken, -⟩ := holds
  have leaves : ∀ s, left = some s → w.method.top.inherited.Sub s ∧ s.Below w.method.locals.size := fun s hs =>
    inside.fits.sets s (Frame.mem_sets_left (by rw [scope]; exact hs))
  unfold loopTail at run
  by_cases endless : kind = .test true
  · rw [if_pos endless] at tested
    subst endless tested
    simp only [ne_eq, not_true_eq_false, if_false, gives_bind, gives_setTop, passed, coded] at run
    obtain ⟨_, c', ran, close⟩ := run
    simp only [bind_iff, get_iff, looked] at ran
    obtain rfl := of_closeScope (g := g) (by rw [Work.withCode, inside.frames]; rfl) close
    have settled : Settled P ctx ((w.withCode c').withFrames (g.after left :: rest)) :=
      settled_breaks sound inside leaves broken seg (by rintro _ ⟨⟩) ran
    exact settled
  · rw [if_neg endless] at tested
    obtain ⟨t, rfl, brings⟩ := tested
    simp only [ne_eq, endless, not_false_eq_true, if_true, gives_bind, gives_setTop, passed, coded] at run
    obtain ⟨_, c1, popped, _, c2, ran, close⟩ := run
    simp only [bind_iff, get_iff, looked] at ran
    obtain rfl := of_closeScope (g := g) (by rw [Work.withCode, inside.frames]; rfl) close
    have after : afterLoop kind w.method.top.inherited left = some w.method.top.inherited := by
      unfold afterLoop
      split
      · exact absurd rfl endless
      · rfl
    have seg1 : Segment (loopSetting P w here spots g rest breaks below) []
        (some (atRest w.method.locals w.method.top.inherited)) c1 :=
      Segment.popSite seg popped (.refl _) (by rintro _ ⟨⟩)
    have settled := settled_breaks (m := some w.method.top.inherited) sound inside ?_ ?_ seg1 ?_ ran
    · rw [← after] at settled
      exact settled
    · rintro s ⟨⟩
      exact ⟨.refl _, inside.fits.below⟩
    · intro s hs
      obtain ⟨m, hm, brought⟩ := broken s hs
      exact ⟨_, rfl, brought.weaken (leaves m hm).1⟩
    · rintro d ⟨⟩
      exact ⟨_, rfl, .refl _⟩

theorem loop_segment (inside : Inside P w here spots g rest own below)
    (scope : w.method.top.scope = .loop kind start breaks left) :
    Segment ⟨w.rules P, w.view spots here, below, w.method.frames.flatMap Frame.loose, w.method.floor⟩
      (own.map fun _ => atRest w.method.locals w.method.top.inherited) here w.method.code := by
  have holds := inside.holds
  simp only [Frame.Holds, scope] at holds
  refine inside.segment [] (append_nil own).symm ?_
  rw [forall₂_map_right_iff, forall₂_same]
  intro s hs
  have tested := holds.1
  split_ifs at tested
  · rw [tested] at hs
    cases hs
  · obtain ⟨t, rfl, brings⟩ := tested
    rw [mem_singleton.mp hs]
    exact brings

theorem settled_loopBack (closed : Bool) (sound : Sound P ctx w)
    (inside : Inside P w here spots g rest own below) (scope : w.method.top.scope = .loop kind start breaks left)
    (seg : Segment (loopSetting P w here spots g rest breaks below)
      (own.map fun _ => atRest w.method.locals w.method.top.inherited) (if closed then none else some e) c)
    (stack : e.stack = []) (known : slotsOf w.method.locals w.method.top.inherited ⊆ e.known)
    (run : Gives ctx (do
      if !closed then code (Code.branchTo .goto start)
      loopTail kind breaks left w.method.top) (w.withCode c) y w') : Settled P ctx w' := by
  cases closed with
  | true => exact settled_loopTail sound inside scope seg run
  | false =>
    simp only [Bool.not_false, if_true, gives_bind, coded] at run
    obtain ⟨_, c', ran, run⟩ := run
    exact settled_loopTail sound inside scope (branchBack_segment inside scope seg ran stack known) run

end Loop

variable {breaks : List Nat}

theorem settled_endLoop (h : Settled P ctx w) (scope : w.method.top.scope = .loop kind start breaks left)
    (run : Gives ctx (endLoop kind start breaks left) w y w') : Settled P ctx w' := by
  obtain ⟨spots, g, rest, own, below, inside, -, -, -, continued⟩ := h.laid.inside scope (by rintro ⟨⟩)
  have seg := loop_segment inside scope
  simp only [endLoop, gives_bind, gives_top, looked] at run
  have plain : w.method.top.loose = breaks →
      Gives ctx (do
        if !w.method.top.closed then code (Code.branchTo .goto start)
        loopTail kind breaks left w.method.top) w y w' → Settled P ctx w' := by
    intro loose run
    have seg := seg.reopen (breaks ++ (g :: rest).flatMap Frame.loose) fun s hs => by
      simpa only [inside.loose, loose] using hs
    exact settled_loopBack _ h.sound inside scope seg rfl (slotsOf_mono h.laid.inherited) run
  cases kind with
  | test | items =>
    simp only [gives_bind, gives_pure, looked] at run
    exact plain (by rw [Frame.loose, scope]; rfl) run
  | array counter continues =>
    obtain ⟨⟨counts, held⟩, brings⟩ := continued counter continues rfl
    by_cases stepped : (!w.method.top.closed || !continues.isEmpty) = true
    · dsimp only at run
      rw [if_pos stepped] at run
      simp only [gives_bind, gives_pure, looked, coded] at run
      obtain ⟨_, c, ran, run⟩ := run
      simp only [bind_iff, get_iff, looked] at ran
      obtain ⟨_, c1, resolve, inc⟩ := ran
      have seg1 := seg.resolveAll (e := atRest w.method.locals w.method.top.inherited)
        (breaks ++ (g :: rest).flatMap Frame.loose) resolve (fun s hs => ⟨_, brings s hs, .refl _⟩)
        (fun d hd => ?_) fun s hs => ?_
      · have seg2 := seg1.iinc inc held (fun _ => counts) (fun _ => Nat.zero_le _) fun _ hs => hs
        exact settled_loopBack false h.sound inside scope seg2 rfl (fun _ hs => hs) run
      · unfold Method.standing at hd
        split at hd
        · cases hd
        · cases hd
          exact weaker_atRest h.laid.inherited
      · simp only [inside.loose, Frame.loose, scope, Scope.loose, List.mem_append] at hs ⊢
        tauto
    · dsimp only at run
      rw [if_neg stepped] at run
      simp only [gives_bind, gives_pure, looked] at run
      simp only [Bool.or_eq_true, Bool.not_eq_true', not_or, Bool.not_eq_false, List.isEmpty_iff] at stepped
      obtain ⟨closed, rfl⟩ := stepped
      refine plain ?_ ?_
      · rw [Frame.loose, scope]
        exact List.append_nil breaks
      · rw [closed]
        exact run

theorem settled_endGuarded {caught : List JType}
    (h : Settled P ctx w) (scope : w.method.top.scope = .guarded start stop exits caught)
    (run : Gives ctx (endGuarded stop exits) w y w') : Settled P ctx w' := by
  obtain ⟨spots, g, rest, own, below, inside, rfl, -, leave⟩ := h.laid.inside scope (by rintro ⟨⟩)
  unfold endGuarded at run
  split_ifs at run with unhandled
  · simp at run
  simp only [gives_bind, gives_top, gives_setTop, looked, passed, coded] at run
  obtain ⟨_, c, ran, close⟩ := run
  simp only [bind_iff, get_iff, looked] at ran
  obtain rfl := of_closeScope (f := w.method.top.merge) (by rw [inside.frames]; rfl) close
  have seg := (inside.segment [] (by rfl) .nil).reopen (exits ++ (g :: rest).flatMap Frame.loose) fun s hs => by
    simpa only [inside.loose, Frame.loose, scope, Scope.loose] using hs
  have settled : Settled P ctx ((w.withCode c).withFrames (g.after w.method.top.merge.merged :: rest)) :=
    settled_breaks h.sound inside (fun s hs => inside.fits.merge hs) (Frame.brings_merge leave) seg
      (fun d hd => standing_merge hd) ran
  exact settled

/-! The next arm of an if chain. -/

theorem of_chainExits (run : Gives ctx (chainExits what) w n w') :
    w = w' ∧ ∃ arm, arm ≠ .last ∧ w.method.top.scope = .branch arm n := by
  simp only [chainExits, gives_bind, gives_top, looked] at run
  split at run
  · obtain ⟨rfl, rfl⟩ := gives_pure.mp run
    exact ⟨rfl, .first, by rintro ⟨⟩, ‹_›⟩
  · obtain ⟨rfl, rfl⟩ := gives_pure.mp run
    exact ⟨rfl, .next, by rintro ⟨⟩, ‹_›⟩
  · simp at run

theorem settled_skipArm {exits : Nat} (h : Settled P ctx w)
    (scope : w.method.top.scope = .branch arm exits) (another : arm ≠ .last) (run : Gives ctx (skipArm exits) w n w') :
    Settled P ctx (w'.withFrames (w'.method.top.rearm (.branch .last n) :: w'.method.frames.tail)) ∧
      w'.method.top = w.method.top.merge ∧ w.Le w' := by
  obtain ⟨spots, g, rest, own, below, inside, -⟩ := h.laid.inside scope (by rintro ⟨⟩)
  have holds := inside.holds
  simp only [Frame.Holds, scope, another, if_false] at holds
  obtain ⟨tests, outs, rfl, rfl, ⟨t, rfl, brings⟩, leave⟩ := holds
  have start := inside.segment outs (by rfl) (.cons brings .nil)
  have leave := Frame.brings_merge leave
  have inherited := w.method.top.merge_inherited
  have loose : ∀ s ∈ w.method.top.loose, s ∈ ([] : List Nat) := by
    rw [Frame.loose, scope]
    exact fun s hs => hs
  have tail : w.method.frames.tail = g :: rest := by rw [inside.frames]; rfl
  have fits : (w.method.top.merge.rearm (.branch .last n)).Fits _ := inside.fits.rearm rfl
  simp only [skipArm, gives_bind, gives_top, gives_setTop, looked, passed] at run
  have finish : ∀ c, Laid P ((w.withCode c).withFrames (w.method.top.merge.rearm (.branch .last n) :: g :: rest)) [] []
      (some (atRest w.method.locals w.method.top.inherited)) →
      Settled P ctx ((w.withCode c).withFrames (w.method.top.merge.rearm (.branch .last n) :: w.method.frames.tail)) := by
    intro c laid
    rw [tail]
    refine (stands_relaid h.sound laid).settled ?_
    rw [← inherited]
    rfl
  have above : ∀ d, some (atRest w.method.locals w.method.top.inherited) = some d → w.method.floor ⊆ d.known := by
    rintro d ⟨⟩
    exact fun _ hs => hs
  cases closed : w.method.top.closed with
  | true =>
    simp only [closed, if_true, gives_bind, gives_pure, coded] at run
    obtain ⟨_, c, ran, rfl, rfl⟩ := run
    have popped := start.popSite ran (.refl _) fun d hd => by
      rw [Method.standing, closed] at hd
      cases hd
    refine ⟨finish c (inside.rearm popped (by rintro ⟨⟩) loose inherited fits.sets (fun spots' top grown carries => ?_) above), rfl,
      .of_locals (.refl _) (Nat.le_refl _) rfl rfl⟩
    cases carries
    refine ⟨[], outs, rfl, rfl, rfl, fun s hs => ?_⟩
    obtain ⟨m, merged, brought⟩ := leave s hs
    exact ⟨m, merged, brought.later grown (inside.fits.merge merged).2⟩
  | false =>
    simp only [closed, Bool.false_eq_true, if_false, gives_bind, gives_pure, coded] at run
    obtain ⟨_, c, ran, rfl, rfl⟩ := run
    simp only [bind_iff] at ran
    obtain ⟨_, c1, push, _, c2, swap, pop⟩ := ran
    have jumps : Opcode.goto.effect? = some ⟨[], []⟩ := by decide
    have stands : w.method.standing = some (atRest w.method.locals w.method.top.assigned) := by
      rw [Method.standing, closed]
      rfl
    rw [stands] at start
    have pushed : Segment _ (atRest w.method.locals w.method.top.assigned :: _) none c1 :=
      start.pushSite push (by decide) (fun _ => Nat.zero_le _) (fun _ => moves_op jumps [] rfl rfl) (fun _ hs => hs)
        (.inl (by decide)) (slotsOf_mono h.laid.inherited)
    have popped := (pushed.swapSites swap).popSite pop (.refl _) (by rintro _ ⟨⟩)
    rw [← stands] at popped
    refine ⟨finish c (inside.rearm popped (by rintro ⟨⟩) loose inherited fits.sets (fun spots' top grown carries => ?_) above), rfl,
      .of_locals (.refl _) (Nat.le_refl _) rfl rfl⟩
    obtain ⟨s, none, first, nothing, rfl⟩ := forall₂_cons_right_iff.mp carries
    cases nothing
    refine ⟨[], s :: outs, rfl, rfl, rfl, fun s' hs => ?_⟩
    rcases mem_cons.mp hs with rfl | out
    · have merged : w.method.top.merge.merged = some (w.method.top.assigned.meet w.method.top.merged) := by
        rw [Frame.merge_merged, closed]
        rfl
      exact ⟨_, merged, Layout.Brings.weaken first (LocalSet.meet_sub _ _)⟩
    · obtain ⟨m, merged, brought⟩ := leave s' out
      exact ⟨m, merged, brought.later grown (inside.fits.merge merged).2⟩

theorem settled_elseOpen (h : Settled P ctx w) (run : Gives ctx elseOpen w y w') : Settled P ctx w' := by
  simp only [elseOpen, gives_bind, gives_top, gives_setTop, gives_method, looked, passed] at run
  obtain ⟨exits, _, chain, n, w1, skip, render⟩ := run
  obtain ⟨rfl, arm, another, scope⟩ := of_chainExits chain
  obtain ⟨settled, -⟩ := settled_skipArm h scope another skip
  exact settled.calm (Calm.render settled.sound render)

end Step

theorem Calm.withFrames (h : Calm P ctx w w') (frames : List Frame) :
    Calm P ctx (w.withFrames frames) (w'.withFrames frames) := by
  have le : (w.withFrames frames).Le (w'.withFrames frames) :=
    ⟨h.le.pool, h.le.stack, h.le.given, h.le.locals, h.le.next, h.le.fresh⟩
  exact ⟨le, h.sound.reshape, h.code, rfl, h.handlers, h.locals, h.info, h.lines⟩

theorem Laid.retest (h : Laid P w [] [atRest w.method.locals w.method.top.inherited] here)
    (scope : w.method.top.scope = .branch .last n) : Laid P (w.withFrames ({ w.method.top with scope := .branch .next n } :: w.method.frames.tail)) [] [] here := by
  obtain ⟨spots, own, below, plan⟩ := h
  obtain ⟨t, none, first, nothing, rfl⟩ := forall₂_cons_right_iff.mp plan.carries
  cases nothing
  have nested := plan.nested'
  cases tail : w.method.frames.tail with
  | nil =>
    rw [tail] at nested
    rw [nested.1] at scope
    cases scope
  | cons g rest =>
    rw [tail] at nested
    obtain ⟨-, fits, inherited, opened, own, below, rfl, holds, outer⟩ := nested
    simp only [Frame.Holds, scope, if_true] at holds
    obtain ⟨tests, outs, rfl, rfl, rfl, leave⟩ := holds
    refine ⟨spots, [], t :: (outs ++ below), ?_, plan.split, .nil, ?_,
      ⟨plan.tables.guards, plan.tables.lines, plan.tables.locals⟩, by simp, plan.above⟩
    · have loose : w.method.frames.flatMap Frame.loose = (g :: rest).flatMap Frame.loose := by
        rw [plan.frames, tail, flatMap_cons, Frame.loose, scope]
        rfl
      have cert := plan.cert
      rw [loose] at cert
      exact cert
    · refine ⟨by rintro ⟨⟩, ⟨?_, fits.given⟩, inherited, opened, t :: outs, below, rfl, ?_, outer⟩
      · have sets := fits.sets
        simp only [Frame.sets, scope] at sets
        exact sets
      · exact ⟨[t], outs, rfl, rfl, ⟨t, rfl, first⟩, leave⟩

namespace Step

theorem settled_elseIf {condition : Operand} (h : Settled P ctx w) (run : Gives ctx (elseIf condition) w y w') :
    Settled P ctx w' := by
  simp only [elseIf, gives_bind, gives_top, looked] at run
  obtain ⟨exits, _, chain, x, w1, tested, run⟩ := run
  obtain ⟨rfl, arm, another, scope⟩ := of_chainExits chain
  obtain ⟨e, claimed, made, adapted, truth⟩ := test_spec h.sound tested
  split at run
  · simp at run
  rename_i inherits
  simp only [gives_bind, gives_top, gives_setTop, gives_method, looked, passed] at run
  obtain ⟨n, w2, skip, _, w3, mark, _, w4, reserve, emit⟩ := run
  obtain ⟨settled, top, le⟩ := settled_skipArm (h.calm made.calm) (made.calm.top ▸ scope) another skip
  obtain ⟨c, ran, rfl⟩ := gives_code.mp emit
  -- until its test is written the arm counts as the last one
  have sound : Sound P ctx (w2.withFrames (w2.method.top.rearm (.branch .next n) :: w2.method.frames.tail)) :=
    settled.sound.reshape
  have marked := Calm.mark sound mark
  obtain ⟨reserved, room⟩ := Calm.reserve marked.sound reserve
  have calm := marked.trans reserved
  have stands := (settled.opened rfl).calm
    (calm.withFrames (w2.method.top.rearm (.branch .last n) :: w2.method.frames.tail))
  have adapted : Adapted P w4 e x := adapted.later (le.trans
    ⟨calm.le.pool, calm.le.stack, calm.le.given, calm.le.locals, calm.le.next, calm.le.fresh⟩)
  have fine : Fine P (w4.withFrames (w2.method.top.rearm (.branch .last n) :: w2.method.frames.tail)) x.expr :=
    ⟨adapted.fine.good, adapted.fine.reads, adapted.fine.type⟩
  have branched := stands.test fine (fun _ => truth) (fun _ => ?_)
    (fun _ => by simp only [Word.depth_nil, Nat.zero_add]; exact Nat.le_trans room (Nat.le_add_right _ _)) ran
  · have known : (w2.withFrames (w2.method.top.rearm (.branch .last n) :: w2.method.frames.tail)).known =
        slotsOf w4.method.locals w2.method.top.inherited := by
      rw [calm.locals]
      rfl
    rw [known] at branched
    have laid := Laid.retest branched.laid rfl
    have settled := (branched.withFrames laid).settled rfl
    have frames : w4.method.frames = w2.method.top.rearm (.branch .next n) :: w2.method.frames.tail := calm.frames
    have same : w4.withCode c = (w4.withCode c).withFrames (w2.method.top.rearm (.branch .next n) :: w2.method.frames.tail) := by
      rw [← frames]
      rfl
    change Settled P ctx (w4.withCode c)
    rw [same]
    exact settled
  · have slots := fine.slots (s := w2.method.top.inherited) fun l hl => ?_
    · change ∀ l ∈ x.expr.reads, l.slot ∈ slotsOf w2.method.locals w2.method.top.inherited
      have locals : w4.method.locals = w2.method.locals := calm.locals
      rw [← locals]
      exact slots
    · rw [top, Frame.merge_inherited]
      simpa using find?_eq_none.mp inherits l hl

end Step

end

end Assembler

end ClassForge

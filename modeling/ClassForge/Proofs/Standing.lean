import ClassForge.Proofs.Frames

/-! Methods whose code is certified up to the current position, and how steps carry that on. -/

namespace ClassForge.Assembler

open List

def Method.standing (m : Method) : Option State :=
  if m.top.closed then none else some (atRest m.locals m.top.assigned)

def Method.floor (m : Method) : Set Nat := slotsOf m.locals m.top.inherited

namespace Work

def known (w : Work) : Set Nat := slotsOf w.method.locals w.method.top.assigned

def withCode (w : Work) (code : Code) : Work := { w with method := { w.method with code } }

def withFrames (w : Work) (frames : List Frame) : Work := { w with method := { w.method with frames } }

def view (w : Work) (spots : List Spot) (here : Option State) : View := ⟨spots, w.method.code.bytes.size, here⟩

def layout (P : Policy) (w : Work) (spots : List Spot) (here : Option State) : Layout :=
  ⟨w.rules P, w.view spots here, w.method.locals⟩

end Work

/-- The certificate `spots` of a method's code. The sites `own` on top establish `opens`, the scopes
answer for the sites `below`, and later code may jump to `marks`. -/
structure Plan (P : Policy) (w : Work) (marks : List (Nat × State)) (opens : List State) (here : Option State)
    (spots : List Spot) (own below : List Nat) : Prop where
  cert : Certified (w.rules P) w.method.code.bytes
    (w.method.code.sites ++ w.method.frames.flatMap Frame.loose) spots here
  split : w.method.code.sites = own ++ below
  carries : List.Forall₂ (Carries (w.rules P) spots) own opens
  nested : Nested (w.layout P spots here) w.method.frames below
  tables : w.method.Tables (w.rules P) (w.view spots here)
  marked : ∀ m ∈ marks, ∃ d, (w.view spots here).At m.1 d ∧ (w.rules P).Weaker d m.2
  above : ∀ d, here = some d → w.method.floor ⊆ d.known

def Laid (P : Policy) (w : Work) (marks : List (Nat × State)) (opens : List State) (here : Option State) : Prop :=
  ∃ spots own below, Plan P w marks opens here spots own below

section

variable {P : Policy} {ctx : Context} {w w' : Work} {marks : List (Nat × State)} {opens : List State}
  {here : Option State} {spots : List Spot} {own below : List Nat}

theorem Nested.exists_cons (h : Nested L frames sites) : ∃ f rest, frames = f :: rest := by
  cases frames with
  | nil => exact h.elim
  | cons f rest => exact ⟨f, rest, rfl⟩

namespace Plan

variable (h : Plan P w marks opens here spots own below)

include h

theorem frames : w.method.frames = w.method.top :: w.method.frames.tail := by
  obtain ⟨f, rest, frames⟩ := h.nested.exists_cons
  rw [Method.top, frames]
  rfl

theorem nested' : Nested (w.layout P spots here) (w.method.top :: w.method.frames.tail) below := h.frames ▸ h.nested

theorem fits : w.method.top.Fits (w.layout P spots here) := h.nested'.fits

end Plan

namespace Laid

section

variable (h : Laid P w marks opens here)

include h

theorem frames : w.method.frames = w.method.top :: w.method.frames.tail := by
  obtain ⟨_, _, _, plan⟩ := h
  exact plan.frames

theorem assigned_below : w.method.top.assigned.Below w.method.locals.size := by
  obtain ⟨_, _, _, plan⟩ := h
  exact (plan.fits.sets _ mem_cons_self).2

theorem given : w.method.given ⊆ w.method.floor := by
  obtain ⟨_, _, _, plan⟩ := h
  exact plan.fits.given

theorem inherited : w.method.top.inherited.Sub w.method.top.assigned := by
  obtain ⟨_, _, _, plan⟩ := h
  exact (plan.fits.sets _ mem_cons_self).1

theorem above : ∀ d, here = some d → w.method.floor ⊆ d.known := by
  obtain ⟨_, _, _, plan⟩ := h
  exact plan.above

theorem later (le : w.Le w') (code : w'.method.code = w.method.code)
    (frames : w'.method.frames = w.method.frames) (handlers : w'.method.handlers = w.method.handlers)
    (lines : ∀ r ∈ w'.method.lines, r ∈ w.method.lines ∨ r.pc = w.method.code.pos)
    (locals : ∀ l ∈ w'.method.locals, l ∈ w.method.locals ∨ l.param = false ∧ l.start = w.method.code.pos) :
    Laid P w' marks opens here := by
  obtain ⟨spots, own, below, plan⟩ := h
  have top : w'.method.top = w.method.top := by rw [Method.top, frames]; rfl
  have view : w'.view spots here = w.view spots here := by rw [Work.view, code]; rfl
  have floor : w'.method.floor = w.method.floor := by
    rw [Method.floor, top]
    exact le.locals.slotsOf plan.fits.below
  have grown : (w.layout P spots here).Le w.method.floor (w'.layout P spots here) :=
    ⟨le.rules P, by rw [Work.layout, Work.layout, view]; exact .refl _ _ _, le.locals⟩
  refine ⟨spots, own, below, ?_, ?_, ?_, ?_, ?_, ?_, ?_⟩
  · rw [code, frames]
    exact plan.cert.mono (le.rules P)
  · rw [code]
    exact plan.split
  · exact plan.carries.imp fun _ _ c => c.mono (le.rules P)
  · rw [frames, plan.frames]
    exact plan.nested'.later grown fun _ hs => hs
  · exact plan.tables.later grown handlers lines locals
  · rw [view]
    intro m hm
    obtain ⟨d, found, weaker⟩ := plan.marked m hm
    exact ⟨d, found, (le.rules P).weaker weaker⟩
  · rw [floor]
    exact plan.above

theorem emit (step : ∀ (base : View) (below extra : List Nat),
      (∃ sites, Nested ⟨w.rules P, base, w.method.locals⟩ w.method.frames sites) →
      Segment ⟨w.rules P, base, below, extra, w.method.floor⟩ opens here w.method.code →
      Segment ⟨w.rules P, base, below, extra, w.method.floor⟩ opens' here' c)
    (above : ∀ d, here' = some d → w.method.floor ⊆ d.known) : Laid P (w.withCode c) marks opens' here' := by
  obtain ⟨spots, own, below, plan⟩ := h
  have start := Segment.start w.method.floor plan.cert plan.split plan.carries
  obtain ⟨spots', own', cert, grows, split, carries⟩ := step _ _ _ ⟨below, plan.nested⟩ start
  have grown : (w.layout P spots here).Le w.method.floor ((w.withCode c).layout P spots' here') :=
    ⟨.refl _, grows, (Work.Le.refl w).locals⟩
  refine ⟨spots', own', below, cert, split, carries, ?_, ?_, ?_, above⟩
  · have nested := plan.nested'.later grown fun _ hs => hs
    rw [← plan.frames] at nested
    exact nested
  · exact plan.tables.grown grown rfl
  · intro m hm
    obtain ⟨d, found, weaker⟩ := plan.marked m hm
    obtain ⟨e, arrives, less⟩ := grows.states _ d found
    exact ⟨e, arrives, less.trans weaker⟩

end

theorem mark (h : Laid P w marks opens (some d)) : Laid P w ((w.method.code.pos, d) :: marks) opens (some d) := by
  obtain ⟨spots, own, below, plan⟩ := h
  refine ⟨spots, own, below, { plan with marked := fun m hm => ?_ }⟩
  rcases mem_cons.mp hm with rfl | old
  · exact ⟨d, .inr ⟨rfl, rfl⟩, .refl d⟩
  · exact plan.marked m old

theorem unmark (h : Laid P w marks opens here) : Laid P w [] opens here := by
  obtain ⟨spots, own, below, plan⟩ := h
  exact ⟨spots, own, below, { plan with marked := by simp }⟩

theorem retop (h : Laid P w marks opens here)
    (fits : w.method.top.assigned.Sub f.assigned ∧ f.assigned.Below w.method.locals.size)
    (scope : f.scope = w.method.top.scope) (inherited : f.inherited = w.method.top.inherited)
    (merged : f.merged = w.method.top.merged) : Laid P (w.withFrames (f :: w.method.frames.tail)) marks opens here := by
  obtain ⟨spots, own, below, plan⟩ := h
  have old := plan.fits
  have fits' : f.Fits (w.layout P spots here) := by
    refine ⟨fun s hs => ?_, ?_⟩
    · simp only [Frame.sets, mem_cons, scope, merged] at hs
      rcases hs with rfl | other
      · exact ⟨inherited ▸ (old.sets _ mem_cons_self).1.trans fits.1, fits.2⟩
      · rw [inherited]
        exact old.sets s (mem_cons_of_mem _ other)
    · rw [inherited]
      exact old.given
  refine ⟨spots, own, below, ?_, plan.split, plan.carries, plan.nested'.retop fits' scope inherited merged,
    ⟨plan.tables.guards, plan.tables.lines, plan.tables.locals⟩, plan.marked, ?_⟩
  · have loose : (f :: w.method.frames.tail).flatMap Frame.loose = w.method.frames.flatMap Frame.loose := by
      rw [plan.frames]
      simp [Frame.loose, scope]
    have cert := plan.cert
    rw [← loose] at cert
    exact cert
  · intro d hd
    have := plan.above d hd
    change slotsOf w.method.locals f.inherited ⊆ _
    rwa [inherited]

end Laid

/-! Nodes, entries, texts and estimates change; code and scopes do not. -/

structure Calm (P : Policy) (ctx : Context) (w w' : Work) : Prop where
  le : w.Le w'
  sound : Sound P ctx w'
  code : w'.method.code = w.method.code
  frames : w'.method.frames = w.method.frames
  handlers : w'.method.handlers = w.method.handlers
  locals : w'.method.locals = w.method.locals
  info : w'.method.info = w.method.info
  lines : ∀ r ∈ w'.method.lines, r ∈ w.method.lines ∨ r.pc = w.method.code.pos

theorem Sound.later (sound : Sound P ctx w) (le : w.Le w') (pool : w'.pool = w.pool)
    (nodes : w'.method.nodes = w.method.nodes) (info : w'.method.info = w.method.info)
    (declared : P.declared w'.method.declaration)
    (live : (w'.method.bodiless, w'.method.finished) = (w.method.bodiless, w.method.finished))
    (locals : P.typed → ∀ l ∈ w'.method.locals, l.type.kind ≠ .void ∧ l.type.NoVoidArray) : Sound P ctx w' where
  nodes := by
    rw [nodes]
    exact fun n hn => le.fine (sound.nodes n hn)
  receiver := by
    rw [info, le.given]
    exact fun inst => ⟨(sound.receiver inst).1, le.holds _ _ (sound.receiver inst).2⟩
  live := by
    obtain ⟨bodiless, finished⟩ := Prod.mk.inj live
    rw [bodiless, finished]
    exact sound.live
  constructor := info ▸ sound.constructor
  pool := pool ▸ sound.pool
  kept := pool ▸ sound.kept
  declared := declared
  fields f hf := pool ▸ sound.fields f hf
  boxing := sound.boxing
  apart := le.apart sound.apart
  typed typed := ⟨(sound.typed typed).classes, (sound.typed typed).fields, locals typed⟩

theorem Sound.reshape (sound : Sound P ctx w) : Sound P ctx { w with method := { w.method with code, frames, handlers } } :=
  sound.later (.of_locals (.refl _) (Nat.le_refl _) rfl rfl) rfl rfl rfl sound.declared rfl fun typed => (sound.typed typed).locals

theorem Made.calm (made : Made P ctx w w') : Calm P ctx w w' where
  le := made.le
  sound := made.sound
  code := by rw [made.method]
  frames := by rw [made.method]
  handlers := by rw [made.method]
  locals := by rw [made.method]
  info := by rw [made.method]
  lines r hr := .inl (by rwa [made.method] at hr)

namespace Calm

variable {kind : String} {y : Unit}

theorem refl (sound : Sound P ctx w) : Calm P ctx w w := ⟨.refl w, sound, rfl, rfl, rfl, rfl, rfl, fun _ => .inl⟩

theorem trans (h : Calm P ctx w v) (k : Calm P ctx v w') : Calm P ctx w w' :=
  ⟨h.le.trans k.le, k.sound, k.code.trans h.code, k.frames.trans h.frames, k.handlers.trans h.handlers,
    k.locals.trans h.locals, k.info.trans h.info, fun r hr => (k.lines r hr).elim (h.lines r) fun pc => .inr (h.code ▸ pc)⟩

theorem top (h : Calm P ctx w w') : w'.method.top = w.method.top := by
  rw [Method.top, h.frames]
  rfl

theorem standing (h : Calm P ctx w w') : w'.method.standing = w.method.standing := by
  rw [Method.standing, h.top, h.locals]
  rfl

theorem of_update (sound : Sound P ctx w) (same : m = { w.method with
      statements := m.statements, lines := m.lines, rendered := m.rendered, maxStack := m.maxStack,
      superCalled := m.superCalled }) (stack : w.method.maxStack ≤ m.maxStack) (declared : P.declared m.declaration)
    (lines : ∀ r ∈ m.lines, r ∈ w.method.lines ∨ r.pc = w.method.code.pos) : Calm P ctx w ⟨m, w.pool, line, trail⟩ := by
  have le : w.Le ⟨m, w.pool, line, trail⟩ :=
    .of_locals (.refl _) stack (by rw [same]) (by rw [same])
  refine ⟨le, sound.later le rfl ?_ ?_ declared ?_ fun typed => ?_, ?_, ?_, ?_, ?_, ?_, lines⟩
  · rw [same]
  · rw [same]
  · rw [same]
  · rw [same]
    exact (sound.typed typed).locals
  all_goals rw [same]

theorem mem_addLine {lines : Array LineRow} (h : r ∈ Step.addLine lines pc line) : r ∈ lines ∨ r.pc = pc := by
  unfold Step.addLine at h
  split at h
  · split_ifs at h
    · refine (Array.mem_push.mp h).imp (fun old => ?_) (congrArg LineRow.pc)
      rw [Array.mem_def, Array.toList_pop] at old
      exact Array.mem_def.mpr (mem_of_mem_dropLast old)
    · exact (Array.mem_push.mp h).imp_right (congrArg LineRow.pc)
  · exact (Array.mem_push.mp h).imp_right (congrArg LineRow.pc)

theorem mark (sound : Sound P ctx w) (run : Step.Gives ctx (Step.mark kind depth text) w y w') : Calm P ctx w w' := by
  rw [Step.gives_mark] at run
  subst run
  exact of_update sound rfl (Nat.le_refl _) sound.declared fun _ => mem_addLine

theorem render (sound : Sound P ctx w) (run : Step.Gives ctx (Step.render depth text) w y w') : Calm P ctx w w' := by
  rw [Step.gives_render] at run
  subst run
  exact of_update sound rfl (Nat.le_refl _) sound.declared fun _ => .inl

theorem reserve (sound : Sound P ctx w)
    (run : Step.Gives ctx (Step.reserve words) w y w') : Calm P ctx w w' ∧ words ≤ w'.method.maxStack := by
  rw [Step.gives_reserve] at run
  subst run
  exact ⟨of_update sound rfl (Nat.le_max_left _ _) sound.declared fun _ => .inl, Nat.le_max_right _ _⟩

end Calm

theorem Laid.calm (h : Laid P w marks opens here) (calm : Calm P ctx w w') : Laid P w' marks opens here :=
  h.later calm.le calm.code calm.frames calm.handlers calm.lines fun _ hl => .inl (calm.locals ▸ hl)

theorem Work.le_addLocal (w : Work) (t : JType) (name : String) (hidden : Bool) :
    w.Le { w with method := w.method.addLocal t name false hidden } := by
  refine ⟨.refl _, Nat.le_refl _, ?_, fun id x hx => ⟨x, ?_, rfl, rfl⟩, Nat.le_add_right _ _, fun l hl other => ?_⟩
  · ext slot
    simp only [Method.given, Method.addLocal, Array.mem_push, Set.mem_ofPred_eq]
    constructor
    · rintro ⟨l, old | rfl, param, rfl⟩
      · exact ⟨l, old, param, rfl⟩
      · cases param
    · rintro ⟨l, old, param, rfl⟩
      exact ⟨l, .inl old, param, rfl⟩
  · obtain ⟨lt, -⟩ := Array.getElem?_eq_some_iff.mp hx
    simp only [Method.addLocal]
    rw [Array.getElem?_push_lt lt]
    rwa [Array.getElem?_eq_getElem lt] at hx
  · rcases Array.mem_push.mp hl with old | rfl
    · exact .inl ⟨l, old, other, rfl⟩
    · exact .inr (Nat.le_refl _)

theorem Sound.allocate {hidden : Bool} {id : Nat} (sound : Sound P ctx w)
    (proper : P.typed → (t.resolve ctx.name).kind ≠ .void ∧ (t.resolve ctx.name).NoVoidArray)
    (run : Step.Gives ctx (Step.allocate t name hidden) w id w') : Sound P ctx w' := by
  obtain ⟨-, rfl, rfl⟩ := Step.gives_allocate.mp run
  refine sound.later (w.le_addLocal _ _ _) rfl rfl rfl sound.declared rfl fun typed => ?_
  exact forall_push (sound.typed typed).locals (proper typed)

structure Stands (P : Policy) (ctx : Context) (w : Work) (marks : List (Nat × State)) (opens : List State)
    (here : Option State) : Prop where
  sound : Sound P ctx w
  laid : Laid P w marks opens here

def Settled (P : Policy) (ctx : Context) (w : Work) : Prop := Stands P ctx w [] [] w.method.standing

theorem Fine.slots (fine : Fine P w e)
    (assigned : ∀ l ∈ e.reads, s.contains l.id = true) : ∀ l ∈ e.reads, l.slot ∈ slotsOf w.method.locals s := by
  intro l hl
  obtain ⟨x, found, slot⟩ := fine.reads l hl
  exact ⟨l.id, x, found, assigned l hl, slot⟩

namespace Stands

variable {s : List Word} {known : Set Nat} {t : JType} {id : Nat} {y : Unit}

theorem calm (h : Stands P ctx w marks opens here) (calm : Calm P ctx w w') : Stands P ctx w' marks opens here :=
  ⟨calm.sound, h.laid.calm calm⟩

theorem code (h : Stands P ctx w marks opens here)
    (step : ∀ (base : View) (below extra : List Nat),
      Segment ⟨w.rules P, base, below, extra, w.method.floor⟩ opens here w.method.code →
      Segment ⟨w.rules P, base, below, extra, w.method.floor⟩ opens' here' c)
    (above : ∀ d, here' = some d → w.method.floor ⊆ d.known) : Stands P ctx (w.withCode c) marks opens' here' where
  sound := h.sound.reshape
  laid := h.laid.emit (fun base below extra _ => step base below extra) above

section

variable (h : Stands P ctx w marks opens (some ⟨s, known⟩))

include h

theorem above : w.method.floor ⊆ known := h.laid.above _ rfl

theorem ready (slots : P.strict → ∀ l ∈ reads, l.slot ∈ known)
    (room : P.typed → Word.depth s + need ≤ w.method.maxStack + Method.stackSlack) :
    Expr.Ready (w.rules P) ⟨s, known⟩ need reads :=
  ⟨room, slots, h.laid.given.trans h.above⟩

theorem value (fine : Fine P w e) (slots : P.strict → ∀ l ∈ e.reads, l.slot ∈ known)
    (room : P.typed → Word.depth s + e.need ≤ w.method.maxStack + Method.stackSlack)
    (run : Yields (e.emit .value) w.method.code () c) :
    Stands P ctx (w.withCode c) marks opens (some ⟨e.type.words ++ s, known⟩) := by
  refine h.code (fun base below extra seg => ?_) fun d hd => by cases hd; exact h.above
  have emits : Expr.Emits ⟨w.rules P, base, below, extra, w.method.floor⟩ known e := fine.good.emits
  exact emits.value (h.ready slots room) h.above seg run

theorem values (fine : ∀ e ∈ es, Fine P w e) (slots : P.strict → ∀ e ∈ es, ∀ l ∈ e.reads, l.slot ∈ known)
    (room : P.typed → Word.depth s + Expr.needSeq 0 es ≤ w.method.maxStack + Method.stackSlack)
    (run : Yields (Expr.emitAll es) w.method.code () c) :
    Stands P ctx (w.withCode c) marks opens (some ⟨Expr.argWords es ++ s, known⟩) := by
  refine h.code (fun base below extra seg => ?_) fun d hd => by cases hd; exact h.above
  have emits : ∀ e ∈ es, Expr.Emits ⟨w.rules P, base, below, extra, w.method.floor⟩ known e := fun e he =>
    (fine e he).good.emits
  refine Expr.leads_emitAll emits (h.ready (fun strict l hl => ?_) room) h.above seg run
  obtain ⟨e, he, read⟩ := Expr.mem_readsAll.mp hl
  exact slots strict e he l read

theorem test (fine : Fine P w e)
    (truth : P.typed → e.type.words = [.int]) (slots : P.strict → ∀ l ∈ e.reads, l.slot ∈ known)
    (room : P.typed → Word.depth s + e.need ≤ w.method.maxStack + Method.stackSlack)
    (run : Yields (e.emit (.jump false)) w.method.code () c) :
    Stands P ctx (w.withCode c) marks (⟨s, known⟩ :: opens) (some ⟨s, known⟩) := by
  refine h.code (fun base below extra seg => ?_) fun d hd => by cases hd; exact h.above
  have emits : Expr.Emits ⟨w.rules P, base, below, extra, w.method.floor⟩ known e := fine.good.emits
  exact emits.jump (h.ready slots room) truth h.above seg run

end

theorem store (h : Stands P ctx w marks opens (some ⟨t.words ++ s, known⟩)) (held : (w.rules P).holds slot t.kind) (value : P.typed → t.kind ≠ .void)
    (room : P.typed → Word.depth (t.words ++ s) ≤ w.method.maxStack + Method.stackSlack)
    (run : Yields (Code.store t slot) w.method.code () c) :
    Stands P ctx (w.withCode c) marks opens (some ⟨s, insert slot known⟩) := by
  refine h.code (fun base below extra seg => ?_) fun d hd => ?_
  · exact seg.store run held value room h.above fun _ hs => hs
  · cases hd
    exact h.above.trans (Set.subset_insert _ _)

theorem restack {t : List Word} (h : Stands P ctx w marks opens (some ⟨s, known⟩)) (same : P.typed → s = t) :
    Stands P ctx w marks opens (some ⟨t, known⟩) := by
  have stands : Stands P ctx (w.withCode w.method.code) marks opens (some ⟨t, known⟩) :=
    h.code (fun _ _ _ seg => seg.restack same) fun d hd => by cases hd; exact h.above
  exact stands

theorem settled (h : Stands P ctx w marks [] here) (same : w.method.standing = here) : Settled P ctx w :=
  ⟨h.sound, same ▸ h.laid.unmark⟩

theorem withFrames (h : Stands P ctx w marks opens here)
    (laid : Laid P (w.withFrames frames) marks' opens' here') :
    Stands P ctx (w.withFrames frames) marks' opens' here' where
  sound := h.sound.reshape
  laid := laid

theorem assign (h : Stands P ctx w marks opens here) (lt : id < w.method.locals.size)
    (run : Step.Gives ctx (Step.assign id) w y w') : Stands P ctx w' marks opens here := by
  rw [Step.gives_assign] at run
  subst run
  refine h.withFrames (h.laid.retop ⟨LocalSet.sub_insert _ _, ?_⟩ rfl rfl rfl)
  exact h.laid.assigned_below.insert lt

theorem close (h : Stands P ctx w marks [] none) (run : Step.Gives ctx Step.close w y w') : Settled P ctx w' := by
  rw [Step.gives_close] at run
  subst run
  have laid := h.laid.retop (f := { w.method.top with closed := true }) ⟨.refl _, h.laid.assigned_below⟩ rfl rfl rfl
  exact (h.withFrames laid).settled rfl

theorem keeps_known (h : Stands P ctx w marks opens here) (le : w.Le w') (frames : w'.method.frames = w.method.frames) :
    w'.known = w.known := by
  have top : w'.method.top = w.method.top := by rw [Method.top, frames]; rfl
  rw [Work.known, top, le.locals.slotsOf h.laid.assigned_below]
  rfl

theorem allocate {name : String} {hidden : Bool} (h : Stands P ctx w marks opens here)
    (proper : P.typed → (t.resolve ctx.name).kind ≠ .void ∧ (t.resolve ctx.name).NoVoidArray)
    (run : Step.Gives ctx (Step.allocate t name hidden) w id w') :
    Stands P ctx w' marks opens here ∧ w.Le w' ∧ w'.method.frames = w.method.frames ∧ w'.known = w.known ∧
      ∃ l, w'.method.locals[id]? = some l ∧ l.param = false ∧ l.type = t.resolve ctx.name := by
  have sound := h.sound.allocate proper run
  obtain ⟨-, rfl, rfl⟩ := Step.gives_allocate.mp run
  have le := w.le_addLocal (t.resolve ctx.name) name hidden
  refine ⟨⟨sound, h.laid.later le rfl rfl rfl (fun _ => .inl) fun l hl => ?_⟩, le, rfl, h.keeps_known le rfl, _,
    Array.getElem?_push_size, rfl, rfl⟩
  exact (Array.mem_push.mp hl).imp_right fun new => by rw [new]; exact ⟨rfl, rfl⟩

end Stands

theorem Laid.openScope (h : Laid P w marks opens here) (scope : Scope) (first : Nat)
    (opened : w.method.top.closed = false) (inner : scope ≠ .body) (loose : scope.loose = []) (left : scope.left = none)
    (standing : ∀ d, here = some d → slotsOf w.method.locals w.method.top.assigned ⊆ d.known)
    (holds : ∀ spots own below, Plan P w marks opens here spots own below →
      Frame.Holds (w.layout P spots here) ⟨scope, w.method.top.assigned, w.method.top.assigned, none, false, first⟩
        own) :
    Laid P (w.withFrames (⟨scope, w.method.top.assigned, w.method.top.assigned, none, false, first⟩ ::
      w.method.frames)) [] [] here := by
  obtain ⟨spots, own, below, plan⟩ := h
  have fits := plan.fits
  have fits' : Frame.Fits (w.layout P spots here)
      ⟨scope, w.method.top.assigned, w.method.top.assigned, none, false, first⟩ := by
    refine ⟨fun s hs => ?_, fits.given.trans (slotsOf_mono (fits.sets _ mem_cons_self).1)⟩
    simp only [Frame.sets, left, Option.toList_none, append_nil, mem_singleton] at hs
    subst hs
    exact ⟨.refl _, (fits.sets _ mem_cons_self).2⟩
  refine ⟨spots, [], own ++ below, ?_, plan.split, .nil, ?_, ⟨plan.tables.guards, plan.tables.lines, plan.tables.locals⟩,
    by simp, standing⟩
  · have cert := plan.cert
    simp only [Work.withFrames, flatMap_cons, Frame.loose, loose, nil_append]
    exact cert
  · have nested := plan.nested'
    rw [plan.frames]
    exact ⟨inner, fits', rfl, opened, own, below, rfl, holds spots own below plan, nested⟩

end

end ClassForge.Assembler

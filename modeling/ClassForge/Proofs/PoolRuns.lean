import ClassForge.Proofs.Reading
import Mathlib.Data.List.Induction
import Mathlib.Data.List.Nodup

/-! Runs of requests to the constant pool: what they keep, and how the pool is written. -/

namespace ClassForge

open List Option Pool Constant Writer

/-- The entries that a constant refers to, with the kind that each has to be of. -/
def Constant.parts : Constant → List (UInt16 × Tag)
  | .classRef name => [(name, .utf8)]
  | .string text => [(text, .utf8)]
  | .nameAndType name descriptor => [(name, .utf8), (descriptor, .utf8)]
  | .member _ owner spelling => [(owner, .classRef), (spelling, .nameAndType)]
  | _ => []

namespace Pool

/-! The order of the entries. -/

/-- Indices are given out in order, the map and the entries agree, and entries refer to earlier ones
only. -/
structure Ordered (p : Pool) : Prop where
  numbered : Numbered 1 p.entries.toList p.count
  room : p.count ≤ 65535
  indexed : ∀ (c : Constant) (i : UInt16), p.indices[c]? = some i ↔ (i, c) ∈ p.entries.toList
  points : ∀ before e behind, p.entries.toList = before ++ e :: behind →
    ∀ x ∈ e.2.parts, ∃ f ∈ before, f.1 = x.1 ∧ f.2.tag = x.2
  short : ∀ e ∈ p.entries.toList, e.2.Short

/-- Entries are only added, and those that are there keep their indices. -/
structure Grows (p q : Pool) : Prop where
  entries : p.entries.toList <+: q.entries.toList
  indices : ∀ (c : Constant) (i : UInt16), p.indices[c]? = some i → q.indices[c]? = some i

theorem Numbered.nodup {entries : List (UInt16 × Constant)} (h : Numbered n entries m) : (entries.map Prod.fst).Nodup := by
  induction entries generalizing n with
  | nil => exact nodup_nil
  | cons e entries ih =>
    rw [map_cons, nodup_cons]
    refine ⟨?_, ih h.2⟩
    intro again
    obtain ⟨f, hf, same⟩ := mem_map.mp again
    have later := (h.2.range hf).1
    have width := e.2.tag.width_pos
    rw [same, h.1] at later
    omega

variable {p q : Pool} {c d : Constant} {i j : UInt16}

theorem get?_of_mem (distinct : (p.entries.toList.map Prod.fst).Nodup) (he : (i, c) ∈ p.entries.toList) :
    p.get? i = some c := by
  unfold get?
  cases found : p.entries.find? fun e => e.1 == i with
  | none =>
    rw [Array.find?_eq_none] at found
    exact absurd (beq_self_eq_true i) (found (i, c) (Array.mem_toList_iff.mp he))
  | some e =>
    have mem := Array.mem_toList_iff.mpr (Array.mem_of_find?_eq_some found)
    have same : e.1 = (i, c).1 := by simpa using Array.find?_some found
    rw [inj_on_of_nodup_map distinct mem he same]
    rfl

theorem mem_of_get? (found : p.get? i = some c) : (i, c) ∈ p.entries.toList := by
  obtain ⟨e, there, rfl⟩ := map_eq_some_iff.mp found
  have same : e.1 = i := by simpa using Array.find?_some there
  rw [← same]
  exact Array.mem_toList_iff.mpr (Array.mem_of_find?_eq_some there)

namespace Ordered

theorem sound (h : p.Ordered) : p.Sound where
  numbered := h.numbered
  room := h.room
  remembered c i found := get?_of_mem h.numbered.nodup ((h.indexed c i).mp found)

theorem get?_iff (h : p.Ordered) : p.get? i = some c ↔ p.indices[c]? = some i := by
  rw [h.indexed]
  exact ⟨mem_of_get?, get?_of_mem h.numbered.nodup⟩

theorem empty : Pool.empty.Ordered where
  numbered := rfl
  room := by decide
  indexed c i := by simp [Pool.empty]
  points before e behind same := by simp [Pool.empty] at same
  short := by simp [Pool.empty]

theorem push (h : p.Ordered) (room : p.next + c.tag.width - 1 ≤ lastIndex) (absent : p.indices[c]? = none)
    (short : c.Short) (parts : ∀ x ∈ c.parts, ∃ d, p.get? x.1 = some d ∧ d.tag = x.2) : (p.push c).Ordered where
  numbered := (h.sound.push room).numbered
  room := (h.sound.push room).room
  indexed d i := by
    have old := h.indexed d i
    simp only [Pool.push, Std.TreeMap.getElem?_insert, Array.toList_push, mem_append, mem_singleton,
      Prod.mk.injEq]
    split_ifs with same
    · obtain rfl := eq_of_compare same
      rw [absent] at old
      have missing : (i, c) ∉ p.entries.toList := fun he => by cases old.mpr he
      constructor
      · intro given
        cases given
        exact .inr ⟨rfl, rfl⟩
      · rintro (there | ⟨rfl, -⟩)
        · exact absurd there missing
        · rfl
    · have other : d ≠ c := by
        rintro rfl
        exact same Std.ReflCmp.compare_self
      rw [old]
      simp [other]
  points before e behind same := by
    simp only [Pool.push, Array.toList_push] at same
    rcases eq_nil_or_concat behind with rfl | ⟨behind, last, rfl⟩
    · obtain ⟨rfl, last⟩ := append_inj' same rfl
      obtain rfl := singleton_inj.mp last
      intro x hx
      obtain ⟨d, found, tag⟩ := parts x hx
      exact ⟨(x.1, d), mem_of_get? found, rfl, tag⟩
    · rw [concat_eq_append, ← cons_append, ← append_assoc] at same
      exact h.points before e behind (append_inj' same rfl).1
  short e he := by
    simp only [Pool.push, Array.toList_push, mem_append, mem_singleton] at he
    rcases he with old | rfl
    · exact h.short e old
    · exact short

end Ordered

namespace Grows

theorem refl (p : Pool) : p.Grows p := ⟨List.prefix_refl _, fun _ _ h => h⟩

theorem trans (h : p.Grows q) (k : q.Grows r) : p.Grows r :=
  ⟨h.entries.trans k.entries, fun c i found => k.indices c i (h.indices c i found)⟩

theorem push (absent : p.indices[c]? = none) : p.Grows (p.push c) where
  entries := by simp [Pool.push]
  indices d i found := by
    simp only [Pool.push, Std.TreeMap.getElem?_insert]
    split_ifs with same
    · obtain rfl := eq_of_compare same
      rw [absent] at found
      cases found
    · exact found

theorem le (h : p.Grows q) : p.Le q := by
  obtain ⟨more, same⟩ := h.entries
  intro index c found
  unfold get? at found ⊢
  obtain ⟨e, there, rfl⟩ := map_eq_some_iff.mp found
  rw [← Array.find?_toList] at there ⊢
  rw [← same, find?_append, there]
  rfl

end Grows

/-! What each request does, also when it is refused half way. -/

variable {pre : Pool → Prop} {r : Request} {s : String} {α β : Type} {a : Action α}

/-- Where `pre` holds, the action keeps the order, only adds entries, and finds the pool full only at its end. -/
def Keeps {α : Type} (pre : Pool → Prop) (a : Action α) : Prop :=
  ∀ p, p.Ordered → pre p →
    (a p).2.Ordered ∧ p.Grows (a p).2 ∧ ((a p).1 = .error .full → lastIndex ≤ (a p).2.count)

theorem keeps_intern (c : Constant) :
    Keeps (fun p => c.Short ∧ ∀ x ∈ c.parts, ∃ d, p.get? x.1 = some d ∧ d.tag = x.2) (intern c) := by
  rintro p ordered ⟨short, parts⟩
  unfold intern
  cases found : p.indices[c]? with
  | some i => exact ⟨ordered, .refl p, by rintro ⟨⟩⟩
  | none =>
    split_ifs with full
    · refine ⟨ordered, .refl p, fun _ => ?_⟩
      have width : c.tag.width ≤ 2 := by
        unfold Tag.width
        split <;> decide
      change lastIndex ≤ p.next
      omega
    · exact ⟨ordered.push (Nat.le_of_not_lt full) found short parts, .push found, by rintro ⟨⟩⟩

theorem Keeps.weaken (h : Keeps pre a)
    (less : ∀ p, pre' p → pre p) : Keeps pre' a := fun p ordered holds => h p ordered (less p holds)

theorem Keeps.bind (first : Keeps pre a) (finds : Interns a P) (stays : ∀ {p q}, p.Grows q → pre p → pre q)
    (second : ∀ x, Keeps (fun p => pre p ∧ P p x) (f x)) : Keeps pre (a >>= f) := by
  intro p ordered holds
  obtain ⟨kept, grown, full⟩ := first p ordered holds
  cases ran : a p with
  | mk r q =>
    rw [ran] at kept grown full
    cases r with
    | error e =>
      have ended : (a >>= f) p = (.error e, q) := by
        simp only [Bind.bind, ExceptT.bind, ExceptT.mk, StateT.bind, ran]
        rfl
      rw [ended]
      refine ⟨kept, grown, ?_⟩
      rintro ⟨⟩
      exact full rfl
    | ok x =>
      have went : (a >>= f) p = f x q := by
        simp only [Bind.bind, ExceptT.bind, ExceptT.mk, StateT.bind, ran]
        rfl
      rw [went]
      have found : P q x := (finds.finds (p := p) ran ordered.sound).2
      obtain ⟨kept', grown', full'⟩ := second x q kept ⟨stays grown holds, found⟩
      exact ⟨kept', grown.trans grown', full'⟩

theorem keeps_utf8 (s : String) : Keeps (fun _ => True) (utf8 s) := by
  intro p ordered _
  unfold utf8
  split_ifs with long
  · exact ⟨ordered, .refl p, by rintro ⟨⟩⟩
  · refine keeps_intern (.utf8 s) p ordered ⟨?_, by rintro _ ⟨⟩⟩
    rintro t ⟨⟩
    rw [ModifiedUtf8.length_encode]
    omega

theorem holds_of_text? (found : p.text? i = some s) : p.get? i = some (.utf8 s) := by
  unfold text? at found
  split at found
  · rename_i entry
    rw [entry, some.inj found]
  · cases found

theorem holds_of_className? (found : p.className? i = some s) :
    ∃ j, p.get? i = some (.classRef j) ∧ p.text? j = some s := by
  unfold className? at found
  split at found
  · rename_i j entry
    exact ⟨j, entry, found⟩
  · cases found

theorem holds_of_nameAndType? (found : p.nameAndType? i = some nt) :
    ∃ j k, p.get? i = some (.nameAndType j k) ∧ p.text? j = some nt.1 ∧ p.text? k = some nt.2 := by
  unfold nameAndType? at found
  split at found
  · rename_i j k entry
    obtain ⟨n, name, rest⟩ := bind_eq_some_iff.mp found
    obtain ⟨d, descriptor, rfl⟩ := map_eq_some_iff.mp rest
    exact ⟨j, k, entry, name, descriptor⟩
  · cases found

theorem keeps_classRef (name : String) : Keeps (fun _ => True) (classRef name) := by
  refine (keeps_utf8 name).bind (interns_utf8 name) (fun _ _ => trivial) fun j => ?_
  refine (keeps_intern (.classRef j)).weaken ?_
  rintro p ⟨-, text⟩
  refine ⟨by rintro _ ⟨⟩, ?_⟩
  simp [parts, holds_of_text? text, tag]

theorem keeps_string (s : String) : Keeps (fun _ => True) (string s) := by
  refine (keeps_utf8 s).bind (interns_utf8 s) (fun _ _ => trivial) fun j => ?_
  refine (keeps_intern (.string j)).weaken ?_
  rintro p ⟨-, text⟩
  refine ⟨by rintro _ ⟨⟩, ?_⟩
  simp [parts, holds_of_text? text, tag]

theorem keeps_nameAndType (name descriptor : String) : Keeps (fun _ => True) (nameAndType name descriptor) := by
  refine (keeps_utf8 name).bind (interns_utf8 name) (fun _ _ => trivial) fun n => ?_
  refine ((keeps_utf8 descriptor).weaken fun _ _ => trivial).bind (interns_utf8 descriptor) ?_ fun d => ?_
  · rintro p q grown ⟨-, text⟩
    exact ⟨trivial, grown.le.text? text⟩
  · refine (keeps_intern (.nameAndType n d)).weaken ?_
    rintro p ⟨⟨-, first⟩, second⟩
    refine ⟨by rintro _ ⟨⟩, ?_⟩
    simp [parts, holds_of_text? first, holds_of_text? second, tag]

theorem keeps_member (kind : RefKind) (owner name descriptor : String) :
    Keeps (fun _ => True) (member kind owner name descriptor) := by
  refine (keeps_classRef owner).bind (interns_classRef owner) (fun _ _ => trivial) fun c => ?_
  refine ((keeps_nameAndType name descriptor).weaken fun _ _ => trivial).bind
    (interns_nameAndType name descriptor) ?_ fun nt => ?_
  · rintro p q grown ⟨-, named⟩
    exact ⟨trivial, grown.le.className? named⟩
  · refine (keeps_intern (.member kind c nt)).weaken ?_
    rintro p ⟨⟨-, named⟩, spelled⟩
    obtain ⟨_, owner, -⟩ := holds_of_className? named
    obtain ⟨_, _, spelling, -, -⟩ := holds_of_nameAndType? spelled
    refine ⟨by rintro _ ⟨⟩, ?_⟩
    simp [parts, owner, spelling, tag]

inductive Request
  | utf8 (text : String)
  | integer (value : UInt32)
  | float (bits : UInt32)
  | long (value : UInt64)
  | double (bits : UInt64)
  | classRef (name : String)
  | string (text : String)
  | nameAndType (name descriptor : String)
  | member (kind : RefKind) (owner name descriptor : String)
  deriving DecidableEq

def Request.ask : Request → Action UInt16
  | .utf8 s => Pool.utf8 s
  | .integer v => Pool.integer v
  | .float b => Pool.float b
  | .long v => Pool.long v
  | .double b => Pool.double b
  | .classRef name => Pool.classRef name
  | .string s => Pool.string s
  | .nameAndType name descriptor => Pool.nameAndType name descriptor
  | .member kind owner name descriptor => Pool.member kind owner name descriptor

def after (p : Pool) (rs : List Request) : Pool := rs.foldl (fun p r => (r.ask p).2) p

/-- The request that a constant answers, its parts read off the pool. -/
def request? (p : Pool) : Constant → Option Request
  | .utf8 s => some (.utf8 s)
  | .integer v => some (.integer v)
  | .float b => some (.float b)
  | .long v => some (.long v)
  | .double b => some (.double b)
  | .classRef name => (p.text? name).map .classRef
  | .string text => (p.text? text).map .string
  | .nameAndType name descriptor =>
    (p.text? name).bind fun n => (p.text? descriptor).map fun d => .nameAndType n d
  | .member kind owner spelling =>
    (p.className? owner).bind fun o => (p.nameAndType? spelling).map fun nt => .member kind o nt.1 nt.2

theorem Request.keeps_ask (r : Request) : Keeps (fun _ => True) r.ask := by
  have number : ∀ c : Constant, c.parts = [] → c.Short → Keeps (fun _ => True) (intern c) := by
    intro c bare short
    refine (keeps_intern c).weaken fun _ _ => ⟨short, ?_⟩
    simp [bare]
  cases r with
  | utf8 s => exact keeps_utf8 s
  | integer v => exact number (.integer v) rfl (by rintro _ ⟨⟩)
  | float b => exact number (.float b) rfl (by rintro _ ⟨⟩)
  | long v => exact number (.long v) rfl (by rintro _ ⟨⟩)
  | double b => exact number (.double b) rfl (by rintro _ ⟨⟩)
  | classRef name => exact keeps_classRef name
  | string s => exact keeps_string s
  | nameAndType name descriptor => exact keeps_nameAndType name descriptor
  | member kind owner name descriptor => exact keeps_member kind owner name descriptor

def Answers (p : Pool) (i : UInt16) (r : Request) : Prop := ∃ c, p.get? i = some c ∧ p.request? c = some r

theorem Request.interns_ask (r : Request) : Interns r.ask fun p i => p.Answers i r := by
  cases r with
  | utf8 s => exact (interns_utf8 s).weaken fun p i text => ⟨_, holds_of_text? text, rfl⟩
  | integer v => exact (interns_intern (.integer v)).weaken fun p i entry => ⟨_, entry, rfl⟩
  | float b => exact (interns_intern (.float b)).weaken fun p i entry => ⟨_, entry, rfl⟩
  | long v => exact (interns_intern (.long v)).weaken fun p i entry => ⟨_, entry, rfl⟩
  | double b => exact (interns_intern (.double b)).weaken fun p i entry => ⟨_, entry, rfl⟩
  | classRef name =>
    refine (interns_classRef name).weaken fun p i named => ?_
    obtain ⟨j, entry, text⟩ := holds_of_className? named
    exact ⟨_, entry, by rw [request?, text, map_some]⟩
  | string s =>
    refine (interns_utf8 s).bind (fun le => le.text?) fun j => ?_
    refine (interns_intern (.string j)).weaken fun p i entry text => ?_
    exact ⟨_, entry, by rw [request?, text, map_some]⟩
  | nameAndType name descriptor =>
    refine (interns_nameAndType name descriptor).weaken fun p i spelled => ?_
    obtain ⟨j, k, entry, first, second⟩ := holds_of_nameAndType? spelled
    exact ⟨_, entry, by rw [request?, first, second, bind_some, map_some]⟩
  | member kind owner name descriptor =>
    refine (interns_classRef owner).bind (fun le => le.className?) fun c => ?_
    refine (interns_nameAndType name descriptor).bind (fun le => le.nameAndType?) fun nt => ?_
    refine (interns_intern (.member kind c nt)).weaken fun p i entry spelled named => ?_
    exact ⟨_, entry, by rw [request?, named, spelled, bind_some, map_some]⟩

theorem Le.request? (h : p.Le q) (made : p.request? c = some r) : q.request? c = some r := by
  cases c with
  | utf8 | integer | float | long | double => exact made
  | classRef | string => exact map_keeps (fun _ => h.text?) made
  | nameAndType => exact bind_keeps (fun _ => h.text?) (fun _ => map_keeps fun _ => h.text?) made
  | member => exact bind_keeps (fun _ => h.className?) (fun _ => map_keeps fun _ => h.nameAndType?) made

theorem Le.answers (h : p.Le q) (found : p.Answers i r) : q.Answers i r := by
  obtain ⟨c, entry, made⟩ := found
  exact ⟨c, h i c entry, h.request? made⟩

namespace Ordered

variable {r s : Request} (h : p.Ordered)

include h

theorem index_unique (first : p.get? i = some c) (second : p.get? j = some c) : i = j := by
  rw [h.get?_iff] at first second
  exact some.inj (first.symm.trans second)

theorem text_unique {s : String} (first : p.text? i = some s) (second : p.text? j = some s) : i = j :=
  h.index_unique (holds_of_text? first) (holds_of_text? second)

theorem className_unique {s : String} (first : p.className? i = some s)
    (second : p.className? j = some s) : i = j := by
  obtain ⟨a, entry, text⟩ := holds_of_className? first
  obtain ⟨b, entry', text'⟩ := holds_of_className? second
  obtain rfl := h.text_unique text text'
  exact h.index_unique entry entry'

theorem nameAndType_unique {nt : String × String} (first : p.nameAndType? i = some nt)
    (second : p.nameAndType? j = some nt) : i = j := by
  obtain ⟨a, b, entry, name, descriptor⟩ := holds_of_nameAndType? first
  obtain ⟨a', b', entry', name', descriptor'⟩ := holds_of_nameAndType? second
  obtain rfl := h.text_unique name name'
  obtain rfl := h.text_unique descriptor descriptor'
  exact h.index_unique entry entry'

theorem request_unique (first : p.request? c = some r) (second : p.request? d = some r) : c = d := by
  have texts := @text_unique p
  have names := @className_unique p
  have spellings := @nameAndType_unique p
  cases c <;> cases d <;>
    simp only [request?, map_eq_some_iff, bind_eq_some_iff, some.injEq] at first second <;>
    grind

theorem answers_iff (first : p.Answers i r) (second : p.Answers j s) : i = j ↔ r = s := by
  obtain ⟨c, entry, made⟩ := first
  obtain ⟨d, entry', made'⟩ := second
  constructor
  · rintro rfl
    obtain rfl : c = d := some.inj (entry.symm.trans entry')
    exact some.inj (made.symm.trans made')
  · rintro rfl
    obtain rfl := h.request_unique made made'
    exact h.index_unique entry entry'

theorem nodup_indices : (p.entries.toList.map Prod.fst).Nodup := h.numbered.nodup

theorem nodup_constants : (p.entries.toList.map Prod.snd).Nodup := by
  refine h.nodup_indices.of_map.map_on fun e he f hf same => ?_
  have found := (h.indexed e.2 e.1).mpr he
  rw [same, (h.indexed f.2 f.1).mpr hf] at found
  exact Prod.ext (some.inj found).symm same

end Ordered

variable {rs : List Request}

theorem after_append (p : Pool) (rs more : List Request) : p.after (rs ++ more) = (p.after rs).after more :=
  foldl_append

theorem ordered_after (h : p.Ordered) (rs : List Request) : (p.after rs).Ordered ∧ p.Grows (p.after rs) := by
  induction rs generalizing p with
  | nil => exact ⟨h, .refl p⟩
  | cons r rs ih =>
    obtain ⟨kept, grown, -⟩ := r.keeps_ask p h trivial
    obtain ⟨kept', grown'⟩ := ih kept
    exact ⟨kept', grown.trans grown'⟩

theorem answers_after (h : p.Ordered) (split : rs = before ++ r :: behind)
    (granted : (r.ask (p.after before)).1 = .ok i) : (p.after rs).Answers i r := by
  have ordered := (ordered_after h before).1
  have run : Yields r.ask (p.after before) i (r.ask (p.after before)).2 := Prod.ext granted rfl
  have found := (r.interns_ask.finds run ordered.sound).2
  have kept := (r.keeps_ask _ ordered trivial).1
  rw [split, after_append]
  exact (ordered_after kept behind).2.le.answers found

/-- Whatever is asked, the pool is ordered and only grows, and two indices that were given are one
exactly when the requests were. -/
theorem index_eq_iff_request_eq (rs : List Request) :
    (empty.after rs).Ordered ∧
    ((empty.after rs).entries.toList.map Prod.fst).Nodup ∧ ((empty.after rs).entries.toList.map Prod.snd).Nodup ∧
    (∀ before behind, rs = before ++ behind → (empty.after before).Grows (empty.after rs)) ∧
    (∀ before r behind, rs = before ++ r :: behind → (r.ask (empty.after before)).1 = .error .full →
      lastIndex ≤ (r.ask (empty.after before)).2.count) ∧
    ∀ before r behind before' s behind', rs = before ++ r :: behind → rs = before' ++ s :: behind' →
      ∀ i j, (r.ask (empty.after before)).1 = .ok i → (s.ask (empty.after before')).1 = .ok j → (i = j ↔ r = s) := by
  have run : ∀ some, (empty.after some).Ordered := fun some => (ordered_after .empty some).1
  refine ⟨run rs, (run rs).nodup_indices, (run rs).nodup_constants, ?_, ?_, ?_⟩
  · rintro before behind rfl
    rw [after_append]
    exact (ordered_after (run before) behind).2
  · intro before r behind _
    exact (r.keeps_ask _ (run before) trivial).2.2
  · intro before r behind before' s behind' split split' i j granted granted'
    exact (run rs).answers_iff (answers_after .empty split granted) (answers_after .empty split' granted')

/-- A method asked for twice, with a wide number and another method in between. -/
theorem index_eq_iff_request_eq_methods :
    (Request.ask (.member .method "A" "f" "()V") empty).1 = .ok 6 ∧
    ∀ i j, (Request.ask (.member .method "A" "g" "()V")
        (empty.after [.member .method "A" "f" "()V", .long 1])).1 = .ok i →
      (Request.ask (.member .method "A" "f" "()V")
        (empty.after [.member .method "A" "f" "()V", .long 1, .member .method "A" "g" "()V"])).1 = .ok j →
      i ≠ j := by
  refine ⟨by decide +kernel, fun i j first second same => ?_⟩
  have both := (index_eq_iff_request_eq [.member .method "A" "f" "()V", .long 1, .member .method "A" "g" "()V",
    .member .method "A" "f" "()V"]).2.2.2.2.2 [.member .method "A" "f" "()V", .long 1] _
    [.member .method "A" "f" "()V"] [.member .method "A" "f" "()V", .long 1, .member .method "A" "g" "()V"] _ []
    rfl rfl i j first second
  exact absurd (both.mp same) (by decide)

theorem overflow_writeConstant (short : c.Short) : (writeConstant w c).overflow = w.overflow := by
  cases c with
  | utf8 s =>
    have few := short s rfl
    simp only [writeConstant, overflow_put, len2]
    rw [if_pos (by omega), u2, overflow_put, overflow_u1]
  | integer | float | long | double | classRef | string | member | nameAndType =>
    simp [writeConstant, u2, u4, u8]

theorem overflow_writeConstants {entries : List (UInt16 × Constant)} (short : ∀ e ∈ entries, e.2.Short)
    (w : Writer) : (entries.foldl (fun w e => writeConstant w e.2) w).overflow = w.overflow := by
  induction entries generalizing w with
  | nil => rfl
  | cons e entries ih =>
    obtain ⟨first, rest⟩ := forall_mem_cons.mp short
    rw [foldl_cons, ih rest, overflow_writeConstant first]

theorem Ordered.overflow_write (h : p.Ordered) (w : Writer) : (p.write w).overflow = w.overflow := by
  have few : p.next ≤ 65535 := h.room
  unfold write
  rw [← Array.foldl_toList, overflow_writeConstants h.short, len2, if_pos (by omega), u2,
    overflow_put]

end Pool

namespace ClassFile.Table

open Reader

variable {p : Pool}

theorem getElem?_ofPool (pos : 1 ≤ k) : (ofPool p)[k]? = (p.entries.toList.flatMap fun e => places e.2)[k - 1]? := by
  rw [ofPool, Array.getElem?_append_right (by simpa using pos)]
  simp

/-- What is written of a pool reads back as its table. -/
theorem read_write_pool (rs : List Request) :
    (∀ w, ((empty.after rs).write w).overflow = w.overflow) ∧
    ∃ table, Reads readTable ((empty.after rs).write .empty).bytes.toList table ∧
      table.size = (empty.after rs).count ∧
      (∀ e ∈ (empty.after rs).entries.toList, table[e.1.toNat]? = some (some e.2)) ∧
      table[0]? = some none ∧
      ∀ e ∈ (empty.after rs).entries.toList, e.2.tag.isWide = true → table[e.1.toNat + 1]? = some none := by
  have ordered := (ordered_after .empty rs).1
  obtain ⟨-, -, short, written⟩ := of_write (ordered.overflow_write .empty)
  refine ⟨ordered.overflow_write, ofPool (empty.after rs), ?_, size_ofPool ordered.sound, ?_, ?_, ?_⟩
  · rw [written]
    exact reads_ofPool ordered.sound short
  · intro e he
    rw [getElem?_ofPool (ordered.numbered.range he).1]
    exact getElem?_places ordered.numbered he (places_zero _)
  · simp [ofPool]
  · intro e he wide
    rw [getElem?_ofPool (Nat.le_add_left 1 _)]
    exact getElem?_places ordered.numbered he (by rw [places, if_pos wide]; rfl)

end ClassFile.Table

end ClassForge

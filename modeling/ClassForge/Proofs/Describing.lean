import ClassForge.Proofs.Meaning
import ClassForge.Recipe.Compile

/-! The texts that classes of recipes give of themselves. -/

namespace ClassForge

open Yields

namespace Assembler

open Step

def appender (t : JType) : Reference :=
  .member .method builderName "append" (JType.methodDescriptor (.ofClass builderName) [appendType t])

/-- With these values of the fields the expression is the text. Each part is appended with the
overload for its type, and values come as the texts that those append. -/
inductive Tells (q : Pool) (value : String → String) : Expr → String → Prop
  | text {t : JType} {s : String} {ref : UInt16} : Tells q value (.const t (.text s) ref) s
  | field {t u : JType} {name : String} {ref : UInt16} : Tells q value (.fieldGet t name ref (.self u false)) (value name)
  | concat {refs : ConcatRefs} {a b : Expr} {s s' : String} : Tells q value a s → Tells q value b s' →
    q.reference? refs.first = some (appender a.type) → q.reference? refs.second = some (appender b.type) →
    Tells q value (.concat refs a b) (s ++ s')

variable {w w' : Work} {x : Term} {n : Node} {i : Nat} {o : Operand} {t : JType} {said : (String → String) → String}

theorem Tells.mono (h : Tells q value e s) (le : q.Le q') : Tells q' value e s := by
  induction h with
  | text => exact .text
  | field => exact .field
  | concat _ _ first second a b => exact .concat a b (le.reference? first) (le.reference? second)

def Holds (w : Work) (o : Operand) (t : JType) (said : (String → String) → String) : Prop :=
  ∃ i n, o = .node i ∧ w.method.nodes[i]? = some n ∧ n.expr.type = t ∧ ∀ value, Tells w.pool value n.expr (said value)

def Begun (w : Work) (text : Option Operand) (said : (String → String) → String) : Prop :=
  text.elim (said = fun _ => "") fun o => Holds w o .string said

namespace Step

structure Adds (w : Work) (x : Term) (w' : Work) : Prop where
  info : w'.method.info = w.method.info
  nodes : ∀ {i : Nat} {n : Node}, w.method.nodes[i]? = some n → ∃ n', w'.method.nodes[i]? = some n' ∧ n'.expr = n.expr
  noted : Noted w' x
  pool : w.pool.Le w'.pool
  sound : w'.pool.Sound

theorem Adds.holds (h : Adds w x w') (had : Holds w o t said) : Holds w' o t said := by
  obtain ⟨i, n, rfl, there, type, tells⟩ := had
  obtain ⟨n', there', same⟩ := h.nodes there
  exact ⟨i, n', rfl, there', same ▸ type, fun value => same ▸ (tells value).mono h.pool⟩

theorem Adds.new (h : Adds w x w') (type : x.expr.type = t) (tells : ∀ value, Tells w'.pool value x.expr (said value)) :
    Holds w' (.node x.id) t said := by
  obtain ⟨n, there, same⟩ := h.noted
  exact ⟨_, n, rfl, there, same ▸ type, fun value => same ▸ tells value⟩

theorem kept_owned (ids : List Nat) (owner : Nat) (there : ns[i]? = some n) :
    ∃ n', (owned ids owner ns)[i]? = some n' ∧ n'.expr = n.expr := by
  induction ids generalizing ns n with
  | nil => exact ⟨n, there, rfl⟩
  | cons j ids ih =>
    by_cases same : j = i
    · exact ih (n := { n with parent := some owner, subsumed := true }) (by simp [Array.getElem?_modify, same, there])
    · exact ih (by simp [Array.getElem?_modify, same, there])

theorem adds_node (le : w.pool.Le q) (sound : q.Sound)
    (run : Gives ctx (node e ops) { w with pool := q } x w') : Adds w x w' ∧ x.expr = e ∧ w'.pool = q := by
  have noted := (of_node run).2.1
  obtain ⟨rfl, rfl⟩ := gives_node.mp run
  refine ⟨⟨rfl, fun {i n} there => ?_, noted, le, sound⟩, rfl, rfl⟩
  obtain ⟨n', there', same⟩ := kept_owned (ops.map (·.id)) w.method.nodes.size there
  refine ⟨n', ?_, same⟩
  rw [Array.getElem?_push, if_neg (Nat.ne_of_lt (Array.getElem?_eq_some_iff.mp there').1), there']

theorem of_interns (interns : Pool.Interns a found) (sound : w.pool.Sound) (run : Gives ctx (pool a) w y w') :
    ∃ q, w' = { w with pool := q } ∧ w.pool.Le q ∧ q.Sound ∧ found q y := by
  obtain ⟨q, entry, rfl⟩ := gives_pool.mp run
  exact ⟨q, rfl, interns.grows entry, interns.finds entry sound⟩

theorem of_text (sound : w.pool.Sound) (run : Gives ctx (build (.const (.text s))) w x w') :
    Adds w x w' ∧ Holds w' (.node x.id) .string fun _ => s := by
  simp only [build, const, Literal.constantType, gives_bind] at run
  obtain ⟨ref, _, entry, run⟩ := run
  obtain ⟨q, rfl, le, sound, -⟩ := of_interns (Pool.interns_string s) sound entry
  obtain ⟨adds, made, -⟩ := adds_node le sound run
  exact ⟨adds, adds.new (made ▸ rfl) fun value => made ▸ .text⟩

theorem of_self (sound : w.pool.Sound) (run : Gives ctx (build .self) w x w') :
    Adds w x w' ∧ ∃ n u, w'.method.nodes[x.id]? = some n ∧ n.expr = .self u false := by
  simp only [build, receiver, gives_bind, gives_method, looked] at run
  split at run
  · simp at run
  simp only [gives_bind, gives_read, looked] at run
  obtain ⟨adds, made, -⟩ := adds_node (.refl _) sound run
  obtain ⟨n, there, same⟩ := adds.noted
  exact ⟨adds, n, _, there, same.trans made⟩

theorem of_value (sound : w.pool.Sound) (there : w.method.nodes[i]? = some n)
    (self : n.expr = .self u false) (run : Gives ctx (build (.field (.node i) name)) w x w') :
    Adds w x w' ∧ ∃ t, Holds w' (.node x.id) t fun value => value name := by
  simp only [build, fieldGet, gives_bind] at run
  obtain ⟨o, _, claimed, ⟨f, ref⟩, v, found, run⟩ := run
  obtain ⟨rfl, rfl⟩ := of_claim_node claimed there
  obtain ⟨q, rfl, le, sound, -⟩ := of_interns (Pool.interns_member ..) sound (of_field found).2.2
  obtain ⟨adds, made, -⟩ := adds_node le sound run
  exact ⟨adds, _, adds.new rfl fun value => by rw [made, self]; exact .field⟩

theorem of_joined (sound : w.pool.Sound) (left : Holds w a .string said) (right : Holds w b s more)
    (run : Gives ctx (build (.binary .add a b)) w x w') :
    Adds w x w' ∧ Holds w' (.node x.id) .string fun value => said value ++ more value := by
  obtain ⟨i, n, rfl, there, type, tells⟩ := left
  obtain ⟨j, n', rfl, there', rfl, tells'⟩ := right
  simp only [build, binary, arithmetic, gives_bind] at run
  obtain ⟨⟨a, b⟩, _, claimed, run⟩ := run
  obtain ⟨⟨⟩, rfl⟩ := of_claim2_node claimed there there'
  rw [if_pos (by simp [Term.type, type]), concat] at run
  split at run
  · simp at run
  simp only [gives_bind] at run
  -- The last two entries are the calls that append; the others only let the pool grow.
  obtain ⟨_, _, e1, _, _, e2, _, _, e3, _, _, e4, _, _, e5, run⟩ := run
  obtain ⟨q1, rfl, le1, sound1, -⟩ := of_interns (Pool.interns_type _) sound e1
  obtain ⟨q2, rfl, le2, sound2, -⟩ := of_interns (Pool.interns_member ..) sound1 e2
  obtain ⟨q3, rfl, le3, sound3, -⟩ := of_interns (Pool.interns_member ..) sound2 e3
  obtain ⟨q4, rfl, le4, sound4, appendA⟩ := of_interns (Pool.interns_member ..) sound3 e4
  obtain ⟨q5, rfl, le5, sound5, appendB⟩ := of_interns (Pool.interns_member ..) sound4 e5
  have le : w.pool.Le q5 := le1.trans (le2.trans (le3.trans (le4.trans le5)))
  obtain ⟨adds, made, rfl⟩ := adds_node le sound5 run
  refine ⟨adds, adds.new (made ▸ rfl) fun value => ?_⟩
  rw [made]
  exact .concat ((tells value).mono le) ((tells' value).mono le) (le5.reference? appendA) appendB

end Step

theorem Draft.of_replying (h : replying f r = (.ok y, d)) : ∃ x, r = (.ok x, d) ∧ f x = y := by
  obtain ⟨_ | x, _⟩ := r <;> cases h
  exact ⟨x, rfl, rfl⟩

end Assembler

namespace Recipe

open Assembler Step

variable {w w' : Workspace} {u : Unit} {k : Nat} {v : Work} {d : Draft} {o : Operand}
  {said : (String → String) → String} {text : Option Operand} {fs : List (FieldDecl × JType)}

theorem of_call (there : w.drafts[i]? = some d) (run : Yields (call i c) w r w') (isFor : c.isFor d = true) :
    ∃ p d', (d.recording w.recorder).call p c = (.ok r, d') ∧ w'.drafts[i]? = some (d'.recording {}) ∧
      w'.recorder = d'.trail.recorder := by
  have lt := (Array.getElem?_eq_some_iff.mp there).1
  unfold Yields Recipe.call onWorkspace at run
  simp only [ExceptT.run, Workspace.call_eq there isFor] at run
  obtain ⟨told, rfl⟩ := Prod.mk.inj run
  refine ⟨w.provider, _, Prod.ext ?_ rfl, by simp [lt], rfl⟩
  cases ran : ((d.recording w.recorder).call w.provider c).1 with
  | ok r => simpa [ran, Except.mapError] using told
  | error f => simp [ran, Except.mapError] at told

structure Stage (u : Unit) (k : Nat) (w : Workspace) (v : Work) : Prop where
  draft : ∃ d, w.drafts[u.number]? = some d ∧ d.methods[k]? = some v.method ∧
    (d.recording w.recorder).workOn v.method = v
  sound : v.pool.Sound
  name : v.method.info.name = "toString"

theorem of_addMethod (there : w.drafts[u.number]? = some d) (sound : d.pool.Sound)
    (run : Yields (u.addMethod (.addMethod .publicBit .string "toString" [])) w k w') : ∃ v, Stage u k w' v := by
  simp only [Unit.addMethod, bind_iff] at run
  obtain ⟨r, _, called, run⟩ := run
  obtain ⟨p, d', ran, there', recorder⟩ := of_call there called rfl
  obtain ⟨n, made : (d.recording _).declare .publicBit .string "toString" [] = _, rfl⟩ := Draft.of_replying ran
  obtain ⟨rfl, rfl⟩ := pure_iff.mp run
  obtain ⟨-, ⟨⟨_, failed⟩, -⟩ | ⟨m, trail, -, declares, -, same, rfl⟩⟩ := Draft.of_declare made Draft.fine_ok
  · cases failed
  cases same
  exact ⟨⟨m, d.pool, d.line, trail⟩, ⟨_, there', by simp [Draft.recording], by rw [recorder]; rfl⟩, sound, declares.name⟩

theorem of_build (h : Stage u k w v) (run : Yields (u.build k b) w o w') : ∃ ctx x v',
    Gives ctx (Step.build b) v x v' ∧ o = .node x.id ∧ (Adds v x v' → Stage u k w' v') := by
  obtain ⟨d, there, found, same⟩ := h.draft
  have lt := (Array.getElem?_eq_some_iff.mp found).1
  simp only [Unit.build, bind_iff] at run
  obtain ⟨r, _, called, run⟩ := run
  obtain ⟨p, d', ran, there', recorder⟩ := of_call there called (decide_eq_true lt)
  obtain ⟨n, built : (d.recording _).build p k b = _, rfl⟩ := Draft.of_replying ran
  obtain ⟨rfl, rfl⟩ := pure_iff.mp run
  obtain ⟨-, ⟨⟨_, failed⟩, -⟩ | ⟨m, x, v', -, here, -, id, gives, rfl⟩⟩ := Draft.of_build built Draft.fine_ok
  · cases failed
  cases found.symm.trans here
  cases id
  exact ⟨_, x, v', same ▸ gives, rfl, fun adds =>
    ⟨⟨_, there', by simp [Draft.put, Draft.recording, lt], by rw [recorder]; rfl⟩, adds.sound, adds.info ▸ h.name⟩⟩

theorem of_append (h : Stage u k w v) (begun : Begun v text said)
    (built : Yields (u.build k (.const (.text s))) w o w1) (run : Yields (u.append k text o) w1 o' w') :
    ∃ v', Stage u k w' v' ∧ Holds v' o' .string fun value => said value ++ s := by
  obtain ⟨ctx, x, v1, g1, rfl, s1⟩ := of_build h built
  obtain ⟨a1, part⟩ := of_text h.sound g1
  cases text with
  | none =>
    obtain ⟨rfl, rfl⟩ := pure_iff.mp run
    cases begun
    exact ⟨_, s1 a1, part⟩
  | some t =>
    obtain ⟨ctx, y, v2, g2, rfl, s2⟩ := of_build (s1 a1) run
    obtain ⟨a2, joined⟩ := of_joined (s1 a1).sound (a1.holds begun) part g2
    exact ⟨_, s2 a2, joined⟩

def parts (value : String → String) (fs : List (FieldDecl × JType)) : List String :=
  fs.map fun f => f.1.name ++ "=" ++ value f.1.name

/-- The text so far, with what still leads the next part, is what was there and the fields joined,
with a separator in front once there is a text. -/
theorem of_describeFields (h : Stage u k w v) (begun : Begun v text said)
    (run : Yields (u.describeFields k lead text fs) w r w') :
    ∃ v' said', Stage u k w' v' ∧ Begun v' r.2 said' ∧ ∀ value, said' value ++ r.1 =
      said value ++ lead ++ ", ".intercalate ((if text.isSome then [""] else []) ++ parts value fs) := by
  induction fs generalizing lead text w v said with
  | nil =>
    obtain ⟨rfl, rfl⟩ := pure_iff.mp run
    refine ⟨v, said, h, begun, fun value => ?_⟩
    cases text <;> simp [parts]
  | cons f fs ih =>
    simp only [Unit.describeFields, bind_iff] at run
    obtain ⟨_, w1, r1, _, w2, r2, _, w3, r3, _, w4, r4, _, w5, r5, run⟩ := run
    obtain ⟨v2, s2, named⟩ := of_append h begun r1 r2
    obtain ⟨ctx3, x3, v3, g3, rfl, s3⟩ := of_build s2 r3
    obtain ⟨a3, n, t, here, self⟩ := of_self s2.sound g3
    obtain ⟨ctx4, x4, v4, g4, rfl, s4⟩ := of_build (s3 a3) r4
    obtain ⟨a4, t', read⟩ := of_value (s3 a3).sound here self g4
    obtain ⟨ctx5, x5, v5, g5, rfl, s5⟩ := of_build (s4 a4) r5
    obtain ⟨a5, joined⟩ := of_joined (s4 a4).sound (a4.holds (a3.holds named)) read g5
    have begun : Begun v5 (some _) _ := joined
    obtain ⟨v', said', stage, rest, all⟩ := ih (s5 a5) begun run
    refine ⟨v', said', stage, rest, fun value => ?_⟩
    -- In front of the other fields there is a text now, so their separators begin with one.
    have first : ", ".intercalate (parts value (f :: fs)) =
        f.1.name ++ "=" ++ value f.1.name ++ ", ".intercalate ("" :: parts value fs) := by
      rw [← String.intercalate_cons_append, String.append_empty]
      rfl
    have next : ", ".intercalate ("" :: parts value (f :: fs)) = ", " ++ ", ".intercalate (parts value (f :: fs)) := by
      rw [parts, List.map_cons, String.intercalate_cons_cons, String.empty_append]
    rw [all]
    cases text <;> simp [first, next, String.append_assoc]

/-- The text of a class with these values of its fields, such as `Point[x=1, y=2]`. -/
def Unit.description (u : Unit) (value : String → String) : String :=
  (JType.ofClass u.name).simpleName ++ "[" ++ ", ".intercalate (parts value u.instanceFields) ++ "]"

/-- What the method leaves with tells the text of the class; behind that it is only closed. -/
theorem toString_tells (there : w.drafts[u.number]? = some d) (sound : d.pool.Sound) (run : Yields u.addToString w () w') :
    ∃ k o w1 v, Stage u k w1 v ∧ Holds v o .string u.description ∧
      Yields (do u.perform k (.leave o); u.perform k .close) w1 () w' := by
  simp only [Unit.addToString, bind_iff] at run
  obtain ⟨k, w1, r1, ⟨lead, text⟩, w2, r2, _, w3, r3, o, w4, r4, run⟩ := run
  obtain ⟨v1, s1⟩ := of_addMethod there sound r1
  have nothing : Begun v1 none _ := rfl
  obtain ⟨v2, said, s2, begun, all⟩ := of_describeFields s1 nothing r2
  obtain ⟨v, stage, told⟩ := of_append s2 begun r3 r4
  have whole : (fun value => said value ++ (lead ++ "]")) = u.description := by
    funext value
    rw [← String.append_assoc, all]
    simp [Unit.description]
  exact ⟨k, o, w4, v, stage, whole ▸ told, bind_iff.mpr run⟩

def tally : Unit :=
  ⟨default, 0, "demo/Counter", [({ name := "total" }, .int), ({ name := "limit", isStatic := true }, .int)]⟩

theorem toString_tells_tally : tally.description (fun _ => "7") = "Counter[total=7]" ∧
    ∃ w w', Yields tally.addToString w () w' ∧ ∃ k o w1 v, Stage tally k w1 v ∧ Holds v o .string tally.description ∧
      Yields (do tally.perform k (.leave o); tally.perform k .close) w1 () w' := by
  let d := Draft.counter.after [(Draft.library, .addField .publicBit .int "total")]
  have valid : d.Valid Draft.lax := (Draft.valid_create Draft.counter_created).lax_after (by decide +kernel)
  have run := Draft.eq_of_isOk (r := tally.addToString.run { base := Draft.library, drafts := #[d] }) (by decide +kernel)
  exact ⟨by decide +kernel, _, _, run, toString_tells rfl valid.pool run⟩

end Recipe

end ClassForge

import ClassForge.Proofs.RoundTrip

/-! What a call does to a class that stays whole, in moves, and what all moves of a run keep. -/

namespace ClassForge.Assembler

namespace Draft

variable {p : Provider} {c : Call} {d : Draft} {m : Method} {j : Nat}

theorem Valid.moves (h : d.Valid lax) (whole : (d.call p c).2.broken = none) : Moves p c d (d.call p c).2 :=
  (h.served (d.allows_lax p c) whole).moves

theorem Move.valid (move : Move p c d d') (h : d.Valid lax) : d'.Valid lax := by
  cases move with
  | line => exact h.lines
  | field unwritten run => exact h.addField unwritten (by rintro _ ⟨⟩) run
  | value unwritten run => exact h.initField unwritten run
  | markClass unwritten _ encodes => exact h.markClass unwritten encodes
  | markField unwritten _ encodes => exact h.markField unwritten encodes
  | markMethod unwritten _ encodes => exact h.markMethod unwritten encodes
  | declare unwritten declares constructor fresh =>
    exact h.pushMethod constructor (by rintro _ ⟨⟩) unwritten declares fresh
  | throws unwritten found gives => exact (h.thrown unwritten found gives).1
  | build unwritten found open_ gives => exact (h.built (d.allows_lax p _) unwritten found open_ gives).1
  | perform unwritten found gives => exact (h.performed (d.allows_lax p _) unwritten found gives).1
  | close unwritten found fresh gives =>
    exact (h.performed (s := .close) (d.allows_lax p _) unwritten found gives).1
  | write unwritten finished written fits small => exact h.seal unwritten finished written fits small

theorem Moves.valid (moves : Moves p c d d') (h : d.Valid lax) : d'.Valid lax := by
  induction moves with
  | refl => exact h
  | tail _ move ih => exact move.valid ih

theorem Valid.keeps {I : Draft → Prop} {calls : List (Provider × Call)} (h : d.Valid lax) (start : I d)
    (step : ∀ {p : Provider} {c : Call} {d d' : Draft}, d.Valid lax → I d → Move p c d d' → I d')
    (whole : (d.after calls).broken = none) : I (d.after calls) := by
  induction calls using List.reverseRecOn with
  | nil => exact start
  | append_singleton calls c ih =>
    have before := whole_before whole
    have valid := h.lax_after before
    rw [after_append] at whole ⊢
    have moves := valid.moves whole
    generalize ((d.after calls).call c.1 c.2).2 = d' at moves
    induction moves with
    | refl => exact ih before
    | tail moves move ih => exact step (Moves.valid moves valid) ih move

/-! What a move does in one method. -/

inductive Turned (p : Provider) (d : Draft) (c : Call) (j : Nat) : Method → Prop
  | kept {m : Method} : d.methods[j]? = some m → Turned p d c j m
  | declared {m : Method} : j = d.methods.size → m.Fresh (.ofClass d.name :: m.info.params) → Turned p d c j m
  | marked {m : Method} {a : Annotation} {b : AnnotationBytes} {q : Pool} : d.methods[j]? = some m → d.Encodes a b q →
      Turned p d c j { m with annotations := m.annotations.push b }
  | threw {m : Method} {throws : Array (UInt16 × JType)} : d.methods[j]? = some m → Turned p d c j { m with throws }
  | built {m : Method} {nodes : Array Node} : d.methods[j]? = some m → m.finished = false →
      Turned p d c j { m with nodes }
  | performed {m : Method} {s : Statement} {x : Option Nat} {w : Work} :
      c = .perform j s ∨ c = .bytes ∧ s = .close ∧ m.Fresh (.ofClass d.name :: m.info.params) →
      d.methods[j]? = some m → Step.Gives (d.context p) (Step.requested s) (d.workOn m) x w → Turned p d c j w.method

theorem turned_put (found : (d.put i w).methods[j]? = some m)
    (here : i = j → Turned p d c j w.method) : Turned p d c j m := by
  rw [Draft.put, Array.getElem?_setIfInBounds] at found
  split_ifs at found with same inside
  · cases found
    exact here same
  · exact .kept found

theorem Move.turned (move : Move p c d d') (h : d.Valid lax) (found : d'.methods[j]? = some m) : Turned p d c j m := by
  cases move with
  | line => exact .kept found
  | field _ run =>
    obtain ⟨q, ref, -, -, rfl⟩ := Change.of_addField run
    exact .kept found
  | value _ run =>
    obtain rfl | ⟨q, f, value, ref, -, -, -, rfl⟩ := Change.of_initField run <;> exact .kept found
  | markClass | markField => exact .kept found
  | markMethod _ _ encodes =>
    obtain ⟨-, m', there, rfl⟩ | kept := of_modify found
    · exact .marked there encodes
    · exact .kept kept
  | declare _ _ _ fresh =>
    rw [Array.getElem?_push] at found
    split_ifs at found with last
    · cases found
      exact .declared last fresh
    · exact .kept found
  | throws _ there gives =>
    refine turned_put found ?_
    rintro rfl
    obtain ⟨-, -, throws, same⟩ := Step.of_throws gives
    rw [same]
    exact .threw there
  | build _ there open_ gives =>
    refine turned_put found ?_
    rintro rfl
    have settled := h.settled (p := p) (by rintro ⟨⟩) there open_
    have made := Step.keeps_build _ (by rintro ⟨⟩) (fun _ _ _ => trivial) settled.sound gives
    rw [made.method]
    exact .built there open_
  | perform _ there gives =>
    refine turned_put found ?_
    rintro rfl
    exact .performed (.inl rfl) there gives
  | close _ there fresh gives =>
    refine turned_put found ?_
    rintro rfl
    exact .performed (.inr ⟨rfl, rfl, fresh⟩) there gives
  | write => exact .kept found

/-! What a move does to one field. -/

inductive FieldTurned (d : Draft) (c : Call) (j : Nat) : Field → Prop
  | kept {f : Field} : d.fields[j]? = some f → FieldTurned d c j f
  | declared {info : FieldInfo} {fieldref : UInt16} : j = d.fields.size → FieldTurned d c j { info, fieldref }
  | valued {f : Field} {v : Literal} {value : Value} {ref : UInt16} : c = .initField j v → d.fields[j]? = some f →
      constantFor f.info.type v = .ok value → FieldTurned d c j { f with init := some value, ref }
  | marked {f : Field} {a : Annotation} {b : AnnotationBytes} {q : Pool} : d.fields[j]? = some f → d.Encodes a b q →
      FieldTurned d c j { f with annotations := f.annotations.push b }

theorem Move.fieldTurned (move : Move p c d d') (found : d'.fields[j]? = some f) : FieldTurned d c j f := by
  cases move with
  | field _ run =>
    obtain ⟨q, ref, -, -, rfl⟩ := Change.of_addField run
    rw [Array.getElem?_push] at found
    split_ifs at found with last
    · cases found
      exact .declared last
    · exact .kept found
  | value _ run =>
    obtain rfl | ⟨q, f0, value, ref, here, fits, -, rfl⟩ := Change.of_initField run
    · exact .kept found
    · obtain ⟨rfl, f', there, rfl⟩ | kept := of_modify found
      · obtain rfl : f0 = f' := Option.some.inj (here.symm.trans there)
        exact .valued rfl there fits
      · exact .kept kept
  | markField _ _ encodes =>
    obtain ⟨-, f', there, rfl⟩ | kept := of_modify found
    · exact .marked there encodes
    · exact .kept kept
  | line | markClass | markMethod | declare | throws | build | perform | close | write => exact .kept found

end Draft

end ClassForge.Assembler

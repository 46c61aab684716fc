import Mathlib.Data.Set.Basic

/-! Runs of stateful steps that end without a fault. -/

namespace ClassForge

variable {ε σ α β : Type}

def Yields (a : ExceptT ε (StateM σ) α) (s : σ) (x : α) (s' : σ) : Prop := a.run s = (.ok x, s')

theorem looked {p : α → β → Prop} : (∃ x y, (a = x ∧ b = y) ∧ p x y) ↔ p a b :=
  ⟨fun ⟨_, _, ⟨rfl, rfl⟩, h⟩ => h, fun h => ⟨a, b, ⟨rfl, rfl⟩, h⟩⟩

theorem passed {p : Unit → β → Prop} : (∃ x y, b = y ∧ p x y) ↔ p () b :=
  ⟨fun ⟨_, _, same, h⟩ => same ▸ h, fun h => ⟨(), b, rfl, h⟩⟩

namespace Yields

variable {s s' : σ} {a : ExceptT ε (StateM σ) α} {c : Prop} {x : α}

@[simp] theorem pure_iff : Yields (pure x : ExceptT ε (StateM σ) α) s y s' ↔ x = y ∧ s = s' := by
  change (Except.ok x, s) = (.ok y, s') ↔ _
  simp

theorem run_bind : (a >>= f).run s = match a.run s with
      | (.ok x, t) => (f x).run t
      | (.error e, t) => (.error e, t) := by
  simp only [bind, ExceptT.bind, ExceptT.mk, ExceptT.run, ExceptT.bindCont, StateT.bind]
  cases a s with
  | mk r t => cases r <;> rfl

@[simp] theorem bind_iff : Yields (a >>= f) s y s' ↔ ∃ x t, Yields a s x t ∧ Yields (f x) t y s' := by
  unfold Yields
  rw [run_bind]
  cases a.run s with
  | mk r t =>
    cases r with
    | ok x =>
      refine ⟨fun run => ⟨x, t, rfl, run⟩, ?_⟩
      rintro ⟨_, _, ⟨⟩, run⟩
      exact run
    | error e => exact ⟨by rintro ⟨⟩, by rintro ⟨_, _, ⟨⟩, _⟩⟩

@[simp] theorem map_iff : Yields (f <$> a) s y s' ↔ ∃ x, Yields a s x s' ∧ f x = y := by
  rw [← bind_pure_comp, bind_iff]
  simp

@[simp] theorem throw_iff : Yields (throw e : ExceptT ε (StateM σ) α) s y s' ↔ False :=
  ⟨by rintro ⟨⟩, False.elim⟩

@[simp] theorem get_iff : Yields (get : ExceptT ε (StateM σ) σ) s y s' ↔ s = y ∧ s = s' :=
  pure_iff (x := s)

@[simp] theorem set_iff : Yields (set t : ExceptT ε (StateM σ) PUnit) s y s' ↔ t = s' := by
  change (Except.ok _, t) = (.ok _, s') ↔ _
  simp

@[simp] theorem modify_iff : Yields (modify f : ExceptT ε (StateM σ) PUnit) s y s' ↔ f s = s' :=
  set_iff (s := s) (t := f s)

theorem of_guard [Decidable c] {a : ExceptT ε (StateM σ) PUnit}
    (h : Yields (if c then a >>= fun _ => b else b) s x s') :
    ∃ v, (c ∧ Yields a s PUnit.unit v ∨ ¬ c ∧ s = v) ∧ Yields b v x s' := by
  by_cases hc : c
  · rw [if_pos hc, bind_iff] at h
    obtain ⟨y, v, first, rest⟩ := h
    exact ⟨v, .inl ⟨hc, first⟩, rest⟩
  · rw [if_neg hc] at h
    exact ⟨s, .inr ⟨hc, rfl⟩, h⟩

theorem refuse_iff [Decidable c] :
    Yields (if c then (throw e : ExceptT ε (StateM σ) PUnit) >>= fun _ => b else b) s x s' ↔ ¬ c ∧ Yields b s x s' := by
  by_cases hc : c <;> simp [hc]

end Yields

end ClassForge

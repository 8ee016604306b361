/-! Steps that may fail. -/

namespace RSource

variable {ε α β : Type} {x : Except ε α}

@[simp] theorem pure_eq_ok (a : α) : (pure a : Except ε α) = .ok a := rfl

@[simp] theorem ok_bind (a : α) (f : α → Except ε β) : (Except.ok a >>= f) = f a := rfl

theorem bind_eq_ok_iff {f : α → Except ε β} {b : β} :
    x >>= f = .ok b ↔ ∃ a, x = .ok a ∧ f a = .ok b := by
  cases x with
  | error e => exact ⟨fun h => (by cases h), fun ⟨_, h, _⟩ => (by cases h)⟩
  | ok a => exact ⟨fun h => ⟨a, rfl, h⟩, fun ⟨_, ha, h⟩ => by rwa [Except.ok.inj ha]⟩

theorem exists_of_any_toOption {f : α → Bool} (h : x.toOption.any f = true) :
    ∃ a, x = .ok a ∧ f a = true := by
  cases x with
  | error e => cases h
  | ok a => exact ⟨a, rfl, h⟩

/-- A check that throws is passed when its condition fails. -/
theorem throw_or_eq_ok_iff {c : Prop} [Decidable c] {e : ε} {f : α → Except ε β}
    {y : Except ε β} {b : β} :
    (if c then throw e >>= f else y) = .ok b ↔ ¬c ∧ y = .ok b := by
  split
  · next hc => exact ⟨fun h => (nomatch h), fun h => absurd hc h.1⟩
  · next hc => exact ⟨fun h => ⟨hc, h⟩, And.right⟩

end RSource

/-!
# Work that may fail

Work is done step by step, and fails as soon as one of its steps does (`fails_bind`).
-/
namespace TaggedItems

/-- Work that fails. -/
def Fails {ε α : Type} (work : Except ε α) : Prop := ∃ fault, work = .error fault

section Work
variable {ε α β : Type}

theorem bind_eq_ok {x : Except ε α} {f : α → Except ε β} {b : β} :
    (x >>= f) = .ok b ↔ ∃ a, x = .ok a ∧ f a = .ok b := by
  cases x <;> simp [bind, Except.bind]

theorem fails_bind {x : Except ε α} {f : α → Except ε β} :
    Fails (x >>= f) ↔ Fails x ∨ ∃ a, x = .ok a ∧ Fails (f a) := by
  cases x <;> simp [Fails, bind, Except.bind]

theorem map_eq_ok {x : Except ε α} {f : α → β} {b : β} :
    x.map f = .ok b ↔ ∃ a, x = .ok a ∧ f a = b := by
  cases x <;> simp [Except.map]

@[simp] theorem fails_map {x : Except ε α} {f : α → β} : Fails (x.map f) ↔ Fails x := by
  cases x <;> simp [Fails, Except.map]

@[simp] theorem not_fails_ok (a : α) : ¬ Fails (.ok a : Except ε α) := by
  simp [Fails]

@[simp] theorem fails_error (fault : ε) : Fails (.error fault : Except ε α) := ⟨fault, rfl⟩

theorem exists_ok_of_not_fails {x : Except ε α} (h : ¬ Fails x) : ∃ a, x = .ok a := by
  cases x with
  | ok a => exact ⟨a, rfl⟩
  | error fault => exact absurd (fails_error fault) h

/-- Work that goes on after a step fails only in what comes after it. -/
theorem fails_bind_of_ok {x : Except ε α} {f : α → Except ε β} {a : α} (h : x = .ok a) :
    Fails (x >>= f) ↔ Fails (f a) := by
  rw [h]
  rfl

end Work

end TaggedItems

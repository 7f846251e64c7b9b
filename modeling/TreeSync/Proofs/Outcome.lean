/-!
# Outcomes of steps in a row

What a success of composed steps says about the steps.

Main results: `bind_eq_ok`, `map_eq_ok`, `map_eq_error` and `map_bind_congr`.
-/

namespace TreeSync

variable {ε α β : Type}

/-- A failure is no success. -/
theorem error_ne_ok {e : ε} {a : α} : Except.error e ≠ Except.ok a := by
  intro h
  cases h

/-- Two steps in a row succeed when the second one does after the first one. -/
theorem bind_eq_ok {x : Except ε α} {f : α → Except ε β} {b : β} :
    x >>= f = .ok b ↔ ∃ a, x = .ok a ∧ f a = .ok b := by
  cases x with
  | error e => simp [bind, Except.bind]
  | ok a => simp [bind, Except.bind]

/-- A mapped success comes from a success. -/
theorem map_eq_ok {x : Except ε α} {f : α → β} {b : β} :
    f <$> x = .ok b ↔ ∃ a, x = .ok a ∧ f a = b := by
  cases x with
  | error e => simp [Functor.map, Except.map]
  | ok a => simp [Functor.map, Except.map]

/-- A mapped failure is that failure. -/
theorem map_eq_error {x : Except ε α} {f : α → β} {e : ε} :
    f <$> x = .error e ↔ x = .error e := by
  cases x with
  | error e => simp [Functor.map, Except.map]
  | ok a => simp [Functor.map, Except.map]

/-- Two outcomes look the same through maps when they fail alike or their results
look the same. -/
theorem map_eq_map {γ : Type} {x : Except ε α} {y : Except ε β} {f : α → γ} {g : β → γ} :
    f <$> x = g <$> y ↔
      (∃ e, x = .error e ∧ y = .error e) ∨ ∃ a b, x = .ok a ∧ y = .ok b ∧ f a = g b := by
  cases x <;> cases y <;> simp [Functor.map, Except.map, eq_comm]

/-- Steps in a row look the same when the first steps do and the second steps do
after results that look the same. -/
theorem map_bind_congr {γ δ κ : Type} {x : Except ε α} {y : Except ε β} {p : α → κ} {q : β → κ}
    {f : α → Except ε γ} {g : β → Except ε γ} {u : γ → δ} (h : p <$> x = q <$> y)
    (hfg : ∀ a b, p a = q b → u <$> f a = u <$> g b) : u <$> (x >>= f) = u <$> (y >>= g) := by
  rcases map_eq_map.1 h with ⟨e, rfl, rfl⟩ | ⟨a, b, rfl, rfl, hab⟩
  · rfl
  · exact hfg a b hab

/-- A result that can be computed. -/
theorem eq_ok_of_toOption {ε α : Type} {x : Except ε α} {a : α} (h : x.toOption = some a) :
    x = .ok a := by
  cases x with
  | error e => simp [Except.toOption] at h
  | ok b => exact congrArg Except.ok (Option.some.inj h)

end TreeSync

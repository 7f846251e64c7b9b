import TreeSync.Apply.Basic

/-!
# The steps of an event

What an event does at one step of its path and at its leaf, by its action.

Main results:

- `Schema.enter_delete` and `Schema.enter_of_ne`: one step.
- `Schema.perform_of_delete`, `Schema.perform_of_shape` and
  `Schema.perform_of_literal`: the leaf.
- `Schema.walk_cons_eq_ok`: what a walk that succeeds did first.
-/

namespace TreeSync

namespace Schema

variable {σ : Type} {S : Schema σ} {o : Options} {e : Event}

/-- Deleting only looks for the next node. -/
theorem enter_delete (n : Node σ) (key : String) :
    S.enter o .delete n key = (n, Place.address <$> S.find o n key (.ofKey o key)) :=
  rfl

/-- Creating and replacing make the next node. -/
theorem enter_of_ne {action : Action} (h : action ≠ .delete) (n : Node σ) (key : String) :
    S.enter o action n key = S.findOrCreate o (S.promote n) key (.ofKey o key) := by
  cases action with
  | delete => exact absurd rfl h
  | create => rfl
  | replace => rfl

theorem perform_of_delete (h : e.action = .delete) (n : Node σ) :
    S.perform o e n =
      match S.remove o n e.key (.ofKey o e.key) with
      | .ok m => (m, .ok ())
      | .error err => (n, .error (.navigation err)) := by
  rw [perform, h]
  cases S.remove o n e.key (.ofKey o e.key) with
  | ok m => rfl
  | error err => rfl

theorem perform_of_shape (h : e.action ≠ .delete) {shape : Shape}
    (hshape : e.tag.shape? = some shape) (n : Node σ) :
    S.perform o e n =
      ofNavigation (S.materialize o (S.promote n) e.key shape (.ofKey o e.key)) := by
  rw [perform, hshape]
  cases haction : e.action with
  | delete => exact absurd haction h
  | create => rfl
  | replace => rfl

theorem perform_of_literal (h : e.action ≠ .delete) (hshape : e.tag.shape? = none) (n : Node σ) :
    S.perform o e n =
      ofNavigation (S.write o (S.promote n) e.key
        (.literal e.value (some (e.tag.document e.value))) (.ofKey o e.key)) := by
  rw [perform, hshape]
  cases haction : e.action with
  | delete => exact absurd haction h
  | create => rfl
  | replace => rfl

/-- An event that walked a step led to a child, did not come back to where it was, and
walked on there. -/
theorem walk_cons_eq_ok {n m : Node σ} {key : String} {rest : List String}
    (h : S.walk o e n (key :: rest) = (m, .ok ())) :
    ∃ r a child w, S.enter o e.action n key = (r, .ok a) ∧ r.get? a = some child ∧
      ¬ (n.isAllocated = true ∧ a ++ child.coreAddress = r.coreAddress) ∧
      S.walk o e child rest = (w, .ok ()) ∧ m = r.replaceAt a w := by
  rw [walk] at h
  rcases henter : S.enter o e.action n key with ⟨r, _ | a⟩
  · simp [henter] at h
  · cases hchild : r.get? a with
    | none => simp [henter, hchild] at h
    | some child =>
        simp only [henter, hchild] at h
        split at h
        · simp at h
        · rename_i hcycle
          rcases hw : S.walk o e child rest with ⟨w, result⟩
          rw [hw] at h
          obtain ⟨rfl, rfl⟩ := Prod.mk.inj h
          exact ⟨r, a, child, w, rfl, hchild, hcycle, hw, rfl⟩

end Schema

end TreeSync

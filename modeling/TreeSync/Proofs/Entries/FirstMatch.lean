/-!
# The first match of a list

The element that is looked for is the first one that matches, or the next one to
be appended.  As long as only this element changes, and goes on matching, its
position stays the same and the list gets at most this one element more.

Main definitions and results:

- `Settled.position`: where the element is or will be.
- `Settled`: what changes of this element leave of a list.
- `Settled.trans`: such changes one after the other.
- `Settled.findIdx`: the element is found again.
-/

namespace TreeSync

/-- The position of the first match, or the one behind the list. -/
def Settled.position {α : Type} (p : α → Bool) (items : List α) : Nat :=
  (items.findIdx? p).getD items.length

/-- Only the first match has changed, and still matches, or has been appended. -/
structure Settled {α : Type} (p : α → Bool) (old now : List α) : Prop where
  grows : old.length ≤ now.length
  bounded : now.length ≤ max old.length (Settled.position p old + 1)
  others : ∀ j, j ≠ Settled.position p old → now[j]? = old[j]?
  matched : ∀ x, now[Settled.position p old]? = some x → p x = true

namespace Settled

variable {α : Type} {p : α → Bool} {old now next : List α} {x y : α}

theorem position_le (p : α → Bool) (items : List α) : position p items ≤ items.length := by
  rw [position]
  cases h : items.findIdx? p with
  | none => exact Nat.le_refl _
  | some i =>
      rcases List.findIdx?_eq_some_iff_getElem.1 h with ⟨hi, -, -⟩
      exact Nat.le_of_lt hi

/-- What stands in front of the position does not match. -/
theorem not_of_lt_position {j : Nat} (hj : j < position p old) (hx : old[j]? = some x) :
    p x = false := by
  rw [position] at hj
  cases h : old.findIdx? p with
  | none =>
      have hall := List.findIdx?_eq_none_iff.1 h
      exact hall x (List.mem_of_getElem? hx)
  | some i =>
      rw [h] at hj
      rcases List.findIdx?_eq_some_iff_getElem.1 h with ⟨hi, -, hbefore⟩
      rcases List.getElem?_eq_some_iff.1 hx with ⟨hlt, rfl⟩
      simpa using hbefore j hj

theorem refl (p : α → Bool) (old : List α) : Settled p old old := by
  refine ⟨Nat.le_refl _, Nat.le_max_left _ _, fun j _ => rfl, ?_⟩
  intro x hx
  rw [position] at hx
  cases h : old.findIdx? p with
  | none => simp [h] at hx
  | some i =>
      rw [h] at hx
      rcases List.findIdx?_eq_some_iff_getElem.1 h with ⟨hi, hp, -⟩
      rcases List.getElem?_eq_some_iff.1 hx with ⟨-, rfl⟩
      exact hp

/-- The element is found again. -/
theorem findIdx (h : Settled p old now) :
    now.findIdx? p = if position p old < now.length then some (position p old) else none := by
  have hbefore : ∀ j x, j < position p old → now[j]? = some x → p x = false := by
    intro j x hj hx
    rw [h.others j (Nat.ne_of_lt hj)] at hx
    exact not_of_lt_position hj hx
  by_cases hlt : position p old < now.length
  · rw [if_pos hlt, List.findIdx?_eq_some_iff_getElem]
    refine ⟨hlt, h.matched _ (List.getElem?_eq_getElem hlt), ?_⟩
    intro j hj
    have hjlt : j < now.length := Nat.lt_trans hj hlt
    simp [hbefore j _ hj (List.getElem?_eq_getElem hjlt)]
  · rw [if_neg hlt, List.findIdx?_eq_none_iff]
    intro x hx
    rcases List.getElem?_of_mem hx with ⟨j, hj⟩
    have hjlt : j < now.length := (List.getElem?_eq_some_iff.1 hj).1
    exact hbefore j x (by omega) hj

/-- The element stays where it is. -/
theorem position_eq (h : Settled p old now) : position p now = position p old := by
  have hle := position_le p old
  have hgrows := h.grows
  rw [position, h.findIdx]
  split
  · rfl
  · rw [Option.getD_none]
    omega

theorem trans (h : Settled p old now) (h' : Settled p now next) : Settled p old next := by
  have hposition := h.position_eq
  have hgrows := h.grows
  have hgrows' := h'.grows
  have hbounded := h.bounded
  have hbounded' := h'.bounded
  constructor
  · omega
  · omega
  · intro j hj
    rw [h'.others j (by omega), h.others j hj]
  · intro x hx
    rw [← hposition] at hx
    exact h'.matched x hx

theorem length_le (h : Settled p old now) : now.length ≤ old.length + 1 := by
  have hle := position_le p old
  have hbounded := h.bounded
  omega

/-- Another match in the place of the first one. -/
theorem set (old : List α) (hy : p y = true) : Settled p old (old.set (position p old) y) := by
  have hlength : (old.set (position p old) y).length = old.length := List.length_set
  constructor
  · omega
  · omega
  · intro j hj
    rw [List.getElem?_set_ne (Ne.symm hj)]
  · intro x hx
    rw [List.getElem?_set] at hx
    simp only [if_true] at hx
    split at hx
    · exact Option.some.inj hx ▸ hy
    · simp at hx

/-- A match behind a list without one. -/
theorem append (hnone : old.findIdx? p = none) (hy : p y = true) : Settled p old (old ++ [y]) := by
  have hposition : position p old = old.length := by rw [position, hnone, Option.getD_none]
  have hlength : (old ++ [y]).length = old.length + 1 := List.length_append
  constructor
  · omega
  · omega
  · intro j hj
    by_cases hlt : j < old.length
    · rw [List.getElem?_append_left hlt]
    · rw [List.getElem?_eq_none (by omega), List.getElem?_eq_none (by omega)]
  · intro x hx
    rw [hposition, List.getElem?_concat_length] at hx
    exact Option.some.inj hx ▸ hy

end Settled

end TreeSync

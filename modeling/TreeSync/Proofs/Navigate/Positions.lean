import TreeSync.Navigate.Find
import TreeSync.Proofs.Schema.Building

/-!
# Positions in lists

A key leads to the position of an element that is there, to none, or nowhere.
Where it leads to none, making the element appends it.

Main results:

- `Schema.lt_of_locate`, `Schema.exists_of_locate`: the element is there.
- `Schema.locateOrAppend_cases`: found, appended or refused.
-/

namespace TreeSync

namespace Schema

variable {σ : Type} {S : Schema σ} {o : Options} {loops : Prop} {elem : Ty}
  {items : List (Node σ)} {key : String} {mode : Mode} {i : Nat}

/-- A key leads to an element that is there. -/
theorem lt_of_locate (h : S.locate o elem items key mode = .ok (some i)) : i < items.length := by
  rw [locate.eq_def] at h
  split at h
  · split at h
    · rename_i position heq
      by_cases hi : position < items.length
      · rw [if_pos hi] at h
        obtain rfl := Option.some.inj (Except.ok.inj h)
        exact hi
      · rw [if_neg hi] at h
        simp at h
    · simp at h
  · rcases bind_eq_ok.1 h with ⟨-, -, hmatch⟩
    rcases bind_eq_ok.1 hmatch with ⟨built, -, hmatch⟩
    rcases bind_eq_ok.1 hmatch with ⟨fields, -, hmatch⟩
    rcases List.findIdx?_eq_some_iff_getElem.1 (Except.ok.inj hmatch) with ⟨hi, -, -⟩
    exact hi
  · cases items with
    | nil => simp at h
    | cons item rest =>
        obtain rfl := Option.some.inj (Except.ok.inj h)
        exact Nat.zero_lt_succ _
  · cases items with
    | nil => simp at h
    | cons item rest =>
        obtain rfl := Option.some.inj (Except.ok.inj h)
        exact Nat.sub_lt (Nat.zero_lt_succ _) Nat.zero_lt_one
  · simp at h

/-- The element that a key leads to. -/
theorem exists_of_locate (h : S.locate o elem items key mode = .ok (some i)) :
    ∃ v, items[i]? = some v :=
  ⟨_, List.getElem?_eq_getElem (lt_of_locate h)⟩

/-- Making what a key leads to finds an element, appends one or changes nothing. -/
theorem locateOrAppend_cases (hS : S.Sound loops) (c : Node σ) (elem : Ty)
    (items : List (Node σ)) (key : String) (mode : Mode) :
    (∃ err, S.locateOrAppend o c elem items key mode = (c, .error err)) ∨
    (∃ i, S.locate o elem items key mode = .ok (some i) ∧
      S.locateOrAppend o c elem items key mode = (c, .ok i)) ∨
    ∃ v, S.locate o elem items key mode = .ok none ∧
      (v = S.zero elem ∨ S.build o elem key = .ok v) ∧ v.ty = elem ∧ S.Typed loops v ∧
      S.locateOrAppend o c elem items key mode = (c.append v, .ok items.length) := by
  rw [locateOrAppend]
  cases hlocate : S.locate o elem items key mode with
  | error err => exact .inl ⟨err, rfl⟩
  | ok position =>
      cases position with
      | some i => exact .inr (.inl ⟨i, rfl, rfl⟩)
      | none =>
          simp only
          by_cases hmode : mode = .index
          · rw [if_pos hmode]
            exact .inl ⟨_, rfl⟩
          · rw [if_neg hmode]
            cases hitem : (if key.isEmpty then .ok (S.zero elem) else S.build o elem key :
                Except NavError (Node σ)) with
            | error err => exact .inl ⟨err, rfl⟩
            | ok v =>
                have hnew : v = S.zero elem ∨ S.build o elem key = .ok v := by
                  split at hitem
                  · exact .inl (Except.ok.inj hitem).symm
                  · exact .inr hitem
                have hv : v.ty = elem ∧ S.Typed loops v := by
                  rcases hnew with rfl | hbuild
                  · exact ⟨S.ty_zero elem, typed_zero hS elem⟩
                  · exact typed_build hS hbuild
                exact .inr (.inr ⟨v, trivial, hnew, hv.1, hv.2, rfl⟩)

end Schema

end TreeSync

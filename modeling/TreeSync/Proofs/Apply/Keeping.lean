import TreeSync.Proofs.Apply.Probe
import TreeSync.Proofs.Apply.Root
import TreeSync.Proofs.Apply.Steps
import TreeSync.Proofs.Navigate.Keeping

/-!
# Events keep targets well typed

An event on a target without overrides changes neither its type nor its
well-typedness, whether it succeeds or fails half-way.

Main results:

- `Schema.keeps_walk`: walking a path and acting at its end.
- `Schema.keeps_apply`: one event.
-/

namespace TreeSync

namespace Schema

open Node

variable {σ : Type} {S : Schema σ} {o : Options} {loops : Prop}

/-- What an event writes into a dynamic slot is ordered. -/
theorem ordered_tagged (tag : Tag) (literal : String) : (tag.document literal).Ordered := by
  cases tag with
  | scalar t =>
      cases t with
      | int =>
          rw [Tag.document, ScalarTag.document]
          split <;> exact .leaf rfl
      | float =>
          rw [Tag.document, ScalarTag.document]
          split <;> exact .leaf rfl
      | bool =>
          rw [Tag.document, ScalarTag.document]
          split
          · exact .leaf rfl
          · split <;> exact .leaf rfl
      | _ => exact .leaf rfl
  | seq => exact .seq (List.forall_mem_nil _)
  | _ => exact Document.ordered_emptyMap

/-- What an event writes is well typed. -/
theorem carries_event (S : Schema σ) (loops : Prop) (e : Event) :
    S.Carries loops (.literal e.value (some (e.tag.document e.value))) := by
  intro d hd
  obtain rfl := Option.some.inj hd
  exact ordered_tagged e.tag e.value

theorem keeps_perform (hS : S.Sound loops) (e : Event) (n : Node σ) :
    S.Keeps loops n (S.perform o e n).1 := by
  by_cases haction : e.action = .delete
  · rw [perform_of_delete haction]
    split
    · rename_i m hm
      exact keeps_remove hS hm
    · exact .refl n
  · have hpromote := keeps_promote hS n
    cases hshape : e.tag.shape? with
    | some shape =>
        rw [perform_of_shape haction hshape]
        exact hpromote.trans (keeps_materialize hS _ e.key shape _)
    | none =>
        rw [perform_of_literal haction hshape]
        exact hpromote.trans (keeps_write hS (S.carries_event loops e) _ e.key _)

theorem keeps_enter (hS : S.Sound loops) (action : Action) (n : Node σ) (key : String) :
    S.Keeps loops n (S.enter o action n key).1 := by
  by_cases haction : action = .delete
  · rw [haction, enter_delete]
    exact .refl n
  · rw [enter_of_ne haction]
    exact (keeps_promote hS n).trans (keeps_findOrCreate hS _ key _)

/-- Walking a path and acting at its end keeps a node, also where the walk ends
early. -/
theorem keeps_walk (hS : S.Sound loops) (e : Event) (n : Node σ) (path : List String) :
    S.Keeps loops n (S.walk o e n path).1 := by
  induction path generalizing n with
  | nil => exact keeps_perform hS e n
  | cons key rest ih =>
      have henter := keeps_enter hS (o := o) e.action n key
      rw [walk]
      split
      · rename_i m err heq
        rw [heq] at henter
        exact henter
      · rename_i m address heq
        rw [heq] at henter
        split
        · exact henter
        · rename_i child hchild
          split
          · exact henter
          · exact henter.trans (Keeps.putBack hchild (ih child))

theorem keeps_setLiteral (hS : S.Sound loops) (n : Node σ) (text : String) :
    S.Keeps loops n (S.setLiteral n text).1 := by
  have hallocate := keeps_allocate hS n
  rw [setLiteral]
  split
  · rename_i c hc
    refine hallocate.trans (Keeps.withCore ?_)
    split at hc
    · rename_i slot hslot
      rw [hslot]
      exact keeps_setScalar hc
    · rename_i d hd
      rw [hd]
      exact Except.ok.inj hc ▸ .of_typed rfl (.dynamic (.leaf rfl)) rfl
    · simp at hc
  · exact hallocate

/-- An event at the root itself keeps the root. -/
theorem keeps_applyRoot (hS : S.Sound loops) (e : Event) (n : Node σ) :
    S.Keeps loops n (S.applyRoot e n).1 := by
  by_cases hwrites : e.WritesScalar
  · obtain ⟨haction, tag, htag⟩ := hwrites
    have hallocate := keeps_allocate hS n
    rw [applyRoot_scalar haction htag]
    split
    · rename_i d hd
      refine hallocate.trans (Keeps.withCore (.of_typed ?_ (.dynamic ?_) rfl))
      · rw [hd]
        rfl
      · exact ordered_tagged (.scalar tag) e.value
    · exact hallocate.trans (keeps_setLiteral hS _ e.value)
    · exact hallocate
  · rw [applyRoot_idle hwrites]
    exact .refl n

/-- An event on a well-typed target keeps it, if nothing in it answers with an override. -/
theorem keeps_apply_of_silent (hS : S.Sound loops) {n : Node σ} (hn : S.Typed loops n)
    (hsilent : S.Silent n) (e : Event) : S.Keeps loops n (S.apply o e n).1 := by
  by_cases he : e.isRoot = true
  · rw [apply, he]
    exact keeps_applyRoot hS e n
  · rw [apply_of_silent hn hsilent (Bool.eq_false_iff.2 he)]
    exact keeps_walk hS e n e.path

/-- An event on a well-typed target without overrides keeps it. -/
theorem keeps_apply (hS : S.Sound loops) (hfree : S.OverrideFree) (e : Event) {n : Node σ}
    (hn : S.Typed loops n) : S.Keeps loops n (S.apply o e n).1 :=
  keeps_apply_of_silent hS hn (hfree.silent n) e

end Schema

end TreeSync

import TreeSync.Proofs.Apply.Keeping

/-!
# Events below layers

What an event does to a node is decided below the layers of the node: it does the
same to the bare part, and the layers stay around the result.  An event that
creates or replaces first fills the layers and turns a dynamic leaf into a map.

Main definitions and results:

- `Schema.Ready`: a bare node that stays as it is when it is entered.
- `Schema.walk_withCore`: an event below layers that have a value.
- `Schema.promote_eq_withCore`: what creating and replacing start from.
-/

namespace TreeSync

namespace Schema

open Node

variable {σ : Type} {S : Schema σ} {o : Options} {e : Event} {n c : Node σ} {loops : Prop}

/-! ## Promoted nodes -/

/-- The bare node that a creating event enters: an empty map for a dynamic leaf. -/
def entered : Node σ → Node σ
  | .dynamic d => if d.isLeaf then .dynamic (.map []) else .dynamic d
  | c => c

/-- A bare node that stays as it is when a creating event enters it. -/
structure Ready (c : Node σ) : Prop where
  bare : c.Bare
  entered_eq : entered c = c

/-- A node that was entered can be entered again as it is. -/
theorem ready_entered (hc : c.Bare) : Ready (entered c) := by
  cases c with
  | dynamic d =>
      rw [entered]
      by_cases hd : d.isLeaf = true
      · rw [if_pos hd]
        exact ⟨Kind.noConfusion, rfl⟩
      · rw [if_neg hd]
        exact ⟨Kind.noConfusion, by rw [entered, if_neg hd]⟩
  | _ => exact ⟨hc, rfl⟩

/-- A promoted node has the layers of the allocated one. -/
theorem promote_eq_withCore (S : Schema σ) (n : Node σ) :
    S.promote n = (S.allocate n).withCore (entered (S.allocate n).innermost) := by
  rw [promote]
  split
  · rename_i d hd
    rw [hd, entered]
    by_cases hleaf : d.isLeaf = true
    · rw [if_pos hleaf, if_pos hleaf]
      rfl
    · rw [if_neg hleaf, if_neg hleaf, ← hd, withCore_innermost]
  · rename_i hne
    have hentered : entered (S.allocate n).innermost = (S.allocate n).innermost := by
      cases hcore : (S.allocate n).innermost with
      | dynamic d => exact absurd hcore (hne d)
      | _ => rfl
    rw [hentered, withCore_innermost]

/-- Below the layers of a promoted node stands the node that a creating event enters. -/
theorem innermost_promote (S : Schema σ) (n : Node σ) :
    (S.promote n).innermost = entered (S.allocate n).innermost := by
  rw [promote_eq_withCore, innermost_withCore _ (ready_entered (S.bare_innermost_allocate n)).bare]

theorem ready_innermost_promote (S : Schema σ) (n : Node σ) : Ready (S.promote n).innermost := by
  rw [innermost_promote]
  exact ready_entered (S.bare_innermost_allocate n)

/-- A ready node below layers stays as it is, too. -/
theorem promote_withCore (hc : Ready c) (n : Node σ) :
    S.promote (n.withCore c) = n.withCore c := by
  have hallocate := S.allocate_of_isAllocated (isAllocated_withCore n hc.bare)
  rw [promote_eq_withCore, hallocate, innermost_withCore n hc.bare, hc.entered_eq,
    withCore_withCore n hc.bare]

theorem promote_of_ready (hc : Ready c) : S.promote c = c := by
  have h := promote_withCore (S := S) hc c
  rwa [withCore_of_bare hc.bare] at h

/-- A promoted node is promoted already. -/
@[simp]
theorem promote_promote (S : Schema σ) (n : Node σ) :
    S.promote (S.promote n) = S.promote n := by
  have h := promote_withCore (S := S) (S.ready_innermost_promote n) (S.promote n)
  rwa [withCore_innermost] at h

/-- Creating and replacing start from the promoted node. -/
theorem perform_promote (haction : e.action ≠ .delete) (n : Node σ) :
    S.perform o e (S.promote n) = S.perform o e n := by
  cases hshape : e.tag.shape? with
  | some shape =>
      rw [perform_of_shape haction hshape, perform_of_shape haction hshape, promote_promote]
  | none =>
      rw [perform_of_literal haction hshape, perform_of_literal haction hshape, promote_promote]

/-- A creating step promotes the node anyway, so the node may have been promoted before. -/
theorem enter_promote {action : Action} (haction : action ≠ .delete) (n : Node σ) (key : String) :
    S.enter o action (S.promote n) key = S.enter o action n key := by
  rw [enter_of_ne haction, enter_of_ne haction, promote_promote]

/-! ## One step below layers -/

/-- A step below layers happens in the core, and its address leads through the layers. -/
theorem findOrCreate_withCore (hS : S.Sound loops) (hc : c.Bare) (n : Node σ) (key : String)
    (mode : Mode) :
    S.findOrCreate o (n.withCore c) key mode =
      (n.withCore (S.findOrCreate o c key mode).1,
        (n.coreAddress ++ ·) <$> (S.findOrCreate o c key mode).2) := by
  have hallocate := S.allocate_of_isAllocated (isAllocated_withCore n hc)
  have hbare : (S.createChild o c key mode).1.Bare :=
    hc.of_ty_eq (keeps_createChild hS c key mode).ty_eq
  rw [findOrCreate, findOrCreate]
  simp only [hallocate, S.allocate_of_bare hc, innermost_withCore n hc, innermost_of_bare hc,
    coreAddress_of_bare hc, putBack, List.nil_append, replaceAt]
  have hput : (n.withCore c).replaceAt (n.withCore c).coreAddress (S.createChild o c key mode).1 =
      n.withCore (S.createChild o c key mode).1 := withCore_withCore n hc _
  rw [hput]
  cases hr : (S.createChild o c key mode).2 with
  | error err => rfl
  | ok a =>
      simp only [coreAddress_withCore n hc, get?_withCore_append]
      cases (S.createChild o c key mode).1.get? a with
      | none => rfl
      | some child =>
          simp only [withCore_replaceAt_append]
          rw [List.append_assoc]
          rfl

/-- Finding below layers happens in the core. -/
theorem find_withCore (hc : c.Bare) (n : Node σ) (key : String) (mode : Mode) :
    S.find o (n.withCore c) key mode =
      Place.under n.coreAddress <$> S.find o c key mode := by
  have hcore : (n.withCore c).core = .ok c := by
    rw [core_eq_ok_innermost (isAllocated_withCore n hc), innermost_withCore n hc]
  have hunder : ∀ x : Except NavError (Place σ), Place.under [] <$> x = x := by
    intro x
    cases x <;> rfl
  rw [find, find, hcore, core_of_bare hc]
  simp only [coreAddress_withCore n hc, coreAddress_of_bare hc, hunder]

/-- One step below layers. -/
theorem enter_withCore (hS : S.Sound loops) (hc : c.Bare) {action : Action}
    (hready : action ≠ .delete → Ready c) (n : Node σ) (key : String) :
    S.enter o action (n.withCore c) key =
      (n.withCore (S.enter o action c key).1,
        (n.coreAddress ++ ·) <$> (S.enter o action c key).2) := by
  by_cases haction : action = .delete
  · subst haction
    rw [enter_delete, enter_delete, find_withCore hc]
    cases S.find o c key (.ofKey o key) with
    | error err => rfl
    | ok place => rfl
  · have hc' := hready haction
    rw [enter_of_ne haction, enter_of_ne haction, promote_withCore hc', promote_of_ready hc',
      findOrCreate_withCore hS hc]

/-! ## The leaf below layers -/

/-- A write below layers happens in the core. -/
theorem write_withCore (hc : c.Bare) (n : Node σ) (key : String) (payload : Payload σ)
    (mode : Mode) :
    S.write o (n.withCore c) key payload mode =
      (n.withCore (S.write o c key payload mode).1, (S.write o c key payload mode).2) := by
  have hallocate := S.allocate_of_isAllocated (isAllocated_withCore n hc)
  rw [write, write]
  simp only [hallocate, S.allocate_of_bare hc, innermost_withCore n hc, innermost_of_bare hc,
    putBack]
  rw [coreAddress_of_bare hc]
  exact Prod.ext (withCore_withCore n hc _) rfl

/-- So does shaping. -/
theorem materialize_withCore (hc : c.Bare) (n : Node σ) (key : String) (shape : Shape)
    (mode : Mode) :
    S.materialize o (n.withCore c) key shape mode =
      (n.withCore (S.materialize o c key shape mode).1,
        (S.materialize o c key shape mode).2) := by
  have hallocate := S.allocate_of_isAllocated (isAllocated_withCore n hc)
  rw [materialize, materialize]
  simp only [hallocate, S.allocate_of_bare hc, innermost_withCore n hc, innermost_of_bare hc,
    putBack]
  rw [coreAddress_of_bare hc]
  exact Prod.ext (withCore_withCore n hc _) rfl

theorem remove_withCore (hc : c.Bare) (n : Node σ) (key : String) (mode : Mode) :
    S.remove o (n.withCore c) key mode = n.withCore <$> S.remove o c key mode := by
  have hcore : (n.withCore c).core = .ok c := by
    rw [core_eq_ok_innermost (isAllocated_withCore n hc), innermost_withCore n hc]
  have hput : (n.withCore c).withCore = n.withCore := funext (withCore_withCore n hc)
  have hnone : c.withCore = id := funext (withCore_of_bare hc)
  have hid : ∀ x : Except NavError (Node σ), id <$> x = x := by
    intro x
    cases x <;> rfl
  rw [remove, remove, hcore, core_of_bare hc]
  change (n.withCore c).withCore <$> _ = n.withCore <$> c.withCore <$> _
  rw [hput, hnone, hid]

/-- The action at the leaf below layers. -/
theorem perform_withCore (hc : c.Bare) (hready : e.action ≠ .delete → Ready c) (n : Node σ) :
    S.perform o e (n.withCore c) =
      (n.withCore (S.perform o e c).1, (S.perform o e c).2) := by
  by_cases haction : e.action = .delete
  · rw [perform_of_delete haction, perform_of_delete haction, remove_withCore hc]
    cases S.remove o c e.key (.ofKey o e.key) with
    | error err => rfl
    | ok m => rfl
  · have hc' := hready haction
    cases hshape : e.tag.shape? with
    | some shape =>
        rw [perform_of_shape haction hshape, perform_of_shape haction hshape,
          promote_withCore hc', promote_of_ready hc', materialize_withCore hc]
        rfl
    | none =>
        rw [perform_of_literal haction hshape, perform_of_literal haction hshape,
          promote_withCore hc', promote_of_ready hc', write_withCore hc]
        rfl

/-! ## The way below layers -/

/-- An event below layers that have a value. -/
theorem walk_withCore (hS : S.Sound loops) (hc : c.Bare) (hready : e.action ≠ .delete → Ready c)
    (n : Node σ) (path : List String) :
    S.walk o e (n.withCore c) path =
      (n.withCore (S.walk o e c path).1, (S.walk o e c path).2) := by
  cases path with
  | nil => exact perform_withCore hc hready n
  | cons key rest =>
      have hbare : (S.enter o e.action c key).1.Bare :=
        hc.of_ty_eq (keeps_enter hS e.action c key).ty_eq
      rw [walk, walk, enter_withCore hS hc hready]
      rcases hm : S.enter o e.action c key with ⟨m, _ | a⟩
      · rfl
      · rw [hm] at hbare
        simp only [Functor.map, Except.map, get?_withCore_append]
        cases m.get? a with
        | none => rfl
        | some child =>
            simp only [isAllocated_withCore n hc, isAllocated_of_bare hc,
              coreAddress_withCore n hbare, coreAddress_of_bare hbare, List.append_assoc,
              List.append_right_eq_self, true_and, putBack, withCore_replaceAt_append]
            split
            · rfl
            · rfl

end Schema

end TreeSync

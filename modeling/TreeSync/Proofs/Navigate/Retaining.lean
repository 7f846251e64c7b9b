import TreeSync.Proofs.Navigate.Keeping
import TreeSync.Proofs.Navigate.Positions
import TreeSync.Proofs.Node.Retaining

/-!
# What steps and failed actions retain

A step that makes what is missing fills empty layers, adds an entry or appends an
element, and so loses nothing, whether it gets on or not.  An action at the leaf
overwrites at its very end only: one that fails has done no more than such steps.

Main definitions and results:

- `Schema.retains_promote`: entering a node loses at most a leaf of a document.
- `Schema.retains_findOrCreate`: a step along a key loses nothing.
- `Schema.Failsafe`: a change that loses nothing when it fails.
- `Schema.failsafe_write`, `Schema.failsafe_materialize`: the actions.
-/

namespace TreeSync

namespace Schema

open Node

variable {σ : Type} {S : Schema σ} {o : Options} {loops : Prop} {n c : Node σ} {key : String}
  {mode : Mode} {lost : Address → Node σ → Prop}

/-! ## Filling and entering -/

/-- Filling layers loses nothing. -/
theorem retains_allocate (n : Node σ) : n.Retains lost (S.allocate n) := by
  cases halloc : n.isAllocated with
  | true =>
      rw [S.allocate_of_isAllocated halloc]
      exact .refl n
  | false => exact .of_unallocated halloc _

/-- To enter a node is to lose at most the leaf of a document below its layers. -/
theorem retains_promote (n : Node σ) :
    n.Retains (fun a v => a = n.coreAddress ∧ v.kind = .dynamic) (S.promote n) := by
  cases halloc : n.isAllocated with
  | false => exact .of_unallocated halloc _
  | true =>
      rw [promote, S.allocate_of_isAllocated halloc]
      split
      · rename_i d hd
        split
        · rename_i hleaf
          refine .replaceAt n.get?_coreAddress (by rw [hd]; rfl) ?_
          rw [hd]
          intro a v hv hatom
          cases a with
          | nil =>
              obtain rfl := Option.some.inj hv
              exact .inr ⟨List.append_nil _, rfl⟩
          | cons s rest =>
              obtain ⟨u, hu, -⟩ := Option.bind_eq_some_iff.1 hv
              cases d <;> simp [Document.isLeaf, child?] at hleaf hu
        · exact .refl n
      · exact .refl n

/-! ## Steps -/

/-- Locating an element loses nothing, since a missing one goes to the end of the list. -/
theorem retains_locateOrAppend (hS : S.Sound loops) {elem : Ty} {items : List (Node σ)}
    (hc : c.container = .list elem items) (key : String) (mode : Mode) :
    c.Retains lost (S.locateOrAppend o c elem items key mode).1 := by
  rcases locateOrAppend_cases hS (o := o) c elem items key mode with
    ⟨err, hmade⟩ | ⟨i, -, hmade⟩ | ⟨v, -, -, hty, -, hmade⟩
  · rw [hmade]
    exact .refl c
  · rw [hmade]
    exact .refl c
  · rw [hmade]
    exact .append hc hty

/-- Making an entry or element that is missing loses nothing. -/
theorem retains_createItem (hS : S.Sound loops) (c : Node σ) (key : String) (mode : Mode) :
    c.Retains lost (S.createItem o c key mode).1 := by
  rw [createItem]
  split
  · rename_i kind elem entries hc
    split
    · exact .refl c
    · rename_i k hk
      split
      · exact .refl c
      · rename_i hnone
        exact .putEntry hc ((child?_entry hc k).trans hnone) _
  · rename_i elem items hc
    exact retains_locateOrAppend hS hc key mode
  all_goals exact .refl c

/-- The same with the fields of a record. -/
theorem retains_createChild (hS : S.Sound loops) (c : Node σ) (key : String) (mode : Mode) :
    c.Retains lost (S.createChild o c key mode).1 := by
  rw [createChild]
  split
  · rename_i type fields hc
    simp only
    split
    · exact .refl c
    · rename_i place rest htarget
      rcases bind_eq_ok.1 htarget with ⟨-, -, htarget⟩
      rcases bind_eq_ok.1 htarget with ⟨⟨name, text⟩, -, hplace⟩
      rcases bind_eq_ok.1 hplace with ⟨field, hfield, heq⟩
      obtain ⟨rfl, rfl⟩ := Prod.mk.inj (Except.ok.inj heq)
      split
      · exact .refl c
      · have hkeeps := keeps_createItem hS (o := o) (S.allocate field.node).innermost text .content
        have hty := (keeps_allocate hS field.node).trans hkeeps.withCore
        refine .replaceAt (get?_fieldPlace hc hfield) hty.ty_eq ?_
        exact (retains_allocate field.node).trans
          (.replaceAt (get?_coreAddress _) hkeeps.ty_eq (retains_createItem hS _ text .content))
  · exact retains_createItem hS c key mode

/-- A step that makes what is missing loses nothing. -/
theorem retains_findOrCreate (hS : S.Sound loops) (n : Node σ) (key : String) (mode : Mode) :
    n.Retains lost (S.findOrCreate o n key mode).1 := by
  have hchild := keeps_createChild hS (o := o) (S.allocate n).innermost key mode
  have hm : n.Retains lost ((S.allocate n).withCore
      (S.createChild o (S.allocate n).innermost key mode).1) :=
    (retains_allocate n).trans
      (.replaceAt (get?_coreAddress _) hchild.ty_eq (retains_createChild hS _ key mode))
  rw [findOrCreate]
  simp only [putBack]
  split
  · rename_i m err heq
    exact (Prod.mk.inj heq).1 ▸ hm
  · rename_i m a heq
    obtain rfl := (Prod.mk.inj heq).1
    split
    · exact hm
    · rename_i child hchild
      exact hm.trans
        (.replaceAt hchild (keeps_allocate hS child).ty_eq (retains_allocate child))

/-! ## Failing -/

/-- A change that failed lost nothing. -/
def Harmless (n : Node σ) (changed : Node σ × Except NavError Unit) : Prop :=
  ∀ err, changed.2 = .error err → n.Retains (fun _ _ => False) changed.1

theorem harmless_ok (n m : Node σ) : Harmless n (m, .ok ()) :=
  fun _ h => nomatch h

theorem harmless_error (n : Node σ) (err : NavError) : Harmless n (n, .error err) :=
  fun _ _ => .refl n

/-- A change that keeps type and well-typedness, and loses nothing if it fails. -/
structure Failsafe (S : Schema σ) (loops : Prop) (n : Node σ)
    (changed : Node σ × Except NavError Unit) : Prop where
  keeps : S.Keeps loops n changed.1
  harmless : Harmless n changed

namespace Failsafe

variable {changed : Node σ × Except NavError Unit}

/-- A refusal. -/
theorem refuse (n : Node σ) (err : NavError) : S.Failsafe loops n (n, .error err) :=
  ⟨.refl n, harmless_error n err⟩

/-- A change behind a step that loses nothing. -/
theorem after {m : Node σ} (hkeeps : S.Keeps loops n m) (h : n.Retains (fun _ _ => False) m)
    (h' : S.Failsafe loops m changed) : S.Failsafe loops n changed :=
  ⟨hkeeps.trans h'.keeps, fun err herr => h.trans (h'.harmless err herr)⟩

/-- A change behind the filling of layers. -/
theorem after_allocate (hS : S.Sound loops) (h : S.Failsafe loops (S.allocate n) changed) :
    S.Failsafe loops n changed :=
  .after (keeps_allocate hS n) (retains_allocate n) h

/-- A change of a descendant. -/
theorem putBack {a : Address} (hc : n.get? a = some c) (h : S.Failsafe loops c changed) :
    S.Failsafe loops n (n.putBack a changed) :=
  ⟨.putBack hc h.keeps, fun err herr => .replaceAt hc h.keeps.ty_eq (h.harmless err herr)⟩

end Failsafe

/-! ## Writing -/

section Write

variable {payload : Payload σ}

/-- A write that a slot refuses only fills its layers. -/
theorem failsafe_setSlot (hS : S.Sound loops) (hp : S.Carries loops payload) (n : Node σ) :
    S.Failsafe loops n (S.setSlot o n payload) := by
  refine ⟨keeps_setSlot hS hp n, ?_⟩
  rw [setSlot.eq_def]
  simp only
  split
  · exact harmless_ok n _
  · exact fun _ _ => retains_allocate n

theorem harmless_appendSlot (c : Node σ) (elem : Ty) (payload : Payload σ) :
    Harmless c (S.appendSlot o c elem payload) := by
  rw [appendSlot]
  split
  · exact harmless_ok c _
  · exact harmless_error c _

/-- A list that refuses a write is left as it is. -/
theorem harmless_writeElement (c : Node σ) (elem : Ty) (items : List (Node σ)) (key : String)
    (payload : Payload σ) (mode : Mode) :
    Harmless c (S.writeElement o c elem items key payload mode) := by
  rw [writeElement.eq_def]
  split
  · exact harmless_error c _
  · split
    · exact harmless_error c _
    · exact harmless_ok c _
    · split
      · exact harmless_appendSlot c elem _
      · split
        · exact harmless_error c _
        · exact harmless_ok c _
  · exact harmless_appendSlot c elem _

/-- A write to an entry or element may leave filled layers where it fails. -/
theorem failsafe_writeItem (hS : S.Sound loops) (hp : S.Carries loops payload) (c : Node σ)
    (key : String) (mode : Mode) : S.Failsafe loops c (S.writeItem o c key payload mode) := by
  refine ⟨keeps_writeItem hS hp c key mode, ?_⟩
  rw [writeItem]
  split
  · rename_i kind elem entries hc
    split
    · exact harmless_error c _
    · rename_i k hk
      split
      · rename_i v hv
        have hget : c.get? [.entry k] = some v := by simp [get?, child?_entry hc, hv]
        exact (Failsafe.putBack hget (failsafe_setSlot hS hp v)).harmless
      · split
        · exact harmless_ok c _
        · exact harmless_error c _
  · exact harmless_writeElement c _ _ key payload mode
  all_goals exact harmless_error c _

/-- A write that fails loses nothing. -/
theorem failsafe_write (hS : S.Sound loops) (hp : S.Carries loops payload) (n : Node σ)
    (key : String) (mode : Mode) : S.Failsafe loops n (S.write o n key payload mode) := by
  rw [write]
  refine .after_allocate hS (.putBack (get?_coreAddress _) ?_)
  split
  · rename_i type fields hc
    split
    · exact .refuse _ _
    · rename_i place text hplace
      refine .putBack (get?_writableField hc hplace) ?_
      split
      · exact failsafe_setSlot hS hp place.node
      · exact .after_allocate hS
          (.putBack (get?_coreAddress _) (failsafe_writeItem hS hp _ text .content))
  · exact failsafe_writeItem hS hp _ key mode

end Write

/-! ## Shaping -/

/-- A shape that a slot refuses only fills its layers. -/
theorem failsafe_shapeSlot (hS : S.Sound loops) (n : Node σ) (shape : Shape) :
    S.Failsafe loops n (S.shapeSlot n shape) := by
  refine ⟨keeps_shapeSlot hS n shape, ?_⟩
  rw [shapeSlot]
  split
  · exact harmless_ok n _
  · exact fun _ _ => retains_allocate n

/-- A shape may leave filled layers and a built element where it fails. -/
theorem failsafe_shapeItem (hS : S.Sound loops) (c : Node σ) (key : String) (shape : Shape)
    (mode : Mode) : S.Failsafe loops c (S.shapeItem o c key shape mode) := by
  refine ⟨keeps_shapeItem hS c key shape mode, ?_⟩
  rw [shapeItem]
  split
  · rename_i kind elem entries hc
    split
    · exact harmless_error c _
    · rename_i k hk
      split
      · rename_i v hv
        have hget : c.get? [.entry k] = some v := by simp [get?, child?_entry hc, hv]
        exact (Failsafe.putBack hget (failsafe_shapeSlot hS v shape)).harmless
      · split
        · exact harmless_ok c _
        · exact harmless_error c _
  · rename_i elem items hc
    split
    · split
      · exact harmless_ok c _
      · exact harmless_error c _
    · have hkeeps := keeps_locateOrAppend hS (o := o) hc key mode
      have hretains : c.Retains (fun _ _ => False) (S.locateOrAppend o c elem items key mode).1 :=
        retains_locateOrAppend hS hc key mode
      split
      · rename_i d err heq
        rw [heq] at hretains
        exact fun _ _ => hretains
      · rename_i d i heq
        rw [heq] at hkeeps hretains
        split
        · rename_i item hitem
          have hget : d.get? [.element i] = some item := by simp [get?, hitem]
          exact (Failsafe.after hkeeps hretains
            (.putBack hget (failsafe_shapeSlot hS item shape))).harmless
        · exact fun _ _ => hretains
  all_goals exact harmless_error c _

/-- Making a container loses nothing if it fails. -/
theorem failsafe_materialize (hS : S.Sound loops) (n : Node σ) (key : String) (shape : Shape)
    (mode : Mode) : S.Failsafe loops n (S.materialize o n key shape mode) := by
  rw [materialize]
  refine .after_allocate hS (.putBack (get?_coreAddress _) ?_)
  split
  · rename_i type fields hc
    split
    · exact .refuse _ _
    · rename_i place text hplace
      refine .putBack (get?_writableField hc hplace) ?_
      split
      · exact failsafe_shapeSlot hS place.node shape
      · exact .after_allocate hS
          (.putBack (get?_coreAddress _) (failsafe_shapeItem hS _ text shape .content))
  · exact failsafe_shapeItem hS _ key shape mode

end Schema

end TreeSync

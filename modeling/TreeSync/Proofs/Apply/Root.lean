import TreeSync.Apply.Basic
import TreeSync.Proofs.Node.Layers

/-!
# Events at the root

An event at the root does nothing unless it writes a scalar.  A scalar that is written there
fills the layers around a typed container and goes no further, but it takes the place of a
document, whatever the document holds.

Main definitions and results:

- `Event.WritesScalar`: events that bring a scalar.
- `Schema.applyRoot_scalar`, `Schema.applyRoot_idle`: what an event does at the root.
- `Schema.applyRoot_typed`, `Schema.applyRoot_document`: writing at a container.
- `Schema.apply_at_container`: which events at the root leave a container as it is.
-/

namespace TreeSync

open Node

variable {σ : Type}

/-- The event creates or replaces a scalar. -/
def Event.WritesScalar (e : Event) : Prop :=
  e.action ≠ .delete ∧ ∃ tag, e.tag = .scalar tag

/-- No scalar tag makes a document with children. -/
theorem ScalarTag.isLeaf_document (tag : ScalarTag) (literal : String) :
    (tag.document literal).isLeaf = true := by
  unfold document
  repeat' split
  all_goals rfl

theorem Node.container_of_isLeaf {d : Document} (h : d.isLeaf = true) :
    (dynamic d : Node σ).container = .leaf := by
  cases d with
  | seq items => cases h
  | map entries => cases h
  | _ => rfl

namespace Schema

variable {S : Schema σ} {o : Options} {e : Event} {n : Node σ}

/-- What an event that writes a scalar does at the root. -/
theorem applyRoot_scalar (haction : e.action ≠ .delete) {tag : ScalarTag}
    (htag : e.tag = .scalar tag) (n : Node σ) :
    S.applyRoot e n =
      match (S.allocate n).innermost with
      | .dynamic _ => ((S.allocate n).withCore (.dynamic (tag.document e.value)), .ok ())
      | .scalar _ => ofNavigation (S.setLiteral (S.allocate n) e.value)
      | _ => (S.allocate n, .ok ()) := by
  rw [applyRoot.eq_def, htag]
  cases haction' : e.action with
  | delete => exact absurd haction' haction
  | create => rfl
  | replace => rfl

/-- Any other event does nothing there. -/
theorem applyRoot_idle (h : ¬ e.WritesScalar) (n : Node σ) : S.applyRoot e n = (n, .ok ()) := by
  rw [applyRoot.eq_def]
  split
  · rename_i tag haction htag
    exact absurd ⟨by rw [haction]; decide, tag, htag⟩ h
  · rename_i tag haction htag
    exact absurd ⟨by rw [haction]; decide, tag, htag⟩ h
  · rfl

/-- A scalar that is written at a typed container only fills its layers. -/
theorem applyRoot_typed (h : e.WritesScalar)
    (hcontainer : (S.allocate n).innermost.container ≠ .leaf)
    (htyped : ∀ d, (S.allocate n).innermost ≠ .dynamic d) :
    S.applyRoot e n = (S.allocate n, .ok ()) := by
  obtain ⟨haction, tag, htag⟩ := h
  rw [applyRoot_scalar haction htag]
  cases hinner : (S.allocate n).innermost with
  | dynamic d => exact absurd hinner (htyped d)
  | scalar slot => exact absurd (by rw [hinner]; rfl) hcontainer
  | _ => rfl

/-- A scalar that is written at a document takes its place. -/
theorem applyRoot_document (h : e.WritesScalar) {d : Document}
    (hdoc : (S.allocate n).innermost = .dynamic d) :
    ∃ leaf, leaf.isLeaf = true ∧
      S.applyRoot e n = ((S.allocate n).withCore (.dynamic leaf), .ok ()) := by
  obtain ⟨haction, tag, htag⟩ := h
  refine ⟨tag.document e.value, tag.isLeaf_document e.value, ?_⟩
  rw [applyRoot_scalar haction htag, hdoc]

/-- An event that addresses a container as the root succeeds.  It leaves the container as it is
unless it writes a scalar, and then it does so exactly if all layers have a value and the
container is not a document. -/
theorem apply_at_container (hroot : e.isRoot = true)
    (hcontainer : (S.allocate n).innermost.container ≠ .leaf) :
    (S.apply o e n).2 = .ok () ∧
    ((S.apply o e n).1 = n ↔
      (e.WritesScalar → n.isAllocated = true ∧ ∀ d, n.innermost ≠ .dynamic d)) := by
  rw [apply, if_pos hroot]
  by_cases hwrites : e.WritesScalar
  · by_cases hdoc : ∃ d, (S.allocate n).innermost = .dynamic d
    · obtain ⟨d, hdoc⟩ := hdoc
      obtain ⟨leaf, hleaf, happly⟩ := applyRoot_document hwrites hdoc
      rw [happly]
      refine ⟨rfl, iff_of_false (fun hsame => ?_) fun hkept => ?_⟩
      -- The leaf is no container, so it is not what was there.
      · have hbare : (dynamic leaf : Node σ).Bare := Kind.noConfusion
        have halloc : n.isAllocated = true := hsame ▸ isAllocated_withCore (S.allocate n) hbare
        have hinner : n.innermost = .dynamic leaf :=
          (congrArg innermost hsame).symm.trans (innermost_withCore _ hbare)
        rw [S.allocate_of_isAllocated halloc, hinner] at hcontainer
        exact hcontainer (container_of_isLeaf hleaf)
      · obtain ⟨halloc, htyped⟩ := hkept hwrites
        rw [S.allocate_of_isAllocated halloc] at hdoc
        exact htyped d hdoc
    · have htyped : ∀ d, (S.allocate n).innermost ≠ .dynamic d := fun d h => hdoc ⟨d, h⟩
      rw [applyRoot_typed hwrites hcontainer htyped]
      refine ⟨rfl, fun hsame _ => ?_, fun hkept => S.allocate_of_isAllocated (hkept hwrites).1⟩
      have halloc : n.isAllocated = true := hsame ▸ S.isAllocated_allocate n
      rw [S.allocate_of_isAllocated halloc] at htyped
      exact ⟨halloc, htyped⟩
  · rw [applyRoot_idle hwrites]
    exact ⟨rfl, iff_of_true rfl fun h => absurd h hwrites⟩

/-- A list of words at the root ignores a text. -/
theorem apply_at_container_words :
    let words : Node Unit := .present (.list (.scalar .string) [.scalar (.text "a")])
    let write : Event := ⟨.create, [], "", .scalar .str, "x", none⟩
    (empty ()).apply {} write words = (words, .ok ()) := by
  intro words write
  have hcontainer : ((empty ()).allocate words).innermost.container ≠ .leaf := by
    intro h
    cases (show Container.list _ _ = .leaf from h)
  obtain ⟨hok, hkept⟩ := apply_at_container (S := empty ()) (o := {}) (e := write) rfl hcontainer
  refine Prod.ext (hkept.2 fun _ => ⟨rfl, fun d h => ?_⟩) hok
  cases (show Node.list _ _ = .dynamic d from h)

/-- A document with an entry is replaced by a text that an event writes at the root. -/
theorem apply_at_document_replaces :
    let target : Node Unit := .dynamic (.map [("a", .int 1)])
    let write : Event := ⟨.create, [], "", .scalar .str, "x", none⟩
    write.isRoot = true ∧ target.innermost.container ≠ .leaf ∧
    (empty ()).apply {} write target = (.dynamic (.text "x"), .ok ()) ∧
    (empty ()).apply {} write target ≠ (target, .ok ()) := by
  intro target write
  have happly : (empty ()).apply {} write target = (.dynamic (.text "x"), .ok ()) := rfl
  refine ⟨rfl, fun h => ?_, happly, fun h => ?_⟩
  · cases (show Container.map _ _ _ = .leaf from h)
  · have hsame := (Prod.mk.inj (happly.symm.trans h)).1
    simp [target] at hsame

end Schema

end TreeSync

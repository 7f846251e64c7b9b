import TreeSync.Proofs.Node.Siblings

/-!
# Retaining what a node holds

What a target holds stands in its atoms: scalar slots, scalars in documents, and
fields that stand for the record around them.  A change retains an atom when it
still stands where it stood.  Filling empty layers, adding entries and appending
elements lose nothing; a replacement loses at most what it replaces.

Main definitions and results:

- `Node.isAtom` and `Node.Retains`.
- `Node.Retains.replaceAt`: a replacement loses what is lost in what it replaces.
- `Node.Retains.of_unallocated`: behind an empty layer there is nothing to lose.
-/

namespace TreeSync

namespace Node

variable {σ : Type} {n m k c d v w : Node σ} {s : Step}
  {lost lost' : Address → Node σ → Prop}

/-! ## Atoms -/

/-- Whether the node is a scalar, or stands for the record around it. -/
def isAtom : Node σ → Bool
  | scalar _ => true
  | enclosing _ => true
  | dynamic d => d.scalar?.isSome
  | _ => false

/-- An atom has no children. -/
theorem child?_of_isAtom (h : n.isAtom = true) (s : Step) : n.child? s = none := by
  cases n with
  | scalar slot => cases s <;> rfl
  | enclosing type => cases s <;> rfl
  | dynamic d =>
      cases d with
      | seq items => simp [isAtom, Document.scalar?] at h
      | map entries => simp [isAtom, Document.scalar?] at h
      | _ => rfl
  | _ => simp [isAtom] at h

/-- An atom in a node that is none stands in a child of it. -/
theorem exists_step_of_isAtom {a : Address} (hv : n.get? a = some v) (hatom : v.isAtom = true)
    (hn : n.isAtom = false) :
    ∃ s rest c, a = s :: rest ∧ n.child? s = some c ∧ c.get? rest = some v := by
  cases a with
  | nil =>
      obtain rfl := Option.some.inj hv
      exact Bool.noConfusion (hn.symm.trans hatom)
  | cons s rest =>
      obtain ⟨c, hc, hrest⟩ := Option.bind_eq_some_iff.1 hv
      exact ⟨s, rest, c, rfl, hc, hrest⟩

theorem bare_of_isAtom (h : n.isAtom = true) : n.Bare := by
  cases n with
  | absent t => simp [isAtom] at h
  | present v => simp [isAtom] at h
  | boxed v => simp [isAtom] at h
  | _ => exact Kind.noConfusion

/-- Behind an empty layer there are no atoms. -/
theorem isAllocated_of_isAtom {a : Address} (hv : n.get? a = some v) (hatom : v.isAtom = true) :
    n.isAllocated = true :=
  isAllocated_of_get hv (bare_of_isAtom hatom)

/-! ## Retaining -/

/-- Every atom of the first node stands in the second one where it stood, but for those
that may be lost. -/
def Retains (lost : Address → Node σ → Prop) (n m : Node σ) : Prop :=
  ∀ a v, n.get? a = some v → v.isAtom = true → m.get? a = some v ∨ lost a v

namespace Retains

theorem refl (n : Node σ) : Retains lost n n :=
  fun _ _ hv _ => .inl hv

theorem mono (h : Retains lost n m)
    (hlost : ∀ a v, n.get? a = some v → v.isAtom = true → lost a v → lost' a v) :
    Retains lost' n m :=
  fun a v hv hatom => (h a v hv hatom).imp_right (hlost a v hv hatom)

/-- Of two changes in a row the second one matters for what the first one left. -/
theorem trans_of (h : Retains lost n m) (h' : Retains lost' m k)
    (hlost : ∀ a v, n.get? a = some v → v.isAtom = true → lost' a v → lost a v) :
    Retains lost n k := by
  intro a v hv hatom
  rcases h a v hv hatom with hm | hfirst
  · exact (h' a v hm hatom).imp_right (hlost a v hv hatom)
  · exact .inr hfirst

theorem trans (h : Retains lost n m) (h' : Retains lost m k) : Retains lost n k :=
  h.trans_of h' fun _ _ _ _ => id

/-- Where nothing at all is lost, anything may be. -/
theorem weaken (h : Retains (fun _ _ => False) n m) : Retains lost n m :=
  h.mono fun _ _ _ _ => False.elim

/-- Behind an empty layer there is nothing to lose. -/
theorem of_unallocated (h : n.isAllocated = false) (m : Node σ) : Retains lost n m :=
  fun _ _ hv hatom => Bool.noConfusion (h.symm.trans (isAllocated_of_isAtom hv hatom))

/-- What is retained of a node is retained of what stands in it. -/
theorem get {p : Node σ → Prop} {a : Address} (h : Retains (fun _ => p) n m)
    (hc : n.get? a = some c) (hd : m.get? a = some d) : Retains (fun _ => p) c d := by
  intro b v hv hatom
  have hkept := h (a ++ b) v (by rw [get?_append, hc]; exact hv) hatom
  rwa [get?_append, hd] at hkept

/-! ## Changes of children -/

/-- A change of one child loses what is lost in the child. -/
theorem putChild (hc : n.child? s = some c) (hty : d.ty = c.ty)
    (h : Retains (fun a => lost (s :: a)) c d) : Retains lost n (n.putChild s d) := by
  intro a v hv hatom
  cases a with
  | nil =>
      obtain rfl := Option.some.inj hv
      rw [child?_of_isAtom hatom] at hc
      simp at hc
  | cons t rest =>
      obtain ⟨u, hu, hrest⟩ := Option.bind_eq_some_iff.1 hv
      by_cases hts : t = s
      · subst hts
        obtain rfl := Option.some.inj (hc.symm.trans hu)
        rw [get?, child?_putChild hc hty]
        exact h rest v hrest hatom
      · rw [get?, child?_putChild_of_ne hc hts]
        exact .inl hv

/-- A change of a descendant loses what is lost in the descendant. -/
theorem replaceAt {a : Address} (hc : n.get? a = some c) (hty : d.ty = c.ty)
    (h : Retains (fun b => lost (a ++ b)) c d) : Retains lost n (n.replaceAt a d) := by
  induction a generalizing n lost with
  | nil =>
      obtain rfl := Option.some.inj hc
      exact h
  | cons s rest ih =>
      obtain ⟨u, hu, hrest⟩ := Option.bind_eq_some_iff.1 hc
      simp only [Node.replaceAt, hu]
      exact putChild hu (ty_replaceAt hrest hty) (ih hrest h)

/-- A change of one slot that was empty loses nothing. -/
theorem of_sameBut (hn : n.isAtom = false) (hnone : n.child? s = none) (h : SameBut s n m) :
    Retains lost n m := by
  intro a v hv hatom
  obtain ⟨t, rest, c, rfl, hc, hrest⟩ := exists_step_of_isAtom hv hatom hn
  have hne : t ≠ s := by
    rintro rfl
    simp [hnone] at hc
  rw [get?, h.others t hne, hc]
  exact .inl hrest

/-- A new entry loses nothing. -/
theorem putEntry {kind : KeyKind} {elem : Ty} {entries : List (MapKey × Node σ)}
    (hn : n.container = .map kind elem entries) {key : MapKey} (hnone : n.child? (.entry key) = none)
    (v : Node σ) : Retains lost n (n.putChild (.entry key) v) := by
  have hatom : n.isAtom = false := by
    rcases eq_map_of_container hn with ⟨order, rfl⟩ | ⟨-, -, others, rfl⟩
    · rfl
    · rfl
  exact of_sameBut hatom hnone (sameBut_alterEntry hn key (some v))

/-- A new element behind the others loses nothing. -/
theorem append {elem : Ty} {items : List (Node σ)} (hn : n.container = .list elem items)
    (hty : v.ty = elem) : Retains lost n (n.append v) := by
  have hshape : n.isAtom = false ∧ ∀ s c, n.child? s = some c → ∃ i, s = .element i := by
    rcases eq_list_of_container hn with rfl | ⟨-, others, -, rfl⟩
    · exact ⟨rfl, fun s c hc => by cases s <;> simp [child?] at hc ⊢⟩
    · exact ⟨rfl, fun s c hc => by cases s <;> simp [child?] at hc ⊢⟩
  intro a u hu hatom
  obtain ⟨s, rest, c, rfl, hc, hrest⟩ := exists_step_of_isAtom hu hatom hshape.1
  obtain ⟨i, rfl⟩ := hshape.2 s c hc
  have hkept : (n.append v).child? (.element i) = some c := by
    rw [child?_element hn] at hc
    obtain ⟨hi, -⟩ := List.getElem?_eq_some_iff.1 hc
    rw [child?_element (container_append hn hty).1, List.getElem?_append_left hi, hc]
  rw [get?, hkept]
  exact .inl hrest

end Retains

end Node

end TreeSync

import TreeSync.Node.Basic

/-!
# Addresses

An address leads from a node to one of its descendants, one step at a time.
Navigation answers with addresses, and every change of a child is a replacement
at an address.

Main results:

- `Node.get?_append`: addresses compose.
- `Node.get?_coreAddress`: the layers of a node lead to what stands below them.
- `Node.get?_replaceAt_self`: what was put at an address is found there.
-/

namespace TreeSync

/-- A step from a node to one of its children. -/
inductive Step where
  /-- Into an optional or boxed slot. -/
  | pointee
  /-- To a record field. -/
  | field (index : Nat)
  /-- To a map entry. -/
  | entry (key : MapKey)
  /-- To a list element. -/
  | element (index : Nat)
  deriving DecidableEq, Repr

/-- A sequence of steps from a node to a descendant. -/
abbrev Address := List Step

/-- A descendant together with its address. -/
structure Place (σ : Type) where
  /-- Where the descendant is. -/
  address : Address
  /-- The descendant. -/
  node : Node σ

namespace Place

/-- The same descendant seen from a node that an address leads from. -/
def under {σ : Type} (address : Address) (p : Place σ) : Place σ :=
  { p with address := address ++ p.address }

end Place

namespace Node

variable {σ : Type}

/-! ## One step -/

/-- The child that a step leads to. -/
def child? (n : Node σ) (s : Step) : Option (Node σ) :=
  match n, s with
  | present v, .pointee => some v
  | boxed v, .pointee => some v
  | record _ fields _, .field i => fields[i]?.map Prod.snd
  | map _ _ _ entries, .entry k => Entries.get? k entries
  | list _ items, .element i => items[i]?
  | dynamic (.map entries), .entry (.text k) => (Entries.get? k entries).map dynamic
  | dynamic (.seq items), .element i => items[i]?.map dynamic
  | _, _ => none

/-- The node with a child put where a step leads.  An entry that a map does not
hold yet is added; every other child must exist, and children of a document are
documents. -/
def putChild (n : Node σ) (s : Step) (child : Node σ) : Node σ :=
  match n, s with
  | present _, .pointee => present child
  | boxed _, .pointee => boxed child
  | record type fields state, .field i =>
      record type (fields.modify i fun f => (f.1, child)) state
  | map order key elem entries, .entry k =>
      map order key elem (Entries.put order.before k child entries)
  | list elem items, .element i => list elem (items.set i child)
  | dynamic (.map entries), .entry (.text k) =>
      match child with
      | dynamic d => dynamic (.map (Entries.put Json.nameBefore k d entries))
      | _ => n
  | dynamic (.seq items), .element i =>
      match child with
      | dynamic d => dynamic (.seq (items.set i d))
      | _ => n
  | _, _ => n

/-! ## Many steps -/

/-- The descendant at an address. -/
def get? (n : Node σ) : Address → Option (Node σ)
  | [] => some n
  | s :: rest => (n.child? s).bind fun c => c.get? rest

/-- The node with the descendant at an address replaced.  An address that leads
nowhere changes nothing. -/
def replaceAt (n : Node σ) (a : Address) (v : Node σ) : Node σ :=
  match a with
  | [] => v
  | s :: rest =>
      match n.child? s with
      | some c => n.putChild s (c.replaceAt rest v)
      | none => n

/-- The steps through the layers that have a value. -/
def coreAddress : Node σ → Address
  | present v => .pointee :: v.coreAddress
  | boxed v => .pointee :: v.coreAddress
  | _ => []

/-! ## Laws -/

/-- Going along `a ++ b` is going along `a` and then along `b`. -/
theorem get?_append (n : Node σ) (a b : Address) :
    n.get? (a ++ b) = (n.get? a).bind fun m => m.get? b := by
  induction a generalizing n with
  | nil => rfl
  | cons s rest ih =>
      simp only [List.cons_append, get?]
      cases n.child? s with
      | none => rfl
      | some c => exact ih c

/-- The layers of a node that have a value lead to what stands below them. -/
theorem get?_coreAddress (n : Node σ) : n.get? n.coreAddress = some n.innermost := by
  induction n using Node.innermost.induct with
  | case1 v ih => simpa [coreAddress, innermost, get?, child?] using ih
  | case2 v ih => simpa [coreAddress, innermost, get?, child?] using ih
  | case3 n h1 h2 => cases n <;> simp_all [coreAddress, innermost, get?]

/-- A child that was put is found, when there was a child before and children
of documents stay documents. -/
theorem child?_putChild_self {n c : Node σ} {s : Step} (h : n.child? s = some c) (v : Node σ)
    (hv : ∀ d, n = dynamic d → ∃ e, v = dynamic e) : (n.putChild s v).child? s = some v := by
  unfold child? at h
  split at h
  · rfl
  · rfl
  · rename_i fields st i
    simp only [Option.map_eq_some_iff] at h
    obtain ⟨f, hf, rfl⟩ := h
    simp [putChild, child?, hf]
  · simp [putChild, child?]
  · rename_i items i
    obtain ⟨hi, -⟩ := List.getElem?_eq_some_iff.1 h
    simp [putChild, child?, hi]
  · obtain ⟨e, rfl⟩ := hv _ rfl
    simp [putChild, child?]
  · obtain ⟨e, rfl⟩ := hv _ rfl
    simp only [Option.map_eq_some_iff] at h
    obtain ⟨d, hd, rfl⟩ := h
    obtain ⟨hi, -⟩ := List.getElem?_eq_some_iff.1 hd
    simp [putChild, child?, hi]
  · simp at h

/-- The children of a document are documents. -/
theorem child?_dynamic {d : Document} {s : Step} {c : Node σ}
    (h : (dynamic d).child? s = some c) : ∃ e, c = dynamic e := by
  unfold child? at h
  split at h <;> simp_all only [reduceCtorEq, dynamic.injEq, Option.map_eq_some_iff]
  · obtain ⟨e, -, rfl⟩ := h
    exact ⟨e, rfl⟩
  · obtain ⟨e, -, rfl⟩ := h
    exact ⟨e, rfl⟩

/-- Replacing inside a document by a document gives a document. -/
theorem replaceAt_dynamic {d e : Document} (a : Address) (n : Node σ) (hn : n = dynamic d) :
    ∃ f, n.replaceAt a (dynamic e) = dynamic f := by
  induction a generalizing n d with
  | nil => exact ⟨e, rfl⟩
  | cons s rest ih =>
      subst hn
      unfold replaceAt
      cases hc : (dynamic d : Node σ).child? s with
      | none => exact ⟨d, rfl⟩
      | some c =>
          obtain ⟨g, rfl⟩ := child?_dynamic hc
          obtain ⟨f, hf⟩ := ih (d := g) _ rfl
          simp only [hf, putChild]
          split <;> simp_all

/-- What was put at an address is found there, when the address led somewhere
and a document was put in the place of a document. -/
theorem get?_replaceAt_self {n m : Node σ} {a : Address} (h : n.get? a = some m) (v : Node σ)
    (hv : ∀ d, m = dynamic d → ∃ e, v = dynamic e) : (n.replaceAt a v).get? a = some v := by
  induction a generalizing n with
  | nil => rfl
  | cons s rest ih =>
      simp only [get?, Option.bind_eq_some_iff] at h
      obtain ⟨c, hc, hm⟩ := h
      have key : ∀ d, n = dynamic d → ∃ e, c.replaceAt rest v = dynamic e := by
        rintro d rfl
        obtain ⟨g, rfl⟩ := child?_dynamic hc
        have hdoc : ∃ f, m = dynamic f := by
          clear ih hv hc
          induction rest generalizing g with
          | nil => exact ⟨g, by simpa [get?] using hm.symm⟩
          | cons t rest ih =>
              simp only [get?, Option.bind_eq_some_iff] at hm
              obtain ⟨c, hc, hm⟩ := hm
              obtain ⟨e, rfl⟩ := child?_dynamic hc
              exact ih e hm
        obtain ⟨f, rfl⟩ := hdoc
        obtain ⟨e, rfl⟩ := hv f rfl
        exact replaceAt_dynamic rest _ rfl
      simp only [replaceAt, hc, get?]
      rw [child?_putChild_self hc _ key]
      exact ih hm

end Node

end TreeSync

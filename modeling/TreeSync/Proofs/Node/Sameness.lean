import TreeSync.Node.Equality
import TreeSync.Proofs.Navigate.Places
import TreeSync.Proofs.Node.Typed

/-!
# Nodes equal themselves

Structural equality never calls a fixed array equal to anything, and a record
inside itself has no end.  Every other well-typed node equals itself.

Main definitions and results:

- `Node.ArrayFree`: no fixed array stands in the node.
- `Node.LoopFree`: no field in the node is the record around it.
- `Schema.same_self`: a node without both equals itself.
-/

namespace TreeSync

variable {σ : Type}

/-! ## Documents -/

namespace Document

theorem sameItems_self {items : List Document}
    (h : ∀ x ∈ items, x.same (.dynamic x : Node σ) = true) :
    sameItems items (items.map (Node.dynamic : Document → Node σ)) = true := by
  induction items with
  | nil => rfl
  | cons x rest ih =>
      have hrest := ih fun y hy => h y (List.mem_cons_of_mem x hy)
      rw [List.map_cons, sameItems, h x List.mem_cons_self, hrest]
      rfl

/-- Entries are equal when each one is found under its literal and equal. -/
theorem sameEntries_of_forall {entries : List (String × Document)} {b : Node σ}
    (h : ∀ e ∈ entries, ∃ y, b.entry? e.1 = some y ∧ e.2.same y = true) :
    sameEntries entries b = true := by
  induction entries with
  | nil => rfl
  | cons e rest ih =>
      obtain ⟨key, x⟩ := e
      rcases h (key, x) List.mem_cons_self with ⟨y, hy, hsame⟩
      have hrest := ih fun e he => h e (List.mem_cons_of_mem _ he)
      simp only [sameEntries, hy, hsame, hrest, Bool.and_self]

/-- A document equals itself. -/
theorem same_self {d : Document} (hd : d.Ordered) : d.same (.dynamic d : Node σ) = true := by
  induction hd with
  | @leaf d h =>
      cases d with
      | null => rfl
      | bool v => exact beq_self_eq_true _
      | int v => exact beq_self_eq_true _
      | float v => exact beq_self_eq_true _
      | text v => exact beq_self_eq_true _
      | seq items => simp [isLeaf] at h
      | map entries => simp [isLeaf] at h
  | @seq items h ih =>
      simp [same, Node.core?, Node.core, Except.toOption, Node.container, sameItems_self ih]
  | @map entries ascending h ih =>
      have hentries : ∀ e ∈ entries, ∃ y,
          Node.entry? (.dynamic (map entries) : Node σ) e.1 = some y ∧ e.2.same y = true := by
        intro e he
        have hget := Entries.get?_eq_some_of_mem Json.nameOrders ascending he
        refine ⟨.dynamic e.2, ?_, ih e he⟩
        simp only [Node.entry?, Node.container, KeyKind.readKey, Node.get?_documentEntries, hget,
          Option.map_some]
      simp [same, Node.core?, Node.core, Except.toOption, Node.container, Node.documentEntries,
        sameEntries_of_forall hentries]

end Document

/-! ## Nodes -/

namespace Node

/-- No fixed array stands in the node. -/
def ArrayFree (n : Node σ) : Prop :=
  ∀ a elem items, n.get? a ≠ some (.array elem items)

/-- Children of a node without lists of fixed length have none either. -/
theorem ArrayFree.child {n c : Node σ} (h : n.ArrayFree) {s : Step} (hc : n.child? s = some c) :
    c.ArrayFree := by
  intro a elem items ha
  refine h (s :: a) elem items ?_
  rw [get?, hc, Option.bind_some, ha]

/-- Documents hold documents only. -/
theorem arrayFree_dynamic (d : Document) : (dynamic d : Node σ).ArrayFree := by
  intro a elem items ha
  induction a generalizing d with
  | nil => simp [get?] at ha
  | cons s rest ih =>
      rcases Option.bind_eq_some_iff.1 ha with ⟨c, hc, hrest⟩
      rcases child?_dynamic hc with ⟨e, rfl⟩
      exact ih e hrest

/-- Neither have its descendants. -/
theorem ArrayFree.get {n c : Node σ} (h : n.ArrayFree) {a : Address} (hc : n.get? a = some c) :
    c.ArrayFree := by
  intro b elem items hb
  refine h (a ++ b) elem items ?_
  rw [get?_append, hc, Option.bind_some, hb]

/-- No field in the node is the record around it. -/
def LoopFree (n : Node σ) : Prop :=
  ∀ a v, n.get? a = some v → v.isEnclosing = false

/-- Children of a node in which no field is the record around it are such nodes too. -/
theorem LoopFree.child {n c : Node σ} (h : n.LoopFree) {s : Step} (hc : n.child? s = some c) :
    c.LoopFree := by
  intro a v ha
  refine h (s :: a) v ?_
  rw [get?, hc, Option.bind_some, ha]

/-- Layers around the second node make no difference. -/
theorem same_of_core {a b b' : Node σ} (h : b.core? = b'.core?) : a.same b = a.same b' := by
  have hallocated : b.isAllocated = b'.isAllocated := by rw [isAllocated, isAllocated, h]
  have hliteral : b.literal? = b'.literal? := by rw [literal?, literal?, h]
  induction a using layers_induction with
  | absent t => rw [same, same, hallocated]
  | present v ih =>
      rw [same, same]
      exact ih
  | boxed v ih =>
      rw [same, same]
      exact ih
  | bare a ha =>
      cases a with
      | scalar slot => rw [same, same, hliteral]
      | dynamic d => cases d <;> simp only [same, Document.same, h, hliteral]
      | record type fields state => simp only [same, h]
      | list elem items => simp only [same, h]
      | map order kind elem entries => simp only [same, h]
      | array elem items => rw [same, same]
      | enclosing type => rw [same, same]
      | _ => exact absurd rfl ha

theorem sameItems_self {items : List (Node σ)} (h : ∀ x ∈ items, x.same x = true) :
    sameItems items items = true := by
  induction items with
  | nil => simp [sameItems]
  | cons x rest ih =>
      have hrest := ih fun y hy => h y (List.mem_cons_of_mem x hy)
      rw [sameItems, h x List.mem_cons_self, hrest]
      rfl

/-- Fields equal themselves when each of them does. -/
theorem sameFields_self {fields : List (Field × Node σ)} (h : ∀ f ∈ fields, f.2.same f.2 = true) :
    sameFields fields fields = true := by
  induction fields with
  | nil => simp [sameFields]
  | cons f rest ih =>
      obtain ⟨f, x⟩ := f
      have hx := h (f, x) List.mem_cons_self
      have hrest := ih fun g hg => h g (List.mem_cons_of_mem _ hg)
      simp only [sameFields, hx, hrest, Bool.and_self]

/-- Entries are equal when each one is found under its literal and equal. -/
theorem sameEntries_of_forall {entries : List (MapKey × Node σ)} {b : Node σ}
    (h : ∀ e ∈ entries, ∃ y, b.entry? e.1.literal = some y ∧ e.2.same y = true) :
    sameEntries entries b = true := by
  induction entries with
  | nil => simp [sameEntries]
  | cons e rest ih =>
      obtain ⟨key, x⟩ := e
      rcases h (key, x) List.mem_cons_self with ⟨y, hy, hsame⟩
      have hrest := ih fun e he => h e (List.mem_cons_of_mem _ he)
      simp only [sameEntries, hy, hsame, hrest, Bool.and_self]

end Node

namespace Schema

open Node

/-- A well-typed node without fixed arrays and records inside themselves equals
itself. -/
theorem same_self {S : Schema σ} {loops : Prop} {n : Node σ} (hn : S.Typed loops n)
    (h : n.ArrayFree) (hloop : n.LoopFree) : n.same n = true := by
  induction hn with
  | scalar slot =>
      rw [same]
      exact beq_self_eq_true _
  | absent t => simp [same, isAllocated, core?, core, Except.toOption]
  | @present v _ ih =>
      have hv := ih (h.child (s := .pointee) rfl) (hloop.child (s := .pointee) rfl)
      rw [same, ← hv]
      exact same_of_core rfl
  | @boxed v _ ih =>
      have hv := ih (h.child (s := .pointee) rfl) (hloop.child (s := .pointee) rfl)
      rw [same, ← hv]
      exact same_of_core rfl
  | @list elem items _ _ ih =>
      have hitems : ∀ x ∈ items, x.same x = true := by
        intro x hx
        rcases List.getElem?_of_mem hx with ⟨i, hi⟩
        exact ih x hx (h.child (s := .element i) hi) (hloop.child (s := .element i) hi)
      simp [same, core?, core, Except.toOption, container, sameItems_self hitems]
  | @map order kind elem entries ascending admits _ _ ih =>
      have hentries : ∀ e ∈ entries, ∃ y,
          Node.entry? (map order kind elem entries : Node σ) e.1.literal = some y ∧
            e.2.same y = true := by
        intro e he
        have hget := Entries.get?_eq_some_of_mem (order.orders kind) ascending he
        refine ⟨e.2, ?_, ih e he (h.child (s := .entry e.1) hget)
          (hloop.child (s := .entry e.1) hget)⟩
        simp only [ entry?, container, KeyKind.readKey_literal (admits e he), hget]
      simp [same, core?, core, Except.toOption, container, sameEntries_of_forall hentries]
  | @array elem items => exact absurd rfl (h [] elem items)
  | @dynamic d hd =>
      rw [same]
      exact Document.same_self hd
  | @record type fields state _ _ _ ih =>
      have hfields : ∀ f ∈ fields, f.2.same f.2 = true := by
        intro f hf
        rcases List.getElem?_of_mem hf with ⟨i, hi⟩
        have hchild : (record type fields state).child? (.field i) = some f.2 := by
          rw [child?, hi, Option.map_some]
        exact ih f hf (h.child hchild) (hloop.child hchild)
      simp [same, core?, core, Except.toOption, sameFields_self hfields]
  | @enclosing type _ => exact absurd (hloop [] (.enclosing type) rfl) (by simp [isEnclosing])

end Schema

end TreeSync

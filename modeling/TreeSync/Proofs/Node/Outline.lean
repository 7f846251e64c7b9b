import TreeSync.Navigate.Find
import TreeSync.Proofs.Node.Typed

/-!
# Nodes without the states of their records

The outline of a node is the node with the states of all records left out.  Types,
layers, addresses and comparisons do not read states, so they are those of the
outline.

Main definitions and results:

- `Node.outline`, `Container.outline` and `Place.outline`.
- `Node.alike_container`: nodes with one outline as containers.
- `Node.outline_get?` and `Node.outline_replaceAt`: descendants of outlines.
- `Node.same_outline`: comparing outlines is comparing nodes.
- `Schema.Typed.outline_replaceAt_self`: a descendant with the same outline.
-/

namespace TreeSync

variable {σ : Type}

namespace Entries

variable {α β γ : Type} [DecidableEq α] (f : β → γ)

/-- A change of all values commutes with looking an entry up. -/
theorem get?_map (key : α) (entries : List (α × β)) :
    get? key (entries.map fun e => (e.1, f e.2)) = (get? key entries).map f := by
  induction entries with
  | nil => rfl
  | cons e rest ih =>
      obtain ⟨k, v⟩ := e
      by_cases hk : k = key <;> simp [get?, hk, ih]

/-- A change of all values commutes with putting an entry, which stays where its key belongs. -/
theorem put_map (before : α → α → Bool) (key : α) (value : β) (entries : List (α × β)) :
    (put before key value entries).map (fun e => (e.1, f e.2)) =
      put before key (f value) (entries.map fun e => (e.1, f e.2)) := by
  induction entries with
  | nil => rfl
  | cons e rest ih =>
      obtain ⟨k, v⟩ := e
      by_cases hk : k = key
      · simp [put, hk]
      · by_cases hb : before key k <;> simp [put, hk, hb, ih]

end Entries

/-! ## Outlines -/

namespace Node

mutual

/-- The node without the states of its records. -/
def outline : Node σ → Node Unit
  | scalar slot => .scalar slot
  | absent t => .absent t
  | present v => .present v.outline
  | boxed v => .boxed v.outline
  | list elem items => .list elem (outlineItems items)
  | map order key elem entries => .map order key elem (outlineEntries entries)
  | array elem items => .array elem (outlineItems items)
  | dynamic d => .dynamic d
  | record type fields _ => .record type (outlineFields fields) ()
  | enclosing type => .enclosing type

/-- The outlines of items. -/
def outlineItems : List (Node σ) → List (Node Unit)
  | [] => []
  | v :: rest => v.outline :: outlineItems rest

/-- The entries with the outlines of their values. -/
def outlineEntries : List (MapKey × Node σ) → List (MapKey × Node Unit)
  | [] => []
  | (key, v) :: rest => (key, v.outline) :: outlineEntries rest

/-- The fields with the outlines of their values. -/
def outlineFields : List (Field × Node σ) → List (Field × Node Unit)
  | [] => []
  | (f, v) :: rest => (f, v.outline) :: outlineFields rest

end

/-- The outlines of items, without the recursion that computes them. -/
@[simp]
theorem outlineItems_eq_map (items : List (Node σ)) : outlineItems items = items.map outline := by
  induction items with
  | nil => rfl
  | cons v rest ih => rw [outlineItems, ih, List.map_cons]

/-- The outlines of entries, whose keys stay. -/
@[simp]
theorem outlineEntries_eq_map (entries : List (MapKey × Node σ)) :
    outlineEntries entries = entries.map fun e => (e.1, e.2.outline) := by
  induction entries with
  | nil => rfl
  | cons e rest ih => rw [outlineEntries, ih, List.map_cons]

/-- The outlines of fields, whose declarations stay. -/
@[simp]
theorem outlineFields_eq_map (fields : List (Field × Node σ)) :
    outlineFields fields = fields.map fun f => (f.1, f.2.outline) := by
  induction fields with
  | nil => rfl
  | cons f rest ih => rw [outlineFields, ih, List.map_cons]

/-- Outlining keeps the names of fields. -/
theorem map_fst_outline (fields : List (Field × Node σ)) :
    (fields.map fun f => (f.1, f.2.outline)).map Prod.fst = fields.map Prod.fst := by
  rw [List.map_map]
  rfl

end Node

/-- The container with the outlines of what it holds. -/
def Container.outline : Container σ → Container Unit
  | record type fields => .record type (fields.map fun f => (f.1, f.2.outline))
  | map key elem entries => .map key elem (entries.map fun e => (e.1, e.2.outline))
  | list elem items => .list elem (items.map Node.outline)
  | fixed => .fixed
  | leaf => .leaf

/-- Two containers of one shape whose contents have the same outlines. -/
inductive Container.Alike : Container σ → Container σ → Prop where
  | record (type : String) {fields others : List (Field × Node σ)}
      (h : fields.map (fun f => (f.1, f.2.outline)) = others.map fun f => (f.1, f.2.outline)) :
      Alike (.record type fields) (.record type others)
  | map (key : KeyKind) (elem : Ty) {entries others : List (MapKey × Node σ)}
      (h : entries.map (fun e => (e.1, e.2.outline)) = others.map fun e => (e.1, e.2.outline)) :
      Alike (.map key elem entries) (.map key elem others)
  | list (elem : Ty) {items others : List (Node σ)}
      (h : items.map Node.outline = others.map Node.outline) :
      Alike (.list elem items) (.list elem others)
  | fixed : Alike .fixed .fixed
  | leaf : Alike .leaf .leaf

/-- Containers with one outline have equally many children, at the same keys. -/
theorem Container.Alike.of_outline {a b : Container σ} (h : a.outline = b.outline) :
    a.Alike b := by
  cases a with
  | record type fields =>
      cases b <;> simp only [outline, reduceCtorEq, record.injEq] at h
      obtain ⟨rfl, h⟩ := h
      exact .record _ h
  | map key elem entries =>
      cases b <;> simp only [outline, reduceCtorEq, map.injEq] at h
      obtain ⟨rfl, rfl, h⟩ := h
      exact .map _ _ h
  | list elem items =>
      cases b <;> simp only [outline, reduceCtorEq, list.injEq] at h
      obtain ⟨rfl, h⟩ := h
      exact .list _ h
  | fixed =>
      cases b <;> simp only [outline, reduceCtorEq] at h
      exact .fixed
  | leaf =>
      cases b <;> simp only [outline, reduceCtorEq] at h
      exact .leaf

/-- The place with the outline of the node there. -/
def Place.outline (p : Place σ) : Place Unit :=
  ⟨p.address, p.node.outline⟩

theorem Place.outline_inj {p q : Place σ} (h : p.outline = q.outline) :
    p.address = q.address ∧ p.node.outline = q.node.outline := by
  simpa [outline] using h

namespace Node

/-! ## Types and layers -/

/-- States are no part of a type. -/
@[simp]
theorem ty_outline (n : Node σ) : n.outline.ty = n.ty := by
  induction n using layers_induction with
  | absent t => rfl
  | present v ih => rw [outline, ty, ty, ih]
  | boxed v ih => rw [outline, ty, ty, ih]
  | bare n hn =>
      cases n with
      | array elem items => simp [outline, ty]
      | absent | present | boxed => exact absurd rfl hn
      | _ => rfl

/-- Layers are no part of what an outline leaves out. -/
theorem core_outline (n : Node σ) : n.outline.core = outline <$> n.core := by
  induction n using layers_induction with
  | absent t => rfl
  | present v ih => exact ih
  | boxed v ih => exact ih
  | bare n hn => cases n <;> first | rfl | exact absurd rfl hn

theorem core?_outline (n : Node σ) : n.outline.core? = n.core?.map outline := by
  rw [core?, core?, core_outline]
  cases n.core <;> rfl

@[simp]
theorem isAllocated_outline (n : Node σ) : n.outline.isAllocated = n.isAllocated := by
  rw [isAllocated, isAllocated, core?_outline, Option.isSome_map]

@[simp]
theorem coreAddress_outline (n : Node σ) : n.outline.coreAddress = n.coreAddress := by
  induction n using layers_induction with
  | absent t => rfl
  | present v ih => rw [outline, coreAddress, coreAddress, ih]
  | boxed v ih => rw [outline, coreAddress, coreAddress, ih]
  | bare n hn => cases n <;> first | rfl | exact absurd rfl hn

/-- The outline of what stands below the layers. -/
theorem innermost_outline (n : Node σ) : n.outline.innermost = n.innermost.outline := by
  induction n using layers_induction with
  | absent t => rfl
  | present v ih => exact ih
  | boxed v ih => exact ih
  | bare n hn => cases n <;> first | rfl | exact absurd rfl hn

/-- The outline of a container has the outlines of its children. -/
theorem container_outline (c : Node σ) : c.outline.container = c.container.outline := by
  cases c with
  | dynamic d =>
      cases d with
      | seq items => simp [outline, container, Container.outline]
      | map entries => simp [outline, container, Container.outline, documentEntries]
      | _ => rfl
  | list | map | record => simp [outline, container, Container.outline]
  | _ => rfl

section

variable {n m : Node σ} (h : n.outline = m.outline)
include h

/-- Nodes with one outline have one type. -/
theorem ty_eq_of_outline : n.ty = m.ty := by
  rw [← ty_outline, h, ty_outline]

/-- Nodes with one outline lack the same layers. -/
theorem isAllocated_eq_of_outline : n.isAllocated = m.isAllocated := by
  rw [← isAllocated_outline, h, isAllocated_outline]

/-- Nodes with one outline have their cores at one address. -/
theorem coreAddress_eq_of_outline : n.coreAddress = m.coreAddress := by
  rw [← coreAddress_outline, h, coreAddress_outline]

theorem core_eq_of_outline : outline <$> n.core = outline <$> m.core := by
  rw [← core_outline, h, core_outline]

/-- Nodes with one outline are alike as containers. -/
theorem alike_container : n.container.Alike m.container :=
  .of_outline (by rw [← container_outline, ← container_outline, h])

end

/-! ## Descendants -/

/-- An outline has the outlines of the children as its children. -/
theorem outline_child? (n : Node σ) (s : Step) :
    n.outline.child? s = (n.child? s).map outline := by
  unfold child?
  cases n with
  | dynamic d =>
      cases d with
      | seq items => cases s <;> simp [outline, Function.comp_def]
      | map entries => cases s with
        | entry k => cases k <;> simp [outline, Function.comp_def]
        | _ => rfl
      | _ => cases s <;> rfl
  | record type fields state => cases s <;> simp [outline, Function.comp_def]
  | list elem items => cases s <;> simp [outline]
  | map order key elem entries => cases s <;> simp [outline, Entries.get?_map]
  | _ => cases s <;> rfl

/-- The descendants of an outline are the outlines of the descendants. -/
theorem outline_get? (n : Node σ) (a : Address) : n.outline.get? a = (n.get? a).map outline := by
  induction a generalizing n with
  | nil => rfl
  | cons s rest ih =>
      rw [get?, get?, outline_child?]
      cases n.child? s with
      | none => rfl
      | some c => exact ih c

/-- Putting a child commutes with the outline. -/
theorem outline_putChild (n : Node σ) (s : Step) (v : Node σ) :
    (n.putChild s v).outline = n.outline.putChild s v.outline := by
  cases n with
  | dynamic d =>
      cases d with
      | seq items => cases s <;> cases v <;> rfl
      | map entries => cases s with
        | entry k => cases k <;> cases v <;> rfl
        | _ => rfl
      | _ => cases s <;> rfl
  | record type fields state =>
      cases s with
      | field i =>
          simp only [putChild, outline, outlineFields_eq_map, record.injEq, true_and, and_true]
          refine List.ext_getElem? fun j => ?_
          simp only [List.getElem?_map, List.getElem?_modify]
          by_cases hij : i = j
          · subst hij
            cases fields[i]? <;> simp
          · cases fields[j]? <;> simp [hij]
      | _ => rfl
  | list elem items => cases s <;> simp [outline, putChild]
  | map order key elem entries => cases s <;> simp [outline, putChild, Entries.put_map]
  | _ => cases s <;> rfl

/-- Replacing in an outline is replacing in the node. -/
theorem outline_replaceAt (n : Node σ) (a : Address) (v : Node σ) :
    (n.replaceAt a v).outline = n.outline.replaceAt a v.outline := by
  induction a generalizing n with
  | nil => rfl
  | cons s rest ih =>
      rw [replaceAt, replaceAt, outline_child?]
      cases n.child? s with
      | none => rfl
      | some c => exact (outline_putChild n s _).trans (congrArg _ (ih c))

/-! ## Comparing -/

/-- The literal of a node is in its outline. -/
@[simp]
theorem literal?_outline (n : Node σ) : n.outline.literal? = n.literal? := by
  rw [literal?, literal?, core?_outline]
  cases n.core? with
  | none => rfl
  | some c => cases c <;> rfl

/-- An entry is looked up in the outline just as well. -/
theorem entry?_outline (n : Node σ) (literal : String) :
    n.outline.entry? literal = ( n.entry? literal).map outline := by
  rw [ entry?, entry?, container_outline]
  cases n.container with
  | map kind elem entries =>
      simp only [Container.outline]
      cases kind.readKey literal with
      | ok key => exact Entries.get?_map outline key entries
      | error e => rfl
  | _ => rfl

end Node

namespace Document

mutual

/-- A document equals the outline of a node if it equals the node. -/
theorem same_outline (d : Document) (b : Node σ) : d.same b.outline = d.same b := by
  cases d with
  | seq items =>
      rw [same, same, Node.core?_outline]
      cases b.core? with
      | none => rfl
      | some c =>
          simp only [Option.map_some, Node.container_outline]
          cases c.container with
          | list elem others =>
              simp only [Container.outline, List.length_map, sameItems_outline items others]
          | _ => rfl
  | map entries =>
      rw [same, same, Node.core?_outline]
      cases b.core? with
      | none => rfl
      | some c =>
          simp only [Option.map_some, Node.container_outline]
          cases c.container with
          | map kind elem others =>
              simp only [Container.outline, List.length_map, sameEntries_outline entries c]
          | _ => rfl
  | null =>
      rw [same, same, Node.core?_outline]
      cases b.core? with
      | none => rfl
      | some c =>
          cases c with
          | dynamic d => cases d <;> rfl
          | _ => rfl
  | _ => simp only [same, Node.literal?_outline]

/-- Items are compared by their outlines. -/
theorem sameItems_outline (items : List Document) (others : List (Node σ)) :
    sameItems items (others.map Node.outline) = sameItems items others := by
  cases items with
  | nil => rfl
  | cons x xs =>
      cases others with
      | nil => rfl
      | cons y ys =>
          rw [List.map_cons, sameItems, sameItems, same_outline x y, sameItems_outline xs ys]

theorem sameEntries_outline (entries : List (String × Document)) (b : Node σ) :
    sameEntries entries b.outline = sameEntries entries b := by
  cases entries with
  | nil => rfl
  | cons e rest =>
      obtain ⟨key, x⟩ := e
      rw [sameEntries, sameEntries, Node.entry?_outline, sameEntries_outline rest b]
      cases b.entry? key with
      | none => rfl
      | some y => simp only [Option.map_some, same_outline x y]

end

end Document

namespace Node

mutual

/-- Comparing outlines is comparing nodes. -/
theorem same_outline (a b : Node σ) : a.outline.same b.outline = a.same b := by
  cases a with
  | absent t => rw [outline, same, same, isAllocated_outline]
  | present v => rw [outline, same, same, same_outline v b]
  | boxed v => rw [outline, same, same, same_outline v b]
  | scalar slot => rw [outline, same, same, literal?_outline]
  | dynamic d => rw [outline, same, same, d.same_outline b]
  | record type fields state =>
      rw [outline, same, same, core?_outline]
      cases b.core? with
      | none => rfl
      | some c =>
          cases c with
          | record other others _ =>
              simp only [Option.map_some, outline, outlineFields_eq_map,
                sameFields_outline fields others]
          | _ => rfl
  | list elem items =>
      rw [outline, same, same, core?_outline]
      cases b.core? with
      | none => rfl
      | some c =>
          simp only [Option.map_some, container_outline]
          cases c.container with
          | list elem others =>
              simp only [Container.outline, outlineItems_eq_map, List.length_map,
                sameItems_outline items others]
          | _ => rfl
  | map order kind elem entries =>
      rw [outline, same, same, core?_outline]
      cases b.core? with
      | none => rfl
      | some c =>
          simp only [Option.map_some, container_outline]
          cases c.container with
          | map kind elem others =>
              simp only [Container.outline, outlineEntries_eq_map, List.length_map,
                sameEntries_outline entries c]
          | _ => rfl
  | array elem items => rw [outline, same, same]
  | enclosing type => rw [outline, same, same]

theorem sameFields_outline (fields others : List (Field × Node σ)) :
    sameFields (fields.map fun f => (f.1, f.2.outline))
      (others.map fun f => (f.1, f.2.outline)) = sameFields fields others := by
  cases fields with
  | nil => simp only [List.map_nil, sameFields]
  | cons f rest =>
      obtain ⟨f, x⟩ := f
      cases others with
      | nil => simp only [List.map_cons, List.map_nil, sameFields]
      | cons g rest' =>
          obtain ⟨g, y⟩ := g
          simp only [List.map_cons, sameFields, same_outline x y, sameFields_outline rest rest']

/-- Items are compared by their outlines. -/
theorem sameItems_outline (items others : List (Node σ)) :
    sameItems (items.map outline) (others.map outline) = sameItems items others := by
  cases items with
  | nil => simp only [List.map_nil, sameItems]
  | cons x rest =>
      cases others with
      | nil => simp only [List.map_cons, List.map_nil, sameItems]
      | cons y rest' =>
          simp only [List.map_cons, sameItems, same_outline x y, sameItems_outline rest rest']

theorem sameEntries_outline (entries : List (MapKey × Node σ)) (b : Node σ) :
    sameEntries (entries.map fun e => (e.1, e.2.outline)) b.outline = sameEntries entries b := by
  cases entries with
  | nil => simp only [List.map_nil, sameEntries]
  | cons e rest =>
      obtain ⟨key, x⟩ := e
      simp only [List.map_cons, sameEntries, entry?_outline, sameEntries_outline rest b]
      cases b.entry? key.literal with
      | none => rfl
      | some y => simp only [Option.map_some, same_outline x y]

end

end Node

/-! ## Well-typed nodes -/

namespace Schema

open Node

variable {S : Schema σ} {loops : Prop}

/-- A descendant replaced by one with the same outline leaves the outline as it
is. -/
theorem Typed.outline_replaceAt_self {n c v : Node σ} (h : S.Typed loops n) {a : Address}
    (hc : n.get? a = some c) (hv : v.outline = c.outline) :
    (n.replaceAt a v).outline = n.outline := by
  rw [outline_replaceAt, hv, ← outline_replaceAt, h.replaceAt_self hc]

end Schema

end TreeSync

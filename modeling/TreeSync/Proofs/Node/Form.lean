import TreeSync.Proofs.Entries.Sorted
import TreeSync.Proofs.Node.Sameness
import TreeSync.Proofs.Node.Siblings

/-!
# Canonical forms

The canonical form of a node keeps its content and nothing else: no optional and boxed layers,
no difference between typed values and documents, no order of map entries other than that of
their literals.  A missing value has a form of its own, and so has null.

Main definitions and results:

- `Form`, `Document.form` and `Node.form`.
- `Node.form_eq`: the form by what stands below the layers.
-/

namespace TreeSync

/-- What is left of a node without its layers and its types. -/
inductive Form where
  /-- A missing value. -/
  | missing
  /-- The null of documents. -/
  | null
  /-- A scalar by its canonical literal. -/
  | literal (text : String)
  /-- A record by its type and the forms of its fields. -/
  | record (type : String) (fields : List Form)
  /-- A list by the forms of its items. -/
  | list (items : List Form)
  /-- A map by the literals of its keys, in ascending order, and the forms below them. -/
  | map (entries : List (String × Form))
  /-- What nothing is equal to. -/
  | unlike

/-! ## The form of a node -/

namespace Document

mutual

/-- The canonical form of a document. -/
def form : Document → Form
  | null => .null
  | bool v => .literal (Scalar.bool v).literal
  | int v => .literal (Scalar.int v).literal
  | float v => .literal (Scalar.float v).literal
  | text v => .literal v
  | seq items => .list (formItems items)
  | map entries => .map (formEntries entries)

/-- The canonical forms of documents. -/
def formItems : List Document → List Form
  | [] => []
  | d :: rest => d.form :: formItems rest

/-- The canonical forms of entries, by their keys. -/
def formEntries : List (String × Document) → List (String × Form)
  | [] => []
  | (key, d) :: rest => Entries.put Json.nameBefore key d.form (formEntries rest)

end

end Document

namespace Node

variable {σ : Type} {n : Node σ}

mutual

/-- The canonical form of a node. -/
def form : Node σ → Form
  | scalar slot => .literal slot.literal
  | absent _ => .missing
  | present v => v.form
  | boxed v => v.form
  | list _ items => .list (formItems items)
  | map _ _ _ entries => .map (formEntries entries)
  | dynamic d => d.form
  | record type fields _ => .record type (formFields fields)
  | array .. | enclosing _ => .unlike

/-- The canonical forms of nodes. -/
def formItems : List (Node σ) → List Form
  | [] => []
  | v :: rest => v.form :: formItems rest

/-- The canonical forms of entries, by the literals of their keys. -/
def formEntries : List (MapKey × Node σ) → List (String × Form)
  | [] => []
  | (key, v) :: rest => Entries.put Json.nameBefore key.literal v.form (formEntries rest)

/-- The canonical forms of fields. -/
def formFields : List (Field × Node σ) → List Form
  | [] => []
  | (_, v) :: rest => v.form :: formFields rest

end

/-- The canonical form of a node that has no children. -/
def leafForm : Node σ → Form
  | absent _ => .missing
  | scalar slot => .literal slot.literal
  | dynamic d => d.form
  | _ => .unlike

/-- The entries of a map by their literals and forms. -/
def spelled (entries : List (MapKey × Node σ)) : List (String × Form) :=
  entries.map fun e => (e.1.literal, e.2.form)

/-- The forms of items, without the recursion that computes them. -/
theorem formItems_eq (items : List (Node σ)) : formItems items = items.map form := by
  induction items with
  | nil => rfl
  | cons v rest ih => rw [formItems, ih, List.map_cons]

/-- The forms of entries are sorted by literals, since maps of other kinds are in another order.
-/
theorem formEntries_eq (entries : List (MapKey × Node σ)) :
    formEntries entries = Entries.sorted Json.nameBefore (spelled entries) := by
  induction entries with
  | nil => rfl
  | cons e rest ih =>
      obtain ⟨key, v⟩ := e
      rw [formEntries, ih]
      rfl

theorem formFields_eq (fields : List (Field × Node σ)) :
    formFields fields = fields.map fun f => f.2.form := by
  induction fields with
  | nil => rfl
  | cons f rest ih => rw [formFields, ih, List.map_cons]

/-- Items of a document have the forms of the nodes that they are. -/
theorem formItems_documents (items : List Document) :
    Document.formItems items = (items.map (dynamic (σ := σ))).map form := by
  induction items with
  | nil => rfl
  | cons d rest ih =>
      rw [Document.formItems, ih, List.map_cons, List.map_cons, form]

/-- So have the entries of a document. -/
theorem formEntries_documents (entries : List (String × Document)) :
    Document.formEntries entries =
      Entries.sorted Json.nameBefore (spelled (documentEntries (σ := σ) entries)) := by
  induction entries with
  | nil => rfl
  | cons e rest ih =>
      obtain ⟨key, d⟩ := e
      rw [Document.formEntries, ih]
      rfl

/-- The form by what stands below the layers. -/
theorem form_eq (n : Node σ) :
    n.form =
      match n.innermost.container with
      | .record type fields => .record type (fields.map fun f => f.2.form)
      | .map _ _ entries => .map (Entries.sorted Json.nameBefore (spelled entries))
      | .list _ items => .list (items.map form)
      | .fixed | .leaf => n.innermost.leafForm := by
  induction n using layers_induction with
  | absent t => rfl
  | present v ih => rw [form, ih, innermost]
  | boxed v ih => rw [form, ih, innermost]
  | bare n hn =>
      rw [innermost_of_bare hn]
      cases n with
      | list elem items => exact congrArg Form.list (formItems_eq items)
      | map order kind elem entries => exact congrArg Form.map (formEntries_eq entries)
      | record type fields state => exact congrArg (Form.record type) (formFields_eq fields)
      | dynamic d =>
          cases d with
          | seq items => exact congrArg Form.list (formItems_documents items)
          | map entries => exact congrArg Form.map (formEntries_documents entries)
          | _ => rfl
      | present v => exact absurd rfl hn
      | boxed v => exact absurd rfl hn
      | _ => rfl

end Node

end TreeSync

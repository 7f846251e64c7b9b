import TreeSync.Proofs.Node.Form

/-!
# Comparing nodes child by child

Two nodes are equal when their heads agree and each child of the first one equals the child of
the second one that answers it.  A field answers a field and an element an element, while the
key of an entry is read as a key of the other map.  Canonical forms are compared in the same
way, but for keys, which must have one literal.

Main definitions and results:

- `Node.head`, `Node.below?` and `Node.answer?`.
- `Schema.same_iff`: equality by heads and children.
- `Schema.form_eq_iff`: equality of canonical forms by heads and children.
- `Node.content_induction`: induction over the children below the layers.
-/

namespace TreeSync

/-- What two nodes have in common before their children are compared. -/
inductive Head where
  /-- A node without children, by its form. -/
  | leaf (form : Form)
  /-- A record, by its type and the number of its fields. -/
  | record (type : String) (width : Nat)
  /-- A list, by its length. -/
  | list (length : Nat)
  /-- A map, by the number of its entries. -/
  | map (size : Nat)

/-- The top of a form. -/
def Form.head : Form → Head
  | record type fields => .record type fields.length
  | list items => .list items.length
  | map entries => .map entries.length
  | f => .leaf f

/-- The step with the literal of its key in place of the key. -/
def Step.spelled : Step → Step
  | entry key => entry (.text key.literal)
  | s => s

namespace Node

variable {σ : Type} {a b c n u v : Node σ} {s t : Step} {type : String} {elem : Ty}
  {fields : List (Field × Node σ)} {items : List (Node σ)} {kind : KeyKind}
  {entries : List (MapKey × Node σ)}

/-- The top of a node below its layers. -/
def head (n : Node σ) : Head :=
  match n.innermost.container with
  | .record type fields => .record type fields.length
  | .map _ _ entries => .map entries.length
  | .list _ items => .list items.length
  | .fixed | .leaf => .leaf n.innermost.leafForm

/-- The child of what stands below the layers of a node. -/
def below? (n : Node σ) (s : Step) : Option (Node σ) :=
  n.innermost.child? s

/-- The step of a node that answers a step of another one. -/
def answer? (n : Node σ) : Step → Option Step
  | .entry key =>
      match n.innermost.container with
      | .map kind _ _ => (kind.readKey key.literal).toOption.map .entry
      | _ => none
  | s => some s

/-- Each child of the first node is related to the child of the second one that answers it. -/
def Answered (R : Node σ → Node σ → Prop) (a b : Node σ) : Prop :=
  ∀ s u, a.below? s = some u → ∃ t v, b.answer? s = some t ∧ b.below? t = some v ∧ R u v

/-- Each child of the first node is related to a child of the second one at the same step, keys
being the same if their literals are. -/
def Aligned (R : Node σ → Node σ → Prop) (a b : Node σ) : Prop :=
  ∀ s u, a.below? s = some u → ∃ t v, t.spelled = s.spelled ∧ b.below? t = some v ∧ R u v

/-! ## Below the layers -/

/-- Below all layers stands a node without layers, or a missing value. -/
theorem innermost_cases (n : Node σ) :
    (n.core? = some n.innermost ∧ n.innermost.Bare) ∨
      n.core? = none ∧ ∃ t, n.innermost = absent t := by
  induction n using layers_induction with
  | absent t => exact .inr ⟨rfl, t, rfl⟩
  | present v ih => exact ih
  | boxed v ih => exact ih
  | bare n hn =>
      rw [core?, core_of_bare hn, innermost_of_bare hn]
      exact .inl ⟨rfl, hn⟩

/-- No filled slot stands below all layers. -/
theorem innermost_ne_present (n v : Node σ) : n.innermost ≠ present v := by
  rcases innermost_cases n with ⟨-, hn⟩ | ⟨-, t, ht⟩
  · intro h
    exact hn (by rw [h]; rfl)
  · simp [ht]

theorem innermost_ne_boxed (n v : Node σ) : n.innermost ≠ boxed v := by
  rcases innermost_cases n with ⟨-, hn⟩ | ⟨-, t, ht⟩
  · intro h
    exact hn (by rw [h]; rfl)
  · simp [ht]

/-- Layers around either node make no difference. -/
theorem same_innermost_innermost (a b : Node σ) : a.innermost.same b.innermost = a.same b := by
  have hcore : b.innermost.core? = b.core? := by
    rcases innermost_cases b with ⟨hb, hbare⟩ | ⟨hb, t, ht⟩
    · rw [hb, core?, core_of_bare hbare]
      rfl
    · rw [hb, ht]
      rfl
  rw [same_of_core hcore]
  induction a using layers_induction with
  | absent t => rfl
  | present v ih => rw [innermost, same, ih]
  | boxed v ih => rw [innermost, same, ih]
  | bare a ha => rw [innermost_of_bare ha]

/-- A descendant below the layers. -/
theorem get?_below (h : n.below? s = some u) (rest : Address) :
    n.get? (n.coreAddress ++ s :: rest) = u.get? rest := by
  rw [get?_append, get?_coreAddress, Option.bind_some, get?, show n.innermost.child? s = _ from h,
    Option.bind_some]

/-- A descendant is one of the layers or stands below a child of what they are around. -/
theorem get?_cases {address : Address} (h : n.get? address = some v) :
    v.innermost = n.innermost ∨
      ∃ s u rest, n.below? s = some u ∧ u.get? rest = some v := by
  induction n using layers_induction generalizing address with
  | absent t =>
      cases address with
      | nil => exact .inl (congrArg innermost (Option.some.inj h).symm)
      | cons s rest => simp [get?, child?] at h
  | present n ih =>
      cases address with
      | nil => exact .inl (congrArg innermost (Option.some.inj h).symm)
      | cons s rest =>
          cases s with
          | pointee => exact ih h
          | _ => simp [get?, child?] at h
  | boxed n ih =>
      cases address with
      | nil => exact .inl (congrArg innermost (Option.some.inj h).symm)
      | cons s rest =>
          cases s with
          | pointee => exact ih h
          | _ => simp [get?, child?] at h
  | bare n hn =>
      cases address with
      | nil => exact .inl (congrArg innermost (Option.some.inj h).symm)
      | cons s rest =>
          obtain ⟨u, hu, hv⟩ := Option.bind_eq_some_iff.1 h
          refine .inr ⟨s, u, rest, ?_, hv⟩
          rwa [below?, innermost_of_bare hn]

theorem sizeOf_snd_lt {α β : Type} [SizeOf α] [SizeOf β] {e : α × β} {l : List (α × β)}
    (he : e ∈ l) : sizeOf e.2 < sizeOf l := by
  have hmem := List.sizeOf_lt_of_mem he
  obtain ⟨x, y⟩ := e
  rw [Prod.mk.sizeOf_spec] at hmem
  show sizeOf y < sizeOf l
  omega

/-- A child is smaller than its node, which carries the induction over contents. -/
theorem sizeOf_child? (h : n.child? s = some u) : sizeOf u < sizeOf n := by
  unfold child? at h
  split at h
  · obtain rfl := Option.some.inj h
    simp
  · obtain rfl := Option.some.inj h
    simp
  · obtain ⟨f, hf, rfl⟩ := Option.map_eq_some_iff.1 h
    have hlt := sizeOf_snd_lt (List.mem_of_getElem? hf)
    simp only [record.sizeOf_spec]
    omega
  · have hlt := sizeOf_snd_lt (Entries.mem_of_get?_eq_some h)
    simp only [map.sizeOf_spec] at *
    omega
  · have hlt := List.sizeOf_lt_of_mem (List.mem_of_getElem? h)
    simp only [list.sizeOf_spec]
    omega
  · obtain ⟨d, hd, rfl⟩ := Option.map_eq_some_iff.1 h
    have hlt := sizeOf_snd_lt (Entries.mem_of_get?_eq_some hd)
    simp only [dynamic.sizeOf_spec, Document.map.sizeOf_spec] at *
    omega
  · obtain ⟨d, hd, rfl⟩ := Option.map_eq_some_iff.1 h
    have hlt := List.sizeOf_lt_of_mem (List.mem_of_getElem? hd)
    simp only [dynamic.sizeOf_spec, Document.seq.sizeOf_spec]
    omega
  · simp at h

/-- What stands below the layers is no larger than the node. -/
theorem sizeOf_innermost_le (n : Node σ) : sizeOf n.innermost ≤ sizeOf n := by
  induction n using layers_induction with
  | absent t => exact Nat.le_refl _
  | present v ih =>
      rw [innermost, present.sizeOf_spec]
      omega
  | boxed v ih =>
      rw [innermost, boxed.sizeOf_spec]
      omega
  | bare n hn => exact Nat.le_of_eq (congrArg sizeOf (innermost_of_bare hn))

/-- Induction over the children below the layers of a node. -/
theorem content_induction {motive : Node σ → Prop} (n : Node σ)
    (step : ∀ n, (∀ s u, n.below? s = some u → motive u) → motive n) : motive n := by
  refine step n fun s u hu => ?_
  have hlt : sizeOf u < sizeOf n :=
    Nat.lt_of_lt_of_le (sizeOf_child? hu) (sizeOf_innermost_le n)
  exact content_induction u step
termination_by sizeOf n

/-! ## Children of the containers -/

/-- The children of a record are its fields. -/
theorem child?_of_record (h : c.container = .record type fields) :
    c.child? s = some u ↔ ∃ i f, s = .field i ∧ fields[i]? = some f ∧ f.2 = u := by
  rcases eq_record_of_container h with ⟨state, rfl⟩
  cases s <;> simp [child?]

/-- The children of a list are its items. -/
theorem child?_of_list (h : c.container = .list elem items) :
    c.child? s = some u ↔ ∃ i, s = .element i ∧ items[i]? = some u := by
  cases s with
  | element i => simp [child?_element h]
  | _ =>
      rcases eq_list_of_container h with rfl | ⟨-, others, -, rfl⟩
      · simp [child?]
      · simp [child?]

/-- The children of a map are its entries. -/
theorem child?_of_map (h : c.container = .map kind elem entries) :
    c.child? s = some u ↔ ∃ key, s = .entry key ∧ Entries.get? key entries = some u := by
  cases s with
  | entry key => simp [child?_entry h]
  | _ =>
      rcases eq_map_of_container h with ⟨order, rfl⟩ | ⟨-, -, others, rfl⟩
      · simp [child?]
      · simp [child?]

/-- Below the layers, what is no container has no children. -/
theorem below?_of_leaf (h : n.innermost.container = .leaf ∨ n.innermost.container = .fixed) :
    n.below? s = none := by
  rw [below?]
  generalize hc : n.innermost = c at h
  cases c with
  | present v => exact absurd hc (innermost_ne_present n v)
  | boxed v => exact absurd hc (innermost_ne_boxed n v)
  | dynamic d => cases d <;> first | rfl | simp [container] at h
  | _ => first | rfl | simp [container] at h

/-! ## Items, fields and entries side by side -/

/-- Items of documents are compared as nodes are. -/
theorem sameItems_documents (items : List Document) (others : List (Node σ)) :
    Document.sameItems items others = sameItems (items.map dynamic) others := by
  induction items generalizing others with
  | nil => simp [Document.sameItems, sameItems]
  | cons d rest ih =>
      cases others with
      | nil => simp [Document.sameItems, sameItems]
      | cons v others => simp [Document.sameItems, sameItems, same, ih]

theorem sameEntries_documents (entries : List (String × Document)) (b : Node σ) :
    Document.sameEntries entries b = sameEntries (documentEntries entries) b := by
  induction entries with
  | nil => simp [documentEntries, Document.sameEntries, sameEntries]
  | cons e rest ih =>
      obtain ⟨key, d⟩ := e
      rw [Document.sameEntries, ih]
      simp only [documentEntries, List.map_cons, sameEntries, MapKey.literal, same]

/-- Lists are related position by position when their first members are and the rest is. -/
theorem forall_position_cons {α β : Type} {R : α → β → Prop} {x : α} {y : β} {left : List α}
    {right : List β} :
    (∀ (i : Nat) (u : α), (x :: left)[i]? = some u → ∃ v, (y :: right)[i]? = some v ∧ R u v) ↔
      R x y ∧ ∀ (i : Nat) (u : α), left[i]? = some u → ∃ v, right[i]? = some v ∧ R u v := by
  refine ⟨fun h => ⟨?_, fun i => h (i + 1)⟩, fun ⟨hxy, h⟩ i => ?_⟩
  · simpa using h 0 x rfl
  · cases i with
    | zero => simpa using hxy
    | succ i => exact h i

/-- Lists of one length have equal items when each item equals the one at its position. -/
theorem sameItems_iff {others : List (Node σ)} (h : items.length = others.length) :
    sameItems items others = true ↔
      ∀ (i : Nat) (x : Node σ), items[i]? = some x →
        ∃ y, others[i]? = some y ∧ x.same y = true := by
  induction items generalizing others with
  | nil => simp [sameItems]
  | cons x rest ih =>
      cases others with
      | nil => simp at h
      | cons y others =>
          rw [sameItems, Bool.and_eq_true, ih (Nat.succ.inj h), forall_position_cons]

/-- Fields side by side are equal when each one equals the one at its position. -/
theorem sameFields_iff {others : List (Field × Node σ)} (h : fields.length = others.length) :
    sameFields fields others = true ↔
      ∀ (i : Nat) (f : Field × Node σ), fields[i]? = some f →
        ∃ g, others[i]? = some g ∧ f.2.same g.2 = true := by
  induction fields generalizing others with
  | nil => simp [sameFields]
  | cons f rest ih =>
      cases others with
      | nil => simp at h
      | cons g others =>
          rw [sameFields, Bool.and_eq_true, ih (Nat.succ.inj h), forall_position_cons]

/-- The same for lists of forms, so that equality and canonical forms can be compared position
by position. -/
theorem map_eq_map_iff {α : Type} {f : α → Form} {left right : List α}
    (h : left.length = right.length) :
    left.map f = right.map f ↔
      ∀ (i : Nat) (x : α), left[i]? = some x → ∃ y, right[i]? = some y ∧ f x = f y := by
  induction left generalizing right with
  | nil => simpa using h.symm
  | cons x rest ih =>
      cases right with
      | nil => simp at h
      | cons y others =>
          rw [List.map_cons, List.map_cons, List.cons.injEq, ih (Nat.succ.inj h),
            forall_position_cons]

/-- The entries of the first map decide. Each one looks for its literal as a key of the other
map. -/
theorem sameEntries_iff :
    sameEntries entries b = true ↔
      ∀ e ∈ entries, ∃ y, b.entry? e.1.literal = some y ∧ e.2.same y = true := by
  refine ⟨fun h => ?_, sameEntries_of_forall⟩
  induction entries with
  | nil => simp
  | cons e rest ih =>
      obtain ⟨key, x⟩ := e
      rw [sameEntries, Bool.and_eq_true] at h
      obtain ⟨hhead, hrest⟩ := h
      refine List.forall_mem_cons.2 ⟨?_, ih hrest⟩
      split at hhead
      · exact ⟨_, ‹_›, hhead⟩
      · simp at hhead

/-! ## One container against another node -/

/-- A list equals lists only. -/
theorem same_list_iff (ha : a.innermost.container = .list elem items) :
    a.same b = true ↔
      ∃ other others, b.innermost.container = .list other others ∧
        items.length = others.length ∧ sameItems items others = true := by
  rw [← same_innermost_innermost]
  rcases innermost_cases b with ⟨-, hb⟩ | ⟨-, t, ht⟩
  · rcases eq_list_of_container ha with h | ⟨-, documents, rfl, h⟩
    · rw [h, same, core?, core_of_bare hb]
      cases hc : b.innermost.container <;> simp [Except.toOption, hc]
    · rw [h, same, Document.same, core?, core_of_bare hb]
      cases hc : b.innermost.container <;> simp [Except.toOption, hc, sameItems_documents]
  · rcases eq_list_of_container ha with h | ⟨-, documents, rfl, h⟩
    · rw [h, same, ht]
      simp [core?, core, container, Except.toOption]
    · rw [h, same, Document.same, ht]
      simp [core?, core, container, Except.toOption]

/-- A map equals maps only. Its size and its own keys are looked at, not those of the other one.
-/
theorem same_map_iff (ha : a.innermost.container = .map kind elem entries) :
    a.same b = true ↔
      ∃ other value others, b.innermost.container = .map other value others ∧
        entries.length = others.length ∧ sameEntries entries b.innermost = true := by
  rw [← same_innermost_innermost]
  rcases innermost_cases b with ⟨-, hb⟩ | ⟨-, t, ht⟩
  · rcases eq_map_of_container ha with ⟨order, h⟩ | ⟨rfl, rfl, documents, h⟩
    · rw [h, same, core?, core_of_bare hb]
      cases hc : b.innermost.container <;> simp [Except.toOption, hc]
    · obtain rfl : documentEntries documents = entries := by
        rw [h] at ha
        exact (Container.map.inj ha).2.2
      rw [h, same, Document.same, core?, core_of_bare hb]
      cases hc : b.innermost.container <;>
        simp [Except.toOption, hc, documentEntries, sameEntries_documents]
  · rcases eq_map_of_container ha with ⟨order, h⟩ | ⟨-, -, documents, h⟩
    · rw [h, same, ht]
      simp [core?, core, container, Except.toOption]
    · rw [h, same, Document.same, ht]
      simp [core?, core, container, Except.toOption]

/-- A record equals records of its type only. -/
theorem same_record_iff (ha : a.innermost.container = .record type fields) :
    a.same b = true ↔
      ∃ others, b.innermost.container = .record type others ∧ sameFields fields others = true := by
  rcases eq_record_of_container ha with ⟨state, h⟩
  rw [← same_innermost_innermost, h, same]
  rcases innermost_cases b with ⟨-, hb⟩ | ⟨-, t, ht⟩
  · rw [core?, core_of_bare hb]
    generalize b.innermost = d
    cases d with
    | record other others state =>
        simpa [Except.toOption, container] using fun _ => eq_comm
    | dynamic d => cases d <;> simp [Except.toOption, container]
    | _ => simp [Except.toOption, container]
  · rw [ht]
    simp [core?, core, container, Except.toOption]

/-- A list of fixed length equals nothing. -/
theorem same_of_fixed (ha : a.innermost.container = .fixed) : a.same b = false := by
  rw [← same_innermost_innermost]
  generalize a.innermost = c at ha
  cases c with
  | array elem items => rw [same]
  | dynamic d => cases d <;> simp [container] at ha
  | _ => simp [container] at ha

/-- A literal is the form of exactly the scalars that it spells. -/
theorem literal?_innermost_iff {text : String} :
    b.innermost.literal? = some text ↔ b.head = .leaf (.literal text) := by
  rw [head, literal?]
  rcases innermost_cases b with ⟨-, hb⟩ | ⟨-, t, ht⟩
  · rw [core?, core_of_bare hb]
    generalize b.innermost = d
    cases d with
    | dynamic d =>
        cases d <;>
          simp [Except.toOption, container, leafForm, Document.form, Document.scalar?,
            Scalar.literal]
    | _ => simp [Except.toOption, container, leafForm]
  · rw [ht]
    simp [core?, core, container, leafForm, Except.toOption]

/-- Only a missing value has the head of a missing value. -/
theorem isAllocated_innermost_iff : b.innermost.isAllocated = false ↔ b.head = .leaf .missing := by
  rw [head]
  rcases innermost_cases b with ⟨-, hb⟩ | ⟨-, t, ht⟩
  · rw [isAllocated_of_bare hb]
    generalize b.innermost = d at hb
    cases d with
    | absent t => exact absurd rfl hb
    | dynamic d => cases d <;> simp [container, leafForm, Document.form]
    | _ => simp [container, leafForm]
  · rw [ht]
    simp [isAllocated, core?, core, container, leafForm, Except.toOption]

/-- The empty document equals the empty document, and no missing value. -/
theorem same_null_iff : Document.same .null b.innermost = true ↔ b.head = .leaf .null := by
  rw [head, Document.same]
  rcases innermost_cases b with ⟨-, hb⟩ | ⟨-, t, ht⟩
  · rw [core?, core_of_bare hb]
    generalize b.innermost = d at hb
    cases d with
    | absent t => exact absurd rfl hb
    | dynamic d => cases d <;> simp [Except.toOption, container, leafForm, Document.form]
    | _ => simp [Except.toOption, container, leafForm]
  · rw [ht]
    simp [core?, core, container, leafForm, Except.toOption]

/-- What is no container equals what has its form, unless nothing is equal to it. -/
theorem same_leaf_iff (ha : a.innermost.container = .leaf) :
    a.same b = true ↔
      a.innermost.leafForm ≠ .unlike ∧ b.head = .leaf a.innermost.leafForm := by
  rw [← same_innermost_innermost]
  generalize hc : a.innermost = c at ha
  cases c with
  | present v => exact absurd hc (innermost_ne_present a v)
  | boxed v => exact absurd hc (innermost_ne_boxed a v)
  | absent t => simp [same, leafForm, isAllocated_innermost_iff]
  | scalar slot => simp [same, leafForm, literal?_innermost_iff]
  | enclosing type => simp [same, leafForm]
  | dynamic d =>
      cases d with
      | null => simp [same, leafForm, Document.form, same_null_iff]
      | seq items => simp [container] at ha
      | map entries => simp [container] at ha
      | _ =>
          simp [same, leafForm, Document.form, Document.same, literal?_innermost_iff,
            Scalar.literal]
  | _ => simp [container] at ha

/-! ## Heads -/

/-- The head of a record tells its type and how many fields it has. -/
theorem head_eq_record_iff {width : Nat} :
    n.head = .record type width ↔
      ∃ fields, n.innermost.container = .record type fields ∧ fields.length = width := by
  rw [head]
  cases n.innermost.container <;> simp [and_comm]

theorem head_eq_list_iff {length : Nat} :
    n.head = .list length ↔
      ∃ elem items, n.innermost.container = .list elem items ∧ items.length = length := by
  rw [head]
  cases n.innermost.container <;> simp

theorem head_eq_map_iff {size : Nat} :
    n.head = .map size ↔
      ∃ kind elem entries, n.innermost.container = .map kind elem entries ∧
        entries.length = size := by
  rw [head]
  cases n.innermost.container <;> simp

/-- A node without children is told by its head. -/
theorem form_of_head {f : Form} (h : n.head = .leaf f) : n.form = f := by
  rw [form_eq]
  rw [head] at h
  cases hc : n.innermost.container with
  | fixed => simpa [hc] using h
  | leaf => simpa [hc] using h
  | _ => simp [hc] at h

theorem head_leafForm (h : n.innermost.container = .leaf ∨ n.innermost.container = .fixed) :
    n.innermost.leafForm.head = .leaf n.innermost.leafForm := by
  generalize n.innermost = c at h
  cases c with
  | dynamic d => cases d <;> first | rfl | simp [container] at h
  | _ => rfl

end Node

namespace Schema

open Node

variable {σ : Type} {S : Schema σ} {loops : Prop} {a b n u v : Node σ} {s t : Step}
  {type : String} {elem : Ty} {fields : List (Field × Node σ)} {kind : KeyKind}
  {entries : List (MapKey × Node σ)}

/-! ## Well-typed containers -/

/-- A well-typed record has as many fields as its type, so records of one type have equally
many. -/
theorem Typed.length_fields (hn : S.Typed loops n)
    (h : n.innermost.container = .record type fields) :
    fields.length = (S.signature type).length := by
  rcases eq_record_of_container h with ⟨state, hrecord⟩
  cases hrecord ▸ hn.innermost with
  | record types => rw [← types, List.length_map]

/-- The keys of a well-typed map are of its kind. -/
theorem Typed.admits (hn : S.Typed loops n)
    (h : n.innermost.container = .map kind elem entries) : ∀ e ∈ entries, kind.Admits e.1 := by
  rcases eq_map_of_container h with ⟨order, hmap⟩ | ⟨rfl, rfl, others, hmap⟩
  · cases hmap ▸ hn.innermost with
    | map _ admits => exact admits
  · rw [hmap] at h
    obtain rfl : documentEntries others = entries := (Container.map.inj h).2.2
    intro e he
    obtain ⟨d, -, rfl⟩ := List.mem_map.1 he
    trivial

/-- No key of a well-typed map occurs twice. -/
theorem Typed.nodup_keys (hn : S.Typed loops n)
    (h : n.innermost.container = .map kind elem entries) : (Entries.keys entries).Nodup := by
  rcases eq_map_of_container h with ⟨order, hmap⟩ | ⟨rfl, rfl, others, hmap⟩
  · cases hmap ▸ hn.innermost with
    | map ascending => exact ascending.nodup_keys (order.orders kind)
  · have hothers := (S.ordered_of_typed (hmap ▸ hn.innermost)).ascending.nodup_keys Json.nameOrders
    rw [hmap] at h
    obtain rfl : documentEntries others = entries := (Container.map.inj h).2.2
    have hkeys : Entries.keys (documentEntries (σ := σ) others) =
        (Entries.keys others).map MapKey.text := by
      simp [Entries.keys, documentEntries]
    rw [hkeys]
    exact hothers.map fun _ _ heq => MapKey.text.inj heq

/-- The literals of the keys of a map are distinct. -/
theorem Typed.nodup_spelled (hn : S.Typed loops n)
    (h : n.innermost.container = .map kind elem entries) :
    (Entries.keys (spelled entries)).Nodup := by
  have hkeys : Entries.keys (spelled entries) = (Entries.keys entries).map MapKey.literal := by
    simp [Entries.keys, spelled]
  have hadmits : ∀ key ∈ Entries.keys entries, kind.Admits key := by
    intro key hkey
    obtain ⟨e, he, rfl⟩ := List.mem_map.1 hkey
    exact hn.admits h e he
  rw [hkeys]
  refine List.Nodup.map_on (fun x hx y hy hxy => ?_) (hn.nodup_keys h)
  by_contra hne
  exact KeyKind.literal_ne (hadmits x hx) (hadmits y hy) hne hxy

/-- The children of a well-typed map are its entries, all of them. -/
theorem Typed.below?_entry_iff (hn : S.Typed loops n)
    (h : n.innermost.container = .map kind elem entries) {key : MapKey} :
    n.below? (.entry key) = some u ↔ (key, u) ∈ entries := by
  rw [below?, child?_entry h]
  exact ⟨Entries.mem_of_get?_eq_some, fun hmem => Entries.get?_of_nodup (hn.nodup_keys h) hmem⟩

/-- The entry that a literal finds stands at the step that answers its key. -/
theorem entry?_innermost_iff (h : n.innermost.container = .map kind elem entries) {key : MapKey} :
    n.innermost.entry? key.literal = some u ↔
      ∃ t, n.answer? (.entry key) = some t ∧ n.below? t = some u := by
  simp only [ entry?, answer?, below?, h]
  cases kind.readKey key.literal with
  | error e => simp [Except.toOption]
  | ok k => simp [Except.toOption, child?_entry h]

/-! ## Heads and children -/

theorem head_of_leaf (h : n.innermost.container = .leaf ∨ n.innermost.container = .fixed) :
    n.head = .leaf n.innermost.leafForm := by
  rcases h with h | h <;> rw [head, h]

theorem leafForm_of_fixed (h : n.innermost.container = .fixed) :
    n.innermost.leafForm = .unlike := by
  generalize n.innermost = c at h
  cases c with
  | array elem items => rfl
  | dynamic d => cases d <;> simp [container] at h
  | _ => simp [container] at h

/-- Equality of lists by heads and children: the lengths are in the heads. -/
theorem same_iff_of_list {items : List (Node σ)} (ha : a.innermost.container = .list elem items) :
    a.same b = true ↔ a.head = b.head ∧ Answered (fun u v => u.same v = true) a b := by
  have hhead : a.head = .list items.length := by rw [head, ha]
  rw [same_list_iff ha, hhead, eq_comm (a := Head.list _), head_eq_list_iff]
  constructor
  · rintro ⟨other, others, hb, hlength, hitems⟩
    refine ⟨⟨other, others, hb, hlength.symm⟩, fun s u hu => ?_⟩
    obtain ⟨i, rfl, hi⟩ := (child?_of_list ha).1 hu
    obtain ⟨v, hv, huv⟩ := (sameItems_iff hlength).1 hitems i u hi
    exact ⟨.element i, v, rfl, (child?_of_list hb).2 ⟨i, rfl, hv⟩, huv⟩
  · rintro ⟨⟨other, others, hb, hlength⟩, h⟩
    refine ⟨other, others, hb, hlength.symm, (sameItems_iff hlength.symm).2 fun i u hu => ?_⟩
    obtain ⟨t, v, ht, hv, huv⟩ := h (.element i) u ((child?_of_list ha).2 ⟨i, rfl, hu⟩)
    obtain rfl := Option.some.inj ht
    rw [below?, child?_element hb] at hv
    exact ⟨v, hv, huv⟩

/-- Equality of records by heads and children: the types are in the heads, and the fields of one
type stand in one order. -/
theorem same_iff_of_record (hta : S.Typed loops a) (htb : S.Typed loops b)
    (ha : a.innermost.container = .record type fields) :
    a.same b = true ↔ a.head = b.head ∧ Answered (fun u v => u.same v = true) a b := by
  have hhead : a.head = .record type fields.length := by rw [head, ha]
  rw [same_record_iff ha, hhead, eq_comm (a := Head.record _ _), head_eq_record_iff]
  constructor
  · rintro ⟨others, hb, hfields⟩
    have hlength := (htb.length_fields hb).trans (hta.length_fields ha).symm
    refine ⟨⟨others, hb, hlength⟩, fun s u hu => ?_⟩
    obtain ⟨i, f, rfl, hf, rfl⟩ := (child?_of_record ha).1 hu
    obtain ⟨g, hg, hfg⟩ := (sameFields_iff hlength.symm).1 hfields i f hf
    exact ⟨.field i, g.2, rfl, (child?_of_record hb).2 ⟨i, g, rfl, hg, rfl⟩, hfg⟩
  · rintro ⟨⟨others, hb, hlength⟩, h⟩
    refine ⟨others, hb, (sameFields_iff hlength.symm).2 fun i f hf => ?_⟩
    obtain ⟨t, v, ht, hv, hfv⟩ := h (.field i) f.2 ((child?_of_record ha).2 ⟨i, f, rfl, hf, rfl⟩)
    obtain rfl := Option.some.inj ht
    obtain ⟨j, g, hj, hg, rfl⟩ := (child?_of_record hb).1 hv
    obtain rfl := Step.field.inj hj
    exact ⟨g, hg, hfv⟩

/-- Equality of maps by heads and children: the sizes are in the heads, and a key is answered by
what its literal spells. -/
theorem same_iff_of_map (hta : S.Typed loops a)
    (ha : a.innermost.container = .map kind elem entries) :
    a.same b = true ↔ a.head = b.head ∧ Answered (fun u v => u.same v = true) a b := by
  have hhead : a.head = .map entries.length := by rw [head, ha]
  rw [same_map_iff ha, hhead, eq_comm (a := Head.map _), head_eq_map_iff]
  constructor
  · rintro ⟨other, value, others, hb, hlength, hentries⟩
    refine ⟨⟨other, value, others, hb, hlength.symm⟩, fun s u hu => ?_⟩
    obtain ⟨key, rfl, hkey⟩ := (child?_of_map ha).1 hu
    obtain ⟨v, hv, huv⟩ := sameEntries_iff.1 hentries _ (Entries.mem_of_get?_eq_some hkey)
    obtain ⟨t, ht, htv⟩ := (entry?_innermost_iff hb).1 hv
    exact ⟨t, v, ht, htv, huv⟩
  · rintro ⟨⟨other, value, others, hb, hlength⟩, h⟩
    refine ⟨other, value, others, hb, hlength.symm, sameEntries_iff.2 fun e he => ?_⟩
    obtain ⟨t, v, ht, hv, huv⟩ := h (.entry e.1) e.2 ((hta.below?_entry_iff ha).2 he)
    exact ⟨v, (entry?_innermost_iff hb).2 ⟨t, ht, hv⟩, huv⟩

/-- Two nodes are equal when their heads are, each child of the first one equals the child that
answers it, and the head is not what nothing is equal to. -/
theorem same_iff (ha : S.Typed loops a) (hb : S.Typed loops b) :
    a.same b = true ↔
      a.head = b.head ∧ a.head ≠ .leaf .unlike ∧ Answered (fun u v => u.same v = true) a b := by
  cases hc : a.innermost.container with
  | leaf =>
      have hchildren : Answered (fun u v => u.same v = true) a b := fun s u hu => by
        simp [below?_of_leaf (.inl hc)] at hu
      rw [same_leaf_iff hc, head_of_leaf (.inl hc), eq_comm (a := Head.leaf _)]
      simp [hchildren, and_comm]
  | fixed => simp [same_of_fixed hc, head_of_leaf (.inr hc), leafForm_of_fixed hc]
  | list elem items => simp [same_iff_of_list hc, head, hc]
  | map kind elem entries => simp [same_iff_of_map ha hc, head, hc]
  | record type fields => simp [same_iff_of_record ha hb hc, head, hc]

/-- The head of the form is the head of the node. -/
theorem head_form (hn : S.Typed loops n) : n.form.head = n.head := by
  rw [form_eq, head]
  cases hc : n.innermost.container with
  | leaf => exact head_leafForm (.inl hc)
  | fixed => exact head_leafForm (.inr hc)
  | list elem items => simp [Form.head]
  | record type fields => simp [Form.head]
  | map kind elem entries =>
      have hperm := Entries.perm_sorted Json.nameOrders (hn.nodup_spelled hc)
      simpa [Form.head, spelled] using hperm.length_eq

/-- Lists have equal forms when their items have, one by one. -/
theorem form_eq_iff_of_list {items : List (Node σ)} (ha : a.innermost.container = .list elem items)
    (hhead : a.head = b.head) :
    a.form = b.form ↔ Aligned (fun u v => u.form = v.form) a b := by
  have hlist : b.head = .list items.length := by rw [← hhead, head, ha]
  obtain ⟨other, others, hb, hlength⟩ := head_eq_list_iff.1 hlist
  have hform : a.form = b.form ↔ items.map form = others.map form := by
    rw [form_eq, form_eq b, ha, hb, Form.list.injEq]
  rw [hform, map_eq_map_iff hlength.symm]
  constructor
  · intro h s u hu
    obtain ⟨i, rfl, hi⟩ := (child?_of_list ha).1 hu
    obtain ⟨v, hv, huv⟩ := h i u hi
    exact ⟨.element i, v, rfl, (child?_of_list hb).2 ⟨i, rfl, hv⟩, huv⟩
  · intro h i u hu
    obtain ⟨t, v, ht, hv, huv⟩ := h (.element i) u ((child?_of_list ha).2 ⟨i, rfl, hu⟩)
    obtain ⟨j, rfl, hj⟩ := (child?_of_list hb).1 hv
    obtain rfl := Step.element.inj ht
    exact ⟨v, hj, huv⟩

theorem form_eq_iff_of_record (ha : a.innermost.container = .record type fields)
    (hhead : a.head = b.head) :
    a.form = b.form ↔ Aligned (fun u v => u.form = v.form) a b := by
  have hrecord : b.head = .record type fields.length := by rw [← hhead, head, ha]
  obtain ⟨others, hb, hlength⟩ := head_eq_record_iff.1 hrecord
  have hform : a.form = b.form ↔
      (fields.map fun f => f.2.form) = others.map fun f => f.2.form := by
    rw [form_eq, form_eq b, ha, hb, Form.record.injEq]
    simp
  rw [hform, map_eq_map_iff hlength.symm]
  constructor
  · intro h s u hu
    obtain ⟨i, f, rfl, hf, rfl⟩ := (child?_of_record ha).1 hu
    obtain ⟨g, hg, hfg⟩ := h i f hf
    exact ⟨.field i, g.2, rfl, (child?_of_record hb).2 ⟨i, g, rfl, hg, rfl⟩, hfg⟩
  · intro h i f hf
    obtain ⟨t, v, ht, hv, hfv⟩ := h (.field i) f.2 ((child?_of_record ha).2 ⟨i, f, rfl, hf, rfl⟩)
    obtain ⟨j, g, rfl, hg, rfl⟩ := (child?_of_record hb).1 hv
    obtain rfl := Step.field.inj ht
    exact ⟨g, hg, hfv⟩

/-- Equal forms of maps. The entries of a form are sorted by literals, so that forms are equal
when the same literals lead to equal forms. -/
theorem form_eq_iff_of_map (hta : S.Typed loops a) (htb : S.Typed loops b)
    (ha : a.innermost.container = .map kind elem entries) (hhead : a.head = b.head) :
    a.form = b.form ↔ Aligned (fun u v => u.form = v.form) a b := by
  have hmap : b.head = .map entries.length := by rw [← hhead, head, ha]
  obtain ⟨other, value, others, hb, hlength⟩ := head_eq_map_iff.1 hmap
  have hform : a.form = b.form ↔ (spelled entries).Perm (spelled others) := by
    rw [form_eq, form_eq b, ha, hb, Form.map.injEq]
    exact Entries.sorted_eq_iff Json.nameOrders (hta.nodup_spelled ha) (htb.nodup_spelled hb)
  rw [hform]
  constructor
  · intro h s u hu
    obtain ⟨key, rfl, hkey⟩ := (child?_of_map ha).1 hu
    have hmem : (key.literal, u.form) ∈ spelled entries :=
      List.mem_map.2 ⟨_, Entries.mem_of_get?_eq_some hkey, rfl⟩
    obtain ⟨e, he, heq⟩ := List.mem_map.1 (h.subset hmem)
    obtain ⟨hliteral, hvalue⟩ := Prod.mk.inj heq
    refine ⟨.entry e.1, e.2, ?_, (htb.below?_entry_iff hb).2 he, hvalue.symm⟩
    rw [Step.spelled, Step.spelled, hliteral]
  · intro h
    have hspelled : (spelled entries).length = (spelled others).length := by
      rw [spelled, spelled, List.length_map, List.length_map, hlength]
    refine Entries.perm_of_subset (hta.nodup_spelled ha) hspelled fun x hx => ?_
    obtain ⟨e, he, rfl⟩ := List.mem_map.1 hx
    obtain ⟨t, v, ht, hv, hev⟩ := h (.entry e.1) e.2 ((hta.below?_entry_iff ha).2 he)
    obtain ⟨key, rfl, hkey⟩ := (child?_of_map hb).1 hv
    have hliteral : key.literal = e.1.literal := MapKey.text.inj (Step.entry.inj ht)
    rw [hev, ← hliteral]
    exact List.mem_map.2 ⟨_, Entries.mem_of_get?_eq_some hkey, rfl⟩

/-- Two nodes have one form when their heads agree and each child of the first one has the form
of a child of the second one at the same step. -/
theorem form_eq_iff (ha : S.Typed loops a) (hb : S.Typed loops b) :
    a.form = b.form ↔ a.head = b.head ∧ Aligned (fun u v => u.form = v.form) a b := by
  have hhead : a.form = b.form → a.head = b.head := fun h => by
    rw [← head_form ha, ← head_form hb, h]
  suffices h : a.head = b.head →
      (a.form = b.form ↔ Aligned (fun u v => u.form = v.form) a b) from
    ⟨fun hform => ⟨hhead hform, (h (hhead hform)).1 hform⟩, fun hc => (h hc.1).2 hc.2⟩
  intro hab
  have hleaf (hc : a.innermost.container = .leaf ∨ a.innermost.container = .fixed) :
      a.form = b.form ↔ Aligned (fun u v => u.form = v.form) a b := by
    have ha := head_of_leaf hc
    refine ⟨fun _ s u hu => ?_, fun _ => ?_⟩
    · simp [below?_of_leaf hc] at hu
    · rw [form_of_head ha, form_of_head (hab.symm.trans ha)]
  cases hc : a.innermost.container with
  | leaf => exact hleaf (.inl hc)
  | fixed => exact hleaf (.inr hc)
  | list elem items => exact form_eq_iff_of_list hc hab
  | record type fields => exact form_eq_iff_of_record hc hab
  | map kind elem entries => exact form_eq_iff_of_map ha hb hc hab

end Schema

end TreeSync

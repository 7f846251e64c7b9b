import TreeSync.Proofs.Apply.Probe
import TreeSync.Proofs.Apply.Steps

/-!
# Events on documents

A document without sequences on the way takes an event as a nested map takes an
update: whatever is missing or a leaf on the way becomes a map, the entry under
the key is stored or erased, and everything beside the way stays.

Main results:

- `Schema.walk_document`: creating and replacing along a path.
- `Schema.walk_delete_document`, `Schema.walk_delete_missing`: deleting.
- `Schema.apply_document`: an event is an update of the nested map.
-/

namespace TreeSync

namespace Event

/-- What an event that creates or replaces leaves under its key, where `old` is
what stood there. -/
def leaf (e : Event) (old : Option Document) : Document :=
  match e.tag, old with
  | .scalar tag, _ => tag.document e.value
  | .seq, some (.seq items) => .seq items
  | .seq, _ => .seq []
  | _, some (.map entries) => .map entries
  | _, _ => .map []

/-- The entries of a map after an event that creates or replaces. -/
def store (e : Event) (entries : List (String × Document)) : List (String × Document) :=
  Entries.put Json.nameBefore e.key (e.leaf (Entries.get? e.key entries)) entries

/-- An event for a map or sequence keeps what has the shape, and else leaves an empty one. -/
theorem leaf_of_shape {e : Event} {shape : Shape} (h : e.tag.shape? = some shape)
    (old : Option Document) : e.leaf old = (old.getD .null).shaped shape := by
  rw [leaf.eq_def]
  cases htag : e.tag with
  | scalar tag => simp [htag, Tag.shape?] at h
  | _ =>
      rw [htag] at h
      obtain rfl := Option.some.inj h
      rcases old with _ | c
      · rfl
      · cases c <;> rfl

/-- An event for a scalar leaves its own value, whatever was there. -/
theorem leaf_of_scalar {e : Event} (h : e.tag.shape? = none) (old : Option Document) :
    e.leaf old = e.tag.document e.value := by
  rw [leaf.eq_def]
  cases htag : e.tag with
  | scalar tag => rfl
  | _ => simp [htag, Tag.shape?] at h

theorem isRoot_of_key_ne {e : Event} (h : e.key ≠ "") : e.isRoot = false := by
  simp [isRoot, h]

end Event

namespace Document

/-- Going along a path meets no sequence. -/
def SeqFree (d : Document) (path : List String) : Prop :=
  ∀ p, p <+: path → ∀ items, d.follow? p ≠ some (seq items)

/-- A path without sequences does not start in one. -/
theorem SeqFree.here {d : Document} {path : List String} (h : d.SeqFree path)
    (items : List Document) : d ≠ seq items := by
  intro hd
  exact h [] List.nil_prefix items (congrArg some hd)

/-- Behind a step the rest of the path leads through no sequence either. -/
theorem SeqFree.tail {d c : Document} {key : String} {rest : List String}
    (h : d.SeqFree (key :: rest)) (hc : d.get? key = some c) : c.SeqFree rest := by
  intro p hp items hget
  have hp' : key :: p <+: key :: rest := List.cons_prefix_cons.2 ⟨rfl, hp⟩
  refine h _ hp' items ?_
  rw [follow?, hc]
  exact hget

theorem seqFree_null (path : List String) : null.SeqFree path := by
  intro p _ items
  cases p <;> simp [follow?, get?]

/-- What is entered next meets no sequence either, missing or not. -/
theorem SeqFree.next {d : Document} {key : String} {rest : List String}
    (h : d.SeqFree (key :: rest)) : ((d.get? key).getD null).SeqFree rest := by
  cases hc : d.get? key with
  | none => exact seqFree_null rest
  | some c => exact h.tail hc

end Document

namespace Schema

open Node

variable {σ : Type} {S : Schema σ} {o : Options}

/-! ## One step -/

/-- A document that is a map is a map of documents under texts. -/
theorem container_document (entries : List (String × Document)) :
    (dynamic (.map entries) : Node σ).container =
      .map .string .dynamic (documentEntries entries) :=
  rfl

/-- A leaf on the way becomes a map. -/
theorem promote_document {d : Document} (h : ∀ items, d ≠ .seq items) :
    S.promote (.dynamic d) = .dynamic (.map d.entries) := by
  cases d with
  | seq items => exact absurd rfl (h items)
  | _ => rfl

/-- Putting an entry into a document keeps its members in order. -/
theorem putChild_document (entries : List (String × Document)) (key : String) (d : Document) :
    (dynamic (.map entries) : Node σ).putChild (.entry (.text key)) (dynamic d) =
      dynamic (.map (Entries.put Json.nameBefore key d entries)) :=
  rfl

/-- The entries of a document are its members. -/
theorem child?_document (entries : List (String × Document)) (key : String) :
    (dynamic (.map entries) : Node σ).child? (.entry (.text key)) =
      (Entries.get? key entries).map dynamic :=
  rfl

/-- The entry under a key is there or is made. -/
theorem findOrCreate_document {entries : List (String × Document)} {key : String} {mode : Mode}
    (hkey : key ≠ "") :
    S.findOrCreate o (.dynamic (.map entries)) key mode =
      (.dynamic (.map (Entries.put Json.nameBefore key
        ((Entries.get? key entries).getD .null) entries)), .ok [.entry (.text key)]) := by
  have hitem : S.createItem o (.dynamic (.map entries)) key mode =
      match Entries.get? key entries with
      | some _ => (.dynamic (.map entries), .ok [.entry (.text key)])
      | none => (.dynamic (.map (Entries.put Json.nameBefore key .null entries)),
          .ok [.entry (.text key)]) := by
    rw [createItem, container_document]
    simp only [require_of_ne hkey, KeyKind.decode, KeyKind.readKey, get?_documentEntries, bind,
      Except.bind]
    cases Entries.get? key entries with
    | none => rfl
    | some d => rfl
  have hchild : S.createChild o (.dynamic (.map entries)) key mode =
      S.createItem o (.dynamic (.map entries)) key mode := rfl
  rw [findOrCreate]
  simp only [allocate, coreAddress, innermost, hchild, hitem, putBack, replaceAt, List.nil_append]
  cases hget : Entries.get? key entries with
  | none =>
      simp only [Node.get?, child?_document, Entries.get?_put_self, Option.map_some,
        Option.bind_some, replaceAt, allocate, coreAddress, putChild_document, Entries.put_put,
        Option.getD_none, List.append_nil]
  | some d =>
      simp only [Node.get?, child?_document, hget, Option.map_some, Option.bind_some, replaceAt,
        allocate, coreAddress, putChild_document, Option.getD_some, List.append_nil]

/-- A key leads to the entry of a map that it names. -/
theorem find_document {entries : List (String × Document)} {key : String} {mode : Mode}
    (hkey : key ≠ "") :
    S.find o (.dynamic (.map entries)) key mode =
      match Entries.get? key entries with
      | some d => .ok ⟨[.entry (.text key)], .dynamic d⟩
      | none => .error (.entryNotFound key) := by
  have hitem : S.findItem o (.dynamic (.map entries)) key mode =
      match Entries.get? key entries with
      | some d => .ok ⟨[.entry (.text key)], .dynamic d⟩
      | none => .error (.entryNotFound key) := by
    rw [findItem, container_document]
    simp only [require_of_ne hkey, KeyKind.decode, KeyKind.readKey, get?_documentEntries, bind,
      Except.bind]
    cases Entries.get? key entries with
    | none => rfl
    | some d => rfl
  have hfind : S.find o (.dynamic (.map entries)) key mode =
      Place.under [] <$> S.findItem o (.dynamic (.map entries)) key mode := rfl
  rw [hfind, hitem]
  cases Entries.get? key entries with
  | none => rfl
  | some d => rfl

/-! ## The leaf -/

/-- A literal is put under its key, with the type that its tag says. -/
theorem write_document {entries : List (String × Document)} {key text : String} {d : Document}
    {mode : Mode} (hkey : key ≠ "") :
    S.write o (.dynamic (.map entries)) key (.literal text (some d)) mode =
      (.dynamic (.map (Entries.put Json.nameBefore key d entries)), .ok ()) := by
  have hslot : ∀ c : Document, S.setSlot o (.dynamic c) (.literal text (some d)) =
      (.dynamic d, .ok ()) := fun _ => rfl
  have hitem : S.writeItem o (.dynamic (.map entries)) key (.literal text (some d)) mode =
      (.dynamic (.map (Entries.put Json.nameBefore key d entries)), .ok ()) := by
    rw [writeItem, container_document]
    simp only [require_of_ne hkey, KeyKind.decode, KeyKind.readKey, get?_documentEntries, bind,
      Except.bind]
    cases hget : Entries.get? key entries with
    | none =>
        simp only [Option.map_none, zero, hslot, putChild_document]
    | some c =>
        simp only [Option.map_some, hslot, putBack, replaceAt, child?_document, hget,
          putChild_document]
  have hwrite : S.write o (.dynamic (.map entries)) key (.literal text (some d)) mode =
      Node.putBack (.dynamic (.map entries)) []
        (S.writeItem o (.dynamic (.map entries)) key (.literal text (some d)) mode) := rfl
  rw [hwrite, hitem]
  rfl

/-- A shape is put under its key, and what has it already stays. -/
theorem materialize_document {entries : List (String × Document)} {key : String} {shape : Shape}
    {mode : Mode} (hkey : key ≠ "") :
    S.materialize o (.dynamic (.map entries)) key shape mode =
      (.dynamic (.map (Entries.put Json.nameBefore key
        (((Entries.get? key entries).getD .null).shaped shape) entries)), .ok ()) := by
  have hslot : ∀ c : Document, S.shapeSlot (.dynamic c) shape =
      (.dynamic (c.shaped shape), .ok ()) := fun _ => rfl
  have hitem : S.shapeItem o (.dynamic (.map entries)) key shape mode =
      (.dynamic (.map (Entries.put Json.nameBefore key
        (((Entries.get? key entries).getD .null).shaped shape) entries)), .ok ()) := by
    rw [shapeItem, container_document]
    simp only [require_of_ne hkey, KeyKind.decode, KeyKind.readKey, get?_documentEntries, bind,
      Except.bind]
    cases hget : Entries.get? key entries with
    | none =>
        simp only [Option.map_none, zero, hslot, putChild_document, Option.getD_none]
    | some c =>
        simp only [Option.map_some, hslot, putBack, replaceAt, child?_document, hget,
          putChild_document, Option.getD_some]
  have hmaterialize : S.materialize o (.dynamic (.map entries)) key shape mode =
      Node.putBack (.dynamic (.map entries)) []
        (S.shapeItem o (.dynamic (.map entries)) key shape mode) := rfl
  rw [hmaterialize, hitem]
  rfl

/-- The leaf of an event is stored under its key. -/
theorem perform_document {e : Event} {d : Document} (hd : ∀ items, d ≠ .seq items)
    (hkey : e.key ≠ "") (haction : e.action ≠ .delete) :
    S.perform o e (.dynamic d) = (.dynamic (.map (e.store d.entries)), .ok ()) := by
  rw [Event.store]
  cases hshape : e.tag.shape? with
  | none =>
      rw [perform_of_literal haction hshape, promote_document hd, write_document hkey,
        Event.leaf_of_scalar hshape]
      rfl
  | some shape =>
      rw [perform_of_shape haction hshape, promote_document hd, materialize_document hkey,
        Event.leaf_of_shape hshape]
      rfl

/-- A member is taken out, and an absent one is no failure. -/
theorem remove_document {entries : List (String × Document)} {key : String} {mode : Mode}
    (hkey : key ≠ "") :
    S.remove o (.dynamic (.map entries)) key mode =
      .ok (.dynamic (.map (Entries.erase key entries))) := by
  have hremove : S.remove o (.dynamic (.map entries)) key mode =
      (fun c => c) <$> S.removeItem o (.dynamic (.map entries)) key mode := rfl
  rw [hremove, removeItem, container_document]
  simp only [require_of_ne hkey, KeyKind.decode, KeyKind.readKey, bind, Except.bind]
  rfl

/-! ## The way -/

/-- Creating and replacing along a path is an update. -/
theorem walk_document {e : Event} {d : Document} {path : List String}
    (hpath : ∀ key ∈ path, key ≠ "") (hkey : e.key ≠ "") (haction : e.action ≠ .delete)
    (hd : d.SeqFree path) :
    S.walk o e (.dynamic d) path = (.dynamic (d.update e.store path), .ok ()) := by
  induction path generalizing d with
  | nil => exact perform_document hd.here hkey haction
  | cons key rest ih =>
      have hne : key ≠ "" := hpath key List.mem_cons_self
      have hrest : ∀ k ∈ rest, k ≠ "" := fun k hk => hpath k (List.mem_cons_of_mem _ hk)
      have henter : S.enter o e.action (.dynamic d) key =
          (.dynamic (.map (Entries.put Json.nameBefore key ((d.get? key).getD .null) d.entries)),
            .ok [.entry (.text key)]) := by
        rw [enter_of_ne haction, promote_document hd.here, findOrCreate_document hne,
          d.get?_eq_get?_entries]
      rw [walk, henter]
      simp only [Node.get?, child?_document, Entries.get?_put_self, Option.map_some,
        Option.bind_some, coreAddress, List.append_nil, List.cons_ne_nil, and_false, if_false,
        ih hrest hd.next, putBack, replaceAt, putChild_document, Entries.put_put]
      rfl

/-- Deleting below a path that leads to a map erases the entry. -/
theorem walk_delete_document {e : Event} {d : Document} {path : List String}
    {entries : List (String × Document)} (hpath : ∀ key ∈ path, key ≠ "") (hkey : e.key ≠ "")
    (haction : e.action = .delete) (hfollow : d.follow? path = some (.map entries)) :
    S.walk o e (.dynamic d) path =
      (.dynamic (d.update (Entries.erase e.key) path), .ok ()) := by
  induction path generalizing d with
  | nil =>
      obtain rfl := Option.some.inj hfollow
      rw [walk, perform_of_delete haction, remove_document hkey]
      rfl
  | cons key rest ih =>
      have hne : key ≠ "" := hpath key List.mem_cons_self
      have hrest : ∀ k ∈ rest, k ≠ "" := fun k hk => hpath k (List.mem_cons_of_mem _ hk)
      rcases Option.bind_eq_some_iff.1 hfollow with ⟨c, hc, hrestfollow⟩
      cases d with
      | map others =>
          rw [Document.get?] at hc
          have henter : S.enter o e.action (.dynamic (.map others)) key =
              (.dynamic (.map others), .ok [.entry (.text key)]) := by
            rw [haction, enter_delete, find_document hne, hc]
            rfl
          rw [walk, henter]
          simp only [Node.get?, child?_document, hc, Option.map_some, Option.bind_some,
            coreAddress, List.append_nil, List.cons_ne_nil, and_false, if_false,
            ih hrest hrestfollow, putBack, replaceAt, putChild_document, Document.update,
            Document.get?, Option.getD_some, Document.entries]
      | _ => simp [Document.get?] at hc

/-- Deleting below a path that leads to no map fails and changes nothing. -/
theorem walk_delete_missing {e : Event} {d : Document} {path : List String}
    (hord : d.Ordered) (hpath : ∀ key ∈ path, key ≠ "") (haction : e.action = .delete)
    (hseq : d.SeqFree path) (hfollow : ∀ entries, d.follow? path ≠ some (.map entries)) :
    ∃ err, S.walk o e (.dynamic d) path = (.dynamic d, .error err) := by
  induction path generalizing d with
  | nil =>
      rw [walk, perform_of_delete haction]
      cases d with
      | map entries => exact absurd rfl (hfollow entries)
      | seq items => exact absurd rfl (hseq.here items)
      | _ => exact ⟨_, rfl⟩
  | cons key rest ih =>
      have hne : key ≠ "" := hpath key List.mem_cons_self
      have hrest : ∀ k ∈ rest, k ≠ "" := fun k hk => hpath k (List.mem_cons_of_mem _ hk)
      rw [walk, haction, enter_delete]
      cases d with
      | seq items => exact absurd rfl (hseq.here items)
      | map others =>
          rw [find_document hne]
          cases hc : Entries.get? key others with
          | none => exact ⟨_, rfl⟩
          | some c =>
              have hnext : ∀ entries, c.follow? rest ≠ some (.map entries) := by
                intro entries h
                refine hfollow entries ?_
                rw [Document.follow?, Document.get?, hc]
                exact h
              rcases ih (hord.get hc) hrest (hseq.tail hc) hnext with ⟨err, herr⟩
              refine ⟨err, ?_⟩
              simp only [Functor.map, Except.map, Node.get?, child?_document, hc,
                Option.map_some, Option.bind_some, coreAddress, List.append_nil,
                List.cons_ne_nil, and_false, if_false, herr, putBack, replaceAt,
                putChild_document, Entries.put_of_get?_eq_some Json.nameOrders hord.ascending hc]
      | _ => exact ⟨_, rfl⟩

/-! ## Events -/

/-- An event on a document without sequences on its way is an update of a nested
map.  Creating and replacing store the leaf of the event, making maps on the
way; deleting erases an entry of a map that is there, and else fails without a
change. -/
theorem apply_document (S : Schema σ) (o : Options) (e : Event) (d : Document)
    (hord : d.Ordered) (hpath : ∀ key ∈ e.path, key ≠ "") (hkey : e.key ≠ "")
    (hseq : ∀ p, p <+: e.path → ∀ items, d.follow? p ≠ some (.seq items)) :
    (e.action ≠ .delete →
      S.apply o e (.dynamic d) = (.dynamic (d.update e.store e.path), .ok ())) ∧
    (e.action = .delete →
      (∀ entries, d.follow? e.path = some (.map entries) →
        S.apply o e (.dynamic d) = (.dynamic (d.update (Entries.erase e.key) e.path), .ok ())) ∧
      ((∀ entries, d.follow? e.path ≠ some (.map entries)) →
        ∃ err, S.apply o e (.dynamic d) = (.dynamic d, .error err))) := by
  have htyped : S.Typed False (.dynamic d) := .dynamic hord
  rw [apply_of_silent htyped (silent_dynamic d) (Event.isRoot_of_key_ne hkey)]
  constructor
  · intro haction
    exact walk_document hpath hkey haction hseq
  · intro haction
    constructor
    · intro entries hfollow
      exact walk_delete_document hpath hkey haction hfollow
    · intro hfollow
      exact walk_delete_missing hord hpath haction hseq hfollow

/-- A text on the way becomes a map, and a bracketed segment is a plain key. -/
theorem apply_document_below_text :
    (empty () : Schema Unit).apply {}
        ⟨.create, ["a", "b[c]"], "k", .scalar .str, "v", none⟩
        (.dynamic (.map [("a", .text "x"), ("z", .null)])) =
      (.dynamic (.map [("a", .map [("b[c]", .map [("k", .text "v")])]), ("z", .null)]),
        .ok ()) := by
  have hord : (Document.map [("a", .text "x"), ("z", .null)]).Ordered := by
    refine .map ?_ ?_
    · rw [Entries.Ascending, List.pairwise_pair]
      decide
    · intro e he
      rcases List.mem_cons.1 he with rfl | he
      · exact .leaf rfl
      · rw [List.mem_singleton.1 he]
        exact .leaf rfl
  refine (apply_document (empty ()) {} _ _ hord (by decide) (by decide) ?_).1 (by decide)
  intro p hp items
  -- The document ends at the text under the first segment.
  rcases p with _ | ⟨key, _ | ⟨next, rest⟩⟩
  · simp [Document.follow?]
  · obtain ⟨rfl, -⟩ := List.cons_prefix_cons.1 hp
    simp [Document.follow?, Document.get?, Entries.get?]
  · obtain ⟨rfl, -⟩ := List.cons_prefix_cons.1 hp
    simp [Document.follow?, Document.get?, Entries.get?]

end Schema

end TreeSync

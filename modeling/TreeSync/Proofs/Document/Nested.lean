import TreeSync.Document.Basic
import TreeSync.Proofs.Node.KeyOrder

/-!
# Documents as nested maps

Read as a nested map, a document leads from key to key.  An update at a path
changes the entries of the map at its end; what is not a map on the way becomes
one, and what stands beside the way stays.

Main definitions and results:

- `Document.Ordered`: the keys of every map ascend.
- `Document.follow?` and `Document.update`.
- `Document.follow?_update`: an update is seen at its path.
- `Document.get?_update_of_ne`: an update leaves the entries beside its path.
-/

namespace TreeSync

namespace Document

/-- The keys of every map in the document ascend. -/
inductive Ordered : Document → Prop where
  | leaf {d : Document} (h : d.isLeaf = true) : Ordered d
  | seq {items : List Document} (h : ∀ d ∈ items, Ordered d) : Ordered (.seq items)
  | map {entries : List (String × Document)}
      (ascending : Entries.Ascending Json.nameBefore entries) (h : ∀ e ∈ entries, Ordered e.2) :
      Ordered (.map entries)

/-- The document that a path of keys leads to. -/
def follow? (d : Document) : List String → Option Document
  | [] => some d
  | key :: rest => (d.get? key).bind fun child => child.follow? rest

/-- The entries of a map; any other document has none. -/
def entries : Document → List (String × Document)
  | map entries => entries
  | _ => []

/-- The document with the entries of the map at a path changed.  Anything else
on the path becomes a map. -/
def update (change : List (String × Document) → List (String × Document)) (d : Document) :
    List String → Document
  | [] => map (change d.entries)
  | key :: rest =>
      map (Entries.put Json.nameBefore key (((d.get? key).getD null).update change rest) d.entries)

/-! ## Ordered documents -/

theorem ordered_emptyMap : (Document.map []).Ordered :=
  .map List.Pairwise.nil (List.forall_mem_nil _)

/-- The members of an ordered map have ascending names. -/
theorem Ordered.ascending {entries : List (String × Document)}
    (h : (Document.map entries).Ordered) : Entries.Ascending Json.nameBefore entries := by
  cases h with
  | leaf h => simp [isLeaf] at h
  | map h _ => exact h

/-- What is looked up in an ordered map is ordered. -/
theorem Ordered.get {entries : List (String × Document)} (h : (Document.map entries).Ordered)
    {key : String} {d : Document} (hd : Entries.get? key entries = some d) : d.Ordered := by
  cases h with
  | leaf h => simp [isLeaf] at h
  | map _ h => exact h (key, d) (Entries.mem_of_get?_eq_some hd)

/-- An ordered map stays ordered with one more member. -/
theorem Ordered.put {entries : List (String × Document)} (h : (Document.map entries).Ordered)
    (key : String) {d : Document} (hd : d.Ordered) :
    (Document.map (Entries.put Json.nameBefore key d entries)).Ordered := by
  refine .map (h.ascending.put Json.nameOrders trivial d fun _ _ => trivial) fun e he => ?_
  rcases Entries.mem_put _ he with rfl | he
  · exact hd
  · cases h with
    | leaf h => simp [isLeaf] at h
    | map _ h => exact h e he

/-- An ordered map stays ordered without a member. -/
theorem Ordered.erase {entries : List (String × Document)} (h : (Document.map entries).Ordered)
    (key : String) : (Document.map (Entries.erase key entries)).Ordered := by
  refine .map (h.ascending.erase key) fun e he => ?_
  cases h with
  | leaf h => simp [isLeaf] at h
  | map _ h => exact h e ((Entries.erase_sublist key entries).mem he)

theorem Ordered.value {entries : List (String × Document)} (h : (Document.map entries).Ordered)
    {e : String × Document} (he : e ∈ entries) : e.2.Ordered := by
  cases h with
  | leaf h => simp [isLeaf] at h
  | map _ h => exact h e he

theorem Ordered.item {items : List Document} (h : (Document.seq items).Ordered) {d : Document}
    (hd : d ∈ items) : d.Ordered := by
  cases h with
  | leaf h => simp [isLeaf] at h
  | seq h => exact h d hd

mutual

/-- Documents read from JSON are ordered. -/
theorem ordered_ofJson (j : Json) : (ofJson j).Ordered := by
  cases j with
  | null => exact .leaf rfl
  | bool b => exact .leaf rfl
  | int n =>
      rw [ofJson, ofInteger]
      split <;> exact .leaf rfl
  | float x => exact .leaf rfl
  | text s => exact .leaf rfl
  | array items => exact .seq (ordered_ofJsonItems items)
  | object members => exact ordered_ofJsonMembers [] members ordered_emptyMap

/-- The items of a JSON array become ordered documents. -/
theorem ordered_ofJsonItems (items : List Json) : ∀ d ∈ ofJsonItems items, d.Ordered := by
  match items with
  | [] => exact List.forall_mem_nil _
  | item :: rest =>
      intro d hd
      rw [ofJsonItems] at hd
      rcases List.mem_cons.1 hd with rfl | hd
      · exact ordered_ofJson item
      · exact ordered_ofJsonItems rest d hd

/-- The members of a JSON object are put one after the other into an ordered map. The induction
carries the map made so far. -/
theorem ordered_ofJsonMembers (done : List (String × Document)) (members : List (String × Json))
    (h : (map done).Ordered) : (map (ofJsonMembers done members)).Ordered := by
  match members with
  | [] => exact h
  | (name, value) :: rest =>
      exact ordered_ofJsonMembers _ rest (h.put name (ordered_ofJson value))

end

/-! ## Updates -/

/-- Looking up in a document that is no map finds nothing, as in a map without members. -/
theorem get?_eq_get?_entries (d : Document) (key : String) :
    d.get? key = Entries.get? key d.entries := by
  cases d <;> rfl

/-- An update is seen at its path. -/
theorem follow?_update (change : List (String × Document) → List (String × Document))
    (d : Document) (path : List String) :
    (d.update change path).follow? path =
      some (map (change (((d.follow? path).getD null).entries))) := by
  induction path generalizing d with
  | nil => rfl
  | cons key rest ih =>
      rw [update, follow?, get?, Entries.get?_put_self, Option.bind_some, ih, follow?]
      cases d.get? key with
      | none =>
          cases rest with
          | nil => rfl
          | cons => rfl
      | some c => rfl

/-- An update leaves the entries beside its path. -/
theorem get?_update_of_ne (change : List (String × Document) → List (String × Document))
    (d : Document) {key other : String} (h : other ≠ key) (rest : List String) :
    (d.update change (key :: rest)).get? other = d.get? other := by
  rw [update, get?, Entries.get?_put_of_ne _ h, get?_eq_get?_entries]

end Document

end TreeSync

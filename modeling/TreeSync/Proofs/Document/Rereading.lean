import TreeSync.Document.Text
import TreeSync.Proofs.Document.Nested
import TreeSync.Proofs.Json.Reading

/-!
# Documents read back

The text of a document names no kinds: a value is told by its JSON form alone.  Without floats the
form tells enough.  The members of an object ascend as the keys of the map do, so every one of
them is put behind those already read, and the integers of a document are those that stay
integers.

Main definitions and results:

- `Document.Floatless`: documents without floats.
- `Document.ofJson_toJson`: a document is had back from its JSON form.
- `Document.read?_texts`: a document is read back from both of its texts.
-/

namespace TreeSync

namespace Entries

variable {α β : Type} [DecidableEq α] {before : α → α → Bool} {admits : α → Prop}

/-- A key behind all the others is put last. -/
theorem put_of_forall_before (ho : Orders before admits) {key : α} (value : β)
    {entries : List (α × β)} (h : ∀ e ∈ entries, before e.1 key = true) :
    put before key value entries = entries ++ [(key, value)] := by
  induction entries with
  | nil => rfl
  | cons e rest ih =>
      obtain ⟨k, v⟩ := e
      have hk : before k key = true := h (k, v) List.mem_cons_self
      have hback : ¬before key k = true := by
        rw [ho.asymm hk]
        exact Bool.false_ne_true
      rw [put, if_neg (ho.ne hk), if_neg hback, ih fun e he => h e (List.mem_cons_of_mem _ he)]
      rfl

end Entries

namespace Document

/-- A document that holds no float. -/
inductive Floatless : Document → Prop where
  /-- The empty leaf. -/
  | null : Floatless null
  /-- A truth value. -/
  | bool (value : Bool) : Floatless (bool value)
  /-- An integer. -/
  | int (value : Int64) : Floatless (int value)
  /-- A text. -/
  | text (value : String) : Floatless (text value)
  /-- A sequence of such documents. -/
  | seq (items : List Document) : (∀ d ∈ items, Floatless d) → Floatless (seq items)
  /-- A map to such documents. -/
  | map (entries : List (String × Document)) :
      (∀ e ∈ entries, Floatless e.2) → Floatless (map entries)

/-! ## The JSON form -/

theorem toJsonItems_eq_map (items : List Document) : toJsonItems items = items.map toJson := by
  induction items with
  | nil => rfl
  | cons d rest ih => rw [toJsonItems, ih, List.map_cons]

theorem toJsonMembers_eq_map (entries : List (String × Document)) :
    toJsonMembers entries = entries.map fun e => (e.1, e.2.toJson) := by
  induction entries with
  | nil => rfl
  | cons e rest ih => rw [toJsonMembers, ih, List.map_cons]

/-- The integers of a document are those of 64 bits with a sign. -/
theorem contains_toInt (n : Int64) : IntKind.i64.Contains n.toInt :=
  ⟨n.le_toInt, Int.le_sub_one_of_lt n.toInt_lt⟩

/-- The JSON form of a document without floats holds no float either, and no integer beyond
64 bits. -/
theorem Floatless.toJson {d : Document} (h : d.Floatless) : d.toJson.Floatless := by
  induction h with
  | null => exact .null
  | bool value => exact .bool value
  | int value =>
      obtain ⟨hlo, hhi⟩ := contains_toInt value
      have hwider : IntKind.i64.hi ≤ IntKind.u64.hi := by decide
      exact .int _ hlo (Int.le_trans hhi hwider)
  | text value => exact .text value
  | seq items _ ih =>
      rw [Document.toJson, toJsonItems_eq_map]
      refine .array _ fun item hitem => ?_
      obtain ⟨d, hd, rfl⟩ := List.mem_map.1 hitem
      exact ih d hd
  | map entries _ ih =>
      rw [Document.toJson, toJsonMembers_eq_map]
      refine .object _ fun m hm => ?_
      obtain ⟨e, he, rfl⟩ := List.mem_map.1 hm
      exact ih e he

/-- The items of a sequence are had back when each of them is. -/
theorem ofJsonItems_toJsonItems {items : List Document}
    (h : ∀ d ∈ items, ofJson d.toJson = d) : ofJsonItems (toJsonItems items) = items := by
  induction items with
  | nil => rfl
  | cons d rest ih =>
      rw [toJsonItems, ofJsonItems, h d List.mem_cons_self,
        ih fun d hd => h d (List.mem_cons_of_mem _ hd)]

/-- The entries of a map are had back behind those already read, as long as the keys ascend. -/
theorem ofJsonMembers_toJsonMembers {done entries : List (String × Document)}
    (hasc : Entries.Ascending Json.nameBefore (done ++ entries))
    (h : ∀ e ∈ entries, ofJson e.2.toJson = e.2) :
    ofJsonMembers done (toJsonMembers entries) = done ++ entries := by
  induction entries generalizing done with
  | nil => rw [toJsonMembers, ofJsonMembers, List.append_nil]
  | cons e rest ih =>
      obtain ⟨key, value⟩ := e
      have hlast : ∀ e ∈ done, Json.nameBefore e.1 key = true := fun e he =>
        (List.pairwise_append.1 hasc).2.2 e he (key, value) List.mem_cons_self
      have hvalue : ofJson value.toJson = value := h (key, value) List.mem_cons_self
      rw [List.append_cons] at hasc
      rw [toJsonMembers, ofJsonMembers, hvalue,
        Entries.put_of_forall_before Json.nameOrders value hlast,
        ih hasc fun e he => h e (List.mem_cons_of_mem _ he), ← List.append_cons]

/-- A document is had back from its JSON form. -/
theorem ofJson_toJson {d : Document} (h : d.Floatless) (ho : d.Ordered) :
    ofJson d.toJson = d := by
  induction h with
  | null => rfl
  | bool value => rfl
  | int value => rw [toJson, ofJson, ofInteger, if_pos (contains_toInt value), Int64.ofInt_toInt]
  | text value => rfl
  | seq items _ ih =>
      rw [toJson, ofJson, ofJsonItems_toJsonItems fun d hd => ih d hd (ho.item hd)]
  | map entries _ ih =>
      have hvalues : ∀ e ∈ entries, ofJson e.2.toJson = e.2 := fun e he => ih e he (ho.value he)
      have hentries : ofJsonMembers [] (toJsonMembers entries) = [] ++ entries :=
        ofJsonMembers_toJsonMembers ho.ascending hvalues
      rw [toJson, ofJson, hentries, List.nil_append]

/-! ## The texts -/

/-- A document without floats is read back from its compact text and from its indented one. -/
theorem read?_texts {d : Document} (h : d.Floatless) (ho : d.Ordered) :
    read? d.compact = some d ∧ read? d.pretty = some d := by
  constructor
  · rw [read?, compact, h.toJson.read_compact, Option.map_some, ofJson_toJson h ho]
  · rw [read?, pretty, h.toJson.read_pretty, Option.map_some, ofJson_toJson h ho]

/-- A document with the least integer, with escapes in keys and texts, and with empty containers. -/
def escapes : Document :=
  map [("", int (-9223372036854775808)), ("\x01\n\x22\\", text "é\x22\x7b"),
    ("a", seq [map [], seq [], null, bool true]), ("aé", map [("", int 0)])]

theorem read?_texts_escapes :
    escapes.Floatless ∧ escapes.Ordered ∧ read? escapes.compact = some escapes ∧
      read? escapes.pretty = some escapes := by
  have hfloatless : escapes.Floatless := by
    have hitems : ∀ d ∈ [map [], seq [], null, bool true], d.Floatless :=
      List.forall_mem_cons.2 ⟨.map _ (List.forall_mem_nil _), List.forall_mem_cons.2
        ⟨.seq _ (List.forall_mem_nil _), List.forall_mem_cons.2
          ⟨.null, List.forall_mem_singleton.2 (.bool true)⟩⟩⟩
    exact .map _ (List.forall_mem_cons.2 ⟨.int _, List.forall_mem_cons.2 ⟨.text _,
      List.forall_mem_cons.2 ⟨.seq _ hitems, List.forall_mem_singleton.2
        (.map _ (List.forall_mem_singleton.2 (.int 0)))⟩⟩⟩)
  have hordered : escapes.Ordered := by
    have hitems : ∀ d ∈ [map [], seq [], null, bool true], d.Ordered :=
      List.forall_mem_cons.2 ⟨ordered_emptyMap, List.forall_mem_cons.2
        ⟨.seq (List.forall_mem_nil _), List.forall_mem_cons.2
          ⟨.leaf rfl, List.forall_mem_singleton.2 (.leaf rfl)⟩⟩⟩
    have hinner : (map [("", int 0)]).Ordered :=
      .map (List.pairwise_singleton _ _) (List.forall_mem_singleton.2 (.leaf rfl))
    refine .map ?_ (List.forall_mem_cons.2 ⟨.leaf rfl, List.forall_mem_cons.2 ⟨.leaf rfl,
      List.forall_mem_cons.2 ⟨.seq hitems, List.forall_mem_singleton.2 hinner⟩⟩⟩)
    unfold Entries.Ascending
    decide
  exact ⟨hfloatless, hordered, read?_texts hfloatless hordered⟩

end Document

end TreeSync

import Mathlib.Data.Finmap
import TreeSync.Navigate.Direct
import TreeSync.Proofs.Entries.Sorted
import TreeSync.Proofs.Node.KeyOrder
import TreeSync.Proofs.Outcome

/-!
# Typed maps as finite maps

A typed map is asked by literals.  Each literal is read as a key of the map's kind before
anything else happens, so the map is a finite map from keys to values that knows nothing of
spellings.  Its listing gives the canonical literal of every key, and by that literal the entry
is found again.

Main definitions and results:

- `MapRequest` and `MapReply`: the operations of a typed map and what they answer.
- `Contents` and `Contents.serve`: finite maps from keys, asked the same.
- `Node.Keyed`: a map whose keys are of its kind and in its order.
- `Schema.serveMap_contents`: one request, asked of a typed map and of its contents.
- `Schema.inTurn_serveMap`: any number of requests, and what is listed behind them.
-/

namespace TreeSync

/-! ## Requests in turn -/

/-- Requests served one after the other, with the answers in their order. -/
def inTurn {α β ρ : Type} (serve : α → ρ → α × β) (a : α) : List ρ → α × List β
  | [] => (a, [])
  | r :: rest =>
      let first := serve a r
      let others := inTurn serve first.1 rest
      (others.1, first.2 :: others.2)

/-- Two ways of serving give the same answers if every single request keeps one state the view of
the other. -/
theorem inTurn_view {α γ β ρ : Type} {serve : α → ρ → α × β} {serve' : γ → ρ → γ × β}
    {inv : α → Prop} {view : α → γ} (hinv : ∀ a r, inv a → inv (serve a r).1)
    (hview : ∀ a r, inv a → (view (serve a r).1, (serve a r).2) = serve' (view a) r)
    {a : α} (ha : inv a) (requests : List ρ) :
    inv (inTurn serve a requests).1 ∧
      (view (inTurn serve a requests).1, (inTurn serve a requests).2) =
        inTurn serve' (view a) requests := by
  induction requests generalizing a with
  | nil => exact ⟨ha, rfl⟩
  | cons r rest ih =>
      obtain ⟨hrest, hanswers⟩ := ih (hinv a r ha)
      have hfirst := Prod.ext_iff.1 (hview a r ha)
      have hothers := Prod.ext_iff.1 hanswers
      refine ⟨hrest, ?_⟩
      simp only [inTurn, ← hfirst.1, ← hfirst.2, ← hothers.1, ← hothers.2]

/-! ## Operations of a map -/

/-- What a map is asked to do under one of its keys. -/
inductive MapAction (σ : Type) where
  /-- Look the entry up. -/
  | get
  /-- Look the entry up, after putting a new one there if there is none. -/
  | getOrInsert
  /-- Store a value. -/
  | insert (value : Node σ)
  /-- Take the entry away. -/
  | remove

/-- An operation of a map under a key literal. -/
structure MapRequest (σ : Type) where
  /-- The spelling of the key. -/
  literal : String
  /-- What is to be done under the key. -/
  action : MapAction σ

/-- What a map answers. -/
inductive MapReply (σ : Type) where
  /-- The entry, if there is one. -/
  | found (place : Option (Place σ))
  /-- The entry, which may be a new one. -/
  | entry (place : Place σ)
  /-- The value is stored. -/
  | stored
  /-- No entry is left; whether there was one. -/
  | removed (existed : Bool)

namespace Schema

variable {σ : Type} (S : Schema σ)

/-- The map behind an operation and its answer. -/
def operate (n : Node σ) (r : MapRequest σ) : Except NavError (Node σ × MapReply σ) :=
  match r.action with
  | .get => (fun place => (n, .found place)) <$> n.getEntry r.literal
  | .getOrInsert => (fun m => (m.1, .entry m.2)) <$> S.getOrInsert n r.literal
  | .insert value => (fun m => (m, .stored)) <$> n.insertEntry r.literal value
  | .remove => (fun m => (m.1, .removed m.2)) <$> n.removeEntry r.literal

/-- What becomes of a map and what it answers.  An operation that fails leaves the map alone. -/
def serveMap (n : Node σ) (r : MapRequest σ) : Node σ × Except NavError (MapReply σ) :=
  match S.operate n r with
  | .ok (m, reply) => (m, .ok reply)
  | .error e => (n, .error e)

end Schema

/-! ## Finite maps from keys -/

/-- A finite map from keys to values. -/
abbrev Contents (σ : Type) := Finmap fun _ : MapKey => Node σ

namespace Contents

variable {σ : Type}

/-- The entry under a key as a place in a map. -/
def place (key : MapKey) (v : Node σ) : Place σ :=
  ⟨[.entry key], v⟩

/-- A finite map behind an operation under a key, and the answer.  Values have the type `elem`,
and `new` is the one that a new entry gets. -/
def act (elem : Ty) (new : Node σ) (m : Contents σ) (key : MapKey) :
    MapAction σ → Contents σ × Except NavError (MapReply σ)
  | .get => (m, .ok (.found ((m.lookup key).map (place key))))
  | .getOrInsert =>
      match m.lookup key with
      | some v => (m, .ok (.entry (place key v)))
      | none => (m.insert key new, .ok (.entry (place key new)))
  | .insert value =>
      if value.ty = elem then (m.insert key value, .ok .stored)
      else (m, .error (.conversion (.mismatch value.ty.name elem.name .typeDiffers)))
  | .remove => (m.erase key, .ok (.removed (m.lookup key).isSome))

/-- A finite map asked by literals: what spells no key is refused, and all spellings of one key
are the same. -/
def serve (kind : KeyKind) (elem : Ty) (new : Node σ) (m : Contents σ) (r : MapRequest σ) :
    Contents σ × Except NavError (MapReply σ) :=
  match kind.readKey r.literal with
  | .ok key => m.act elem new key r.action
  | .error cause => (m, .error (.keyNotAddressable r.literal (.notAMapKey cause)))

end Contents

namespace Node

variable {σ : Type} {order : MapOrder} {kind : KeyKind} {elem : Ty} {n : Node σ}
  {entries : List (MapKey × Node σ)} {key : MapKey}

/-- The entries of a typed map as a finite map. -/
def contents : Node σ → Contents σ
  | map _ _ _ entries => (entries.map fun e => (⟨e.1, e.2⟩ : (_ : MapKey) × Node σ)).toFinmap
  | _ => ∅

/-- A typed map whose keys are values of its key kind and in its order. -/
inductive Keyed (order : MapOrder) (kind : KeyKind) (elem : Ty) : Node σ → Prop where
  | intro {entries : List (MapKey × Node σ)} (ascending : Entries.Ascending order.before entries)
      (admits : ∀ e ∈ entries, kind.Admits e.1) :
      Keyed order kind elem (map order kind elem entries)

theorem lookup_contents (key : MapKey) :
    (map order kind elem entries).contents.lookup key = Entries.get? key entries := by
  rw [contents, Finmap.dlookup_list_toFinmap]
  induction entries with
  | nil => rfl
  | cons e rest ih =>
      obtain ⟨k, v⟩ := e
      rw [List.map_cons, Entries.get?]
      by_cases hk : k = key
      · subst hk
        simp
      · rw [List.dlookup_cons_ne _ _ (Ne.symm hk), if_neg hk]
        exact ih

/-- Writing or erasing an entry is done to the contents. -/
theorem contents_put (key : MapKey) (v : Node σ) :
    (map order kind elem (Entries.put order.before key v entries)).contents =
      (map order kind elem entries).contents.insert key v := by
  refine Finmap.ext_lookup fun other => ?_
  rw [lookup_contents]
  by_cases hkey : other = key
  · subst hkey
    rw [Entries.get?_put_self, Finmap.lookup_insert]
  · rw [Entries.get?_put_of_ne _ hkey, Finmap.lookup_insert_of_ne _ hkey, lookup_contents]

theorem contents_erase (key : MapKey) :
    (map order kind elem (Entries.erase key entries)).contents =
      (map order kind elem entries).contents.erase key := by
  refine Finmap.ext_lookup fun other => ?_
  rw [lookup_contents]
  by_cases hkey : other = key
  · subst hkey
    rw [Entries.get?_erase_self, Finmap.lookup_erase]
  · rw [Entries.get?_erase_of_ne hkey, Finmap.lookup_erase_ne hkey, lookup_contents]

/-- A write keeps a typed map keyed. -/
theorem Keyed.put (h : (map order kind elem entries).Keyed order kind elem)
    (hkey : kind.Admits key) (v : Node σ) :
    (map order kind elem (Entries.put order.before key v entries)).Keyed order kind elem := by
  cases h with
  | intro ascending admits =>
      refine .intro (ascending.put (order.orders kind) hkey v admits) fun e he => ?_
      rcases Entries.mem_put _ he with rfl | he
      · exact hkey
      · exact admits e he

theorem Keyed.erase (h : (map order kind elem entries).Keyed order kind elem) (key : MapKey) :
    (map order kind elem (Entries.erase key entries)).Keyed order kind elem := by
  cases h with
  | intro ascending admits =>
      refine .intro (ascending.erase key) fun e he => ?_
      exact admits e ((Entries.erase_sublist key entries).mem he)

/-! ## One key -/

section OneKey

variable {literal : String}

theorem getEntry_of_key (hkey : kind.readKey literal = .ok key) :
    (map order kind elem entries).getEntry literal =
      .ok ((Entries.get? key entries).map (Contents.place key)) := by
  rw [getEntry, KeyKind.decode, hkey]
  rfl

theorem insertEntry_of_key (hkey : kind.readKey literal = .ok key) (value : Node σ) :
    (map order kind elem entries).insertEntry literal value =
      (fun _ => map order kind elem (Entries.put order.before key value entries)) <$>
        requireType elem value := by
  rw [insertEntry, KeyKind.decode, hkey]
  rfl

theorem removeEntry_of_key (hkey : kind.readKey literal = .ok key) :
    (map order kind elem entries).removeEntry literal =
      .ok (map order kind elem (Entries.erase key entries), (Entries.get? key entries).isSome) := by
  rw [removeEntry, KeyKind.decode, hkey]
  rfl

end OneKey

/-! ## The listing -/

/-- What a typed map tells about its entries is what its contents are: the literals of the keys,
each of them once, their number, and under each literal the entry of its key.  The place of an
entry leads to it. -/
structure Listed (kind : KeyKind) (n : Node σ) : Prop where
  literals : (n.keyLiterals : Multiset String) = n.contents.keys.val.map MapKey.literal
  nodup : n.keyLiterals.Nodup
  length : n.entryCount = n.contents.keys.card
  leads : ∀ key, n.get? [.entry key] = n.contents.lookup key
  entry : ∀ literal ∈ n.keyLiterals, ∃ key v, key.literal = literal ∧
    kind.readKey literal = .ok key ∧ n.contents.lookup key = some v ∧
    n.getEntry literal = .ok (some (Contents.place key v))

/-- The keys of the contents are the keys of the entries. -/
theorem keys_contents (hkeys : (Entries.keys entries).Nodup) :
    (map order kind elem entries).contents.keys.val = (Entries.keys entries : Multiset MapKey) := by
  refine (Multiset.Nodup.ext (Finset.nodup _) (Multiset.coe_nodup.2 hkeys)).2 fun key => ?_
  rw [Finset.mem_val, Finmap.mem_keys, contents, Finmap.mem_list_toFinmap]
  simp [Entries.keys]

theorem Keyed.listed (h : n.Keyed order kind elem) : n.Listed kind := by
  cases h with
  | @intro entries ascending admits =>
      have hkeys : (Entries.keys entries).Nodup := ascending.nodup_keys (order.orders kind)
      have hcontents : (map order kind elem entries).contents.keys.val =
          (Entries.keys entries : Multiset MapKey) := keys_contents hkeys
      have hread : ∀ e ∈ entries, kind.readKey e.1.literal = .ok e.1 := fun e he =>
        KeyKind.readKey_literal (admits e he)
      refine ⟨?_, ?_, ?_, fun key => ?_, ?_⟩
      · rw [hcontents, Multiset.map_coe]
        rfl
      · refine List.Nodup.map_on (fun a ha b hb heq => ?_) hkeys
        -- Both keys are what the one literal is read as.
        obtain ⟨e, he, rfl⟩ := List.mem_map.1 ha
        obtain ⟨f, hf, rfl⟩ := List.mem_map.1 hb
        exact Except.ok.inj ((hread e he).symm.trans (heq ▸ hread f hf))
      · rw [Finset.card_def, hcontents, Multiset.coe_card, Entries.keys, List.length_map]
        rfl
      · rw [lookup_contents, get?, child?]
        cases Entries.get? key entries <;> rfl
      · intro literal hliteral
        rw [keyLiterals, Entries.keys, List.map_map, List.mem_map] at hliteral
        obtain ⟨⟨key, v⟩, he, rfl⟩ := hliteral
        have hget := Entries.get?_of_nodup hkeys he
        refine ⟨key, v, rfl, hread _ he, ?_, ?_⟩
        · rw [lookup_contents, hget]
        · show (map order kind elem entries).getEntry key.literal = _
          rw [getEntry_of_key (hread _ he), hget]
          rfl

end Node

namespace Schema

variable {σ : Type} (S : Schema σ) {order : MapOrder} {kind : KeyKind} {elem : Ty} {n : Node σ}
  {entries : List (MapKey × Node σ)} {key : MapKey} {r : MapRequest σ}

/-- A new entry is made for a key that has none. -/
theorem getOrInsert_of_key {literal : String} (hkey : kind.readKey literal = .ok key) :
    S.getOrInsert (.map order kind elem entries) literal =
      .ok (match Entries.get? key entries with
        | some v => (.map order kind elem entries, Contents.place key v)
        | none =>
            (.map order kind elem (Entries.put order.before key (S.zero elem) entries),
              Contents.place key (S.zero elem))) := by
  simp only [getOrInsert, KeyKind.decode, hkey, bind, Except.bind]
  cases Entries.get? key entries <;> rfl

/-- A literal that spells no key is refused, whatever is asked for under it. -/
theorem serveMap_of_error {cause : ConversionError} (hkey : kind.readKey r.literal = .error cause) :
    S.serveMap (.map order kind elem entries) r =
      (.map order kind elem entries,
        .error (.keyNotAddressable r.literal (.notAMapKey cause))) := by
  have hdecode : kind.decode r.literal =
      .error (.keyNotAddressable r.literal (.notAMapKey cause)) := by
    rw [KeyKind.decode, hkey]
  cases haction : r.action <;>
    simp [serveMap, operate, haction, Node.getEntry, getOrInsert, Node.insertEntry,
      Node.removeEntry, hdecode, bind, Except.bind, Functor.map, Except.map]

/-- One request is served by a typed map as by its contents. -/
theorem serveMap_contents (h : n.Keyed order kind elem) (r : MapRequest σ) :
    (S.serveMap n r).1.Keyed order kind elem ∧
      ((S.serveMap n r).1.contents, (S.serveMap n r).2) =
        n.contents.serve kind elem (S.zero elem) r := by
  cases h with
  | @intro entries ascending admits =>
      have hn : (Node.map order kind elem entries).Keyed order kind elem := .intro ascending admits
      cases hkey : kind.readKey r.literal with
      | error cause =>
          rw [S.serveMap_of_error hkey, Contents.serve, hkey]
          exact ⟨hn, rfl⟩
      | ok key =>
          have hadmits : kind.Admits key := KeyKind.admits_of_readKey hkey
          have hlookup : (Node.map order kind elem entries).contents.lookup key =
              Entries.get? key entries := Node.lookup_contents key
          rw [Contents.serve, hkey, serveMap, operate]
          cases r.action with
          | get =>
              simp only [Node.getEntry_of_key hkey, Contents.act, hlookup]
              exact ⟨hn, rfl⟩
          | getOrInsert =>
              simp only [S.getOrInsert_of_key hkey, Contents.act, hlookup]
              cases Entries.get? key entries with
              | some v => exact ⟨hn, rfl⟩
              | none =>
                  rw [← Node.contents_put]
                  exact ⟨hn.put hadmits _, rfl⟩
          | insert value =>
              simp only [Node.insertEntry_of_key hkey, Contents.act, Node.requireType]
              by_cases hty : value.ty = elem
              · simp only [if_pos hty]
                rw [← Node.contents_put]
                exact ⟨hn.put hadmits value, rfl⟩
              · simp only [if_neg hty]
                exact ⟨hn, rfl⟩
          | remove =>
              simp only [Node.removeEntry_of_key hkey, Contents.act, hlookup]
              rw [← Node.contents_erase]
              exact ⟨hn.erase key, rfl⟩

/-- What a typed map does under a literal depends on the key that it spells, and on nothing if it
spells none. -/
structure ReadsKeys (kind : KeyKind) (n : Node σ) : Prop where
  respelled : ∀ literal other key action, kind.readKey literal = .ok key →
    kind.readKey other = .ok key → S.serveMap n ⟨literal, action⟩ = S.serveMap n ⟨other, action⟩
  refused : ∀ r cause, kind.readKey r.literal = .error cause →
    S.serveMap n r = (n, .error (.keyNotAddressable r.literal (.notAMapKey cause)))

theorem readsKeys_of_keyed (h : n.Keyed order kind elem) : S.ReadsKeys kind n := by
  cases h with
  | intro ascending admits =>
      refine ⟨fun literal other key action hkey hother => ?_, fun r cause => S.serveMap_of_error⟩
      rw [serveMap, serveMap, operate, operate]
      cases action with
      | get => simp only [Node.getEntry_of_key hkey, Node.getEntry_of_key hother]
      | getOrInsert => simp only [S.getOrInsert_of_key hkey, S.getOrInsert_of_key hother]
      | insert value => simp only [Node.insertEntry_of_key hkey, Node.insertEntry_of_key hother]
      | remove => simp only [Node.removeEntry_of_key hkey, Node.removeEntry_of_key hother]

/-- A typed map serves any number of requests as a finite map of its keys does, with the same
answers and the same contents at the end.  All spellings of one key are the same to it, and a
literal that spells none is refused and changes nothing.  It lists each of its keys once, by the
canonical literal, under which the entry of that key is found. -/
theorem inTurn_serveMap (h : n.Keyed order kind elem) (requests : List (MapRequest σ)) :
    let run := inTurn S.serveMap n requests
    (run.1.contents, run.2) =
        inTurn (Contents.serve kind elem (S.zero elem)) n.contents requests ∧
      S.ReadsKeys kind run.1 ∧ run.1.Listed kind := by
  intro run
  obtain ⟨hkeyed, hserved⟩ := inTurn_view (fun a r ha => (S.serveMap_contents ha r).1)
    (fun a r ha => (S.serveMap_contents ha r).2) h requests
  exact ⟨hserved, S.readsKeys_of_keyed hkeyed, hkeyed.listed⟩

/-- Ports with their names. -/
def portNames : Node Unit :=
  .map .hashed (.int .u16) (.scalar .string)
    [(.int 443, .scalar (.text "https")), (.int 80, .scalar (.text "http"))]

theorem keyed_portNames : portNames.Keyed .hashed (.int .u16) (.scalar .string) :=
  .intro (List.pairwise_pair.2 (by decide))
    (List.forall_mem_cons.2 ⟨show IntKind.u16.Contains 443 by decide,
      List.forall_mem_singleton.2 (show IntKind.u16.Contains 80 by decide)⟩)

/-- A port in another spelling, a new port that is spelled by nothing, a name that is no port,
and a port that is closed. -/
theorem inTurn_serveMap_portNames :
    let requests : List (MapRequest Unit) :=
      [⟨"+080", .get⟩, ⟨"", .getOrInsert⟩, ⟨"eighty", .remove⟩, ⟨"00443", .remove⟩]
    let run := inTurn (empty ()).serveMap portNames requests
    portNames.Keyed .hashed (.int .u16) (.scalar .string) ∧
      run.2 = (inTurn (Contents.serve (.int .u16) (.scalar .string) (.scalar (.text "")))
        portNames.contents requests).2 ∧
      run.1.keyLiterals = ["0", "80"] ∧ run.1.contents.keys.card = 2 := by
  intro requests run
  obtain ⟨hserved, -, hlisted⟩ := inTurn_serveMap (empty ()) keyed_portNames requests
  have hliterals : run.1.keyLiterals = ["0", "80"] := by decide +kernel
  have hcount : run.1.entryCount = 2 := by decide +kernel
  exact ⟨keyed_portNames, (Prod.ext_iff.1 hserved).2, hliterals, hlisted.length.symm.trans hcount⟩

end Schema

end TreeSync

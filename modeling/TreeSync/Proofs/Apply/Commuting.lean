import TreeSync.Proofs.Apply.Frames

/-!
# Independent events commute

Two events whose addresses part at a record, a map or a document, and lead to
different fields or entries there, do not notice each other: the target is the
same in whatever order they come, also where one of them deletes what the other
one makes, or fails half-way.

Main definitions and results:

- `Node.Apart`: two keys that lead to different children of a container.
- `Schema.Parts`: the way to the container at which two addresses part.
- `Schema.StepsTo` and `Schema.carried_step`: one step of the way.
- `Schema.walk_independent`: the induction along the common prefix.
- `Schema.apply_comm`: independent events commute.
-/

namespace TreeSync

open Node

variable {σ : Type}

/-- The address of an event: its path followed by its key. -/
def Event.address (e : Event) : List String :=
  e.path ++ [e.key]

/-- A change that fails and leaves everything as it is is independent of others. -/
theorem Independent.of_idle {α : Type} {strict : Prop} {f g : Node σ → Node σ × α} {n : Node σ}
    {r : α} (hn : f n = (n, r)) (hg : f (g n).1 = ((g n).1, r)) : Independent strict f g n := by
  constructor
  · rw [hg, hn]
  · intro _
    rw [hg, hn]
  · intro _
    rw [hn]

theorem Independent.symm {α : Type} {strict : Prop} {f g : Node σ → Node σ × α} {n : Node σ}
    (h : Independent strict f g n) : Independent strict g f n :=
  ⟨h.commute.symm, h.right, h.left⟩

theorem Independent.weaken {α : Type} {strict : Prop} {f g : Node σ → Node σ × α} {n : Node σ}
    (h : Independent True f g n) : Independent strict f g n :=
  ⟨h.commute, fun _ => h.left trivial, fun _ => h.right trivial⟩

/-- Changes of different fields are independent. -/
theorem Independent.of_fields {α : Type} {strict : Prop} {f g : Node σ → Node σ × α}
    {n v w : Node σ} {i j : Nat} {x y : Node σ × α} (hne : i ≠ j) (hv : n.child? (.field i) = some v)
    (hw : n.child? (.field j) = some w) (hf : f n = n.putBack [.field i] x)
    (hg : g n = n.putBack [.field j] y)
    (hfg : (g n).1.child? (.field i) = some v → f (g n).1 = (g n).1.putBack [.field i] x)
    (hgf : (f n).1.child? (.field j) = some w → g (f n).1 = (f n).1.putBack [.field j] y) :
    Independent strict f g n := by
  rw [putBack_field hv] at hf
  rw [putBack_field hw] at hg
  have hvg : (g n).1.child? (.field i) = some v := by
    rw [hg, child?_putField_of_ne n hne.symm]
    exact hv
  have hwf : (f n).1.child? (.field j) = some w := by
    rw [hf, child?_putField_of_ne n hne]
    exact hw
  have hleft := hfg hvg
  have hright := hgf hwf
  rw [putBack_field hvg] at hleft
  rw [putBack_field hwf] at hright
  constructor
  · rw [hleft, hright, hf, hg]
    exact putField_comm n hne x.1 y.1
  · intro _
    rw [hleft, hf]
  · intro _
    rw [hright, hg]

/-- Changes of different entries are independent. -/
theorem Independent.of_entries {α : Type} {strict : Prop}
    {f g : Node σ → Node σ × α} {kind : KeyKind} {elem : Ty} {entries : List (MapKey × Node σ)}
    {S : Schema σ} {c : Node σ} {k l : MapKey}
    {x y : Option (Node σ) → Option (Node σ) × α} (hc : S.Typed False c)
    (hmap : c.container = .map kind elem entries) (hk : kind.Admits k) (hl : kind.Admits l)
    (hne : k ≠ l) (hf : f c = Schema.changeEntry c k x) (hg : g c = Schema.changeEntry c l y)
    (hfg : f (g c).1 = Schema.changeEntry (g c).1 k x)
    (hgf : g (f c).1 = Schema.changeEntry (f c).1 l y) :
    Independent strict f g c := by
  have hseen : (g c).1.child? (.entry k) = c.child? (.entry k) := by
    rw [hg]
    exact child?_alterEntry_of_ne hmap hne _
  have hseen' : (f c).1.child? (.entry l) = c.child? (.entry l) := by
    rw [hf]
    exact child?_alterEntry_of_ne hmap hne.symm _
  rw [Schema.changeEntry, hseen] at hfg
  rw [Schema.changeEntry, hseen'] at hgf
  constructor
  · rw [hfg, hgf, hf, hg]
    exact alterEntry_comm hc hmap hk hl hne _ _
  · intro _
    rw [hfg, hf]
    rfl
  · intro _
    rw [hgf, hg]
    rfl

namespace Node

/-- The position of the field that a key leads to, with or without text behind
the name. -/
def fieldOfKey? (o : Options) (key : String) (fields : List (Field × Node σ)) : Option Nat :=
  match Key.splitField key with
  | .ok (name, _) => Field.index? o name (fields.map Prod.fst)
  | .error _ => none

/-- The container is a record or a map, and two keys lead to different children
of it, as far as they lead anywhere. -/
def Apart (o : Options) (left right : String) (c : Node σ) : Prop :=
  match c.container with
  | .record _ fields =>
      ∀ i, fieldOfKey? o left fields = some i → fieldOfKey? o right fields = some i → False
  | .map kind _ _ => ∀ k, kind.readKey left = .ok k → kind.readKey right = .ok k → False
  | _ => False

end Node

namespace Schema

variable (S : Schema σ) (o : Options)

/-- The node that an event is at after a step that makes what is missing. -/
def made? (n : Node σ) (key : String) : Option (Node σ) :=
  match S.enter o .create n key with
  | (m, .ok a) => m.get? a
  | (_, .error _) => none

/-- A step from a container leads into no list, neither by the key itself nor by
the text behind a field name. -/
def AvoidsLists (c : Node σ) (key : String) : Prop :=
  match c.container with
  | .record type fields =>
      ∀ name text place, Key.splitField key = .ok (name, text) → text ≠ "" →
        c.fieldPlace o false type fields name = .ok place →
          ∀ elem items, (S.allocate place.node).innermost.container ≠ .list elem items
  | .list .. => False
  | _ => True

/-- A path leads, through no list and over nodes that are there or can be made,
to a container at which two keys part. -/
def Parts (left right : String) (n : Node σ) : List String → Prop
  | [] => Apart o left right (S.promote n).innermost
  | key :: rest =>
      S.AvoidsLists o (S.promote n).innermost key ∧
        ∃ child, S.made? o n key = some child ∧ Parts left right child rest

variable {S o} {n c v x : Node σ} {e : Event} {key : String}

/-! ## The child of a creating step -/

theorem made_promote (hS : S.Sound False) (n : Node σ) (key : String) :
    S.made? o n key = S.made? o (S.promote n).innermost key := by
  have hready := S.ready_innermost_promote n
  have hstep := findOrCreate_withCore hS (o := o) hready.bare (S.promote n) key (.ofKey o key)
  rw [withCore_innermost] at hstep
  rw [made?, made?, enter_of_ne (by decide), enter_of_ne (by decide), hstep,
    promote_of_ready hready]
  rcases S.findOrCreate o (S.promote n).innermost key (.ofKey o key) with ⟨m, _ | a⟩
  · rfl
  · exact get?_withCore_append _ m a

/-- What a creating step makes from a bare container. -/
theorem made_of_ready (hS : S.Sound False) (hc : S.Typed False c) (hready : Ready c)
    (h : S.made? o c key = some x) :
    ∃ m a v, S.createChild o c key (.ofKey o key) = (m, .ok a) ∧ m.get? a = some v ∧
      S.Typed False v ∧ x = (S.allocate v).innermost := by
  have hkeeps := keeps_createChild hS (o := o) c key (.ofKey o key)
  rw [made?, enter_of_ne (by decide), promote_of_ready hready, findOrCreate] at h
  simp only [S.allocate_of_bare hready.bare, innermost_of_bare hready.bare,
    coreAddress_of_bare hready.bare, putBack, replaceAt, List.nil_append] at h
  rcases hm : S.createChild o c key (.ofKey o key) with ⟨m, _ | a⟩
  · simp [hm] at h
  · simp only [hm] at h hkeeps
    cases hv : m.get? a with
    | none => simp [hv] at h
    | some v =>
        have hallocate := keeps_allocate hS v
        simp only [hv, get?_replaceAt_append hv hallocate.ty_eq, get?_coreAddress] at h
        exact ⟨m, a, v, rfl, hv, (hkeeps.typed hc).get hv, (Option.some.inj h).symm⟩

theorem typed_of_made (hS : S.Sound False) (hc : S.Typed False c) (hready : Ready c)
    (h : S.made? o c key = some x) : S.Typed False x := by
  rcases made_of_ready hS hc hready h with ⟨m, a, v, -, -, hv, rfl⟩
  exact ((keeps_allocate hS v).typed hv).innermost

/-! ## One step of the common way -/

section Step

variable {kind : KeyKind} {elem : Ty} {entries : List (MapKey × Node σ)} {text : String}
  {mode : Mode} {m : Node σ} {a : Address} {left right : Event} {p q : List String}
  {R : (Node σ → Node σ × Except SyncError Unit) → (Node σ → Node σ × Except SyncError Unit) →
    Node σ → Prop}

/-- A creating step from a container, through no list, to a child of it: a field, an entry
of the map that a field holds, or an entry of the container itself.  A missing entry is
made. -/
inductive StepsTo (S : Schema σ) (o : Options) (c : Node σ) (key : String) : Node σ → Prop
  | field {type : String} {fields : List (Field × Node σ)} {i : Nat} {text : String}
      {v : Node σ} (record : c.container = .record type fields)
      (slot : S.slotOf? o false type key = .ok (i, text)) (plain : text.isEmpty = true)
      (child : c.child? (.field i) = some v) : StepsTo S o c key v
  | suffix {type : String} {fields : List (Field × Node σ)} {i : Nat} {text : String}
      {u : Node σ} {kind : KeyKind} {elem : Ty} {entries : List (MapKey × Node σ)} {k : MapKey}
      (record : c.container = .record type fields)
      (slot : S.slotOf? o false type key = .ok (i, text)) (qualified : text.isEmpty = false)
      (child : c.child? (.field i) = some u)
      (map : (S.allocate u).innermost.container = .map kind elem entries)
      (spells : entryKey kind text = .ok k) :
      StepsTo S o c key (S.entryOrNew elem (S.allocate u).innermost k)
  | entry {kind : KeyKind} {elem : Ty} {entries : List (MapKey × Node σ)} {k : MapKey}
      (map : c.container = .map kind elem entries) (spells : entryKey kind key = .ok k) :
      StepsTo S o c key (S.entryOrNew elem c k)

/-- At a map a creating step makes the entry that the key spells. -/
theorem made_entry (h : c.container = .map kind elem entries)
    (hcreate : S.createItem o c text mode = (m, .ok a)) (hv : m.get? a = some v) :
    ∃ k, entryKey kind text = .ok k ∧ v = S.entryOrNew elem c k := by
  rw [createItem_of_map h] at hcreate
  cases hk : entryKey kind text with
  | error err => simp [hk] at hcreate
  | ok k =>
      refine ⟨k, rfl, ?_⟩
      rw [entryOrNew]
      simp only [hk] at hcreate
      cases hchild : c.child? (.entry k) with
      | some w =>
          simp only [hchild, Prod.mk.injEq, Except.ok.injEq] at hcreate
          rcases hcreate with ⟨rfl, rfl⟩
          rw [Node.get?, hchild] at hv
          exact (Option.some.inj hv).symm
      | none =>
          simp only [hchild, Prod.mk.injEq, Except.ok.injEq] at hcreate
          rcases hcreate with ⟨rfl, rfl⟩
          rw [Node.get?, child?_putEntry h (admits_of_entryKey hk) (S.ty_zero elem)] at hv
          exact (Option.some.inj hv).symm

/-- Text behind a field name that does not lead into a list leads into a map. -/
theorem map_of_createItem (hlist : ∀ elem items, c.container ≠ .list elem items)
    (hcreate : (S.createItem o c text mode).2 = .ok a) :
    ∃ kind elem entries, c.container = .map kind elem entries := by
  rw [createItem] at hcreate
  cases hcontainer : c.container with
  | map kind elem entries => exact ⟨kind, elem, entries, rfl⟩
  | list elem items => exact absurd hcontainer (hlist elem items)
  | _ => simp [hcontainer] at hcreate

/-- The field that a key with text behind the name leads to holds no list. -/
theorem AvoidsLists.suffix (h : S.AvoidsLists o c key) (hc : S.Typed False c) {type : String}
    {fields : List (Field × Node σ)} (hrecord : c.container = .record type fields) {i : Nat}
    (hslot : S.slotOf? o false type key = .ok (i, text)) (hv : c.child? (.field i) = some v)
    (htext : text ≠ "") (elem : Ty) (items : List (Node σ)) :
    (S.allocate v).innermost.container ≠ .list elem items := by
  rw [AvoidsLists, hrecord] at h
  rcases bind_eq_ok.1 hslot with ⟨-, -, hsplit⟩
  rcases bind_eq_ok.1 hsplit with ⟨⟨name, behind⟩, hname, hfield⟩
  rcases bind_eq_ok.1 hfield with ⟨j, hj, hpair⟩
  obtain ⟨rfl, rfl⟩ := Prod.mk.inj (Except.ok.inj hpair)
  have hplace := fieldPlace_record hc hrecord o false name
  rw [hj] at hplace
  rcases hplace with ⟨u, hu, hplace⟩
  obtain rfl := Option.some.inj (hv.symm.trans hu)
  rw [if_neg (Bool.eq_false_iff.1 (hc.child hv).isEnclosing_eq_false)] at hplace
  exact h name behind _ hname htext hplace elem items

/-- At a record a creating step leads to a field or into the map that it holds. -/
theorem stepsTo_field (hS : S.Sound False) (hc : S.Typed False c) {type : String}
    {fields : List (Field × Node σ)} (hrecord : c.container = .record type fields)
    (hlists : S.AvoidsLists o c key)
    (hcreate : S.createChild o c key (.ofKey o key) = (m, .ok a)) (hv : m.get? a = some v) :
    S.StepsTo o c key v := by
  have hstep := createChild_record hc hrecord o key (.ofKey o key)
  cases hslot : S.slotOf? o false type key with
  | error err =>
      rw [hslot] at hstep
      rw [hstep] at hcreate
      simp at hcreate
  | ok slot =>
      obtain ⟨i, text⟩ := slot
      rw [hslot] at hstep
      rcases hstep with ⟨u, hu, hstep⟩
      rw [hstep (hc.child hu).isEnclosing_eq_false] at hcreate
      by_cases htext : text.isEmpty = true
      · rw [if_pos htext, Prod.mk.injEq, Except.ok.injEq] at hcreate
        rcases hcreate with ⟨rfl, rfl⟩
        rw [Node.get?, hu] at hv
        obtain rfl := Option.some.inj hv
        exact .field hrecord hslot htext hu
      · rw [if_neg htext, Prod.mk.injEq] at hcreate
        rcases hcreate with ⟨rfl, hcreate⟩
        rcases map_eq_ok.1 hcreate with ⟨b, hb, rfl⟩
        have hitem := keeps_createItem hS (o := o) (S.allocate u).innermost text .content
        have hmade := (keeps_allocate hS u).trans hitem.withCore
        rw [get?_putField hu hmade.ty_eq] at hv
        rcases map_of_createItem (hlists.suffix hc hrecord hslot hu (by simpa using htext)) hb with
          ⟨kind, elem, entries, hcontainer⟩
        rcases made_entry hcontainer (Prod.ext rfl hb) hv with ⟨k, hk, rfl⟩
        exact .suffix hrecord hslot (by simpa using htext) hu hcontainer hk

/-- A creating step that leads through no list ends below the layers of a child. -/
theorem stepsTo_of_made (hS : S.Sound False) (hc : S.Typed False c) (hready : Ready c)
    (hlists : S.AvoidsLists o c key) (hmade : S.made? o c key = some x) :
    ∃ v, S.StepsTo o c key v ∧ S.Typed False v ∧ x = (S.allocate v).innermost := by
  rcases made_of_ready hS hc hready hmade with ⟨m, a, v, hcreate, hv, htyped, rfl⟩
  refine ⟨v, ?_, htyped, rfl⟩
  cases hcontainer : c.container with
  | record type fields => exact stepsTo_field hS hc hcontainer hlists hcreate hv
  | map kind elem entries =>
      rw [createChild, hcontainer] at hcreate
      rcases made_entry hcontainer hcreate hv with ⟨k, hk, rfl⟩
      exact .entry hcontainer hk
  | list elem items =>
      rw [AvoidsLists, hcontainer] at hlists
      exact hlists.elim
  | fixed => simp [createChild, createItem, hcontainer] at hcreate
  | leaf => simp [createChild, createItem, hcontainer] at hcreate

/-- What holds of two events in the child of a step holds where the step starts. -/
theorem carried_step (hR : Carried left right R) (hS : S.Sound False)
    (hzero : left.action = .delete ∨ right.action = .delete → S.ZeroDefaults)
    (hc : S.Typed False c) (hready : Ready c) (hlists : S.AvoidsLists o c key)
    (hmade : S.made? o c key = some x) (h : R (S.walk o left · p) (S.walk o right · q) x) :
    R (S.walk o left · (key :: p)) (S.walk o right · (key :: q)) c := by
  have hl := fun haction => hzero (.inl haction)
  have hr := fun haction => hzero (.inr haction)
  rcases stepsTo_of_made hS hc hready hlists hmade with ⟨v, hstep, hv, rfl⟩
  have hchild : R (S.walk o left · p) (S.walk o right · q) v :=
    hR (layersFrame hS hl hv p) (layersFrame hS hr hv q) h
  cases hstep with
  | field hrecord hslot htext hfield =>
      exact hR (fieldFrame hS hc hrecord hslot hfield left p)
        (fieldFrame hS hc hrecord hslot hfield right q)
        (hR (plainFrame htext left p v) (plainFrame htext right q v) hchild)
  | suffix hrecord hslot htext hfield hmap hk =>
      have hu := hc.child hfield
      exact hR (fieldFrame hS hc hrecord hslot hfield left p)
        (fieldFrame hS hc hrecord hslot hfield right q)
        (hR (suffixFrame hS hl hu htext hmap hk p) (suffixFrame hS hr hu htext hmap hk q) hchild)
  | entry hmap hk => exact hR (mapFrame hS hl hc hmap hk p) (mapFrame hS hr hc hmap hk q) hchild

end Step

/-! ## Where the addresses part -/

section Parting

variable {type : String} {kind : KeyKind} {elem : Ty} {left right : Event} {s t : String}
  {p q : List String}

/-- The field that a key leads to is decided by the name in front of the text. -/
theorem fieldOfKey_of_slot (hc : S.Typed False c) {fields : List (Field × Node σ)}
    (hrecord : c.container = .record type fields) {write : Bool} {i : Nat} {text : String}
    (hslot : S.slotOf? o write type key = .ok (i, text)) :
    fieldOfKey? o key fields = some i := by
  rcases eq_record_of_container hrecord with ⟨state, rfl⟩
  have hnames := names_of_typed hc
  rcases bind_eq_ok.1 hslot with ⟨-, -, hsplit⟩
  rcases bind_eq_ok.1 hsplit with ⟨⟨name, behind⟩, hname, hfield⟩
  rcases bind_eq_ok.1 hfield with ⟨j, hj, hpair⟩
  obtain ⟨rfl, rfl⟩ := Prod.mk.inj (Except.ok.inj hpair)
  rw [fieldOf?, ← hnames] at hj
  rw [fieldOfKey?]
  simp only [hname]
  cases hindex : Field.index? o name (fields.map Prod.fst) with
  | none => simp [hindex] at hj
  | some i =>
      simp only [hindex] at hj
      split at hj
      · simp at hj
      · split at hj
        · simp at hj
        · exact congrArg some (Except.ok.inj hj)

/-- Events that lead to different fields of a record are independent. -/
theorem independent_of_record (hS : S.Sound False) (hc : S.Typed False c)
    {fields : List (Field × Node σ)} (hrecord : c.container = .record type fields)
    (hapart : Apart o s t c) (hleft : (p ++ [left.key]).head? = some s)
    (hright : (q ++ [right.key]).head? = some t) :
    Independent True (S.walk o left · p) (S.walk o right · q) c := by
  rw [Apart, hrecord] at hapart
  rcases record_of_keeps (keeps_walk hS (o := o) left c p) hc hrecord with
    ⟨hl, others, hleftRecord⟩
  rcases record_of_keeps (keeps_walk hS (o := o) right c q) hc hrecord with
    ⟨hr, others', hrightRecord⟩
  rcases walk_at_record hS (o := o) type hleft with ⟨r, hidle⟩ | ⟨i, text, f, hi, hf⟩
  · exact .of_idle (hidle c fields hc hrecord) (hidle _ _ hr hrightRecord)
  · rcases walk_at_record hS (o := o) type hright with ⟨r, hidle⟩ | ⟨j, text', g, hj, hg⟩
    · exact (Independent.of_idle (hidle c fields hc hrecord) (hidle _ _ hl hleftRecord)).symm
    · rcases hf c fields hc hrecord with ⟨v, hv, hfc⟩
      rcases hg c fields hc hrecord with ⟨w, hw, hgc⟩
      have hne : i ≠ j := by
        rintro rfl
        exact hapart i (fieldOfKey_of_slot hc hrecord hi) (fieldOfKey_of_slot hc hrecord hj)
      refine .of_fields hne hv hw hfc hgc ?_ ?_
      · intro hchild
        rcases hf _ _ hr hrightRecord with ⟨u, hu, hstep⟩
        obtain rfl := Option.some.inj (hchild.symm.trans hu)
        exact hstep
      · intro hchild
        rcases hg _ _ hl hleftRecord with ⟨u, hu, hstep⟩
        obtain rfl := Option.some.inj (hchild.symm.trans hu)
        exact hstep

/-- A map stays a map of its kind. -/
theorem map_of_walk (hS : S.Sound False) (hc : S.Typed False c)
    {entries : List (MapKey × Node σ)} (hmap : c.container = .map kind elem entries)
    {path : List String} (hhead : (path ++ [e.key]).head? = some key) :
    ∃ others, (S.walk o e c path).1.container = .map kind elem others := by
  rcases walk_at_map hS (o := o) kind elem hhead with ⟨r, hidle⟩ | ⟨k, change, -, hchange⟩
  · rw [hidle c entries hc hmap]
    exact ⟨entries, hmap⟩
  · rw [hchange c entries hc hmap]
    exact container_alterEntry hmap k _

/-- Events that lead to different entries of a map are independent. -/
theorem independent_of_map (hS : S.Sound False) (hc : S.Typed False c)
    {entries : List (MapKey × Node σ)} (hmap : c.container = .map kind elem entries)
    (hapart : Apart o s t c) (hleft : (p ++ [left.key]).head? = some s)
    (hright : (q ++ [right.key]).head? = some t) :
    Independent True (S.walk o left · p) (S.walk o right · q) c := by
  rw [Apart, hmap] at hapart
  have hl := (keeps_walk hS (o := o) left c p).typed hc
  have hr := (keeps_walk hS (o := o) right c q).typed hc
  rcases walk_at_map hS (o := o) kind elem hleft with ⟨r, hidle⟩ | ⟨k, f, hk, hf⟩
  · rcases map_of_walk hS hc hmap hright with ⟨others, hrightMap⟩
    exact .of_idle (hidle c entries hc hmap) (hidle _ _ hr hrightMap)
  · rcases map_of_walk hS hc hmap hleft with ⟨others, hleftMap⟩
    rcases walk_at_map hS (o := o) kind elem hright with ⟨r, hidle⟩ | ⟨l, g, hl', hg⟩
    · exact (Independent.of_idle (hidle c entries hc hmap) (hidle _ _ hl hleftMap)).symm
    · rcases map_of_walk hS hc hmap hright with ⟨others', hrightMap⟩
      have hne : k ≠ l := by
        rintro rfl
        exact hapart k (entryKey_eq_ok.1 hk).2 (entryKey_eq_ok.1 hl').2
      exact .of_entries hc hmap (admits_of_entryKey hk) (admits_of_entryKey hl') hne
        (hf c entries hc hmap) (hg c entries hc hmap) (hf _ _ hr hrightMap) (hg _ _ hl hleftMap)

/-- Events that part at a container lead to different children of it. -/
theorem independent_of_apart (hS : S.Sound False) (hc : S.Typed False c)
    (hapart : Apart o s t c) (hleft : (p ++ [left.key]).head? = some s)
    (hright : (q ++ [right.key]).head? = some t) :
    Independent True (S.walk o left · p) (S.walk o right · q) c := by
  cases hcontainer : c.container with
  | record type fields => exact independent_of_record hS hc hcontainer hapart hleft hright
  | map kind elem entries => exact independent_of_map hS hc hcontainer hapart hleft hright
  | list elem items =>
      rw [Apart, hcontainer] at hapart
      exact hapart.elim
  | fixed =>
      rw [Apart, hcontainer] at hapart
      exact hapart.elim
  | leaf =>
      rw [Apart, hcontainer] at hapart
      exact hapart.elim

end Parting

/-! ## The common way -/

/-- Along the common way independence is carried up from the container at which
the addresses part. -/
theorem walk_independent (hzero : S.ZeroDefaults) (hn : S.Typed False n) {left right : Event}
    {s t : String} {common p q : List String} (hparts : S.Parts o s t n common)
    (hleft : (p ++ [left.key]).head? = some s) (hright : (q ++ [right.key]).head? = some t) :
    Independent (left.action ≠ .delete ∧ right.action ≠ .delete)
      (S.walk o left · (common ++ p)) (S.walk o right · (common ++ q)) n := by
  have hS := hzero.sound
  have hR : Carried left right
      (Independent (σ := σ) (α := Except SyncError Unit)
        (left.action ≠ .delete ∧ right.action ≠ .delete)) := .carried And.left And.right
  induction common generalizing n with
  | nil =>
      have hc := ((keeps_promote hS n).typed hn).innermost
      exact carried_promote hR hS (fun _ => hzero) hn
        (independent_of_apart hS hc hparts hleft hright).weaken
  | cons key rest ih =>
      rcases hparts with ⟨hlists, child, hmade, hrest⟩
      have hc := ((keeps_promote hS n).typed hn).innermost
      have hready := S.ready_innermost_promote n
      rw [made_promote hS] at hmade
      have hchild := typed_of_made hS hc hready hmade
      exact carried_promote hR hS (fun _ => hzero) hn
        (carried_step hR hS (fun _ => hzero) hc hready hlists hmade (ih hchild hrest))

/-- The path of an event up to where its address leaves a common prefix, and the
segment that comes next. -/
theorem path_of_address {common below : List String} {s : String}
    (h : e.address = common ++ s :: below) :
    ∃ p, e.path = common ++ p ∧ (p ++ [e.key]).head? = some s := by
  rw [Event.address] at h
  rcases List.append_eq_append_iff.1 h with ⟨p, hcommon, hp⟩ | ⟨p, hpath, hp⟩
  · cases p with
    | nil =>
        rw [List.append_nil] at hcommon
        rw [List.nil_append] at hp
        exact ⟨[], by rw [hcommon, List.append_nil], by rw [List.nil_append, hp]; rfl⟩
    | cons first rest => simp at hp
  · exact ⟨p, hpath, by rw [← hp]; rfl⟩

/-- Events whose addresses part at a container, and lead to different children of
it, commute; if both create or replace, neither notices the other. -/
theorem apply_comm (hzero : S.ZeroDefaults) (hfree : S.OverrideFree) {target : Node σ}
    (htarget : S.Typed False target) {left right : Event} (hl : left.isRoot = false)
    (hr : right.isRoot = false) {common below below' : List String} {s t : String}
    (hleft : left.address = common ++ s :: below)
    (hright : right.address = common ++ t :: below') (hparts : S.Parts o s t target common) :
    (S.apply o left (S.apply o right target).1).1 =
        (S.apply o right (S.apply o left target).1).1 ∧
      (left.action ≠ .delete → right.action ≠ .delete →
        (S.apply o left (S.apply o right target).1).2 = (S.apply o left target).2 ∧
          (S.apply o right (S.apply o left target).1).2 = (S.apply o right target).2) := by
  have hS := hzero.sound
  have happly : ∀ e m, Event.isRoot e = false → S.Typed False m →
      S.apply o e m = S.walk o e m e.path :=
    fun e m he hm => apply_of_silent hm (hfree.silent m) he
  rcases path_of_address hleft with ⟨p, hp, hs⟩
  rcases path_of_address hright with ⟨q, hq, ht⟩
  have hlefts := (keeps_walk hS (o := o) left target left.path).typed htarget
  have hrights := (keeps_walk hS (o := o) right target right.path).typed htarget
  have h := walk_independent hzero htarget hparts hs ht
  rw [← hp, ← hq] at h
  rw [happly left target hl htarget, happly right target hr htarget, happly left _ hl hrights,
    happly right _ hr hlefts]
  exact ⟨h.commute, fun hactl hactr => ⟨h.left ⟨hactl, hactr⟩, h.right ⟨hactl, hactr⟩⟩⟩

/-- A record type with limits by name, which a new record does not hold yet. -/
def quota : Schema Unit :=
  (empty ()).declare "Quota"
    [(⟨"limits", some "max", true, by decide, by decide⟩,
      .option (.map .sorted .string (.scalar (.int .u8))))] ()

theorem zeroDefaults_quota : quota.ZeroDefaults := by
  intro d hd f hf
  obtain rfl := List.mem_singleton.1 hd
  obtain rfl := List.mem_singleton.1 hf
  rfl

theorem overrideFree_quota : quota.OverrideFree := by
  intro d hd state
  obtain rfl := List.mem_singleton.1 hd
  rfl

theorem avoidsLists_quota :
    quota.AvoidsLists {} (quota.promote (quota.zero (.record "Quota"))).innermost "limits" := by
  intro name text place hsplit htext
  obtain ⟨-, rfl⟩ : name = "limits" ∧ text = "" := by
    have hname : Key.splitField "limits" = .ok ("limits", "") := by rfl
    rw [hname] at hsplit
    exact ⟨(Prod.mk.inj (Except.ok.inj hsplit)).1.symm,
      (Prod.mk.inj (Except.ok.inj hsplit)).2.symm⟩
  exact absurd rfl htext

/-- One event makes the limits and one entry, the other finds nothing to delete
there: it fails only where it comes first, and the target is the same. -/
theorem apply_comm_quota :
    let target := quota.zero (.record "Quota")
    let make : Event := ⟨.create, ["limits"], "cpu", .scalar .int, "7", none⟩
    let drop : Event := ⟨.delete, ["limits"], "mem", .scalar .null, "", none⟩
    (quota.apply {} drop target).2.isOk = false ∧
    (quota.apply {} drop (quota.apply {} make target).1).2.isOk = true ∧
    (quota.apply {} make (quota.apply {} drop target).1).1 =
      (quota.apply {} drop (quota.apply {} make target).1).1 := by
  intro target make drop
  have hapart : Apart {} "cpu" "mem"
      (quota.promote (.map .sorted .string (.scalar (.int .u8)) [])).innermost := by
    intro k hcpu hmem
    obtain rfl := Except.ok.inj hcpu
    exact absurd (MapKey.text.inj (Except.ok.inj hmem)) (by decide)
  have hmake : make.address = ["limits"] ++ "cpu" :: [] := rfl
  have hdrop : drop.address = ["limits"] ++ "mem" :: [] := rfl
  refine ⟨by decide +kernel, by decide +kernel, ?_⟩
  exact (apply_comm zeroDefaults_quota overrideFree_quota (typed_zero zeroDefaults_quota.sound _)
    rfl rfl hmake hdrop ⟨avoidsLists_quota, _, by rfl, hapart⟩).1

end Schema

end TreeSync

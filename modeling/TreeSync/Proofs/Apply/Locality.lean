import TreeSync.Proofs.Apply.Walking
import TreeSync.Proofs.Node.Altering

/-!
# What an event does at a container

At a record an event changes the one field that its key leads to, and at a map the
one entry that its key spells.  The new content and the outcome depend only on what
stood there before.  At a record that is a field of itself this holds for the keys
that lead to other fields.

Main definitions and results:

- `Schema.walkItem`: a step through a map or a list.
- `Schema.walk_field_delete`, `Schema.walk_field_create`, `Schema.perform_field`:
  events at records.
- `Schema.walkItem_entry`, `Schema.perform_entry`: events at maps.
- `Schema.child?_walk_of_ne`: the other fields of a record.
- `Schema.walk_at_record`, `Schema.walk_at_map`: the next segment in a tree.
-/

namespace TreeSync

namespace Node

variable {σ α : Type} {n c : Node σ}

/-- Putting back along `a ++ b` is putting back along `b` in what `a` leads to. -/
theorem putBack_append {a b : Address} (h : n.get? a = some c) (r : Node σ × α) :
    n.putBack (a ++ b) r = n.putBack a (c.putBack b r) :=
  Prod.ext (replaceAt_append h r.1) rfl

theorem putBack_of_bare (hn : n.Bare) (r : Node σ × α) : n.putBack n.coreAddress r = r := by
  rw [coreAddress_of_bare hn]
  rfl

theorem putBack_field {i : Nat} (h : n.child? (.field i) = some c) (r : Node σ × α) :
    n.putBack [.field i] r = (n.putChild (.field i) r.1, r.2) := by
  simp only [putBack, replaceAt, h]

/-- Putting an unchanged descendant back changes nothing. -/
theorem putBack_self {S : Schema σ} {loops : Prop} (hn : S.Typed loops n) {a : Address}
    (h : n.get? a = some c) (r : α) : n.putBack a (c, r) = (n, r) :=
  Prod.ext (hn.replaceAt_self h) rfl

/-- Below a field with new content stands what stands below the content. -/
theorem get?_putField {v m x : Node σ} {i : Nat} (hv : c.child? (.field i) = some v)
    (hty : (m.withCore x).ty = v.ty) (b : Address) :
    (c.putChild (.field i) (m.withCore x)).get? (.field i :: m.coreAddress ++ b) = x.get? b := by
  rw [List.cons_append, get?, child?_putChild hv hty, Option.bind_some, get?_withCore_append]

/-- Putting back below a field with new content. -/
theorem putBack_putField {v m x : Node σ} {i : Nat} (hv : c.child? (.field i) = some v)
    (hty : (m.withCore x).ty = v.ty) {b : Address} {r : Node σ × α}
    (hr : (m.withCore (x.replaceAt b r.1)).ty = v.ty) :
    (c.putChild (.field i) (m.withCore x)).putBack (.field i :: m.coreAddress ++ b) r =
      c.putBack [.field i] (m.putBack m.coreAddress (x.putBack b r)) := by
  rw [putBack_field hv]
  refine Prod.ext ?_ rfl
  simp only [putBack, replaceAt, List.cons_append, child?_putChild hv hty,
    withCore_replaceAt_append]
  exact putChild_putChild hv hty hr

end Node

namespace Schema

open Node

variable {σ : Type} {S : Schema σ} {o : Options} {loops : Prop} {e : Event} {n c : Node σ}
  {key : String} {rest : List String}

/-- The keys that a literal spells for a map; the empty literal spells none. -/
def entryKey (kind : KeyKind) (literal : String) : Except NavError MapKey :=
  Key.require literal >>= fun _ => kind.decode literal

theorem admits_of_entryKey {kind : KeyKind} {literal : String} {k : MapKey}
    (h : entryKey kind literal = .ok k) : kind.Admits k := by
  rcases bind_eq_ok.1 h with ⟨-, -, hdecode⟩
  exact admits_of_decode hdecode

/-- A literal spells the key that it reads as, and no other. -/
theorem entryKey_eq_ok {kind : KeyKind} {literal : String} {k : MapKey} :
    entryKey kind literal = .ok k ↔ literal ≠ "" ∧ kind.readKey literal = .ok k := by
  rw [entryKey, Key.require, KeyKind.decode]
  by_cases hempty : literal = ""
  · simp [hempty, bind, Except.bind]
  · cases kind.readKey literal <;> simp [hempty, bind, Except.bind]

/-! ## Steps through maps and lists -/

/-- A walk that steps into an entry or element, which `text` addresses, and goes
on along `rest`.  Failures of the step are reported under `key`. -/
def walkItem (S : Schema σ) (o : Options) (e : Event) (c : Node σ) (text : String) (mode : Mode)
    (key : String) (rest : List String) : Node σ × Except SyncError Unit :=
  match if e.action = .delete then (c, Place.address <$> S.findItem o c text mode)
      else S.createItem o c text mode with
  | (m, .error err) => (m, .error (.pathNotFound key err))
  | (m, .ok a) =>
      match m.get? a with
      | none => (m, .error (.pathNotFound key (.entryNotFound key)))
      | some child => m.putBack a (S.walk o e child rest)

/-- At a map or a list a walk steps into an entry or element. -/
theorem walk_item (hS : S.Sound False) (hc : S.Typed False c) (hready : Ready c)
    (hrecord : ∀ type fields, c.container ≠ .record type fields) :
    S.walk o e c (key :: rest) = S.walkItem o e c key (.ofKey o key) key rest := by
  rw [walkItem]
  by_cases haction : e.action = .delete
  · rw [walk_delete hc hready.bare haction, if_pos haction, find_item hready.bare hrecord]
    cases hitem : S.findItem o c key (.ofKey o key) with
    | error err => rfl
    | ok place =>
        have hget := get?_findItem hitem
        simp only [Functor.map, Except.map, hget]
  · have hstep := walk_create hS (o := o) hc hready haction key rest
    rw [if_neg haction, ← createChild_item hrecord]
    exact hstep

/-! ## Records -/

theorem ready_of_record {type : String} {fields : List (Field × Node σ)}
    (h : c.container = .record type fields) : Ready c := by
  rcases eq_record_of_container h with ⟨state, rfl⟩
  exact ⟨Kind.noConfusion, rfl⟩

/-- What a walk does to the field that its key leads to. -/
def walkField (S : Schema σ) (o : Options) (e : Event) (text key : String) (rest : List String)
    (v : Node σ) : Node σ × Except SyncError Unit :=
  if e.action = .delete then
    match v.core with
    | .error t =>
        (v, .error (.pathNotFound key (.unallocated (if text.isEmpty then v.ty.name else t.name))))
    | .ok d =>
        if text.isEmpty then S.walk o e v rest
        else v.putBack v.coreAddress (S.walkItem o e d text .content key rest)
  else if text.isEmpty then S.walk o e v rest
  else
    (S.allocate v).putBack (S.allocate v).coreAddress
      (S.walkItem o e (S.allocate v).innermost text .content key rest)

/-- A step with text behind the field name, below layers that have a value. -/
theorem walkField_withCore {text : String} (htext : text.isEmpty = false) (hc : c.Bare) (e : Event)
    (key : String) (rest : List String) (n : Node σ) :
    S.walkField o e text key rest (n.withCore c) =
      (n.withCore (S.walkItem o e c text .content key rest).1,
        (S.walkItem o e c text .content key rest).2) := by
  have halloc := isAllocated_withCore n hc
  have hput : (n.withCore c).putBack (n.withCore c).coreAddress
      (S.walkItem o e c text .content key rest) =
      (n.withCore (S.walkItem o e c text .content key rest).1,
        (S.walkItem o e c text .content key rest).2) :=
    Prod.ext (withCore_withCore n hc _) rfl
  rw [walkField, core_eq_ok_innermost halloc, S.allocate_of_isAllocated halloc,
    innermost_withCore n hc]
  simp only [htext, Bool.false_eq_true, if_false]
  split
  · exact hput
  · exact hput

/-- A step with text behind the field name fills the layers, unless it deletes. -/
theorem walkField_allocate {text : String} (htext : text.isEmpty = false) {v : Node σ}
    (h : v.isAllocated = true ∨ e.action ≠ .delete) (key : String) (rest : List String) :
    S.walkField o e text key rest v =
      ((S.allocate v).withCore (S.walkItem o e (S.allocate v).innermost text .content key rest).1,
        (S.walkItem o e (S.allocate v).innermost text .content key rest).2) := by
  rcases h with halloc | haction
  · rw [S.allocate_of_isAllocated halloc]
    have hstep := walkField_withCore (S := S) (o := o) htext (bare_innermost halloc) e key rest v
    rwa [withCore_innermost] at hstep
  · rw [walkField, if_neg haction, if_neg (by simp [htext])]
    rfl

/-- A step that deletes fails at a layer without a value. -/
theorem walkField_missing {v : Node σ} (haction : e.action = .delete)
    (halloc : v.isAllocated = false) (text key : String) (rest : List String) :
    ∃ err, S.walkField o e text key rest v = (v, .error err) := by
  rcases exists_core_eq_error halloc with ⟨t, ht⟩
  rw [walkField, if_pos haction, ht]
  exact ⟨_, rfl⟩

/-- Nothing is deleted below a layer without a value. -/
theorem walkField_unallocated {v : Node σ} (halloc : v.isAllocated = false)
    (haction : e.action = .delete) (text key : String) (rest : List String) :
    (S.walkField o e text key rest v).1 = v := by
  rcases walkField_missing (S := S) (o := o) haction halloc text key rest with ⟨err, h⟩
  rw [h]

theorem keeps_walkItem (hS : S.Sound loops) (e : Event) (c : Node σ) (text : String)
    (mode : Mode) (key : String) (rest : List String) :
    S.Keeps loops c (S.walkItem o e c text mode key rest).1 := by
  have hstep : S.Keeps loops c
      (if e.action = .delete then (c, Place.address <$> S.findItem o c text mode)
        else S.createItem o c text mode).1 := by
    split
    · exact .refl c
    · exact keeps_createItem hS c text mode
  rw [walkItem]
  split
  · rename_i m err heq
    rwa [heq] at hstep
  · rename_i m a heq
    rw [heq] at hstep
    split
    · exact hstep
    · rename_i child hchild
      exact hstep.trans (Keeps.putBack hchild (keeps_walk hS e child rest))

theorem keeps_walkField (hS : S.Sound loops) (e : Event) (text key : String)
    (rest : List String) (v : Node σ) :
    S.Keeps loops v (S.walkField o e text key rest v).1 := by
  rw [walkField]
  split
  · split
    · exact .refl v
    · rename_i d hd
      split
      · exact keeps_walk hS e v rest
      · refine Keeps.putBack (c := d) ?_ (keeps_walkItem hS e d text .content key rest)
        rw [get?_coreAddress, innermost_of_core hd]
  · split
    · exact keeps_walk hS e v rest
    · exact (keeps_allocate hS v).trans (Keeps.putBack (get?_coreAddress _)
        (keeps_walkItem hS e _ text .content key rest))

section Field

variable {type text : String} {fields : List (Field × Node σ)} {i : Nat} {v : Node σ}

/-- A step of a deleting walk from a record to a field that is not the record
itself. -/
theorem walk_field_delete (hc : S.Typed loops c) (hrecord : c.container = .record type fields)
    (haction : e.action = .delete) (hslot : S.slotOf? o false type key = .ok (i, text))
    (hv : c.child? (.field i) = some v) (hne : v.isEnclosing = false) (rest : List String) :
    S.walk o e c (key :: rest) = c.putBack [.field i] (S.walkField o e text key rest v) := by
  have hbare := (ready_of_record hrecord).bare
  have hfind := find_slot hc hrecord hslot hv hne (.ofKey o key)
  have haddress : ∀ place, S.find o c key (.ofKey o key) = .ok place → place.address ≠ [] := by
    intro place hplace
    rcases find_slot_address hc hrecord hslot hv hne hplace with ⟨b, hb⟩
    rw [hb]
    exact List.cons_ne_nil _ _
  have hfield : c.get? [.field i] = some v := by
    simp only [Node.get?, hv, Option.bind_some]
  rw [walk_delete_of_address hbare haction haddress, hfind, walkField, if_pos haction]
  cases hcore : v.core with
  | error t =>
      have halloc : v.isAllocated = false := by
        simp [isAllocated, core?, hcore, Except.toOption]
      simp only [putBack_self hc hfield]
      by_cases htext : text.isEmpty = true
      · simp only [htext, halloc, if_true, Bool.false_eq_true, if_false]
      · simp only [htext, Bool.false_eq_true, if_false]
  | ok d =>
      have halloc := isAllocated_of_core hcore
      have hd : v.get? v.coreAddress = some d := by
        rw [get?_coreAddress, innermost_of_core hcore]
      by_cases htext : text.isEmpty = true
      · simp only [htext, halloc, if_true]
      · simp only [htext, Bool.false_eq_true, if_false, walkItem, if_pos haction]
        cases hitem : S.findItem o d text .content with
        | error err =>
            simp only [Functor.map, Except.map, putBack_self (hc.get hfield) hd,
              putBack_self hc hfield]
        | ok place =>
            have hget := get?_findItem hitem
            simp only [Functor.map, Except.map, hget]
            rw [← putBack_append hd, ← putBack_append hfield]
            rfl

/-- A step of a creating walk from a record to a field that is not the record
itself. -/
theorem walk_field_create (hS : S.Sound loops) (hc : S.Typed loops c)
    (hrecord : c.container = .record type fields) (haction : e.action ≠ .delete)
    (hslot : S.slotOf? o false type key = .ok (i, text)) (hv : c.child? (.field i) = some v)
    (hne : v.isEnclosing = false)
    (hopens : ∀ m a child, S.createChild o c key (.ofKey o key) = (m, .ok a) →
      m.get? a = some child → S.Opens o e rest child) :
    S.walk o e c (key :: rest) = c.putBack [.field i] (S.walkField o e text key rest v) := by
  have hready := ready_of_record hrecord
  have hcreate := createChild_slot hc hrecord hslot hv hne (.ofKey o key)
  have haddress : ∀ m a, S.createChild o c key (.ofKey o key) = (m, .ok a) → a ≠ [] := by
    intro m a hmade
    rcases createChild_slot_address hc hrecord hslot hv hne (congrArg Prod.snd hmade) with
      ⟨b, rfl⟩
    exact List.cons_ne_nil _ _
  rw [walk_create_of_opens hS hready haction haddress hopens, hcreate, walkField, if_neg haction]
  by_cases htext : text.isEmpty = true
  · simp only [htext, if_true, Node.get?, hv, Option.bind_some]
  · simp only [htext, Bool.false_eq_true, if_false, walkItem, if_neg haction]
    have hitem := keeps_createItem hS (o := o) (S.allocate v).innermost text .content
    have hmade := (keeps_allocate hS v).trans hitem.withCore
    rcases hr : S.createItem o (S.allocate v).innermost text .content with ⟨inside, _ | b⟩
    · rw [putBack_field hv]
      rfl
    · rw [hr] at hmade
      simp only [Functor.map, Except.map, get?_putField hv hmade.ty_eq]
      cases hchild : inside.get? b with
      | none =>
          rw [putBack_field hv]
          rfl
      | some child =>
          have hput := Keeps.putBack hchild (keeps_walk hS (o := o) e child rest)
          rw [hr] at hitem
          exact putBack_putField hv hmade.ty_eq
            ((keeps_allocate hS v).trans (hitem.trans hput).withCore).ty_eq

/-- At a record of a tree a walk changes the field that its key leads to. -/
theorem walk_field (hS : S.Sound False) (hc : S.Typed False c)
    (hrecord : c.container = .record type fields) (key : String) (rest : List String) :
    match S.slotOf? o false type key with
    | .error err => S.walk o e c (key :: rest) = (c, .error (.pathNotFound key err))
    | .ok (i, text) => ∃ v, c.child? (.field i) = some v ∧
        S.walk o e c (key :: rest) = c.putBack [.field i] (S.walkField o e text key rest v) := by
  have hready := ready_of_record hrecord
  have hfind := find_record hc hrecord o key (.ofKey o key)
  have hcreate := createChild_record hc hrecord o key (.ofKey o key)
  cases hslot : S.slotOf? o false type key with
  | error err =>
      rw [hslot] at hfind hcreate
      by_cases haction : e.action = .delete
      · simp only [walk_delete hc hready.bare haction, hfind]
      · simp only [walk_create hS hc hready haction, hcreate]
  | ok slot =>
      obtain ⟨i, text⟩ := slot
      rw [hslot] at hfind
      rcases hfind with ⟨v, hv, -⟩
      have hne := (hc.child hv).isEnclosing_eq_false
      refine ⟨v, hv, ?_⟩
      by_cases haction : e.action = .delete
      · exact walk_field_delete hc hrecord haction hslot hv hne rest
      · refine walk_field_create hS hc hrecord haction hslot hv hne fun m a child hmade hget => ?_
        have hm := (keeps_createChild hS (o := o) c key (.ofKey o key)).typed hc
        rw [hmade] at hm
        exact walk_allocate hS (hm.get hget) haction rest

/-- A walk from a record does what its key does to the field that it leads to. -/
theorem walk_slot (hS : S.Sound False) (hc : S.Typed False c)
    (hrecord : c.container = .record type fields) (hv : c.child? (.field i) = some v)
    (hslot : S.slotOf? o false type key = .ok (i, text)) (rest : List String) :
    S.walk o e c (key :: rest) = c.putBack [.field i] (S.walkField o e text key rest v) := by
  have hstep := walk_field hS (o := o) (e := e) hc hrecord key rest
  rw [hslot] at hstep
  rcases hstep with ⟨u, hu, hstep⟩
  obtain rfl := Option.some.inj (hv.symm.trans hu)
  exact hstep

end Field

/-! ## Maps -/

/-- The map with the entry under a key changed, beside the result of the change. -/
def changeEntry {α : Type} (c : Node σ) (key : MapKey)
    (change : Option (Node σ) → Option (Node σ) × α) : Node σ × α :=
  (c.alterEntry key (change (c.child? (.entry key))).1, (change (c.child? (.entry key))).2)

/-- What a walk does to the entry that its key spells. -/
def walkEntry (S : Schema σ) (o : Options) (e : Event) (elem : Ty) (text key : String)
    (rest : List String) : Option (Node σ) → Option (Node σ) × Except SyncError Unit
  | some v => (some (S.walk o e v rest).1, (S.walk o e v rest).2)
  | none =>
      if e.action = .delete then (none, .error (.pathNotFound key (.entryNotFound text)))
      else (some (S.walk o e (S.zero elem) rest).1, (S.walk o e (S.zero elem) rest).2)

section Map

variable {kind : KeyKind} {elem : Ty} {entries : List (MapKey × Node σ)} {text : String}
  {mode : Mode}

theorem findItem_of_map (h : c.container = .map kind elem entries) :
    S.findItem o c text mode =
      entryKey kind text >>= fun k =>
        match c.child? (.entry k) with
        | some v => .ok ⟨[.entry k], v⟩
        | none => .error (.entryNotFound text) := by
  rw [findItem, entryKey, h]
  simp only [child?_entry h]
  cases Key.require text with
  | error err => rfl
  | ok _ => rfl

theorem createItem_of_map (h : c.container = .map kind elem entries) :
    S.createItem o c text mode =
      match entryKey kind text with
      | .error err => (c, .error err)
      | .ok k =>
          match c.child? (.entry k) with
          | some _ => (c, .ok [.entry k])
          | none => (c.putChild (.entry k) (S.zero elem), .ok [.entry k]) := by
  rw [createItem, h]
  simp only [child?_entry h]
  rfl

theorem walkItem_of_error (h : c.container = .map kind elem entries) {err : NavError}
    (hk : entryKey kind text = .error err) :
    S.walkItem o e c text mode key rest = (c, .error (.pathNotFound key err)) := by
  rw [walkItem, findItem_of_map h, createItem_of_map h, hk]
  by_cases haction : e.action = .delete
  · rw [if_pos haction]
    rfl
  · rw [if_neg haction]

/-- At a map a walk changes the entry that its key spells. -/
theorem walkItem_entry (hS : S.Sound False) (h : c.container = .map kind elem entries)
    {k : MapKey} (hk : entryKey kind text = .ok k) :
    S.walkItem o e c text mode key rest =
      changeEntry c k (S.walkEntry o e elem text key rest) := by
  rw [walkItem, findItem_of_map h, createItem_of_map h, hk]
  by_cases haction : e.action = .delete
  · rw [if_pos haction]
    cases hv : c.child? (.entry k) with
    | none =>
        simp only [bind, Except.bind, hv, Functor.map, Except.map, changeEntry, walkEntry, haction,
          if_true]
        rw [alterEntry_none h hv]
    | some v =>
        simp only [bind, Except.bind, hv, Functor.map, Except.map, changeEntry, walkEntry,
          Node.get?, Option.bind_some, putBack, replaceAt]
        rfl
  · rw [if_neg haction]
    cases hv : c.child? (.entry k) with
    | none =>
        have hmade := child?_putEntry h (admits_of_entryKey hk) (S.ty_zero elem)
        have hwalk := keeps_walk hS (o := o) e (S.zero elem) rest
        simp only [hv, Node.get?, hmade, Option.bind_some, putBack, replaceAt, changeEntry,
          walkEntry, haction, if_false, alterEntry]
        rw [putEntry_putEntry h k (S.ty_zero elem) (hwalk.ty_eq.trans (S.ty_zero elem))]
    | some v =>
        simp only [hv, changeEntry, walkEntry, Node.get?, Option.bind_some, putBack, replaceAt]
        rfl

/-! ## The leaf at a map -/

/-- What writing or shaping does to an entry: a new entry is stored only if that
succeeds. -/
def slotEntry (act : Node σ → Node σ × Except NavError Unit) (fresh : Node σ) :
    Option (Node σ) → Option (Node σ) × Except NavError Unit
  | some v => (some (act v).1, (act v).2)
  | none =>
      match act fresh with
      | (v, .ok ()) => (some v, .ok ())
      | (_, .error err) => (none, .error err)

theorem writeItem_of_map (h : c.container = .map kind elem entries) {payload : Payload σ} :
    S.writeItem o c text payload mode =
      match entryKey kind text with
      | .error err => (c, .error err)
      | .ok k =>
          changeEntry c k (slotEntry (S.setSlot o · payload) (S.zero elem)) := by
  have hentry : (Key.require text >>= fun _ => kind.decode text) = entryKey kind text := rfl
  rw [writeItem, h]
  simp only [hentry]
  cases hk : entryKey kind text with
  | error err => rfl
  | ok k =>
      simp only [← child?_entry h]
      cases hv : c.child? (.entry k) with
      | none =>
          simp only [changeEntry, hv, slotEntry]
          rcases S.setSlot o (S.zero elem) payload with ⟨v, _ | _⟩
          · simp only [alterEntry_none h hv]
          · rfl
      | some v =>
          simp only [changeEntry, hv, slotEntry, putBack, replaceAt]
          rfl

theorem shapeItem_of_map (h : c.container = .map kind elem entries) {shape : Shape} :
    S.shapeItem o c text shape mode =
      match entryKey kind text with
      | .error err => (c, .error err)
      | .ok k => changeEntry c k (slotEntry (S.shapeSlot · shape) (S.zero elem)) := by
  have hentry : (Key.require text >>= fun _ => kind.decode text) = entryKey kind text := rfl
  rw [shapeItem, h]
  simp only [hentry]
  cases hk : entryKey kind text with
  | error err => rfl
  | ok k =>
      simp only [← child?_entry h]
      cases hv : c.child? (.entry k) with
      | none =>
          simp only [changeEntry, hv, slotEntry]
          rcases S.shapeSlot (S.zero elem) shape with ⟨v, _ | _⟩
          · simp only [alterEntry_none h hv]
          · rfl
      | some v =>
          simp only [changeEntry, hv, slotEntry, putBack, replaceAt]
          rfl

theorem removeItem_of_map (h : c.container = .map kind elem entries) :
    S.removeItem o c text mode = entryKey kind text >>= fun k => .ok (c.alterEntry k none) := by
  rw [removeItem, h, entryKey]
  cases Key.require text with
  | error err => rfl
  | ok _ => rfl

/-- What an event does to the entry under its key. -/
def performEntry (S : Schema σ) (o : Options) (e : Event) (elem : Ty) (old : Option (Node σ)) :
    Option (Node σ) × Except SyncError Unit :=
  let changed : Option (Node σ) × Except NavError Unit :=
    if e.action = .delete then (none, .ok ())
    else
      match e.tag.shape? with
      | some shape => slotEntry (S.shapeSlot · shape) (S.zero elem) old
      | none =>
          slotEntry (S.setSlot o · (.literal e.value (some (e.tag.document e.value))))
            (S.zero elem) old
  (changed.1, changed.2.mapError .navigation)

theorem ready_of_map (h : c.container = .map kind elem entries) : Ready c := by
  rcases eq_map_of_container h with ⟨order, rfl⟩ | ⟨-, -, others, rfl⟩
  · exact ⟨Kind.noConfusion, rfl⟩
  · exact ⟨Kind.noConfusion, rfl⟩

/-- At a map an event changes the entry that its key spells. -/
theorem perform_entry (h : c.container = .map kind elem entries) :
    match entryKey kind e.key with
    | .error err => S.perform o e c = (c, .error (.navigation err))
    | .ok k => S.perform o e c = changeEntry c k (S.performEntry o e elem) := by
  have hready := ready_of_map h
  have hwrite : ∀ payload mode,
      S.write o c e.key payload mode = S.writeItem o c e.key payload mode := by
    intro payload mode
    rw [write, S.allocate_of_bare hready.bare, innermost_of_bare hready.bare]
    simp only [h, putBack_of_bare hready.bare]
  have hshape : ∀ shape mode,
      S.materialize o c e.key shape mode = S.shapeItem o c e.key shape mode := by
    intro shape mode
    rw [materialize, S.allocate_of_bare hready.bare, innermost_of_bare hready.bare]
    simp only [h, putBack_of_bare hready.bare]
  have hrecord : ∀ type fields, c.container ≠ .record type fields := by
    intro type fields
    rw [h]
    simp
  by_cases haction : e.action = .delete
  · rw [perform_of_delete haction, remove_item hready.bare hrecord, removeItem_of_map h]
    cases hk : entryKey kind e.key with
    | error err => rfl
    | ok k =>
        simp only [bind, Except.bind, changeEntry, performEntry, if_pos haction]
        rfl
  · cases htag : e.tag.shape? with
    | some shape =>
        rw [perform_of_shape haction htag, promote_of_ready hready, hshape, shapeItem_of_map h]
        cases hk : entryKey kind e.key with
        | error err => rfl
        | ok k =>
            simp only [changeEntry, performEntry, if_neg haction, htag]
            rfl
    | none =>
        rw [perform_of_literal haction htag, promote_of_ready hready, hwrite, writeItem_of_map h]
        cases hk : entryKey kind e.key with
        | error err => rfl
        | ok k =>
            simp only [changeEntry, performEntry, if_neg haction, htag]
            rfl

end Map

/-! ## The leaf at a record -/

/-- What an event does to the field that its key leads to. -/
def performField (S : Schema σ) (o : Options) (e : Event) (text : String) (v : Node σ) :
    Node σ × Except SyncError Unit :=
  ofNavigation <|
    if e.action = .delete then
      if text.isEmpty then (S.reset v, .ok ())
      else
        match v.core with
        | .error t => (v, .error (.unallocated t.name))
        | .ok d =>
            match S.removeItem o d text .content with
            | .ok m => (v.withCore m, .ok ())
            | .error err => (v, .error err)
    else
      match e.tag.shape? with
      | some shape =>
          if text.isEmpty then S.shapeSlot v shape
          else
            (S.allocate v).putBack (S.allocate v).coreAddress
              (S.shapeItem o (S.allocate v).innermost text shape .content)
      | none =>
          if text.isEmpty then
            S.setSlot o v (.literal e.value (some (e.tag.document e.value)))
          else
            (S.allocate v).putBack (S.allocate v).coreAddress
              (S.writeItem o (S.allocate v).innermost text
                (.literal e.value (some (e.tag.document e.value))) .content)

/-- The field that a leaf key leads to keeps its type. -/
theorem keeps_performField (hS : S.Sound loops) (e : Event) (text : String) (v : Node σ) :
    S.Keeps loops v (S.performField o e text v).1 := by
  have hbelow : ∀ r : Node σ × Except NavError Unit, S.Keeps loops (S.allocate v).innermost r.1 →
      S.Keeps loops v ((S.allocate v).putBack (S.allocate v).coreAddress r).1 :=
    fun r hr => (keeps_allocate hS v).trans (Keeps.putBack (get?_coreAddress _) hr)
  rw [performField, ofNavigation]
  by_cases haction : e.action = .delete
  · rw [if_pos haction]
    split
    · exact keeps_reset hS v
    · split
      · exact .refl v
      · rename_i d hd
        obtain rfl := innermost_of_core hd
        split
        · rename_i m hm
          exact (keeps_removeItem hm).withCore
        · exact .refl v
  · rw [if_neg haction]
    split
    · rename_i shape _
      split
      · exact keeps_shapeSlot hS v shape
      · exact hbelow _ (keeps_shapeItem hS _ text shape .content)
    · have hcarries := S.carries_event loops e
      split
      · exact keeps_setSlot hS hcarries v
      · exact hbelow _ (keeps_writeItem hS hcarries _ text .content)

section LeafField

variable {type text : String} {fields : List (Field × Node σ)} {i : Nat} {v : Node σ}

/-- At a record an event fails if its key leads to no field that it can write. -/
theorem perform_field_error (hrecord : c.container = .record type fields) {err : NavError}
    (hplace : writableField o c type fields e.key = .error err) :
    S.perform o e c = (c, .error (.navigation err)) := by
  have hready := ready_of_record hrecord
  by_cases haction : e.action = .delete
  · rw [perform_of_delete haction, remove, core_of_bare hready.bare]
    simp only [hrecord, hplace]
    rfl
  · cases htag : e.tag.shape? with
    | some shape =>
        rw [perform_of_shape haction htag, promote_of_ready hready, materialize,
          S.allocate_of_bare hready.bare, innermost_of_bare hready.bare]
        simp only [hrecord, hplace, putBack_of_bare hready.bare]
        rfl
    | none =>
        rw [perform_of_literal haction htag, promote_of_ready hready, write,
          S.allocate_of_bare hready.bare, innermost_of_bare hready.bare]
        simp only [hrecord, hplace, putBack_of_bare hready.bare]
        rfl

theorem perform_field_delete (hc : S.Typed loops c) (hrecord : c.container = .record type fields)
    (haction : e.action = .delete) (hv : c.child? (.field i) = some v)
    (hplace : writableField o c type fields e.key = .ok (⟨[.field i], v⟩, text)) :
    S.perform o e c = c.putBack [.field i] (S.performField o e text v) := by
  have hbare := (ready_of_record hrecord).bare
  have hfield : c.get? [.field i] = some v := by
    simp only [Node.get?, hv, Option.bind_some]
  rw [perform_of_delete haction, remove, core_of_bare hbare, performField, if_pos haction]
  simp only [hrecord, hplace, coreAddress_of_bare hbare, bind, Except.bind]
  by_cases htext : text.isEmpty = true
  · simp only [htext, if_true]
    rfl
  · simp only [htext, Bool.false_eq_true, if_false]
    cases hcore : v.core with
    | error t => exact (putBack_self hc hfield _).symm
    | ok d =>
        cases hitem : S.removeItem o d text .content with
        | error err =>
            simp only [hitem]
            exact (putBack_self hc hfield _).symm
        | ok m =>
            simp only [hitem]
            rfl

theorem perform_field_create (hrecord : c.container = .record type fields)
    (haction : e.action ≠ .delete) {place : Place σ}
    (hplace : writableField o c type fields e.key = .ok (place, text)) :
    S.perform o e c = c.putBack place.address (S.performField o e text place.node) := by
  have hready := ready_of_record hrecord
  cases htag : e.tag.shape? with
  | some shape =>
      rw [perform_of_shape haction htag, promote_of_ready hready, materialize,
        S.allocate_of_bare hready.bare, innermost_of_bare hready.bare, performField,
        if_neg haction, htag]
      simp only [hrecord, hplace, putBack_of_bare hready.bare]
      rfl
  | none =>
      rw [perform_of_literal haction htag, promote_of_ready hready, write,
        S.allocate_of_bare hready.bare, innermost_of_bare hready.bare, performField,
        if_neg haction, htag]
      simp only [hrecord, hplace, putBack_of_bare hready.bare]
      rfl

/-- At a record an event changes the field that its key leads to, if that is not the
record itself. -/
theorem perform_field (hc : S.Typed loops c) (hrecord : c.container = .record type fields) :
    match S.slotOf? o true type e.key with
    | .error err => S.perform o e c = (c, .error (.navigation err))
    | .ok (i, text) => ∃ v, c.child? (.field i) = some v ∧ (v.isEnclosing = false →
        S.perform o e c = c.putBack [.field i] (S.performField o e text v)) := by
  have hplace := writableField_record hc hrecord o e.key
  cases hslot : S.slotOf? o true type e.key with
  | error err =>
      rw [hslot] at hplace
      exact perform_field_error hrecord hplace
  | ok slot =>
      obtain ⟨i, text⟩ := slot
      rw [hslot] at hplace
      rcases hplace with ⟨v, hv, hplace⟩
      refine ⟨v, hv, fun hne => ?_⟩
      by_cases haction : e.action = .delete
      · exact perform_field_delete hc hrecord haction hv (hplace hne)
      · exact perform_field_create hrecord haction (hplace hne)

end LeafField

/-! ## Other fields -/

section Other

variable {type text segment : String} {fields : List (Field × Node σ)} {i j : Nat}

/-- A step from a record touches only the field that its key leads to, and goes on
there or below, unless that field is the record itself. -/
theorem enter_record (hc : S.Typed loops c) (hrecord : c.container = .record type fields)
    (action : Action) (hslot : S.slotOf? o false type key = .ok (i, text))
    (hself : ¬ S.Itself type i) (hne : i ≠ j) :
    (S.enter o action c key).1.child? (.field j) = c.child? (.field j) ∧
      ∀ a, (S.enter o action c key).2 = .ok a → ∃ b, a = .field i :: b := by
  have hready := ready_of_record hrecord
  have hstep := find_record hc hrecord o key (.ofKey o key)
  rw [hslot] at hstep
  rcases hstep with ⟨v, hv, -⟩
  have hown := isEnclosing_of_not_itself hc hrecord hv hself
  by_cases haction : action = .delete
  · rw [haction, enter_delete]
    refine ⟨rfl, fun a ha => ?_⟩
    rcases map_eq_ok.1 ha with ⟨place, hplace, rfl⟩
    exact find_slot_address hc hrecord hslot hv hown hplace
  · have hmade : (S.createChild o c key (.ofKey o key)).1.child? (.field j) =
        c.child? (.field j) := by
      rw [createChild_slot hc hrecord hslot hv hown]
      split
      · rfl
      · exact child?_putField_of_ne c hne _
    rw [enter_create hready haction]
    rcases hcreate : S.createChild o c key (.ofKey o key) with ⟨m, _ | a⟩
    · rw [hcreate] at hmade
      exact ⟨hmade, fun a ha => by simp at ha⟩
    · rw [hcreate] at hmade
      rcases createChild_slot_address hc hrecord hslot hv hown (congrArg Prod.snd hcreate) with
        ⟨b, rfl⟩
      cases hget : m.get? (.field i :: b) with
      | none =>
          simp only [hget]
          exact ⟨hmade, fun a ha => by simp at ha⟩
      | some child =>
          simp only [hget]
          refine ⟨(child?_replaceAt_of_ne m hne b _).trans hmade, fun a ha => ?_⟩
          exact ⟨b ++ (S.allocate child).coreAddress, (Except.ok.inj ha).symm⟩

/-- The action at a record leaves every field that its key does not lead to, unless
the key leads to the record itself. -/
theorem child?_perform_of_ne (hc : S.Typed loops c) (hrecord : c.container = .record type fields)
    (hother : ∀ i text, S.slotOf? o false type e.key = .ok (i, text) →
      ¬ S.Itself type i ∧ i ≠ j) :
    (S.perform o e c).1.child? (.field j) = c.child? (.field j) := by
  have hperform := perform_field (o := o) (e := e) hc hrecord
  cases hslot : S.slotOf? o true type e.key with
  | error err =>
      rw [hslot] at hperform
      rw [hperform]
  | ok slot =>
      obtain ⟨i, text⟩ := slot
      rw [hslot] at hperform
      rcases hperform with ⟨v, hv, hperform⟩
      rcases hother i text (slotOf_read hslot) with ⟨hself, hne⟩
      have hown := isEnclosing_of_not_itself hc hrecord hv hself
      rw [hperform hown, putBack_field hv]
      exact child?_putField_of_ne c hne _

/-- An event at or below a record leaves every field that its next segment does not
lead to, unless the segment leads to the record itself. -/
theorem child?_walk_of_ne (hc : S.Typed loops c) (hrecord : c.container = .record type fields)
    {path : List String} (hhead : (path ++ [e.key]).head? = some segment)
    (hother : ∀ i text, S.slotOf? o false type segment = .ok (i, text) →
      ¬ S.Itself type i ∧ i ≠ j) :
    (S.walk o e c path).1.child? (.field j) = c.child? (.field j) := by
  cases path with
  | nil =>
      obtain rfl := Option.some.inj hhead
      rw [walk]
      exact child?_perform_of_ne hc hrecord hother
  | cons key rest =>
      obtain rfl := Option.some.inj hhead
      rw [walk]
      cases hslot : S.slotOf? o false type key with
      | error err =>
          have hfind := find_record hc hrecord o key (.ofKey o key)
          have hcreate := createChild_record hc hrecord o key (.ofKey o key)
          rw [hslot] at hfind hcreate
          by_cases haction : e.action = .delete
          · rw [haction, enter_delete, hfind]
            rfl
          · rw [enter_create (ready_of_record hrecord) haction, hcreate]
      | ok slot =>
          obtain ⟨i, text⟩ := slot
          rcases hother i text hslot with ⟨hself, hne⟩
          rcases enter_record hc hrecord e.action hslot hself hne with ⟨hmade, haddress⟩
          rcases henter : S.enter o e.action c key with ⟨m, _ | a⟩
          · rw [henter] at hmade
            exact hmade
          · rw [henter] at hmade haddress
            rcases haddress a rfl with ⟨b, rfl⟩
            cases hget : m.get? (.field i :: b) with
            | none =>
                simp only [hget]
                exact hmade
            | some child =>
                simp only [hget]
                split
                · exact hmade
                · exact (child?_replaceAt_of_ne m hne b _).trans hmade

end Other

/-! ## The next segment -/

/-- At a record an event changes the field that its next segment leads to, or
nothing at all. -/
theorem walk_at_record (hS : S.Sound False) (type : String) {path : List String}
    (hhead : (path ++ [e.key]).head? = some key) :
    (∃ r, ∀ c fields, S.Typed False c → c.container = .record type fields →
      S.walk o e c path = (c, r)) ∨
    ∃ (i : Nat) (text : String) (change : Node σ → Node σ × Except SyncError Unit),
      S.slotOf? o false type key = .ok (i, text) ∧ ∀ c fields, S.Typed False c →
        c.container = .record type fields → ∃ v, c.child? (.field i) = some v ∧
          S.walk o e c path = c.putBack [.field i] (change v) := by
  cases path with
  | nil =>
      obtain rfl := Option.some.inj hhead
      cases hslot : S.slotOf? o true type e.key with
      | error err =>
          left
          refine ⟨.error (.navigation err), fun c fields hc hrecord => ?_⟩
          have hperform := perform_field (o := o) (e := e) hc hrecord
          rwa [hslot] at hperform
      | ok slot =>
          obtain ⟨i, text⟩ := slot
          right
          refine ⟨i, text, S.performField o e text, slotOf_read hslot, ?_⟩
          intro c fields hc hrecord
          have hperform := perform_field (o := o) (e := e) hc hrecord
          rw [hslot] at hperform
          rcases hperform with ⟨v, hv, hperform⟩
          exact ⟨v, hv, hperform (hc.child hv).isEnclosing_eq_false⟩
  | cons other rest =>
      obtain rfl := Option.some.inj hhead
      cases hslot : S.slotOf? o false type other with
      | error err =>
          left
          refine ⟨.error (.pathNotFound other err), fun c fields hc hrecord => ?_⟩
          have hwalk := walk_field hS (o := o) (e := e) hc hrecord other rest
          rwa [hslot] at hwalk
      | ok slot =>
          obtain ⟨i, text⟩ := slot
          right
          refine ⟨i, text, S.walkField o e text other rest, rfl, fun c fields hc hrecord => ?_⟩
          have hwalk := walk_field hS (o := o) (e := e) hc hrecord other rest
          rwa [hslot] at hwalk

/-- At a map an event changes the entry that its next segment spells, or nothing
at all. -/
theorem walk_at_map (hS : S.Sound False) (kind : KeyKind) (elem : Ty) {path : List String}
    (hhead : (path ++ [e.key]).head? = some key) :
    (∃ r, ∀ c entries, S.Typed False c → c.container = .map kind elem entries →
      S.walk o e c path = (c, r)) ∨
    ∃ (k : MapKey) (change : Option (Node σ) → Option (Node σ) × Except SyncError Unit),
      entryKey kind key = .ok k ∧ ∀ c entries, S.Typed False c →
        c.container = .map kind elem entries → S.walk o e c path = changeEntry c k change := by
  cases path with
  | nil =>
      obtain rfl := Option.some.inj hhead
      cases hk : entryKey kind e.key with
      | error err =>
          left
          refine ⟨.error (.navigation err), fun c entries _ hmap => ?_⟩
          have hperform := perform_entry (S := S) (o := o) (e := e) hmap
          rwa [hk] at hperform
      | ok k =>
          right
          refine ⟨k, S.performEntry o e elem, rfl, fun c entries _ hmap => ?_⟩
          have hperform := perform_entry (S := S) (o := o) (e := e) hmap
          rwa [hk] at hperform
  | cons other rest =>
      obtain rfl := Option.some.inj hhead
      have hitem : ∀ c entries, S.Typed False c → c.container = .map kind elem entries →
          S.walk o e c (other :: rest) = S.walkItem o e c other (.ofKey o other) other rest := by
        intro c entries hc hmap
        refine walk_item hS hc (ready_of_map hmap) fun type fields => ?_
        rw [hmap]
        simp
      cases hk : entryKey kind other with
      | error err =>
          left
          refine ⟨.error (.pathNotFound other err), fun c entries hc hmap => ?_⟩
          rw [hitem c entries hc hmap, walkItem_of_error hmap hk]
      | ok k =>
          right
          refine ⟨k, S.walkEntry o e elem other other rest, rfl, fun c entries hc hmap => ?_⟩
          rw [hitem c entries hc hmap, walkItem_entry hS hmap hk]

end Schema

end TreeSync

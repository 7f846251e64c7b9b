import TreeSync.Navigate.Materialize
import TreeSync.Navigate.Remove
import TreeSync.Proofs.Navigate.Places
import TreeSync.Proofs.Node.Typed
import TreeSync.Proofs.Path.Bracketed

/-!
# Record slots

Every record of a type has the same fields.  So the type alone decides which field
a key leads to, and what navigation does at the key depends on nothing but the
node in that field, unless the field is the record itself.  No field of a tree is.

Main definitions and results:

- `Schema.slotOf?`: the field that a key leads to, and the text behind its name.
- `Schema.slotOf_append`, `Schema.slotOf_bracketed`: bracket groups in a key.
- `Schema.Itself`: a field that is the record itself.
- `Schema.fieldPlace_record`, `Schema.writableField_record`: look-ups in a record.
- `Schema.find_record`, `Schema.createChild_record`: steps from a record.
-/

namespace TreeSync

/-- No field has an empty name. -/
theorem Field.index_empty (o : Options) (fields : List Field) :
    Field.index? o "" fields = none := by
  have hname : fields.findIdx? (fun f => f.name == "") = none :=
    List.findIdx?_eq_none_iff.2 fun f _ => by simpa using f.name_ne
  have hloose : fields.findIdx? (fun f => Field.loosely f.name "") = none := by
    refine List.findIdx?_eq_none_iff.2 fun f _ => ?_
    have hne := f.name_ne
    simpa [Field.loosely] using hne
  have hsecond : fields.findIdx? (fun f => f.secondName == some "") = none :=
    List.findIdx?_eq_none_iff.2 fun f _ => by simpa using f.secondName_ne
  simp only [Field.index?, hname, hloose, hsecond, ite_self]

namespace Schema

open Node

variable {σ : Type} {S : Schema σ} {o : Options} {loops : Prop} {write : Bool}
  {type name key : String} {c v : Node σ} {fields : List (Field × Node σ)} {i : Nat}

/-- The position of the field that a name stands for in records of a type. -/
def fieldOf? (S : Schema σ) (o : Options) (write : Bool) (type name : String) :
    Except NavError Nat :=
  match Field.index? o name ((S.signature type).map Prod.fst) with
  | none => .error (.fieldNotFound name type)
  | some i =>
      match ((S.signature type).map Prod.fst)[i]? with
      | none => .error (.fieldNotFound name type)
      | some f => if write && !f.writable then .error (.notSettable f.name type) else .ok i

/-- The position of the field that a key leads to in records of a type, and the
text behind its name. -/
def slotOf? (S : Schema σ) (o : Options) (write : Bool) (type key : String) :
    Except NavError (Nat × String) := do
  Key.require key
  let (name, text) ← Key.splitField key
  let i ← S.fieldOf? o write type name
  return (i, text)

/-- A name that leads to a writable field leads to the same field for reading. -/
theorem fieldOf_read
    (h : S.fieldOf? o write type name = .ok i) : S.fieldOf? o false type name = .ok i := by
  rw [fieldOf?] at h ⊢
  split at h
  · simp at h
  · rename_i j hj
    split at h
    · simp at h
    · rename_i f hf
      split at h
      · simp at h
      · obtain rfl := Except.ok.inj h
        rfl

/-- A key that leads to a writable field leads to the same field for reading. -/
theorem slotOf_read {slot : Nat × String} (h : S.slotOf? o write type key = .ok slot) :
    S.slotOf? o false type key = .ok slot := by
  rcases bind_eq_ok.1 h with ⟨u, hrequire, hsplit⟩
  rcases bind_eq_ok.1 hsplit with ⟨parts, hparts, hfield⟩
  rcases bind_eq_ok.1 hfield with ⟨i, hi, hslot⟩
  exact bind_eq_ok.2 ⟨_, hrequire, bind_eq_ok.2 ⟨parts, hparts,
    bind_eq_ok.2 ⟨i, fieldOf_read hi, hslot⟩⟩⟩

/-! ## Bracket groups -/

section Bracketed

variable {text : String}

theorem fieldOf_empty (S : Schema σ) (o : Options) (write : Bool) (type : String) :
    S.fieldOf? o write type "" = .error (.fieldNotFound "" type) := by
  rw [fieldOf?, Field.index_empty]

/-- Bracket groups alone lead to no field. -/
theorem slotOf_bracketed (htext : Key.Bracketed text) (o : Options) (write : Bool)
    (type : String) : S.slotOf? o write type text = .error (.fieldNotFound "" type) := by
  have hsplit : Key.splitField ("" ++ text) = .ok ("", text) :=
    Key.splitField_append (by simp) htext
  rw [String.empty_append] at hsplit
  rw [slotOf?, Key.require, htext.isEmpty_eq, hsplit]
  simp only [bind, Except.bind, fieldOf_empty]
  rfl

/-- Bracket groups behind the name of a field go to what the field holds. -/
theorem slotOf_append (hname : ∀ c ∈ name.toList, c ≠ '[' ∧ c ≠ ']')
    (htext : Key.Bracketed text) (h : S.fieldOf? o write type name = .ok i) :
    S.slotOf? o write type (name ++ text) = .ok (i, text) := by
  have hne : (name ++ text).isEmpty = false := by
    have htail := htext.isEmpty_eq
    simp_all
  rw [slotOf?, Key.require, hne, Key.splitField_append hname htext]
  simp only [bind, Except.bind, h]
  rfl

end Bracketed

/-! ## The fields of a record -/

/-- A field is the record itself.  Its type says so, for a record has no room for
another one of its type. -/
def Itself (S : Schema σ) (type : String) (i : Nat) : Prop :=
  ((S.signature type)[i]?).map Prod.snd = some (.record type)

theorem names_of_typed {state : σ} (hc : S.Typed loops (.record type fields state)) :
    fields.map Prod.fst = (S.signature type).map Prod.fst := by
  cases hc with
  | record types _ _ =>
      rw [← types, List.map_map]
      rfl

/-- A field of a record has the type that the record type says. -/
theorem ty_of_field (hc : S.Typed loops c) (hrecord : c.container = .record type fields)
    (hv : c.child? (.field i) = some v) : ((S.signature type)[i]?).map Prod.snd = some v.ty := by
  rcases eq_record_of_container hrecord with ⟨state, rfl⟩
  cases hc with
  | record types _ _ =>
      rcases Option.map_eq_some_iff.1 hv with ⟨f, hf, rfl⟩
      rw [← types, List.getElem?_map, hf]
      rfl

/-- A field that stands for the record around it is the record itself. -/
theorem itself_of_isEnclosing (hc : S.Typed loops c) (hrecord : c.container = .record type fields)
    (hv : c.child? (.field i) = some v) (h : v.isEnclosing = true) : S.Itself type i := by
  rw [Itself, ty_of_field hc hrecord hv]
  rcases eq_record_of_container hrecord with ⟨state, rfl⟩
  cases hc with
  | record _ within _ =>
      rcases Option.map_eq_some_iff.1 hv with ⟨f, hf, rfl⟩
      rw [within f (List.mem_of_getElem? hf) h]

theorem isEnclosing_of_not_itself (hc : S.Typed loops c)
    (hrecord : c.container = .record type fields) (hv : c.child? (.field i) = some v)
    (hself : ¬ S.Itself type i) : v.isEnclosing = false :=
  Bool.eq_false_iff.2 fun h => hself (itself_of_isEnclosing hc hrecord hv h)

/-- A node of a record type is a record, unless it stands for the one around it. -/
theorem eq_record_of_ty (hne : c.isEnclosing = false) (hty : c.ty = .record type) :
    ∃ fields state, c = .record type fields state := by
  cases c with
  | record other fields state =>
      obtain rfl := Ty.record.inj hty
      exact ⟨fields, state, rfl⟩
  | enclosing other => exact absurd hne (by simp [isEnclosing])
  | _ => simp [ty] at hty

/-- A record stays a record of its type. -/
theorem record_of_keeps {m : Node σ} (h : S.Keeps loops c m) (hc : S.Typed loops c)
    (hrecord : c.container = .record type fields) :
    S.Typed loops m ∧ ∃ others, m.container = .record type others := by
  rcases eq_record_of_container hrecord with ⟨state, rfl⟩
  have hne : m.isEnclosing = false :=
    Bool.eq_false_iff.2 fun hm => Bool.noConfusion (h.enclosing hm)
  rcases eq_record_of_ty hne h.ty_eq with ⟨others, state, rfl⟩
  exact ⟨h.typed hc, others, rfl⟩

/-- The type of a record decides where its fields are.  A field that stands for the
record around it is where the record is. -/
theorem fieldPlace_record (hc : S.Typed loops c) (hrecord : c.container = .record type fields)
    (o : Options) (write : Bool) (name : String) :
    match S.fieldOf? o write type name with
    | .error err => c.fieldPlace o write type fields name = .error err
    | .ok i => ∃ v, c.child? (.field i) = some v ∧
        c.fieldPlace o write type fields name =
          .ok (if v.isEnclosing then ⟨[], c⟩ else ⟨[.field i], v⟩) := by
  rcases eq_record_of_container hrecord with ⟨state, rfl⟩
  rw [fieldOf?, fieldPlace, ← names_of_typed hc]
  cases Field.index? o name (fields.map Prod.fst) with
  | none => rfl
  | some i =>
      simp only [List.getElem?_map]
      cases hf : fields[i]? with
      | none => rfl
      | some f =>
          obtain ⟨f, v⟩ := f
          by_cases hw : (write && !f.writable) = true
          · simp only [Option.map_some, if_pos hw]
          · simp only [Option.map_some, if_neg hw]
            refine ⟨v, by simp [child?, hf], ?_⟩
            cases v with
            | _ => rfl

/-- The type of a record decides which field a key leads to. -/
theorem writableField_record (hc : S.Typed loops c) (hrecord : c.container = .record type fields)
    (o : Options) (key : String) :
    match S.slotOf? o true type key with
    | .error err => writableField o c type fields key = .error err
    | .ok (i, text) => ∃ v, c.child? (.field i) = some v ∧ (v.isEnclosing = false →
        writableField o c type fields key = .ok (⟨[.field i], v⟩, text)) := by
  rw [slotOf?, writableField]
  cases Key.require key with
  | error err => rfl
  | ok _ =>
      cases Key.splitField key with
      | error err => rfl
      | ok parts =>
          obtain ⟨name, text⟩ := parts
          have hplace := fieldPlace_record hc hrecord o true name
          simp only [bind, Except.bind]
          split at hplace
          · rename_i err herr
            rw [herr, hplace]
          · rename_i i hi
            rcases hplace with ⟨v, hv, hplace⟩
            rw [hi]
            refine ⟨v, hv, fun hne => ?_⟩
            rw [hplace, if_neg (Bool.eq_false_iff.1 hne)]
            rfl

/-! ## Steps from records -/

theorem find_record (hc : S.Typed loops c) (hrecord : c.container = .record type fields)
    (o : Options) (key : String) (mode : Mode) :
    match S.slotOf? o false type key with
    | .error err => S.find o c key mode = .error err
    | .ok (i, text) => ∃ v, c.child? (.field i) = some v ∧ (v.isEnclosing = false →
        S.find o c key mode =
          if text.isEmpty then
            if v.isAllocated then .ok ⟨[.field i], v⟩ else .error (.unallocated v.ty.name)
          else
            match v.core with
            | .error t => .error (.unallocated t.name)
            | .ok d =>
                Place.under (.field i :: v.coreAddress) <$> S.findItem o d text .content) := by
  have hbare : c.Bare := by
    rcases eq_record_of_container hrecord with ⟨state, rfl⟩
    exact Kind.noConfusion
  have hunder : ∀ x : Except NavError (Place σ), Place.under [] <$> x = x := by
    intro x
    cases x <;> rfl
  rw [slotOf?, find, core_of_bare hbare]
  simp only [coreAddress_of_bare hbare, hunder, hrecord]
  cases Key.require key with
  | error err => rfl
  | ok _ =>
      cases Key.splitField key with
      | error err => rfl
      | ok parts =>
          obtain ⟨name, text⟩ := parts
          have hplace := fieldPlace_record hc hrecord o false name
          simp only [bind, Except.bind]
          split at hplace
          · rename_i err herr
            rw [herr, hplace]
          · rename_i i hi
            rcases hplace with ⟨v, hv, hplace⟩
            rw [hi]
            refine ⟨v, hv, fun hne => ?_⟩
            rw [hplace, if_neg (Bool.eq_false_iff.1 hne)]
            rfl

theorem createChild_record (hc : S.Typed loops c) (hrecord : c.container = .record type fields)
    (o : Options) (key : String) (mode : Mode) :
    match S.slotOf? o false type key with
    | .error err => S.createChild o c key mode = (c, .error err)
    | .ok (i, text) => ∃ v, c.child? (.field i) = some v ∧ (v.isEnclosing = false →
        S.createChild o c key mode =
          if text.isEmpty then (c, .ok [.field i])
          else
            (c.putChild (.field i) ((S.allocate v).withCore
              (S.createItem o (S.allocate v).innermost text .content).1),
              (fun a => .field i :: (S.allocate v).coreAddress ++ a) <$>
                (S.createItem o (S.allocate v).innermost text .content).2)) := by
  rw [slotOf?, createChild]
  simp only [hrecord]
  cases Key.require key with
  | error err => rfl
  | ok _ =>
      cases Key.splitField key with
      | error err => rfl
      | ok parts =>
          obtain ⟨name, text⟩ := parts
          have hplace := fieldPlace_record hc hrecord o false name
          simp only [bind, Except.bind]
          split at hplace
          · rename_i err herr
            rw [herr, hplace]
          · rename_i i hi
            rcases hplace with ⟨v, hv, hplace⟩
            rw [hi]
            refine ⟨v, hv, fun hne => ?_⟩
            rw [hplace, if_neg (Bool.eq_false_iff.1 hne)]
            simp only [pure, Except.pure, replaceAt, hv]
            rfl

/-- The step to a field that is not the record itself. -/
theorem find_slot (hc : S.Typed loops c) (hrecord : c.container = .record type fields)
    {text : String} (hslot : S.slotOf? o false type key = .ok (i, text))
    (hv : c.child? (.field i) = some v) (hne : v.isEnclosing = false) (mode : Mode) :
    S.find o c key mode =
      if text.isEmpty then
        if v.isAllocated then .ok ⟨[.field i], v⟩ else .error (.unallocated v.ty.name)
      else
        match v.core with
        | .error t => .error (.unallocated t.name)
        | .ok d => Place.under (.field i :: v.coreAddress) <$> S.findItem o d text .content := by
  have hfind := find_record hc hrecord o key mode
  rw [hslot] at hfind
  rcases hfind with ⟨u, hu, hfind⟩
  obtain rfl := Option.some.inj (hv.symm.trans hu)
  exact hfind hne

/-- The step that makes what is missing, to a field that is not the record itself. -/
theorem createChild_slot (hc : S.Typed loops c) (hrecord : c.container = .record type fields)
    {text : String} (hslot : S.slotOf? o false type key = .ok (i, text))
    (hv : c.child? (.field i) = some v) (hne : v.isEnclosing = false) (mode : Mode) :
    S.createChild o c key mode =
      if text.isEmpty then (c, .ok [.field i])
      else
        (c.putChild (.field i) ((S.allocate v).withCore
          (S.createItem o (S.allocate v).innermost text .content).1),
          (fun a => .field i :: (S.allocate v).coreAddress ++ a) <$>
            (S.createItem o (S.allocate v).innermost text .content).2) := by
  have hcreate := createChild_record hc hrecord o key mode
  rw [hslot] at hcreate
  rcases hcreate with ⟨u, hu, hcreate⟩
  obtain rfl := Option.some.inj (hv.symm.trans hu)
  exact hcreate hne

/-- The step leads to the field or below it. -/
theorem find_slot_address (hc : S.Typed loops c) (hrecord : c.container = .record type fields)
    {text : String} (hslot : S.slotOf? o false type key = .ok (i, text))
    (hv : c.child? (.field i) = some v) (hne : v.isEnclosing = false) {mode : Mode}
    {place : Place σ} (h : S.find o c key mode = .ok place) :
    ∃ b, place.address = .field i :: b := by
  rw [find_slot hc hrecord hslot hv hne] at h
  split at h
  · split at h
    · obtain rfl := Except.ok.inj h
      exact ⟨[], rfl⟩
    · simp at h
  · split at h
    · simp at h
    · rcases map_eq_ok.1 h with ⟨item, -, rfl⟩
      exact ⟨v.coreAddress ++ item.address, rfl⟩

theorem createChild_slot_address (hc : S.Typed loops c)
    (hrecord : c.container = .record type fields) {text : String}
    (hslot : S.slotOf? o false type key = .ok (i, text)) (hv : c.child? (.field i) = some v)
    (hne : v.isEnclosing = false) {mode : Mode} {a : Address}
    (h : (S.createChild o c key mode).2 = .ok a) : ∃ b, a = .field i :: b := by
  rw [createChild_slot hc hrecord hslot hv hne] at h
  split at h
  · exact ⟨[], (Except.ok.inj h).symm⟩
  · rcases map_eq_ok.1 h with ⟨b, -, rfl⟩
    exact ⟨(S.allocate v).coreAddress ++ b, rfl⟩

/-! ## Steps from other containers -/

theorem find_item (hbare : c.Bare) (hrecord : ∀ type fields, c.container ≠ .record type fields)
    (o : Options) (key : String) (mode : Mode) :
    S.find o c key mode = S.findItem o c key mode := by
  rw [find, core_of_bare hbare]
  simp only [coreAddress_of_bare hbare]
  cases hcontainer : c.container with
  | record type fields => exact absurd hcontainer (hrecord type fields)
  | _ =>
      cases S.findItem o c key mode with
      | error err => rfl
      | ok place => rfl

theorem createChild_item (hrecord : ∀ type fields, c.container ≠ .record type fields)
    (o : Options) (key : String) (mode : Mode) :
    S.createChild o c key mode = S.createItem o c key mode := by
  rw [createChild]
  cases hcontainer : c.container with
  | record type fields => exact absurd hcontainer (hrecord type fields)
  | _ => rfl

theorem remove_item (hbare : c.Bare) (hrecord : ∀ type fields, c.container ≠ .record type fields)
    (o : Options) (key : String) (mode : Mode) :
    S.remove o c key mode = S.removeItem o c key mode := by
  rw [remove, core_of_bare hbare, coreAddress_of_bare hbare]
  cases hcontainer : c.container with
  | record type fields => exact absurd hcontainer (hrecord type fields)
  | _ =>
      simp only [hcontainer]
      cases S.removeItem o c key mode with
      | error err => rfl
      | ok m => rfl

/-! ## Addresses of children -/

/-- An entry or element is one step away. -/
theorem exists_step_of_findItem {mode : Mode} {place : Place σ}
    (h : S.findItem o c key mode = .ok place) : ∃ s, place.address = [s] := by
  rw [findItem] at h
  split at h
  · rcases bind_eq_ok.1 h with ⟨-, -, hkey⟩
    rcases bind_eq_ok.1 hkey with ⟨k, -, hget⟩
    split at hget
    · obtain rfl := Except.ok.inj hget
      exact ⟨_, rfl⟩
    · simp at hget
  · rcases bind_eq_ok.1 h with ⟨position, -, hget⟩
    split at hget
    · split at hget
      · obtain rfl := Except.ok.inj hget
        exact ⟨_, rfl⟩
      · simp at hget
    · simp at hget
  all_goals simp at h

theorem exists_step_of_createItem {mode : Mode} {a : Address}
    (h : (S.createItem o c key mode).2 = .ok a) : ∃ s, a = [s] := by
  rw [createItem] at h
  split at h
  · split at h
    · simp at h
    · split at h
      · obtain rfl := Except.ok.inj h
        exact ⟨_, rfl⟩
      · obtain rfl := Except.ok.inj h
        exact ⟨_, rfl⟩
  · rcases map_eq_ok.1 h with ⟨i, -, rfl⟩
    exact ⟨_, rfl⟩
  all_goals simp at h

/-- In a tree the child that is found is not the container itself. -/
theorem find_address_ne (hc : S.Typed False c) (hbare : c.Bare) {mode : Mode} {place : Place σ}
    (h : S.find o c key mode = .ok place) : place.address ≠ [] := by
  cases hcontainer : c.container with
  | record type fields =>
      have hfind := find_record hc hcontainer o key mode
      split at hfind
      · rw [hfind] at h
        simp at h
      · rename_i i text hslot
        rcases hfind with ⟨v, hv, -⟩
        have hne := (hc.child hv).isEnclosing_eq_false
        rcases find_slot_address hc hcontainer hslot hv hne h with ⟨b, hb⟩
        rw [hb]
        exact List.cons_ne_nil _ _
  | _ =>
      rw [find, core_of_bare hbare] at h
      simp only [hcontainer] at h
      rcases map_eq_ok.1 h with ⟨item, hitem, rfl⟩
      rw [coreAddress_of_bare hbare]
      rcases exists_step_of_findItem hitem with ⟨s, hs⟩
      rw [Place.under, hs]
      exact List.cons_ne_nil _ _

/-- In a tree the child that is made is not the container itself. -/
theorem createChild_address_ne (hc : S.Typed False c) {mode : Mode} {a : Address}
    (h : (S.createChild o c key mode).2 = .ok a) : a ≠ [] := by
  cases hcontainer : c.container with
  | record type fields =>
      have hcreate := createChild_record hc hcontainer o key mode
      split at hcreate
      · rw [hcreate] at h
        simp at h
      · rename_i i text hslot
        rcases hcreate with ⟨v, hv, -⟩
        have hne := (hc.child hv).isEnclosing_eq_false
        rcases createChild_slot_address hc hcontainer hslot hv hne h with ⟨b, rfl⟩
        exact List.cons_ne_nil _ _
  | _ =>
      rw [createChild] at h
      simp only [hcontainer] at h
      rcases exists_step_of_createItem h with ⟨s, rfl⟩
      exact List.cons_ne_nil _ _

end Schema

end TreeSync
